import Eider.Source.ToolGrammar

/-!
# Raw text in the grammar and string arguments in the parser

The grammar builder and the output parser classify a tool's parameters on their
own. `resolves_to_string` also takes a type list with `"string"` in it, and an
untyped enumeration of strings, as raw text; the parser takes the type `"string"`
only (`LooselyString`). For such a parameter the text `123` is admitted by the
grammar and becomes a number (`loosely_string_becomes_number`).

`raw_text_read_back_iff` states exactly when both sides agree and a pushed call is
read back: no schema is of that kind, no body has a `</parameter>` or `</tool_call>`
in it, raw text does not end with a carriage return, which the parser takes for a
part of the line break before the closing tag, and the other bodies are JSON.
-/
namespace Eider.Guarantees.StringArguments
open Lib Lib.Search Source List BTreeMap

variable {t r name : Text} {strings : BTreeMap Text (BTreeSet Text)}
variable {m m' : BTreeMap Text Value} {fuel : Nat} {tools : List ChatTool}

/-! ## The property and the condition -/

/-- A list of types with `"string"` in it, or a nonempty enumeration of strings
without a type. -/
def LooselyString (schema : Value) : Prop :=
  match schema.index "type" with
  | .string _ => False
  | .array kinds => ∃ kind ∈ kinds, kind.asStr = some "string".toList
  | _ => ∃ values, (schema.index "enum").asArray = some values ∧ values ≠ [] ∧
      ∀ value ∈ values, value.asStr.isSome

/-- The parser has the parameter among the string arguments. -/
def IsStringArgument (p : ChatOutputParser) (function parameter : Text) : Prop :=
  (p.stringArguments.get function).any (·.contains parameter) = true

section
variable (fromStr : Text → Except Text Value)

/-- The argument that a body stands for: the text itself, or the JSON value. -/
def Denotes (schema : Value) (body : Text) (value : Value) : Prop :=
  if resolvesToString schema then value = .string body else fromStr body = .ok value

/-- A parameter of a call, with its schema and its body. -/
structure Argument where
  name : Text
  schema : Value
  body : Text

def elements (arguments : List Argument) : Text :=
  arguments.flatMap fun a => parameterElement a.name a.body

/-- A call as the grammar has it, behind its opening marker. -/
def callText (function : Text) (arguments : List Argument) : Text :=
  '\n' :: ("<function=".toList ++ (function ++ '>' :: '\n' :: (elements arguments ++
    (functionClose ++ '\n' :: toolCallClose))))

/-- A parser in plain text that holds nothing back. -/
structure Idle (p q : ChatOutputParser) : Prop where
  strings : q.stringArguments = p.stringArguments
  parameters : q.toolParameters = p.toolParameters
  mode : q.mode = .text
  pending : q.pending = []
  toolCall : q.toolCall = []
  finished : q.finished = false
  ids : q.nextToolCallId + 1 < 2 ^ 64

/-- The parser and the grammar builder take the same arguments for text, and the call is emitted
with what its bodies stand for. -/
structure ReadsBack (q : ChatOutputParser) (function : Text) (arguments : List Argument) :
    Prop where
  agree : ∀ a ∈ arguments, resolvesToString a.schema = true ↔ IsStringArgument q function a.name
  emits : ∃ q' call, q.pushText fromStr (toolCallOpen ++ callText function arguments) =
      .ok (q', [.toolCall call]) ∧ call.function.name = function ∧
    ∀ a ∈ arguments, ∃ value, Denotes fromStr a.schema a.body value ∧
      call.function.arguments.get a.name = some value

/-- A body that survives the way through the parser. -/
structure Readable (a : Argument) : Prop where
  schema : ¬ LooselyString a.schema
  parameter : ¬ parameterClose <:+: a.body
  block : ¬ toolCallClose <:+: a.body
  text : resolvesToString a.schema = true → a.body.getLast? ≠ some '\r'
  json : resolvesToString a.schema = false → ∃ value, fromStr a.body = .ok value

/-- The arguments of a call of the tool: each parameter at most once, and the required ones. -/
structure CallOf (tool : ChatTool) (arguments : List Argument) : Prop where
  distinct : (arguments.map Argument.name).Nodup
  property : ∀ a ∈ arguments, (a.name, a.schema) ∈ schemaProperties tool.parameters
  required : ∀ name ∈ schemaRequired tool.parameters, name ∈ arguments.map Argument.name

/-- Whether a scan stands inside a string literal of JSON, and behind a backslash
there. -/
inductive Quoting where
  | outside
  | inside
  | escaped
deriving DecidableEq, Repr

/-- One character of the scan. -/
def Quoting.advance : Quoting → Char → Quoting
  | .outside, c => if c = '"' then .inside else .outside
  | .inside, c => if c = '"' then .outside else if c = '\\' then .escaped else .inside
  | .escaped, _ => .inside

/-- The scan of a text from its start. -/
def quoting (t : Text) : Quoting := t.foldl Quoting.advance .outside

/-- What `serde_json::from_str` accepts is JSON text. -/
structure JsonText : Prop where
  /-- String literals are closed. -/
  closed : ∀ {t value}, fromStr t = .ok value → quoting t = .outside
  /-- The character `<` stands in string literals only. -/
  quoted : ∀ {t value i}, fromStr t = .ok value → t[i]? = some '<' → quoting (t.take i) = .inside
  /-- Characters other than quotes and backslashes stand for themselves in them. -/
  verbatim : ∀ {t value m}, fromStr t = .ok (.string value) → m.head? = some '<' →
    '"' ∉ m → '\\' ∉ m → m <:+: t → m <:+: value
  /-- White space at the end does not matter. -/
  trailing : ∀ {t value}, fromStr (t ++ ['\r']) = .ok value → fromStr t = .ok value

/-! ## Line breaks at the ends of a body -/

/-- The end of `strip_protocol_newlines`. -/
def stripEnd (t : Text) : Text := ((stripSuffix "\r\n" t).or (stripSuffix "\n" t)).getD t

theorem stripProtocolNewlines_cons (t : Text) : stripProtocolNewlines ('\n' :: t) = stripEnd t := by
  rfl

theorem stripSuffix_append_self {marker : Text} (h : stripSuffix marker t = some r) :
    r ++ marker = t := by
  rw [stripSuffix] at h
  split at h
  · rename_i hsuffix
    cases h
    obtain ⟨front, rfl⟩ := isSuffixOf_iff_suffix.mp hsuffix
    rw [length_append, Nat.add_sub_cancel, take_left]
  · cases h

theorem stripEnd_append (t : Text) : ∃ tail, stripEnd t ++ tail = t ∧ '"' ∉ tail := by
  rw [stripEnd]
  cases hcrlf : stripSuffix "\r\n" t with
  | some r => exact ⟨_, stripSuffix_append_self hcrlf, by decide⟩
  | none =>
    cases hlf : stripSuffix "\n" t with
    | some r => exact ⟨_, stripSuffix_append_self hlf, by decide⟩
    | none => exact ⟨[], append_nil t, by decide⟩

theorem stripEnd_initial (t : Text) : stripEnd t <+: t := by
  obtain ⟨tail, htail, -⟩ := stripEnd_append t
  exact ⟨tail, htail⟩

theorem stripEnd_lineBreak (t : Text) :
    stripEnd (t ++ ['\n']) = if t.getLast? = some '\r' then t.dropLast else t := by
  rcases eq_nil_or_concat t with rfl | ⟨t, c, rfl⟩
  · rfl
  · rw [concat_eq_append, getLast?_concat, dropLast_concat, stripEnd]
    by_cases hc : c = '\r'
    · subst hc
      rw [if_pos rfl, append_assoc]
      rw [show (['\r'] ++ ['\n'] : Text) = "\r\n".toList from rfl, stripSuffix_append]
      rfl
    · have hcrlf : stripSuffix "\r\n" (t ++ [c] ++ ['\n']) = none := by
        rw [stripSuffix, if_neg]
        intro hsuffix
        obtain ⟨front, hfront⟩ := isSuffixOf_iff_suffix.mp hsuffix
        have hboth : front ++ ['\r'] ++ ['\n'] = t ++ [c] ++ ['\n'] := by
          rw [append_assoc]
          exact hfront
        have hlast := (append_inj' (append_cancel_right hboth) rfl).2
        exact hc (cons.inj hlast).1.symm
      rw [if_neg (by simpa using hc), hcrlf, Option.none_or]
      rw [show (['\n'] : Text) = "\n".toList from rfl, stripSuffix_append]
      rfl

/-! ## One round of the parameter loop -/

theorem parameterClose_ne_nil : parameterClose ≠ [] := by decide

theorem findChar_append_cons {f : Char → Bool} {c : Char} (hc : f c = true)
    (h : ∀ x ∈ t, f x = false) : findChar f (t ++ c :: r) = some t.length := by
  induction t with
  | nil => simp [findChar, findIdx?_cons, hc]
  | cons x t ih =>
    have hx := h x mem_cons_self
    have hrest := ih fun y hy => h y (mem_cons_of_mem _ hy)
    simp only [findChar, cons_append, findIdx?_cons, hx] at hrest ⊢
    simp [hrest]

theorem name_no_bracket (h : isProtocolName name = true) : ∀ c ∈ name, (c == '>') = false := by
  intro c hc
  rw [isProtocolName, Bool.and_eq_true, all_eq_true] at h
  have hchar := h.2 c hc
  by_contra heq
  have : c = '>' := by simpa using heq
  subst this
  revert hchar
  decide

variable {parameters : ToolParameters}

/-- A tag with a known name and a closing tag behind it is one argument. -/
theorem functionParameters_round {function tail : Text} {close : Nat}
    (hname : isProtocolName name = true) (hknown : parameters.names.contains name = true)
    (hnew : m.contains name = false) (hclose : find parameterClose tail = some close) :
    functionParameters fromStr function parameters strings (fuel + 1)
        ("<parameter=".toList ++ (name ++ '>' :: tail)) m =
      functionParameters fromStr function parameters strings fuel
        (tail.drop (close + parameterClose.length))
        (m.insert name (decodeArgument fromStr function name
          (stripProtocolNewlines (tail.take close)) strings)) := by
  have hopen := findChar_append_cons (r := tail) (f := (· == '>')) (c := '>') rfl
    (name_no_bracket hname)
  have hinitial : stripPrefix "<parameter=" ("<parameter=".toList ++ (name ++ '>' :: tail)) =
      some (name ++ '>' :: tail) := by
    rw [stripPrefix, if_pos (List.isPrefixOf_iff_prefix.mpr (prefix_append _ _)), drop_left]
  rw [functionParameters]
  have htrim : trimStart ("<parameter=".toList ++ (name ++ '>' :: tail)) =
      "<parameter=".toList ++ (name ++ '>' :: tail) := rfl
  have hdrop : (name ++ '>' :: tail).drop (name.length + 1) = tail := by
    simp [drop_append]
  have hsome : ("<parameter=".toList ++ (name ++ '>' :: tail)).isEmpty = false := rfl
  simp only [htrim, hinitial, hsome, bind, Except.bind, okOr]
  simp only [hopen, take_left, validateProtocolName, hname, hknown, hdrop, hclose, insertNew, hnew]
  rfl

theorem functionParameters_keeps {function input k : Text} {v : Value}
    (h : functionParameters fromStr function parameters strings fuel input m =
      .ok m') (hget : m.get k = some v) : m'.get k = some v := by
  induction fuel generalizing input m with
  | zero =>
    cases h
    exact hget
  | succ fuel ih =>
    rw [functionParameters] at h
    split at h
    · cases h
      exact hget
    · obtain ⟨parameter, -, h⟩ := bind_ok h
      obtain ⟨openEnd, -, h⟩ := bind_ok h
      obtain ⟨-, -, h⟩ := bind_ok h
      obtain ⟨-, h⟩ := guard_ok h
      obtain ⟨close, -, h⟩ := bind_ok h
      obtain ⟨more, hmore, h⟩ := bind_ok h
      obtain ⟨hnew, rfl⟩ := insertNew_eq_ok hmore
      refine ih h ?_
      rw [get_insert_of_ne]
      · exact hget
      · rintro rfl
        rw [BTreeMap.contains, hget] at hnew
        cases hnew

/-! ## What the loop reads of an element -/

/-- The text that the parser cuts out of an element with the given body. -/
def readText (body : Text) : Text :=
  match find parameterClose body with
  | some i => stripEnd (body.take i)
  | none => stripEnd (body ++ ['\n'])

theorem newline_notMem_close : '\n' ∉ parameterClose := by decide

theorem find_close_self (rest : Text) : find parameterClose (parameterClose ++ rest) = some 0 :=
  (find_eq_some_iff parameterClose_ne_nil).mpr ⟨prefix_append _ _, by simp⟩

theorem find_close (body rest : Text) :
    find parameterClose ('\n' :: (body ++ '\n' :: (parameterClose ++ rest))) =
      some (1 + (find parameterClose body).getD (body.length + 1)) := by
  have hfirst := find_append_cons (l := []) (r := body ++ '\n' :: (parameterClose ++ rest))
    parameterClose_ne_nil newline_notMem_close
  have hsecond := find_append_cons (l := body) (r := parameterClose ++ rest)
    parameterClose_ne_nil newline_notMem_close
  rw [find_close_self] at hsecond
  rw [nil_append, hsecond, show find parameterClose ([] : Text) = none from rfl] at hfirst
  rw [hfirst]
  cases find parameterClose body with
  | none => simp
  | some i => simp

theorem append_element (opening name body close rest : Text) :
    opening ++ name ++ ['>', '\n'] ++ body ++ ('\n' :: (close ++ ['\n'])) ++ rest =
      opening ++ (name ++ '>' :: ('\n' :: (body ++ '\n' :: (close ++ '\n' :: rest)))) := by
  simp only [append_assoc, cons_append, nil_append]

theorem parameterElement_append (name body rest : Text) :
    parameterElement name body ++ rest = "<parameter=".toList ++ (name ++ '>' ::
      ('\n' :: (body ++ '\n' :: (parameterClose ++ '\n' :: rest)))) :=
  append_element "<parameter=".toList name body parameterClose rest

/-- The text between the tags, up to the first closing tag. -/
theorem take_close (body rest : Text) :
    stripProtocolNewlines (('\n' :: (body ++ '\n' :: (parameterClose ++ rest))).take
      (1 + (find parameterClose body).getD (body.length + 1))) = readText body := by
  rw [readText]
  cases hbody : find parameterClose body with
  | none =>
    rw [Option.getD_none, Nat.add_comm 1, take_succ_cons, take_append,
      take_of_length_le (by omega), Nat.add_sub_cancel_left, stripProtocolNewlines_cons]
    rfl
  | some i =>
    have hlength := find_lt_length parameterClose_ne_nil hbody
    rw [Option.getD_some, Nat.add_comm 1, take_succ_cons,
      take_append_of_le_length (by omega), stripProtocolNewlines_cons]

theorem drop_close {body rest : Text} (hbody : find parameterClose body = none) :
    ('\n' :: (body ++ '\n' :: (parameterClose ++ rest))).drop
      (1 + (find parameterClose body).getD (body.length + 1) + parameterClose.length) = rest := by
  have hlength : 1 + (body.length + 1) + parameterClose.length =
      ('\n' :: (body ++ '\n' :: parameterClose)).length := by
    simp only [length_cons, length_append]
    omega
  rw [hbody, Option.getD_none, hlength]
  simp [drop_append]

section
variable {function : Text}

theorem functionParameters_newline (t : Text) :
    functionParameters fromStr function parameters strings fuel ('\n' :: t) m =
      functionParameters fromStr function parameters strings fuel t m := by
  cases fuel <;> rfl

/-- What the loop has for the parameters of elements without a closing tag inside. -/
theorem elements_read (function : Text) (strings : BTreeMap Text (BTreeSet Text))
    {arguments : List Argument} (hfuel : arguments.length < fuel)
    (hnames : ∀ a ∈ arguments, isProtocolName a.name = true ∧
      parameters.names.contains a.name = true) (hdistinct : (arguments.map Argument.name).Nodup)
    (hnew : ∀ a ∈ arguments, m.contains a.name = false)
    (hclean : ∀ a ∈ arguments, find parameterClose a.body = none) :
    ∃ m', functionParameters fromStr function parameters strings fuel (elements arguments) m =
        .ok m' ∧
      ∀ a ∈ arguments, m'.get a.name =
        some (decodeArgument fromStr function a.name (readText a.body) strings) := by
  induction arguments generalizing fuel m with
  | nil =>
    cases fuel with
    | zero => cases hfuel
    | succ fuel => exact ⟨m, rfl, forall_mem_nil _⟩
  | cons a arguments ih =>
    cases fuel with
    | zero => cases hfuel
    | succ fuel =>
      obtain ⟨⟨hname, hknown⟩, hnames⟩ := forall_mem_cons.mp hnames
      obtain ⟨hfresh, hnew⟩ := forall_mem_cons.mp hnew
      obtain ⟨hbody, hclean⟩ := forall_mem_cons.mp hclean
      rw [map_cons, nodup_cons] at hdistinct
      have hothers : ∀ b ∈ arguments, (m.insert a.name (decodeArgument fromStr function a.name
          (readText a.body) strings)).contains b.name = false := by
        intro b hb
        rw [BTreeMap.contains, get_insert_of_ne]
        · exact hnew b hb
        · intro heq
          exact hdistinct.1 (heq ▸ mem_map_of_mem hb)
      obtain ⟨m', hm', hread⟩ := ih (Nat.lt_of_succ_lt_succ hfuel) hnames hdistinct.2 hothers hclean
      refine ⟨m', ?_, forall_mem_cons.mpr ⟨?_, hread⟩⟩
      · rw [elements, flatMap_cons, parameterElement_append,
          functionParameters_round fromStr hname hknown hfresh (find_close a.body _), take_close,
          drop_close hbody, functionParameters_newline]
        exact hm'
      · exact functionParameters_keeps fromStr hm' (get_insert_self _ _ _)

theorem stripPrefix_eq {marker : Text} (h : stripPrefix marker t = some r) : t = marker ++ r := by
  rw [stripPrefix] at h
  split at h
  · rename_i hinitial
    obtain ⟨rest, rfl⟩ := isPrefixOf_iff_prefix.mp hinitial
    rw [drop_left] at h
    rw [Option.some.inj h]
  · cases h

/-- A tag that has its end stands whole in a text that is cut off. -/
theorem tag_cut {tail : Text} (hname : isProtocolName name = true) (h : t <+: name ++ '>' :: tail)
    (hend : (findChar (· == '>') t).isSome = true) :
    ∃ rest, t = name ++ '>' :: rest ∧ rest <+: tail := by
  have hno : ∀ r, r <+: name → findChar (· == '>') r = none := by
    intro r hr
    rw [findChar, findIdx?_eq_none_iff]
    exact fun c hc => name_no_bracket hname c (hr.subset hc)
  rcases prefix_or_prefix_of_prefix h (prefix_append name _) with hshort | ⟨rest, rfl⟩
  · rw [hno t hshort] at hend
    cases hend
  · rw [prefix_append_right_inj] at h
    cases rest with
    | nil =>
      rw [append_nil, hno name prefix_rfl] at hend
      cases hend
    | cons c rest =>
      obtain ⟨rfl, hrest⟩ := cons_prefix_cons.mp h
      exact ⟨rest, rfl, hrest⟩

/-- What the loop makes of a text that may be cut off inside an element: nothing, or a round. -/
theorem functionParameters_cut {input tail : Text} (hname : isProtocolName name = true)
    (hinitial : input <+: "<parameter=".toList ++ (name ++ '>' :: tail))
    (h : functionParameters fromStr function parameters strings fuel input m = .ok m') :
    m' = m ∨ ∃ close rest fuel', find parameterClose tail = some close ∧
      rest <+: tail.drop (close + parameterClose.length) ∧
      functionParameters fromStr function parameters strings fuel' rest
        (m.insert name (decodeArgument fromStr function name
          (stripProtocolNewlines (tail.take close)) strings)) = .ok m' := by
  cases fuel with
  | zero =>
    cases h
    exact .inl rfl
  | succ fuel =>
    cases input with
    | nil =>
      cases h
      exact .inl rfl
    | cons c input =>
      right
      have hc : c = '<' := (cons_prefix_cons.mp hinitial).1
      subst hc
      have htrim : trimStart ('<' :: input) = '<' :: input := rfl
      rw [functionParameters, htrim] at h
      obtain ⟨tag, htag, h⟩ := bind_ok h
      obtain ⟨openEnd, hopen, h⟩ := bind_ok h
      have hfound := okOr_eq_ok hopen
      rw [stripPrefix_eq (okOr_eq_ok htag), prefix_append_right_inj] at hinitial
      obtain ⟨rest, rfl, hrest⟩ := tag_cut hname hinitial (by rw [hfound]; rfl)
      rw [findChar_append_cons rfl (name_no_bracket hname)] at hfound
      cases hfound
      have hdrop : (name ++ '>' :: rest).drop (name.length + 1) = rest := by
        simp [drop_append]
      rw [take_left, hdrop] at h
      obtain ⟨-, -, h⟩ := bind_ok h
      obtain ⟨-, h⟩ := guard_ok h
      obtain ⟨close, hclose, h⟩ := bind_ok h
      obtain ⟨more, hmore, h⟩ := bind_ok h
      obtain ⟨-, rfl⟩ := insertNew_eq_ok hmore
      have hfind := okOr_eq_ok hclose
      obtain ⟨later, rfl⟩ := hrest
      have hlength := find_lt_length parameterClose_ne_nil hfind
      refine ⟨close, rest.drop (close + parameterClose.length), fuel,
        find_append_of_some later parameterClose_ne_nil hfind, ?_, ?_⟩
      · exact (prefix_append rest later).drop _
      · rw [take_append_of_le_length (by omega)]
        exact h

/-- What the loop has for a parameter, where the text may be cut off, and no element in front has
a closing tag inside. -/
theorem elements_cut {before : List Argument} {input tail : Text}
    (hbefore : ∀ b ∈ before, isProtocolName b.name = true ∧ b.name ≠ name ∧
      find parameterClose b.body = none) (hname : isProtocolName name = true)
    (hinitial : input <+: elements before ++ ("<parameter=".toList ++ (name ++ '>' :: tail)))
    (hnone : m.get name = none)
    (h : functionParameters fromStr function parameters strings fuel input m = .ok m') :
    m'.get name = none ∨ ∃ close, find parameterClose tail = some close ∧
      m'.get name = some (decodeArgument fromStr function name
        (stripProtocolNewlines (tail.take close)) strings) := by
  induction before generalizing input m fuel with
  | nil =>
    obtain rfl | ⟨close, rest, fuel', hclose, -, hround⟩ :=
      functionParameters_cut fromStr hname hinitial h
    · exact .inl hnone
    · exact .inr ⟨close, hclose, functionParameters_keeps fromStr hround (get_insert_self _ _ _)⟩
  | cons b before ih =>
    obtain ⟨⟨hvalid, hother, hclean⟩, hbefore⟩ := forall_mem_cons.mp hbefore
    rw [elements, flatMap_cons, append_assoc, parameterElement_append] at hinitial
    obtain rfl | ⟨close, rest, fuel', hclose, hrest, hround⟩ :=
      functionParameters_cut fromStr hvalid hinitial h
    · exact .inl hnone
    · rw [find_close] at hclose
      cases hclose
      rw [drop_close hclean] at hrest
      have hnone' : ∀ v, (m.insert b.name v).get name = none := by
        intro v
        rw [get_insert_of_ne _ _ (Ne.symm hother)]
        exact hnone
      cases rest with
      | nil => exact ih hbefore nil_prefix (hnone' _) hround
      | cons c rest =>
        obtain ⟨rfl, hlater⟩ := cons_prefix_cons.mp hrest
        rw [functionParameters_newline] at hround
        exact ih hbefore hlater (hnone' _) hround

end

theorem readText_eq_iff (body : Text) :
    readText body = body ↔ find parameterClose body = none ∧ body.getLast? ≠ some '\r' := by
  rw [readText]
  cases hbody : find parameterClose body with
  | some i =>
    have hlength := find_lt_length parameterClose_ne_nil hbody
    have hpositive := length_pos_iff.mpr parameterClose_ne_nil
    simp only [reduceCtorEq, false_and, iff_false]
    intro hsame
    have hshort := (stripEnd_initial (body.take i)).length_le
    rw [hsame, length_take] at hshort
    omega
  | none =>
    simp only [stripEnd_lineBreak, true_and]
    split
    · rename_i hlast
      have hne : body ≠ [] := by
        rintro rfl
        cases hlast
      simp only [hlast, ne_eq, not_true_eq_false, iff_false]
      intro hsame
      have hpositive := length_pos_iff.mpr hne
      have hshort := congrArg length hsame
      rw [length_dropLast] at hshort
      omega
    · rename_i hlast
      simpa using hlast

/-! ## JSON bodies -/

theorem quoting_append_outside {tail : Text} (ht : quoting t = .outside) (htail : '"' ∉ tail) :
    quoting (t ++ tail) = .outside := by
  rw [quoting, foldl_append]
  rw [quoting] at ht
  rw [ht]
  induction tail with
  | nil => rfl
  | cons c tail ih =>
    rw [mem_cons, not_or] at htail
    rw [foldl_cons, Quoting.advance, if_neg (Ne.symm htail.1)]
    exact ih htail.2

/-- A JSON value that is cut off at a closing tag inside it reads as another one. -/
theorem decode_cut_ne {function parameter body : Text} {value : Value} {i : Nat}
    (json : JsonText fromStr) (hvalue : fromStr body = .ok value)
    (hstring : (strings.get function).any (·.contains parameter) = false)
    (hcut : find parameterClose body = some i) :
    decodeArgument fromStr function parameter (stripEnd (body.take i)) strings ≠ value := by
  obtain ⟨hoccurs, hfirst⟩ := (find_eq_some_iff parameterClose_ne_nil).mp hcut
  have hinside : quoting (body.take i) = .inside := by
    refine json.quoted hvalue ?_
    obtain ⟨tail, htail⟩ := hoccurs
    have hhead := congrArg head? htail
    rw [head?_drop] at hhead
    exact hhead.symm
  obtain ⟨tail, htail, hquote⟩ := stripEnd_append (body.take i)
  rw [decodeArgument, hstring]
  intro hsame
  simp only [Bool.false_eq_true, if_false] at hsame
  split at hsame
  · rename_i other hother
    -- what is left of the value ends inside a string literal
    have houtside := quoting_append_outside (json.closed hother) hquote
    rw [htail, hinside] at houtside
    cases houtside
  · subst hsame
    have hinfix : parameterClose <:+: stripEnd (body.take i) := by
      refine json.verbatim hvalue rfl (by decide) (by decide) ?_
      exact hoccurs.isInfix.trans (drop_suffix i body).isInfix
    have hbefore := hinfix.trans (stripEnd_initial (body.take i)).isInfix
    refine (find_eq_none_iff_not_within parameterClose_ne_nil).mp ?_ hbefore
    refine (find_eq_none_iff parameterClose_ne_nil).mpr fun j hj => ?_
    have hlength := occurs_lt_length parameterClose_ne_nil hj
    have hpositive := length_pos_iff.mpr parameterClose_ne_nil
    have hmoved := occurs_append (body.drop i) parameterClose_ne_nil hj
    rw [take_append_drop] at hmoved
    rw [length_take] at hlength
    exact hfirst j (by omega) hmoved

theorem decode_json {function parameter body : Text} {value : Value} (json : JsonText fromStr)
    (hvalue : fromStr body = .ok value)
    (hstring : (strings.get function).any (·.contains parameter) = false)
    (hbody : find parameterClose body = none) :
    decodeArgument fromStr function parameter (readText body) strings = value := by
  have hread : fromStr (readText body) = .ok value := by
    rw [readText, hbody]
    simp only [stripEnd_lineBreak]
    split
    · rename_i hlast
      refine json.trailing ?_
      rw [dropLast_append_getLast? _ hlast]
      exact hvalue
    · exact hvalue
  rw [decodeArgument, hstring, hread]
  rfl

/-- A value is read back from the text that the loop reads only where this text is the body, or
its JSON. -/
theorem decode_readText_iff {function : Text} {a : Argument} (json : JsonText fromStr)
    (hstring : resolvesToString a.schema = true ↔
      (strings.get function).any (·.contains a.name) = true) :
    (∃ value, Denotes fromStr a.schema a.body value ∧
        decodeArgument fromStr function a.name (readText a.body) strings = value) ↔
      find parameterClose a.body = none ∧
        (resolvesToString a.schema = true → a.body.getLast? ≠ some '\r') ∧
        (resolvesToString a.schema = false → ∃ value, fromStr a.body = .ok value) := by
  unfold Denotes
  cases hraw : resolvesToString a.schema with
  | true =>
    have hdecode : decodeArgument fromStr function a.name (readText a.body) strings =
        .string (readText a.body) := if_pos (hstring.mp hraw)
    simp only [if_true, exists_eq_left, hdecode, Value.string.injEq, readText_eq_iff, true_imp_iff,
      Bool.true_eq_false, false_imp_iff, and_true]
  | false =>
    have hother : (strings.get function).any (·.contains a.name) = false := by
      rw [Bool.eq_false_iff, ne_eq, ← hstring, hraw]
      exact Bool.false_ne_true
    simp only [Bool.false_eq_true, if_false, false_imp_iff, true_imp_iff, true_and]
    constructor
    · rintro ⟨value, hvalue, hread⟩
      refine ⟨?_, value, hvalue⟩
      cases hfind : find parameterClose a.body with
      | none => rfl
      | some i =>
        rw [readText, hfind] at hread
        exact absurd hread (decode_cut_ne fromStr json hvalue hother hfind)
    · rintro ⟨hfind, value, hvalue⟩
      exact ⟨value, hvalue, decode_json fromStr json hvalue hother hfind⟩

end

/-! ## The block of a call -/

theorem toolCallClose_ne_nil : toolCallClose ≠ [] := by decide

theorem newline_notMem_block : '\n' ∉ toolCallClose := by decide

theorem find_block_past (h : find toolCallClose t = none) (r : Text) :
    find toolCallClose (t ++ '\n' :: r) = (find toolCallClose r).map (t.length + 1 + ·) := by
  rw [find_append_cons toolCallClose_ne_nil newline_notMem_block, h, Option.none_or]

theorem find_block_tag (opening : Text) (hopening : '/' ∉ opening)
    (hname : isProtocolName name = true) :
    find toolCallClose (opening ++ (name ++ ['>'])) = none := by
  rw [find_eq_none_iff_not_within toolCallClose_ne_nil]
  intro hwithin
  have hslash : '/' ∈ opening ++ (name ++ ['>']) := hwithin.subset (by decide)
  simp only [mem_append, mem_singleton, hopening, false_or, Char.reduceEq, or_false] at hslash
  rw [isProtocolName, Bool.and_eq_true, all_eq_true] at hname
  exact absurd (hname.2 _ hslash) (by decide)

/-- Elements without the marker in a body are passed over. -/
theorem find_block_elements {arguments : List Argument} (rest : Text)
    (h : ∀ a ∈ arguments, isProtocolName a.name = true ∧ find toolCallClose a.body = none) :
    find toolCallClose (elements arguments ++ rest) =
      (find toolCallClose rest).map ((elements arguments).length + ·) := by
  induction arguments with
  | nil => simp [elements]
  | cons a arguments ih =>
    obtain ⟨⟨hname, hbody⟩, h⟩ := forall_mem_cons.mp h
    have htag := find_block_tag "<parameter=".toList (by decide) hname
    have hclose : find toolCallClose parameterClose = none := by decide
    have hcut : elements (a :: arguments) ++ rest = "<parameter=".toList ++ (a.name ++ ['>']) ++
        '\n' :: (a.body ++ '\n' :: (parameterClose ++ '\n' :: (elements arguments ++ rest))) := by
      rw [elements, flatMap_cons, append_assoc, parameterElement_append]
      simp [elements]
    have hlength : (elements (a :: arguments)).length =
        ("<parameter=".toList ++ (a.name ++ ['>'])).length + 1 + (a.body.length + 1 +
          (parameterClose.length + 1 + (elements arguments).length)) := by
      have hboth := congrArg length hcut
      simp only [length_append, length_cons] at hboth ⊢
      omega
    rw [hcut, find_block_past htag, find_block_past hbody, find_block_past hclose, ih h, hlength]
    simp only [Option.map_map, Function.comp_def, Nat.add_assoc]

variable {function : Text} {arguments : List Argument}

/-- What stands in front of the elements of a call. -/
def header (function : Text) : Text :=
  '\n' :: ("<function=".toList ++ (function ++ ['>', '\n']))

theorem callText_eq : callText function arguments =
    header function ++ (elements arguments ++ (functionClose ++ '\n' :: toolCallClose)) := by
  simp [callText, header]

theorem find_block_header (hfunction : isProtocolName function = true) (t : Text) :
    find toolCallClose (header function ++ t) =
      (find toolCallClose t).map ((header function).length + ·) := by
  have htag := find_block_tag "<function=".toList (by decide) hfunction
  have hcut : header function ++ t =
      [] ++ '\n' :: ("<function=".toList ++ (function ++ ['>']) ++ '\n' :: t) := by
    simp [header]
  have hlength : (header function).length =
      ([] : Text).length + 1 + (("<function=".toList ++ (function ++ ['>'])).length + 1) := by
    simp [header]
    omega
  rw [hcut, find_block_past rfl, find_block_past htag, hlength]
  simp only [Option.map_map, Function.comp_def, Nat.add_assoc]

/-! ## Parsing a block -/

theorem trimEndMatches_append_cons {f : Char → Bool} {c : Char} (hc : f c = false) (l r : Text) :
    trimEndMatches f (l ++ c :: r) = l ++ c :: trimEndMatches f r := by
  rw [trimEndMatches, reverse_append, reverse_cons, append_assoc, dropWhile_append, trimEndMatches]
  split
  · rename_i hnil
    rw [isEmpty_iff.mp hnil]
    simp [hc]
  · simp

theorem trimEndMatches_initial (f : Char → Bool) (t : Text) : trimEndMatches f t <+: t := by
  have hsuffix := reverse_prefix.mpr (dropWhile_suffix f (l := t.reverse))
  rwa [reverse_reverse] at hsuffix

theorem trim_block (t : Text) : trimMatches isNewline (header function ++ t) =
    "<function=".toList ++ (function ++ '>' :: trimEndMatches isNewline ('\n' :: t)) := by
  have hcut : header function ++ t =
      '\n' :: ("<function=".toList ++ function ++ '>' :: '\n' :: t) := by
    simp [header]
  have hstart : trimStartMatches isNewline (header function ++ t) =
      "<function=".toList ++ function ++ '>' :: '\n' :: t := by
    rw [hcut]
    rfl
  rw [trimMatches, hstart, trimEndMatches_append_cons rfl, append_assoc]

theorem rfind_append_self (t : Text) : rfind functionClose (t ++ functionClose) = some t.length := by
  induction t with
  | nil => decide
  | cons c t ih => rw [cons_append, rfind, ih]; rfl

theorem length_le_elements (arguments : List Argument) :
    arguments.length ≤ (elements arguments).length := by
  induction arguments with
  | nil => exact Nat.zero_le _
  | cons a arguments ih =>
    have hne : parameterElement a.name a.body ≠ [] := by
      intro h
      cases h
    have hone := length_pos_iff.mpr hne
    simp only [elements, flatMap_cons, length_append, length_cons] at ih ⊢
    omega

section
variable (fromStr : Text → Except Text Value)
variable {toolParameters : BTreeMap Text ToolParameters} (hfunction : isProtocolName function = true)
variable (hparameters : toolParameters.get function = some parameters)
include hfunction hparameters

/-- Behind the opening tag the parser goes on with the parameters. -/
theorem parseFunctionCall_header (t : Text) :
    parseFunctionCall fromStr (header function ++ t) strings toolParameters = (do
      let functionBody := trimEndMatches isNewline ('\n' :: t)
      let closeStart ← okOr (rfind functionClose functionBody) (chatToolCallError
        ["missing </function> for ", .debug function])
      if !(trim (functionBody.drop (closeStart + functionClose.length))).isEmpty then
        throw (chatToolCallError ["unexpected content after </function>"])
      let remaining := functionBody.take closeStart
      let m ← functionParameters fromStr function parameters strings
        (remaining.length + 1) remaining BTreeMap.empty
      match parameters.required.keys.find? fun name => !m.contains name with
      | some missing => throw (chatToolCallError
          ["missing required parameter ", .debug missing, " for function ", .debug function])
      | none => return ⟨function, m⟩) := by
  have hopen := findChar_append_cons (r := trimEndMatches isNewline ('\n' :: t)) (f := (· == '>'))
    (c := '>') rfl (name_no_bracket hfunction)
  have hstrip : stripPrefix "<function=" ("<function=".toList ++
      (function ++ '>' :: trimEndMatches isNewline ('\n' :: t))) =
        some (function ++ '>' :: trimEndMatches isNewline ('\n' :: t)) := by
    rw [stripPrefix, if_pos (List.isPrefixOf_iff_prefix.mpr (prefix_append _ _)), drop_left]
  have hdrop : (function ++ '>' :: trimEndMatches isNewline ('\n' :: t)).drop
      (function.length + 1) = trimEndMatches isNewline ('\n' :: t) := by
    simp [drop_append]
  have hhead : ("<function=".toList ++
      (function ++ '>' :: trimEndMatches isNewline ('\n' :: t))).head? ≠ some '\x7b' := by
    intro h
    cases h
  rw [parseFunctionCall, trim_block]
  simp only [hhead, if_false, hstrip, okOr, hopen, bind, Except.bind]
  simp only [take_left, validateProtocolName, hfunction, hparameters, hdrop, if_true]
  -- the two sides may differ in the names of their matches
  all_goals rfl

/-- The parameters of a call come from a text that the block begins with. -/
theorem parseFunctionCall_cut {t : Text} {call : ChatFunctionCall}
    (h : parseFunctionCall fromStr (header function ++ t) strings toolParameters = .ok call) :
    call.name = function ∧ ∃ fuel input, input <+: t ∧ functionParameters fromStr function
      parameters strings fuel input BTreeMap.empty = .ok call.arguments := by
  rw [parseFunctionCall_header fromStr hfunction hparameters] at h
  dsimp only at h
  obtain ⟨closeStart, -, h⟩ := bind_ok h
  obtain ⟨-, h⟩ := guard_ok h
  obtain ⟨m, hread, h⟩ := bind_ok h
  split at h
  · cases h
  · cases h
    refine ⟨rfl, ?_⟩
    have hinitial :=
      (List.take_prefix closeStart _).trans (trimEndMatches_initial isNewline ('\n' :: t))
    generalize (trimEndMatches isNewline ('\n' :: t)).take closeStart = remaining at hread hinitial
    cases remaining with
    | nil => exact ⟨_, [], nil_prefix, hread⟩
    | cons c remaining =>
      obtain ⟨rfl, hremaining⟩ := cons_prefix_cons.mp hinitial
      rw [functionParameters_newline] at hread
      exact ⟨_, remaining, hremaining, hread⟩

theorem parseFunctionCall_elements
    (hread : functionParameters fromStr function parameters strings
      (('\n' :: elements arguments).length + 1) (elements arguments) BTreeMap.empty = .ok m)
    (hrequired : ∀ name ∈ parameters.required.keys, m.contains name = true) :
    parseFunctionCall fromStr (header function ++ (elements arguments ++ (functionClose ++ ['\n'])))
      strings toolParameters = .ok ⟨function, m⟩ := by
  have hbody : trimEndMatches isNewline ('\n' :: (elements arguments ++ (functionClose ++ ['\n']))) =
      '\n' :: elements arguments ++ functionClose := by
    have hclose : functionClose = "</function".toList ++ ['>'] := rfl
    have hcut : '\n' :: (elements arguments ++ (functionClose ++ ['\n'])) =
        '\n' :: (elements arguments ++ "</function".toList) ++ '>' :: ['\n'] := by
      simp only [hclose, append_assoc, cons_append, nil_append]
    have hend : trimEndMatches isNewline ['\n'] = [] := rfl
    rw [hcut, trimEndMatches_append_cons rfl, hend, hclose]
    simp only [append_assoc, cons_append]
  have hnone : parameters.required.keys.find? (fun name => !m.contains name) = none := by
    rw [find?_eq_none]
    intro name hname
    simp [hrequired name hname]
  rw [parseFunctionCall_header fromStr hfunction hparameters, hbody]
  dsimp only
  rw [rfind_append_self]
  simp only [okOr, bind, Except.bind, take_left, drop_length_add_append]
  have hnil : functionClose.drop functionClose.length = [] := drop_length
  rw [hnil]
  rw [functionParameters_newline, hread]
  simp only [hnone]
  rfl

end

/-! ## Pushing a call -/

open ChatOutputParser Drain.Machine

theorem toolCallOpen_bracketed : Bracketed '<' '>' toolCallOpen := .intro (by decide)

theorem marker_eq {marker t : Text} (hmarker : Bracketed '<' '>' marker)
    (h : find marker (toolCallOpen ++ t) = some 0) : marker = toolCallOpen := by
  have hinitial := ((find_eq_some_iff hmarker.ne_nil).mp h).1
  rw [drop_zero] at hinitial
  rcases prefix_or_prefix_of_prefix hinitial (prefix_append toolCallOpen t) with hpre | hpre
  · exact bracketed_prefix_eq hmarker toolCallOpen_bracketed hpre
  · exact (bracketed_prefix_eq toolCallOpen_bracketed hmarker hpre).symm

theorem earliest_open (t : Text) :
    earliest protocolMarkers (toolCallOpen ++ t) = some (0, toolCallOpen, .standard) := by
  have hhere : find toolCallOpen (toolCallOpen ++ t) = some 0 :=
    (find_eq_some_iff toolCallOpen_bracketed.ne_nil).mpr ⟨prefix_append _ _, by simp⟩
  have hmem : (toolCallOpen, ToolCallProtocol.standard) ∈ protocolMarkers := by
    simp [protocolMarkers]
  have hbracketed : ∀ m ∈ protocolMarkers, Bracketed '<' '>' m.1 := by
    simp only [protocolMarkers, forall_mem_cons]
    exact ⟨.intro (by decide), .intro (by decide), .intro (by decide), .intro (by decide),
      .intro (by decide), forall_mem_nil _⟩
  cases h : earliest protocolMarkers (toolCallOpen ++ t) with
  | none =>
    have hnone := (earliest_eq_none_iff protocolMarkers_ne_nil).mp h _ hmem 0
    exact absurd (prefix_append _ _) hnone
  | some r =>
    obtain ⟨i, marker, protocol⟩ := r
    have hle : i ≤ 0 := firstMin_le h (0, toolCallOpen, .standard)
      (mem_filterMap.mpr ⟨_, hmem, by rw [hhere]; rfl⟩)
    obtain rfl := Nat.le_zero.mp hle
    obtain ⟨hmem', hfind⟩ := earliest_eq_some h
    have heq := marker_eq (hbracketed _ hmem') hfind
    subst heq
    have hprotocol : ∀ m ∈ protocolMarkers, m.1 = toolCallOpen → m.2 = .standard := by decide
    have hstandard : protocol = .standard := hprotocol _ hmem' rfl
    rw [hstandard]

theorem channel_behind {t marker : Text} {i : Nat} {b : Bool}
    (h : earliest channelMarkers (toolCallOpen ++ t) = some (i, marker, b)) : i ≠ 0 := by
  rintro rfl
  obtain ⟨hmem, hfind⟩ := earliest_eq_some h
  have hbracketed : ∀ m ∈ channelMarkers, Bracketed '<' '>' m.1 := by
    simp only [channelMarkers, forall_mem_cons]
    exact ⟨.intro (by decide), .intro (by decide), .intro (by decide), forall_mem_nil _⟩
  have hother : ∀ m ∈ channelMarkers, m.1 ≠ toolCallOpen := by decide
  exact hother _ hmem (marker_eq (hbracketed _ hmem) hfind)

theorem emit_head {event event' : ChatOutputEvent} {q : ChatOutputParser}
    {r : Except Error (ChatOutputParser × List ChatOutputEvent)}
    (h : emit [event] r = .ok (q, [event'])) : event = event' := by
  cases r with
  | error e => cases h
  | ok last => exact (cons.inj (Prod.mk.inj (Except.ok.inj h)).2).1

section
variable {p q : ChatOutputParser} (idle : Idle p q)
include idle

/-- The opening marker of a call is taken, and nothing is emitted. -/
theorem parseText_open (t : Text) : (q.feed (toolCallOpen ++ t)).parseText =
    ({ q with pending := t, toolCallProtocol := .standard, mode := .toolCall,
              trimAfterThinking := false, trimAfterToolCall := false }, [], true) := by
  have hbody : ChatOutputParser.parseTextBody { q with
        pending := toolCallOpen ++ t, trimAfterThinking := false, trimAfterToolCall := false } =
      ({ q with pending := t, toolCallProtocol := .standard, mode := .toolCall,
                trimAfterThinking := false, trimAfterToolCall := false }, [], true) := by
    unfold parseTextBody
    dsimp only
    rw [earliest_open]
    have hchannel : ∀ f : Nat × Text × Bool → Bool,
        (earliest channelMarkers (toolCallOpen ++ t)).filter (fun r =>
          notBefore r.1 (some (0, toolCallOpen, ToolCallProtocol.standard)) && f r) = none := by
      intro f
      cases h : earliest channelMarkers (toolCallOpen ++ t) with
      | none => rfl
      | some r =>
        obtain ⟨i, marker, b⟩ := r
        have hpos := channel_behind h
        simp [Option.filter, notBefore, hpos]
    rw [hchannel]
    have hdirect : ∀ found : Option (Nat × Text × Nat), notBefore 0 found = true := by
      intro found
      cases found <;> simp [notBefore]
    simp [Option.filter, hdirect, pushNonempty]
  have hfeed : q.feed (toolCallOpen ++ t) = { q with pending := toolCallOpen ++ t } := by
    rw [feed, idle.pending, nil_append]
  rw [hfeed, parseText]
  split
  · exact hbody
  · rename_i hflags
    simp only [Bool.or_eq_true, not_or, Bool.not_eq_true] at hflags
    have hsame : { q with pending := toolCallOpen ++ t } = { q with
        pending := toolCallOpen ++ t, trimAfterThinking := false, trimAfterToolCall := false } := by
      rw [hflags.1, hflags.2]
    rw [hsame]
    exact hbody

/-- Behind a call. -/
def behind (q : ChatOutputParser) (t : Text) : ChatOutputParser :=
  { q with pending := t, toolCall := [], toolCallProtocol := .standard, mode := .text,
           trimAfterThinking := false, trimAfterToolCall := true,
           nextToolCallId := q.nextToolCallId + 1 }

/-- A pushed call is parsed up to the first closing marker. -/
theorem pushText_eq (fromStr : Text → Except Text Value) {t : Text} {k : Nat}
    (hk : find toolCallClose t = some k) :
    q.pushText fromStr (toolCallOpen ++ t) = (do
      let f ← parseFunctionCall fromStr (t.take k) q.stringArguments q.toolParameters
      emit [.toolCall ⟨q.nextToolCallId, f⟩]
        ((machine fromStr).drain (behind q (t.drop (k + toolCallClose.length))))) := by
  have hopen : (machine fromStr).step (q.feed (toolCallOpen ++ t)) = .ok
      ({ q with pending := t, toolCallProtocol := .standard, mode := .toolCall,
                trimAfterThinking := false, trimAfterToolCall := false }, [], true) := by
    have hmode : (q.feed (toolCallOpen ++ t)).mode = .text := idle.mode
    change ChatOutputParser.step fromStr _ = _
    unfold ChatOutputParser.step
    rw [hmode]
    exact congrArg Except.ok (parseText_open idle t)
  have hclose : closeIndex .standard t = some k := hk
  have hcall : ∀ r : ChatOutputParser, r.mode = .toolCall →
      (machine fromStr).step r = r.parseToolCall fromStr := by
    intro r hmode
    change ChatOutputParser.step fromStr r = _
    unfold ChatOutputParser.step
    rw [hmode]
  rw [pushText, idle.finished, if_neg Bool.false_ne_true, drain_of_progress _ hopen, drain_eq,
    hcall _ rfl, parseToolCall]
  simp only [idle.toolCall, nil_append, hclose, parseFunctions]
  cases hparse : parseFunctionCall fromStr (t.take k) q.stringArguments q.toolParameters with
  | error e => rfl
  | ok f =>
    have hid : Eider.Source.nextToolCallId q.nextToolCallId =
        .ok (q.nextToolCallId, q.nextToolCallId + 1) := if_pos idle.ids
    simp only [bind, Except.bind, pure, Except.pure, emitToolCalls, hid]
    rw [emit_emit]
    rfl

end

/-! ## Classification -/

theorem collectTools_get {parameters : BTreeMap Text ToolParameters} {direct : List DirectTool}
    {r : BTreeMap Text (BTreeSet Text) × BTreeMap Text ToolParameters × List DirectTool}
    (h : collectTools tools strings parameters direct = .ok r)
    (hkeys : ∀ name, parameters.contains name = true → strings.contains name = true) :
    (∀ name value, strings.get name = some value → r.1.get name = some value) ∧
      (∀ name value, parameters.get name = some value → r.2.1.get name = some value) ∧
      ∀ tool ∈ tools, r.1.get tool.name = some (stringParameters tool) ∧
        r.2.1.get tool.name = some (ToolParameters.ofTool tool) := by
  induction tools generalizing strings parameters direct with
  | nil =>
    cases h
    exact ⟨fun _ _ hget => hget, fun _ _ hget => hget, forall_mem_nil _⟩
  | cons tool rest ih =>
    rw [collectTools] at h
    split at h
    · cases h
    · rename_i hnew
      obtain ⟨hstrings, hparameters, hrest⟩ := ih h fun name hname => by
        rw [BTreeMap.contains_insert] at hname ⊢
        exact hname.imp_right (hkeys name)
      refine ⟨fun name value hget => hstrings name value ?_,
        fun name value hget => hparameters name value ?_, ?_⟩
      · rw [get_insert_of_ne _ _ ?_]
        · exact hget
        · rintro rfl
          exact hnew (by rw [BTreeMap.contains, hget]; rfl)
      · rw [BTreeMap.get_insert_of_ne _ _ ?_]
        · exact hget
        · rintro rfl
          exact hnew (hkeys _ (by rw [BTreeMap.contains, hget]; rfl))
      · rw [forall_mem_cons]
        exact ⟨⟨hstrings _ _ (BTreeMap.get_insert_self _ _ _),
          hparameters _ _ (BTreeMap.get_insert_self _ _ _)⟩, hrest⟩

theorem new_get {startsInReasoning : Bool} {ids : Nat} {p : ChatOutputParser} {tool : ChatTool}
    (made : ChatOutputParser.new tools startsInReasoning ids = .ok p) (htool : tool ∈ tools) :
    p.stringArguments.get tool.name = some (stringParameters tool) ∧
      p.toolParameters.get tool.name = some (ToolParameters.ofTool tool) := by
  obtain ⟨r, hr, made⟩ := bind_ok made
  have hkeys : ∀ name, (empty : BTreeMap Text ToolParameters).contains name = true →
      (empty : BTreeMap Text (BTreeSet Text)).contains name = true :=
    fun _ hname => by cases hname
  obtain ⟨-, -, hall⟩ := collectTools_get hr hkeys
  cases made
  exact hall tool htool

theorem isStringArgument_iff {startsInReasoning : Bool} {ids : Nat} {p : ChatOutputParser}
    {tool : ChatTool} {schema : Value}
    (made : ChatOutputParser.new tools startsInReasoning ids = .ok p) (htool : tool ∈ tools)
    (unique : ((schemaProperties tool.parameters).map Prod.fst).Nodup)
    (property : (name, schema) ∈ schemaProperties tool.parameters) :
    IsStringArgument p tool.name name ↔ (schema.index "type").asStr = some "string".toList := by
  rw [IsStringArgument, (new_get made htool).1, Option.any_some, stringParameters,
    BTreeSet.contains_ofKeys]
  simp only [mem_map, mem_filter, beq_iff_eq]
  constructor
  · rintro ⟨field, ⟨hfield, htype⟩, rfl⟩
    have hsame : field = (field.1, schema) := inj_on_of_nodup_map unique hfield property rfl
    rwa [hsame] at htype
  · intro htype
    exact ⟨(name, schema), ⟨property, htype⟩, rfl⟩

/-- The enumerations that the grammar builder takes as raw text. -/
theorem any_strings_iff (schema : Value) :
    ((schema.index "enum").asArray.any fun values =>
      !values.isEmpty && values.all fun value => value.asStr.isSome) = true ↔
      ∃ values, (schema.index "enum").asArray = some values ∧ values ≠ [] ∧
        ∀ value ∈ values, value.asStr.isSome := by
  cases (schema.index "enum").asArray with
  | none => simp
  | some values => simp

theorem looselyString_iff (schema : Value) :
    LooselyString schema ↔
      resolvesToString schema = true ∧ (schema.index "type").asStr ≠ some "string".toList := by
  rw [LooselyString, resolvesToString]
  cases htype : schema.index "type" with
  | string kind =>
    simp only [Value.asStr, decide_eq_true_eq, ne_eq, Option.some.injEq]
    tauto
  | array kinds =>
    have hnone : (Value.array kinds).asStr = none := rfl
    simp only [hnone, any_eq_true, decide_eq_true_eq, ne_eq, reduceCtorEq, not_false_eq_true,
      and_true]
  | null => simpa [Value.asStr] using (any_strings_iff schema).symm
  | bool value => simpa [Value.asStr] using (any_strings_iff schema).symm
  | number literal => simpa [Value.asStr] using (any_strings_iff schema).symm
  | object fields => simpa [Value.asStr] using (any_strings_iff schema).symm

/-- The type `"string"` is raw text for the grammar builder too. -/
theorem resolvesToString_of_type {schema : Value}
    (h : (schema.index "type").asStr = some "string".toList) : resolvesToString schema = true := by
  rw [resolvesToString]
  cases htype : schema.index "type" with
  | string kind =>
    rw [htype] at h
    simpa [Value.asStr] using h
  | null => rw [htype] at h; cases h
  | bool value => rw [htype] at h; cases h
  | number literal => rw [htype] at h; cases h
  | array values => rw [htype] at h; cases h
  | object fields => rw [htype] at h; cases h

theorem agree_iff {schema : Value} {argument : Prop}
    (h : argument ↔ (schema.index "type").asStr = some "string".toList) :
    (resolvesToString schema = true ↔ argument) ↔ ¬ LooselyString schema := by
  rw [looselyString_iff, h]
  constructor
  · rintro hagree ⟨hraw, htype⟩
    exact htype (hagree.mp hraw)
  · intro hno
    exact ⟨fun hraw => not_not.mp fun htype => hno ⟨hraw, htype⟩, resolvesToString_of_type⟩

theorem names_valid {schema : Value} {rules : ArgumentRules}
    (built : buildArguments schema = .ok rules) :
    ∀ property ∈ schemaProperties schema, isProtocolName property.1 = true := by
  rw [buildArguments] at built
  split at built
  · cases built
  · obtain ⟨parameters, hparameters, -⟩ := bind_ok built
    exact (buildParameters_ok hparameters).1

/-! ## Whole calls -/

/-- What holds of an element as soon as it holds in front of it holds everywhere. -/
theorem forall_of_split {α : Type} {P : α → Prop} {xs : List α}
    (h : ∀ before x after, xs = before ++ x :: after → (∀ y ∈ before, P y) → P x) :
    ∀ x ∈ xs, P x := by
  induction xs using reverseRecOn with
  | nil => exact forall_mem_nil _
  | append_singleton xs x ih =>
    have hfront : ∀ y ∈ xs, P y := ih fun before y after heq hbefore =>
      h before y (after ++ [x]) (by simp [heq]) hbefore
    rw [forall_mem_append, forall_mem_singleton]
    exact ⟨hfront, h xs x [] rfl hfront⟩

section
variable {fromStr : Text → Except Text Value} {p q : ChatOutputParser}
variable {before after : List Argument} {a : Argument} {input : Text}

/-- A value that is read tells that its body is whole, if the bodies in front are. -/
theorem Readable.of_value (json : JsonText fromStr)
    (agree : resolvesToString a.schema = true ↔
      (strings.get function).any (·.contains a.name) = true)
    (hbefore : ∀ b ∈ before, isProtocolName b.name = true ∧ b.name ≠ a.name ∧
      find parameterClose b.body = none) (hname : isProtocolName a.name = true)
    (hinput : input <+: elements (before ++ a :: after) ++ r)
    (hblock : ∀ i, find toolCallClose a.body = some i → input <+: elements before ++
      ("<parameter=".toList ++ (a.name ++ '>' :: '\n' :: a.body)))
    (hread : functionParameters fromStr function parameters strings fuel input BTreeMap.empty =
      .ok m) (hvalue : ∃ value, Denotes fromStr a.schema a.body value ∧ m.get a.name = some value)
    (hschema : ¬ LooselyString a.schema) : Readable fromStr a := by
  obtain ⟨value, hdenotes, hget⟩ := hvalue
  have hdecode : decodeArgument fromStr function a.name (readText a.body) strings = value := by
    rw [elements, flatMap_append, flatMap_cons, append_assoc, append_assoc,
      parameterElement_append] at hinput
    obtain hnone | ⟨close, hclose, hread⟩ := elements_cut fromStr hbefore hname hinput rfl hread
    · rw [hget] at hnone
      cases hnone
    · rw [find_close] at hclose
      cases hclose
      rw [take_close, hget] at hread
      exact (Option.some.inj hread).symm
  obtain ⟨hbody, htext, hjson⟩ :=
    (decode_readText_iff fromStr json agree).mp ⟨value, hdenotes, hdecode⟩
  refine ⟨hschema, (find_eq_none_iff_not_within parameterClose_ne_nil).mp hbody, ?_, htext, hjson⟩
  rw [← find_eq_none_iff_not_within toolCallClose_ne_nil]
  cases hfind : find toolCallClose a.body with
  | none => rfl
  | some i =>
    -- the block ends in this body, in front of its closing tag
    obtain hnone | ⟨close, hclose, -⟩ :=
      elements_cut fromStr hbefore hname (hblock i hfind) rfl hread
    · rw [hget] at hnone
      cases hnone
    · have hnone := find_append_cons (l := []) (r := a.body) parameterClose_ne_nil
        newline_notMem_close
      rw [nil_append, hclose, hbody] at hnone
      cases hnone

/-- A block that ends in a body has nothing behind this body. -/
theorem block_prefix {rest : Text} {i k : Nat} (hk : find toolCallClose (t ++ rest) = some k)
    (hi : find toolCallClose rest = some i) (hin : i ≤ r.length) (hinitial : r <+: rest) :
    (t ++ rest).take k <+: t ++ r := by
  have hoccurs := ((find_eq_some_iff toolCallClose_ne_nil).mp hi).1
  have hle : k ≤ t.length + i := by
    by_contra hlt
    refine ((find_eq_some_iff toolCallClose_ne_nil).mp hk).2 (t.length + i) (by omega) ?_
    rw [drop_length_add_append]
    exact hoccurs
  obtain ⟨later, rfl⟩ := hinitial
  rw [← append_assoc, take_append_of_le_length (by rw [length_append]; omega)]
  exact take_prefix k _

section
variable (json : JsonText fromStr) (idle : Idle p q)
variable (hfunction : isProtocolName function = true)
variable (hparameters : q.toolParameters.get function = some parameters)
variable (hdistinct : (arguments.map Argument.name).Nodup)
include json idle hfunction hparameters hdistinct

theorem ReadsBack.readable (hvalid : ∀ a ∈ arguments, isProtocolName a.name = true)
    (hschema : ∀ a ∈ arguments, ¬ LooselyString a.schema)
    (h : ReadsBack fromStr q function arguments) : ∀ a ∈ arguments, Readable fromStr a := by
  obtain ⟨agree, q', call, hpush, -, hvalues⟩ := h
  obtain ⟨k, hk⟩ : ∃ k, find toolCallClose
      (elements arguments ++ (functionClose ++ '\n' :: toolCallClose)) = some k := by
    rw [← Option.isSome_iff_exists, ← Option.ne_none_iff_isSome, ne_eq,
      find_eq_none_iff_not_within toolCallClose_ne_nil, not_not]
    exact ⟨elements arguments ++ (functionClose ++ ['\n']), [], by simp⟩
  have hcall : find toolCallClose (callText function arguments) =
      some ((header function).length + k) := by
    rw [callText_eq, find_block_header hfunction, hk]
    rfl
  rw [pushText_eq idle fromStr hcall, callText_eq, take_length_add_append] at hpush
  obtain ⟨f, hparse, hpush⟩ := bind_ok hpush
  obtain ⟨-, fuel, input, hinput, hread⟩ :=
    parseFunctionCall_cut fromStr hfunction hparameters hparse
  obtain rfl : f = call.function :=
    congrArg ChatToolCall.function (ChatOutputEvent.toolCall.inj (emit_head hpush))
  apply forall_of_split
  rintro before a after rfl hbefore
  have ha : a ∈ before ++ a :: after := by simp
  refine Readable.of_value json (agree a ha) ?_ (hvalid a ha) (hinput.trans (List.take_prefix _ _)) ?_
    hread (hvalues a ha) (hschema a ha)
  · intro b hb
    rw [map_append, map_cons, nodup_middle, nodup_cons, ← map_append] at hdistinct
    refine ⟨hvalid b (mem_append_left _ hb), ?_,
      (find_eq_none_iff_not_within parameterClose_ne_nil).mpr (hbefore b hb).parameter⟩
    intro heq
    exact hdistinct.1 (heq ▸ mem_map_of_mem (mem_append_left _ hb))
  · intro i hi
    have hlength := find_lt_length toolCallClose_ne_nil hi
    have hcut : elements (before ++ a :: after) ++ (functionClose ++ '\n' :: toolCallClose) =
        elements before ++ ("<parameter=".toList ++ (a.name ++ ['>', '\n'])) ++
          (a.body ++ '\n' :: (parameterClose ++ '\n' :: (elements after ++
            (functionClose ++ '\n' :: toolCallClose)))) := by
      rw [elements, flatMap_append, flatMap_cons, append_assoc, append_assoc,
        parameterElement_append]
      simp [elements]
    rw [hcut] at hk hinput
    have hinitial := block_prefix hk
      (find_append_of_some _ toolCallClose_ne_nil hi) (r := a.body) (by omega) (prefix_append _ _)
    simpa using hinput.trans hinitial

theorem ReadsBack.of_readable
    (hknown : ∀ a ∈ arguments, isProtocolName a.name = true ∧
      parameters.names.contains a.name = true)
    (hrequired : ∀ name ∈ parameters.required.keys, name ∈ arguments.map Argument.name)
    (agree : ∀ a ∈ arguments, resolvesToString a.schema = true ↔ IsStringArgument q function a.name)
    (hreadable : ∀ a ∈ arguments, Readable fromStr a) : ReadsBack fromStr q function arguments := by
  have hbodies : ∀ a ∈ arguments, find parameterClose a.body = none := fun a ha =>
    (find_eq_none_iff_not_within parameterClose_ne_nil).mpr (hreadable a ha).parameter
  have hblocks : ∀ a ∈ arguments, find toolCallClose a.body = none := fun a ha =>
    (find_eq_none_iff_not_within toolCallClose_ne_nil).mpr (hreadable a ha).block
  have hlength : arguments.length < ('\n' :: elements arguments).length + 1 :=
    Nat.lt_succ_of_le ((length_le_elements arguments).trans (Nat.le_succ _))
  obtain ⟨m, hread, hvalues⟩ := elements_read fromStr function q.stringArguments
    (m := BTreeMap.empty) hlength hknown hdistinct (fun _ _ => rfl) hbodies
  have hcontained : ∀ name ∈ parameters.required.keys, m.contains name = true := by
    intro name hname
    obtain ⟨a, ha, rfl⟩ := mem_map.mp (hrequired name hname)
    rw [BTreeMap.contains, hvalues a ha]
    rfl
  have hcall : find toolCallClose (callText function arguments) =
      some ((header function).length + (elements arguments ++ (functionClose ++ ['\n'])).length) := by
    have hclose : find toolCallClose (functionClose ++ '\n' :: toolCallClose) =
        some (functionClose ++ ['\n']).length := by decide
    rw [callText_eq, find_block_header hfunction,
      find_block_elements _ fun a ha => ⟨(hknown a ha).1, hblocks a ha⟩, hclose]
    simp
  have hblock : elements arguments ++ (functionClose ++ '\n' :: toolCallClose) =
      elements arguments ++ (functionClose ++ ['\n']) ++ toolCallClose := by
    simp
  have hdrop : (header function ++ (elements arguments ++ (functionClose ++ ['\n']) ++
      toolCallClose)).drop ((header function).length +
        (elements arguments ++ (functionClose ++ ['\n'])).length + toolCallClose.length) = [] := by
    apply drop_of_length_le
    simp only [length_append]
    omega
  refine ⟨agree, { behind q [] with pending := [] }, ⟨q.nextToolCallId, function, m⟩, ?_, rfl, ?_⟩
  · rw [pushText_eq idle fromStr hcall, callText_eq, hblock, take_length_add_append, take_left,
      parseFunctionCall_elements fromStr hfunction hparameters hread hcontained, hdrop]
    rfl
  · intro a ha
    have hdecoded := (decode_readText_iff fromStr json (agree a ha)).mpr
      ⟨hbodies a ha, (hreadable a ha).text, (hreadable a ha).json⟩
    obtain ⟨value, hdenotes, hdecode⟩ := hdecoded
    exact ⟨value, hdenotes, by rw [hvalues a ha, hdecode]⟩

end

variable {startsInReasoning : Bool} {ids : Nat} {tool : ChatTool} {rules : ArgumentRules}

/-- **Raw text and string arguments.** A call of a declared tool, pushed where the parser
stands in plain text, is read back if and only if each of its bodies is readable. -/
theorem raw_text_read_back_iff (json : JsonText fromStr)
    (made : ChatOutputParser.new tools startsInReasoning ids = .ok p) (htool : tool ∈ tools)
    (hfunction : isProtocolName tool.name = true)
    (unique : ((schemaProperties tool.parameters).map Prod.fst).Nodup)
    (built : buildArguments tool.parameters = .ok rules) (idle : Idle p q)
    (ofTool : CallOf tool arguments) :
    ReadsBack fromStr q tool.name arguments ↔ ∀ a ∈ arguments, Readable fromStr a := by
  have hparameters : q.toolParameters.get tool.name = some (ToolParameters.ofTool tool) := by
    rw [idle.parameters]
    exact (new_get made htool).2
  have hvalid : ∀ a ∈ arguments, isProtocolName a.name = true := fun a ha =>
    names_valid built (a.name, a.schema) (ofTool.property a ha)
  have hagree : ∀ a ∈ arguments, (resolvesToString a.schema = true ↔
      IsStringArgument q tool.name a.name) ↔ ¬ LooselyString a.schema := by
    intro a ha
    have hargument := isStringArgument_iff made htool unique (ofTool.property a ha)
    rw [IsStringArgument, ← idle.strings] at hargument
    exact agree_iff hargument
  constructor
  · intro h
    exact h.readable json idle hfunction hparameters ofTool.distinct hvalid
      fun a ha => (hagree a ha).mp (h.agree a ha)
  · intro hreadable
    refine .of_readable json idle hfunction hparameters ofTool.distinct (fun a ha => ⟨hvalid a ha, ?_⟩)
      (fun name hname => ?_) (fun a ha => (hagree a ha).mpr (hreadable a ha).schema) hreadable
    · rw [ToolParameters.ofTool, BTreeSet.contains_ofKeys]
      exact mem_map_of_mem (ofTool.property a ha)
    · rw [BTreeMap.mem_keys_iff] at hname
      exact ofTool.required name (BTreeSet.contains_ofKeys.mp hname)

end

/-! ## Calls of two tools -/

/-- A function tool with the given parameters. -/
def toolOf (properties : List (Text × Value)) : ChatTool where
  name := "read"
  parameters := .object [("properties".toList, .object properties),
    ("type".toList, .string "object".toList)]

def integerSchema : Value := .object [("type".toList, .string "integer".toList)]

def stringSchema : Value := .object [("type".toList, .string "string".toList)]

def nullableStringSchema : Value :=
  .object [("type".toList, .array [.string "string".toList, .string "null".toList])]

/-- `serde_json::from_str` on the number 123. -/
def parseNumber (t : Text) : Except Text Value :=
  if t = "123".toList then .ok (.number "123") else .error "expected value"

theorem parseNumber_eq_ok {value : Value} (h : parseNumber t = .ok value) :
    t = "123".toList ∧ value = .number "123" := by
  rw [parseNumber] at h
  split at h
  · rename_i ht
    exact ⟨ht, (Except.ok.inj h).symm⟩
  · cases h

theorem parseNumber_jsonText : JsonText parseNumber where
  closed h := by
    rw [(parseNumber_eq_ok h).1]
    decide
  quoted {t value i} h hi := by
    rw [(parseNumber_eq_ok h).1] at hi
    exact absurd (mem_of_getElem? hi) (by decide)
  verbatim h := by
    have hvalue := (parseNumber_eq_ok h).2
    cases hvalue
  trailing {t value} h := by
    have hlast := congrArg getLast? (parseNumber_eq_ok h).1
    rw [getLast?_concat] at hlast
    exact absurd hlast (by decide)

def twoParameters : List (Text × Value) := [("path", stringSchema), ("line", integerSchema)]

/-- Text with a closing tag of its own, and a number. -/
def twoArguments : List Argument :=
  [⟨"line", integerSchema, "123"⟩, ⟨"path", stringSchema, "</function>\n"⟩]

theorem two_arguments_read_back : ∃ p,
    ChatOutputParser.new [toolOf twoParameters] false 1 = .ok p ∧
      ReadsBack parseNumber p "read" twoArguments := by
  have hmade : ∃ p rules, ChatOutputParser.new [toolOf twoParameters] false 1 = .ok p ∧
      buildArguments (toolOf twoParameters).parameters = .ok rules ∧ Idle p p :=
    ⟨_, _, rfl, rfl, ⟨rfl, rfl, rfl, rfl, rfl, rfl, by decide⟩⟩
  obtain ⟨p, rules, made, built, idle⟩ := hmade
  refine ⟨p, made, (raw_text_read_back_iff parseNumber_jsonText made mem_cons_self (by decide)
    (by decide) built idle (show CallOf (toolOf twoParameters) twoArguments from
      ⟨by decide, ?_, by decide⟩)).mpr ?_⟩
  · rw [twoArguments, forall_mem_cons, forall_mem_singleton]
    exact ⟨mem_cons_of_mem _ mem_cons_self, mem_cons_self⟩
  · rw [twoArguments, forall_mem_cons, forall_mem_singleton]
    refine ⟨⟨fun h => ?_, by decide, by decide, fun h => ?_, fun _ => ⟨_, rfl⟩⟩,
      ⟨fun h => ?_, by decide, by decide, fun _ => by decide, fun h => ?_⟩⟩
    · exact h
    · cases h
    · exact h
    · cases h

set_option maxRecDepth 4000 in
/-- The grammar admits `123` as raw text of a nullable string, and the parser reads
the number 123. -/
theorem loosely_string_becomes_number :
    ∃ p q rules, ChatOutputParser.new [toolOf [("line", nullableStringSchema)]] false 1 = .ok p ∧
      buildArguments (toolOf [("line", nullableStringSchema)]).parameters = .ok rules ∧
      rules.parameters = [⟨"line", .text⟩] ∧
      ParameterBody.text.Admits (fun _ _ => False) "123" ∧
      p.pushText parseNumber
          (toolCallOpen ++ callText "read" [⟨"line", nullableStringSchema, "123"⟩]) =
        .ok (q, [.toolCall ⟨1, ⟨"read", BTreeMap.empty.insert "line".toList (.number "123")⟩⟩]) ∧
      ¬ ReadsBack parseNumber p "read" [⟨"line", nullableStringSchema, "123"⟩] := by
  have hmade : ∃ p q rules,
      ChatOutputParser.new [toolOf [("line", nullableStringSchema)]] false 1 = .ok p ∧
      buildArguments (toolOf [("line", nullableStringSchema)]).parameters = .ok rules ∧
      rules.parameters = [⟨"line", .text⟩] ∧
      p.pushText parseNumber
          (toolCallOpen ++ callText "read" [⟨"line", nullableStringSchema, "123"⟩]) =
        .ok (q, [.toolCall ⟨1, ⟨"read", BTreeMap.empty.insert "line".toList (.number "123")⟩⟩]) ∧
      p.stringArguments = BTreeMap.empty.insert "read".toList BTreeMap.empty :=
    ⟨_, _, _, rfl, rfl, rfl, rfl, rfl⟩
  obtain ⟨p, q, rules, made, built, hrules, hpush, hstrings⟩ := hmade
  refine ⟨p, q, rules, made, built, hrules, ?_, hpush, ?_⟩
  · rw [ParameterBody.Admits]
    decide
  · intro hreads
    have hagree := hreads.agree _ mem_cons_self
    rw [IsStringArgument, hstrings] at hagree
    revert hagree
    decide

end Eider.Guarantees.StringArguments
