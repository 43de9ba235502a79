import Eider.Lib.Run
import Eider.Source.ChatOutput

/-!
# Tool calls name declared tools

Every protocol of the output parser looks the called function up among the
declared tools, except two of the three forms that stand between `<tool_call>`
and `</tool_call>`: a JSON call that carries its own name and a Poolside call are
emitted under whatever name they carry (`undeclared_call_emitted`).

`carriedName` is that name. A run of the parser emits only calls of declared
tools if and only if, whenever a `<tool_call>` block closes, the name its body
carries is declared (`calls_declared_iff`).
-/
namespace Eider.Guarantees.DeclaredTools
open Lib Lib.Search Lib.Run Source List BTreeMap

variable {strings : BTreeMap Text (BTreeSet Text)} {functions functions' : List ChatFunctionCall}
variable {body : Text} {function : ChatFunctionCall} {tools : List ChatTool}
variable {p q : ChatOutputParser} {events : List ChatOutputEvent} {s : Emitting}

/-! ## The property and the condition -/

/-- One of the tools has the name. -/
def Declared (tools : List ChatTool) (name : Text) : Prop := ∃ tool ∈ tools, tool.name = name

/-- A tool-call event names one of the tools. -/
def NamesDeclared (tools : List ChatTool) : ChatOutputEvent → Prop
  | .toolCall call => Declared tools call.function.name
  | _ => True

section
variable (fromStr : Text → Except Text Value)

/-- The name that a `<tool_call>` body in JSON or Poolside form carries. A body in
the `<function=` form and a JSON body without a name carry none. -/
def carriedName (body : Text) : Option Text :=
  let body := trimMatches isNewline body
  if body.head? = some '\x7b' then
    match fromStr body with
    | .error _ => none
    | .ok call => call.asObject.bind fun object =>
        let function := ((object.lookup "function".toList).bind Value.asObject).getD object
        (function.lookup "name".toList).bind Value.asStr
  else
    match stripPrefix "<function=" body with
    | some _ => none
    | none =>
      let body := trimMatches isNewline body
      some (trim (body.take ((find "<arg_key>".toList body).getD body.length)))

/-- If the next round closes a `<tool_call>` block, the name that its body carries
is declared. -/
def CarriesDeclared (tools : List ChatTool) (p : ChatOutputParser) : Prop :=
  p.mode = .toolCall → p.toolCallProtocol = .standard →
    ∀ index, ChatOutputParser.closeIndex .standard (p.toolCall ++ p.pending) = some index →
      ∀ name, carriedName fromStr ((p.toolCall ++ p.pending).take index) = some name →
        Declared tools name

/-! ## Names that the body parsers return -/

variable {parameters : BTreeMap Text ToolParameters} {arguments : BTreeMap Text Value}

theorem atemInvocations_declared {fuel : Nat} {input : Text}
    (h : atemInvocations fromStr strings parameters fuel input functions = .ok functions')
    (hdeclared : ∀ f ∈ functions, parameters.contains f.name = true) :
    ∀ f ∈ functions', parameters.contains f.name = true := by
  induction fuel generalizing input functions with
  | zero =>
    cases h
    exact hdeclared
  | succ fuel ih =>
    rw [atemInvocations] at h
    split at h
    · cases h
      exact hdeclared
    · obtain ⟨⟨attributes, invokeBody⟩, -, h⟩ := bind_ok h
      obtain ⟨⟨name, attributes⟩, -, h⟩ := bind_ok h
      obtain ⟨-, -, h⟩ := bind_ok h
      obtain ⟨-, -, h⟩ := bind_ok h
      obtain ⟨hname, h⟩ := ensure_ok h
      obtain ⟨close, -, h⟩ := bind_ok h
      obtain ⟨arguments, -, h⟩ := bind_ok h
      refine ih h ?_
      rw [forall_mem_append, forall_mem_singleton]
      exact ⟨hdeclared, hname⟩

theorem dsmlInvocations_declared {fuel : Nat} {input : Text}
    (h : dsmlInvocations fromStr parameters fuel input functions = .ok functions')
    (hdeclared : ∀ f ∈ functions, parameters.contains f.name = true) :
    ∀ f ∈ functions', parameters.contains f.name = true := by
  induction fuel generalizing input functions with
  | zero =>
    cases h
    exact hdeclared
  | succ fuel ih =>
    rw [dsmlInvocations] at h
    split at h
    · cases h
      exact hdeclared
    · obtain ⟨⟨attributes, invokeBody⟩, -, h⟩ := bind_ok h
      obtain ⟨⟨name, attributes⟩, -, h⟩ := bind_ok h
      obtain ⟨-, -, h⟩ := bind_ok h
      obtain ⟨-, -, h⟩ := bind_ok h
      obtain ⟨hname, h⟩ := ensure_ok h
      obtain ⟨close, -, h⟩ := bind_ok h
      obtain ⟨arguments, -, h⟩ := bind_ok h
      refine ih h ?_
      rw [forall_mem_append, forall_mem_singleton]
      exact ⟨hdeclared, hname⟩

theorem nonempty_ok {e : Error}
    (h : (if functions.isEmpty = true then throw e else pure functions : Except Error _) =
      .ok functions') : functions = functions' := by
  split at h
  · cases h
  · exact Except.ok.inj h

theorem parseAtemFunctionCalls_declared
    (h : parseAtemFunctionCalls fromStr body strings parameters = .ok functions) :
    ∀ f ∈ functions, parameters.contains f.name = true := by
  obtain ⟨parsed, hparsed, h⟩ := bind_ok h
  have hdeclared := atemInvocations_declared fromStr hparsed (by simp)
  rwa [nonempty_ok h] at hdeclared

theorem parseDsmlFunctionCalls_declared
    (h : parseDsmlFunctionCalls fromStr body parameters = .ok functions) :
    ∀ f ∈ functions, parameters.contains f.name = true := by
  obtain ⟨parsed, hparsed, h⟩ := bind_ok h
  have hdeclared := dsmlInvocations_declared fromStr hparsed (by simp)
  rwa [nonempty_ok h] at hdeclared

theorem parseGemmaFunctionCall_declared
    (h : parseGemmaFunctionCall fromStr body strings parameters = .ok function) :
    parameters.contains function.name = true := by
  obtain ⟨call, -, h⟩ := bind_ok h
  obtain ⟨start, -, h⟩ := bind_ok h
  obtain ⟨-, -, h⟩ := bind_ok h
  obtain ⟨hname, h⟩ := ensure_ok h
  obtain ⟨inner, -, h⟩ := bind_ok h
  obtain ⟨fields, -, h⟩ := bind_ok h
  obtain ⟨arguments, -, h⟩ := bind_ok h
  cases h
  exact hname

theorem inferJsonFunctionName_declared {name : Text}
    (h : inferJsonFunctionName arguments parameters = .ok name) :
    parameters.contains name = true := by
  simp only [inferJsonFunctionName] at h
  split at h
  · rename_i schema hcandidates
    cases h
    have hmem : (name, schema) ∈ parameters.entries := by
      have hcandidate := mem_singleton_self (name, schema)
      rw [← hcandidates] at hcandidate
      exact (mem_filter.mp hcandidate).1
    rw [BTreeMap.contains, BTreeMap.mem_entries_iff.mp hmem]
    rfl
  · cases h
  · cases h

/-- The last part of a JSON call: the carried name, or an inferred one. -/
theorem jsonName_declared {carried : Option Text} (h : (match carried with
      | some name => do
        let name ← pure name
        validateProtocolName "function" name
        pure ⟨name, arguments⟩
      | none => do
        let name ← inferJsonFunctionName arguments parameters
        validateProtocolName "function" name
        pure ⟨name, arguments⟩ : Except Error ChatFunctionCall) = .ok function) :
    carried = some function.name ∨
      carried = none ∧ parameters.contains function.name = true := by
  cases carried with
  | some name =>
    obtain ⟨_, hpure, h⟩ := bind_ok h
    cases hpure
    obtain ⟨-, -, h⟩ := bind_ok h
    cases h
    exact .inl rfl
  | none =>
    obtain ⟨name, hname, h⟩ := bind_ok h
    obtain ⟨-, -, h⟩ := bind_ok h
    cases h
    exact .inr ⟨rfl, inferJsonFunctionName_declared hname⟩

theorem parseJsonFunctionCall_name
    (h : parseJsonFunctionCall fromStr body parameters = .ok function) :
    ∃ call object, fromStr body = .ok call ∧ call.asObject = some object ∧
      (((((object.lookup "function".toList).bind Value.asObject).getD object).lookup
          "name".toList).bind Value.asStr = some function.name ∨
        ((((object.lookup "function".toList).bind Value.asObject).getD object).lookup
          "name".toList).bind Value.asStr = none ∧ parameters.contains function.name = true) := by
  rw [parseJsonFunctionCall] at h
  split at h
  · rename_i call hcall
    obtain ⟨_, hpure, h⟩ := bind_ok h
    cases hpure
    obtain ⟨object, hobject, h⟩ := bind_ok h
    refine ⟨call, object, hcall, okOr_eq_ok hobject, ?_⟩
    simp only [pure_bind] at h
    split at h
    · split at h
      · exact jsonName_declared h
      · exact jsonName_declared h
    · exact jsonName_declared h
    · exact jsonName_declared h
    · split at h
      · obtain ⟨arguments, -, h⟩ := bind_ok h
        exact jsonName_declared h
      · cases h
    · cases h
  · cases h

theorem parseFunctionCall_name
    (h : parseFunctionCall fromStr body strings parameters = .ok function) :
    carriedName fromStr body = some function.name ∨
      carriedName fromStr body = none ∧ parameters.contains function.name = true := by
  rw [parseFunctionCall] at h
  simp only [carriedName]
  split at h
  · rename_i hjson
    rw [if_pos hjson]
    obtain ⟨call, object, hcall, hobject, hname⟩ := parseJsonFunctionCall_name fromStr h
    rw [hcall]
    simp only [hobject, Option.bind_some]
    exact hname
  · rename_i hjson
    rw [if_neg hjson]
    split at h
    · rename_i hpoolside
      rw [hpoolside]
      obtain ⟨-, -, h⟩ := bind_ok h
      obtain ⟨arguments, -, h⟩ := bind_ok h
      cases h
      exact .inl rfl
    · rename_i tag hxml
      rw [hxml]
      obtain ⟨openEnd, -, h⟩ := bind_ok h
      obtain ⟨-, -, h⟩ := bind_ok h
      obtain ⟨schema, hschema, h⟩ := bind_ok h
      obtain ⟨closeStart, -, h⟩ := bind_ok h
      obtain ⟨-, h⟩ := guard_ok h
      obtain ⟨arguments, -, h⟩ := bind_ok h
      split at h
      · cases h
      · cases h
        refine .inr ⟨rfl, ?_⟩
        rw [BTreeMap.contains, okOr_eq_ok hschema]
        rfl

/-! ## One round -/

/-- The parser looks names up among the given tools. -/
structure Declares (tools : List ChatTool) (p : ChatOutputParser) : Prop where
  parameters : ∀ name, p.toolParameters.contains name = true ↔ Declared tools name
  direct : ∀ tool ∈ p.directTools, Declared tools tool.name

theorem Declares.sameTools (h : Declares tools p) (hsame : ChatOutputParser.SameTools p q) :
    Declares tools q where
  parameters name := by
    rw [hsame.parameters]
    exact h.parameters name
  direct := by
    rw [hsame.direct]
    exact h.direct

theorem parseFunctions_declared_iff (hp : Declares tools p)
    (h : p.parseFunctions fromStr body = .ok functions) :
    (∀ f ∈ functions, Declared tools f.name) ↔
      (p.toolCallProtocol = .standard →
        ∀ name, carriedName fromStr body = some name → Declared tools name) := by
  have hknown : (∀ f ∈ functions, p.toolParameters.contains f.name = true) →
      ∀ f ∈ functions, Declared tools f.name :=
    fun hall f hf => (hp.parameters _).mp (hall f hf)
  rw [ChatOutputParser.parseFunctions] at h
  cases hprotocol : p.toolCallProtocol with
  | standard =>
    simp only [hprotocol] at h
    obtain ⟨function, hfunction, h⟩ := bind_ok h
    cases h
    rcases parseFunctionCall_name fromStr hfunction with hname | ⟨hnone, hname⟩
    · simp [hname]
    · simpa [hnone] using (hp.parameters _).mp hname
  | lfm2 =>
    simp only [hprotocol] at h
    obtain ⟨calls, -, h⟩ := bind_ok h
    split at h
    · cases h
    · rename_i hfind
      cases h
      refine iff_of_true (hknown ?_) (by simp)
      simpa using find?_eq_none.mp hfind
  | gemma =>
    simp only [hprotocol] at h
    obtain ⟨function, hfunction, h⟩ := bind_ok h
    cases h
    refine iff_of_true (hknown ?_) (by simp)
    rw [forall_mem_singleton]
    exact parseGemmaFunctionCall_declared fromStr hfunction
  | dsml =>
    simp only [hprotocol] at h
    exact iff_of_true (hknown (parseDsmlFunctionCalls_declared fromStr h)) (by simp)
  | atem =>
    simp only [hprotocol] at h
    exact iff_of_true (hknown (parseAtemFunctionCalls_declared fromStr h)) (by simp)

theorem step_declared_iff {out : List ChatOutputEvent} {b : Bool} (hp : Declares tools p)
    (h : p.step fromStr = .ok (q, out, b)) :
    (∀ event ∈ out, NamesDeclared tools event) ↔ CarriesDeclared fromStr tools p := by
  rw [ChatOutputParser.step] at h
  rw [CarriesDeclared]
  cases hmode : p.mode with
  | reasoning =>
    simp only [hmode] at h
    obtain rfl : p.parseReasoning.2.1 = out := by rw [Except.ok.inj h]
    exact iff_of_true (ChatOutputParser.forall_mem_parseReasoning (fun _ _ => trivial) p) (by simp)
  | text =>
    simp only [hmode] at h
    obtain rfl : p.parseText.2.1 = out := by rw [Except.ok.inj h]
    exact iff_of_true (ChatOutputParser.forall_mem_parseText (fun _ _ => trivial) p) (by simp)
  | toolCall =>
    simp only [hmode] at h
    obtain ⟨-, ⟨hopen, rfl⟩ | ⟨index, functions, ids, hindex, hfunctions, hevents⟩⟩ :=
      ChatOutputParser.parseToolCall_ok fromStr h
    · refine iff_of_true (forall_mem_nil _) ?_
      intro _ hstandard index hindex
      rw [← hstandard, hopen] at hindex
      cases hindex
    · rw [ChatOutputParser.forall_mem_emitToolCalls (Q := fun f => Declared tools f.name)
        (fun _ => Iff.rfl) hevents,
        parseFunctions_declared_iff fromStr hp hfunctions]
      constructor
      · intro hcarried _ hstandard index' hindex'
        rw [hstandard] at hindex
        cases hindex.symm.trans hindex'
        exact hcarried hstandard
      · intro hcarried hstandard
        rw [hstandard] at hindex
        exact hcarried rfl hstandard index hindex
  | directToolCall =>
    simp only [hmode] at h
    refine iff_of_true ?_ (by simp)
    obtain ⟨-, rfl | ⟨definition, hmem, arguments, ids, hevents⟩⟩ :=
      ChatOutputParser.parseDirectToolCall_ok h
    · exact forall_mem_nil _
    · rw [ChatOutputParser.forall_mem_emitToolCalls (Q := fun f => Declared tools f.name)
        (fun _ => Iff.rfl) hevents,
        forall_mem_singleton]
      exact hp.direct definition hmem

/-! ## Runs of the parser -/

/-- What the codec asks of its parser. -/
inductive Input where
  | push (t : Text)
  | finish (truncated : Bool)
  | beginMuseSegment (header : Text)
  | endMuseSegment

/-- A parser and the events that it has emitted. -/
abbrev Emitting := ChatOutputParser × List ChatOutputEvent

/-- The call that an input stands for. -/
def Input.perform (p : ChatOutputParser) : Input →
    Except Error (ChatOutputParser × List ChatOutputEvent)
  | .push t => p.pushText fromStr t
  | .finish truncated => p.finishWithTruncation truncated
  | .beginMuseSegment header => (p.beginMuseSegment header).map fun p => (p, [])
  | .endMuseSegment => p.endMuseSegment

/-- One input. A failed call ends the run. -/
def emitNext (s : Emitting) (input : Input) : Option Emitting :=
  match input.perform fromStr s.1 with
  | .error _ => none
  | .ok (p, events) => some (p, s.2 ++ events)

/-- Every `<tool_call>` block that the input closes carries a declared name, or
none. -/
def ClosesDeclared (tools : List ChatTool) (s : Emitting) : Input → Prop
  | .push t => ∀ p, (ChatOutputParser.machine fromStr).Visits (s.1.feed t) p →
      CarriesDeclared fromStr tools p
  | _ => True

theorem pushText_declared {t : Text} (hp : Declares tools p)
    (h : p.pushText fromStr t = .ok (q, events)) :
    Declares tools q ∧ ((∀ event ∈ events, NamesDeclared tools event) ↔
      ∀ r, (ChatOutputParser.machine fromStr).Visits (p.feed t) r →
        CarriesDeclared fromStr tools r) := by
  rw [ChatOutputParser.pushText] at h
  split at h
  · cases h
  · have hfed : Declares tools (p.feed t) := ⟨hp.parameters, hp.direct⟩
    have hkeeps : ∀ {r r' : ChatOutputParser} {out : List ChatOutputEvent} {b : Bool},
        Declares tools r → (ChatOutputParser.machine fromStr).step r = .ok (r', out, b) →
        Declares tools r' :=
      fun hr hstep => hr.sameTools (ChatOutputParser.step_sameTools fromStr hstep)
    exact ⟨Drain.Machine.drain_inv _ hkeeps hfed h,
      Drain.Machine.drain_outputs_iff _ hkeeps (fun hr hstep => step_declared_iff fromStr hr hstep)
        hfed h⟩

theorem finish_sameTools {truncated : Bool}
    (h : p.finishWithTruncation truncated = .ok (q, events)) :
    q.toolParameters = p.toolParameters ∧ q.directTools = p.directTools := by
  rw [ChatOutputParser.finishWithTruncation] at h
  split at h
  · cases h
    exact ⟨rfl, rfl⟩
  · dsimp only at h
    split at h
    · cases h
      exact ⟨rfl, rfl⟩
    · cases h
      exact ⟨rfl, rfl⟩
    · split at h
      · cases h
        exact ⟨rfl, rfl⟩
      · cases h
    · split at h
      · cases h
        exact ⟨rfl, rfl⟩
      · cases h

theorem beginMuseSegment_sameTools {header : Text} (h : p.beginMuseSegment header = .ok q) :
    ChatOutputParser.SameTools p q := by
  obtain ⟨recipient, -, h⟩ := bind_ok h
  obtain ⟨-, h⟩ := guard_ok h
  cases h
  exact ⟨rfl, rfl, rfl⟩

theorem endMuseSegment_declared (h : p.endMuseSegment = .ok (q, events)) :
    ChatOutputParser.SameTools p q ∧ ∀ event ∈ events, NamesDeclared tools event := by
  rw [ChatOutputParser.endMuseSegment] at h
  split at h
  · cases h
    exact ⟨⟨rfl, rfl, rfl⟩, ChatOutputParser.forall_mem_pushNonempty (fun _ _ => trivial) _⟩
  · cases h
    exact ⟨⟨rfl, rfl, rfl⟩, ChatOutputParser.forall_mem_pushNonempty (fun _ _ => trivial) _⟩
  · cases h
  · cases h

theorem perform_declared {input : Input} (hs : Declares tools s.1)
    (h : input.perform fromStr s.1 = .ok (q, events)) :
    Declares tools q ∧ ((∀ event ∈ events, NamesDeclared tools event) ↔
      ClosesDeclared fromStr tools s input) := by
  cases input with
  | push t => exact pushText_declared fromStr hs h
  | finish truncated =>
    obtain ⟨hparameters, hdirect⟩ := finish_sameTools h
    refine ⟨⟨hparameters ▸ hs.parameters, hdirect ▸ hs.direct⟩, iff_of_true ?_ trivial⟩
    exact ChatOutputParser.forall_mem_finish (fun _ _ => trivial) (fun _ _ => trivial) h
  | beginMuseSegment header =>
    cases hbegin : s.1.beginMuseSegment header with
    | error e =>
      rw [Input.perform, hbegin] at h
      cases h
    | ok r =>
      rw [Input.perform, hbegin] at h
      cases h
      exact ⟨hs.sameTools (beginMuseSegment_sameTools hbegin),
        iff_of_true (forall_mem_nil _) trivial⟩
  | endMuseSegment =>
    obtain ⟨hsame, hevents⟩ := endMuseSegment_declared h
    exact ⟨hs.sameTools hsame, iff_of_true hevents trivial⟩

theorem emitNext_eq_some {t : Emitting} {input : Input} (h : emitNext fromStr s input = some t) :
    ∃ events, input.perform fromStr s.1 = .ok (t.1, events) ∧ t.2 = s.2 ++ events := by
  rw [emitNext] at h
  split at h
  · cases h
  · rename_i p events hperform
    cases h
    exact ⟨events, hperform, rfl⟩

theorem path_declared_iff {t : Emitting} {inputs : List Input}
    (path : Path (emitNext fromStr) (fun _ _ => True) s inputs t) (hs : Declares tools s.1) :
    (∀ event ∈ t.2, NamesDeclared tools event) ↔
      (∀ event ∈ s.2, NamesDeclared tools event) ∧
        Path (emitNext fromStr) (ClosesDeclared fromStr tools) s inputs t := by
  induction path with
  | nil s => exact ⟨fun h => ⟨h, .nil s⟩, fun h => h.1⟩
  | @cons s u t input inputs _ taken rest ih =>
    obtain ⟨events, hperform, hemitted⟩ := emitNext_eq_some fromStr taken
    obtain ⟨hu, hevents⟩ := perform_declared fromStr hs hperform
    rw [ih hu, hemitted, forall_mem_append, hevents]
    constructor
    · rintro ⟨⟨hearlier, hcloses⟩, hrest⟩
      exact ⟨hearlier, .cons hcloses taken hrest⟩
    · rintro ⟨hearlier, hpath⟩
      cases hpath with
      | cons hcloses taken' hrest =>
        cases taken.symm.trans taken'
        exact ⟨⟨hearlier, hcloses⟩, hrest⟩

/-! ## A fresh parser -/

theorem collectTools_declared {met : List ChatTool} {direct : List DirectTool}
    {r : BTreeMap Text (BTreeSet Text) × BTreeMap Text ToolParameters × List DirectTool}
    (h : collectTools tools strings parameters direct = .ok r)
    (hparameters : ∀ name, parameters.contains name = true ↔ Declared met name)
    (hdirect : ∀ tool ∈ direct, Declared met tool.name) :
    (∀ name, r.2.1.contains name = true ↔ Declared (met ++ tools) name) ∧
      ∀ tool ∈ r.2.2, Declared (met ++ tools) tool.name := by
  induction tools generalizing met strings parameters direct with
  | nil =>
    cases h
    rw [append_nil]
    exact ⟨hparameters, hdirect⟩
  | cons tool rest ih =>
    rw [collectTools] at h
    split at h
    · cases h
    · have hmet : ∀ name, Declared (met ++ [tool]) name ↔ Declared met name ∨ tool.name = name := by
        intro name
        simp [Declared, or_and_right, exists_or]
      rw [append_cons]
      refine ih h ?_ ?_
      · intro name
        rw [BTreeMap.contains_insert, hmet, hparameters, or_comm, eq_comm]
      · rw [forall_mem_append]
        constructor
        · exact fun d hd => (hmet _).mpr (.inl (hdirect d hd))
        · intro d hd
          exact (hmet _).mpr (.inr (directTool_name (Option.mem_toList.mp hd)).symm)

theorem new_declares {startsInReasoning : Bool} {ids : Nat}
    (h : ChatOutputParser.new tools startsInReasoning ids = .ok p) : Declares tools p := by
  obtain ⟨r, hr, h⟩ := bind_ok h
  have hnone : ∀ name, (BTreeMap.empty : BTreeMap Text ToolParameters).contains name = true ↔
      Declared [] name := by
    intro name
    simp [BTreeMap.contains, Declared]
  obtain ⟨hparameters, hdirect⟩ := collectTools_declared hr hnone (forall_mem_nil _)
  cases h
  exact ⟨hparameters, hdirect⟩

/-- **Emitted calls and declared tools.** A parser that was made for the tools
emits calls of these tools only, over any inputs, if and only if every `<tool_call>`
block that a push closes carries the name of one of them, or no name. -/
theorem calls_declared_iff {tools : List ChatTool} {startsInReasoning : Bool} {ids : Nat}
    {p : ChatOutputParser} (made : ChatOutputParser.new tools startsInReasoning ids = .ok p)
    {inputs : List Input} {t : Emitting}
    (path : Path (emitNext fromStr) (fun _ _ => True) (p, []) inputs t) :
    (∀ event ∈ t.2, NamesDeclared tools event) ↔
      Path (emitNext fromStr) (ClosesDeclared fromStr tools) (p, []) inputs t := by
  rw [path_declared_iff fromStr path (new_declares made)]
  simp

end

/-- The parameter schema of a tool without parameters. -/
def noParameters : Value := .object [("type".toList, .string "object".toList)]

theorem visits_two {σ ε ω : Type} {M : Drain.Machine σ ε ω} {s t r u : σ} {out last : List ω}
    (first : M.step s = .ok (t, out, true)) (second : M.step t = .ok (r, last, false))
    (h : M.Visits s u) : u = s ∨ u = t := by
  cases h with
  | here => exact .inl rfl
  | later hstep rest =>
    obtain ⟨rfl, -⟩ := Prod.mk.inj (Except.ok.inj (first.symm.trans hstep))
    cases rest with
    | here => exact .inr rfl
    | later hstep _ => cases second.symm.trans hstep

/-- A Poolside call of the declared tool, in two chunks. -/
theorem declared_call_emitted :
    ∃ p t, ChatOutputParser.new [⟨"run", noParameters⟩] false 1 = .ok p ∧
      Path (emitNext fun _ => .error []) (fun _ _ => True) (p, [])
        [.push "<tool_call>run</tool".toList, .push "_call>".toList, .finish false] t ∧
      ∀ event ∈ t.2, NamesDeclared [⟨"run", noParameters⟩] event := by
  have made : ChatOutputParser.new [⟨"run", noParameters⟩] false 1 = .ok _ := rfl
  refine ⟨_, _, made, .of_run rfl, ?_⟩
  refine (calls_declared_iff (fun _ => .error []) made (show Path _ _ _
    [.push "<tool_call>run</tool".toList, .push "_call>".toList, .finish false] _ from
      .of_run rfl)).mpr ?_
  refine .cons ?_ rfl (.cons ?_ rfl (.cons trivial rfl (.nil _)))
  -- Each chunk is read in two rounds; only the second chunk closes the block.
  · intro u hu
    rcases visits_two rfl rfl hu with rfl | rfl
    · intro htext
      cases htext
    · intro _ _ index hindex
      cases (show (none : Option Nat) = some index from hindex)
  · intro u hu
    rcases visits_two rfl rfl hu with rfl | rfl
    · intro _ _ index hindex name hname
      obtain rfl : 3 = index := Option.some.inj hindex
      obtain rfl : "run".toList = name := Option.some.inj hname
      exact ⟨_, mem_cons_self, rfl⟩
    · intro htext
      cases htext

/-- A Poolside call of a function that no tool declares is emitted. -/
theorem undeclared_call_emitted :
    ¬ ∀ (fromStr : Text → Except Text Value) (tools : List ChatTool) (startsInReasoning : Bool)
      (ids : Nat) (p : ChatOutputParser) (inputs : List Input) (t : Emitting),
      ChatOutputParser.new tools startsInReasoning ids = .ok p →
      Path (emitNext fromStr) (fun _ _ => True) (p, []) inputs t →
      ∀ event ∈ t.2, NamesDeclared tools event := by
  intro hall
  have hrun : ∃ p t rest, ChatOutputParser.new [⟨"run", noParameters⟩] false 1 = .ok p ∧
      run (emitNext fun _ => .error []) (p, []) [.push "<tool_call>erase</tool_call>".toList] =
        some t ∧ t.2 = .toolCall ⟨1, ⟨"erase", empty⟩⟩ :: rest :=
    ⟨_, _, _, rfl, rfl, rfl⟩
  obtain ⟨p, t, rest, made, hrun, hevents⟩ := hrun
  obtain ⟨tool, htool, hname⟩ := hall _ _ _ _ p _ t made (.of_run hrun)
    (.toolCall ⟨1, ⟨"erase", empty⟩⟩) (by rw [hevents]; exact mem_cons_self)
  obtain rfl := mem_singleton.mp htool
  revert hname
  decide

end Eider.Guarantees.DeclaredTools
