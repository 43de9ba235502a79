import Mathlib.Data.List.TakeWhile
import Eider.Source.ChatOutput

/-!
# Where an LFM2 call ends

The scanner for the closing marker knows only quotes and escapes, the parser the whole grammar.
Whatever the parser consumes takes the scanner from outside a string to outside a string without
a marker in between, so the two cut the text at the same place (`closing_marker_found`).
-/
namespace Eider.Guarantees.ClosingMarkers
open Lib Source Source.Lfm2 Option

variable {fromStr : Text → Except Text Value} {marker rest rest' : Text} {c : Char}

/-- A character that neither opens a string nor a marker. -/
def Plain (c : Char) : Prop := c ≠ '\'' ∧ c ≠ '"' ∧ c ≠ '<'

instance : Decidable (Plain c) := inferInstanceAs (Decidable (_ ∧ _ ∧ _))

/-- The characters of a JSON number. -/
def isNumberChar (c : Char) : Bool := c.isDigit || c ∈ ['+', '-', '.', 'e', 'E']

/-- What JSON reads as a number is white space and the characters of a number. -/
def ReadsNumbers (fromStr : Text → Except Text Value) : Prop :=
  ∀ raw value, fromStr raw = .ok value → value.isNumber = true →
    ∀ c ∈ raw, isNumberChar c = true ∨ isWhitespace c = true

/-! ## Plain text -/

theorem plain_of_name (h : isProtocolNameChar c = true) : Plain c := by
  refine ⟨?_, ?_, ?_⟩ <;> rintro rfl <;> revert h <;> decide

theorem plain_of_whitespace (h : isWhitespace c = true) : Plain c := by
  refine ⟨?_, ?_, ?_⟩ <;> rintro rfl <;> revert h <;> decide

theorem plain_of_number (h : isNumberChar c = true) : Plain c := by
  refine ⟨?_, ?_, ?_⟩ <;> rintro rfl <;> revert h <;> decide

/-! ## What the scanner passes -/

/-- Behind `input` the scanner stands outside strings before `rest`, and it has met no marker. -/
structure Passes (marker input rest : Text) : Prop where
  shorter : rest.length ≤ input.length
  scan : ∀ tail, closingLoop marker ⟨none, false⟩ (input ++ tail) =
    (closingLoop marker ⟨none, false⟩ (rest ++ tail)).map (· + (input.length - rest.length))

namespace Passes

theorem refl (rest : Text) : Passes marker rest rest := ⟨Nat.le_refl _, by simp⟩

theorem trans {input : Text} (h : Passes marker input rest) (h' : Passes marker rest rest') :
    Passes marker input rest' := by
  have hshort := h.shorter
  have hshort' := h'.shorter
  refine ⟨by omega, fun tail => ?_⟩
  have hsum : ∀ i, i + (rest.length - rest'.length) + (input.length - rest.length) =
      i + (input.length - rest'.length) := by omega
  rw [h.scan, h'.scan, map_map]
  simp only [Function.comp_def, hsum]

variable (hmarker : marker.head? = some '<') {quote : Char}
include hmarker

theorem plain (h : Plain c) : Passes marker (c :: rest) rest := by
  refine ⟨by simp, fun tail => ?_⟩
  obtain ⟨hsingle, hdouble, hangle⟩ := h
  have hno : marker.isPrefixOf (c :: (rest ++ tail)) = false := by
    cases marker with
    | nil => cases hmarker
    | cons d marker =>
      obtain rfl : d = '<' := by simpa using hmarker
      simp [List.isPrefixOf, hangle.symm]
  simp [closingLoop, hno, Quotation.advance, hsingle, hdouble]

theorem append {left : Text} (h : ∀ c ∈ left, Plain c) : Passes marker (left ++ rest) rest := by
  induction left with
  | nil => exact refl rest
  | cons c left ih =>
    obtain ⟨hc, hleft⟩ := List.forall_mem_cons.mp h
    exact (plain hmarker hc).trans (ih hleft)

omit hmarker in
/-- Inside a string the scanner looks for the same quote as the parser. -/
theorem closingLoop_quoted {t : Text} {escaped : Bool} {close : Nat}
    (h : stringEnd quote escaped t = some close) (tail : Text) :
    closingLoop marker ⟨some quote, escaped⟩ (t ++ tail) =
      (closingLoop marker ⟨none, false⟩ (t.drop (close + 1) ++ tail)).map (· + (close + 1)) := by
  induction t generalizing escaped close with
  | nil => cases h
  | cons c t ih =>
    have hstep {e : Bool} (hrest : (stringEnd quote e t).map (· + 1) = some close) :
        (closingLoop marker ⟨some quote, e⟩ (t ++ tail)).map (· + 1) =
          (closingLoop marker ⟨none, false⟩ (t.drop close ++ tail)).map (· + (close + 1)) := by
      obtain ⟨i, hi, rfl⟩ := map_eq_some_iff.mp hrest
      rw [ih hi, map_map]
      rfl
    rw [List.cons_append, closingLoop, List.drop_succ_cons]
    simp only [Quotation.outside, isNone_some, Bool.and_false, Bool.false_and,
      Bool.false_eq_true, if_false]
    unfold stringEnd at h
    cases escaped with
    | true => exact hstep h
    | false =>
      by_cases hescape : (c == '\\') = true
      · simp only [Bool.false_eq_true, if_false, hescape, if_true] at h
        simpa [Quotation.advance, hescape] using hstep h
      · by_cases hclose : (c == quote) = true
        · simp only [Bool.false_eq_true, if_false, hescape, hclose, if_true] at h
          cases h
          simp [Quotation.advance, hescape, hclose]
        · simp only [Bool.false_eq_true, if_false, hescape, hclose] at h
          simpa [Quotation.advance, hescape, hclose] using hstep h

omit hmarker in
theorem stringEnd_lt {t : Text} {escaped : Bool} {close : Nat}
    (h : stringEnd quote escaped t = some close) : close < t.length := by
  induction t generalizing escaped close with
  | nil => cases h
  | cons c t ih =>
    unfold stringEnd at h
    split at h
    · obtain ⟨i, hi, rfl⟩ := map_eq_some_iff.mp h
      exact Nat.succ_lt_succ (ih hi)
    · split at h
      · obtain ⟨i, hi, rfl⟩ := map_eq_some_iff.mp h
        exact Nat.succ_lt_succ (ih hi)
      · split at h
        · cases h
          exact Nat.succ_pos _
        · obtain ⟨i, hi, rfl⟩ := map_eq_some_iff.mp h
          exact Nat.succ_lt_succ (ih hi)

omit hmarker in
theorem quoted {close : Nat} (hquote : quote = '\'' ∨ quote = '"')
    (h : stringEnd quote false rest = some close) :
    Passes marker (quote :: rest) (rest.drop (close + 1)) := by
  have hlt := stringEnd_lt h
  refine ⟨by simp; omega, fun tail => ?_⟩
  have hopen : closingLoop marker ⟨none, false⟩ (quote :: (rest ++ tail)) =
      (closingLoop marker ⟨some quote, false⟩ (rest ++ tail)).map (· + 1) := by
    rcases hquote with rfl | rfl <;> rfl
  have hsum : ∀ i, i + (close + 1) + 1 = i + ((quote :: rest).length -
      (rest.drop (close + 1)).length) := by
    simp only [List.length_cons, List.length_drop]
    omega
  rw [List.cons_append, hopen, closingLoop_quoted h, map_map]
  simp only [Function.comp_def, hsum]

end Passes

/-! ## What the parser consumes -/

section
variable (hmarker : marker.head? = some '<')
include hmarker

theorem trimStart_passes (rest : Text) : Passes marker rest (trimStart rest) := by
  have hspace : ∀ c ∈ rest.takeWhile isWhitespace, Plain c := fun c hc =>
    plain_of_whitespace (List.mem_takeWhile_imp hc)
  have h : Passes marker (rest.takeWhile isWhitespace ++ trimStart rest) (trimStart rest) :=
    .append hmarker hspace
  rwa [trimStart, trimStartMatches, List.takeWhile_append_dropWhile] at h

theorem take_passes {taken : Bool} (hc : Plain c) (h : take c rest = (taken, rest')) :
    Passes marker rest rest' := by
  have htrim := trimStart_passes hmarker rest
  unfold take stripPrefix at h
  dsimp only at h
  by_cases hstarts : [c].isPrefixOf (trimStart rest) = true
  · obtain ⟨after, hafter⟩ := List.isPrefixOf_iff_prefix.mp hstarts
    rw [← hafter] at h htrim
    simp at h
    rw [← h.2]
    exact htrim.trans (.plain hmarker hc)
  · simp [hstarts] at h
    rwa [← h.2]

theorem expect_passes (hc : Plain c) (h : expect c rest = .ok rest') : Passes marker rest rest' := by
  unfold expect at h
  split at h
  · rename_i htake
    cases h
    exact take_passes hmarker hc htake
  · cases h

theorem drop_passes {close : Nat} (h : ∀ c ∈ rest.take close, Plain c) :
    Passes marker rest (rest.drop close) := by
  have hleft : Passes marker (rest.take close ++ rest.drop close) (rest.drop close) :=
    .append hmarker h
  rwa [List.take_append_drop] at hleft

theorem name_passes {key : Text} (h : name rest = .ok (key, rest')) : Passes marker rest rest' := by
  unfold name at h
  obtain ⟨_, hvalid, h⟩ := bind_ok h
  cases h
  refine (trimStart_passes hmarker rest).trans (drop_passes hmarker fun c hc => ?_)
  unfold validateProtocolName at hvalid
  split at hvalid
  · rename_i hname
    exact plain_of_name (List.all_eq_true.mp (Bool.and_eq_true_iff.mp hname).2 c hc)
  · cases hvalid

theorem string_passes {t : Text} (h : string fromStr rest = .ok (t, rest')) :
    Passes marker rest rest' := by
  have htrim := trimStart_passes hmarker rest
  unfold string at h
  split at h
  · cases h
  · rename_i quote after hafter
    rw [hafter] at htrim
    split at h
    · cases h
    · rename_i hquote
      obtain ⟨close, hclose, h⟩ := bind_ok h
      obtain ⟨json, -, h⟩ := bind_ok h
      have hquote : quote = '\'' ∨ quote = '"' := by
        simp only [bne_iff_ne, Bool.and_eq_true, not_and, ne_eq, not_not] at hquote
        tauto
      split at h
      · cases h
        exact htrim.trans (.quoted hquote (okOr_eq_ok hclose))
      · cases h
      · cases h

section
variable (hreads : ReadsNumbers fromStr)
include hreads

omit hmarker in
theorem literal_plain {raw : Text} {v : Value}
    (h : literal fromStr raw = .ok v) : ∀ c ∈ raw, Plain c := by
  unfold literal at h
  have hword : ∀ word : Text, word.all isProtocolNameChar = true → raw = word →
      ∀ c ∈ raw, Plain c := by
    rintro word hplain rfl c hc
    exact plain_of_name (List.all_eq_true.mp hplain c hc)
  split at h
  · rename_i heq
    exact heq.elim (hword _ rfl) (hword _ rfl)
  · split at h
    · rename_i heq
      exact heq.elim (hword _ rfl) (hword _ rfl)
    · split at h
      · rename_i heq
        exact heq.elim (hword _ rfl) (hword _ rfl)
      · split at h
        · rename_i value hvalue
          split at h
          · rename_i hnumber
            intro c hc
            exact (hreads raw value hvalue hnumber c hc).elim plain_of_number plain_of_whitespace
          · cases h
        · cases h

omit hreads in
theorem closed_passes {α : Type} {x a : α} {close : Char} {next : Text → Except Error (α × Text)}
    (hclose : Plain close) (hnext : ∀ r, next r = .ok (a, rest') → Passes marker r rest')
    (h : (match take close rest with
      | (true, r) => pure (x, r)
      | (false, r) => next r) = .ok (a, rest')) : Passes marker rest rest' := by
  split at h
  · rename_i htake
    cases h
    exact take_passes hmarker hclose htake
  · rename_i htake
    exact (take_passes hmarker hclose htake).trans (hnext _ h)

omit hreads in
/-- The end of an element: the list closes, with or without a comma before it, or goes on. -/
theorem separated_passes {α : Type} {x a : α} {close : Char}
    {next : Text → Except Error (α × Text)} (hclose : Plain close)
    (hnext : ∀ r, next r = .ok (a, rest') → Passes marker r rest')
    (h : (match take close rest with
      | (true, r) => pure (x, r)
      | (false, r) => do
        let r ← expect ',' r
        match take close r with
        | (true, r) => pure (x, r)
        | (false, r) => next r) = .ok (a, rest')) : Passes marker rest rest' := by
  refine closed_passes hmarker hclose (fun r hr => ?_) h
  obtain ⟨after, hcomma, hr⟩ := bind_ok hr
  exact (expect_passes hmarker (by decide) hcomma).trans (closed_passes hmarker hclose hnext hr)

theorem value_passes (fuel depth : Nat) :
    (∀ {rest v rest'}, value fromStr fuel depth rest = .ok (v, rest') →
      Passes marker rest rest') ∧
    (∀ {rest values v rest'}, arrayLoop fromStr fuel depth rest values = .ok (v, rest') →
      Passes marker rest rest') ∧
    (∀ {rest values v rest'}, objectLoop fromStr fuel depth rest values = .ok (v, rest') →
      Passes marker rest rest') := by
  induction fuel generalizing depth with
  | zero =>
    refine ⟨?_, ?_, ?_⟩ <;> intros <;> rename_i h <;> cases h <;> exact .refl _
  | succ fuel ih =>
    refine ⟨?_, ?_, ?_⟩
    · intro rest v rest' h
      refine (trimStart_passes hmarker rest).trans ?_
      unfold value at h
      dsimp only at h
      split at h
      · cases h
      · split at h
        · obtain ⟨⟨t, after⟩, hstring, h⟩ := bind_ok h
          cases h
          exact string_passes hmarker hstring
        · split at h
          · rename_i hopen
            refine (take_passes hmarker (by decide) hopen).trans ?_
            exact closed_passes hmarker (by decide) (fun r hr => (ih _).2.1 hr) h
          · rename_i hopen
            refine (take_passes hmarker (by decide) hopen).trans ?_
            split at h
            · rename_i hbrace
              refine (take_passes hmarker (by decide) hbrace).trans ?_
              exact closed_passes hmarker (by decide) (fun r hr => (ih _).2.2 hr) h
            · rename_i hbrace
              refine (take_passes hmarker (by decide) hbrace).trans ?_
              obtain ⟨w, hliteral, h⟩ := bind_ok h
              cases h
              exact drop_passes hmarker (literal_plain hreads hliteral)
    · intro rest values v rest' h
      unfold arrayLoop at h
      obtain ⟨⟨w, after⟩, hfirst, h⟩ := bind_ok h
      refine ((ih _).1 hfirst).trans ?_
      exact separated_passes hmarker (by decide) (fun r hr => (ih _).2.1 hr) h
    · intro rest values v rest' h
      unfold objectLoop at h
      obtain ⟨⟨key, after⟩, hkey, h⟩ := bind_ok h
      obtain ⟨afterColon, hcolon, h⟩ := bind_ok h
      obtain ⟨⟨w, afterValue⟩, hfirst, h⟩ := bind_ok h
      obtain ⟨values', -, h⟩ := bind_ok h
      refine (string_passes hmarker hkey).trans ?_
      refine (expect_passes hmarker (by decide) hcolon).trans (((ih _).1 hfirst).trans ?_)
      exact separated_passes hmarker (by decide) (fun r hr => (ih _).2.2 hr) h

theorem argumentLoop_passes (fuel : Nat) {arguments arguments' : BTreeMap Text Value}
    (h : argumentLoop fromStr fuel rest arguments = .ok (arguments', rest')) :
    Passes marker rest rest' := by
  induction fuel generalizing rest arguments with
  | zero =>
    cases h
    exact .refl _
  | succ fuel ih =>
    unfold argumentLoop at h
    obtain ⟨⟨key, afterKey⟩, hkey, h⟩ := bind_ok h
    obtain ⟨afterEquals, hequals, h⟩ := bind_ok h
    obtain ⟨⟨v, afterValue⟩, hvalue, h⟩ := bind_ok h
    obtain ⟨arguments, -, h⟩ := bind_ok h
    refine (name_passes hmarker hkey).trans ?_
    refine (expect_passes hmarker (by decide) hequals).trans ?_
    refine ((value_passes hmarker hreads _ _).1 hvalue).trans ?_
    exact separated_passes hmarker (by decide) (fun r hr => ih hr) h

theorem callLoop_passes (fuel : Nat) {calls calls' : List ChatFunctionCall}
    (h : callLoop fromStr fuel rest calls = .ok (calls', rest')) : Passes marker rest rest' := by
  induction fuel generalizing rest calls with
  | zero =>
    cases h
    exact .refl _
  | succ fuel ih =>
    unfold callLoop at h
    obtain ⟨⟨function, afterName⟩, hname, h⟩ := bind_ok h
    obtain ⟨afterOpen, hopen, h⟩ := bind_ok h
    refine (name_passes hmarker hname).trans ?_
    refine (expect_passes hmarker (by decide) hopen).trans ?_
    dsimp only at h
    split at h
    · rename_i hclose
      obtain ⟨⟨arguments, last⟩, hnone, h⟩ := bind_ok h
      cases hnone
      refine (take_passes hmarker (by decide) hclose).trans ?_
      exact separated_passes hmarker (by decide) (fun r hr => ih hr) h
    · rename_i hmore
      obtain ⟨⟨arguments, last⟩, harguments, h⟩ := bind_ok h
      refine (take_passes hmarker (by decide) hmore).trans ?_
      refine (argumentLoop_passes hmarker hreads _ harguments).trans ?_
      exact separated_passes hmarker (by decide) (fun r hr => ih hr) h

omit hreads in
theorem trailing_passes (h : trim rest = []) : Passes marker rest [] := by
  have hspace : ∀ c ∈ trimStart rest, isWhitespace c = true := by
    simpa [trim, trimMatches, trimEndMatches, trimStart] using h
  have hleft : Passes marker (trimStart rest ++ []) [] :=
    .append hmarker fun c hc => plain_of_whitespace (hspace c hc)
  rw [List.append_nil] at hleft
  exact (trimStart_passes hmarker rest).trans hleft

theorem parse_passes {body : Text} {calls : List ChatFunctionCall}
    (h : parse fromStr body = .ok calls) : Passes marker body [] := by
  unfold parse at h
  obtain ⟨afterOpen, hopen, h⟩ := bind_ok h
  have hend {last : Text} {calls' : List ChatFunctionCall} {e : Error}
      (hlast : (if (!(trim last).isEmpty || calls'.isEmpty) = true then
        (throw e : Except Error Unit) >>= fun _ => pure calls' else pure calls') = .ok calls) :
      Passes marker last [] := by
    obtain ⟨hgood, -⟩ := guard_ok hlast
    have hempty : (trim last).isEmpty = true := by
      simpa using (Bool.or_eq_false_iff.mp hgood).1
    exact trailing_passes hmarker (List.isEmpty_iff.mp hempty)
  refine (expect_passes hmarker (by decide) hopen).trans ?_
  dsimp only at h
  split at h
  · rename_i hclose
    obtain ⟨⟨calls', last⟩, hnone, h⟩ := bind_ok h
    cases hnone
    exact (take_passes hmarker (by decide) hclose).trans (hend h)
  · rename_i hmore
    obtain ⟨⟨calls', last⟩, hcalls, h⟩ := bind_ok h
    refine (take_passes hmarker (by decide) hmore).trans ?_
    exact (callLoop_passes hmarker hreads _ hcalls).trans (hend h)

end

end

/-- The closing marker behind a body that parses is found at the end of the body, whatever
follows it. -/
theorem closing_marker_found (fromStr : Text → Except Text Value)
    (hreads : ReadsNumbers fromStr) (body text : Text) (calls : List ChatFunctionCall)
    (h : parse fromStr body = .ok calls) :
    closingOffset (body ++ lfmToolCallClose ++ text) lfmToolCallClose = some body.length := by
  have hpasses : Passes lfmToolCallClose body [] := parse_passes rfl hreads h
  have hfound : closingLoop lfmToolCallClose ⟨none, false⟩ (lfmToolCallClose ++ text) = some 0 := by
    rfl
  rw [closingOffset, List.append_assoc, hpasses.scan, List.nil_append, hfound]
  simp

/-! ## A body with a marker inside -/

/-- JSON without escapes and signs: digits, and strings of plain characters. -/
def plainJson (t : Text) : Except Text Value :=
  if t ≠ [] ∧ t.all Char.isDigit then .ok (.number t)
  else match (stripPrefix ['"'] t).bind (stripSuffix ['"']) with
    | some inner =>
      if inner.all fun c => c != '"' && c != '\\' then .ok (.string inner) else .error []
    | none => .error []

theorem plainJson_readsNumbers : ReadsNumbers plainJson := by
  intro raw value h hnumber c hc
  unfold plainJson at h
  split at h
  · rename_i hdigits
    left
    simp [isNumberChar, List.all_eq_true.mp hdigits.2 c hc]
  · split at h
    · split at h
      · cases h
        cases hnumber
      · cases h
    · cases h

/-- `text` of the call is the closing marker itself, `value` has an escaped quote. -/
def markedBody : Text := "[run(text='<|tool_call_end|>', value='it\\'s', count=[2])]"

theorem marked_body_found : ∃ calls, parse plainJson markedBody = .ok calls ∧
    closingOffset (markedBody ++ lfmToolCallClose ++ "tail".toList) lfmToolCallClose =
      some markedBody.length := by
  have hok : (parse plainJson markedBody).isOk = true := by decide +kernel
  cases h : parse plainJson markedBody with
  | error e =>
    rw [h] at hok
    cases hok
  | ok calls =>
    exact ⟨calls, rfl, closing_marker_found plainJson plainJson_readsNumbers _ _ calls h⟩

end Eider.Guarantees.ClosingMarkers
