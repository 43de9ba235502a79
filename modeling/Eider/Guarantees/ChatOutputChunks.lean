import Eider.Source.ChatOutput

/-!
# The output parser does not see how its text was cut

`ChatOutputParser` is pushed whatever pieces the tokenizer happens to decode.
This module proves that the pieces do not matter: pushing any list of chunks and
finishing gives the same events as pushing their concatenation, up to merging
adjacent text and up to call identities, and fails on exactly the same inputs
with the same error.

Reasoning and text are both read by a *scanner*: emit up to the earliest marker
of a family, or else emit all but the longest end that may still become one.
Every marker of the source has the form `<...>`, so two of them never overlap,
and a scan may be interrupted anywhere (`Scanner.drain_feed`). A tool call is
held back whole and its end is recognized by a search that more text cannot
change.
-/
namespace Eider.Guarantees.ChatOutputChunks
open Source Lib.Search Lib.Drain List
open Source.ChatOutputParser

variable {index : Nat} {marker t : Text} {q : ChatOutputParser} {ids : Nat}
variable {events : List ChatOutputEvent}

/-- What one character or one call contributes to the output. -/
inductive Letter where
  | reasoning (c : Char)
  | text (c : Char)
  | call (function : ChatFunctionCall)

def letters : ChatOutputEvent → List Letter
  | .reasoning t => t.map .reasoning
  | .text t => t.map .text
  | .toolCall call => [.call call.function]

/-! ## Scanners -/

/-- A family of bracketed markers, the event for the text before them, and the
state behind a marker. -/
structure Scanner (γ : Type) where
  markers : List (Text × γ)
  makeEvent : Text → ChatOutputEvent
  letter : Char → Letter
  next : ChatOutputParser → Text → γ → ChatOutputParser
  bracketed : ∀ m ∈ markers, Bracketed '<' '>' m.1
  letters_makeEvent : ∀ t, letters (makeEvent t) = t.map letter
  next_feed : ∀ p marker b input, next (p.feed input) marker b = (next p marker b).feed input

namespace Scanner

variable {γ : Type} (S : Scanner γ) {p : ChatOutputParser}
variable {M : Machine ChatOutputParser Error ChatOutputEvent}

/-- The round that a scanner makes. -/
def scan (p : ChatOutputParser) : Round :=
  match earliest S.markers p.pending with
  | some (index, marker, b) =>
    (S.next { p with pending := p.pending.drop (index + marker.length) } marker b,
      pushNonempty S.makeEvent (p.pending.take index), true)
  | none => p.flushSafePrefix (S.markers.map Prod.fst) S.makeEvent

theorem letters_pushNonempty (t : Text) :
    (pushNonempty S.makeEvent t).flatMap letters = t.map S.letter := by
  cases t with
  | nil => rfl
  | cons c t => simp [pushNonempty, S.letters_makeEvent]

theorem scan_of_some {b : γ} (h : earliest S.markers p.pending = some (index, marker, b)) :
    S.scan p =
      (S.next { p with pending := p.pending.drop (index + marker.length) } marker b,
        pushNonempty S.makeEvent (p.pending.take index), true) := by
  rw [scan, h]

theorem scan_of_none (h : earliest S.markers p.pending = none) :
    S.scan p = p.flushSafePrefix (S.markers.map Prod.fst) S.makeEvent := by
  rw [scan, h]

/-- A scan that met a marker makes the same round when more text follows. -/
theorem scan_feed_of_some {b : γ}
    (h : earliest S.markers p.pending = some (index, marker, b)) (input : Text) :
    S.scan (p.feed input) = ((S.scan p).1.feed input, (S.scan p).2) := by
  have hlen := find_lt_length (S.bracketed _ (earliest_eq_some h).1).ne_nil (earliest_eq_some h).2
  have hmore : earliest S.markers (p.feed input).pending = some (index, marker, b) :=
    earliest_append_of_some input S.bracketed h
  rw [S.scan_of_some h, S.scan_of_some hmore, ← S.next_feed]
  simp only [feed] at hlen ⊢
  rw [drop_append_of_le_length (by omega), take_append_of_le_length (by omega)]

theorem markers_ne_nil : ∀ m ∈ S.markers, m.1 ≠ [] :=
  fun m hm => (S.bracketed m hm).ne_nil

theorem no_marker_of_none (h : earliest S.markers t = none) :
    ∀ m ∈ S.markers.map Prod.fst, ∀ i, ¬ m <+: t.drop i := by
  intro m hm i
  obtain ⟨m', hmem, rfl⟩ := mem_map.mp hm
  exact (earliest_eq_none_iff S.markers_ne_nil).mp h m' hmem i

/-- Text that holds no start of a marker is emitted, now or with what follows. -/
theorem drain_clear_front {clear rest : Text} (hne : clear ≠ [])
    (hstep : ∀ t, M.step { p with pending := t } = .ok (S.scan { p with pending := t }))
    (hearliest : earliest S.markers (clear ++ rest) =
      (earliest S.markers rest).map fun r => (clear.length + r.1, r.2))
    (hheld : held (S.markers.map Prod.fst) (clear ++ rest) = held (S.markers.map Prod.fst) rest) :
    Machine.observe letters (M.drain { p with pending := clear ++ rest }) =
      Machine.observe letters (Machine.emit (pushNonempty S.makeEvent clear)
        (M.drain { p with pending := rest })) := by
  have hboth := hstep (clear ++ rest)
  have hrest := hstep rest
  have hpos := length_pos_iff.mpr hne
  cases hnext : earliest S.markers rest with
  | some r =>
    obtain ⟨index, marker, b⟩ := r
    rw [hnext, Option.map_some] at hearliest
    rw [S.scan_of_some (p := { p with pending := clear ++ rest }) hearliest] at hboth
    rw [S.scan_of_some (p := { p with pending := rest }) hnext] at hrest
    simp only [Nat.add_assoc, drop_length_add_append, take_length_add_append] at hboth
    rw [M.drain_eq, hboth, M.drain_eq { p with pending := rest }, hrest]
    simp only [Machine.observe_emit, S.letters_pushNonempty, map_append]
    cases M.drain (S.next { p with pending := rest.drop (index + marker.length) } marker b) with
    | error e => rfl
    | ok r => simp [Machine.observe, Except.map]
  | none =>
    rw [hnext, Option.map_none] at hearliest
    rw [S.scan_of_none (p := { p with pending := clear ++ rest }) hearliest] at hboth
    rw [S.scan_of_none (p := { p with pending := rest }) hnext] at hrest
    have hle := held_le_length (S.markers.map Prod.fst) rest
    simp only [flushSafePrefix, hheld, length_append] at hboth hrest
    rw [if_neg (by omega), Nat.add_sub_assoc hle] at hboth
    simp only [drop_length_add_append, take_length_add_append] at hboth
    rw [M.drain_eq, hboth]
    generalize rest.length - held (S.markers.map Prod.fst) rest = flushed at *
    by_cases hz : flushed = 0
    · -- the rest is held back whole, so only the clear text is emitted
      subst hz
      simp only [drop_zero, take_zero, append_nil]
    · rw [if_neg hz] at hrest
      rw [M.drain_eq { p with pending := rest }, hrest]
      simp only [Machine.observe_emit, S.letters_pushNonempty, map_append]
      cases M.drain { p with pending := rest.drop flushed } with
      | error e => rfl
      | ok r => simp [Machine.observe, Except.map]

/-- A round of a scanner may be made before or after more text arrives. -/
theorem drain_feed
    (hstep : ∀ t, M.step { p with pending := t } = .ok (S.scan { p with pending := t }))
    (input : Text) :
    Machine.observe letters (M.drain (p.feed input)) =
      Machine.observe letters
        (Machine.emit (S.scan p).2.1 (M.drain ((S.scan p).1.feed input))) := by
  have hfeed : M.step (p.feed input) = .ok (S.scan (p.feed input)) := hstep _
  cases hfound : earliest S.markers p.pending with
  | some r =>
    rw [M.drain_eq, hfeed, S.scan_feed_of_some hfound, S.scan_of_some hfound]
  | none =>
    have hflush := S.scan_of_none hfound
    simp only [flushSafePrefix] at hflush
    split at hflush
    · rw [hflush]
      cases M.drain (p.feed input) <;> rfl
    · rw [hflush]
      have hheld := held_append (S.markers.map Prod.fst) p.pending input
      have hclear : ∀ m ∈ S.markers, ∀ j < p.pending.length -
          held (S.markers.map Prod.fst) p.pending, ¬ m.1 <+: (p.pending ++ input).drop j :=
        fun m hm j hj => no_occurrence_before_held input (S.no_marker_of_none hfound)
          (mem_map_of_mem hm) hj
      generalize hk : p.pending.length - held (S.markers.map Prod.fst) p.pending = k at *
      have hlen : (p.pending.take k).length = k := by
        rw [length_take]
        omega
      have hcut : p.pending ++ input = p.pending.take k ++ (p.pending.drop k ++ input) := by
        rw [← append_assoc, take_append_drop]
      rw [hcut] at hheld hclear
      have hearliest := earliest_append_shift S.markers_ne_nil
        (fun m hm j hj => hclear m hm j (hlen ▸ hj))
      simp only [feed]
      rw [hcut]
      refine S.drain_clear_front ?_ hstep hearliest hheld
      exact length_pos_iff.mp (by omega)

end Scanner

/-! ## Reasoning -/

def reasoningScanner : Scanner Bool where
  markers := reasoningMarkers
  makeEvent := .reasoning
  letter := .reasoning
  next p _ opensChannel :=
    if opensChannel then { p with gemmaChannelHeaderPending := true }
    else { p with mode := .text, trimAfterThinking := true }
  bracketed := by
    intro m hm
    refine Bracketed.intro ?_
    revert m
    decide
  letters_makeEvent _ := rfl
  next_feed p _ b input := by
    cases b <;> rfl

variable (p : ChatOutputParser)

theorem parseReasoningBody_eq_scan : p.parseReasoningBody = reasoningScanner.scan p := by
  cases hfound : earliest reasoningMarkers p.pending with
  | some r =>
    obtain ⟨index, marker, opensChannel⟩ := r
    rw [Scanner.scan_of_some _ hfound]
    simp only [parseReasoningBody, hfound, reasoningScanner]
    cases opensChannel <;> rfl
  | none =>
    rw [Scanner.scan_of_none _ hfound]
    simp only [parseReasoningBody, hfound]
    rfl

theorem earliest_channel_open (h : gemmaChannelOpen <+: t) :
    earliest reasoningMarkers t = some (0, gemmaChannelOpen, true) := by
  obtain ⟨tail, rfl⟩ := h
  exact earliest_append_of_some tail reasoningScanner.bracketed
    (show earliest reasoningMarkers gemmaChannelOpen = _ by decide)

theorem scan_unfinished_channel {p : ChatOutputParser} (h : p.pending <+: gemmaChannelOpen)
    (hne : p.pending ≠ gemmaChannelOpen) : reasoningScanner.scan p = (p, [], false) := by
  have hmem : p.pending ∈ gemmaChannelOpen.inits := (mem_inits _ _).mpr h
  have key : ∀ t ∈ gemmaChannelOpen.inits, t ≠ gemmaChannelOpen →
      earliest reasoningMarkers t = none ∧
        t.length - held (reasoningMarkers.map Prod.fst) t = 0 := by decide
  obtain ⟨hnone, hzero⟩ := key _ hmem hne
  rw [Scanner.scan_of_none _ hnone, flushSafePrefix]
  simp only [reasoningScanner, hzero, if_true]

theorem parseReasoning_eq_scan {p : ChatOutputParser} (h : p.gemmaChannelHeaderPending = false) :
    p.parseReasoning = reasoningScanner.scan p := by
  rw [parseReasoning]
  split
  · rename_i hopen
    have hfound := earliest_channel_open (List.isPrefixOf_iff_prefix.mp hopen)
    rw [Scanner.scan_of_some _ hfound]
    simp [reasoningScanner, pushNonempty]
  · rename_i hopen
    split
    · rename_i hpre
      refine (scan_unfinished_channel (List.isPrefixOf_iff_prefix.mp hpre) fun heq => hopen ?_).symm
      rw [heq]
      decide
    · rw [if_neg (by simp [h]), parseReasoningBody_eq_scan]

variable (input : Text)

theorem not_prefix_append (h₁ : ¬ marker <+: t) (h₂ : ¬ t <+: marker) :
    ¬ marker <+: t ++ input ∧ ¬ t ++ input <+: marker := by
  refine ⟨fun h => ?_, fun h => h₂ ((prefix_append _ _).trans h)⟩
  rcases prefix_or_prefix_of_prefix h (prefix_append t input) with h | h
  · exact h₁ h
  · exact h₂ h

theorem parseReasoning_clears_header {p : ChatOutputParser}
    (hheader : p.gemmaChannelHeaderPending = true)
    (hopen : ¬ gemmaChannelOpen <+: p.pending) (hopen' : ¬ p.pending <+: gemmaChannelOpen)
    (hthink : ¬ gemmaThinkChannel <+: p.pending) (hthink' : ¬ p.pending <+: gemmaThinkChannel) :
    (p.feed input).parseReasoning =
      reasoningScanner.scan ({ p with gemmaChannelHeaderPending := false }.feed input) := by
  obtain ⟨h₁, h₂⟩ := not_prefix_append input hopen hopen'
  obtain ⟨h₃, h₄⟩ := not_prefix_append input hthink hthink'
  have hscan := parseReasoning_eq_scan (p := { p with gemmaChannelHeaderPending := false }.feed input)
    rfl
  rw [← hscan]
  simp only [parseReasoning, feed, isPrefixOf_iff_prefix, h₁, h₂, h₃, h₄, hheader, if_false,
    if_true, Bool.false_eq_true]

/-! ## Text -/

/-- The three families of markers that `parse_text` looks for. -/
inductive TextMarker where
  | channel (opensChannel : Bool)
  | protocol (protocol : ToolCallProtocol)
  | direct (tool : Nat)

def allTextMarkers : List (Text × TextMarker) :=
  channelMarkers.map (fun m => (m.1, .channel m.2)) ++
    (protocolMarkers.map (fun m => (m.1, .protocol m.2)) ++
      p.directMarkers.map fun m => (m.1, .direct m.2))

def afterTextMarker (marker : Text) : TextMarker → ChatOutputParser
  | .channel true =>
    { p with mode := .reasoning, gemmaChannelHeaderPending := decide (marker = gemmaChannelOpen) }
  | .channel false => { p with trimAfterThinking := true }
  | .protocol protocol => { p with toolCallProtocol := protocol, mode := .toolCall }
  | .direct tool => { p with activeDirectTool := some tool, mode := .directToolCall }

/-- The names that make every marker of the parser bracketed. -/
def NamesValid : Prop := ∀ tool ∈ p.directTools, isProtocolName tool.name

theorem isProtocolNameChar_ne {c : Char} (h : isProtocolNameChar c) : c ≠ '<' ∧ c ≠ '>' := by
  constructor <;> rintro rfl <;> revert h <;> decide

theorem openTag_bracketed {tool : DirectTool} (h : isProtocolName tool.name) :
    Bracketed '<' '>' tool.openTag := by
  simp only [isProtocolName, Bool.and_eq_true, all_eq_true] at h
  refine ⟨tool.name, rfl, fun hm => ?_, fun hm => (isProtocolNameChar_ne (h.2 _ hm)).2 rfl⟩
  rcases mem_append.mp hm with hm | hm
  · exact (isProtocolNameChar_ne (h.2 _ hm)).1 rfl
  · revert hm
    decide

theorem allTextMarkers_bracketed {p : ChatOutputParser} (h : NamesValid p) :
    ∀ m ∈ allTextMarkers p, Bracketed '<' '>' m.1 := by
  intro m hm
  simp only [allTextMarkers, mem_append, mem_map] at hm
  rcases hm with ⟨m', hm', rfl⟩ | ⟨m', hm', rfl⟩ | ⟨m', hm', rfl⟩
  · refine Bracketed.intro ?_
    revert m'
    decide
  · refine Bracketed.intro ?_
    revert m'
    decide
  · obtain ⟨tool, htool, rfl⟩ := mem_map.mp hm'
    exact openTag_bracketed (h _ (fst_mem_of_mem_zipIdx htool))

def textScanner (h : NamesValid p) : Scanner TextMarker where
  markers := allTextMarkers p
  makeEvent := .text
  letter := .text
  next := afterTextMarker
  bracketed := allTextMarkers_bracketed h
  letters_makeEvent _ := rfl
  next_feed q marker b input := by
    rcases b with (_ | _) | _ | _ <;> rfl

theorem allTextMarkers_perm : ((allTextMarkers p).map Prod.fst).Perm p.textMarkers := by
  have hdirect : p.directMarkers.map Prod.fst = p.directTools.map DirectTool.openTag := by
    rw [directMarkers, map_map]
    conv_rhs => rw [← zipIdx_map_fst 0 p.directTools, map_map]
    rfl
  simp only [allTextMarkers, textMarkers, map_append, map_map, ← append_assoc]
  refine List.Perm.append perm_append_comm ?_
  rw [← hdirect]
  rfl

/-- The priorities of `parse_text` are those of one search for all families. -/
theorem parseTextBody_eq_scan {p : ChatOutputParser} (h : NamesValid p) :
    p.parseTextBody = (textScanner p h).scan p := by
  have hall : earliest (allTextMarkers p) p.pending = _ := earliest_append _ _ _
  rw [earliest_append, earliest_map_label, earliest_map_label, earliest_map_label] at hall
  have hfound : ∀ {r : Nat × Text × TextMarker}, earliest (allTextMarkers p) p.pending = some r →
      (textScanner p h).scan p = _ := fun hr => Scanner.scan_of_some _ hr
  have hflush : earliest (allTextMarkers p) p.pending = none →
      (textScanner p h).scan p = p.flushSafePrefix p.textMarkers .text := by
    intro hr
    rw [Scanner.scan_of_none _ hr, flushSafePrefix, flushSafePrefix,
      ← held_perm (allTextMarkers_perm p)]
    rfl
  -- the branches of `parse_text` by which families occur and which comes first
  rcases hc : earliest channelMarkers p.pending with _ | ⟨ci, cm, opensChannel⟩ <;>
    rcases hp : earliest protocolMarkers p.pending with _ | ⟨pi, pm, protocol⟩ <;>
    rcases hd : earliest p.directMarkers p.pending with _ | ⟨di, dm, tool⟩ <;>
    simp only [hc, hp, hd, Option.map_some, Option.map_none] at hall <;>
    simp only [parseTextBody, hc, hp, hd, notBefore, Option.filter, Option.all]
  · rw [hflush hall]
  · rw [hfound hall]
    rfl
  · rw [hfound hall]
    rfl
  · by_cases h₁ : pi ≤ di <;> simp only [h₁, if_true, if_false] at hall <;> rw [hfound hall] <;>
      simp [h₁, textScanner, afterTextMarker]
  · rw [hfound hall]
    cases opensChannel <;> rfl
  · by_cases h₁ : ci ≤ di <;> simp only [h₁, if_true, if_false] at hall <;> rw [hfound hall] <;>
      cases opensChannel <;> simp [h₁, textScanner, afterTextMarker]
  · by_cases h₁ : ci ≤ pi <;> simp only [h₁, if_true, if_false] at hall <;> rw [hfound hall] <;>
      cases opensChannel <;> simp [h₁, textScanner, afterTextMarker]
  · by_cases h₁ : pi ≤ di
    · by_cases h₂ : ci ≤ pi
      · have h₃ : ci ≤ di := h₂.trans h₁
        simp only [h₁, h₂, if_true] at hall
        rw [hfound hall]
        cases opensChannel <;> simp [h₂, h₃, textScanner, afterTextMarker]
      · simp only [h₁, h₂, if_true, if_false] at hall
        rw [hfound hall]
        simp [h₁, h₂, textScanner, afterTextMarker]
    · by_cases h₂ : ci ≤ di
      · have h₃ : ci ≤ pi := by omega
        simp only [h₁, h₂, if_true, if_false] at hall
        rw [hfound hall]
        cases opensChannel <;> simp [h₂, h₃, textScanner, afterTextMarker]
      · simp only [h₁, h₂, if_false] at hall
        rw [hfound hall]
        simp [h₁, h₂, textScanner, afterTextMarker]

theorem parseText_eq_scan {p : ChatOutputParser} (h : NamesValid p)
    (hthinking : p.trimAfterThinking = false) (hcall : p.trimAfterToolCall = false) :
    p.parseText = (textScanner p h).scan p := by
  rw [parseText, if_neg (by simp [hthinking, hcall]), parseTextBody_eq_scan h]

/-! ## Tool calls -/

theorem closingLoop_append {s : Lfm2.Quotation} {i : Nat} (hne : marker ≠ [])
    (h : Lfm2.closingLoop marker s t = some i) :
    Lfm2.closingLoop marker s (t ++ input) = some i := by
  induction t generalizing s i with
  | nil => cases h
  | cons c rest ih =>
    have hlen := occurs_lt_length hne (closingLoop_occurs h)
    rw [Lfm2.closingLoop] at h
    rw [cons_append, Lfm2.closingLoop]
    have hsame : marker.isPrefixOf (c :: (rest ++ input)) = marker.isPrefixOf (c :: rest) := by
      rw [Bool.eq_iff_iff, isPrefixOf_iff_prefix, isPrefixOf_iff_prefix]
      refine ⟨fun hp => ?_, fun hp => hp.trans (prefix_append (c :: rest) input)⟩
      exact prefix_of_prefix_length_le hp (prefix_append (c :: rest) input) (by omega)
    rw [hsame]
    split at h
    · rename_i hhere
      rw [if_pos hhere, h]
    · rename_i hhere
      obtain ⟨j, hj, rfl⟩ := Option.map_eq_some_iff.mp h
      rw [if_neg hhere, ih hj, Option.map_some]

theorem closeIndex_append {protocol : ToolCallProtocol} {i : Nat}
    (h : closeIndex protocol t = some i) : closeIndex protocol (t ++ input) = some i := by
  rw [closeIndex] at h ⊢
  split at h
  · rename_i hlfm
    rw [if_pos hlfm]
    exact closingLoop_append input (close_ne_nil protocol) h
  · rename_i hother
    rw [if_neg hother]
    exact find_append_of_some input (close_ne_nil protocol) h

section
variable {fromStr : Text → Except Text Value}

/-- A tool call whose end was found, or that failed, is not changed by more text. -/
theorem parseToolCall_feed_of_some {p : ChatOutputParser} (input : Text)
    (h : closeIndex p.toolCallProtocol (p.toolCall ++ p.pending) = some index) :
    (p.feed input).parseToolCall fromStr =
      (p.parseToolCall fromStr).map fun r => (r.1.feed input, r.2) := by
  have hlen := closeIndex_occurs h
  have hmore := closeIndex_append input h
  simp only [parseToolCall, feed, ← append_assoc, h, hmore]
  rw [take_append_of_le_length (by omega), drop_append_of_le_length (by omega)]
  have hfunctions : ∀ body, parseFunctions fromStr { p with pending := p.pending ++ input } body =
      p.parseFunctions fromStr body := fun _ => rfl
  rw [hfunctions]
  cases p.parseFunctions fromStr ((p.toolCall ++ p.pending).take index) with
  | error e => rfl
  | ok functions =>
    simp only [bind, Except.bind]
    cases emitToolCalls functions p.nextToolCallId with
    | error e => rfl
    | ok r => simp [Except.map, pure, Except.pure]

theorem parseDirectToolCall_feed_of_some {p : ChatOutputParser} {definition : DirectTool}
    (input : Text)
    (hdef : (p.activeDirectTool.bind fun tool => p.directTools[tool]?) = some definition)
    (h : find definition.closeTag (p.toolCall ++ p.pending) = some index) :
    (p.feed input).parseDirectToolCall =
      p.parseDirectToolCall.map fun r => (r.1.feed input, r.2) := by
  have hlen := find_lt_length (closeTag_ne_nil definition) h
  have hmore := find_append_of_some input (closeTag_ne_nil definition) h
  simp only [parseDirectToolCall, feed, ← append_assoc, hdef, h, hmore]
  rw [take_append_of_le_length (by omega), drop_append_of_le_length (by omega)]
  generalize emitToolCalls _ p.nextToolCallId = calls
  cases calls with
  | error e => rfl
  | ok r => simp [bind, Except.bind, Except.map, pure, Except.pure]

/-! ## Rounds commute with more text -/

/-- The states that the argument is about: not finished, with tool names that
make bracketed markers. -/
structure Live (p : ChatOutputParser) : Prop where
  names : NamesValid p
  unfinished : p.finished = false

/-- The reasoning round may be made before or after more text. -/
theorem reasoning_commutes {p : ChatOutputParser} (hmode : p.mode = .reasoning) (input : Text) :
    Machine.observe letters ((machine fromStr).drain (p.feed input)) =
      Machine.observe letters (Machine.emit p.parseReasoning.2.1
        ((machine fromStr).drain (p.parseReasoning.1.feed input))) := by
  have hstep : ∀ q : ChatOutputParser, q.mode = .reasoning →
      (machine fromStr).step q = .ok q.parseReasoning := by
    intro q hq
    show q.step fromStr = _
    rw [step, hq]
  -- rounds that change nothing, and rounds that only clear the header
  have hstay : ∀ {q : ChatOutputParser}, q.parseReasoning = (q, [], false) →
      Machine.observe letters ((machine fromStr).drain (q.feed input)) =
        Machine.observe letters (Machine.emit q.parseReasoning.2.1
          ((machine fromStr).drain (q.parseReasoning.1.feed input))) := by
    intro q hq
    rw [hq]
    cases (machine fromStr).drain (q.feed input) <;> rfl
  have hscan : ∀ {q : ChatOutputParser}, q.mode = .reasoning →
      q.gemmaChannelHeaderPending = false →
      Machine.observe letters ((machine fromStr).drain (q.feed input)) =
        Machine.observe letters (Machine.emit (reasoningScanner.scan q).2.1
          ((machine fromStr).drain ((reasoningScanner.scan q).1.feed input))) := by
    intro q hq hheader
    refine Scanner.drain_feed _ (fun t => ?_) input
    rw [hstep { q with pending := t } hq, parseReasoning_eq_scan (p := { q with pending := t }) hheader]
  have hsame : (p.feed input).parseReasoning =
        (p.parseReasoning.1.feed input, p.parseReasoning.2.1, true) →
      Machine.observe letters ((machine fromStr).drain (p.feed input)) =
        Machine.observe letters (Machine.emit p.parseReasoning.2.1
          ((machine fromStr).drain (p.parseReasoning.1.feed input))) := by
    intro h
    rw [Machine.drain_eq, hstep (p.feed input) hmode, h]
  cases hheader : p.gemmaChannelHeaderPending with
  | false =>
    rw [parseReasoning_eq_scan hheader]
    exact hscan hmode hheader
  | true =>
    by_cases hopen : gemmaChannelOpen <+: p.pending
    · refine hsame ?_
      have hmore := hopen.trans (prefix_append p.pending input)
      simp only [parseReasoning, feed, isPrefixOf_iff_prefix, hopen, hmore, if_true]
      rw [drop_append_of_le_length hopen.length_le]
    · by_cases hopen' : p.pending <+: gemmaChannelOpen
      · refine hstay ?_
        simp only [parseReasoning, isPrefixOf_iff_prefix, hopen, hopen', if_true, if_false]
      · obtain ⟨hopen₁, hopen₂⟩ := not_prefix_append input hopen hopen'
        by_cases hthink : gemmaThinkChannel <+: p.pending
        · refine hsame ?_
          have hmore := hthink.trans (prefix_append p.pending input)
          simp only [parseReasoning, feed, isPrefixOf_iff_prefix, hopen, hopen', hopen₁, hopen₂,
            hthink, hmore, hheader, if_true, if_false]
          rw [drop_append_of_le_length hthink.length_le]
        · by_cases hthink' : p.pending <+: gemmaThinkChannel
          · refine hstay ?_
            simp only [parseReasoning, isPrefixOf_iff_prefix, hopen, hopen', hthink, hthink',
              hheader, if_true, if_false]
          · have hclear := parseReasoning_clears_header input hheader hopen hopen' hthink hthink'
            have hnow : p.parseReasoning =
                reasoningScanner.scan { p with gemmaChannelHeaderPending := false } := by
              simp only [parseReasoning, isPrefixOf_iff_prefix, hopen, hopen', hthink, hthink',
                hheader, if_true, if_false, parseReasoningBody_eq_scan]
            rw [hnow, ← hscan (q := { p with gemmaChannelHeaderPending := false }) hmode rfl]
            refine congrArg _ (Machine.drain_congr _ ?_)
            rw [hstep (p.feed input) hmode, hclear, hstep _ (by exact hmode),
              parseReasoning_eq_scan (by rfl)]

theorem trimStartMatches_append {f : Char → Bool} (input : Text) (h : trimStartMatches f t ≠ []) :
    trimStartMatches f (t ++ input) = trimStartMatches f t ++ input := by
  simp only [trimStartMatches, dropWhile_append] at h ⊢
  rw [if_neg (by simpa using h)]

theorem trimStartMatches_append_nil {f : Char → Bool} (input : Text)
    (h : trimStartMatches f t = []) :
    trimStartMatches f (t ++ input) = trimStartMatches f input := by
  simp only [trimStartMatches, dropWhile_append] at h ⊢
  rw [h]
  rfl

/-- The text round may be made before or after more text. -/
theorem text_commutes {p : ChatOutputParser} (hmode : p.mode = .text) (hnames : NamesValid p)
    (input : Text) :
    Machine.observe letters ((machine fromStr).drain (p.feed input)) =
      Machine.observe letters (Machine.emit p.parseText.2.1
        ((machine fromStr).drain (p.parseText.1.feed input))) := by
  have hstep : ∀ q : ChatOutputParser, q.mode = .text →
      (machine fromStr).step q = .ok q.parseText := by
    intro q hq
    show q.step fromStr = _
    rw [step, hq]
  have hscan : ∀ {q : ChatOutputParser}, q.mode = .text → NamesValid q →
      q.trimAfterThinking = false → q.trimAfterToolCall = false →
      Machine.observe letters ((machine fromStr).drain (q.feed input)) =
        Machine.observe letters (Machine.emit q.parseText.2.1
          ((machine fromStr).drain (q.parseText.1.feed input))) := by
    intro q hq hn h₁ h₂
    rw [parseText_eq_scan hn h₁ h₂]
    refine Scanner.drain_feed _ (fun t => ?_) input
    rw [hstep { q with pending := t } hq, parseText_eq_scan (p := { q with pending := t }) hn h₁ h₂]
    rfl
  by_cases htrim : (p.trimAfterThinking || p.trimAfterToolCall) = true
  · by_cases hempty : trimStartMatches isNewline p.pending = []
    · -- only newlines so far, which are dropped in either order
      have hnow : p.parseText = ({ p with pending := [] }, [], false) := by
        simp only [parseText, htrim, hempty, if_true, isEmpty_nil]
      rw [hnow]
      have hsame : (p.feed input).parseText =
          (({ p with pending := [] } : ChatOutputParser).feed input).parseText := by
        simp only [parseText, feed, htrim, if_true, trimStartMatches_append_nil input hempty,
          nil_append]
        rfl
      have hdrain : (machine fromStr).drain (p.feed input) =
          (machine fromStr).drain (({ p with pending := [] } : ChatOutputParser).feed input) := by
        refine Machine.drain_congr _ ?_
        rw [hstep (p.feed input) hmode, hsame, hstep _ (by exact hmode)]
      rw [hdrain]
      cases (machine fromStr).drain (({ p with pending := [] } : ChatOutputParser).feed input) <;>
        rfl
    · -- the newlines are dropped and both flags cleared before the scan
      let q : ChatOutputParser := { p with pending := trimStartMatches isNewline p.pending,
                                           trimAfterThinking := false, trimAfterToolCall := false }
      have hq : q.parseText = q.parseTextBody := by
        simp only [parseText, q, Bool.or_self, Bool.false_eq_true, if_false]
      have hqmore : (q.feed input).parseText = (q.feed input).parseTextBody := by
        simp only [parseText, feed, q, Bool.or_self, Bool.false_eq_true, if_false]
      have hnow : p.parseText = q.parseText := by
        rw [hq]
        simp only [parseText, htrim, if_true, List.isEmpty_iff, hempty, if_false, q]
      have hmore : (p.feed input).parseText = (q.feed input).parseText := by
        rw [hqmore]
        simp only [parseText, feed, htrim, if_true, trimStartMatches_append input hempty,
          List.isEmpty_iff, List.append_eq_nil_iff, hempty, false_and, if_false, q]
      rw [hnow, ← hscan (q := q) hmode hnames rfl rfl]
      refine congrArg _ (Machine.drain_congr _ ?_)
      rw [hstep (p.feed input) hmode, hmore, hstep (q.feed input) hmode]
  · simp only [Bool.or_eq_true, not_or, Bool.not_eq_true] at htrim
    exact hscan hmode hnames htrim.1 htrim.2

theorem absorb_commutes {p : ChatOutputParser} {parse : ChatOutputParser → Except Error Round}
    (input : Text) (hstep : ∀ q : ChatOutputParser, q.mode = p.mode →
      (machine fromStr).step q = parse q)
    (hdepends : parse (p.feed input) =
      parse (({ p with toolCall := p.toolCall ++ p.pending, pending := [] } :
        ChatOutputParser).feed input)) :
    Machine.observe letters ((machine fromStr).drain (p.feed input)) =
      Machine.observe letters (Machine.emit [] ((machine fromStr).drain
        (({ p with toolCall := p.toolCall ++ p.pending, pending := [] } :
          ChatOutputParser).feed input))) := by
  have hdrain : (machine fromStr).drain (p.feed input) = (machine fromStr).drain
      (({ p with toolCall := p.toolCall ++ p.pending, pending := [] } :
        ChatOutputParser).feed input) := by
    refine Machine.drain_congr _ ?_
    rw [hstep (p.feed input) rfl, hdepends, hstep _ (by rfl)]
  rw [hdrain]
  cases (machine fromStr).drain (({ p with toolCall := p.toolCall ++ p.pending, pending := [] } :
    ChatOutputParser).feed input) <;> rfl

variable (p : ChatOutputParser)

theorem parseToolCall_depends (input : Text) : (p.feed input).parseToolCall fromStr =
      (({ p with toolCall := p.toolCall ++ p.pending, pending := [] } :
        ChatOutputParser).feed input).parseToolCall fromStr := by
  simp only [parseToolCall, feed, nil_append, ← append_assoc]
  rfl

theorem parseDirectToolCall_depends (input : Text) : (p.feed input).parseDirectToolCall =
      (({ p with toolCall := p.toolCall ++ p.pending, pending := [] } :
        ChatOutputParser).feed input).parseDirectToolCall := by
  simp only [parseDirectToolCall, feed, nil_append, ← append_assoc]

theorem step_of_reasoning {p : ChatOutputParser} (h : p.mode = .reasoning) :
    p.step fromStr = .ok p.parseReasoning := by
  rw [step, h]

theorem step_of_text {p : ChatOutputParser} (h : p.mode = .text) :
    p.step fromStr = .ok p.parseText := by
  rw [step, h]

theorem step_of_toolCall {p : ChatOutputParser} (h : p.mode = .toolCall) :
    p.step fromStr = p.parseToolCall fromStr := by
  rw [step, h]

theorem step_of_directToolCall {p : ChatOutputParser} (h : p.mode = .directToolCall) :
    p.step fromStr = p.parseDirectToolCall := by
  rw [step, h]

/-- A round of a held-back call: more text changes nothing, or is absorbed. -/
def HeldBack (parse : ChatOutputParser → Except Error Round) (p : ChatOutputParser) : Prop :=
  ((∀ input, parse (p.feed input) = (parse p).map fun r => (r.1.feed input, r.2)) ∧
    ∀ {r : Round}, parse p = .ok r → r.2.2 = true) ∨
  parse p = .ok ({ p with toolCall := p.toolCall ++ p.pending, pending := [] }, [], false)

theorem parseToolCall_heldBack : HeldBack (parseToolCall fromStr) p := by
  cases h : closeIndex p.toolCallProtocol (p.toolCall ++ p.pending) with
  | none =>
    right
    simp only [parseToolCall, h]
  | some index =>
    left
    refine ⟨fun input => parseToolCall_feed_of_some input h, fun {r} hr => ?_⟩
    simp only [parseToolCall, h] at hr
    obtain ⟨functions, -, hr⟩ := bind_ok hr
    obtain ⟨calls, -, hr⟩ := bind_ok hr
    cases hr
    rfl

theorem parseDirectToolCall_heldBack : HeldBack parseDirectToolCall p := by
  cases hdef : p.activeDirectTool.bind fun tool => p.directTools[tool]? with
  | none =>
    right
    simp only [parseDirectToolCall, hdef]
  | some definition =>
    cases h : find definition.closeTag (p.toolCall ++ p.pending) with
    | none =>
      right
      simp only [parseDirectToolCall, hdef, h]
    | some index =>
      left
      refine ⟨fun input => parseDirectToolCall_feed_of_some input hdef h, fun {r} hr => ?_⟩
      simp only [parseDirectToolCall, hdef, h] at hr
      obtain ⟨calls, -, hr⟩ := bind_ok hr
      cases hr
      rfl

section
variable {parse : ChatOutputParser → Except Error Round} {p : ChatOutputParser}

theorem heldBack_error {e : Error} (h : HeldBack parse p) (input : Text)
    (hparse : parse p = .error e) : parse (p.feed input) = .error e := by
  rcases h with ⟨hsame, -⟩ | habsorb
  · rw [hsame, hparse]
    rfl
  · rw [habsorb] at hparse
    cases hparse

theorem heldBack_commutes {out : List ChatOutputEvent} {b : Bool} (h : HeldBack parse p)
    (input : Text)
    (hstep : ∀ q : ChatOutputParser, q.mode = p.mode → (machine fromStr).step q = parse q)
    (hdepends : parse (p.feed input) =
      parse (({ p with toolCall := p.toolCall ++ p.pending, pending := [] } :
        ChatOutputParser).feed input)) (hparse : parse p = .ok (q, out, b)) :
    Machine.observe letters ((machine fromStr).drain (p.feed input)) =
      Machine.observe letters (Machine.emit out ((machine fromStr).drain (q.feed input))) := by
  rcases h with ⟨hsame, hprogress⟩ | habsorb
  · obtain rfl : b = true := hprogress hparse
    have hmore : (machine fromStr).step (p.feed input) = .ok (q.feed input, out, true) := by
      rw [hstep (p.feed input) rfl, hsame, hparse]
      rfl
    rw [Machine.drain_of_progress _ hmore]
  · rw [habsorb] at hparse
    cases hparse
    exact absorb_commutes input hstep hdepends

end

/-- Every round of `push_text` commutes with more text. -/
theorem machine_commutes : (machine fromStr).Commutes feed letters Live where
  feed_inv input h := ⟨h.names, h.unfinished⟩
  step_inv h hstep := by
    have hsame := step_sameTools fromStr hstep
    exact ⟨fun tool htool => h.names tool (hsame.direct ▸ htool),
      hsame.finished.trans h.unfinished⟩
  error {p e} input h hstep := by
    refine Machine.drain_of_error _ ?_
    change p.step fromStr = .error e at hstep
    show (p.feed input).step fromStr = .error e
    cases hmode : p.mode with
    | reasoning =>
      rw [step_of_reasoning hmode] at hstep
      cases hstep
    | text =>
      rw [step_of_text hmode] at hstep
      cases hstep
    | toolCall =>
      rw [step_of_toolCall hmode] at hstep
      rw [step_of_toolCall (p := p.feed input) hmode]
      exact heldBack_error (parseToolCall_heldBack p) input hstep
    | directToolCall =>
      rw [step_of_directToolCall hmode] at hstep
      rw [step_of_directToolCall (p := p.feed input) hmode]
      exact heldBack_error (parseDirectToolCall_heldBack p) input hstep
  ok {p q out b} input h hstep := by
    change p.step fromStr = .ok (q, out, b) at hstep
    cases hmode : p.mode with
    | reasoning =>
      rw [step_of_reasoning hmode] at hstep
      have hcut := @reasoning_commutes fromStr p hmode input
      rw [Except.ok.inj hstep] at hcut
      exact hcut
    | text =>
      rw [step_of_text hmode] at hstep
      have hcut := @text_commutes fromStr p hmode h.names input
      rw [Except.ok.inj hstep] at hcut
      exact hcut
    | toolCall =>
      rw [step_of_toolCall hmode] at hstep
      exact heldBack_commutes (parseToolCall_heldBack p) input
        (fun q hq => step_of_toolCall (hq.trans hmode)) (parseToolCall_depends p input) hstep
    | directToolCall =>
      rw [step_of_directToolCall hmode] at hstep
      exact heldBack_commutes (parseDirectToolCall_heldBack p) input
        (fun q hq => step_of_directToolCall (hq.trans hmode)) (parseDirectToolCall_depends p input)
        hstep

/-! ## No round emits an empty event -/

def Solid (event : ChatOutputEvent) : Prop := letters event ≠ []

theorem reasoning_solid (t : Text) (h : t ≠ []) : Solid (.reasoning t) := by
  simpa [Solid, letters] using h

theorem text_solid (t : Text) (h : t ≠ []) : Solid (.text t) := by
  simpa [Solid, letters] using h

theorem emitToolCalls_solid {functions : List ChatFunctionCall} {ids' : Nat}
    (h : emitToolCalls functions ids = .ok (events, ids')) : ∀ event ∈ events, Solid event := by
  have hcall : ∀ call, Solid (.toolCall call) ↔ (fun _ => True) call.function := by
    intro call
    simp [Solid, letters]
  exact (forall_mem_emitToolCalls hcall h).mpr fun _ _ => trivial

theorem step_solid {p : ChatOutputParser} {out : List ChatOutputEvent} {b : Bool}
    (h : (machine fromStr).step p = .ok (q, out, b)) : ∀ event ∈ out, Solid event := by
  change p.step fromStr = _ at h
  rw [step] at h
  split at h
  · obtain rfl : p.parseReasoning.2.1 = out := by rw [Except.ok.inj h]
    exact forall_mem_parseReasoning reasoning_solid p
  · obtain rfl : p.parseText.2.1 = out := by rw [Except.ok.inj h]
    exact forall_mem_parseText text_solid p
  · obtain ⟨-, ⟨-, rfl⟩ | ⟨index, functions, ids, -, -, hevents⟩⟩ := parseToolCall_ok fromStr h
    · exact forall_mem_nil _
    · exact emitToolCalls_solid hevents
  · obtain ⟨-, rfl | ⟨definition, -, arguments, ids, hevents⟩⟩ := parseDirectToolCall_ok h
    · exact forall_mem_nil _
    · exact emitToolCalls_solid hevents

end

/-! ## Normalized events -/

/-- One round of the loop of the source's `normalized`. -/
def appendNormalized (normalized : List ChatOutputEvent) (event : ChatOutputEvent) :
    List ChatOutputEvent :=
  match normalized.getLast?, event with
  | some (.reasoning previous), .reasoning next =>
    normalized.dropLast ++ [.reasoning (previous ++ next)]
  | some (.text previous), .text next => normalized.dropLast ++ [.text (previous ++ next)]
  | _, .toolCall call => normalized ++ [.toolCall { call with id := 0 }]
  | _, event => normalized ++ [event]

/-- `normalized`: adjacent reasoning and adjacent text are merged, and every
call gets the same identity. -/
def normalized (events : List ChatOutputEvent) : List ChatOutputEvent :=
  events.foldl appendNormalized []

def Letter.event : Letter → ChatOutputEvent
  | .reasoning c => .reasoning [c]
  | .text c => .text [c]
  | .call function => .toolCall ⟨0, function⟩

theorem appendNormalized_text (acc : List ChatOutputEvent) (a b : Text) :
    appendNormalized (appendNormalized acc (.text a)) (.text b) =
      appendNormalized acc (.text (a ++ b)) := by
  rcases eq_nil_or_concat acc with rfl | ⟨front, last, rfl⟩
  · simp [appendNormalized]
  · cases last <;> simp [appendNormalized]

theorem appendNormalized_reasoning (acc : List ChatOutputEvent) (a b : Text) :
    appendNormalized (appendNormalized acc (.reasoning a)) (.reasoning b) =
      appendNormalized acc (.reasoning (a ++ b)) := by
  rcases eq_nil_or_concat acc with rfl | ⟨front, last, rfl⟩
  · simp [appendNormalized]
  · cases last <;> simp [appendNormalized]

theorem foldl_singletons {makeEvent : Text → ChatOutputEvent}
    (hmerge : ∀ acc a b, appendNormalized (appendNormalized acc (makeEvent a)) (makeEvent b) =
      appendNormalized acc (makeEvent (a ++ b))) (hne : t ≠ []) (acc : List ChatOutputEvent) :
    (t.map fun c => makeEvent [c]).foldl appendNormalized acc =
      appendNormalized acc (makeEvent t) := by
  induction t generalizing acc with
  | nil => exact absurd rfl hne
  | cons c rest ih =>
    cases rest with
    | nil => rfl
    | cons d rest =>
      rw [map_cons, foldl_cons, ih (cons_ne_nil _ _), hmerge]
      rfl

/-- Events without empty text normalize as their letters do. -/
theorem normalized_letters (h : ∀ event ∈ events, Solid event) (acc : List ChatOutputEvent) :
    events.foldl appendNormalized acc =
      ((events.flatMap letters).map Letter.event).foldl appendNormalized acc := by
  induction events generalizing acc with
  | nil => rfl
  | cons event rest ih =>
    have hsolid := h event mem_cons_self
    rw [foldl_cons, ih (fun e he => h e (mem_cons_of_mem _ he)), flatMap_cons,
      map_append, foldl_append]
    congr 1
    cases event with
    | reasoning t =>
      have hne : t ≠ [] := fun hnil => hsolid (by rw [hnil]; rfl)
      rw [← foldl_singletons appendNormalized_reasoning hne, letters, map_map]
      rfl
    | text t =>
      have hne : t ≠ [] := fun hnil => hsolid (by rw [hnil]; rfl)
      rw [← foldl_singletons appendNormalized_text hne, letters, map_map]
      rfl
    | toolCall call =>
      rcases eq_nil_or_concat acc with rfl | ⟨front, last, rfl⟩
      · simp [appendNormalized, letters, Letter.event]
      · cases last <;> simp [appendNormalized, letters, Letter.event]

/-! ## Whole streams -/

section
variable (fromStr : Text → Except Text Value)

/-- Pushes one chunk after the other. -/
def pushChunks (p : ChatOutputParser) :
    List Text → Except Error (ChatOutputParser × List ChatOutputEvent)
  | [] => .ok (p, [])
  | chunk :: rest => do
    let (q, events) ← p.pushText fromStr chunk
    let (r, more) ← pushChunks q rest
    return (r, events ++ more)

/-- A parser for `tools` is pushed the chunks and finished. -/
def decode (tools : List ChatTool) (startsInReasoning : Bool) (ids : Nat) (truncated : Bool)
    (chunks : List Text) : Except Error (List ChatOutputEvent) := do
  let p ← ChatOutputParser.new tools startsInReasoning ids
  let (q, events) ← pushChunks fromStr p chunks
  let (_, last) ← q.finishWithTruncation truncated
  return events ++ last

variable {fromStr} {p : ChatOutputParser}

theorem pushChunks_eq_drainAll (h : Live p) (chunks : List Text) :
    pushChunks fromStr p chunks = (machine fromStr).drainAll feed p chunks := by
  induction chunks generalizing p with
  | nil => rfl
  | cons chunk rest ih =>
    rw [pushChunks, Machine.drainAll, pushText, if_neg (by simp [h.unfinished])]
    cases hdrain : (machine fromStr).drain (p.feed chunk) with
    | error e => rfl
    | ok r =>
      obtain ⟨q, events⟩ := r
      have hq : Live q := Machine.drain_inv _ (fun hp hs => machine_commutes.step_inv hp hs)
        (⟨h.names, h.unfinished⟩ : Live (p.feed chunk)) hdrain
      simp only [bind, Except.bind, ih hq]
      cases (machine fromStr).drainAll feed q rest <;> rfl

theorem pushChunks_solid {chunks : List Text}
    (h : pushChunks fromStr p chunks = .ok (q, events)) : ∀ event ∈ events, Solid event := by
  induction chunks generalizing p events with
  | nil =>
    cases h
    exact fun _ hm => by cases hm
  | cons chunk rest ih =>
    obtain ⟨⟨r, first⟩, hpush, h⟩ := bind_ok h
    obtain ⟨⟨t, more⟩, hmore, h⟩ := bind_ok h
    cases h
    rw [pushText] at hpush
    split at hpush
    · cases hpush
    · intro event hevent
      rcases mem_append.mp hevent with hevent | hevent
      · exact Machine.drain_outputs _ (fun hs => step_solid hs) hpush event hevent
      · exact ih hmore event hevent

theorem drain_fresh {tools : List ChatTool} {startsInReasoning : Bool}
    (hlive : Live p) (h : ChatOutputParser.new tools startsInReasoning ids = .ok p) :
    (machine fromStr).drain (p.feed []) = .ok (p, []) := by
  obtain ⟨⟨strings, parameters, direct⟩, -, h⟩ := bind_ok h
  have hfeed : p.feed [] = p := by
    cases h
    rfl
  rw [hfeed]
  refine Machine.drain_of_stop _ ?_
  show p.step fromStr = .ok (p, [], false)
  cases h
  cases startsInReasoning with
  | true => rfl
  | false =>
    rw [step_of_text (by rfl), parseText_eq_scan hlive.names (by rfl) (by rfl),
      Scanner.scan_of_none]
    · simp only [flushSafePrefix, length_nil, Nat.zero_sub, if_true]
    · refine (earliest_eq_none_iff (Scanner.markers_ne_nil _)).mpr fun m hm i hp => ?_
      exact Scanner.markers_ne_nil _ m hm (prefix_nil.mp (by simpa using hp))

theorem new_live {tools : List ChatTool} {startsInReasoning : Bool}
    (names : ∀ tool ∈ tools, isProtocolName tool.name)
    (h : ChatOutputParser.new tools startsInReasoning ids = .ok p) : Live p := by
  have hcollect : ∀ (tools : List ChatTool) strings parameters direct r,
      (∀ tool ∈ tools, isProtocolName tool.name) →
      (∀ tool ∈ direct, isProtocolName tool.name) →
      collectTools tools strings parameters direct = .ok r →
      ∀ tool ∈ r.2.2, isProtocolName tool.name := by
    intro tools
    induction tools with
    | nil =>
      intro strings parameters direct r _ hdirect h
      cases h
      exact hdirect
    | cons tool rest ih =>
      intro strings parameters direct r htools hdirect h
      rw [collectTools] at h
      split at h
      · cases h
      · refine ih _ _ _ r (fun t ht => htools t (mem_cons_of_mem _ ht)) ?_ h
        intro t ht
        rcases mem_append.mp ht with ht | ht
        · exact hdirect t ht
        · rw [directTool_name (Option.mem_toList.mp ht)]
          exact htools tool mem_cons_self
  obtain ⟨⟨strings, parameters, direct⟩, hr, h⟩ := bind_ok h
  cases h
  exact ⟨hcollect tools _ _ _ _ names (fun _ hm => by cases hm) hr, rfl⟩

/-- **Chunks do not matter.** For tools with names over `[A-Za-z0-9_.-]+`, any
chunks of a text are decoded like the whole text: with the same normalized
events, or with the same error, whether the stream is finished or truncated. -/
theorem decode_chunks_eq_decode_whole (fromStr : Text → Except Text Value) (tools : List ChatTool)
    (names : ∀ tool ∈ tools, isProtocolName tool.name) (startsInReasoning : Bool) (ids : Nat)
    (truncated : Bool) (chunks : List Text) :
    (decode fromStr tools startsInReasoning ids truncated chunks).map normalized =
      (decode fromStr tools startsInReasoning ids truncated [chunks.flatten]).map normalized := by
  simp only [decode]
  cases hnew : ChatOutputParser.new tools startsInReasoning ids with
  | error e => rfl
  | ok p =>
    have hlive := new_live names hnew
    have hcut : Machine.observe letters (pushChunks fromStr p chunks) =
        Machine.observe letters (pushChunks fromStr p [chunks.flatten]) := by
      rw [pushChunks_eq_drainAll hlive, pushChunks_eq_drainAll hlive]
      cases chunks with
      | nil =>
        simp only [Machine.drainAll, flatten_nil, drain_fresh hlive hnew]
        rfl
      | cons first rest =>
        have feed_append : ∀ (q : ChatOutputParser) (a b : Text),
            (q.feed a).feed b = q.feed (a ++ b) := by
          intro q a b
          simp only [feed, append_assoc]
        rw [machine_commutes.drainAll_eq feed_append hlive,
          machine_commutes.drainAll_eq feed_append hlive]
        simp
    simp only [bind, Except.bind]
    cases hleft : pushChunks fromStr p chunks with
    | error e =>
      rw [hleft] at hcut
      cases hright : pushChunks fromStr p [chunks.flatten] with
      | error e' =>
        rw [hright] at hcut
        cases hcut
        rfl
      | ok r =>
        rw [hright] at hcut
        cases hcut
    | ok r =>
      obtain ⟨q, events⟩ := r
      rw [hleft] at hcut
      cases hright : pushChunks fromStr p [chunks.flatten] with
      | error e' =>
        rw [hright] at hcut
        cases hcut
      | ok r' =>
        obtain ⟨q', events'⟩ := r'
        rw [hright] at hcut
        simp only [Machine.observe, Except.map, Except.ok.injEq, Prod.mk.injEq] at hcut
        obtain ⟨rfl, hletters⟩ := hcut
        simp only
        cases hfinish : q.finishWithTruncation truncated with
        | error e => rfl
        | ok last =>
          obtain ⟨_, last⟩ := last
          have hsolid : ∀ first, (∀ event ∈ first, Solid event) →
              ∀ event ∈ first ++ last, Solid event := by
            intro first hfirst event hevent
            rcases mem_append.mp hevent with hevent | hevent
            · exact hfirst event hevent
            · exact forall_mem_finish reasoning_solid text_solid hfinish event hevent
          simp only [Except.map, pure, Except.pure, normalized]
          rw [normalized_letters (hsolid events (pushChunks_solid hleft)),
            normalized_letters (hsolid events' (pushChunks_solid hright)), flatMap_append,
            flatMap_append, hletters]

/-- A Poolside call that arrives in three pieces, cut inside both of its tags. -/
theorem decode_chunks_eq_decode_whole_run_tool :
    (decode (fun _ => .error []) [⟨"run", .null⟩] false 1 false
        ["a<to".toList, "ol_call>run</tool".toList, "_call>b".toList]).map normalized =
      (decode (fun _ => .error []) [⟨"run", .null⟩] false 1 false
        ["a<tool_call>run</tool_call>b".toList]).map normalized :=
  decode_chunks_eq_decode_whole (fun _ => .error []) [⟨"run", .null⟩] (by decide) false 1 false
    ["a<to".toList, "ol_call>run</tool".toList, "_call>b".toList]

end

end Eider.Guarantees.ChatOutputChunks
