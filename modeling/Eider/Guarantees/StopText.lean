import Eider.Lib.Run
import Eider.Guarantees.ServingTick

/-!
What a client reads of a response: the text deltas of a request end just before
the first stop sequence or tool call, and its finished record carries that
reason, however its tokens are grouped into ticks.

A tick serves all tokens of a request before it looks at the reason they gave.
When a token behind the one that ended the response comes in the same tick, its
text still goes out and its reason replaces the first. The guard of the runs
below excludes such ticks.
-/
namespace Eider.Guarantees.StopText
open Lib Source CallIds ServingTick List BTreeMap

variable {emitted t : Text} {b' : StopBuffer} {text : Text} {events : List ChatOutputEvent}
variable {reason : Option ChatFinishReason} {f : ResponseFilter} {token : ScheduledToken}
variable {ids : Nat} {xs ys tokens : List ScheduledToken} {filter : ResponseFilter}
variable {r : EngineRequestId} {cause final : ChatFinishReason} {tail : List ChatOutputEvent}

/-! ## The stop buffer -/

/-- No sequence occurs in the text. -/
def Absent (sequences : List Text) (t : Text) : Prop := ∀ s ∈ sequences, ∀ i, ¬ s <+: t.drop i

/-- No match begins in `emitted`, what the buffer has passed on, however the
text goes on. -/
structure Settled (b : StopBuffer) (emitted : Text) : Prop where
  absent : ∀ s ∈ b.sequences, ∀ i < emitted.length, ¬ s <+: (emitted ++ b.pending).drop i
  open_end : ∀ s ∈ b.sequences, ∀ i < emitted.length, ¬ (emitted ++ b.pending).drop i <+: s

/-- The buffer has passed on `emitted` and holds the rest of what it was pushed,
without a match so far. -/
structure Streaming (b : StopBuffer) (emitted : Text) : Prop extends Settled b emitted where
  none : Absent b.sequences (emitted ++ b.pending)

theorem streaming_new {sequences : List Text} (hne : ∀ s ∈ sequences, s ≠ []) :
    Streaming (StopBuffer.new sequences) [] := by
  refine ⟨⟨?_, ?_⟩, ?_⟩
  · intro s _ i hi
    exact absurd hi (Nat.not_lt_zero i)
  · intro s _ i hi
    exact absurd hi (Nat.not_lt_zero i)
  · intro s hs i hoccurs
    have hnil : s = [] := by simpa [StopBuffer.new] using hoccurs
    exact hne s hs hnil

variable {b : StopBuffer}

/-- A longer pending text does not change what is settled. -/
theorem Settled.feed (h : Settled b emitted) (chunk : Text) : Settled (b.feed chunk) emitted := by
  have hdrop : ∀ i < emitted.length, (emitted ++ (b.feed chunk).pending).drop i =
      (emitted ++ b.pending).drop i ++ chunk := by
    intro i hi
    simp only [StopBuffer.feed]
    rw [← append_assoc, drop_append_of_le_length (by simp; omega)]
  constructor
  · intro s hs i hi hoccurs
    rw [hdrop i hi] at hoccurs
    obtain hshort | hlong := prefix_or_prefix_of_prefix hoccurs (prefix_append _ chunk)
    · exact h.absent s hs i hi hshort
    · exact h.open_end s hs i hi hlong
  · intro s hs i hi hprefix
    rw [hdrop i hi] at hprefix
    exact h.open_end s hs i hi ((prefix_append _ chunk).trans hprefix)

theorem drop_emitted {i : Nat} (h : emitted.length ≤ i) :
    (emitted ++ t).drop i = t.drop (i - emitted.length) := by
  rw [drop_append, drop_of_length_le h, nil_append]

section
variable (hne : ∀ s ∈ b.sequences, s ≠ []) (t : Text)
include hne

theorem release_unmatched (h : Settled b emitted) (hrelease : b.release = (b', ⟨text, none⟩)) :
    Streaming b' (emitted ++ text) ∧ b'.sequences = b.sequences ∧
      (emitted ++ text) ++ b'.pending = emitted ++ b.pending := by
  unfold StopBuffer.release at hrelease
  split at hrelease
  · simp at hrelease
  · rename_i hnone
    obtain ⟨rfl, rfl⟩ := hrelease
    have hpending := StopBuffer.earliestMatch_eq_none hne hnone
    have hwhole : (emitted ++ b.pending.take (b.pending.length - b.holdback)) ++
        b.pending.drop (b.pending.length - b.holdback) = emitted ++ b.pending := by
      rw [append_assoc, take_append_drop]
    have hnone : Absent b.sequences (emitted ++ b.pending) := by
      intro s hs i hoccurs
      by_cases hi : i < emitted.length
      · exact h.absent s hs i hi hoccurs
      · rw [drop_emitted (by omega)] at hoccurs
        exact hpending s hs _ hoccurs
    refine ⟨⟨⟨?_, ?_⟩, ?_⟩, rfl, hwhole⟩
    · intro s hs i _ hoccurs
      rw [hwhole] at hoccurs
      exact hnone s hs i hoccurs
    · intro s hs i hi hprefix
      rw [hwhole] at hprefix
      rw [length_append, length_take] at hi
      by_cases hlt : i < emitted.length
      · exact h.open_end s hs i hlt hprefix
      · rw [drop_emitted (by omega)] at hprefix
        have hkept : b.pending.length - (i - emitted.length) ≤ b.holdback :=
          StopBuffer.le_holdback (by omega) hs hprefix
        omega
    · rw [hwhole]
      exact hnone

theorem release_matched {sequence : Text} (h : Settled b emitted)
    (hrelease : b.release = (b', ⟨text, some sequence⟩)) :
    sequence ∈ b.sequences ∧ (emitted ++ text) ++ sequence <+: emitted ++ b.pending ∧
      ∀ s ∈ b.sequences, ∀ i < (emitted ++ text).length, ¬ s <+: (emitted ++ b.pending).drop i := by
  unfold StopBuffer.release at hrelease
  split at hrelease
  · rename_i index found hsome
    simp only [Prod.mk.injEq, StopOutput.mk.injEq, Option.some.injEq] at hrelease
    obtain ⟨rfl, rfl, rfl⟩ := hrelease
    obtain ⟨hmem, hoccurs, hfirst⟩ := StopBuffer.earliestMatch_eq_some hne hsome
    have hindex := Search.occurs_lt_length (hne found hmem) hoccurs
    refine ⟨hmem, ?_, ?_⟩
    · rw [append_assoc]
      refine (prefix_append_right_inj emitted).mpr ?_
      obtain ⟨rest, hrest⟩ := hoccurs
      exact ⟨rest, by rw [append_assoc, hrest, take_append_drop]⟩
    · intro s hs i hi hbefore
      rw [length_append, length_take, Nat.min_eq_left (by omega)] at hi
      by_cases hlt : i < emitted.length
      · exact h.absent s hs i hlt hbefore
      · rw [drop_emitted (by omega)] at hbefore
        exact hfirst s hs _ (by omega) hbefore
  · simp at hrelease

theorem push_unmatched {chunk : Text} (h : Streaming b emitted)
    (hpush : b.push chunk = (b', ⟨text, none⟩)) :
    Streaming b' (emitted ++ text) ∧ b'.sequences = b.sequences ∧
      (emitted ++ text) ++ b'.pending = (emitted ++ b.pending) ++ chunk := by
  have hfed := release_unmatched (b := b.feed chunk) hne (h.toSettled.feed chunk) hpush
  simpa [StopBuffer.feed] using hfed

theorem push_matched {chunk sequence : Text}
    (h : Streaming b emitted) (hpush : b.push chunk = (b', ⟨text, some sequence⟩)) :
    sequence ∈ b.sequences ∧
      (emitted ++ text) ++ sequence <+: (emitted ++ b.pending) ++ chunk ∧
      ∀ s ∈ b.sequences, ∀ i < (emitted ++ text).length,
        ¬ s <+: ((emitted ++ b.pending) ++ chunk).drop i := by
  have hfed := release_matched (b := b.feed chunk) hne (h.toSettled.feed chunk) hpush
  have hpending : emitted ++ (b.feed chunk).pending = (emitted ++ b.pending) ++ chunk :=
    (append_assoc ..).symm
  rwa [hpending] at hfed

end

theorem push_sequences (b : StopBuffer) (chunk : Text) :
    (b.push chunk).1.sequences = b.sequences := by
  unfold StopBuffer.push StopBuffer.release
  split <;> rfl

/-! ## The filter -/

/-- Text of the text events. -/
def textOf (events : List ChatOutputEvent) : Text :=
  events.flatMap fun
    | .text t => t
    | _ => []

@[simp] theorem textOf_nil : textOf [] = [] := rfl

@[simp] theorem textOf_cons_text (events : List ChatOutputEvent) :
    textOf (.text t :: events) = t ++ textOf events := rfl

@[simp] theorem textOf_cons_reasoning (events : List ChatOutputEvent) :
    textOf (.reasoning t :: events) = textOf events := rfl

@[simp] theorem textOf_cons_toolCall (call : ChatToolCall) (events : List ChatOutputEvent) :
    textOf (.toolCall call :: events) = textOf events := rfl

@[simp] theorem textOf_append (xs ys : List ChatOutputEvent) :
    textOf (xs ++ ys) = textOf xs ++ textOf ys := by
  simp [textOf]

@[simp] theorem textOf_textEvent : textOf (ResponseFilter.textEvent t) = t := by
  unfold ResponseFilter.textEvent
  split
  · rename_i hempty
    rw [isEmpty_iff.mp hempty]
    rfl
  · simp [textOf]

/-- The events that are not text. -/
def others (events : List ChatOutputEvent) : List ChatOutputEvent :=
  events.filter fun
    | .text _ => false
    | _ => true

@[simp] theorem others_nil : others [] = [] := rfl

@[simp] theorem others_cons_text (events : List ChatOutputEvent) :
    others (.text t :: events) = others events := rfl

@[simp] theorem others_append (xs ys : List ChatOutputEvent) :
    others (xs ++ ys) = others xs ++ others ys := by
  simp [others]

@[simp] theorem others_textEvent : others (ResponseFilter.textEvent t) = [] := by
  unfold ResponseFilter.textEvent
  split <;> rfl

/-- No event is a tool call. -/
def NoCalls (events : List ChatOutputEvent) : Prop := ∀ call, ChatOutputEvent.toolCall call ∉ events

theorem NoCalls.cons {event : ChatOutputEvent}
    (hevent : ∀ call, ChatOutputEvent.toolCall call ≠ event) (h : NoCalls events) :
    NoCalls (event :: events) := fun call hmem =>
  (mem_cons.mp hmem).elim (hevent call) (h call)

/-- Where the decoded events end the response: the text before that point, and
the other events before it. `seen` is the text decoded before `events`. -/
inductive Cut (sequences : List Text) (seen : Text) (events : List ChatOutputEvent) (text : Text)
    (kept : List ChatOutputEvent) : Option ChatFinishReason → Prop where
  /-- Nothing ends it, and no stop sequence occurs. -/
  | none (calls : NoCalls events) (absent : Absent sequences (seen ++ textOf events))
      (rest : kept = others events) : Cut sequences seen events text kept none
  /-- With the text event `t` the sequence `s` occurs: none occurred before that
  event, none begins before `s`, and the text ends where `s` begins. -/
  | stop {xs ys : List ChatOutputEvent} {t s : Text} (split : events = xs ++ .text t :: ys)
      (calls : NoCalls xs) (absent : Absent sequences (seen ++ textOf xs)) (mem : s ∈ sequences)
      (found : text ++ s <+: (seen ++ textOf xs) ++ t)
      (first : ∀ s' ∈ sequences, ∀ i < text.length, ¬ s' <+: ((seen ++ textOf xs) ++ t).drop i)
      (rest : kept = others xs) : Cut sequences seen events text kept (some (.stop s))
  /-- A tool call ends it: the text is what was decoded before the call, and the
  call is the last event. -/
  | toolCalls {xs ys : List ChatOutputEvent} {call : ChatToolCall}
      (split : events = xs ++ .toolCall call :: ys) (calls : NoCalls xs)
      (absent : Absent sequences (seen ++ textOf xs)) (whole : text = seen ++ textOf xs)
      (rest : kept = others xs ++ [.toolCall call]) :
      Cut sequences seen events text kept (some .toolCalls)

variable {sequences : List Text} {kept : List ChatOutputEvent}

theorem Cut.cons {seen : Text} (event : ChatOutputEvent)
    (hevent : ∀ call, ChatOutputEvent.toolCall call ≠ event)
    (ht : textOf [event] = t) (h : Cut sequences (seen ++ t) events text kept reason) :
    Cut sequences seen (event :: events) text (others [event] ++ kept) reason := by
  have htext : ∀ xs, seen ++ textOf (event :: xs) = (seen ++ t) ++ textOf xs := fun xs => by
    rw [← singleton_append, textOf_append, ht, append_assoc]
  have hothers : ∀ xs, others (event :: xs) = others [event] ++ others xs := fun xs => by
    rw [← singleton_append, others_append]
  cases h with
  | none calls absent rest =>
    refine .none (calls.cons hevent) (htext _ ▸ absent) ?_
    rw [rest, ← hothers]
  | stop split calls absent mem found first rest =>
    refine .stop (by rw [split, cons_append]) (calls.cons hevent) ?_ mem ?_ ?_ ?_
    · rw [htext]
      exact absent
    · rw [htext]
      exact found
    · rw [htext]
      exact first
    · rw [rest, ← hothers]
  | toolCalls split calls absent whole rest =>
    refine .toolCalls (by rw [split, cons_append]) (calls.cons hevent) ?_ ?_ ?_
    · rw [htext]
      exact absent
    · rw [htext]
      exact whole
    · rw [rest, ← append_assoc, ← hothers]

/-- The filter behind events: what it passed on in all, and whether it goes on. -/
structure Filtered (f f' : ResponseFilter) (emitted : Text) (events out : List ChatOutputEvent)
    (reason : Option ChatFinishReason) : Prop where
  cut : Cut f.stop.sequences (emitted ++ f.stop.pending) events (emitted ++ textOf out)
    (others out) reason
  sequences : f'.stop.sequences = f.stop.sequences
  goesOn : reason = none → f'.sawToolCalls = false ∧ Streaming f'.stop (emitted ++ textOf out) ∧
    (emitted ++ textOf out) ++ f'.stop.pending = (emitted ++ f.stop.pending) ++ textOf events
  called : reason = some .toolCalls → f'.sawToolCalls = true

theorem apply_filtered (events : List ChatOutputEvent) (hne : ∀ s ∈ f.stop.sequences, s ≠ [])
    (hcalls : f.sawToolCalls = false) (h : Streaming f.stop emitted) :
    Filtered f (f.apply events).1 emitted events (f.apply events).2.1 (f.apply events).2.2 := by
  induction events generalizing f emitted with
  | nil =>
    refine ⟨.none (by simp [NoCalls]) ?_ rfl, rfl, fun _ => ⟨hcalls, ?_, ?_⟩, fun hreason => ?_⟩
    · simpa using h.none
    · simpa [ResponseFilter.apply] using h
    · simp [ResponseFilter.apply]
    · cases hreason
  | cons event events ih =>
    cases event with
    | reasoning t =>
      have hrest := ih hne hcalls h
      simp only [ResponseFilter.apply, hcalls, Bool.false_eq_true, if_false]
      refine ⟨?_, hrest.sequences, hrest.goesOn, hrest.called⟩
      have hcut : Cut f.stop.sequences ((emitted ++ f.stop.pending) ++ []) events
          (emitted ++ textOf (f.apply events).2.1) (others (f.apply events).2.1)
          (f.apply events).2.2 := by
        rw [append_nil]
        exact hrest.cut
      exact hcut.cons (.reasoning t) (by simp) rfl
    | text t =>
      simp only [ResponseFilter.apply, hcalls, Bool.false_eq_true, if_false]
      cases hpush : f.stop.push t with
      | mk b output =>
        obtain ⟨text, matched⟩ := output
        have hsequences : b.sequences = f.stop.sequences := by
          have hkept := push_sequences f.stop t
          rwa [hpush] at hkept
        cases matched with
        | some s =>
          obtain ⟨hmem, hfound, hfirst⟩ := push_matched hne h hpush
          refine ⟨.stop (nil_append _).symm (by simp [NoCalls]) ?_ hmem ?_ ?_ ?_, hsequences,
            by simp, by simp⟩
          · simpa using h.none
          · simpa using hfound
          · simpa using hfirst
          · simp
        | none =>
          obtain ⟨hstreaming, -, hwhole⟩ := push_unmatched hne h hpush
          have hne' : ∀ s ∈ b.sequences, s ≠ [] := by rwa [hsequences]
          have hrest := ih (f := ⟨b, false⟩) hne' rfl hstreaming
          refine ⟨?_, hrest.sequences.trans hsequences, ?_, hrest.called⟩
          · have hcut := hrest.cut
            simp only [hwhole, hsequences] at hcut
            have hfront := hcut.cons (.text t) (by simp) (append_nil t)
            simpa using hfront
          · intro hreason
            obtain ⟨hcalls', hstreaming', hwhole'⟩ := hrest.goesOn hreason
            simp only [hwhole] at hwhole'
            refine ⟨hcalls', ?_, ?_⟩
            · simpa using hstreaming'
            · simpa using hwhole'
    | toolCall call =>
      refine ⟨.toolCalls (nil_append _).symm (by simp [NoCalls]) ?_ ?_ ?_, rfl, by
        simp [ResponseFilter.apply], fun _ => rfl⟩
      · simpa using h.none
      · simp [ResponseFilter.apply, ResponseFilter.flush, StopBuffer.finish]
      · simp [ResponseFilter.apply, ResponseFilter.flush]
        rfl

/-! ## From tokens to decoded events -/

theorem apply_append_of_none {xs : List ChatOutputEvent} (h : (f.apply xs).2.2 = none)
    (ys : List ChatOutputEvent) :
    f.apply (xs ++ ys) = (((f.apply xs).1.apply ys).1,
      (f.apply xs).2.1 ++ ((f.apply xs).1.apply ys).2.1, ((f.apply xs).1.apply ys).2.2) := by
  induction xs generalizing f with
  | nil => simp [ResponseFilter.apply]
  | cons event xs ih =>
    cases event with
    | reasoning t =>
      simp only [cons_append, ResponseFilter.apply] at h ⊢
      rw [ih h]
      by_cases hcalls : f.sawToolCalls = true <;> simp [hcalls]
    | text t =>
      simp only [cons_append, ResponseFilter.apply] at h ⊢
      by_cases hcalls : f.sawToolCalls = true
      · simp only [hcalls, if_true] at h ⊢
        exact ih h
      · simp only [hcalls, Bool.false_eq_true, if_false] at h ⊢
        cases hmatched : (f.stop.push t).2.matched with
        | some sequence => simp [hmatched] at h
        | none =>
          simp only [hmatched] at h ⊢
          rw [ih h, append_assoc]
    | toolCall call => simp [ResponseFilter.apply] at h

/-- After a tool call the filter passes nothing on but another call. -/
theorem apply_after_call (hcalls : f.sawToolCalls = true) (h : NoCalls events) :
    f.apply events = (f, [], none) := by
  induction events with
  | nil => rfl
  | cons event events ih =>
    have hrest : NoCalls events := fun call hmem => h call (mem_cons_of_mem _ hmem)
    cases event with
    | reasoning t => simp [ResponseFilter.apply, hcalls, ih hrest]
    | text t => simp [ResponseFilter.apply, hcalls, ih hrest]
    | toolCall call => exact absurd mem_cons_self (h call)

variable {δ κ : Type}
variable (fromStr : Text → Except Text Value) (tokenizer : Tokenizer δ)

/-- `Decoded codec tokens codec' events`: decoding the tokens in turn, each with
whatever value the counter of call identities has by then. -/
inductive Decoded : ChatOutputCodec δ → List ScheduledToken → ChatOutputCodec δ →
    List ChatOutputEvent → Prop where
  | nil (codec : ChatOutputCodec δ) : Decoded codec [] codec []
  | cons {codec next last : ChatOutputCodec δ} {token : ScheduledToken}
      {tokens : List ScheduledToken} {events rest : List ChatOutputEvent} (ids : Nat)
      (first : (codecWithIds codec ids).pushToken fromStr tokenizer token.id = .ok (next, events))
      (others : Decoded next tokens last rest) :
      Decoded codec (token :: tokens) last (events ++ rest)

variable {fromStr tokenizer}

variable {a : ActiveChatRequest δ} {b : ActiveChatRequest δ}

theorem serve_eq_ok (h : (a.withIds ids).serve fromStr tokenizer token = .ok (b, events, reason)) :
    ∃ raw, (codecWithIds a.output ids).pushToken fromStr tokenizer token.id = .ok (b.output, raw) ∧
      b.filter = (a.filter.apply raw).1 ∧ events = (a.filter.apply raw).2.1 ∧
      reason = ((a.filter.apply raw).2.2 <|> token.finishReason.map mapSchedulerFinish) := by
  obtain ⟨⟨output, raw⟩, hpush, h⟩ := bind_ok h
  obtain ⟨rfl, rfl, rfl⟩ := h
  exact ⟨raw, hpush, rfl, rfl, rfl⟩

/-! ## Decoding -/

variable {codec last : ChatOutputCodec δ}

theorem Decoded.append {middle : ChatOutputCodec δ} {rest : List ChatOutputEvent}
    (h : Decoded fromStr tokenizer codec xs middle events)
    (h' : Decoded fromStr tokenizer middle ys last rest) :
    Decoded fromStr tokenizer codec (xs ++ ys) last (events ++ rest) := by
  induction h with
  | nil codec => exact h'
  | cons ids first others ih =>
    rw [append_assoc]
    exact .cons ids first (ih h')

theorem Decoded.single {next : ChatOutputCodec δ} (ids : Nat)
    (h : (codecWithIds codec ids).pushToken fromStr tokenizer token.id = .ok (next, events)) :
    Decoded fromStr tokenizer codec [token] next events := by
  rw [← append_nil events]
  exact .cons ids h (.nil next)

theorem Decoded.unique {c d : ChatOutputCodec δ} {n : Nat} {events' : List ChatOutputEvent}
    (h : Decoded fromStr tokenizer codec tokens c events)
    (h' : Decoded fromStr tokenizer (codecWithIds codec n) tokens d events') :
    (∃ ids, d = codecWithIds c ids) ∧ SameEvents events events' := by
  induction h generalizing n events' with
  | nil codec =>
    cases h'
    exact ⟨⟨n, rfl⟩, rfl⟩
  | @cons codec next last token tokens events rest ids first others ih =>
    cases h' with
    | @cons _ next' _ _ _ events' rest' ids' first' others' =>
      obtain ⟨⟨k, hnext⟩, hevents⟩ :=
        (pushToken_same fromStr tokenizer (codecWithIds codec ids) ids' token.id).of_ok first first'
      subst hnext
      obtain ⟨hlast, hrest⟩ := ih others'
      exact ⟨hlast, hevents.append hrest⟩

theorem new_filtered (hne : ∀ s ∈ sequences, s ≠ []) (events : List ChatOutputEvent) :
    Filtered (ResponseFilter.new sequences) ((ResponseFilter.new sequences).apply events).1 []
      events ((ResponseFilter.new sequences).apply events).2.1
      ((ResponseFilter.new sequences).apply events).2.2 :=
  apply_filtered events hne rfl (streaming_new hne)

theorem new_cut (hne : ∀ s ∈ sequences, s ≠ []) (events : List ChatOutputEvent) :
    Cut sequences [] events (textOf ((ResponseFilter.new sequences).apply events).2.1)
      (others ((ResponseFilter.new sequences).apply events).2.1)
      ((ResponseFilter.new sequences).apply events).2.2 := by
  simpa [ResponseFilter.new, StopBuffer.new] using (new_filtered hne events).cut

/-- Events without a tool call or a stop sequence give no reason. -/
theorem reason_eq_none (h : Cut sequences [] events text kept reason) (hcalls : NoCalls events)
    (habsent : Absent sequences (textOf events)) : reason = none := by
  cases h with
  | none calls absent rest => rfl
  | @stop xs ys t s split calls absent mem found first rest =>
    -- The sequence found occurs in the whole text too.
    obtain ⟨after, hafter⟩ := found
    have hwhole : textOf events = text ++ (s ++ (after ++ textOf ys)) := by
      simp only [nil_append, append_assoc] at hafter
      rw [split, textOf_append, textOf_cons_text, ← append_assoc, ← hafter]
      simp
    exfalso
    apply habsent s mem text.length
    rw [hwhole, drop_left]
    exact prefix_append ..
  | @toolCalls xs ys call split calls absent whole rest =>
    exact absurd (by rw [split]; simp) (hcalls call)

variable (fromStr tokenizer) in
/-- The tokens leave the response open: their events hold no tool call and no
stop sequence, and no token carries a finish reason. -/
def Open (sequences : List Text) (codec : ChatOutputCodec δ) (tokens : List ScheduledToken) :
    Prop :=
  (∃ last events, Decoded fromStr tokenizer codec tokens last events ∧ NoCalls events ∧
    Absent sequences (textOf events)) ∧ ∀ token ∈ tokens, token.finishReason = none

theorem Open.apply_eq_none {c : ChatOutputCodec δ}
    (hne : ∀ s ∈ sequences, s ≠ []) (h : Open fromStr tokenizer sequences codec tokens)
    (hdecoded : Decoded fromStr tokenizer codec tokens c events) :
    ((ResponseFilter.new sequences).apply events).2.2 = none := by
  obtain ⟨⟨last, events', hdecoded', hcalls, habsent⟩, -⟩ := h
  obtain ⟨-, hsame⟩ := hdecoded'.unique (n := codec.parser.nextToolCallId) hdecoded
  rw [← (apply_same _ hsame).2.2]
  exact reason_eq_none (new_cut hne events') hcalls habsent

theorem Decoded.split (h : Decoded fromStr tokenizer codec (xs ++ ys) last events) :
    ∃ middle first rest, Decoded fromStr tokenizer codec xs middle first ∧
      events = first ++ rest := by
  induction xs generalizing codec events with
  | nil => exact ⟨codec, [], events, .nil codec, rfl⟩
  | cons token xs ih =>
    cases h with
    | cons ids push others =>
      obtain ⟨middle, first, rest, hfirst, rfl⟩ := ih others
      exact ⟨middle, _, rest, .cons ids push hfirst, (append_assoc ..).symm⟩

theorem Absent.left {t' : Text} (h : Absent sequences (t ++ t')) : Absent sequences t := by
  intro s hs i hoccurs
  apply h s hs i
  rw [drop_append]
  exact hoccurs.trans (prefix_append _ _)

theorem Open.left (h : Open fromStr tokenizer sequences codec (xs ++ ys)) :
    Open fromStr tokenizer sequences codec xs := by
  obtain ⟨⟨last, events, hdecoded, hcalls, habsent⟩, hquiet⟩ := h
  obtain ⟨middle, first, rest, hfirst, rfl⟩ := hdecoded.split
  rw [textOf_append] at habsent
  refine ⟨⟨middle, first, hfirst, fun call hmem => ?_, habsent.left⟩, fun token hmem => ?_⟩
  · exact hcalls call (mem_append_left rest hmem)
  · exact hquiet token (mem_append_left ys hmem)

/-- The reason that the scheduler gave with the last token. -/
def schedulerReason (tokens : List ScheduledToken) : Option ChatFinishReason :=
  (tokens.getLast?.bind ScheduledToken.finishReason).map mapSchedulerFinish

theorem schedulerReason_concat (tokens : List ScheduledToken) (token : ScheduledToken) :
    schedulerReason (tokens ++ [token]) = token.finishReason.map mapSchedulerFinish := by
  simp [schedulerReason]

theorem schedulerReason_quiet (h : ∀ token ∈ tokens, token.finishReason = none) :
    schedulerReason tokens = none := by
  unfold schedulerReason
  cases hlast : tokens.getLast? with
  | none => rfl
  | some token => simp [h token (mem_of_getLast? hlast)]

/-! ## One tick -/

variable (fromStr tokenizer) in
/-- Decoding `tokens` from `codec` and filtering the events with a fresh filter
leads to `last` and `filter`, passing `events` on. -/
def Passed (sequences : List Text) (codec : ChatOutputCodec δ) (tokens : List ScheduledToken)
    (last : ChatOutputCodec δ) (filter : ResponseFilter) (events : List ChatOutputEvent)
    (reason : Option ChatFinishReason) : Prop :=
  ∃ raw, Decoded fromStr tokenizer codec tokens last raw ∧
    (ResponseFilter.new sequences).apply raw = (filter, events, reason)

theorem Passed.isOpen (hne : ∀ s ∈ sequences, s ≠ [])
    (h : Passed fromStr tokenizer sequences codec tokens last filter events none)
    (hquiet : ∀ token ∈ tokens, token.finishReason = none) :
    Open fromStr tokenizer sequences codec tokens := by
  obtain ⟨raw, hdecoded, happlied⟩ := h
  have hcut := new_cut hne raw
  rw [happlied] at hcut
  cases hcut with
  | none calls absent kept => exact ⟨⟨last, raw, hdecoded, calls, absent⟩, hquiet⟩

variable {before : List ScheduledToken} {out : List ChatOutputEvent}

theorem Passed.serve
    (h : Passed fromStr tokenizer sequences codec before a.output a.filter out none)
    (hserve : (a.withIds ids).serve fromStr tokenizer token = .ok (b, events, reason)) :
    ∃ found, Passed fromStr tokenizer sequences codec (before ++ [token]) b.output b.filter
        (out ++ events) found ∧
      reason = (found <|> token.finishReason.map mapSchedulerFinish) := by
  obtain ⟨raw, hdecoded, happlied⟩ := h
  obtain ⟨rest, hpush, hfilter, hevents, hreason⟩ := serve_eq_ok hserve
  refine ⟨(a.filter.apply rest).2.2, ⟨raw ++ rest, hdecoded.append (.single ids hpush), ?_⟩, hreason⟩
  have hnone : ((ResponseFilter.new sequences).apply raw).2.2 = none := by rw [happlied]
  rw [apply_append_of_none hnone, happlied, hfilter, hevents]

/-- Each token of the tick but the first comes behind tokens that leave the
response open. -/
def EndsLast (fromStr : Text → Except Text Value) (tokenizer : Tokenizer δ)
    (sequences : List Text) (codec : ChatOutputCodec δ) (before tokens : List ScheduledToken) :
    Prop :=
  ∀ xs ys, tokens = xs ++ ys → xs ≠ [] → ys ≠ [] →
    Open fromStr tokenizer sequences codec (before ++ xs)

/-- The tokens of a tick on an open response: only the last one may end it. -/
theorem Passed.served (hne : ∀ s ∈ sequences, s ≠ [])
    (h : Passed fromStr tokenizer sequences codec before a.output a.filter out none)
    (hquiet : ∀ token ∈ before, token.finishReason = none)
    (hends : EndsLast fromStr tokenizer sequences codec before tokens)
    (hserved : Served fromStr tokenizer a tokens b events reason) :
    ∃ found, Passed fromStr tokenizer sequences codec (before ++ tokens) b.output b.filter
        (out ++ events) found ∧
      reason = (found <|> schedulerReason (before ++ tokens)) ∧
      Open fromStr tokenizer sequences codec (before ++ tokens).dropLast := by
  induction hserved generalizing before out with
  | nil a =>
    rw [append_nil, append_nil]
    refine ⟨none, h, ?_, ?_⟩
    · rw [schedulerReason_quiet hquiet]
      rfl
    · have hopen := h.isOpen hne hquiet
      cases hlast : before.getLast? with
      | none =>
        rw [getLast?_eq_none_iff.mp hlast] at hopen ⊢
        exact hopen
      | some last =>
        rw [← dropLast_append_getLast? last hlast] at hopen
        exact hopen.left
  | @cons a b c token tokens events rest reason last ids first others ih =>
    obtain ⟨found, hpassed, hreason⟩ := h.serve first
    rw [show before ++ token :: tokens = (before ++ [token]) ++ tokens by simp]
    by_cases htokens : tokens = []
    · subst htokens
      cases others
      rw [append_nil, append_nil, schedulerReason_concat]
      refine ⟨found, hpassed, by rw [hreason]; rfl, ?_⟩
      rw [dropLast_concat]
      exact h.isOpen hne hquiet
    · have hopen := hends [token] tokens rfl (by simp) htokens
      have hnone : found = none := by
        obtain ⟨raw, hdecoded, happlied⟩ := hpassed
        have hfound := hopen.apply_eq_none hne hdecoded
        rwa [happlied] at hfound
      subst hnone
      have hrest : EndsLast fromStr tokenizer sequences codec (before ++ [token]) tokens := by
        intro xs ys hsplit _ hys
        rw [append_assoc]
        exact hends (token :: xs) ys (by rw [hsplit]; rfl) (by simp) hys
      obtain ⟨found', hpassed', hlast, hbefore⟩ := ih hpassed hopen.2 hrest
      refine ⟨found', ?_, ?_, hbefore⟩
      · rwa [← append_assoc]
      · have hfirst : reason = none := by
          rw [hreason, hopen.2 token (by simp)]
          rfl
        rw [hlast, hfirst]
        cases found' <;> simp

/-! ## Runs of the service -/

/-- The service, with what was generated and what it emitted so far. -/
structure Run (δ : Type) where
  service : ChatService δ
  generated : List ScheduledToken
  output : List EngineDelta
  finished : List EngineFinished

/-- A call of the service. -/
inductive Action (κ : Type) where
  | add (request : ChatService.RenderedRequest) (queue : Nat → Except Error EngineRequestId)
  | cancel (id : EngineRequestId)
  | tick (report : SchedulerReport κ)

variable (fromStr tokenizer) (maxContextTokens : Nat)

/-- A refused request leaves the service as it is. A tick that fails emits
nothing; the run ends there. -/
def step (w : Run δ) : Action κ → Option (Run δ)
  | .add request queue =>
    match w.service.addRequest tokenizer maxContextTokens request queue with
    | .ok (service, _) => some { w with service := service }
    | .error _ => some w
  | .cancel id => some { w with service := w.service.cancelRequest id }
  | .tick report =>
    match w.service.tick fromStr tokenizer report with
    | .ok (service, out) => some ⟨service, w.generated ++ report.generated, w.output ++ out.output,
        w.finished ++ out.finished⟩
    | .error _ => none

/-- The scheduler assigns `r` to no other request, and in each tick a condition
on the tokens of `r` generated before it and in it holds. -/
def Guarded (r : EngineRequestId) (tokens : List ScheduledToken → List ScheduledToken → Prop)
    (w : Run δ) : Action κ → Prop
  | .add _ queue => ∀ n, queue n ≠ .ok r
  | .cancel _ => True
  | .tick report => tokens (tokensOf r w.generated) (tokensOf r report.generated)

variable {fromStr tokenizer}

/-- What closing the output of a request yields. -/
def Closes (codec : ChatOutputCodec δ) (filter : ResponseFilter) (cause : ChatFinishReason)
    (tail : List ChatOutputEvent) (final : ChatFinishReason) : Prop :=
  ∃ usage ids last,
    ((⟨codec, filter, usage⟩ : ActiveChatRequest δ).withIds ids).conclude cause =
      .ok (last, tail, final)

variable (fromStr tokenizer) in
/-- What a run shows of a request whose codec and filter were fresh: a response
that is still open (or was cancelled), or one that its last token, or the
scheduler, ended. -/
inductive Shown (sequences : List Text) (codec : ChatOutputCodec δ) (r : EngineRequestId)
    (w : Run δ) : Prop where
  | isOpen {last : ChatOutputCodec δ} {filter : ResponseFilter}
      (passed : Passed fromStr tokenizer sequences codec (tokensOf r w.generated) last filter
        (deltasOf r w.output) none)
      (quiet : ∀ token ∈ tokensOf r w.generated, token.finishReason = none)
      (unfinished : finishedOf r w.finished = [])
      (retained : ∀ a, w.service.requests.get r = some a → a.output = last ∧ a.filter = filter)
  | ended {last : ChatOutputCodec δ} {filter : ResponseFilter} {out tail : List ChatOutputEvent}
      {reason : Option ChatFinishReason} {record : EngineFinished}
      (passed : Passed fromStr tokenizer sequences codec (tokensOf r w.generated) last filter out
        reason)
      (before : Open fromStr tokenizer sequences codec (tokensOf r w.generated).dropLast)
      (closes : Closes last filter
        ((reason <|> schedulerReason (tokensOf r w.generated)).getD .length) tail record.finishReason)
      (deltas : deltasOf r w.output = out ++ tail)
      (finished : finishedOf r w.finished = [record])
      (gone : w.service.requests.get r = none)

theorem tokensOf_append (r : EngineRequestId) (xs ys : List ScheduledToken) :
    tokensOf r (xs ++ ys) = tokensOf r xs ++ tokensOf r ys := by
  simp [tokensOf]

theorem admitRequest_keeps (r : EngineRequestId) (admitted : List (EngineRequestId × Nat))
    (a : ActiveChatRequest δ) :
    (admitRequest r admitted a).output = a.output ∧
      (admitRequest r admitted a).filter = a.filter := by
  unfold admitRequest
  induction admitted.filter (fun admission => admission.1 = r) generalizing a with
  | nil => exact ⟨rfl, rfl⟩
  | cons admission rest ih => exact ih (a.withCached admission.2)

variable {w w' : Run δ} {report : SchedulerReport κ}

theorem step_tick (h : step fromStr tokenizer maxContextTokens w (.tick report) = some w') :
    ∃ service out, w.service.tick fromStr tokenizer report = .ok (service, out) ∧
      w' = ⟨service, w.generated ++ report.generated, w.output ++ out.output,
        w.finished ++ out.finished⟩ := by
  simp only [step] at h
  split at h
  · rename_i service out htick
    exact ⟨service, out, htick, (Option.some.inj h).symm⟩
  · cases h

/-- A request that is not retained sees nothing of a tick. -/
theorem step_unknown (h : step fromStr tokenizer maxContextTokens w (.tick report) = some w')
    (hget : w.service.requests.get r = none) :
    tokensOf r w'.generated = tokensOf r w.generated ∧ w'.service.requests.get r = none ∧
      deltasOf r w'.output = deltasOf r w.output ∧
      finishedOf r w'.finished = finishedOf r w.finished := by
  obtain ⟨service, out, htick, rfl⟩ := step_tick maxContextTokens h
  obtain ⟨htokens, hnone, hdeltas, hfinished⟩ := tick_unknown htick hget
  simp only [tokensOf_append, deltasOf_append, finishedOf_append, htokens, hdeltas, hfinished,
    append_nil]
  exact ⟨trivial, hnone, trivial, trivial⟩

variable {action : Action κ}

theorem step_keeps {tokens : List ScheduledToken → List ScheduledToken → Prop}
    (hguard : Guarded r tokens w action) (haction : ∀ report, action ≠ .tick report)
    (h : step fromStr tokenizer maxContextTokens w action = some w') :
    w' = { w with service := w'.service } ∧
      ∀ a, w'.service.requests.get r = some a → w.service.requests.get r = some a := by
  cases action with
  | add request queue =>
    simp only [step] at h
    split at h
    · rename_i service id hadd
      cases h
      refine ⟨rfl, fun a hget => ?_⟩
      obtain ⟨_, _, hadd⟩ := bind_ok hadd
      obtain ⟨output, _, hadd⟩ := bind_ok hadd
      obtain ⟨n, _, hadd⟩ := bind_ok hadd
      obtain ⟨id', hqueue, hadd⟩ := bind_ok hadd
      cases hadd
      have hr : r ≠ id := fun heq => hguard n (heq ▸ hqueue)
      rwa [get_insert_of_ne _ _ hr] at hget
    · cases h
      exact ⟨rfl, fun a hget => hget⟩
  | cancel id =>
    cases h
    refine ⟨rfl, fun a hget => ?_⟩
    by_cases hr : r = id
    · simp [ChatService.cancelRequest, hr, get_erase_self] at hget
    · simpa [ChatService.cancelRequest, get_erase_of_ne _ hr] using hget
  | tick report => exact absurd rfl (haction report)

variable {service : ChatService δ}

/-- A tick on an open response that the service retains. -/
theorem shown_of_tick {out : EngineTick κ} (hne : ∀ s ∈ sequences, s ≠ [])
    (hpassed : Passed fromStr tokenizer sequences codec (tokensOf r w.generated) a.output a.filter
      (deltasOf r w.output) none)
    (hquiet : ∀ token ∈ tokensOf r w.generated, token.finishReason = none)
    (hunfinished : finishedOf r w.finished = [])
    (hends : EndsLast fromStr tokenizer sequences codec (tokensOf r w.generated)
      (tokensOf r report.generated))
    (hview : TickView fromStr tokenizer report r a (service.requests.get r)
      (deltasOf r out.output) (finishedOf r out.finished)) :
    Shown fromStr tokenizer sequences codec r ⟨service, w.generated ++ report.generated,
      w.output ++ out.output, w.finished ++ out.finished⟩ := by
  obtain ⟨houtput, hfilter⟩ := admitRequest_keeps r report.admitted a
  have hadmitted : Passed fromStr tokenizer sequences codec (tokensOf r w.generated)
      (admitRequest r report.admitted a).output (admitRequest r report.admitted a).filter
      (deltasOf r w.output) none := by
    rw [houtput, hfilter]
    exact hpassed
  generalize hget : service.requests.get r = retained,
    hdeltas : deltasOf r out.output = deltas, hfinished : finishedOf r out.finished = finished
    at hview
  cases hview with
  | @goes b _ reason served goesOn =>
    obtain ⟨found, hpassed', hreason, hopen⟩ := hadmitted.served hne hquiet hends served
    -- The request goes on, so its tokens gave no reason.
    have hnone : reason = none := by
      cases reason with
      | none => rfl
      | some reason => cases goesOn
    have hfound : found = none ∧
        schedulerReason (tokensOf r w.generated ++ tokensOf r report.generated) = none := by
      rw [hnone] at hreason
      cases found with
      | none => exact ⟨rfl, hreason.symm⟩
      | some found => cases hreason
    obtain ⟨rfl, hscheduler⟩ := hfound
    have hall : ∀ token ∈ tokensOf r w.generated ++ tokensOf r report.generated,
        token.finishReason = none := by
      intro token hmem
      cases hlast : (tokensOf r w.generated ++ tokensOf r report.generated).getLast? with
      | none =>
        rw [getLast?_eq_none_iff] at hlast
        rw [hlast] at hmem
        cases hmem
      | some last =>
        rw [← dropLast_append_getLast? last hlast, mem_append, mem_singleton] at hmem
        obtain hmem | rfl := hmem
        · exact hopen.2 token hmem
        · simpa [schedulerReason, hlast] using hscheduler
    rw [← hdeltas, ← deltasOf_append, ← tokensOf_append] at hpassed'
    rw [← tokensOf_append] at hall
    refine .isOpen hpassed' hall ?_ fun a' ha' => ?_
    · simp only [finishedOf_append, hunfinished, hfinished, append_nil]
    · rw [show service.requests.get r = some a' from ha'] at hget
      cases hget
      exact ⟨rfl, rfl⟩
  | @ends b c events last reason cause final ids released served cause_eq concluded =>
    obtain ⟨found, hpassed', hreason, hopen⟩ := hadmitted.served hne hquiet hends served
    have hcause : cause = (found <|> schedulerReason
        (tokensOf r w.generated ++ tokensOf r report.generated)).getD .length := by
      rw [← hreason]
      unfold endReason at cause_eq
      cases reason with
      | some reason => simpa using cause_eq.symm
      | none =>
        split at cause_eq
        · simpa using cause_eq.symm
        · cases cause_eq
    subst hcause
    rw [← tokensOf_append] at hpassed' hopen concluded
    have hrecords : finishedOf r (w.finished ++ out.finished) =
        [⟨r, final, c.usage, released⟩] := by
      rw [finishedOf_append, hunfinished, hfinished, nil_append]
    have hout : deltasOf r (w.output ++ out.output) =
        (deltasOf r w.output ++ events) ++ last := by
      rw [deltasOf_append, hdeltas, append_assoc]
    exact .ended hpassed' hopen ⟨b.usage, ids, c, concluded⟩ hout hrecords hget

theorem Shown.step (hne : ∀ s ∈ sequences, s ≠ []) (h : Shown fromStr tokenizer sequences codec r w)
    (hguard : Guarded r (EndsLast fromStr tokenizer sequences codec) w action)
    (hstep : step fromStr tokenizer maxContextTokens w action = some w') :
    Shown fromStr tokenizer sequences codec r w' := by
  by_cases haction : ∀ report, action ≠ .tick report
  · obtain ⟨hw', hkeeps⟩ := step_keeps maxContextTokens hguard haction hstep
    rw [hw']
    cases h with
    | isOpen passed quiet unfinished retained =>
      exact .isOpen passed quiet unfinished fun a hget => retained a (hkeeps a hget)
    | ended passed before closes deltas finished gone =>
      refine .ended passed before closes deltas finished ?_
      cases hget : w'.service.requests.get r with
      | none => rfl
      | some a =>
        have hsome := hkeeps a hget
        rw [gone] at hsome
        cases hsome
  · obtain ⟨report, rfl⟩ : ∃ report, action = .tick report := by
      simpa using haction
    cases hget : w.service.requests.get r with
    | none =>
      obtain ⟨htokens, hnone, hdeltas, hfinished⟩ := step_unknown maxContextTokens hstep hget
      cases h with
      | isOpen passed quiet unfinished retained =>
        rw [← htokens, ← hdeltas] at passed
        refine .isOpen passed (htokens ▸ quiet) (hfinished ▸ unfinished) fun a ha => ?_
        rw [hnone] at ha
        cases ha
      | ended passed before closes deltas finished gone =>
        exact .ended (htokens ▸ passed) (htokens ▸ before) (htokens ▸ closes) (hdeltas ▸ deltas)
          (hfinished ▸ finished) hnone
    | some a =>
      cases h with
      | isOpen passed quiet unfinished retained =>
        obtain ⟨rfl, rfl⟩ := retained a hget
        obtain ⟨service, out, htick, rfl⟩ := step_tick maxContextTokens hstep
        exact shown_of_tick hne passed quiet unfinished hguard (tick_view htick hget)
      | ended passed before closes deltas finished gone =>
        rw [gone] at hget
        cases hget

/-- Fresh codecs of the same request differ in the counter only. -/
theorem new_codec_same {tools : List ChatTool} {startsInReasoning : Bool} {ids' : Nat}
    {codec' : ChatOutputCodec δ}
    (h : ChatOutputCodec.new tokenizer tools startsInReasoning ids = .ok codec)
    (h' : ChatOutputCodec.new tokenizer tools startsInReasoning ids' = .ok codec') :
    codec' = codecWithIds codec ids' := by
  rw [new_withIds tokenizer tools startsInReasoning ids ids', h] at h'
  exact (Except.ok.inj h').symm

theorem addRequest_eq_ok {s s' : ChatService δ} {request : ChatService.RenderedRequest}
    {queue : Nat → Except Error EngineRequestId}
    (h : s.addRequest tokenizer maxContextTokens request queue = .ok (s', r)) :
    (∀ t ∈ request.stopSequences, t ≠ []) ∧ ∃ codec usage,
      ChatOutputCodec.new tokenizer request.tools request.startsInReasoning s.nextToolCallId =
        .ok codec ∧
      s'.requests.get r = some ⟨codec, ResponseFilter.new request.stopSequences, usage⟩ := by
  obtain ⟨_, hvalid, h⟩ := bind_ok h
  obtain ⟨codec, hcodec, h⟩ := bind_ok h
  obtain ⟨n, _, h⟩ := bind_ok h
  obtain ⟨id, _, h⟩ := bind_ok h
  cases h
  refine ⟨fun t hmem hnil => ?_, codec, _, hcodec, get_insert_self _ _ _⟩
  unfold ChatService.validateStopSequences at hvalid
  rw [if_pos (any_eq_true.mpr ⟨t, hmem, by rw [hnil]; rfl⟩)] at hvalid
  cases hvalid

theorem shown_new {usage : ChatUsage}
    (h : service.requests.get r = some ⟨codec, ResponseFilter.new sequences, usage⟩) :
    Shown fromStr tokenizer sequences codec r ⟨service, [], [], []⟩ := by
  refine .isOpen ⟨[], .nil codec, rfl⟩ (by simp [tokensOf]) rfl fun a hget => ?_
  rw [h] at hget
  cases hget
  exact ⟨rfl, rfl⟩

/-! ## What the response is -/

/-- The events that finishing the codec yields. -/
def Finishes (codec : ChatOutputCodec δ) (events : List ChatOutputEvent) : Prop :=
  ∃ ids truncated last, (codecWithIds codec ids).finishWithTruncation truncated = .ok (last, events)

theorem takeEvent_noCalls {makeEvent : Text → ChatOutputEvent}
    (h : ∀ call t, ChatOutputEvent.toolCall call ≠ makeEvent t) (pending : Text) :
    NoCalls (takeEvent makeEvent pending) := by
  intro call hmem
  unfold takeEvent pushNonempty at hmem
  split at hmem
  · cases hmem
  · exact h call pending (mem_singleton.mp hmem)

theorem parser_finish_noCalls {p q : ChatOutputParser} {truncated : Bool}
    (h : p.finishWithTruncation truncated = .ok (q, events)) : NoCalls events := by
  have hnil : NoCalls [] := by simp [NoCalls]
  unfold ChatOutputParser.finishWithTruncation at h
  split at h
  · cases h
    exact hnil
  · simp only at h
    split at h
    · cases h
      exact takeEvent_noCalls (by simp) _
    · cases h
      exact takeEvent_noCalls (by simp) _
    · split at h
      · cases h
        exact hnil
      · cases h
    · split at h
      · cases h
        exact hnil
      · cases h

theorem finishes_noCalls (h : Finishes codec events) : NoCalls events := by
  obtain ⟨ids, truncated, last, h⟩ := h
  unfold ChatOutputCodec.finishWithTruncation at h
  split at h
  · cases h
    simp [NoCalls]
  · obtain ⟨⟨parser, events'⟩, hparser, h⟩ := bind_ok h
    cases h
    exact parser_finish_noCalls hparser

variable (fromStr tokenizer) in
/-- The response to `tokens`, read as the deltas and the reasons of the finished
records. The decoded events are those of the tokens, and behind them what
finishing the codec yields when the tokens themselves did not end it. -/
inductive Response (sequences : List Text) (codec : ChatOutputCodec δ)
    (tokens : List ScheduledToken) (deltas : List ChatOutputEvent) : List ChatFinishReason → Prop where
  /-- Nothing ended it yet. What was passed on is a part of the decoded text. -/
  | streaming {last : ChatOutputCodec δ} {raw : List ChatOutputEvent}
      (decoded : Decoded fromStr tokenizer codec tokens last raw)
      (cut : Cut sequences [] raw (textOf deltas) (others deltas) none)
      (held : textOf deltas <+: textOf raw) : Response sequences codec tokens deltas []
  /-- A stop sequence or a tool call ended it. -/
  | cut {last : ChatOutputCodec δ} {raw rest : List ChatOutputEvent} {reason : ChatFinishReason}
      (decoded : Decoded fromStr tokenizer codec tokens last raw)
      (finished : rest = [] ∨ Finishes last rest)
      (cut : Cut sequences [] (raw ++ rest) (textOf deltas) (others deltas) (some reason)) :
      Response sequences codec tokens deltas [reason]
  /-- Neither occurred: the whole text, and the reason of the scheduler. -/
  | whole {last : ChatOutputCodec δ} {raw rest : List ChatOutputEvent}
      (decoded : Decoded fromStr tokenizer codec tokens last raw) (finished : Finishes last rest)
      (cut : Cut sequences [] (raw ++ rest) (textOf deltas) (others deltas) none)
      (all : textOf deltas = textOf (raw ++ rest)) :
      Response sequences codec tokens deltas [(schedulerReason tokens).getD .length]

/-- How the closing events pass the filter: they end the response themselves, a
tool call had ended it, or the filter is flushed and the cause stands. -/
inductive Flushed (filter : ResponseFilter) (rest : List ChatOutputEvent)
    (cause : ChatFinishReason) : List ChatOutputEvent → ChatFinishReason → Prop where
  | cut {final : ChatFinishReason} (reason : (filter.apply rest).2.2 = some final) :
      Flushed filter rest cause (filter.apply rest).2.1 final
  | called (reason : (filter.apply rest).2.2 = none)
      (calls : (filter.apply rest).1.sawToolCalls = true) :
      Flushed filter rest cause (filter.apply rest).2.1 .toolCalls
  | flush (reason : (filter.apply rest).2.2 = none)
      (calls : (filter.apply rest).1.sawToolCalls = false) :
      Flushed filter rest cause ((filter.apply rest).2.1 ++ (filter.apply rest).1.flush.2) cause

theorem finishOutput_eq_ok (h : a.finishOutput cause = .ok (b, tail, final)) :
    ∃ output rest, a.output.finishWithTruncation (cause == .length) = .ok (output, rest) ∧
      Flushed a.filter rest cause tail final := by
  obtain ⟨⟨output, rest⟩, hrest, h⟩ := bind_ok h
  refine ⟨output, rest, hrest, ?_⟩
  simp only at h
  split at h
  · rename_i reason hreason
    cases h
    exact .cut hreason
  · rename_i hreason
    split at h
    · rename_i hcalls
      cases h
      exact .called hreason hcalls
    · rename_i hcalls
      cases h
      exact .flush hreason (by simpa using hcalls)

theorem closes_finish (h : Closes codec filter cause tail final) (hcause : ∀ s, cause ≠ .stop s) :
    ∃ rest, Finishes codec rest ∧ Flushed filter rest cause tail final := by
  obtain ⟨usage, ids, last, h⟩ := h
  have hfinish : ((⟨codec, filter, usage⟩ : ActiveChatRequest δ).withIds ids).finishOutput cause =
      .ok (last, tail, final) := by
    cases cause with
    | stop s => exact absurd rfl (hcause s)
    | eos => exact h
    | length => exact h
    | toolCalls => exact h
  obtain ⟨output, rest, hrest, hflushed⟩ := finishOutput_eq_ok hfinish
  exact ⟨rest, ⟨ids, _, output, hrest⟩, hflushed⟩

/-- Events that end a response end it whatever comes behind them. -/
theorem apply_reason_cases (hne : ∀ s ∈ sequences, s ≠ []) {reason : ChatFinishReason}
    (h : ((ResponseFilter.new sequences).apply events).2.2 = some reason) :
    (∃ s, reason = .stop s) ∨ reason = .toolCalls := by
  have hcut := new_cut hne events
  rw [h] at hcut
  cases hcut with
  | @stop xs ys t s split calls absent mem found first rest => exact .inl ⟨s, rfl⟩
  | toolCalls split calls absent whole rest => exact .inr rfl

theorem response_of_shown (hne : ∀ s ∈ sequences, s ≠ [])
    (h : Shown fromStr tokenizer sequences codec r w) :
    Response fromStr tokenizer sequences codec (tokensOf r w.generated) (deltasOf r w.output)
      ((finishedOf r w.finished).map EngineFinished.finishReason) := by
  cases h with
  | isOpen passed quiet unfinished retained =>
    obtain ⟨raw, hdecoded, happlied⟩ := passed
    have hcut := new_cut hne raw
    have hfiltered := new_filtered hne raw
    rw [happlied] at hcut hfiltered
    rw [unfinished]
    refine .streaming hdecoded hcut ?_
    obtain ⟨-, -, hwhole⟩ := hfiltered.goesOn rfl
    exact ⟨_, by simpa [ResponseFilter.new, StopBuffer.new] using hwhole⟩
  | @ended last filter out tail reason record passed before closes deltas finished gone =>
    obtain ⟨raw, hdecoded, happlied⟩ := passed
    have hcut := new_cut hne raw
    have hfiltered := new_filtered hne raw
    rw [happlied] at hcut hfiltered
    rw [finished, deltas]
    cases reason with
    | some reason =>
      obtain ⟨s, rfl⟩ | rfl := apply_reason_cases hne (by rw [happlied])
      · -- A stop sequence: nothing is finished any more.
        obtain ⟨usage, ids, b, hclose⟩ := closes
        have hstop : [] = tail ∧ ChatFinishReason.stop s = record.finishReason := by
          simpa using (Prod.mk.inj (Except.ok.inj hclose)).2
        obtain ⟨rfl, hfinal⟩ := hstop
        rw [append_nil, map_singleton, ← hfinal]
        exact .cut hdecoded (.inl rfl) (by rwa [append_nil])
      · -- A tool call: what finishing yields does not pass the filter.
        have hcalls : filter.sawToolCalls = true := hfiltered.called rfl
        obtain ⟨rest, hfinishes, hflushed⟩ := closes_finish closes (by simp)
        have happly := apply_after_call hcalls (finishes_noCalls hfinishes)
        have htail : record.finishReason = .toolCalls ∧ tail = [] := by
          generalize record.finishReason = final at hflushed
          cases hflushed with
          | cut reason => simp [happly] at reason
          | called reason calls => simp [happly]
          | flush reason calls => simp [happly, hcalls] at calls
        obtain ⟨hfinal, rfl⟩ := htail
        rw [append_nil, map_singleton, hfinal]
        exact .cut hdecoded (.inl rfl) (by rwa [append_nil])
    | none =>
      have hcause : ∀ s, ((none : Option ChatFinishReason) <|>
          schedulerReason (tokensOf r w.generated)).getD .length ≠ .stop s := by
        intro s
        unfold schedulerReason
        cases ((tokensOf r w.generated).getLast?.bind ScheduledToken.finishReason) with
        | none => simp
        | some reason => cases reason <;> simp [mapSchedulerFinish]
      obtain ⟨rest, hfinishes, hflushed⟩ := closes_finish closes hcause
      have hnone : ((ResponseFilter.new sequences).apply raw).2.2 = none := by rw [happlied]
      have hboth := apply_append_of_none hnone rest
      rw [happlied] at hboth
      have hcut := new_cut hne (raw ++ rest)
      have hfiltered := new_filtered hne (raw ++ rest)
      rw [hboth] at hcut hfiltered
      rw [map_singleton]
      generalize record.finishReason = final at hflushed
      cases hflushed with
      | cut reason =>
        rw [reason] at hcut
        exact .cut hdecoded (.inr hfinishes) hcut
      | called reason calls =>
        obtain ⟨hfalse, -⟩ := hfiltered.goesOn reason
        rw [show (filter.apply rest).1.sawToolCalls = false from hfalse] at calls
        cases calls
      | flush reason calls =>
        obtain ⟨-, -, hall⟩ := hfiltered.goesOn reason
        refine .whole hdecoded hfinishes ?_ ?_
        · simp only [reason] at hcut
          cases hcut with
          | none calls absent kept =>
            refine .none calls absent ?_
            rw [← kept, ← append_assoc, others_append]
            simp [ResponseFilter.flush]
        · simpa [ResponseFilter.flush, StopBuffer.finish, ResponseFilter.new, StopBuffer.new]
            using hall

theorem open_of_shown (hne : ∀ s ∈ sequences, s ≠ [])
    (h : Shown fromStr tokenizer sequences codec r w) (hsplit : tokensOf r w.generated = xs ++ ys)
    (hys : ys ≠ []) : Open fromStr tokenizer sequences codec xs := by
  cases h with
  | isOpen passed quiet unfinished retained =>
    have hopen := passed.isOpen hne quiet
    rw [hsplit] at hopen
    exact hopen.left
  | ended passed before closes deltas finished gone =>
    rw [hsplit, dropLast_append_of_ne_nil hys] at before
    exact before.left

/-- The usage record does not influence how a request is closed. -/
theorem conclude_usage (h : a.conclude cause = .ok (b, tail, final)) (usage : ChatUsage) :
    ∃ c, (⟨a.output, a.filter, usage⟩ : ActiveChatRequest δ).conclude cause =
      .ok (c, tail, final) := by
  have hfinish : ∀ reason, a.finishOutput reason = .ok (b, tail, final) →
      ∃ c, (⟨a.output, a.filter, usage⟩ : ActiveChatRequest δ).finishOutput reason =
        .ok (c, tail, final) := by
    intro reason h
    obtain ⟨⟨output, rest⟩, hrest, h⟩ := bind_ok h
    simp only [ActiveChatRequest.finishOutput, hrest]
    simp only at h
    split at h
    · rename_i protocolReason hreason
      cases h
      simp only [bind, Except.bind, hreason]
      exact ⟨_, rfl⟩
    · rename_i hreason
      split at h
      · rename_i hcalls
        cases h
        simp only [bind, Except.bind, hreason, hcalls, if_true]
        exact ⟨_, rfl⟩
      · rename_i hcalls
        cases h
        simp only [bind, Except.bind, hreason, hcalls]
        exact ⟨_, rfl⟩
  cases cause with
  | stop s =>
    cases h
    exact ⟨_, rfl⟩
  | eos => exact hfinish _ h
  | length => exact hfinish _ h
  | toolCalls => exact hfinish _ h

theorem closes_same {final' : ChatFinishReason} {tail' : List ChatOutputEvent}
    (h : Closes codec filter cause tail final)
    (h' : Closes (codecWithIds codec ids) filter cause tail' final') :
    SameEvents tail tail' ∧ final = final' := by
  obtain ⟨usage, n, last, h⟩ := h
  obtain ⟨usage', n', last', h'⟩ := h'
  obtain ⟨c, hc⟩ := conclude_usage h' usage
  have hrequest : SameRequest ((⟨codec, filter, usage⟩ : ActiveChatRequest δ).withIds n)
      ((⟨codec, filter, usage⟩ : ActiveChatRequest δ).withIds n') := ⟨n', rfl⟩
  obtain ⟨-, hevents, hfinal⟩ := (conclude_same hrequest cause).of_ok h hc
  exact ⟨hevents, hfinal⟩

/-- The same tokens show the same, up to call identities. -/
theorem shown_same (h : Shown fromStr tokenizer sequences codec r w)
    (h' : Shown fromStr tokenizer sequences (codecWithIds codec ids) r w')
    (htokens : tokensOf r w.generated = tokensOf r w'.generated)
    (hended : finishedOf r w.finished = [] ↔ finishedOf r w'.finished = []) :
    SameEvents (deltasOf r w.output) (deltasOf r w'.output) ∧
      (finishedOf r w.finished).map EngineFinished.finishReason =
        (finishedOf r w'.finished).map EngineFinished.finishReason := by
  cases h with
  | isOpen passed quiet unfinished retained =>
    have unfinished' := hended.mp unfinished
    rw [unfinished, unfinished']
    cases h' with
    | isOpen passed' quiet' _ retained' =>
      obtain ⟨raw, hdecoded, happlied⟩ := passed
      obtain ⟨raw', hdecoded', happlied'⟩ := passed'
      rw [← htokens] at hdecoded'
      obtain ⟨-, hsame⟩ := hdecoded.unique hdecoded'
      have hevents := (apply_same (ResponseFilter.new sequences) hsame).2.1
      rw [happlied, happlied'] at hevents
      exact ⟨hevents, rfl⟩
    | ended passed' before' closes' deltas' finished' gone' =>
      rw [finished'] at unfinished'
      cases unfinished'
  | ended passed before closes deltas finished gone =>
    cases h' with
    | isOpen passed' quiet' unfinished' retained' =>
      rw [hended.mpr unfinished'] at finished
      cases finished
    | ended passed' before' closes' deltas' finished' gone' =>
      obtain ⟨raw, hdecoded, happlied⟩ := passed
      obtain ⟨raw', hdecoded', happlied'⟩ := passed'
      rw [← htokens] at hdecoded' closes'
      obtain ⟨⟨ids', rfl⟩, hsame⟩ := hdecoded.unique hdecoded'
      obtain ⟨hfilter, hevents, hreason⟩ := apply_same (ResponseFilter.new sequences) hsame
      rw [happlied, happlied'] at hfilter hevents hreason
      subst hfilter hreason
      obtain ⟨htail, hfinal⟩ := closes_same closes closes'
      rw [deltas, deltas', finished, finished']
      exact ⟨hevents.append htail, by rw [map_singleton, map_singleton, hfinal]⟩

theorem textOf_same {es fs : List ChatOutputEvent} (h : SameEvents es fs) :
    textOf es = textOf fs := by
  have hanonymous : ∀ events : List ChatOutputEvent,
      textOf (events.map anonymous) = textOf events := by
    intro events
    induction events with
    | nil => rfl
    | cons event events ih =>
      cases event with
      | reasoning t => simpa [anonymous] using ih
      | text t => simpa [anonymous] using ih
      | toolCall call => simpa [anonymous] using ih
  rw [← hanonymous es, ← hanonymous fs, h]

theorem shown_run {usage : ChatUsage} {actions : List (Action κ)} (hne : ∀ s ∈ sequences, s ≠ [])
    (hget : service.requests.get r = some ⟨codec, ResponseFilter.new sequences, usage⟩)
    (path : Run.Path (step fromStr tokenizer maxContextTokens)
      (Guarded r (EndsLast fromStr tokenizer sequences codec)) ⟨service, [], [], []⟩ actions w) :
    Shown fromStr tokenizer sequences codec r w :=
  path.invariant (fun h hguard hstep => h.step maxContextTokens hne hguard hstep)
    (shown_new hget)

theorem guarded_of_single (h : Guarded r (fun _ tokens => tokens.length ≤ 1) w action) :
    Guarded r (EndsLast fromStr tokenizer sequences codec) w action := by
  cases action with
  | add request queue => exact h
  | cancel id => exact h
  | tick report =>
    intro xs ys hsplit hxs hys
    have hlength : (tokensOf r report.generated).length ≤ 1 := h
    rw [hsplit, length_append] at hlength
    have hx := length_pos_iff.mpr hxs
    have hy := length_pos_iff.mpr hys
    omega

/-- Two runs of a request, the second with at most one of its tokens in a tick
and up to the token that ended the response. When in no tick of the first a
token of the request comes behind one that ended the response, both show the
same text and end for the same reason: the text ends just before the first stop
sequence or tool call, and that is the reason. -/
theorem grouping_keeps_response {request : ChatService.RenderedRequest} {r : EngineRequestId}
    {s s' t t' : ChatService δ} {queue queue' : Nat → Except Error EngineRequestId}
    {codec : ChatOutputCodec δ} {actions actions' : List (Action κ)} {w w' : Run δ}
    (hadd : s.addRequest tokenizer maxContextTokens request queue = .ok (s', r))
    (hadd' : t.addRequest tokenizer maxContextTokens request queue' = .ok (t', r))
    (hcodec : ChatOutputCodec.new tokenizer request.tools request.startsInReasoning
      s.nextToolCallId = .ok codec) (path : Run.Path (step fromStr tokenizer maxContextTokens)
      (Guarded r (EndsLast fromStr tokenizer request.stopSequences codec))
      ⟨s', [], [], []⟩ actions w) (path' : Run.Path (step fromStr tokenizer maxContextTokens)
      (Guarded r fun _ tokens => tokens.length ≤ 1) ⟨t', [], [], []⟩ actions' w')
    (htokens : tokensOf r w'.generated <+: tokensOf r w.generated)
    (hall : Open fromStr tokenizer request.stopSequences codec (tokensOf r w'.generated) →
      tokensOf r w'.generated = tokensOf r w.generated)
    (hended : finishedOf r w.finished = [] ↔ finishedOf r w'.finished = []) :
    textOf (deltasOf r w.output) = textOf (deltasOf r w'.output) ∧
      (finishedOf r w.finished).map EngineFinished.finishReason =
        (finishedOf r w'.finished).map EngineFinished.finishReason ∧
      Response fromStr tokenizer request.stopSequences codec (tokensOf r w.generated)
        (deltasOf r w.output) ((finishedOf r w.finished).map EngineFinished.finishReason) := by
  obtain ⟨hne, c, usage, hc, hget⟩ := addRequest_eq_ok maxContextTokens hadd
  obtain ⟨-, c', usage', hc', hget'⟩ := addRequest_eq_ok maxContextTokens hadd'
  rw [hcodec] at hc
  cases hc
  have hshown := shown_run maxContextTokens hne hget path
  have hshown' := shown_run maxContextTokens hne hget' (path'.mono guarded_of_single)
  have heq : tokensOf r w.generated = tokensOf r w'.generated := by
    obtain ⟨rest, hrest⟩ := htokens
    by_cases hnil : rest = []
    · rw [← hrest, hnil, append_nil]
    · exact (hall (open_of_shown hne hshown hrest.symm hnil)).symm
  rw [new_codec_same hcodec hc'] at hshown'
  obtain ⟨hdeltas, hreasons⟩ := shown_same hshown hshown' heq hended
  exact ⟨textOf_same hdeltas, hreasons, response_of_shown hne hshown⟩

/-! ## A stop sequence in the middle of a tick -/

/-- A tokenizer with the tokens `a`, `bX` and `c`. -/
def letters : Tokenizer Unit where
  tokenToId _ := none
  decodeStream := ()
  step _ token :=
    .ok (some (if token = 0 then ['a'] else if token = 1 then ['b', 'X'] else ['c']), ())

/-- A request that stops at `X`. -/
def stopAtX : ChatService.RenderedRequest := ⟨[], false, [['X']], 1, 8⟩

/-- A tick with these tokens of request 0. -/
def tickOf (ids : List Nat) : Action Unit :=
  .tick ⟨[], ids.map fun id => ⟨0, id, none⟩, [], [], fun _ => some .decoding, fun _ => true,
    fun _ => 0⟩

/-- The service that has just admitted `stopAtX`. -/
def serving : ChatService Unit :=
  ⟨BTreeMap.empty.insert 0 ⟨plainCodec, ResponseFilter.new [['X']], ⟨1, 0, 0, 0⟩⟩, 0⟩

/-- Text and finish reasons behind ticks with these tokens of request 0. -/
def responseTo (ticks : List (List Nat)) : Option (Text × List ChatFinishReason) :=
  (Run.run (step noJson letters 10) ⟨serving, [], [], []⟩ (ticks.map tickOf)).map fun w =>
    (textOf (deltasOf 0 w.output), (finishedOf 0 w.finished).map EngineFinished.finishReason)

theorem single_letter_open : Open noJson letters [['X']] plainCodec [⟨0, 0, none⟩] := by
  refine ⟨⟨_, [.text ['a']], .single 0 rfl, by simp [NoCalls], ?_⟩, by simp⟩
  intro s hs i hoccurs
  rw [mem_singleton] at hs
  subst hs
  have hmem : 'X' ∈ ['a'] := mem_of_mem_drop (hoccurs.subset (by simp))
  simp at hmem

/-- `a` and `bX` in one tick, or in two. -/
theorem letters_in_one_tick_or_two : ∃ w w',
    Run.run (step noJson letters 10) ⟨serving, [], [], []⟩ [tickOf [0, 1]] = some w ∧
      Run.run (step noJson letters 10) ⟨serving, [], [], []⟩ [tickOf [0], tickOf [1]] = some w' ∧
      textOf (deltasOf 0 w.output) = textOf (deltasOf 0 w'.output) ∧
      (finishedOf 0 w.finished).map EngineFinished.finishReason =
        (finishedOf 0 w'.finished).map EngineFinished.finishReason ∧
      Response noJson letters [['X']] plainCodec (tokensOf 0 w.generated) (deltasOf 0 w.output)
        ((finishedOf 0 w.finished).map EngineFinished.finishReason) := by
  have hadd : (⟨empty, 0⟩ : ChatService Unit).addRequest letters 10 stopAtX
      (fun _ => .ok 0) = .ok (serving, 0) := rfl
  have hends : EndsLast noJson letters [['X']] plainCodec [] [⟨0, 0, none⟩, ⟨0, 1, none⟩] := by
    intro xs ys hsplit hxs hys
    obtain ⟨x, xs, rfl⟩ := exists_cons_of_ne_nil hxs
    obtain ⟨y, ys, rfl⟩ := exists_cons_of_ne_nil hys
    have hlength := congrArg length hsplit
    simp only [length_append, length_cons, length_nil] at hlength
    obtain rfl : xs = [] := length_eq_zero_iff.mp (by omega)
    cases hsplit
    exact single_letter_open
  refine ⟨_, _, rfl, rfl, grouping_keeps_response 10 hadd hadd rfl
    (.cons (a := tickOf [0, 1]) hends rfl (.nil _))
    (.cons (a := tickOf [0]) (Nat.le_refl 1) rfl
      (.cons (a := tickOf [1]) (Nat.le_refl 1) rfl (.nil _)))
    (prefix_refl _) (fun _ => rfl) ⟨?_, ?_⟩⟩
  · intro h
    cases h
  · intro h
    cases h

/-- `c` behind `bX` in one tick is still emitted. -/
theorem text_behind_stop_sequence :
    responseTo [[0], [1]] = some (['a', 'b'], [.stop ['X']]) ∧
      responseTo [[0], [1, 2]] = some (['a', 'b', 'c'], [.stop ['X']]) := by
  constructor <;> rfl

end Eider.Guarantees.StopText
