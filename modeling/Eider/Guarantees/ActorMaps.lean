import Eider.Guarantees.ActorDelivery

/-!
# The actor's three maps

`scheduler_by_external` is written beside `active` and `active_decisions` by
every path that retains or forgets a request. The invariant `Settled` says that
the three agree between any two steps, whatever the engine answers as long as it
does not hand out an id twice, and that a request which has been sent its last
event is sent nothing more (`maps_agree_and_one_terminal_event`).

The one place where a retained request has been sent its last event is a failed
tick: `active` is only emptied behind the loop that sends the errors. `Due` says
which requests that loop has not reached yet.
-/
namespace Eider.Guarantees.ActorMaps
open Function
open Source Lib Lib.Run Guarantees.ActorDelivery List BTreeMap Option

variable {κ : Type}
variable {events : List InferenceEvent} {w : World κ} {s : EngineRequestId} {x : ActorRequestId}
variable {w' : World κ} {phase : Phase κ} {d rest : Delivery κ} {request : EngineRequestId}
variable {id : ActorRequestId} {actions : List (Action κ)} {f : World κ → EngineRequestId → World κ}

/-! ## The property -/

/-- Events after which a request is over. -/
def isTerminal : InferenceEvent → Bool
  | .output _ => false
  | _ => true

/-- No event is terminal. -/
def Open (events : List InferenceEvent) : Prop := ∀ event ∈ events, isTerminal event = false

/-- At most one event is terminal, and nothing follows it. -/
def TerminalLast (events : List InferenceEvent) : Prop :=
  ∀ before event after, events = before ++ event :: after → isTerminal event = true → after = []

/-- The external map is the inverse of the union of the other two, which are
disjoint. -/
structure MapsAgree (w : World κ) : Prop where
  inverse : ∀ {x s}, w.schedulerByExternal.get x = some s ↔
    w.active.get s = some x ∨ w.activeDecisions.get s = some x
  disjoint : ∀ {s x}, w.active.get s = some x → w.activeDecisions.get s = none

/-- The id that the engine answers a submission with. -/
def answered : Action κ → Option EngineRequestId
  | .submit _ (.ok request) => some request
  | .submitDecision _ (.ok request) => some request
  | _ => none

theorem Open.terminalLast (h : Open events) : TerminalLast events := by
  rintro before event after rfl hterminal
  have hopen := h event (by simp)
  rw [hterminal] at hopen
  cases hopen

theorem Open.concat_terminalLast (h : Open events) (last : InferenceEvent) :
    TerminalLast (events ++ [last]) := by
  intro before event after heq hterminal
  rcases append_eq_append_iff.mp heq with ⟨mid, hmid, hrest⟩ | ⟨mid, hmid, hrest⟩
  · cases mid with
    | nil => exact (cons.inj hrest).2.symm
    | cons e mid =>
      have hlen := congrArg length hrest
      simp at hlen
  · cases mid with
    | nil => exact (cons.inj hrest).2
    | cons e mid =>
      obtain rfl : event = e := (cons.inj hrest).1
      have hopen := h event (by simp [hmid])
      rw [hterminal] at hopen
      cases hopen

theorem Open.concat (h : Open events) {last : InferenceEvent} (hlast : isTerminal last = false) :
    Open (events ++ [last]) := by
  intro event hevent
  rcases mem_append.mp hevent with hevent | hevent
  · exact h event hevent
  · rwa [mem_singleton.mp hevent]

/-! ## The invariant -/

/-- Requests that may still be sent an event: all of them, but in the error loop
of a failed tick only those it has not reached. -/
def Due : Phase κ → EngineRequestId → Prop
  | .failing remaining _, s => s ∈ remaining
  | _, _ => True

/-- The error loop visits each request once. -/
def VisitsOnce : Phase κ → Prop
  | .failing remaining _ => remaining.Nodup
  | _ => True

structure Settled (w : World κ) : Prop extends MapsAgree w where
  known : ∀ {s x}, w.active.get s = some x ∨ w.activeDecisions.get s = some x → x ∈ w.submitted
  fresh : ∀ {x}, x ∉ w.submitted → stream w x = [] ∧ w.completions x = none
  unanswered : ∀ {s x}, w.active.get s = some x ∨ w.activeDecisions.get s = some x →
    w.completions x = none
  decisionQuiet : ∀ {s x}, w.activeDecisions.get s = some x → stream w x = []
  answeredQuiet : ∀ {x}, w.completions x ≠ none → stream w x = []
  due : ∀ {s x}, w.active.get s = some x → Due w.phase s → Open (stream w x)
  last : ∀ x, TerminalLast (stream w x)
  once : VisitsOnce w.phase

theorem init_settled (capacity : Nat) : Settled (World.init capacity : World κ) where
  inverse := by
    intro x s
    constructor
    · intro h
      cases h
    · intro h
      rcases h with h | h <;> cases h
  disjoint h := by cases h
  known h := by rcases h with h | h <;> cases h
  fresh _ := ⟨rfl, rfl⟩
  unanswered _ := rfl
  decisionQuiet _ := rfl
  answeredQuiet _ := rfl
  due h := by cases h
  last _ := Open.terminalLast fun _ hmem => by cases hmem
  once := trivial

theorem MapsAgree.injective (h : MapsAgree w) {t : EngineRequestId}
    (hs : w.active.get s = some x ∨ w.activeDecisions.get s = some x)
    (ht : w.active.get t = some x ∨ w.activeDecisions.get t = some x) : s = t :=
  some.inj ((h.inverse.mpr hs).symm.trans (h.inverse.mpr ht))

/-! ## Forgetting a request -/

theorem MapsAgree.swap (h : MapsAgree w) :
    MapsAgree { w with active := w.activeDecisions, activeDecisions := w.active } where
  inverse := h.inverse.trans or_comm
  disjoint := by
    intro s x hs
    cases hactive : w.active.get s with
    | none => rfl
    | some y =>
      rw [h.disjoint hactive] at hs
      cases hs

theorem MapsAgree.eraseActive (h : MapsAgree w) (hx : w.active.get s = some x) :
    MapsAgree { w with
      active := w.active.erase s
      schedulerByExternal := w.schedulerByExternal.erase x } := by
  have hother : ∀ {t}, w.activeDecisions.get t = some x → False := by
    intro t ht
    obtain rfl : s = t := h.injective (.inl hx) (.inr ht)
    rw [h.disjoint hx] at ht
    cases ht
  constructor
  · intro y t
    simp only [get_erase]
    by_cases hy : x = y
    · subst hy
      simp only [if_true]
      constructor
      · intro hnone
        cases hnone
      · rintro (ht | ht)
        · split at ht
          · cases ht
          · exact absurd (h.injective (.inl hx) (.inl ht)) ‹_›
        · exact (hother ht).elim
    · simp only [hy, if_false, h.inverse]
      by_cases ht : s = t
      · subst ht
        simp only [if_true, hx, some.injEq, hy, false_or, reduceCtorEq]
      · simp only [ht, if_false]
  · intro t y ht
    rw [get_erase] at ht
    split at ht
    · cases ht
    · exact h.disjoint ht

theorem MapsAgree.forgetActive (h : MapsAgree w) (s : EngineRequestId) :
    MapsAgree (w.forgetActive s) := by
  unfold World.forgetActive
  split
  · exact h
  · exact h.eraseActive ‹_›

theorem MapsAgree.forgetDecision (h : MapsAgree w) (s : EngineRequestId) :
    MapsAgree (w.forgetDecision s) := by
  unfold World.forgetDecision
  split
  · exact h
  · exact (h.swap.eraseActive ‹_›).swap

/-- `w'` retains fewer requests, and has answered at most decisions that `w`
retains. -/
structure Forgets (w w' : World κ) : Prop extends Shrinks w w' where
  decisions : ∀ {s x}, w'.activeDecisions.get s = some x → w.activeDecisions.get s = some x
  completions : ∀ x, w'.completions x = w.completions x ∨ ∃ s, w.activeDecisions.get s = some x

theorem Forgets.refl (w : World κ) : Forgets w w := ⟨.refl w, id, fun _ => .inl rfl⟩

theorem Forgets.trans {u v : World κ} (h : Forgets u v) (h' : Forgets v w) : Forgets u w := by
  refine ⟨h.toShrinks.trans h'.toShrinks, fun hs => h.decisions (h'.decisions hs), fun x => ?_⟩
  rcases h'.completions x with hx | ⟨s, hs⟩
  · rw [hx]
    exact h.completions x
  · exact .inr ⟨s, h.decisions hs⟩

theorem Forgets.foldl (hf : ∀ w s, Forgets w (f w s))
    (requests : List EngineRequestId) (w : World κ) : Forgets w (requests.foldl f w) := by
  induction requests generalizing w with
  | nil => exact Forgets.refl w
  | cons s rest ih => exact (hf w s).trans (ih (f w s))

theorem Forgets.withPhase (h : Forgets w w') (phase : Phase κ) :
    Forgets w { w' with phase := phase } :=
  ⟨h.toShrinks.withPhase phase, h.decisions, h.completions⟩

theorem forgetActive_forgets (w : World κ) (s : EngineRequestId) :
    Forgets w (w.forgetActive s) := by
  refine ⟨forgetActive_shrinks w s, ?_, fun x => .inl ?_⟩
  · unfold World.forgetActive
    split <;> exact id
  · unfold World.forgetActive
    split <;> rfl

theorem forgetDecision_forgets (w : World κ) (s : EngineRequestId) :
    Forgets w (w.forgetDecision s) := by
  refine ⟨forgetDecision_shrinks w s, ?_, fun x => .inl ?_⟩
  · unfold World.forgetDecision
    split
    · exact id
    · intro t x ht
      rw [get_erase] at ht
      split at ht
      · cases ht
      · exact ht
  · unfold World.forgetDecision
    split <;> rfl

theorem answer_forgets (hs : w.activeDecisions.get s = some x) (result : Except Text κ) :
    Forgets w ((w.forgetDecision s).complete x result) := by
  have hforget := forgetDecision_forgets w s
  refine ⟨hforget.toShrinks.trans (complete_shrinks _ x result), ?_, fun y => ?_⟩
  · unfold World.complete
    split <;> exact hforget.decisions
  · unfold World.complete
    split
    · exact hforget.completions y
    · by_cases hy : y = x
      · subst hy
        exact .inr ⟨s, hs⟩
      · simp only [update_of_ne hy]
        exact hforget.completions y

theorem cancelSchedulerRequest_forgets (w : World κ) (s : EngineRequestId) :
    Forgets w (w.cancelSchedulerRequest s) :=
  (forgetActive_forgets w s).trans (forgetDecision_forgets _ s)

theorem failRequest_forgets (message : Text) (w : World κ) (s : EngineRequestId) :
    Forgets w (w.failRequest message s) := by
  unfold World.failRequest
  dsimp only
  split
  · exact forgetActive_forgets w s
  · rename_i x hx
    exact (forgetActive_forgets w s).trans (answer_forgets hx _)

/-- Forgetting keeps the invariant, if the maps still agree and what was answered
is no longer retained. -/
theorem Settled.of_forgets (h : Settled w) (hf : Forgets w w') (hmaps : MapsAgree w')
    (hanswered : ∀ {s x}, w'.active.get s = some x ∨ w'.activeDecisions.get s = some x →
      w'.completions x = w.completions x)
    (hdue : ∀ {s x}, w'.active.get s = some x → Due w'.phase s → Due w.phase s)
    (honce : VisitsOnce w'.phase) : Settled w' := by
  have hstream : ∀ x, stream w' x = stream w x := fun x => by
    rw [stream, stream, hf.received, hf.channels]
  have hretained : ∀ {s x}, w'.active.get s = some x ∨ w'.activeDecisions.get s = some x →
      w.active.get s = some x ∨ w.activeDecisions.get s = some x := fun hs =>
    hs.imp hf.active hf.decisions
  constructor
  · exact hmaps
  · intro s x hs
    rw [hf.submitted]
    exact h.known (hretained hs)
  · intro x hx
    rw [hf.submitted] at hx
    rw [hstream]
    refine ⟨(h.fresh hx).1, ?_⟩
    rcases hf.completions x with hsame | ⟨s, hs⟩
    · rw [hsame]
      exact (h.fresh hx).2
    · exact absurd (h.known (.inr hs)) hx
  · intro s x hs
    rw [hanswered hs]
    exact h.unanswered (hretained hs)
  · intro s x hs
    rw [hstream]
    exact h.decisionQuiet (hf.decisions hs)
  · intro x hx
    rw [hstream]
    rcases hf.completions x with hsame | ⟨s, hs⟩
    · rw [hsame] at hx
      exact h.answeredQuiet hx
    · exact h.decisionQuiet hs
  · intro s x hs hd
    rw [hstream]
    exact h.due (hf.active hs) (hdue hs hd)
  · intro x
    rw [hstream]
    exact h.last x
  · exact honce

theorem Settled.withPhase (h : Settled w)
    (hdue : ∀ {s x}, w.active.get s = some x → Due phase s → Due w.phase s)
    (honce : VisitsOnce phase) : Settled { w with phase := phase } :=
  h.of_forgets ((Forgets.refl w).withPhase phase) ⟨h.inverse, h.disjoint⟩ (fun _ => rfl) hdue honce

theorem forgetActive_phase (w : World κ) (s : EngineRequestId) :
    (w.forgetActive s).phase = w.phase := by
  unfold World.forgetActive
  split <;> rfl

theorem forgetDecision_phase (w : World κ) (s : EngineRequestId) :
    (w.forgetDecision s).phase = w.phase := by
  unfold World.forgetDecision
  split <;> rfl

theorem complete_phase (w : World κ) (x : ActorRequestId) (result : Except Text κ) :
    (w.complete x result).phase = w.phase := by
  unfold World.complete
  split <;> rfl

theorem Settled.forgetActive (h : Settled w) (s : EngineRequestId) :
    Settled (w.forgetActive s) := by
  apply h.of_forgets (forgetActive_forgets w s) (h.toMapsAgree.forgetActive s)
  · intro t x _
    unfold World.forgetActive
    split <;> rfl
  · intro t x _ hd
    rwa [forgetActive_phase] at hd
  · rw [forgetActive_phase]
    exact h.once

theorem Settled.forgetDecision (h : Settled w) (s : EngineRequestId) :
    Settled (w.forgetDecision s) := by
  apply h.of_forgets (forgetDecision_forgets w s) (h.toMapsAgree.forgetDecision s)
  · intro t x _
    unfold World.forgetDecision
    split <;> rfl
  · intro t x _ hd
    rwa [forgetDecision_phase] at hd
  · rw [forgetDecision_phase]
    exact h.once

theorem Settled.cancelSchedulerRequest (h : Settled w) (s : EngineRequestId) :
    Settled (w.cancelSchedulerRequest s) := (h.forgetActive s).forgetDecision s

theorem MapsAgree.forgotten (h : MapsAgree w) (hs : w.activeDecisions.get s = some x)
    {t : EngineRequestId} :
    ¬ ((w.forgetDecision s).active.get t = some x ∨
      (w.forgetDecision s).activeDecisions.get t = some x) := by
  rw [← (h.forgetDecision s).inverse]
  unfold World.forgetDecision
  rw [hs]
  simp

theorem Settled.answer (h : Settled w) (hs : w.activeDecisions.get s = some x)
    (result : Except Text κ) : Settled ((w.forgetDecision s).complete x result) := by
  have hagree := h.toMapsAgree.forgetDecision s
  have hmaps : ((w.forgetDecision s).complete x result).active = (w.forgetDecision s).active ∧
      ((w.forgetDecision s).complete x result).activeDecisions =
        (w.forgetDecision s).activeDecisions ∧
      ((w.forgetDecision s).complete x result).schedulerByExternal =
        (w.forgetDecision s).schedulerByExternal := by
    unfold World.complete
    split <;> exact ⟨rfl, rfl, rfl⟩
  apply h.of_forgets (answer_forgets hs result)
  · constructor
    · rw [hmaps.1, hmaps.2.1, hmaps.2.2]
      exact hagree.inverse
    · rw [hmaps.1, hmaps.2.1]
      exact hagree.disjoint
  · intro t y ht
    rw [hmaps.1, hmaps.2.1] at ht
    have hy : y ≠ x := by
      rintro rfl
      exact h.toMapsAgree.forgotten hs ht
    unfold World.complete
    split
    · unfold World.forgetDecision
      split <;> rfl
    · simp only [update_of_ne hy]
      unfold World.forgetDecision
      split <;> rfl
  · intro t y _ hd
    rwa [complete_phase, forgetDecision_phase] at hd
  · rw [complete_phase, forgetDecision_phase]
    exact h.once

theorem Settled.failRequest (h : Settled w) (message : Text) (s : EngineRequestId) :
    Settled (w.failRequest message s) := by
  unfold World.failRequest
  dsimp only
  split
  · exact h.forgetActive s
  · rename_i x hx
    exact (h.forgetActive s).answer hx _

theorem Settled.foldl (hf : ∀ {w}, Settled w → ∀ s, Settled (f w s)) (h : Settled w)
    (requests : List EngineRequestId) : Settled (requests.foldl f w) := by
  induction requests generalizing w with
  | nil => exact h
  | cons s rest ih => exact ih (hf h s)

/-! ## Sends -/

/-- An event that goes through to a request which is open. A terminal event
leaves the request to no later step. -/
theorem Settled.sent {event : InferenceEvent} (h : Settled w) (hsend : w.send x event = some w')
    (hopen : Open (stream w x)) (hknown : x ∈ w.submitted) (hnone : w.completions x = none)
    (hchat : ∀ s, w.activeDecisions.get s ≠ some x)
    (hterminal : isTerminal event = true → ∀ s, w.active.get s = some x → ¬ Due phase s)
    (hdue : ∀ {s y}, w.active.get s = some y → Due phase s → Due w.phase s)
    (honce : VisitsOnce phase) : Settled { w' with phase := phase } := by
  have happends := appends_of_send hsend phase
  obtain ⟨-, rfl⟩ := send_some hsend
  constructor
  · exact ⟨h.inverse, h.disjoint⟩
  · exact h.known
  · intro y hy
    have hne : y ≠ x := by
      rintro rfl
      exact hy hknown
    rw [(happends.others hne).1]
    exact h.fresh hy
  · exact h.unanswered
  · intro s y hs
    have hne : y ≠ x := by
      rintro rfl
      exact hchat s hs
    rw [(happends.others hne).1]
    exact h.decisionQuiet hs
  · intro y hy
    have hne : y ≠ x := by
      rintro rfl
      exact hy hnone
    rw [(happends.others hne).1]
    exact h.answeredQuiet hy
  · intro s y hs hd
    by_cases hy : y = x
    · subst hy
      rw [happends.self]
      apply hopen.concat
      cases hlast : isTerminal event with
      | false => rfl
      | true => exact absurd hd (hterminal hlast s hs)
    · rw [(happends.others hy).1]
      exact h.due hs (hdue hs hd)
  · intro y
    by_cases hy : y = x
    · subst hy
      rw [happends.self]
      exact hopen.concat_terminalLast event
    · rw [(happends.others hy).1]
      exact h.last y
  · exact honce

theorem Settled.chat_only (h : Settled w) (hs : w.active.get s = some x) (t : EngineRequestId) :
    w.activeDecisions.get t ≠ some x := by
  intro ht
  obtain rfl : s = t := h.toMapsAgree.injective (.inl hs) (.inr ht)
  rw [h.disjoint hs] at ht
  cases ht

theorem Settled.sentOrDropped {event : InferenceEvent} (h : Settled w) (hopen : Open (stream w x))
    (hknown : x ∈ w.submitted) (hnone : w.completions x = none)
    (hchat : ∀ s, w.activeDecisions.get s ≠ some x)
    (hterminal : isTerminal event = true → ∀ s, w.active.get s = some x → ¬ Due phase s)
    (hdue : ∀ {s y}, w.active.get s = some y → Due phase s → Due w.phase s)
    (honce : VisitsOnce phase) : Settled { w.sendOrDrop x event with phase := phase } := by
  unfold World.sendOrDrop
  cases hsend : w.send x event with
  | none => exact h.withPhase hdue honce
  | some w' => exact h.sent hsend hopen hknown hnone hchat hterminal hdue honce

/-! ## The steps of a tick -/

theorem deliverOutput_settled {delta : EngineDelta} (h : Settled w)
    (hphase : w.phase = .delivering d) : Settled (w.deliverOutput delta rest) := by
  have hdue : ∀ {rest : Delivery κ} {s y}, w.active.get s = some y →
      Due (.delivering rest) s → Due w.phase s := by
    intro rest s y _ _
    rw [hphase]
    trivial
  unfold World.deliverOutput
  split
  · exact h.withPhase hdue trivial
  · rename_i x hx
    split
    · rename_i sent hsend
      apply h.sent hsend (h.due hx _) (h.known (.inl hx)) (h.unanswered (.inl hx)) (h.chat_only hx)
        _ hdue trivial
      · rw [hphase]
        trivial
      · intro hterminal
        cases hterminal
    · exact h.withPhase hdue trivial

theorem deliverFinished_settled {finished : EngineFinished} (h : Settled w)
    (hphase : w.phase = .delivering d) : Settled (w.deliverFinished finished rest) := by
  unfold World.deliverFinished
  split
  · refine h.withPhase ?_ trivial
    intro s x _ _
    rw [hphase]
    trivial
  · rename_i x hx
    have hforgot := h.forgetActive finished.requestId
    have hforgets := forgetActive_forgets w finished.requestId
    have hgone : ∀ s, (w.forgetActive finished.requestId).active.get s ≠ some x := by
      intro s hs
      obtain rfl : finished.requestId = s :=
        h.toMapsAgree.injective (.inl hx) (.inl (hforgets.active hs))
      rw [forgetActive_gone] at hs
      cases hs
    apply hforgot.sentOrDropped
    · have hopen := h.due hx (by rw [hphase]; trivial)
      rwa [stream, hforgets.received, hforgets.channels]
    · rw [hforgets.submitted]
      exact h.known (.inl hx)
    · rcases hforgets.completions x with hsame | ⟨s, hs⟩
      · rw [hsame]
        exact h.unanswered (.inl hx)
      · exact absurd hs (h.chat_only hx s)
    · exact fun s hs => h.chat_only hx s (hforgets.decisions hs)
    · exact fun _ s hs => absurd hs (hgone s)
    · intro s y _ _
      rw [forgetActive_phase, hphase]
      trivial
    · trivial

theorem deliverDecision_settled {result : Except Text κ} (h : Settled w)
    (hphase : w.phase = .delivering d) : Settled (w.deliverDecision request result rest) := by
  unfold World.deliverDecision
  split
  · refine h.withPhase ?_ trivial
    intro s x _ _
    rw [hphase]
    trivial
  · rename_i x hx
    refine (h.answer hx result).withPhase ?_ trivial
    intro s y _ _
    rw [complete_phase, forgetDecision_phase, hphase]
    trivial

theorem cancel_foldl_phase (requests : List EngineRequestId) (w : World κ) :
    (requests.foldl World.cancelSchedulerRequest w).phase = w.phase := by
  induction requests generalizing w with
  | nil => rfl
  | cons s rest ih => rw [foldl_cons, ih, cancelSchedulerRequest_phase]

theorem cancelled_settled (h : Settled w) (requests : List EngineRequestId)
    (hdue : ∀ s, Due w.phase s) (honce : VisitsOnce phase) :
    Settled { requests.foldl World.cancelSchedulerRequest w with phase := phase } := by
  apply (Settled.foldl (fun h s => h.cancelSchedulerRequest s) h requests).withPhase _ honce
  intro s x _ _
  rw [cancel_foldl_phase]
  exact hdue s

theorem proceed_settled (h : Settled w) (hphase : w.phase = .delivering d) :
    Settled (w.proceed d) := by
  unfold World.proceed
  split
  · exact deliverOutput_settled h hphase
  · exact deliverFinished_settled h hphase
  · exact deliverDecision_settled h hphase
  · exact deliverDecision_settled h hphase
  · refine cancelled_settled h _ ?_ trivial
    intro s
    rw [hphase]
    trivial

theorem failAll_gone (w : World κ) (message : Text) (s : EngineRequestId) :
    (w.failAll message).active.get s = none := by
  have hgone : ∀ (requests : List EngineRequestId) (w : World κ), s ∈ requests →
      (requests.foldl (World.failRequest message) w).active.get s = none := by
    intro requests
    induction requests with
    | nil =>
      intro w hs
      cases hs
    | cons t rest ih =>
      intro w hs
      rcases mem_cons.mp hs with rfl | hs
      · have hhere : (w.failRequest message s).active.get s = none := by
          cases hget : (w.failRequest message s).active.get s with
          | none => rfl
          | some x =>
            have hforgot : (w.forgetActive s).active.get s = some x := by
              unfold World.failRequest at hget
              dsimp only at hget
              split at hget
              · exact hget
              · rename_i y hy
                exact (answer_forgets hy _).active hget
            rw [forgetActive_gone] at hforgot
            cases hforgot
        cases hget : (foldl (World.failRequest message) w (s :: rest)).active.get s with
        | none => rfl
        | some x =>
          have hbefore := (Forgets.foldl (failRequest_forgets message) rest _).active hget
          rw [hhere] at hbefore
          cases hbefore
      · exact ih _ hs
  cases hget : (w.failAll message).active.get s with
  | none => rfl
  | some x =>
    have hactive := (Forgets.foldl (failRequest_forgets message)
      (w.active.keys ++ w.activeDecisions.keys) w).active hget
    have hkey : s ∈ w.active.keys := mem_keys_iff.mpr (by rw [hactive]; rfl)
    have hnone := hgone _ w (mem_append_left w.activeDecisions.keys hkey)
    rw [World.failAll, hnone] at hget
    cases hget

theorem proceedFailing_settled {message : Text} {remaining : List EngineRequestId} (h : Settled w)
    (hphase : w.phase = .failing remaining message) :
    Settled (w.proceedFailing message remaining) := by
  unfold World.proceedFailing
  split
  · refine (Settled.foldl (fun h s => h.failRequest message s) h _).withPhase ?_ trivial
    intro s x hs _
    have hgone := failAll_gone w message s
    rw [World.failAll, hs] at hgone
    cases hgone
  · rename_i request rest
    have honce : (request :: rest).Nodup := by
      have honce := h.once
      rwa [hphase] at honce
    have hdue : ∀ {s y}, w.active.get s = some y → Due (.failing rest message : Phase κ) s →
        Due w.phase s := by
      intro s y _ hd
      rw [hphase]
      exact mem_cons_of_mem request hd
    split
    · exact h.withPhase hdue (nodup_cons.mp honce).2
    · rename_i x hx
      apply h.sentOrDropped (h.due hx _) (h.known (.inl hx)) (h.unanswered (.inl hx))
        (h.chat_only hx) _ hdue (nodup_cons.mp honce).2
      · rw [hphase]
        exact mem_cons_self
      · -- the request that was just sent its error is behind the loop
        intro _ s hs hd
        obtain rfl : request = s := h.toMapsAgree.injective (.inl hx) (.inl hs)
        exact (nodup_cons.mp honce).1 hd

/-! ## Submissions -/

/-- The requests that the actor retains. -/
def Retained (w : World κ) (s : EngineRequestId) : Prop :=
  (∃ x, w.active.get s = some x) ∨ ∃ x, w.activeDecisions.get s = some x

theorem free_of_not_retained (h : ¬ Retained w s) :
    w.active.get s = none ∧ w.activeDecisions.get s = none := by
  rw [Retained, not_or, not_exists, not_exists] at h
  exact ⟨eq_none_iff_forall_ne_some.mpr h.1, eq_none_iff_forall_ne_some.mpr h.2⟩

theorem MapsAgree.insertActive (h : MapsAgree w) (hfree : ¬ Retained w request)
    (hnew : ∀ {s}, ¬ (w.active.get s = some id ∨ w.activeDecisions.get s = some id)) :
    MapsAgree { w with
      active := w.active.insert request id
      schedulerByExternal := w.schedulerByExternal.insert id request } := by
  obtain ⟨hactive, hdecision⟩ := free_of_not_retained hfree
  constructor
  · intro x s
    simp only [get_insert]
    by_cases hx : id = x
    · subst hx
      by_cases hs : request = s
      · simp [hs]
      · simpa [hs] using hnew
    · by_cases hs : request = s
      · subst hs
        simp [hx, h.inverse, hactive, hdecision]
      · simp only [hx, hs, if_false]
        exact h.inverse
  · intro s x hs
    rw [get_insert] at hs
    split at hs
    · rename_i heq
      rwa [← heq]
    · exact h.disjoint hs

theorem MapsAgree.insertDecision (h : MapsAgree w) (hfree : ¬ Retained w request)
    (hnew : ∀ {s}, ¬ (w.active.get s = some id ∨ w.activeDecisions.get s = some id)) :
    MapsAgree { w with
      activeDecisions := w.activeDecisions.insert request id
      schedulerByExternal := w.schedulerByExternal.insert id request } :=
  (h.swap.insertActive (mt Or.symm hfree) (mt Or.symm hnew)).swap

theorem Settled.withSubmitted (h : Settled w) (id : ActorRequestId) :
    Settled { w with submitted := id :: w.submitted } := by
  refine { h with known := ?_, fresh := ?_ }
  · exact fun hs => mem_cons_of_mem id (h.known hs)
  · exact fun hx => h.fresh fun hmem => hx (mem_cons_of_mem id hmem)

theorem Settled.unused (h : Settled w) (hnew : id ∉ w.submitted) :
    ¬ (w.active.get s = some id ∨ w.activeDecisions.get s = some id) :=
  fun hs => hnew (h.known hs)

theorem sendOrDrop_withSubmitted (w : World κ) (x : ActorRequestId) (event : InferenceEvent)
    (submitted : List ActorRequestId) :
    ({ w with submitted := submitted } : World κ).sendOrDrop x event =
      { w.sendOrDrop x event with submitted := submitted } := by
  simp only [World.sendOrDrop, World.send]
  cases (w.channels x).trySend w.eventCapacity event <;> rfl

theorem sendOrDrop_phase (w : World κ) (x : ActorRequestId) (event : InferenceEvent) :
    (w.sendOrDrop x event).phase = w.phase := by
  simp only [World.sendOrDrop, World.send]
  cases (w.channels x).trySend w.eventCapacity event <;> rfl

variable {answer : Except Text EngineRequestId}

theorem submit_settled (h : Settled w)
    (hnew : id ∉ w.submitted) (hfresh : ∀ {request}, answer = .ok request → ¬ Retained w request) :
    Settled (w.submit id answer) := by
  have hquiet := h.fresh hnew
  cases answer with
  | ok request =>
    have hcases : ∀ {s x}, (w.active.insert request id).get s = some x →
        x = id ∨ w.active.get s = some x := by
      intro s x hs
      rw [get_insert] at hs
      split at hs
      · exact .inl (some.inj hs).symm
      · exact .inr hs
    have hmaps := h.toMapsAgree.insertActive (hfresh rfl) (h.unused hnew)
    refine { h.withSubmitted id with
      inverse := hmaps.inverse, disjoint := hmaps.disjoint, known := ?_, unanswered := ?_, due := ?_ }
    · rintro s x (hs | hs)
      · rcases hcases hs with rfl | hs
        · exact mem_cons_self
        · exact mem_cons_of_mem id (h.known (.inl hs))
      · exact mem_cons_of_mem id (h.known (.inr hs))
    · rintro s x (hs | hs)
      · rcases hcases hs with rfl | hs
        · exact hquiet.2
        · exact h.unanswered (.inl hs)
      · exact h.unanswered (.inr hs)
    · intro s x hs hd
      rcases hcases hs with rfl | hs
      · intro event hevent
        have hempty : event ∈ stream w x := hevent
        rw [hquiet.1] at hempty
        cases hempty
      · exact h.due hs hd
  | error message =>
    have hsent : Settled { ({ w with submitted := id :: w.submitted } : World κ).sendOrDrop id
        (.error message) with phase := w.phase } := by
      apply (h.withSubmitted id).sentOrDropped
      · intro event hevent
        have hempty : event ∈ stream w id := hevent
        rw [hquiet.1] at hempty
        cases hempty
      · exact mem_cons_self
      · exact hquiet.2
      · exact fun s hs => h.unused hnew (.inr hs)
      · exact fun _ s hs => absurd (.inl hs) (h.unused hnew)
      · exact fun _ hd => hd
      · exact h.once
    rw [sendOrDrop_withSubmitted] at hsent
    have heq : w.submit id (.error message) =
        { { w.sendOrDrop id (.error message) with submitted := id :: w.submitted } with
          phase := w.phase } := by
      rw [← sendOrDrop_phase w id (.error message)]
      rfl
    rw [heq]
    exact hsent

theorem submitDecision_settled (h : Settled w)
    (hnew : id ∉ w.submitted) (hfresh : ∀ {request}, answer = .ok request → ¬ Retained w request) :
    Settled (w.submitDecision id answer) := by
  have hquiet := h.fresh hnew
  cases answer with
  | ok request =>
    have hcases : ∀ {s x}, (w.activeDecisions.insert request id).get s = some x →
        x = id ∨ w.activeDecisions.get s = some x := by
      intro s x hs
      rw [get_insert] at hs
      split at hs
      · exact .inl (some.inj hs).symm
      · exact .inr hs
    have hmaps := h.toMapsAgree.insertDecision (hfresh rfl) (h.unused hnew)
    refine { h.withSubmitted id with
      inverse := hmaps.inverse, disjoint := hmaps.disjoint, known := ?_, unanswered := ?_,
      decisionQuiet := ?_ }
    · rintro s x (hs | hs)
      · exact mem_cons_of_mem id (h.known (.inl hs))
      · rcases hcases hs with rfl | hs
        · exact mem_cons_self
        · exact mem_cons_of_mem id (h.known (.inr hs))
    · rintro s x (hs | hs)
      · exact h.unanswered (.inl hs)
      · rcases hcases hs with rfl | hs
        · exact hquiet.2
        · exact h.unanswered (.inr hs)
    · intro s x hs
      rcases hcases hs with rfl | hs
      · exact hquiet.1
      · exact h.decisionQuiet hs
  | error message =>
    unfold World.submitDecision World.complete
    dsimp only
    split
    · exact h.withSubmitted id
    · have hupdate : ∀ {x}, x ≠ id →
          update w.completions id (some (.error message)) x = w.completions x :=
        fun hx => update_of_ne hx _ _
      refine { h.withSubmitted id with fresh := ?_, unanswered := ?_, answeredQuiet := ?_ }
      · intro x hx
        have hne : x ≠ id := by
          rintro rfl
          exact hx mem_cons_self
        refine ⟨(h.fresh fun hmem => hx (mem_cons_of_mem id hmem)).1, ?_⟩
        simp only [hupdate hne]
        exact (h.fresh fun hmem => hx (mem_cons_of_mem id hmem)).2
      · intro s x hs
        have hne : x ≠ id := by
          rintro rfl
          exact h.unused hnew hs
        simp only [hupdate hne]
        exact h.unanswered hs
      · intro x hx
        by_cases hne : x = id
        · subst hne
          exact hquiet.1
        · simp only [hupdate hne] at hx
          exact h.answeredQuiet hx

/-! ## Clients -/

/-- What clients do with their receivers leaves every stream as it is. -/
theorem Settled.of_same_streams (h : Settled w) (hactive : w'.active = w.active)
    (hdecisions : w'.activeDecisions = w.activeDecisions)
    (hexternal : w'.schedulerByExternal = w.schedulerByExternal)
    (hsubmitted : w'.submitted = w.submitted) (hcompletions : w'.completions = w.completions)
    (hphase : w'.phase = w.phase) (hstream : ∀ x, stream w' x = stream w x) : Settled w' := by
  constructor
  · constructor
    · rw [hactive, hdecisions, hexternal]
      exact h.inverse
    · rw [hactive, hdecisions]
      exact h.disjoint
  · rw [hactive, hdecisions, hsubmitted]
    exact h.known
  · simp only [hsubmitted, hstream, hcompletions]
    exact h.fresh
  · rw [hactive, hdecisions, hcompletions]
    exact h.unanswered
  · simp only [hdecisions, hstream]
    exact h.decisionQuiet
  · simp only [hcompletions, hstream]
    exact h.answeredQuiet
  · simp only [hactive, hphase, hstream]
    exact h.due
  · simp only [hstream]
    exact h.last
  · rw [hphase]
    exact h.once

theorem receive_settled (h : Settled w) (hstep : w.receive id = some w') : Settled w' := by
  obtain ⟨event, buffer, hbuffer, rfl⟩ := World.receive_eq_some hstep
  refine h.of_same_streams rfl rfl rfl rfl rfl rfl fun x => ?_
  by_cases hx : x = id
  · subst hx
    simp [stream, hbuffer]
  · simp [stream, update_of_ne hx]

theorem close_settled (h : Settled w) : Settled (w.close id) := by
  refine h.of_same_streams rfl rfl rfl rfl rfl rfl fun x => ?_
  by_cases hx : x = id
  · subst hx
    simp [stream, World.close]
  · simp [stream, World.close, update_of_ne hx]

/-! ## Whole runs -/

/-- The engine answers with an id that is not retained. -/
def AnswersFresh (w : World κ) (action : Action κ) : Prop :=
  ∀ s, answered action = some s → ¬ Retained w s

theorem step_settled {action : Action κ} (h : Settled w) (hfresh : AnswersFresh w action)
    (hstep : w.step action = some w') : Settled w' := by
  cases action with
  | receive id => exact receive_settled h hstep
  | close id =>
    cases hstep
    exact close_settled h
  | submit id answer =>
    obtain ⟨-, hnew, rfl⟩ := World.step_submit hstep
    apply submit_settled h hnew
    rintro request rfl
    exact hfresh request rfl
  | submitDecision id answer =>
    obtain ⟨-, hnew, rfl⟩ := World.step_submitDecision hstep
    apply submitDecision_settled h hnew
    rintro request rfl
    exact hfresh request rfl
  | cancel id =>
    obtain ⟨-, rfl⟩ := World.step_cancel hstep
    split
    · exact h
    · exact h.cancelSchedulerRequest _
  | shutdown =>
    obtain ⟨hphase, rfl⟩ := World.step_shutdown hstep
    refine cancelled_settled h _ ?_ trivial
    rw [hphase]
    exact fun _ => trivial
  | tick answer =>
    obtain ⟨hphase, rfl⟩ := World.step_tick hstep
    have hdue : ∀ s, Due w.phase s := by
      rw [hphase]
      exact fun _ => trivial
    cases answer with
    | ok tick =>
      have hbegun : Settled { w with phase := .delivering ⟨tick.output, tick.finished,
          tick.decisionsFinished, tick.decisionsFailed, []⟩ } :=
        h.withPhase (fun _ _ => hdue _) trivial
      exact hbegun.of_same_streams rfl rfl rfl rfl rfl rfl fun _ => rfl
    | error message => exact h.withPhase (fun _ _ => hdue _) w.active.keys_nodup
  | proceed =>
    obtain ⟨d, hphase, rfl⟩ | ⟨remaining, message, hphase, rfl⟩ := World.step_proceed hstep
    · exact proceed_settled h hphase
    · exact proceedFailing_settled h hphase

/-- A step retains nothing new, and answers at most decisions that were
retained. -/
structure Narrows (w w' : World κ) : Prop where
  retained : ∀ {s}, Retained w' s → Retained w s
  completions : ∀ x, w'.completions x = w.completions x ∨ ∃ s, w.activeDecisions.get s = some x

theorem Forgets.narrows (h : Forgets w w') : Narrows w w' := by
  refine ⟨?_, h.completions⟩
  rintro s (⟨x, hx⟩ | ⟨x, hx⟩)
  · exact .inl ⟨x, h.active hx⟩
  · exact .inr ⟨x, h.decisions hx⟩

theorem Narrows.withSent (h : Narrows w w') (x : ActorRequestId) (event : InferenceEvent)
    (phase : Phase κ) : Narrows w { w'.sendOrDrop x event with phase := phase } := by
  simp only [World.sendOrDrop, World.send]
  cases (w'.channels x).trySend w'.eventCapacity event <;> exact ⟨h.retained, h.completions⟩

theorem proceed_narrows (w : World κ) (d : Delivery κ) : Narrows w (w.proceed d) := by
  have hsame : ∀ phase, Narrows w { w with phase := phase } := fun phase =>
    ((Forgets.refl w).withPhase phase).narrows
  have hdecision : ∀ (request : EngineRequestId) (result : Except Text κ) (rest : Delivery κ),
      Narrows w (w.deliverDecision request result rest) := by
    intro request result rest
    unfold World.deliverDecision
    split
    · exact hsame _
    · rename_i x hx
      exact ((answer_forgets hx result).withPhase _).narrows
  unfold World.proceed
  split
  · unfold World.deliverOutput
    split
    · exact hsame _
    · split
      · rename_i sent hsend
        obtain ⟨-, rfl⟩ := send_some hsend
        exact ⟨fun hs => hs, fun _ => .inl rfl⟩
      · exact hsame _
  · unfold World.deliverFinished
    split
    · exact hsame _
    · exact (forgetActive_forgets w _).narrows.withSent _ _ _
  · exact hdecision _ _ _
  · exact hdecision _ _ _
  · exact ((Forgets.foldl cancelSchedulerRequest_forgets _ w).withPhase _).narrows

theorem proceedFailing_narrows (w : World κ) (message : Text) (remaining : List EngineRequestId) :
    Narrows w (w.proceedFailing message remaining) := by
  unfold World.proceedFailing
  split
  · exact ((Forgets.foldl (failRequest_forgets message) _ w).withPhase _).narrows
  · split
    · exact ((Forgets.refl w).withPhase _).narrows
    · exact (Forgets.refl w).narrows.withSent _ _ _

/-- What a step newly retains is what the engine has just answered, and what it
newly answers was a retained decision or no request yet. -/
theorem step_changes {action : Action κ} (hstep : w.step action = some w') :
    (∀ s, Retained w' s → Retained w s ∨ answered action = some s) ∧
      ∀ x, w'.completions x = w.completions x ∨ (∃ s, w.activeDecisions.get s = some x) ∨
        x ∉ w.submitted := by
  have hnarrow : ∀ {w'}, Narrows w w' →
      (∀ s, Retained w' s → Retained w s ∨ answered action = some s) ∧
        ∀ x, w'.completions x = w.completions x ∨ (∃ s, w.activeDecisions.get s = some x) ∨
          x ∉ w.submitted := fun h =>
    ⟨fun s hs => .inl (h.retained hs), fun x => (h.completions x).imp id .inl⟩
  cases action with
  | receive id =>
    obtain ⟨event, buffer, -, rfl⟩ := World.receive_eq_some hstep
    exact hnarrow ⟨fun hs => hs, fun _ => .inl rfl⟩
  | close id =>
    cases hstep
    exact hnarrow ⟨fun hs => hs, fun _ => .inl rfl⟩
  | submit id answer =>
    obtain ⟨-, -, rfl⟩ := World.step_submit hstep
    cases answer with
    | ok request =>
      refine ⟨?_, fun _ => .inl rfl⟩
      rintro s (⟨x, hx⟩ | hs)
      · by_cases heq : request = s
        · exact .inr (congrArg some heq)
        · rw [World.submit, get_insert_of_ne _ _ (Ne.symm heq)] at hx
          exact .inl (.inl ⟨x, hx⟩)
      · exact .inl (.inr hs)
    | error message =>
      have hsent := (Forgets.refl w).narrows.withSent id (.error message) w.phase
      exact hnarrow ⟨hsent.retained, hsent.completions⟩
  | submitDecision id answer =>
    obtain ⟨-, hnew, rfl⟩ := World.step_submitDecision hstep
    cases answer with
    | ok request =>
      refine ⟨?_, fun _ => .inl rfl⟩
      rintro s (hs | ⟨x, hx⟩)
      · exact .inl (.inl hs)
      · by_cases heq : request = s
        · exact .inr (congrArg some heq)
        · rw [World.submitDecision, get_insert_of_ne _ _ (Ne.symm heq)] at hx
          exact .inl (.inr ⟨x, hx⟩)
    | error message =>
      unfold World.submitDecision World.complete
      dsimp only
      split
      · exact ⟨fun s hs => .inl hs, fun _ => .inl rfl⟩
      · refine ⟨fun s hs => .inl hs, fun x => ?_⟩
        by_cases hx : x = id
        · exact .inr (.inr (hx ▸ hnew))
        · exact .inl (update_of_ne hx _ _)
  | cancel id =>
    obtain ⟨-, rfl⟩ := World.step_cancel hstep
    split
    · exact hnarrow (Forgets.refl w).narrows
    · exact hnarrow (cancelSchedulerRequest_forgets w _).narrows
  | shutdown =>
    obtain ⟨-, rfl⟩ := World.step_shutdown hstep
    exact hnarrow ((Forgets.foldl cancelSchedulerRequest_forgets _ w).withPhase _).narrows
  | tick answer =>
    obtain ⟨-, rfl⟩ := World.step_tick hstep
    cases answer <;> exact hnarrow ⟨fun hs => hs, fun _ => .inl rfl⟩
  | proceed =>
    obtain ⟨d, -, rfl⟩ | ⟨remaining, message, -, rfl⟩ := World.step_proceed hstep
    · exact hnarrow (proceed_narrows w d)
    · exact hnarrow (proceedFailing_narrows w message remaining)

/-- An engine that never answers with the same id twice never answers with one
that is retained. -/
theorem fresh_path (run : Path World.step (fun _ _ => True) w actions w')
    (hdistinct : (actions.filterMap answered).Nodup)
    (hnew : ∀ s ∈ actions.filterMap answered, ¬ Retained w s) :
    Path World.step AnswersFresh w actions w' := by
  induction run with
  | nil w => exact .nil w
  | @cons w v w' action actions allowed taken rest ih =>
    have hfresh : AnswersFresh w action := by
      intro s hs
      exact hnew s (by simp [hs])
    refine .cons hfresh taken (ih ?_ ?_)
    · cases hanswer : answered action with
      | none => rwa [filterMap_cons_none hanswer] at hdistinct
      | some s =>
        rw [filterMap_cons_some hanswer] at hdistinct
        exact (nodup_cons.mp hdistinct).2
    · intro s hs hretained
      rcases (step_changes taken).1 s hretained with hbefore | hanswer
      · apply hnew s _ hbefore
        cases hfirst : answered action with
        | none => rwa [filterMap_cons_none hfirst]
        | some t =>
          rw [filterMap_cons_some hfirst]
          exact mem_cons_of_mem t hs
      · rw [filterMap_cons_some hanswer] at hdistinct
        exact (nodup_cons.mp hdistinct).1 hs

/-- A decision that has been answered keeps its answer. -/
theorem completions_kept (run : Path World.step AnswersFresh w actions w') (h : Settled w)
    {result : Except Text κ} (hresult : w.completions x = some result) :
    w'.completions x = some result := by
  induction run with
  | nil w => exact hresult
  | cons allowed taken rest ih =>
    apply ih (step_settled h allowed taken)
    rcases (step_changes taken).2 x with hsame | ⟨s, hs⟩ | hnew
    · rw [hsame]
      exact hresult
    · rw [h.unanswered (.inr hs)] at hresult
      cases hresult
    · rw [(h.fresh hnew).2] at hresult
      cases hresult

theorem retained_answered (run : Path World.step (fun _ _ => True) w actions w')
    (hs : Retained w' s) : Retained w s ∨ s ∈ actions.filterMap answered := by
  induction run with
  | nil w => exact .inl hs
  | @cons w v w' action actions allowed taken rest ih =>
    rw [mem_filterMap]
    rcases ih hs with hs | hs
    · rcases (step_changes taken).1 s hs with hbefore | hanswer
      · exact .inl hbefore
      · exact .inr ⟨action, mem_cons_self, hanswer⟩
    · obtain ⟨later, hmem, hanswer⟩ := mem_filterMap.mp hs
      exact .inr ⟨later, mem_cons_of_mem action hmem, hanswer⟩

/-- Every run of the actor and its clients, with an engine that never reuses an
id, stopped at two of its states: in the later one the external map is the
inverse of the union of the disjoint chat and decision maps, no channel holds an
event behind a terminal one, an answered decision has been sent no event, and a
decision that had been answered keeps that answer. -/
theorem maps_agree_and_one_terminal_event {capacity : Nat} {actions later : List (Action κ)}
    {w w' : World κ} (run : Path World.step (fun _ _ => True) (World.init capacity) actions w)
    (more : Path World.step (fun _ _ => True) w later w')
    (never_reused : ((actions ++ later).filterMap answered).Nodup) :
    MapsAgree w' ∧ (∀ x, TerminalLast (stream w' x)) ∧
      (∀ x, w'.completions x ≠ none → stream w' x = []) ∧
      ∀ x result, w.completions x = some result → w'.completions x = some result := by
  have hempty : ∀ s, ¬ Retained (World.init capacity : World κ) s := by
    rintro s (⟨x, hx⟩ | ⟨x, hx⟩) <;> cases hx
  rw [filterMap_append, nodup_append] at never_reused
  obtain ⟨hactions, hlater, hapart⟩ := never_reused
  have hrun := fresh_path run hactions fun s _ => hempty s
  have hmore := fresh_path more hlater fun s hs hretained => by
    rcases retained_answered run hretained with hinit | hbefore
    · exact hempty s hinit
    · exact hapart s hbefore s hs rfl
  have hsettled : Settled w := hrun.invariant step_settled (init_settled capacity)
  have hsettled' : Settled w' := hmore.invariant step_settled hsettled
  exact ⟨hsettled'.toMapsAgree, hsettled'.last, fun x => hsettled'.answeredQuiet,
    fun x result => completions_kept hmore hsettled⟩

/-- A chat request and a decision that a failed tick ends. -/
def failedTick : List (Action Unit) :=
  [.submit 0 (.ok 7), .submitDecision 1 (.ok 8), .tick (.error "lost".toList), .proceed, .proceed]

theorem failed_tick_then_submit :
    ∃ w w' : World Unit, w.completions 1 = some (.error "lost".toList) ∧
      w'.completions 1 = some (.error "lost".toList) ∧
      MapsAgree w' ∧ w'.schedulerByExternal.get 2 = some 9 ∧ TerminalLast (stream w' 0) := by
  have hrun : ∃ w : World Unit,
      Path World.step (fun _ _ => True) (World.init 4) failedTick w ∧
        w.completions 1 = some (.error "lost".toList) ∧
        ∃ w', Path World.step (fun _ _ => True) w [.submit 2 (.ok 9)] w' ∧
          w'.schedulerByExternal.get 2 = some 9 :=
    ⟨_, .cons trivial rfl (.cons trivial rfl (.cons trivial rfl (.cons trivial rfl
      (.cons trivial rfl (.nil _))))), rfl, _, .cons trivial rfl (.nil _), rfl⟩
  obtain ⟨w, hw, hanswer, w', hw', hmapped⟩ := hrun
  obtain ⟨hmaps, hlast, -, hkept⟩ := maps_agree_and_one_terminal_event hw hw' (by decide)
  exact ⟨w, w', hanswer, hkept 1 _ hanswer, hmaps, hmapped, hlast 0⟩

end Eider.Guarantees.ActorMaps
