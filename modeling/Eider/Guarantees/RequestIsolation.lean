import Mathlib.Data.List.Dedup
import Mathlib.Data.List.Sort
import Eider.Lib.Run
import Eider.Source.ServingActor
import Eider.Guarantees.ServingIsolation

/-!
What one request's output can do to the others, through the service and the
actor. Two runs are taken side by side. They make the same steps, with reports
that differ in the tokens of one request only, and each handles the events of
that request on its own.

A tick of the service that cannot decode the output of one request fails as a
whole, and the actor then fails every request (`malformed_call_fails_others`).
As long as the output decodes, the other requests receive the same in both runs
(`others_receive_the_same`).
-/
namespace Eider.Guarantees.RequestIsolation
open Lib Source CallIds ServingTick ServingIsolation List BTreeMap Option

variable {δ κ : Type}
variable {v w : World κ} {event event' : InferenceEvent} {x : ActorRequestId} {v' : World κ}
variable {q : EngineRequestId} {xs ys : List EngineRequestId} {d e : Delivery κ} {w' : World κ}
variable {s t : ChatService δ} {a b a' b' : ServingActor δ κ}

/-! ## What two worlds have in common -/

/-- An event without call identities. -/
def anonymousEvent : InferenceEvent → InferenceEvent
  | .output event => .output (anonymous event)
  | event => event

def SameReceived (xs ys : List InferenceEvent) : Prop :=
  xs.map anonymousEvent = ys.map anonymousEvent

/-- What the loop is doing. -/
inductive Mode where
  | serving
  | failing (message : Text)
  | stopped

/-- What the loop still owes to the requests other than `r`. -/
structure Owed (κ : Type) where
  mode : Mode
  output : List (EngineRequestId × ChatOutputEvent)
  finished : List EngineFinished
  decisionsFinished : List (EngineDecisionFinished κ)
  decisionsFailed : List EngineDecisionFailed
  disconnected : EngineRequestId → Prop
  remaining : List EngineRequestId

variable (r : EngineRequestId)

/-- Requests other than `r` in a list. -/
def requestsOff (requests : List EngineRequestId) : List EngineRequestId :=
  requests.filter fun q => q ≠ r

def owed : Phase κ → Owed κ
  | .idle => ⟨.serving, [], [], [], [], fun _ => False, []⟩
  | .delivering d => ⟨.serving, deltasOff r d.output, finishedOff r d.finished,
      d.decisionsFinished, d.decisionsFailed, fun q => q ∈ requestsOff r d.disconnected, []⟩
  | .failing remaining message =>
    ⟨.failing message, [], [], [], [], fun _ => False, requestsOff r remaining⟩
  | .stopped => ⟨.stopped, [], [], [], [], fun _ => False, []⟩

/-- Channels with the same content. -/
def SameChannel (c d : Channel) : Prop := c.closed = d.closed ∧ SameReceived c.buffer d.buffer

/-- Worlds that agree on everything but the request `r` of the client `p`. -/
structure SameWorld (r : EngineRequestId) (p : ActorRequestId) (v w : World κ) : Prop where
  capacity : v.eventCapacity = w.eventCapacity
  active : ∀ q, q ≠ r → v.active.get q = w.active.get q
  decisions : v.activeDecisions = w.activeDecisions
  external : ∀ x, x ≠ p → v.schedulerByExternal.get x = w.schedulerByExternal.get x
  phase : owed r v.phase = owed r w.phase
  channels : ∀ x, x ≠ p → SameChannel (v.channels x) (w.channels x)
  completions : v.completions = w.completions
  closed : ∀ x, x ≠ p → v.completionClosed x = w.completionClosed x
  submitted : v.submitted = w.submitted
  received : ∀ x, x ≠ p → SameReceived (v.received x) (w.received x)

/-- `r` is the request of the client `p`, and of no other. -/
structure Owns (r : EngineRequestId) (p : ActorRequestId) (w : World κ) : Prop where
  active : ∀ {q x}, w.active.get q = some x → (q = r ↔ x = p)
  external : ∀ {q x}, w.schedulerByExternal.get x = some q → (q = r ↔ x = p)
  decisions : ∀ {q x}, w.activeDecisions.get q = some x → q ≠ r ∧ x ≠ p

theorem SameWorld.refl (p : ActorRequestId) (w : World κ) : SameWorld r p w w where
  capacity := rfl
  active _ _ := rfl
  decisions := rfl
  external _ _ := rfl
  phase := rfl
  channels _ _ := ⟨rfl, rfl⟩
  completions := rfl
  closed _ _ := rfl
  submitted := rfl
  received _ _ := rfl

variable {r : EngineRequestId} {p : ActorRequestId}

section
variable (h : SameWorld r p v w) {f : World κ → EngineRequestId → World κ}
include h

theorem SameWorld.symm : SameWorld r p w v where
  capacity := h.capacity.symm
  active q hq := (h.active q hq).symm
  decisions := h.decisions.symm
  external x hx := (h.external x hx).symm
  phase := h.phase.symm
  channels x hx := ⟨(h.channels x hx).1.symm, (h.channels x hx).2.symm⟩
  completions := h.completions.symm
  closed x hx := (h.closed x hx).symm
  submitted := h.submitted.symm
  received x hx := (h.received x hx).symm

omit h in
theorem SameWorld.trans {u : World κ} (h : SameWorld r p u v)
    (h' : SameWorld r p v w) : SameWorld r p u w where
  capacity := h.capacity.trans h'.capacity
  active q hq := (h.active q hq).trans (h'.active q hq)
  decisions := h.decisions.trans h'.decisions
  external x hx := (h.external x hx).trans (h'.external x hx)
  phase := h.phase.trans h'.phase
  channels x hx := ⟨(h.channels x hx).1.trans (h'.channels x hx).1,
    (h.channels x hx).2.trans (h'.channels x hx).2⟩
  completions := h.completions.trans h'.completions
  closed x hx := (h.closed x hx).trans (h'.closed x hx)
  submitted := h.submitted.trans h'.submitted
  received x hx := (h.received x hx).trans (h'.received x hx)

theorem SameWorld.withPhase {phase phase' : Phase κ} (hphase : owed r phase = owed r phase') :
    SameWorld r p { v with phase := phase } { w with phase := phase' } :=
  { h with phase := hphase }

theorem SameWorld.movedOn {phase : Phase κ} (hphase : owed r v.phase = owed r phase) :
    SameWorld r p v { w with phase := phase } :=
  { h with phase := hphase }

omit h in
theorem Owns.withPhase (h : Owns r p w) (phase : Phase κ) : Owns r p { w with phase := phase } :=
  ⟨h.active, h.external, h.decisions⟩

/-! ## Sending -/

omit h in
theorem trySend_same {capacity : Nat} {c d : Channel} (h : SameChannel c d)
    (hevent : anonymousEvent event = anonymousEvent event') :
    Option.Rel SameChannel (c.trySend capacity event) (d.trySend capacity event') := by
  have hlength : c.buffer.length = d.buffer.length := by
    have hmap := congrArg length h.2
    simpa using hmap
  unfold Channel.trySend
  rw [h.1, hlength]
  split
  · exact .none
  · refine .some ⟨rfl, ?_⟩
    have hbuffer := h.2
    unfold SameReceived at hbuffer ⊢
    rw [map_append, map_append, hbuffer, map_singleton, map_singleton, hevent]

theorem send_same (hx : x ≠ p) (hevent : anonymousEvent event = anonymousEvent event') :
    Option.Rel (SameWorld r p) (v.send x event) (w.send x event') := by
  have hrel : Option.Rel SameChannel ((v.channels x).trySend w.eventCapacity event)
      ((w.channels x).trySend w.eventCapacity event') := trySend_same (h.channels x hx) hevent
  unfold World.send
  rw [h.capacity]
  generalize (v.channels x).trySend w.eventCapacity event = o,
    (w.channels x).trySend w.eventCapacity event' = o' at hrel
  cases hrel with
  | none => exact .none
  | @some c d hchannel =>
    refine .some { h with capacity := rfl, channels := fun y hy => ?_ }
    by_cases hyx : y = x
    · subst hyx
      simp only [Function.update_self]
      exact hchannel
    · simp only [Function.update_of_ne hyx]
      exact h.channels y hy

omit h in
theorem send_own (h : v.send p event = some v') : SameWorld r p v v' := by
  obtain ⟨c, -, rfl⟩ := map_eq_some_iff.mp h
  refine { SameWorld.refl r p v with channels := fun y hy => ?_ }
  simp only [Function.update_of_ne hy]
  exact ⟨rfl, rfl⟩

omit h in
theorem send_owns (hown : Owns r p v) (h : v.send x event = some v') : Owns r p v' := by
  obtain ⟨c, -, rfl⟩ := map_eq_some_iff.mp h
  exact ⟨hown.active, hown.external, hown.decisions⟩

theorem sendOrDrop_same (hx : x ≠ p) (hevent : anonymousEvent event = anonymousEvent event') :
    SameWorld r p (v.sendOrDrop x event) (w.sendOrDrop x event') := by
  have hrel := send_same h hx hevent
  unfold World.sendOrDrop
  generalize v.send x event = o, w.send x event' = o' at hrel
  cases hrel with
  | none => exact h
  | some hsent => exact hsent

omit h in
theorem sendOrDrop_own (r : EngineRequestId) (p : ActorRequestId) (v : World κ)
    (event : InferenceEvent) : SameWorld r p v (v.sendOrDrop p event) := by
  unfold World.sendOrDrop
  cases hsend : v.send p event with
  | none => exact .refl r p v
  | some v' => exact send_own hsend

omit h in
theorem sendOrDrop_owns (hown : Owns r p v) (x : ActorRequestId)
    (event : InferenceEvent) : Owns r p (v.sendOrDrop x event) := by
  unfold World.sendOrDrop
  cases hsend : v.send x event with
  | none => exact hown
  | some v' => exact send_owns hown hsend

theorem complete_same (hx : x ≠ p) (result : Except Text κ) :
    SameWorld r p (v.complete x result) (w.complete x result) := by
  unfold World.complete
  rw [h.closed x hx, h.completions]
  split
  · exact h
  · exact { h with capacity := h.capacity, completions := rfl }

omit h in
theorem complete_owns (hown : Owns r p w) (x : ActorRequestId)
    (result : Except Text κ) : Owns r p (w.complete x result) := by
  unfold World.complete
  split
  · exact hown
  · exact ⟨hown.active, hown.external, hown.decisions⟩

/-! ## Forgetting requests -/

theorem forgetActive_same (hq : q ≠ r) : SameWorld r p (v.forgetActive q) (w.forgetActive q) := by
  unfold World.forgetActive
  rw [h.active q hq]
  split
  · exact h
  · refine { h with capacity := h.capacity, active := fun s hs => ?_, external := fun x hx => ?_ }
    · simp only [get_erase, h.active s hs]
    · simp only [get_erase, h.external x hx]

omit h in
theorem forgetActive_own (hown : Owns r p v) : SameWorld r p v (v.forgetActive r) := by
  unfold World.forgetActive
  split
  · exact .refl r p v
  · rename_i x hget
    obtain rfl : x = p := (hown.active hget).mp rfl
    refine { SameWorld.refl r x v with active := fun s hs => ?_, external := fun y hy => ?_ }
    · exact (get_erase_of_ne _ hs).symm
    · exact (get_erase_of_ne _ hy).symm

omit h in
theorem forgetActive_owns (hown : Owns r p w)
    (q : EngineRequestId) : Owns r p (w.forgetActive q) := by
  unfold World.forgetActive
  split
  · exact hown
  · refine ⟨fun {s x} hs => ?_, fun {s x} hs => ?_, hown.decisions⟩
    · rw [get_erase] at hs
      split at hs
      · cases hs
      · exact hown.active hs
    · rw [get_erase] at hs
      split at hs
      · cases hs
      · exact hown.external hs

theorem forgetDecision_same : SameWorld r p (v.forgetDecision q) (w.forgetDecision q) := by
  unfold World.forgetDecision
  rw [h.decisions]
  split
  · exact h
  · refine { h with capacity := h.capacity, decisions := rfl, external := fun x hx => ?_ }
    simp only [get_erase, h.external x hx]

omit h in
theorem forgetDecision_own (hown : Owns r p v) : v.forgetDecision r = v := by
  unfold World.forgetDecision
  split
  · rfl
  · rename_i x hget
    exact absurd rfl (hown.decisions hget).1

omit h in
theorem forgetDecision_owns (hown : Owns r p w)
    (q : EngineRequestId) : Owns r p (w.forgetDecision q) := by
  unfold World.forgetDecision
  split
  · exact hown
  · refine ⟨hown.active, fun {s x} hs => ?_, fun {s x} hs => ?_⟩
    · rw [get_erase] at hs
      split at hs
      · cases hs
      · exact hown.external hs
    · rw [get_erase] at hs
      split at hs
      · cases hs
      · exact hown.decisions hs

theorem cancel_same
    (hq : q ≠ r) : SameWorld r p (v.cancelSchedulerRequest q) (w.cancelSchedulerRequest q) :=
  forgetDecision_same (forgetActive_same h hq)

omit h in
theorem cancel_own (hown : Owns r p v) : SameWorld r p v (v.cancelSchedulerRequest r) := by
  unfold World.cancelSchedulerRequest
  rw [forgetDecision_own (forgetActive_owns hown r)]
  exact forgetActive_own hown

omit h in
theorem cancel_owns (hown : Owns r p w)
    (q : EngineRequestId) : Owns r p (w.cancelSchedulerRequest q) :=
  forgetDecision_owns (forgetActive_owns hown q) q

theorem failRequest_same (hown : Owns r p v) (hq : q ≠ r) (message : Text) :
    SameWorld r p (v.failRequest message q) (w.failRequest message q) := by
  have hforget := forgetActive_same h hq
  simp only [World.failRequest]
  rw [hforget.decisions]
  cases hget : (w.forgetActive q).activeDecisions.get q with
  | none => exact hforget
  | some x =>
    have hx : x ≠ p := by
      rw [← hforget.decisions] at hget
      exact ((forgetActive_owns hown q).decisions hget).2
    exact complete_same (forgetDecision_same hforget) hx _

omit h in
theorem failRequest_own (hown : Owns r p v)
    (message : Text) : SameWorld r p v (v.failRequest message r) := by
  simp only [World.failRequest]
  cases hget : (v.forgetActive r).activeDecisions.get r with
  | none => exact forgetActive_own hown
  | some x => exact absurd rfl ((forgetActive_owns hown r).decisions hget).1

omit h in
theorem failRequest_owns (hown : Owns r p w) (message : Text)
    (q : EngineRequestId) : Owns r p (w.failRequest message q) := by
  simp only [World.failRequest]
  split
  · exact forgetActive_owns hown q
  · exact complete_owns (forgetDecision_owns (forgetActive_owns hown q) q) _ _

omit h in
theorem foldl_same
    (same : ∀ {v w q}, SameWorld r p v w → Owns r p v → q ≠ r → SameWorld r p (f v q) (f w q))
    (own : ∀ {v}, Owns r p v → SameWorld r p v (f v r))
    (owns : ∀ {v} q, Owns r p v → Owns r p (f v q)) (hoff : requestsOff r xs = requestsOff r ys)
    (h : SameWorld r p v w) (hv : Owns r p v) (hw : Owns r p w) :
    SameWorld r p (xs.foldl f v) (ys.foldl f w) := by
  have hone : ∀ (zs : List EngineRequestId) {v w : World κ}, SameWorld r p v w → Owns r p v →
      Owns r p w → SameWorld r p (zs.foldl f v) ((requestsOff r zs).foldl f w) := by
    intro zs
    induction zs with
    | nil =>
      intro v w h _ _
      exact h
    | cons q zs ih =>
      intro v w h hv hw
      by_cases hq : q = r
      · subst hq
        rw [show requestsOff q (q :: zs) = requestsOff q zs by simp [requestsOff]]
        exact ih ((own hv).symm.trans h) (owns q hv) hw
      · rw [show requestsOff r (q :: zs) = q :: requestsOff r zs by simp [requestsOff, hq]]
        exact ih (same h hv hq) (owns q hv) (owns q hw)
  have hleft := hone xs h hv hw
  have hright := hone ys (.refl r p w) hw hw
  rw [hoff] at hleft
  exact hleft.trans hright.symm

omit h in
theorem foldl_owns (owns : ∀ {v} q, Owns r p v → Owns r p (f v q)) (xs : List EngineRequestId)
    (hv : Owns r p v) : Owns r p (xs.foldl f v) := by
  induction xs generalizing v with
  | nil => exact hv
  | cons q xs ih => exact ih (owns q hv)

theorem active_off : requestsOff r v.active.keys = requestsOff r w.active.keys := by
  have herase : v.active.erase r = w.active.erase r := by
    apply BTreeMap.ext_get
    intro q
    by_cases hq : q = r
    · rw [hq, BTreeMap.get_erase_self, BTreeMap.get_erase_self]
    · rw [get_erase_of_ne _ hq, get_erase_of_ne _ hq, h.active q hq]
  have hkeys := congrArg BTreeMap.keys herase
  rwa [keys_erase, keys_erase] at hkeys

theorem retained_off :
    requestsOff r (ServingActor.retained v) = requestsOff r (ServingActor.retained w) := by
  have hkeys := active_off h
  unfold requestsOff at hkeys
  simp only [ServingActor.retained, requestsOff, filter_append, hkeys, h.decisions]

section
variable (hv : Owns r p v)
include hv

theorem disconnected_off (hrefused : ∀ q, q ∈ requestsOff r xs ↔ q ∈ requestsOff r ys) :
    requestsOff r (ServingActor.disconnected v xs) =
      requestsOff r (ServingActor.disconnected w ys) := by
  -- Both lists are sorted without repetition, so their members decide.
  have hsorted : ∀ l : List EngineRequestId, (requestsOff r l.mergeSort.dedup).Pairwise (· ≤ ·) := by
    intro l
    have hbool : l.mergeSort.Pairwise fun a b => decide (a ≤ b) = true :=
      pairwise_mergeSort (by simpa using fun a b c => Nat.le_trans)
        (by simpa using Nat.le_total) l
    have hsort : l.mergeSort.Pairwise (· ≤ ·) := hbool.imp of_decide_eq_true
    exact (hsort.sublist (dedup_sublist _)).sublist filter_sublist
  have hnodup : ∀ l : List EngineRequestId, (requestsOff r l.mergeSort.dedup).Nodup := fun l =>
    (nodup_dedup _).filter _
  apply List.Perm.eq_of_pairwise _ (hsorted _) (hsorted _)
  · rw [perm_ext_iff_of_nodup (hnodup _) (hnodup _)]
    intro q
    have hclosed : (v.activeDecisions.entries.filter fun e => v.completionClosed e.2) =
        w.activeDecisions.entries.filter fun e => w.completionClosed e.2 := by
      rw [← h.decisions]
      apply filter_congr
      intro e he
      exact h.closed _ (hv.decisions (mem_entries_iff.mp he)).2
    have hq := hrefused q
    simp only [requestsOff, mem_filter, decide_eq_true_eq] at hq
    simp only [requestsOff, mem_filter, mem_dedup, mem_mergeSort, mem_append,
      decide_eq_true_eq, hclosed]
    tauto
  · intro a b _ _ hab hba
    exact Nat.le_antisymm hab hba

/-! ## The loops of the actor -/

/-- Deliveries that hold the same for the other requests. -/
structure SameDelivery (r : EngineRequestId) (d e : Delivery κ) : Prop where
  output : deltasOff r d.output = deltasOff r e.output
  finished : finishedOff r d.finished = finishedOff r e.finished
  decisionsFinished : d.decisionsFinished = e.decisionsFinished
  decisionsFailed : d.decisionsFailed = e.decisionsFailed
  disconnected : ∀ q, q ∈ requestsOff r d.disconnected ↔ q ∈ requestsOff r e.disconnected

omit hv in
omit h in
theorem owed_delivering_iff :
    owed r (.delivering d) = owed r (.delivering e) ↔ SameDelivery r d e := by
  simp only [owed, Owed.mk.injEq, true_and, and_true]
  constructor
  · rintro ⟨houtput, hfinished, hdone, hfailed, hdisconnected⟩
    exact ⟨houtput, hfinished, hdone, hfailed, fun q => iff_of_eq (congrFun hdisconnected q)⟩
  · intro h
    exact ⟨h.output, h.finished, h.decisionsFinished, h.decisionsFailed,
      funext fun q => propext (h.disconnected q)⟩

/-- The next entry that the loop handles is one of `r`. -/
def NextIsOwn (r : EngineRequestId) : Phase κ → Prop
  | .delivering ⟨delta :: _, _, _, _, _⟩ => delta.requestId = r
  | .delivering ⟨[], record :: _, _, _, _⟩ => record.requestId = r
  | .failing (q :: _) _ => q = r
  | _ => False

theorem deliverOutput_same {x y : EngineDelta}
    (hx : x.requestId ≠ r) (hid : x.requestId = y.requestId)
    (hevent : anonymous x.event = anonymous y.event)
    (hrest : SameDelivery r d e) : SameWorld r p (v.deliverOutput x d) (w.deliverOutput y e) := by
  unfold World.deliverOutput
  rw [h.active _ hx, ← hid]
  cases hget : w.active.get x.requestId with
  | none => exact h.withPhase (owed_delivering_iff.mpr hrest)
  | some id =>
    have hidp : id ≠ p := by
      rw [← h.active _ hx] at hget
      exact fun heq => hx ((hv.active hget).mpr heq)
    have hrel : Option.Rel (SameWorld r p) (v.send id (.output x.event))
        (w.send id (.output y.event)) :=
      send_same h hidp (congrArg InferenceEvent.output hevent)
    simp only
    generalize v.send id (.output x.event) = o, w.send id (.output y.event) = o' at hrel
    cases hrel with
    | some hsent => exact hsent.withPhase (owed_delivering_iff.mpr hrest)
    | none =>
      refine h.withPhase (owed_delivering_iff.mpr { hrest with disconnected := fun q => ?_ })
      have hq := hrest.disconnected q
      simp only [requestsOff, filter_append, mem_append] at hq ⊢
      rw [hq]

omit h in
theorem deliverOutput_own {x : EngineDelta} (hx : x.requestId = r)
    (hphase : v.phase = .delivering e)
    (hrest : SameDelivery r e d) : SameWorld r p v (v.deliverOutput x d) := by
  have howed : owed r v.phase = owed r (.delivering d) := by
    rw [hphase]
    exact owed_delivering_iff.mpr hrest
  unfold World.deliverOutput
  split
  · exact (SameWorld.refl r p v).movedOn howed
  · rename_i id hget
    obtain rfl : id = p := (hv.active hget).mp hx
    split
    · rename_i sent hsend
      exact (send_own hsend).movedOn howed
    · refine (SameWorld.refl r id v).movedOn ?_
      rw [hphase]
      refine owed_delivering_iff.mpr { hrest with disconnected := fun q => ?_ }
      rw [hrest.disconnected q, hx]
      simp [requestsOff]

omit h in
theorem deliverOutput_owns (x : EngineDelta) (d : Delivery κ) : Owns r p (v.deliverOutput x d) := by
  unfold World.deliverOutput
  split
  · exact hv.withPhase _
  · split
    · rename_i hsend
      exact (send_owns hv hsend).withPhase _
    · exact hv.withPhase _

theorem deliverFinished_same {x : EngineFinished}
    (hx : x.requestId ≠ r) (hrest : SameDelivery r d e) :
    SameWorld r p (v.deliverFinished x d) (w.deliverFinished x e) := by
  unfold World.deliverFinished
  rw [h.active _ hx]
  cases hget : w.active.get x.requestId with
  | none => exact h.withPhase (owed_delivering_iff.mpr hrest)
  | some id =>
    have hidp : id ≠ p := by
      rw [← h.active _ hx] at hget
      exact fun heq => hx ((hv.active hget).mpr heq)
    exact (sendOrDrop_same (forgetActive_same h hx) hidp rfl).withPhase
      (owed_delivering_iff.mpr hrest)

omit h in
theorem deliverFinished_own {x : EngineFinished} (hx : x.requestId = r)
    (hphase : v.phase = .delivering e)
    (hrest : SameDelivery r e d) : SameWorld r p v (v.deliverFinished x d) := by
  have howed : owed r v.phase = owed r (.delivering d) := by
    rw [hphase]
    exact owed_delivering_iff.mpr hrest
  unfold World.deliverFinished
  split
  · exact (SameWorld.refl r p v).movedOn howed
  · rename_i id hget
    obtain rfl : id = p := (hv.active hget).mp hx
    rw [hx]
    exact ((forgetActive_own hv).trans (sendOrDrop_own r id _ _)).movedOn howed

omit h in
theorem deliverFinished_owns (x : EngineFinished)
    (d : Delivery κ) : Owns r p (v.deliverFinished x d) := by
  unfold World.deliverFinished
  split
  · exact hv.withPhase _
  · exact (sendOrDrop_owns (forgetActive_owns hv _) _ _).withPhase _

theorem deliverDecision_same {result : Except Text κ} (hrest : SameDelivery r d e) :
    SameWorld r p (v.deliverDecision q result d) (w.deliverDecision q result e) := by
  have hkey : v.activeDecisions.get q = w.activeDecisions.get q := by rw [h.decisions]
  unfold World.deliverDecision
  rw [hkey]
  cases hget : w.activeDecisions.get q with
  | none => exact h.withPhase (owed_delivering_iff.mpr hrest)
  | some id =>
    have hid : id ≠ p := (hv.decisions (hkey.trans hget)).2
    exact (complete_same (forgetDecision_same h) hid result).withPhase
      (owed_delivering_iff.mpr hrest)

omit h in
theorem deliverDecision_owns (q : EngineRequestId) (result : Except Text κ) (d : Delivery κ) :
    Owns r p (v.deliverDecision q result d) := by
  unfold World.deliverDecision
  split
  · exact hv.withPhase _
  · exact (complete_owns (forgetDecision_owns hv _) _ _).withPhase _

theorem cancelDisconnected_same (hw : Owns r p w)
    (hrefused : ∀ q, q ∈ requestsOff r xs ↔ q ∈ requestsOff r ys) :
    SameWorld r p (v.cancelDisconnected xs) (w.cancelDisconnected ys) :=
  (foldl_same (f := World.cancelSchedulerRequest) (fun h _ hq => cancel_same h hq) cancel_own
    (fun q h => cancel_owns h q) (disconnected_off h hv hrefused) h hv hw).withPhase rfl

omit h in
theorem cancelDisconnected_owns (xs : List EngineRequestId) : Owns r p (v.cancelDisconnected xs) :=
  (foldl_owns (f := World.cancelSchedulerRequest) (fun q h => cancel_owns h q) _ hv).withPhase _

omit h in
theorem proceed_owns (d : Delivery κ) : Owns r p (v.proceed d) := by
  unfold World.proceed
  split
  · exact deliverOutput_owns hv _ _
  · exact deliverFinished_owns hv _ _
  · exact deliverDecision_owns hv _ _ _
  · exact deliverDecision_owns hv _ _ _
  · exact cancelDisconnected_owns hv _

omit h in
theorem proceedFailing_owns (message : Text) (remaining : List EngineRequestId) :
    Owns r p (v.proceedFailing message remaining) := by
  unfold World.proceedFailing
  split
  · exact (foldl_owns (f := World.failRequest message) (fun q h => failRequest_owns h message q) _
      hv).withPhase _
  · split
    · exact hv.withPhase _
    · exact (sendOrDrop_owns hv _ _).withPhase _

omit h in
theorem proceed_own (hphase : v.phase = .delivering d) (hown : NextIsOwn r v.phase) :
    SameWorld r p v (v.proceed d) := by
  obtain ⟨output, finished, decisionsFinished, decisionsFailed, disconnected⟩ := d
  rw [hphase] at hown
  cases output with
  | cons delta output =>
    have hdelta : delta.requestId = r := hown
    refine deliverOutput_own hv hdelta hphase ⟨?_, rfl, rfl, rfl, fun _ => .rfl⟩
    simp [deltasOff, hdelta]
  | nil =>
    cases finished with
    | cons record finished =>
      have hrecord : record.requestId = r := hown
      refine deliverFinished_own hv hrecord hphase ⟨rfl, ?_, rfl, rfl, fun _ => .rfl⟩
      simp [finishedOff, hrecord]
    | nil => exact absurd hown (by simp [NextIsOwn])

theorem proceed_same (hw : Owns r p w)
    (hd : v.phase = .delivering d) (he : w.phase = .delivering e) (hnd : ¬ NextIsOwn r v.phase)
    (hne : ¬ NextIsOwn r w.phase) : SameWorld r p (v.proceed d) (w.proceed e) := by
  have hsame : SameDelivery r d e := by
    have hphase := h.phase
    rw [hd, he] at hphase
    exact owed_delivering_iff.mp hphase
  rw [hd] at hnd
  rw [he] at hne
  obtain ⟨output, finished, done, failed, disconnected⟩ := d
  obtain ⟨output', finished', done', failed', disconnected'⟩ := e
  obtain ⟨houtput, hfinished, hdone, hfailed, hdisconnected⟩ := hsame
  subst hdone hfailed
  cases output with
  | cons delta output =>
    have hdelta : delta.requestId ≠ r := hnd
    cases output' with
    | nil => simp [deltasOff, hdelta] at houtput
    | cons delta' output' =>
      have hdelta' : delta'.requestId ≠ r := hne
      simp only [deltasOff, ne_eq, hdelta, not_false_eq_true, decide_true,
        filter_cons_of_pos, hdelta', map_cons, cons.injEq, Prod.mk.injEq] at houtput
      exact deliverOutput_same h hv hdelta houtput.1.1 houtput.1.2
        ⟨houtput.2, hfinished, rfl, rfl, hdisconnected⟩
  | nil =>
    cases output' with
    | cons delta' output' =>
      have hdelta' : delta'.requestId ≠ r := hne
      simp [deltasOff, hdelta'] at houtput
    | nil =>
      cases finished with
      | cons record finished =>
        have hrecord : record.requestId ≠ r := hnd
        cases finished' with
        | nil => simp [finishedOff, hrecord] at hfinished
        | cons record' finished' =>
          have hrecord' : record'.requestId ≠ r := hne
          simp only [finishedOff, ne_eq, hrecord, not_false_eq_true, decide_true,
            filter_cons_of_pos, hrecord', cons.injEq] at hfinished
          obtain ⟨rfl, hfinished⟩ := hfinished
          exact deliverFinished_same h hv hrecord ⟨rfl, hfinished, rfl, rfl, hdisconnected⟩
      | nil =>
        cases finished' with
        | cons record' finished' =>
          have hrecord' : record'.requestId ≠ r := hne
          simp [finishedOff, hrecord'] at hfinished
        | nil =>
          cases done with
          | cons decision done =>
            exact deliverDecision_same h hv ⟨rfl, rfl, rfl, rfl, hdisconnected⟩
          | nil =>
            cases failed with
            | cons decision failed =>
              exact deliverDecision_same h hv ⟨rfl, rfl, rfl, rfl, hdisconnected⟩
            | nil => exact cancelDisconnected_same h hv hw hdisconnected

omit h in
theorem proceedFailing_own {message : Text} {remaining : List EngineRequestId}
    (hphase : v.phase = .failing remaining message) (hown : NextIsOwn r v.phase) :
    SameWorld r p v (v.proceedFailing message remaining) := by
  rw [hphase] at hown
  cases remaining with
  | nil => exact absurd hown (by simp [NextIsOwn])
  | cons q rest =>
    obtain rfl : q = r := hown
    have howed : owed q v.phase = owed q (.failing rest message) := by
      rw [hphase]
      simp [owed, requestsOff]
    simp only [World.proceedFailing]
    split
    · exact (SameWorld.refl q p v).movedOn howed
    · rename_i id hget
      obtain rfl : id = p := (hv.active hget).mp rfl
      exact (sendOrDrop_own q id v _).movedOn howed

theorem proceedFailing_same {message message' : Text}
    (hw : Owns r p w) (hx : v.phase = .failing xs message) (hy : w.phase = .failing ys message')
    (hnx : ¬ NextIsOwn r v.phase) (hny : ¬ NextIsOwn r w.phase) :
    SameWorld r p (v.proceedFailing message xs) (w.proceedFailing message' ys) := by
  have hphase := h.phase
  rw [hx, hy] at hphase
  simp only [owed, Owed.mk.injEq, Mode.failing.injEq, true_and] at hphase
  obtain ⟨rfl, hoff⟩ := hphase
  rw [hx] at hnx
  rw [hy] at hny
  cases xs with
  | nil =>
    cases ys with
    | nil =>
      exact (foldl_same (f := World.failRequest message)
        (fun h hv hq => failRequest_same h hv hq message) (fun h => failRequest_own h message)
        (fun q h => failRequest_owns h message q) (retained_off h) h hv hw).withPhase rfl
    | cons q ys =>
      have hq : q ≠ r := hny
      simp [requestsOff, hq] at hoff
  | cons q xs =>
    have hq : q ≠ r := hnx
    cases ys with
    | nil => simp [requestsOff, hq] at hoff
    | cons q' ys =>
      have hq' : q' ≠ r := hny
      simp only [requestsOff, ne_eq, hq, not_false_eq_true, decide_true,
        filter_cons_of_pos, hq', cons.injEq] at hoff
      obtain ⟨rfl, hoff⟩ := hoff
      have howed : owed r (.failing xs message : Phase κ) = owed r (.failing ys message) := by
        simp only [owed, requestsOff, ne_eq, hoff]
      simp only [World.proceedFailing]
      rw [h.active _ hq]
      cases hget : w.active.get q with
      | none => exact h.withPhase howed
      | some id =>
        have hid : id ≠ p := by
          rw [← h.active _ hq] at hget
          exact fun heq => hq ((hv.active hget).mpr heq)
        exact (sendOrDrop_same h hid rfl).withPhase howed

/-! ## Steps of the actor -/


omit hv in
theorem receive_same (hx : x ≠ p) (hv : v.receive x = some v') (hw : w.receive x = some w') :
    SameWorld r p v' w' := by
  obtain ⟨event, buffer, hbuffer, rfl⟩ := World.receive_eq_some hv
  obtain ⟨event', buffer', hbuffer', rfl⟩ := World.receive_eq_some hw
  obtain ⟨hclosed, hsame⟩ := h.channels x hx
  rw [hbuffer, hbuffer'] at hsame
  obtain ⟨hevent, hrest⟩ := cons.inj hsame
  refine { h with capacity := h.capacity, channels := fun y hy => ?_, received := fun y hy => ?_ }
  · by_cases hyx : y = x
    · subst hyx
      simp only [Function.update_self]
      exact ⟨hclosed, hrest⟩
    · simp only [Function.update_of_ne hyx]
      exact h.channels y hy
  · by_cases hyx : y = x
    · subst hyx
      simp only [Function.update_self]
      have hreceived := h.received y hy
      unfold SameReceived at hreceived ⊢
      rw [map_append, map_append, hreceived, map_singleton, map_singleton, hevent]
    · simp only [Function.update_of_ne hyx]
      exact h.received y hy

omit h in
theorem receive_own (h : v.receive p = some v') : SameWorld r p v v' ∧ Owns r p v' := by
  obtain ⟨event, buffer, -, rfl⟩ := World.receive_eq_some h
  refine ⟨{ SameWorld.refl r p v with channels := fun y hy => ?_, received := fun y hy => ?_ },
    hv.active, hv.external, hv.decisions⟩
  · simp only [Function.update_of_ne hy]
    exact ⟨rfl, rfl⟩
  · simp only [Function.update_of_ne hy]
    rfl

omit h in
theorem receive_owns (h : v.receive x = some v') : Owns r p v' := by
  obtain ⟨event, buffer, -, rfl⟩ := World.receive_eq_some h
  exact ⟨hv.active, hv.external, hv.decisions⟩

omit hv in
theorem close_same (x : ActorRequestId) : SameWorld r p (v.close x) (w.close x) := by
  unfold World.close
  refine { h with capacity := h.capacity, channels := fun y hy => ?_, closed := fun y hy => ?_ }
  · by_cases hyx : y = x
    · subst hyx
      simp only [Function.update_self]
      exact ⟨rfl, (h.channels y hy).2⟩
    · simp only [Function.update_of_ne hyx]
      exact h.channels y hy
  · by_cases hyx : y = x
    · subst hyx
      simp only [Function.update_self]
    · simp only [Function.update_of_ne hyx]
      exact h.closed y hy

omit hv in
omit h in
theorem close_own (r : EngineRequestId) (p : ActorRequestId) (v : World κ) :
    SameWorld r p v (v.close p) := by
  unfold World.close
  refine { SameWorld.refl r p v with channels := fun y hy => ?_, closed := fun y hy => ?_ }
  · simp only [Function.update_of_ne hy]
    exact ⟨rfl, rfl⟩
  · simp only [Function.update_of_ne hy]

omit h in
theorem close_owns (x : ActorRequestId) : Owns r p (v.close x) :=
  ⟨hv.active, hv.external, hv.decisions⟩

omit hv in
theorem submit_same (answer : Except Text EngineRequestId) :
    SameWorld r p (v.submit x answer) (w.submit x answer) := by
  cases answer with
  | ok q =>
    refine { h with
      capacity := h.capacity
      active := fun s hs => ?_
      external := fun y hy => ?_
      submitted := congrArg (x :: ·) h.submitted }
    · simp only [World.submit, get_insert, h.active s hs]
    · simp only [World.submit, get_insert, h.external y hy]
  | error message =>
    have hsent : SameWorld r p (v.sendOrDrop x (.error message))
        (w.sendOrDrop x (.error message)) := by
      by_cases hx : x = p
      · subst hx
        exact ((sendOrDrop_own r x v _).symm.trans h).trans (sendOrDrop_own r x w _)
      · exact sendOrDrop_same h hx rfl
    exact { hsent with
      capacity := hsent.capacity
      submitted := congrArg (x :: ·) h.submitted }

omit h in
theorem submit_owns {answer : Except Text EngineRequestId}
    (hfresh : ∀ q, answer = .ok q → (q = r ↔ x = p)) : Owns r p (v.submit x answer) := by
  cases answer with
  | ok q =>
    refine ⟨fun {s y} hs => ?_, fun {s y} hs => ?_, hv.decisions⟩
    · simp only [World.submit, get_insert] at hs
      split at hs
      · rename_i heq
        cases hs
        rw [← heq]
        exact hfresh q rfl
      · exact hv.active hs
    · simp only [World.submit, get_insert] at hs
      split at hs
      · rename_i heq
        cases hs
        rw [← heq]
        exact hfresh _ rfl
      · exact hv.external hs
  | error message =>
    have hsent := sendOrDrop_owns hv x (.error message)
    exact ⟨hsent.active, hsent.external, hsent.decisions⟩

end

theorem submitDecision_same (hx : x ≠ p) (answer : Except Text EngineRequestId) :
    SameWorld r p (v.submitDecision x answer) (w.submitDecision x answer) := by
  cases answer with
  | ok q =>
    refine { h with
      capacity := h.capacity
      decisions := ?_
      external := fun y hy => ?_
      submitted := congrArg (x :: ·) h.submitted }
    · simp only [World.submitDecision, h.decisions]
    · simp only [World.submitDecision, get_insert, h.external y hy]
  | error message =>
    have hdone := complete_same h hx (.error message)
    exact { hdone with
      capacity := hdone.capacity
      submitted := congrArg (x :: ·) h.submitted }

end

theorem submitDecision_owns {answer : Except Text EngineRequestId} (hv : Owns r p v) (hx : x ≠ p)
    (hfresh : ∀ q, answer = .ok q → q ≠ r) : Owns r p (v.submitDecision x answer) := by
  cases answer with
  | ok q =>
    have hq := hfresh q rfl
    refine ⟨hv.active, fun {s y} hs => ?_, fun {s y} hs => ?_⟩
    · simp only [World.submitDecision, get_insert] at hs
      split at hs
      · rename_i heq
        cases hs
        rw [← heq]
        simp [hq, hx]
      · exact hv.external hs
    · simp only [World.submitDecision, get_insert] at hs
      split at hs
      · rename_i heq
        cases hs
        rw [← heq]
        exact ⟨hq, hx⟩
      · exact hv.decisions hs
  | error message =>
    have hdone := complete_owns hv x (.error message)
    exact ⟨hdone.active, hdone.external, hdone.decisions⟩

/-! ## The service beside the actor -/

theorem cancelRequests_get (s : ChatService δ) (ids : List EngineRequestId) (q : EngineRequestId) :
    (ServingActor.cancelRequests s ids).requests.get q =
      if q ∈ ids then none else s.requests.get q := by
  unfold ServingActor.cancelRequests
  induction ids generalizing s with
  | nil => simp
  | cons id ids ih =>
    rw [foldl_cons, ih]
    by_cases hq : q = id
    · simp [hq, ChatService.cancelRequest, get_erase_self]
    · simp [hq, ChatService.cancelRequest, get_erase_of_ne]

theorem cancelRequests_same (h : SameService r s t) (hoff : requestsOff r xs = requestsOff r ys) :
    SameService r (ServingActor.cancelRequests s xs) (ServingActor.cancelRequests t ys) := by
  intro q hq
  have hmem : q ∈ xs ↔ q ∈ ys := by
    have hiff : ∀ l, q ∈ requestsOff r l ↔ q ∈ l := fun l => by simp [requestsOff, hq]
    rw [← hiff xs, ← hiff ys, hoff]
  rw [cancelRequests_get, cancelRequests_get]
  simp only [hmem]
  split
  · exact .none
  · exact h q hq

theorem cancelRequest_same (h : SameService r s t) :
    SameService r (s.cancelRequest q) (t.cancelRequest q) := by
  have hone : SameService r (ServingActor.cancelRequests s [q])
      (ServingActor.cancelRequests t [q]) := cancelRequests_same h rfl
  exact hone

theorem cancelRequest_own (r : EngineRequestId) (s : ChatService δ) :
    SameService r s (s.cancelRequest r) := by
  intro q hq
  simp only [ChatService.cancelRequest, get_erase_of_ne _ hq]
  exact rel_refl _

theorem addRequest_same (tokenizer : Tokenizer δ) (maxContextTokens : Nat) (h : SameService r s t)
    (request : ChatService.RenderedRequest) (queue : Nat → Except Error EngineRequestId) :
    (∃ e, s.addRequest tokenizer maxContextTokens request queue = .error e ∧
      t.addRequest tokenizer maxContextTokens request queue = .error e) ∨
    ∃ s' t' n q, s.addRequest tokenizer maxContextTokens request queue = .ok (s', q) ∧
      t.addRequest tokenizer maxContextTokens request queue = .ok (t', q) ∧
      SameService r s' t' ∧ queue n = .ok q := by
  unfold ChatService.addRequest
  rw [new_withIds tokenizer request.tools request.startsInReasoning s.nextToolCallId
    t.nextToolCallId]
  cases ChatService.validateStopSequences request.stopSequences with
  | error e => exact .inl ⟨e, rfl, rfl⟩
  | ok _ =>
    cases ChatOutputCodec.new tokenizer request.tools request.startsInReasoning
      s.nextToolCallId with
    | error e => exact .inl ⟨e, rfl, rfl⟩
    | ok codec =>
      cases ChatService.completionTokensWithinContext request.promptTokens request.maxNewTokens
        maxContextTokens with
      | error e => exact .inl ⟨e, rfl, rfl⟩
      | ok n =>
        cases hqueue : queue n with
        | error e => exact .inl ⟨e, by simp [bind, Except.bind, hqueue],
            by simp [bind, Except.bind, Except.map, hqueue]⟩
        | ok q =>
          refine .inr ⟨_, _, n, q, by simp only [bind, Except.bind, hqueue]; rfl,
            by simp only [bind, Except.bind, Except.map, hqueue]; rfl, fun s' hs' => ?_, hqueue⟩
          by_cases heq : s' = q
          · subst heq
            simp only [get_insert_self]
            exact .some ⟨_, rfl⟩
          · simp only [get_insert_of_ne _ _ heq]
            exact h s' hs'

/-- Two actors that agree on everything but the request `r` of the client `p`. -/
structure SameActor (r : EngineRequestId) (p : ActorRequestId) (a b : ServingActor δ κ) : Prop where
  world : SameWorld r p a.world b.world
  service : SameService r a.service b.service
  left : Owns r p a.world
  right : Owns r p b.world

/-- A report that holds nothing of the requests other than `r`. -/
structure Quiet (r : EngineRequestId) (report : SchedulerReport κ) : Prop where
  admitted : ∀ admission ∈ report.admitted, admission.1 = r
  generated : ∀ token ∈ report.generated, token.requestId = r
  decisionsFinished : report.decisionsFinished = []
  decisionsFailed : report.decisionsFailed = []
  requestState : ∀ q, q ≠ r → report.requestState q ≠ some .finished

/-- No other request than `r` is active. -/
def Alone (r : EngineRequestId) (w : World κ) : Prop :=
  (∀ q, q ≠ r → w.active.get q = none) ∧ ∀ q, w.activeDecisions.get q = none

variable (fromStr : Text → Except Text Value) (tokenizer : Tokenizer δ) (maxContextTokens : Nat)
  (display : Error → Text) (r : EngineRequestId) (p : ActorRequestId) (s : ChatService δ)

/-- The output of `r` in the report decodes, and the counter of call identities
is not exhausted. -/
def TickDecodes (report : SchedulerReport κ) : Prop :=
  Decodes fromStr tokenizer r s report ∧ s.tick fromStr tokenizer report ≠ .error exhausted

/-- The same step on both sides. The scheduler assigns `r` to the request of `p`
and to no other; ticks differ in the output of `r` only, which decodes; and a
round of a loop is no round for `r`. -/
def SameStep (a b : ServingActor δ κ) : ServingActor.Step κ → ServingActor.Step κ → Prop
  | .submit id request queue, .submit id' request' queue' =>
    id = id' ∧ request = request' ∧ queue = queue' ∧ ∀ n q, queue n = .ok q → (q = r ↔ id = p)
  | .submitDecision id answer, .submitDecision id' answer' =>
    id = id' ∧ answer = answer' ∧ id ≠ p ∧ ∀ q, answer = .ok q → q ≠ r
  | .cancel id, .cancel id' => id = id' ∧ id ≠ p
  | .shutdown, .shutdown => True
  | .tick report _, .tick report' _ => SameReport r report report' ∧
    TickDecodes fromStr tokenizer r a.service report ∧
    TickDecodes fromStr tokenizer r b.service report'
  | .proceed, .proceed => ¬ NextIsOwn r a.world.phase ∧ ¬ NextIsOwn r b.world.phase
  | .receive id, .receive id' => id = id' ∧ id ≠ p
  | .close id, .close id' => id = id'
  | _, _ => False

/-- A step that is about `r` alone: its client acts, a loop comes to one of its
entries, or it is the only request and the actor ticks for it. -/
def OwnStep (a : ServingActor δ κ) : ServingActor.Step κ → Prop
  | .cancel id => id = p
  | .receive id => id = p
  | .close id => id = p
  | .tick report _ => Alone r a.world ∧ Quiet r report ∧
    TickDecodes fromStr tokenizer r a.service report
  | .proceed => NextIsOwn r a.world.phase ∨ (Alone r a.world ∧
    ∃ refused, a.world.phase = .delivering ⟨[], [], [], [], refused⟩ ∧ ∀ q ∈ refused, q = r)
  | _ => False

variable {fromStr tokenizer maxContextTokens display r p} {x : SchedulerReport κ}

theorem beginTick_owns (hv : Owns r p v) (answer : Except Text (EngineTick κ)) :
    Owns r p (v.beginTick answer) := by
  cases answer with
  | ok tick => exact ⟨hv.active, hv.external, hv.decisions⟩
  | error message => exact hv.withPhase _

theorem tick_same {x y : SchedulerReport κ} {m n : Nat} (h : SameActor r p a b)
    (hstep : SameStep fromStr tokenizer r p a b (.tick x m) (.tick y n))
    (ha : a.step fromStr tokenizer maxContextTokens display (.tick x m) = some a')
    (hb : b.step fromStr tokenizer maxContextTokens display (.tick y n) = some b') :
    SameActor r p a' b' := by
  obtain ⟨hreport, ⟨hx, hxids⟩, hy, hyids⟩ := hstep
  obtain ⟨v, hv, rfl⟩ := map_eq_some_iff.mp ha
  obtain ⟨w, hw, rfl⟩ := map_eq_some_iff.mp hb
  obtain ⟨-, rfl⟩ := World.step_tick hv
  obtain ⟨-, rfl⟩ := World.step_tick hw
  have hagree := tick_agree h.service hreport hx hy
  refine ⟨?_, ?_, beginTick_owns h.left _, beginTick_owns h.right _⟩
  · generalize a.service.tick fromStr tokenizer x = t, b.service.tick fromStr tokenizer y = u
      at hagree hxids hyids
    cases hagree with
    | @ok t u hsame =>
      obtain ⟨-, houtput⟩ := hsame
      refine { h.world with phase := owed_delivering_iff.mpr ?_ }
      exact ⟨houtput.output, houtput.finished, houtput.decisionsFinished,
        houtput.decisionsFailed, fun _ => .rfl⟩
    | error e =>
      refine h.world.withPhase ?_
      simp only [owed, active_off h.world]
    | left u => exact absurd rfl hxids
    | right t => exact absurd rfl hyids
  · simp only [ServingActor.serviceAfter]
    generalize a.service.tick fromStr tokenizer x = t, b.service.tick fromStr tokenizer y = u
      at hagree hxids hyids
    cases hagree with
    | ok hsame => exact hsame.1
    | error e => exact h.service
    | left u => exact absurd rfl hxids
    | right t => exact absurd rfl hyids

theorem tick_silent (report : SchedulerReport κ)
    (hadmitted : report.admitted = []) (hgenerated : report.generated = [])
    (hfinished : report.decisionsFinished = []) (hfailed : report.decisionsFailed = [])
    (hstate : ∀ q, report.requestState q ≠ some .finished) :
    s.tick fromStr tokenizer report = .ok (s, ⟨[], [], [], []⟩) := by
  have hterminal : (ChatService.markFinished report s.requests.keys empty).entries = [] := by
    have hempty : ChatService.markFinished report s.requests.keys empty =
        BTreeMap.empty := by
      apply BTreeMap.ext_get
      intro q
      rw [markFinished_get]
      simp [hstate q]
    rw [hempty]
    rfl
  simp only [ChatService.tick, hadmitted, hgenerated, hfinished, hfailed, ChatService.admitAll,
    foldl_nil, ChatService.serveTokens, bind, Except.bind, hterminal, ChatService.endRequests]
  rfl

/-- The report without the request `r`, of a report about `r` alone. -/
def silenced (r : EngineRequestId) (x : SchedulerReport κ) : SchedulerReport κ where
  admitted := []
  generated := []
  decisionsFinished := x.decisionsFinished
  decisionsFailed := x.decisionsFailed
  requestState q := if q = r then none else x.requestState q
  cancels := x.cancels
  releasedSequenceDeviceBytes := x.releasedSequenceDeviceBytes

theorem silenced_requestState (hq : q ≠ r) (x : SchedulerReport κ) :
    (silenced r x).requestState q = x.requestState q := if_neg hq

theorem silenced_requestState_self (x : SchedulerReport κ) :
    (silenced r x).requestState r = none := if_pos rfl

theorem tick_silenced (hquiet : Quiet r x) (s : ChatService δ) :
    s.tick fromStr tokenizer (silenced r x) = .ok (s, ⟨[], [], [], []⟩) := by
  refine tick_silent s (silenced r x) rfl rfl hquiet.decisionsFinished hquiet.decisionsFailed
    fun q => ?_
  by_cases hq : q = r
  · rw [hq, silenced_requestState_self]
    exact nofun
  · rw [silenced_requestState hq]
    exact hquiet.requestState q hq

theorem sameReport_silenced (hquiet : Quiet r x) : SameReport r x (silenced r x) := by
  refine ⟨?_, ?_, rfl, rfl, fun q hq => (silenced_requestState hq x).symm, fun q hq => ?_⟩
  · exact filter_eq_nil_iff.mpr fun admission hmem => by simp [hquiet.admitted _ hmem]
  · exact filter_eq_nil_iff.mpr fun token hmem => by simp [hquiet.generated _ hmem]
  · unfold SchedulerReport.release
    rw [silenced_requestState hq]
    rfl

theorem decodes_silenced (x : SchedulerReport κ) :
    Decodes fromStr tokenizer r s (silenced r x) := by
  unfold Decodes
  split
  · rfl
  · refine ⟨_, [], none, .nil _, fun cause hcause => ?_⟩
    have hnone : endReason (silenced r x) r none = none := by
      unfold endReason
      rw [silenced_requestState_self]
      rfl
    rw [hnone] at hcause
    cases hcause

theorem tick_own {m : Nat} (hown : Owns r p a.world)
    (hstep : OwnStep fromStr tokenizer r p a (.tick x m))
    (ha : a.step fromStr tokenizer maxContextTokens display (.tick x m) = some a') :
    SameActor r p a a' := by
  obtain ⟨-, hquiet, hx, hxids⟩ := hstep
  obtain ⟨v, hv, rfl⟩ := map_eq_some_iff.mp ha
  obtain ⟨hidle, rfl⟩ := World.step_tick hv
  -- Beside it stands a tick with a report that holds nothing.
  have hagree := tick_agree (fun _ _ => rel_refl _) (sameReport_silenced hquiet) hx
    (decodes_silenced a.service x)
  rw [tick_silenced hquiet] at hagree
  refine ⟨?_, ?_, hown, beginTick_owns hown _⟩
  · generalize a.service.tick fromStr tokenizer x = t at hagree hxids
    cases hagree with
    | @ok t _ hsame =>
      obtain ⟨-, houtput⟩ := hsame
      refine { SameWorld.refl r p a.world with phase := ?_ }
      have hnone : SameDelivery r ⟨[], [], [], [], []⟩ ⟨t.2.output, t.2.finished,
          t.2.decisionsFinished, t.2.decisionsFailed, []⟩ :=
        ⟨houtput.output.symm, houtput.finished.symm, houtput.decisionsFinished.symm,
          houtput.decisionsFailed.symm, fun _ => .rfl⟩
      have hempty : owed r (.idle : Phase κ) = owed r (.delivering ⟨[], [], [], [], []⟩) := by
        simp [owed, deltasOff, finishedOff, requestsOff]
      rw [hidle, hempty]
      exact owed_delivering_iff.mpr hnone
    | left u => exact absurd rfl hxids
  · simp only [ServingActor.serviceAfter]
    generalize a.service.tick fromStr tokenizer x = t at hagree hxids
    cases hagree with
    | ok hsame => exact hsame.1.symm
    | left u => exact absurd rfl hxids

theorem cancelled_own (h : NextIsOwn r w.phase) : ServingActor.cancelled w = [] := by
  unfold ServingActor.cancelled
  split
  · rename_i hphase
    rw [hphase] at h
    exact absurd h (by simp [NextIsOwn])
  · rename_i hphase
    rw [hphase] at h
    exact absurd h (by simp [NextIsOwn])
  · rfl

theorem proceedWorld_own (hw : Owns r p w) (hown : NextIsOwn r w.phase)
    (h : w.step .proceed = some w') : SameWorld r p w w' := by
  obtain ⟨d, hphase, rfl⟩ | ⟨remaining, message, hphase, rfl⟩ := World.step_proceed h
  · exact proceed_own hw hphase hown
  · exact proceedFailing_own hw hphase hown

theorem proceedWorld_owns (hw : Owns r p w) (h : w.step .proceed = some w') : Owns r p w' := by
  obtain ⟨d, -, rfl⟩ | ⟨remaining, message, -, rfl⟩ := World.step_proceed h
  · exact proceed_owns hw d
  · exact proceedFailing_owns hw message remaining

theorem lastRound_own {refused : List EngineRequestId} (hw : Owns r p w) (halone : Alone r w)
    (hphase : w.phase = .delivering ⟨[], [], [], [], refused⟩) (hrefused : ∀ q ∈ refused, q = r) :
    SameWorld r p w (w.cancelDisconnected refused) ∧
      requestsOff r (ServingActor.disconnected w refused) = [] := by
  have hdecisions : w.activeDecisions.entries = [] := by
    have hempty : w.activeDecisions = empty := ext_get halone.2
    rw [hempty]
    rfl
  have hoff : requestsOff r (ServingActor.disconnected w refused) = [] := by
    apply filter_eq_nil_iff.mpr
    intro q hmem
    simp only [ServingActor.disconnected, hdecisions, filter_nil, map_nil,
      append_nil, mem_dedup, mem_mergeSort] at hmem
    simp [hrefused q hmem]
  refine ⟨?_, hoff⟩
  have hempty : requestsOff r [] = requestsOff r (ServingActor.disconnected w refused) := hoff.symm
  have hfold : SameWorld r p w
      ((ServingActor.disconnected w refused).foldl World.cancelSchedulerRequest w) :=
    foldl_same (f := World.cancelSchedulerRequest) (fun h _ hq => cancel_same h hq) cancel_own
      (fun q h => cancel_owns h q) hempty (.refl r p w) hw hw
  refine hfold.movedOn ?_
  have hnone : requestsOff r refused = [] := by
    apply filter_eq_nil_iff.mpr
    intro q hmem
    simp [hrefused q hmem]
  rw [hphase]
  simp [owed, deltasOff, finishedOff, hnone]

/-- A step about `r` alone changes nothing for the others. -/
theorem step_own {s : ServingActor.Step κ} (hown : Owns r p a.world)
    (hstep : OwnStep fromStr tokenizer r p a s)
    (ha : a.step fromStr tokenizer maxContextTokens display s = some a') : SameActor r p a a' := by
  cases s with
  | submit id request queue => exact absurd hstep (by simp [OwnStep])
  | submitDecision id answer => exact absurd hstep (by simp [OwnStep])
  | shutdown => exact absurd hstep (by simp [OwnStep])
  | tick report m => exact tick_own hown hstep ha
  | cancel id =>
    obtain rfl : id = p := hstep
    obtain ⟨w, hw, rfl⟩ := map_eq_some_iff.mp ha
    obtain ⟨-, rfl⟩ := World.step_cancel hw
    simp only [ServingActor.serviceAfter]
    cases hget : a.world.schedulerByExternal.get id with
    | none => exact ⟨.refl r id a.world, fun _ _ => rel_refl _, hown, hown⟩
    | some q =>
      obtain rfl : q = r := (hown.external hget).mpr rfl
      exact ⟨cancel_own hown, cancelRequest_own q a.service, hown, cancel_owns hown q⟩
  | receive id =>
    obtain rfl : id = p := hstep
    obtain ⟨w, hw, rfl⟩ := map_eq_some_iff.mp ha
    obtain ⟨hsame, hw'⟩ := receive_own hown hw
    exact ⟨hsame, fun _ _ => rel_refl _, hown, hw'⟩
  | close id =>
    obtain rfl : id = p := hstep
    obtain ⟨w, hw, rfl⟩ := map_eq_some_iff.mp ha
    obtain rfl : a.world.close id = w := some.inj hw
    exact ⟨close_own r id a.world, fun _ _ => rel_refl _, hown, close_owns hown id⟩
  | proceed =>
    obtain ⟨w, hw, rfl⟩ := map_eq_some_iff.mp ha
    obtain hnext | ⟨halone, refused, hphase, hrefused⟩ := hstep
    · simp only [ServingActor.serviceAfter, cancelled_own hnext]
      exact ⟨proceedWorld_own hown hnext hw, fun _ _ => rel_refl _, hown,
        proceedWorld_owns hown hw⟩
    · obtain ⟨hsame, hoff⟩ := lastRound_own hown halone hphase hrefused
      have hworld : w = a.world.cancelDisconnected refused := by
        obtain ⟨d, hd, rfl⟩ | ⟨remaining, message, hfailing, -⟩ := World.step_proceed hw
        · rw [hphase] at hd
          cases hd
          rfl
        · rw [hphase] at hfailing
          cases hfailing
      refine ⟨hworld ▸ hsame, ?_, hown, proceedWorld_owns hown hw⟩
      simp only [ServingActor.serviceAfter, ServingActor.cancelled, hphase]
      have hcancelled : SameService r (ServingActor.cancelRequests a.service [])
          (ServingActor.cancelRequests a.service (ServingActor.disconnected a.world refused)) :=
        cancelRequests_same (fun _ _ => rel_refl _) hoff.symm
      exact hcancelled

section
variable (h : SameActor r p a b)
include h

theorem submit_step {id : ActorRequestId} {request : ChatService.RenderedRequest}
    {queue : Nat → Except Error EngineRequestId}
    (hfresh : ∀ n q, queue n = .ok q → (q = r ↔ id = p))
    (ha : a.step fromStr tokenizer maxContextTokens display (.submit id request queue) = some a')
    (hb : b.step fromStr tokenizer maxContextTokens display (.submit id request queue) = some b') :
    SameActor r p a' b' := by
  obtain ⟨v, hv, rfl⟩ := map_eq_some_iff.mp ha
  obtain ⟨w, hw, rfl⟩ := map_eq_some_iff.mp hb
  obtain ⟨-, -, rfl⟩ := World.step_submit hv
  obtain ⟨-, -, rfl⟩ := World.step_submit hw
  have hadd := addRequest_same tokenizer maxContextTokens h.service request queue
  simp only [ServingActor.serviceAfter]
  obtain ⟨e, hs, ht⟩ | ⟨s', t', n, q, hs, ht, hsame, hqueue⟩ := hadd
  · rw [hs, ht]
    have hnone : ∀ q, (.error (display e) : Except Text EngineRequestId) = .ok q →
        (q = r ↔ id = p) := nofun
    have hworld : SameWorld r p (a.world.submit id (.error (display e)))
        (b.world.submit id (.error (display e))) := submit_same h.world _
    exact ⟨hworld, h.service, submit_owns h.left hnone, submit_owns h.right hnone⟩
  · rw [hs, ht]
    have howns : ∀ q', (.ok q : Except Text EngineRequestId) = .ok q' → (q' = r ↔ id = p) := by
      intro q' heq
      cases heq
      exact hfresh n q hqueue
    have hworld : SameWorld r p (a.world.submit id (.ok q)) (b.world.submit id (.ok q)) :=
      submit_same h.world _
    exact ⟨hworld, hsame, submit_owns h.left howns, submit_owns h.right howns⟩

omit h in
theorem cancelled_off (h : SameWorld r p v w) (hv : Owns r p v) (hnv : ¬ NextIsOwn r v.phase)
    (hnw : ¬ NextIsOwn r w.phase) (hv' : v.step .proceed = some v')
    (hw' : w.step .proceed = some w') :
    requestsOff r (ServingActor.cancelled v) = requestsOff r (ServingActor.cancelled w) := by
  have hphase := h.phase
  obtain ⟨d, hd, -⟩ | ⟨xs, message, hx, -⟩ := World.step_proceed hv'
  · obtain ⟨e, he, -⟩ | ⟨ys, message', hy, -⟩ := World.step_proceed hw'
    · rw [hd, he] at hphase
      obtain ⟨houtput, hfinished, hdone, hfailed, hdisconnected⟩ := owed_delivering_iff.mp hphase
      obtain ⟨output, finished, done, failed, disconnected⟩ := d
      obtain ⟨output', finished', done', failed', disconnected'⟩ := e
      subst hdone hfailed
      have houtputs : output = [] ↔ output' = [] := by
        cases output <;> cases output' <;> simp_all [NextIsOwn, deltasOff]
      by_cases hout : output = []
      · obtain rfl := hout
        obtain rfl := houtputs.mp rfl
        have hfinishes : finished = [] ↔ finished' = [] := by
          cases finished <;> cases finished' <;> simp_all [NextIsOwn, finishedOff]
        by_cases hfin : finished = []
        · obtain rfl := hfin
          obtain rfl := hfinishes.mp rfl
          simp only [ServingActor.cancelled, hd, he]
          cases done with
          | cons decision done => rfl
          | nil =>
            cases failed with
            | cons decision failed => rfl
            | nil => exact disconnected_off h hv hdisconnected
        · have hfin' : finished' ≠ [] := fun heq => hfin (hfinishes.mpr heq)
          obtain ⟨x, xs, rfl⟩ := exists_cons_of_ne_nil hfin
          obtain ⟨y, ys, rfl⟩ := exists_cons_of_ne_nil hfin'
          simp only [ServingActor.cancelled, hd, he]
      · have hout' : output' ≠ [] := fun heq => hout (houtputs.mpr heq)
        obtain ⟨x, xs, rfl⟩ := exists_cons_of_ne_nil hout
        obtain ⟨y, ys, rfl⟩ := exists_cons_of_ne_nil hout'
        simp only [ServingActor.cancelled, hd, he]
    · rw [hd, hy] at hphase
      simp [owed] at hphase
  · obtain ⟨e, he, -⟩ | ⟨ys, message', hy, -⟩ := World.step_proceed hw'
    · rw [hx, he] at hphase
      simp [owed] at hphase
    · simp only [owed] at hphase
      simp only [ServingActor.cancelled, hx, hy]
      cases xs with
      | nil =>
        cases ys with
        | nil => exact retained_off h
        | cons q ys => simp_all [NextIsOwn, requestsOff]
      | cons q xs =>
        cases ys with
        | nil => simp_all [NextIsOwn, requestsOff]
        | cons q' ys => rfl

theorem proceed_step (hna : ¬ NextIsOwn r a.world.phase) (hnb : ¬ NextIsOwn r b.world.phase)
    (ha : a.step fromStr tokenizer maxContextTokens display .proceed = some a')
    (hb : b.step fromStr tokenizer maxContextTokens display .proceed = some b') :
    SameActor r p a' b' := by
  obtain ⟨v, hv, rfl⟩ := map_eq_some_iff.mp ha
  obtain ⟨w, hw, rfl⟩ := map_eq_some_iff.mp hb
  have hphase := h.world.phase
  refine ⟨?_, ?_, proceedWorld_owns h.left hv, proceedWorld_owns h.right hw⟩
  · obtain ⟨d, hd, rfl⟩ | ⟨xs, message, hx, rfl⟩ := World.step_proceed hv
    · obtain ⟨e, he, rfl⟩ | ⟨ys, message', hy, rfl⟩ := World.step_proceed hw
      · exact proceed_same h.world h.left h.right hd he hna hnb
      · rw [hd, hy] at hphase
        simp [owed] at hphase
    · obtain ⟨e, he, rfl⟩ | ⟨ys, message', hy, rfl⟩ := World.step_proceed hw
      · rw [hx, he] at hphase
        simp [owed] at hphase
      · exact proceedFailing_same h.world h.left h.right hx hy hna hnb
  · exact cancelRequests_same h.service (cancelled_off h.world h.left hna hnb hv hw)

theorem step_same {s t : ServingActor.Step κ} (hstep : SameStep fromStr tokenizer r p a b s t)
    (ha : a.step fromStr tokenizer maxContextTokens display s = some a')
    (hb : b.step fromStr tokenizer maxContextTokens display t = some b') : SameActor r p a' b' := by
  cases s with
  | submit id request queue =>
    cases t with
    | submit id' request' queue' =>
      obtain ⟨rfl, rfl, rfl, hfresh⟩ := hstep
      exact submit_step h hfresh ha hb
    | _ => cases hstep
  | submitDecision id answer =>
    cases t with
    | submitDecision id' answer' =>
      obtain ⟨rfl, rfl, hid, hfresh⟩ := hstep
      obtain ⟨v, hv, rfl⟩ := map_eq_some_iff.mp ha
      obtain ⟨w, hw, rfl⟩ := map_eq_some_iff.mp hb
      obtain ⟨-, -, rfl⟩ := World.step_submitDecision hv
      obtain ⟨-, -, rfl⟩ := World.step_submitDecision hw
      exact ⟨submitDecision_same h.world hid answer, h.service,
        submitDecision_owns h.left hid hfresh, submitDecision_owns h.right hid hfresh⟩
    | _ => cases hstep
  | cancel id =>
    cases t with
    | cancel id' =>
      obtain ⟨rfl, hid⟩ := hstep
      obtain ⟨v, hv, rfl⟩ := map_eq_some_iff.mp ha
      obtain ⟨w, hw, rfl⟩ := map_eq_some_iff.mp hb
      obtain ⟨-, rfl⟩ := World.step_cancel hv
      obtain ⟨-, rfl⟩ := World.step_cancel hw
      simp only [ServingActor.serviceAfter]
      rw [h.world.external id hid]
      cases hget : b.world.schedulerByExternal.get id with
      | none => exact h
      | some q =>
        have hq : q ≠ r := fun heq => hid ((h.right.external hget).mp heq)
        exact ⟨cancel_same h.world hq, cancelRequest_same h.service, cancel_owns h.left q,
          cancel_owns h.right q⟩
    | _ => cases hstep
  | shutdown =>
    cases t with
    | shutdown =>
      obtain ⟨v, hv, rfl⟩ := map_eq_some_iff.mp ha
      obtain ⟨w, hw, rfl⟩ := map_eq_some_iff.mp hb
      obtain ⟨-, rfl⟩ := World.step_shutdown hv
      obtain ⟨-, rfl⟩ := World.step_shutdown hw
      have hoff := retained_off h.world
      have hworld : SameWorld r p a.world.cancelAll b.world.cancelAll :=
        foldl_same (f := World.cancelSchedulerRequest) (fun h _ hq => cancel_same h hq) cancel_own
          (fun q h => cancel_owns h q) hoff h.world h.left h.right
      have howns : ∀ {v : World κ}, Owns r p v → Owns r p v.cancelAll := fun hv =>
        foldl_owns (f := World.cancelSchedulerRequest) (fun q h => cancel_owns h q) _ hv
      exact ⟨hworld.withPhase rfl, cancelRequests_same h.service hoff,
        (howns h.left).withPhase _, (howns h.right).withPhase _⟩
    | _ => cases hstep
  | tick report m =>
    cases t with
    | tick report' n => exact tick_same h hstep ha hb
    | _ => cases hstep
  | proceed =>
    cases t with
    | proceed => exact proceed_step h hstep.1 hstep.2 ha hb
    | _ => cases hstep
  | receive id =>
    cases t with
    | receive id' =>
      obtain ⟨rfl, hid⟩ := hstep
      obtain ⟨v, hv, rfl⟩ := map_eq_some_iff.mp ha
      obtain ⟨w, hw, rfl⟩ := map_eq_some_iff.mp hb
      exact ⟨receive_same h.world hid hv hw, h.service, receive_owns h.left hv,
        receive_owns h.right hw⟩
    | _ => cases hstep
  | close id =>
    cases t with
    | close id' =>
      obtain rfl : id = id' := hstep
      obtain ⟨v, hv, rfl⟩ := map_eq_some_iff.mp ha
      obtain ⟨w, hw, rfl⟩ := map_eq_some_iff.mp hb
      obtain rfl : a.world.close id = v := some.inj hv
      obtain rfl : b.world.close id = w := some.inj hw
      exact ⟨close_same h.world id, h.service, close_owns h.left id, close_owns h.right id⟩
    | _ => cases hstep

/-! ## Two runs side by side -/

/-- Both runs make a step, or one of them does. -/
inductive Move (κ : Type) where
  | both (s t : ServingActor.Step κ)
  | left (s : ServingActor.Step κ)
  | right (t : ServingActor.Step κ)

variable (fromStr tokenizer maxContextTokens display) in
def sideBySide (pair : ServingActor δ κ × ServingActor δ κ) :
    Move κ → Option (ServingActor δ κ × ServingActor δ κ)
  | .both s t =>
    (pair.1.step fromStr tokenizer maxContextTokens display s).bind fun a =>
      (pair.2.step fromStr tokenizer maxContextTokens display t).map fun b => (a, b)
  | .left s => (pair.1.step fromStr tokenizer maxContextTokens display s).map fun a => (a, pair.2)
  | .right t => (pair.2.step fromStr tokenizer maxContextTokens display t).map fun b => (pair.1, b)

variable (fromStr tokenizer r p) in
/-- Runs that differ in the output of `r` only: they make the same steps, and
each makes those that are about `r` alone on its own. -/
def Allowed (pair : ServingActor δ κ × ServingActor δ κ) : Move κ → Prop
  | .both s t => SameStep fromStr tokenizer r p pair.1 pair.2 s t
  | .left s => OwnStep fromStr tokenizer r p pair.1 s
  | .right t => OwnStep fromStr tokenizer r p pair.2 t

theorem SameActor.symm : SameActor r p b a :=
  ⟨h.world.symm, h.service.symm, h.right, h.left⟩

theorem SameActor.trans {c : ServingActor δ κ} (h' : SameActor r p b c) : SameActor r p a c :=
  ⟨h.world.trans h'.world, h.service.trans h'.service, h.left, h'.right⟩

end

theorem move_same {pair pair' : ServingActor δ κ × ServingActor δ κ} {move : Move κ}
    (h : SameActor r p pair.1 pair.2) (hallowed : Allowed fromStr tokenizer r p pair move)
    (hmove : sideBySide fromStr tokenizer maxContextTokens display pair move = some pair') :
    SameActor r p pair'.1 pair'.2 := by
  cases move with
  | both s t =>
    obtain ⟨a, ha, hmove⟩ := bind_eq_some_iff.mp hmove
    obtain ⟨b, hb, rfl⟩ := map_eq_some_iff.mp hmove
    exact step_same h hallowed ha hb
  | left s =>
    obtain ⟨a, ha, rfl⟩ := map_eq_some_iff.mp hmove
    exact (step_own h.left hallowed ha).symm.trans h
  | right t =>
    obtain ⟨b, hb, rfl⟩ := map_eq_some_iff.mp hmove
    exact h.trans (step_own h.right hallowed hb)

/-- A started actor over a service without requests. -/
def start (eventCapacity ids : Nat) : ServingActor δ κ :=
  ⟨World.init eventCapacity, ⟨BTreeMap.empty, ids⟩⟩

theorem start_same (eventCapacity ids : Nat) :
    SameActor r p (start eventCapacity ids : ServingActor δ κ) (start eventCapacity ids) :=
  ⟨.refl r p _, fun _ _ => rel_refl _, ⟨nofun, nofun, nofun⟩, ⟨nofun, nofun, nofun⟩⟩

/-- In two runs that differ in the output of `r` only, and in which that output
decodes, every other client receives the same: the same events, up to call
identities, the same events in its channel, and the same answer to a decision. -/
theorem others_receive_the_same {eventCapacity ids : Nat} {moves : List (Move κ)}
    {pair : ServingActor δ κ × ServingActor δ κ}
    (path : Run.Path (sideBySide fromStr tokenizer maxContextTokens display)
      (Allowed fromStr tokenizer r p) (start eventCapacity ids, start eventCapacity ids) moves pair)
    {x : ActorRequestId} (hx : x ≠ p) :
    SameReceived (pair.1.world.received x) (pair.2.world.received x) ∧
      SameReceived (pair.1.world.channels x).buffer (pair.2.world.channels x).buffer ∧
      pair.1.world.completions x = pair.2.world.completions x := by
  have hsame : SameActor r p pair.1 pair.2 :=
    path.invariant (fun h hallowed hmove => move_same h hallowed hmove)
      (start_same eventCapacity ids)
  exact ⟨hsame.world.received x hx, (hsame.world.channels x hx).2,
    congrFun hsame.world.completions x⟩

/-! ## A malformed tool call -/

/-- A tokenizer with the tokens `a`, `b` and a malformed tool call. -/
def words : Tokenizer Unit where
  tokenToId _ := none
  decodeStream := ()
  step _ token := .ok (some (if token = 0 then ['a'] else if token = 1 then ['b']
    else "<tool_call><function=</tool_call>".toList), ())

def plainRequest : ChatService.RenderedRequest := ⟨[], false, [], 1, 8⟩

/-- The client `id` submits a request, and the scheduler assigns the same id. -/
def submits (id : Nat) : ServingActor.Step Unit := .submit id plainRequest fun _ => .ok id

/-- One iteration: a token of request 0, and the token `a` of request 1. -/
def iteration (token : Nat) : SchedulerReport Unit where
  admitted := []
  generated := [⟨0, token, none⟩, ⟨1, 0, none⟩]
  decisionsFinished := []
  decisionsFailed := []
  requestState _ := some .decoding
  cancels _ := true
  releasedSequenceDeviceBytes _ := 0

/-- What the client 1 receives when request 0 generates `token`. -/
def receivedBeside (token : Nat) : Option (List InferenceEvent) :=
  (Run.run (ServingActor.step noJson words 10 fun _ => "failed".toList) (start 4 0)
    [submits 0, submits 1, .tick (iteration token) 0, .proceed, .proceed, .receive 1]).map
      fun a => a.world.received 1

/-- The malformed call of request 0 ends request 1. -/
theorem malformed_call_fails_others :
    SameReport 0 (iteration 2) (iteration 0) ∧
      receivedBeside 0 = some [.output (.text ['a'])] ∧
      receivedBeside 2 = some [.error "failed".toList] :=
  ⟨⟨rfl, rfl, rfl, rfl, fun _ _ => rfl, fun _ _ => rfl⟩, rfl, rfl⟩

/-- The actor behind the submissions of both clients. -/
def bothSubmitted : ServingActor Unit Unit where
  world := { (World.init 4 : World Unit) with
    active := (BTreeMap.empty.insert 0 0).insert 1 1
    schedulerByExternal := (BTreeMap.empty.insert 0 0).insert 1 1
    submitted := [1, 0] }
  service := ⟨(BTreeMap.empty.insert 0 ⟨plainCodec, ResponseFilter.new [], ⟨1, 0, 0, 0⟩⟩).insert 1
    ⟨plainCodec, ResponseFilter.new [], ⟨1, 0, 0, 0⟩⟩, 0⟩

theorem letter_decodes {token : Nat} (h : token = 0 ∨ token = 1) :
    TickDecodes noJson words 0 bothSubmitted.service (iteration token) := by
  obtain rfl | rfl := h
  · exact ⟨⟨_, _, _, .cons 0 rfl (.nil _), nofun⟩, nofun⟩
  · exact ⟨⟨_, _, _, .cons 0 rfl (.nil _), nofun⟩, nofun⟩

/-- Two runs in which request 0 generates `a` and `b`. -/
def letterMoves : List (Move Unit) :=
  [.both (submits 0) (submits 0), .both (submits 1) (submits 1),
    .both (.tick (iteration 0) 0) (.tick (iteration 1) 0), .left .proceed, .right .proceed,
    .both .proceed .proceed, .both (.receive 1) (.receive 1)]

theorem letterMoves_path : ∃ pair,
    Run.Path (sideBySide noJson words 10 fun _ => []) (Allowed noJson words 0 0)
      (start 4 0, start 4 0) letterMoves pair ∧
      pair.1.world.received 1 = [.output (.text ['a'])] := by
  have hreport : SameReport 0 (iteration 0) (iteration 1) :=
    ⟨rfl, rfl, rfl, rfl, fun _ _ => rfl, fun _ _ => rfl⟩
  have hfresh : ∀ id n q : Nat, (fun _ => .ok id : Nat → Except Error EngineRequestId) n = .ok q →
      (q = 0 ↔ id = 0) := by
    intro id n q hq
    cases hq
    exact .rfl
  refine ⟨_, .cons ?submit0 rfl (.cons ?submit1 rfl (.cons ?tick rfl (.cons ?own rfl
    (.cons ?own' rfl (.cons ?proceed rfl (.cons ?receive rfl (.nil _))))))), rfl⟩
  case submit0 => exact ⟨rfl, rfl, rfl, hfresh 0⟩
  case submit1 => exact ⟨rfl, rfl, rfl, hfresh 1⟩
  case tick => exact ⟨hreport, letter_decodes (.inl rfl), letter_decodes (.inr rfl)⟩
  case own => exact .inl rfl
  case own' => exact .inl rfl
  case proceed => exact ⟨nofun, nofun⟩
  case receive => exact ⟨rfl, nofun⟩

/-- Client 1 receives its `a` in both. -/
theorem letters_isolated : ∃ pair : ServingActor Unit Unit × ServingActor Unit Unit,
    pair.1.world.received 1 = [.output (.text ['a'])] ∧
      SameReceived (pair.1.world.received 1) (pair.2.world.received 1) ∧
      SameReceived (pair.1.world.channels 1).buffer (pair.2.world.channels 1).buffer ∧
      pair.1.world.completions 1 = pair.2.world.completions 1 := by
  obtain ⟨pair, hpath, hreceived⟩ := letterMoves_path
  exact ⟨pair, hreceived, others_receive_the_same hpath Nat.one_ne_zero⟩

end Eider.Guarantees.RequestIsolation
