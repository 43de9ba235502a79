import Mathlib.Data.List.Dedup
import Eider.Lib.Run
import Eider.Source.Actor

/-!
# What a client has received when its request finishes

A delta that finds the client's channel full is dropped, and the actor only
notes the request as disconnected; it cancels it when the tick is over. Within
the tick nothing keeps a client from draining its channel, after which the
later deltas and the `Finished` event of the same tick go through. The client
then sees a response with a hole in it, with or without a normal end
(`gap_before_finished`).

Without such a receive the channel stays full and nothing of the request gets
through any more. This is the condition of the main theorem
(`finished_after_all_deltas`): in every run in which no client receives behind
a refused delta while the same tick still holds a delta or the `Finished` event
of its request, a client that has received `Finished` has received every delta
before it, and behind a refused delta a client receives only what its channel
held by then.
-/
namespace Eider.Guarantees.ActorDelivery
open Source Lib Lib.Run List Option Function

variable {κ : Type}
variable {w w' : World κ} {id : ActorRequestId} {event : InferenceEvent} {rest : Delivery κ}
variable {answer : Except Text EngineRequestId}

/-- The deltas among received events. -/
def outputs (events : List InferenceEvent) : List ChatOutputEvent :=
  events.filterMap fun
    | .output event => some event
    | _ => none

def isFinished : InferenceEvent → Bool
  | .finished _ _ => true
  | _ => false

def Unfinished (events : List InferenceEvent) : Prop := ∀ event ∈ events, isFinished event = false

/-- Deltas of the current tick that are still to be sent. -/
def pendingOutput (phase : Phase κ) (request : EngineRequestId) : List ChatOutputEvent :=
  match phase with
  | .delivering d => (d.output.filter fun delta => delta.requestId = request).map EngineDelta.event
  | _ => []

/-- Requests of which the current tick has dropped a delta. -/
def refused : Phase κ → List EngineRequestId
  | .delivering d => d.disconnected
  | _ => []

/-- Whether the current tick still holds the `Finished` event of a request. -/
def finishPending : Phase κ → EngineRequestId → Prop
  | .delivering d, request => ∃ finished ∈ d.finished, finished.requestId = request
  | _, _ => False

/-- The current tick still holds something of a request, a delta or the `Finished` event. -/
def Held (phase : Phase κ) (request : EngineRequestId) : Prop :=
  pendingOutput phase request ≠ [] ∨ finishPending phase request

/-- A client does not receive behind a refused delta while the same tick still
holds something of its request. -/
def Uninterrupted (w : World κ) : Action κ → Prop
  | .receive id => ∀ request, w.active.get request = some id →
      request ∈ refused w.phase → ¬ Held w.phase request
  | _ => True

/-- Everything that has gone into a channel. -/
def stream (w : World κ) (id : ActorRequestId) : List InferenceEvent :=
  w.received id ++ (w.channels id).buffer

/-- What clients have received in `w'`, a state behind `w`: before a `Finished` event all
deltas that the engine has produced, in order; and, where a delta was refused in `w`, neither
`Finished` nor any delta but those that had gone into the channel before. -/
structure DeliversAll (w w' : World κ) : Prop where
  finished : ∀ id before reason usage after,
    w'.received id = before ++ .finished reason usage :: after → outputs before = w'.produced id
  silent : ∀ id request, w.active.get request = some id → request ∈ refused w.phase →
    outputs (w'.received id) <+: outputs (stream w id) ∧ Unfinished (w'.received id)

def Blocked (w : World κ) (id : ActorRequestId) : Prop :=
  (w.channels id).closed = true ∨ w.eventCapacity ≤ (w.channels id).buffer.length

/-- The channels in which a delta was refused at some time, each with the deltas sent by then. -/
abbrev Losses := ActorRequestId → List ChatOutputEvent → Prop

variable {Lost : Losses}

/-- The invariant. A retained request has been sent all its deltas but the
pending ones, or has lost one and stays blocked while the tick holds something of it; a
request that is no longer retained has no `Finished` event in its channel, or
has it behind all its deltas. A channel that has lost a delta takes nothing more. -/
structure Faithful (Lost : Losses) (w : World κ) : Prop where
  injective : ∀ {s t x}, w.active.get s = some x → w.active.get t = some x → s = t
  known : ∀ {s x}, w.active.get s = some x → x ∈ w.submitted
  fresh : ∀ {x}, x ∉ w.submitted → stream w x = [] ∧ w.produced x = []
  unfinished : ∀ {s x}, w.active.get s = some x → Unfinished (stream w x)
  complete : ∀ {s x}, w.active.get s = some x → s ∉ refused w.phase →
    outputs (stream w x) ++ pendingOutput w.phase s = w.produced x
  blocked : ∀ {s x}, w.active.get s = some x → s ∈ refused w.phase → Held w.phase s → Blocked w x
  silent : ∀ {x sent}, Lost x sent → x ∈ w.submitted ∧ outputs (stream w x) = sent ∧
    Unfinished (stream w x) ∧ ∀ s, w.active.get s = some x → s ∈ refused w.phase
  settled : ∀ {x}, (∀ s, w.active.get s ≠ some x) → Unfinished (stream w x) ∨
    ∃ before reason usage, stream w x = before ++ [.finished reason usage] ∧
      Unfinished before ∧ outputs before = w.produced x

theorem init_faithful (capacity : Nat) :
    Faithful (fun _ _ => False) (World.init capacity : World κ) where
  injective h := by cases h
  known h := by cases h
  fresh _ := ⟨rfl, rfl⟩
  unfinished h := by cases h
  complete h := by cases h
  blocked h := by cases h
  silent h := h.elim
  settled _ := Or.inl fun _ hm => by cases hm

/-! ## Steps that only forget requests -/

/-- `w'` retains fewer requests and differs in nothing that a client sees. -/
structure Shrinks (w w' : World κ) : Prop where
  capacity : w'.eventCapacity = w.eventCapacity
  channels : w'.channels = w.channels
  received : w'.received = w.received
  produced : w'.produced = w.produced
  submitted : w'.submitted = w.submitted
  active : ∀ {s x}, w'.active.get s = some x → w.active.get s = some x

theorem Shrinks.refl (w : World κ) : Shrinks w w := ⟨rfl, rfl, rfl, rfl, rfl, id⟩

theorem Shrinks.trans {u v : World κ} (h : Shrinks u v) (h' : Shrinks v w) : Shrinks u w where
  capacity := h'.capacity.trans h.capacity
  channels := h'.channels.trans h.channels
  received := h'.received.trans h.received
  produced := h'.produced.trans h.produced
  submitted := h'.submitted.trans h.submitted
  active hs := h.active (h'.active hs)

theorem Shrinks.withPhase (h : Shrinks w w') (phase : Phase κ) :
    Shrinks w { w' with phase := phase } :=
  { h with }

theorem Shrinks.foldl {f : World κ → EngineRequestId → World κ} (hf : ∀ w s, Shrinks w (f w s))
    (requests : List EngineRequestId) (w : World κ) : Shrinks w (requests.foldl f w) := by
  induction requests generalizing w with
  | nil => exact Shrinks.refl w
  | cons s rest ih => exact (hf w s).trans (ih (f w s))

theorem forgetActive_shrinks (w : World κ) (s : EngineRequestId) :
    Shrinks w (w.forgetActive s) := by
  unfold World.forgetActive
  split
  · exact Shrinks.refl w
  · refine ⟨rfl, rfl, rfl, rfl, rfl, fun {t x} h => ?_⟩
    rw [BTreeMap.get_erase] at h
    split at h
    · cases h
    · exact h

theorem forgetActive_gone (w : World κ) (s : EngineRequestId) :
    (w.forgetActive s).active.get s = none := by
  unfold World.forgetActive
  split
  · assumption
  · exact BTreeMap.get_erase_self _ _

theorem forgetDecision_shrinks (w : World κ) (s : EngineRequestId) :
    Shrinks w (w.forgetDecision s) := by
  unfold World.forgetDecision
  split
  · exact Shrinks.refl w
  · exact ⟨rfl, rfl, rfl, rfl, rfl, id⟩

theorem complete_shrinks (w : World κ) (id : ActorRequestId) (result : Except Text κ) :
    Shrinks w (w.complete id result) := by
  unfold World.complete
  split
  · exact Shrinks.refl w
  · exact ⟨rfl, rfl, rfl, rfl, rfl, fun h => h⟩

theorem cancelSchedulerRequest_shrinks (w : World κ) (s : EngineRequestId) :
    Shrinks w (w.cancelSchedulerRequest s) :=
  (forgetActive_shrinks w s).trans (forgetDecision_shrinks _ s)

theorem cancelSchedulerRequest_phase (w : World κ) (s : EngineRequestId) :
    (w.cancelSchedulerRequest s).phase = w.phase := by
  unfold World.cancelSchedulerRequest World.forgetDecision World.forgetActive
  repeat' split
  all_goals rfl

theorem failRequest_shrinks (message : Text) (w : World κ) (s : EngineRequestId) :
    Shrinks w (w.failRequest message s) := by
  unfold World.failRequest
  dsimp only
  split
  · exact forgetActive_shrinks w s
  · exact ((forgetActive_shrinks w s).trans (forgetDecision_shrinks _ s)).trans
      (complete_shrinks _ _ _)

theorem cancel_foldl_gone {s : EngineRequestId} {requests : List EngineRequestId}
    (h : s ∈ requests) (w : World κ) :
    (requests.foldl World.cancelSchedulerRequest w).active.get s = none := by
  induction requests generalizing w with
  | nil => cases h
  | cons t rest ih =>
    rcases mem_cons.mp h with rfl | h
    · have hgone : (w.cancelSchedulerRequest s).active.get s = none := by
        cases hs : (w.cancelSchedulerRequest s).active.get s with
        | none => rfl
        | some x =>
          have := (forgetDecision_shrinks (w.forgetActive s) s).active hs
          rw [forgetActive_gone] at this
          cases this
      cases hs : (foldl World.cancelSchedulerRequest w (s :: rest)).active.get s with
      | none => rfl
      | some x =>
        have := (Shrinks.foldl cancelSchedulerRequest_shrinks rest _).active hs
        rw [hgone] at this
        cases this
    · exact ih h _

/-- Forgetting requests keeps the invariant, if the retained ones see no change
of phase. -/
theorem Faithful.of_shrinks (h : Faithful Lost w) (hs : Shrinks w w')
    (hrefused : ∀ {s x}, w'.active.get s = some x →
      (s ∈ refused w'.phase ↔ s ∈ refused w.phase)) (hpending : ∀ {s x}, w'.active.get s = some x →
      pendingOutput w'.phase s = pendingOutput w.phase s)
    (hfinish : ∀ {s x}, w'.active.get s = some x →
      finishPending w'.phase s → finishPending w.phase s) : Faithful Lost w' := by
  have hheld : ∀ {s x}, w'.active.get s = some x → Held w'.phase s → Held w.phase s :=
    fun ha => Or.imp (by rw [hpending ha]; exact id) (hfinish ha)
  have hstream : ∀ x, stream w' x = stream w x := fun x => by
    rw [stream, stream, hs.received, hs.channels]
  have hblocked : ∀ x, Blocked w x → Blocked w' x := fun x hx => by
    rw [Blocked, hs.channels, hs.capacity]
    exact hx
  constructor
  · exact fun ha hb => h.injective (hs.active ha) (hs.active hb)
  · intro s x ha
    rw [hs.submitted]
    exact h.known (hs.active ha)
  · intro x hx
    rw [hs.submitted] at hx
    rw [hstream, hs.produced]
    exact h.fresh hx
  · intro s x ha
    rw [hstream]
    exact h.unfinished (hs.active ha)
  · intro s x ha hr
    rw [hrefused ha] at hr
    rw [hstream, hs.produced, hpending ha]
    exact h.complete (hs.active ha) hr
  · intro s x ha hr hf
    exact hblocked x (h.blocked (hs.active ha) ((hrefused ha).mp hr) (hheld ha hf))
  · intro x sent hlost
    obtain ⟨hknown, hsent, hunfinished, hlast⟩ := h.silent hlost
    rw [hs.submitted, hstream]
    exact ⟨hknown, hsent, hunfinished, fun s ha => (hrefused ha).mpr (hlast s (hs.active ha))⟩
  · intro x hx
    rw [hstream, hs.produced]
    by_cases hretained : ∃ s, w.active.get s = some x
    · obtain ⟨s, hsx⟩ := hretained
      exact Or.inl (h.unfinished hsx)
    · exact h.settled fun s hsx => hretained ⟨s, hsx⟩

/-! ## Sends -/

theorem send_some (h : w.send id event = some w') :
    ¬ Blocked w id ∧ w' = { w with
      channels := update w.channels id
        ⟨(w.channels id).buffer ++ [event], (w.channels id).closed⟩ } := by
  obtain ⟨channel, hchannel, rfl⟩ := map_eq_some_iff.mp h
  unfold Channel.trySend at hchannel
  split at hchannel
  · cases hchannel
  · rename_i hopen
    cases hchannel
    refine ⟨fun hblocked => hopen ?_, rfl⟩
    simpa [Blocked] using hblocked

theorem send_none (h : w.send id event = none) : Blocked w id := by
  unfold World.send at h
  unfold Channel.trySend at h
  split at h
  · rename_i hblocked
    simpa [Blocked] using hblocked
  · cases h

/-- `w'` is `w` with one more event in the channel of `id`. -/
structure Appends (w w' : World κ) (id : ActorRequestId) (event : InferenceEvent) : Prop where
  capacity : w'.eventCapacity = w.eventCapacity
  active : w'.active = w.active
  submitted : w'.submitted = w.submitted
  produced : w'.produced = w.produced
  self : stream w' id = stream w id ++ [event]
  others : ∀ {x}, x ≠ id → stream w' x = stream w x ∧ w'.channels x = w.channels x

theorem appends_of_send (h : w.send id event = some w') (phase : Phase κ) :
    Appends w { w' with phase := phase } id event := by
  obtain ⟨-, rfl⟩ := send_some h
  refine ⟨rfl, rfl, rfl, rfl, ?_, fun {x} hx => ?_⟩
  · simp [stream]
  · simp [stream, update_of_ne hx]

/-- A delta or an error that goes through keeps the invariant. -/
theorem Faithful.of_appends {s₀ : EngineRequestId} {x₀ : ActorRequestId} (h : Faithful Lost w)
    (happ : Appends w w' x₀ event) (hactive : w.active.get s₀ = some x₀)
    (hevent : isFinished event = false)
    (hself : outputs [event] ++ pendingOutput w'.phase s₀ = pendingOutput w.phase s₀)
    (hopen : s₀ ∉ refused w.phase) (hrefused : refused w'.phase = refused w.phase)
    (hpending : ∀ {s}, s ≠ s₀ → pendingOutput w'.phase s = pendingOutput w.phase s)
    (hfinish : ∀ {s}, finishPending w'.phase s → finishPending w.phase s) : Faithful Lost w' := by
  have hne : ∀ {s x}, w.active.get s = some x → s ≠ s₀ → x ≠ x₀ := by
    rintro s x hs hs₀ rfl
    exact hs₀ (h.injective hs hactive)
  constructor
  · rw [happ.active]
    exact h.injective
  · rw [happ.active, happ.submitted]
    exact h.known
  · intro x hx
    rw [happ.submitted] at hx
    have hx₀ : x ≠ x₀ := by
      rintro rfl
      exact hx (h.known hactive)
    rw [(happ.others hx₀).1, happ.produced]
    exact h.fresh hx
  · intro s x hs
    rw [happ.active] at hs
    by_cases hs₀ : s = s₀
    · subst hs₀
      obtain rfl : x₀ = x := some.inj (hactive.symm.trans hs)
      rw [happ.self]
      exact forall_mem_append.mpr ⟨h.unfinished hs, forall_mem_singleton.mpr hevent⟩
    · rw [(happ.others (hne hs hs₀)).1]
      exact h.unfinished hs
  · intro s x hs hr
    rw [happ.active] at hs
    rw [happ.produced]
    by_cases hs₀ : s = s₀
    · subst hs₀
      obtain rfl : x₀ = x := some.inj (hactive.symm.trans hs)
      rw [happ.self, ← h.complete hs (hrefused ▸ hr), ← hself]
      simp [outputs]
    · rw [(happ.others (hne hs hs₀)).1, hpending hs₀]
      exact h.complete hs (hrefused ▸ hr)
  · intro s x hs hr hf
    rw [happ.active] at hs
    by_cases hs₀ : s = s₀
    · subst hs₀
      exact absurd (hrefused ▸ hr) hopen
    · have hheld : Held w.phase s := hf.imp (by rw [hpending hs₀]; exact id) hfinish
      have hblocked := h.blocked hs (hrefused ▸ hr) hheld
      rw [Blocked, (happ.others (hne hs hs₀)).2, happ.capacity]
      exact hblocked
  · intro x sent hlost
    obtain ⟨hknown, hsent, hunfinished, hlast⟩ := h.silent hlost
    have hx₀ : x ≠ x₀ := by
      rintro rfl
      exact hopen (hlast s₀ hactive)
    rw [happ.submitted, happ.active, (happ.others hx₀).1, hrefused]
    exact ⟨hknown, hsent, hunfinished, hlast⟩
  · intro x hx
    rw [happ.active] at hx
    have hx₀ : x ≠ x₀ := by
      rintro rfl
      exact hx s₀ hactive
    rw [(happ.others hx₀).1, happ.produced]
    exact h.settled hx

theorem Faithful.of_last {x₀ : ActorRequestId} (h : Faithful Lost w) (happ : Appends w w' x₀ event)
    (hgone : ∀ s, w.active.get s ≠ some x₀) (hknown : x₀ ∈ w.submitted)
    (hsettled : Unfinished (stream w x₀ ++ [event]) ∨
      ∃ before reason usage, stream w x₀ ++ [event] = before ++ [.finished reason usage] ∧
        Unfinished before ∧ outputs before = w.produced x₀)
    (hsilent : ∀ sent, ¬ Lost x₀ sent) (hphase : w'.phase = w.phase) : Faithful Lost w' := by
  have hne : ∀ {s x}, w.active.get s = some x → x ≠ x₀ := by
    rintro s x hs rfl
    exact hgone s hs
  constructor
  · rw [happ.active]
    exact h.injective
  · rw [happ.active, happ.submitted]
    exact h.known
  · intro x hx
    rw [happ.submitted] at hx
    have hx₀ : x ≠ x₀ := by
      rintro rfl
      exact hx hknown
    rw [(happ.others hx₀).1, happ.produced]
    exact h.fresh hx
  · intro s x hs
    rw [happ.active] at hs
    rw [(happ.others (hne hs)).1]
    exact h.unfinished hs
  · intro s x hs hr
    rw [happ.active] at hs
    rw [hphase] at hr ⊢
    rw [(happ.others (hne hs)).1, happ.produced]
    exact h.complete hs hr
  · intro s x hs hr hf
    rw [happ.active] at hs
    rw [hphase] at hr hf
    have hblocked := h.blocked hs hr hf
    rw [Blocked, (happ.others (hne hs)).2, happ.capacity]
    exact hblocked
  · intro x sent hlost
    have hx₀ : x ≠ x₀ := by
      rintro rfl
      exact hsilent sent hlost
    rw [happ.submitted, happ.active, (happ.others hx₀).1, hphase]
    exact h.silent hlost
  · intro x hx
    rw [happ.active] at hx
    rw [happ.produced]
    by_cases hx₀ : x = x₀
    · subst hx₀
      rw [happ.self]
      exact hsettled
    · rw [(happ.others hx₀).1]
      exact h.settled hx

/-! ## Steps of the tick -/

theorem pendingOutput_cons (delta : EngineDelta) (d : Delivery κ) (s : EngineRequestId) :
    pendingOutput (.delivering { d with output := delta :: d.output }) s =
      (if delta.requestId = s then [delta.event] else []) ++ pendingOutput (.delivering d) s := by
  unfold pendingOutput
  by_cases h : delta.requestId = s <;> simp [h]

theorem deliverOutput_faithful {delta : EngineDelta} (h : Faithful Lost w)
    (hphase : w.phase = .delivering { rest with output := delta :: rest.output }) :
    Faithful Lost (w.deliverOutput delta rest) := by
  have hpending : ∀ s, pendingOutput w.phase s =
      (if delta.requestId = s then [delta.event] else []) ++
        pendingOutput (.delivering rest) s := by
    intro s
    rw [hphase, pendingOutput_cons]
  have hother : ∀ {s}, s ≠ delta.requestId →
      pendingOutput (.delivering rest) s = pendingOutput w.phase s := by
    intro s hs
    rw [hpending, if_neg (Ne.symm hs), nil_append]
  have hrefused : refused w.phase = rest.disconnected := by
    rw [hphase]
    rfl
  have hfinish : ∀ {s}, finishPending (.delivering rest) s ↔ finishPending w.phase s := by
    intro s
    rw [hphase]
    rfl
  unfold World.deliverOutput
  cases hactive : w.active.get delta.requestId with
  | none =>
    -- the request is not retained, so nothing was pending for a retained one
    have hs : ∀ {s x}, w.active.get s = some x → s ≠ delta.requestId := by
      rintro s x hs rfl
      rw [hactive] at hs
      cases hs
    exact h.of_shrinks ⟨rfl, rfl, rfl, rfl, rfl, id⟩ (fun _ => by rw [hrefused]; rfl)
      (fun ha => hother (hs ha)) (fun _ hf => hfinish.mp hf)
  | some x =>
    cases hsend : w.send x (.output delta.event) with
    | some sent =>
      simp only [hsend]
      obtain ⟨hopen, -⟩ := send_some hsend
      refine h.of_appends (appends_of_send hsend (.delivering rest)) hactive rfl ?_ ?_ hrefused.symm
        hother hfinish.mp
      · simp [outputs, hpending]
      · -- a request that has lost a delta would still be blocked
        exact fun hr => hopen (h.blocked hactive hr (Or.inl (by simp [hpending])))
    | none =>
      simp only [hsend]
      have hne : ∀ {s}, s ∉ refused (.delivering
          ({ rest with disconnected := rest.disconnected ++ [delta.requestId] } : Delivery κ)) →
          s ≠ delta.requestId ∧ s ∉ refused w.phase := by
        intro s hs
        rw [hrefused]
        simpa [refused, not_or, and_comm] using hs
      constructor
      · exact h.injective
      · exact h.known
      · exact h.fresh
      · exact h.unfinished
      · intro s y hs hr
        refine (congrArg _ ?_).trans (h.complete hs (hne hr).2)
        exact hother (hne hr).1
      · intro s y hs hr hf
        by_cases hs₀ : s = delta.requestId
        · subst hs₀
          obtain rfl : x = y := some.inj (hactive.symm.trans hs)
          have hblocked : Blocked w x := send_none hsend
          exact hblocked
        · have hheld : Held w.phase s := hf.imp (by rw [← hother hs₀]; exact id) hfinish.mp
          refine h.blocked hs ?_ hheld
          rw [hrefused]
          simpa [refused, hs₀] using hr
      · intro y sent hlost
        obtain ⟨hknown, hsent, hunfinished, hlast⟩ := h.silent hlost
        refine ⟨hknown, hsent, hunfinished, fun s hs => ?_⟩
        have hr := hlast s hs
        rw [hrefused] at hr
        exact mem_append_left _ hr
      · exact h.settled

theorem deliverFinished_faithful {finished : EngineFinished} (h : Faithful Lost w)
    (hempty : rest.output = [])
    (hphase : w.phase = .delivering { rest with finished := finished :: rest.finished }) :
    Faithful Lost (w.deliverFinished finished rest) := by
  have hpending : ∀ s, pendingOutput w.phase s = [] := by
    intro s
    rw [hphase]
    simp [pendingOutput, hempty]
  have hpending' : ∀ s, pendingOutput (.delivering rest) s = [] := by
    intro s
    simp [pendingOutput, hempty]
  have hrefused : refused w.phase = refused (.delivering rest) := by
    rw [hphase]
    rfl
  have hfinish : ∀ {s}, finishPending (.delivering rest) s → finishPending w.phase s := by
    rintro s ⟨f, hf, hs⟩
    rw [hphase]
    exact ⟨f, mem_cons_of_mem _ hf, hs⟩
  unfold World.deliverFinished
  cases hactive : w.active.get finished.requestId with
  | none =>
    exact h.of_shrinks ⟨rfl, rfl, rfl, rfl, rfl, id⟩ (fun _ => by rw [hrefused])
      (fun _ => (hpending' _).trans (hpending _).symm) (fun _ hf => hfinish hf)
  | some x =>
    have hshrunk : Faithful Lost { w.forgetActive finished.requestId with phase := .delivering rest } :=
      h.of_shrinks ((forgetActive_shrinks w finished.requestId).withPhase _)
        (fun _ => by rw [hrefused])
        (fun _ => (hpending' _).trans (hpending _).symm) (fun _ hf => hfinish hf)
    cases hsend : (w.forgetActive finished.requestId).send x
        (.finished finished.finishReason finished.usage) with
    | none =>
      simp only [World.sendOrDrop, hsend, getD_none]
      exact hshrunk
    | some sent =>
      simp only [World.sendOrDrop, hsend, getD_some]
      have hshrinks := forgetActive_shrinks w finished.requestId
      have hopen : ¬ Blocked w x := by
        have := (send_some hsend).1
        rwa [Blocked, hshrinks.channels, hshrinks.capacity] at this
      have hnotRefused : finished.requestId ∉ refused w.phase := fun hr =>
        hopen (h.blocked hactive hr (Or.inr (by rw [hphase]; exact ⟨finished, mem_cons_self, rfl⟩)))
      have hstream : stream (w.forgetActive finished.requestId) x = stream w x := by
        rw [stream, stream, hshrinks.received, hshrinks.channels]
      have happ := appends_of_send hsend (.delivering rest)
      refine hshrunk.of_last ⟨happ.capacity, happ.active, happ.submitted, happ.produced,
        happ.self, happ.others⟩ ?_ ?_ (Or.inr ⟨stream w x, finished.finishReason, finished.usage,
          ?_, h.unfinished hactive, ?_⟩) ?_ rfl
      · intro s hs
        have hs' := hshrinks.active hs
        obtain rfl := h.injective hs' hactive
        rw [forgetActive_gone] at hs
        cases hs
      · rw [hshrinks.submitted]
        exact h.known hactive
      · show stream (w.forgetActive finished.requestId) x ++ _ = _
        rw [hstream]
      · rw [hshrinks.produced, ← h.complete hactive hnotRefused, hpending, append_nil]
      · exact fun sent hlost => hnotRefused ((h.silent hlost).2.2.2 _ hactive)

theorem deliverDecision_faithful {request : EngineRequestId} {result : Except Text κ}
    {d : Delivery κ} (h : Faithful Lost w) (hphase : w.phase = .delivering d)
    (houtput : rest.output = d.output) (hfinished : rest.finished = d.finished)
    (hrefused : rest.disconnected = d.disconnected) :
    Faithful Lost (w.deliverDecision request result rest) := by
  have hkeep : ∀ {w' : World κ}, Shrinks w w' → Faithful Lost { w' with phase := .delivering rest } := by
    intro w' hs
    refine h.of_shrinks (hs.withPhase _) (fun _ => ?_) (fun _ => ?_) (fun _ hf => ?_)
    · rw [hphase]
      simp [refused, hrefused]
    · rw [hphase]
      simp [pendingOutput, houtput]
    · rw [hphase]
      simpa [finishPending, hfinished] using hf
  unfold World.deliverDecision
  split
  · exact hkeep (Shrinks.refl w)
  · exact hkeep ((forgetDecision_shrinks w request).trans (complete_shrinks _ _ _))

theorem cancelDisconnected_faithful {disconnected : List EngineRequestId} (h : Faithful Lost w)
    (hphase : w.phase = .delivering ⟨[], [], [], [], disconnected⟩) :
    Faithful Lost (w.cancelDisconnected disconnected) := by
  unfold World.cancelDisconnected
  dsimp only
  generalize hlist : (disconnected ++ _).mergeSort.dedup = requests
  have hmem : ∀ {s}, s ∈ disconnected → s ∈ requests := by
    intro s hs
    rw [← hlist, mem_dedup, mem_mergeSort]
    exact mem_append_left _ hs
  refine h.of_shrinks ((Shrinks.foldl cancelSchedulerRequest_shrinks requests w).withPhase _)
    (fun {s x} hs => ?_) (fun _ => ?_) (fun _ hf => hf.elim)
  · -- a request that is still retained was not refused
    refine ⟨fun hr => (not_mem_nil hr).elim, fun hr => ?_⟩
    rw [hphase] at hr
    have hgone := cancel_foldl_gone (hmem hr) w
    rw [hgone] at hs
    cases hs
  · rw [hphase]
    rfl

theorem proceed_faithful {d : Delivery κ} (h : Faithful Lost w) (hphase : w.phase = .delivering d) :
    Faithful Lost (w.proceed d) := by
  unfold World.proceed
  split
  · exact deliverOutput_faithful h hphase
  · exact deliverFinished_faithful h rfl hphase
  · exact deliverDecision_faithful h hphase rfl rfl rfl
  · exact deliverDecision_faithful h hphase rfl rfl rfl
  · exact cancelDisconnected_faithful h hphase

/-- A phase that holds nothing of a tick. -/
structure Quiet (phase : Phase κ) : Prop where
  output : ∀ s, pendingOutput phase s = []
  refused : refused phase = []
  finished : ∀ s, ¬ finishPending phase s

theorem idle_quiet : Quiet (.idle : Phase κ) := ⟨fun _ => rfl, rfl, fun _ => id⟩

theorem stopped_quiet : Quiet (.stopped : Phase κ) := ⟨fun _ => rfl, rfl, fun _ => id⟩

theorem failing_quiet (remaining : List EngineRequestId) (message : Text) :
    Quiet (.failing remaining message : Phase κ) := ⟨fun _ => rfl, rfl, fun _ => id⟩

theorem Faithful.of_quiet {phase : Phase κ} (h : Faithful Lost w) (hquiet : Quiet w.phase)
    (hs : Shrinks w w') (hquiet' : Quiet phase) : Faithful Lost { w' with phase := phase } := by
  refine h.of_shrinks (hs.withPhase _) (fun _ => ?_) (fun _ => ?_)
    (fun _ hf => (hquiet'.finished _ hf).elim)
  · rw [hquiet.refused, hquiet'.refused]
  · exact (hquiet'.output _).trans (hquiet.output _).symm

theorem proceedFailing_faithful {message : Text} {remaining : List EngineRequestId}
    (h : Faithful Lost w) (hphase : w.phase = .failing remaining message) :
    Faithful Lost (w.proceedFailing message remaining) := by
  have hquiet : Quiet w.phase := by
    rw [hphase]
    exact failing_quiet _ _
  unfold World.proceedFailing
  split
  · exact h.of_quiet hquiet (Shrinks.foldl (failRequest_shrinks message) _ w) idle_quiet
  · rename_i request rest
    split
    · exact h.of_quiet hquiet (Shrinks.refl w) (failing_quiet _ _)
    · rename_i x hactive
      unfold World.sendOrDrop
      cases hsend : w.send x (.error message) with
      | none => exact h.of_quiet hquiet (Shrinks.refl w) (failing_quiet _ _)
      | some sent =>
        exact h.of_appends (appends_of_send hsend (.failing rest message)) hactive rfl
          (hquiet.output _).symm (by rw [hquiet.refused]; exact not_mem_nil)
          hquiet.refused.symm (fun _ => (hquiet.output _).symm) (fun hf => hf.elim)

/-! ## Commands and clients -/

theorem Faithful.of_submitted (h : Faithful Lost w) (id : ActorRequestId) :
    Faithful Lost { w with submitted := id :: w.submitted } where
  injective := h.injective
  known hs := mem_cons_of_mem _ (h.known hs)
  fresh hx := h.fresh fun hmem => hx (mem_cons_of_mem _ hmem)
  unfinished := h.unfinished
  complete := h.complete
  blocked := h.blocked
  silent hlost := ⟨mem_cons_of_mem _ (h.silent hlost).1, (h.silent hlost).2⟩
  settled := h.settled

theorem submit_faithful (h : Faithful Lost w)
    (hphase : w.phase = .idle) (hnew : id ∉ w.submitted) : Faithful Lost (w.submit id answer) := by
  have hnotActive : ∀ s, w.active.get s ≠ some id := fun s hs => hnew (h.known hs)
  obtain ⟨hstream, hproduced⟩ := h.fresh hnew
  cases answer with
  | ok request =>
    unfold World.submit
    -- the new request, or a request that was retained before
    have hcases : ∀ {s x}, (w.active.insert request id).get s = some x →
        (s = request ∧ x = id) ∨ (x ≠ id ∧ w.active.get s = some x) := by
      intro s x hs
      rw [BTreeMap.get_insert] at hs
      split at hs
      · rename_i heq
        exact Or.inl ⟨heq.symm, (some.inj hs).symm⟩
      · exact Or.inr ⟨fun hx => hnotActive s (hx ▸ hs), hs⟩
    constructor
    · intro s t x hs ht
      rcases hcases hs with ⟨rfl, rfl⟩ | ⟨hx, hs⟩
      · rcases hcases ht with ⟨rfl, -⟩ | ⟨hx, -⟩
        · rfl
        · exact absurd rfl hx
      · rcases hcases ht with ⟨-, rfl⟩ | ⟨-, ht⟩
        · exact absurd rfl hx
        · exact h.injective hs ht
    · intro s x hs
      rcases hcases hs with ⟨-, rfl⟩ | ⟨-, hs⟩
      · exact mem_cons_self
      · exact mem_cons_of_mem _ (h.known hs)
    · intro x hx
      exact h.fresh fun hmem => hx (mem_cons_of_mem _ hmem)
    · intro s x hs
      rcases hcases hs with ⟨-, rfl⟩ | ⟨-, hs⟩
      · change Unfinished (stream w x)
        rw [hstream]
        exact fun _ hm => by cases hm
      · exact h.unfinished hs
    · intro s x hs hr
      rcases hcases hs with ⟨-, rfl⟩ | ⟨-, hs⟩
      · change outputs (stream w x) ++ pendingOutput w.phase s = w.produced x
        rw [hstream, hproduced, hphase]
        rfl
      · exact h.complete hs hr
    · intro s x _ hr
      rw [hphase] at hr
      cases hr
    · intro x sent hlost
      obtain ⟨hknown, hsent, hunfinished, hlast⟩ := h.silent hlost
      refine ⟨mem_cons_of_mem _ hknown, hsent, hunfinished, fun s hs => ?_⟩
      rcases hcases hs with ⟨-, rfl⟩ | ⟨-, hs⟩
      · exact absurd hknown hnew
      · exact hlast s hs
    · intro x hx
      by_cases hretained : ∃ s, w.active.get s = some x
      · obtain ⟨s, hs⟩ := hretained
        exact Or.inl (h.unfinished hs)
      · exact h.settled fun s hs => hretained ⟨s, hs⟩
  | error message =>
    have htaken := h.of_submitted id
    cases hsend : w.send id (.error message) with
    | none =>
      simp only [World.submit, World.sendOrDrop, hsend, getD_none]
      exact htaken
    | some sent =>
      simp only [World.submit, World.sendOrDrop, hsend, getD_some]
      have happ := appends_of_send hsend w.phase
      obtain ⟨-, rfl⟩ := send_some hsend
      refine htaken.of_last ⟨happ.capacity, happ.active, rfl, happ.produced, happ.self,
        happ.others⟩ hnotActive mem_cons_self (Or.inl ?_)
        (fun sent hlost => hnew (h.silent hlost).1) rfl
      change Unfinished (stream w id ++ _)
      rw [hstream]
      intro event hevent
      rw [mem_singleton.mp hevent]
      rfl

theorem submitDecision_faithful (h : Faithful Lost w) :
    Faithful Lost (w.submitDecision id answer) := by
  have htaken := h.of_submitted id
  unfold World.submitDecision
  cases answer with
  | ok request =>
    exact htaken.of_shrinks ⟨rfl, rfl, rfl, rfl, rfl, fun hs => hs⟩ (fun _ => Iff.rfl)
      (fun _ => rfl) (fun _ hf => hf)
  | error message =>
    have hs := complete_shrinks w id (.error message)
    have hphase : (w.complete id (.error message)).phase = w.phase := by
      unfold World.complete
      split <;> rfl
    refine htaken.of_shrinks { hs with submitted := rfl }
      (fun _ => ?_) (fun _ => ?_) (fun _ hf => ?_)
    · simp only [hphase]
    · simp only [hphase]
    · simpa only [hphase] using hf

theorem beginTick_faithful {answer : Except Text (EngineTick κ)} (h : Faithful Lost w)
    (hphase : w.phase = .idle) : Faithful Lost (w.beginTick answer) := by
  have hquiet : Quiet w.phase := by
    rw [hphase]
    exact idle_quiet
  cases answer with
  | error message => exact h.of_quiet hquiet (Shrinks.refl w) (failing_quiet _ _)
  | ok tick =>
    -- the deltas of a retained request become pending and are recorded as produced
    have hdeltas : ∀ {s x}, w.active.get s = some x → w.deltasOf tick.output x =
        (tick.output.filter fun delta => delta.requestId = s).map EngineDelta.event := by
      intro s x hs
      unfold World.deltasOf
      congr 1
      refine filter_congr fun delta _ => ?_
      refine decide_eq_decide.mpr ⟨fun hd => h.injective hd hs, ?_⟩
      rintro rfl
      exact hs
    have hnone : ∀ {x}, (∀ s, w.active.get s ≠ some x) → w.deltasOf tick.output x = [] := by
      intro x hx
      unfold World.deltasOf
      rw [filter_eq_nil_iff.mpr fun delta _ => by simpa using hx delta.requestId]
      rfl
    constructor
    · exact h.injective
    · exact h.known
    · intro x hx
      obtain ⟨hstream, hproduced⟩ := h.fresh hx
      refine ⟨hstream, ?_⟩
      change w.produced x ++ w.deltasOf tick.output x = []
      rw [hproduced, hnone fun s hs => hx (h.known hs)]
      rfl
    · exact h.unfinished
    · intro s x hs _
      have hcomplete := h.complete hs (by rw [hquiet.refused]; exact not_mem_nil)
      change outputs (stream w x) ++ _ = w.produced x ++ w.deltasOf tick.output x
      rw [← hcomplete, hquiet.output, append_nil, hdeltas hs]
      rfl
    · exact fun _ hr => (not_mem_nil hr).elim
    · intro x sent hlost
      obtain ⟨hknown, hsent, hunfinished, hlast⟩ := h.silent hlost
      rw [hquiet.refused] at hlast
      exact ⟨hknown, hsent, hunfinished, hlast⟩
    · intro x hx
      have hsettled := h.settled hx
      change Unfinished (stream w x) ∨ ∃ before reason usage, stream w x = _ ∧ _ ∧
        outputs before = w.produced x ++ w.deltasOf tick.output x
      rw [hnone hx, append_nil]
      exact hsettled

theorem Faithful.of_same_streams (h : Faithful Lost w) (hactive : w'.active = w.active)
    (hsubmitted : w'.submitted = w.submitted) (hproduced : w'.produced = w.produced)
    (hstream : ∀ x, stream w' x = stream w x)
    (hblocked : ∀ {s x}, w.active.get s = some x → s ∈ refused w.phase →
      Held w.phase s → Blocked w' x) (hphase : w'.phase = w.phase) : Faithful Lost w' := by
  constructor
  · rw [hactive]
    exact h.injective
  · rw [hactive, hsubmitted]
    exact h.known
  · simp only [hsubmitted, hproduced, hstream]
    exact h.fresh
  · simp only [hactive, hstream]
    exact h.unfinished
  · simp only [hactive, hstream, hphase, hproduced]
    exact h.complete
  · rw [hactive, hphase]
    exact hblocked
  · simp only [hactive, hsubmitted, hstream, hphase]
    exact h.silent
  · simp only [hactive, hstream, hproduced]
    exact h.settled

theorem receive_faithful (h : Faithful Lost w) (hguard : Uninterrupted w (.receive id))
    (hstep : w.receive id = some w') : Faithful Lost w' := by
  unfold World.receive at hstep
  dsimp only at hstep
  split at hstep
  · cases hstep
  · rename_i event buffer hbuffer
    split at hstep
    · cases hstep
    · cases hstep
      -- the event moves from the channel to the client
      refine h.of_same_streams rfl rfl rfl (fun x => ?_) (fun {s x} hs hr hf => ?_) rfl
      · by_cases hx : x = id
        · subst hx
          simp [stream, hbuffer]
        · simp [stream, update_of_ne hx]
      · have hx : x ≠ id := by
          rintro rfl
          exact hguard s hs hr hf
        have hblocked := h.blocked hs hr hf
        simpa [Blocked, update_of_ne hx] using hblocked

theorem close_faithful (h : Faithful Lost w) : Faithful Lost (w.close id) := by
  refine h.of_same_streams rfl rfl rfl (fun x => ?_) (fun {s x} hs hr hf => ?_) rfl
  · by_cases hx : x = id
    · subst hx
      simp [stream, World.close]
    · simp [stream, World.close, update_of_ne hx]
  · by_cases hx : x = id
    · subst hx
      exact Or.inl (by simp [World.close])
    · have hblocked := h.blocked hs hr hf
      simpa [Blocked, World.close, update_of_ne hx] using hblocked

/-! ## Whole runs -/

theorem step_faithful {action : Action κ} (h : Faithful Lost w) (hguard : Uninterrupted w action)
    (hstep : w.step action = some w') : Faithful Lost w' := by
  cases action with
  | receive id => exact receive_faithful h hguard hstep
  | close id =>
    cases hstep
    exact close_faithful h
  | submit id answer =>
    obtain ⟨hphase, hnew, rfl⟩ := World.step_submit hstep
    exact submit_faithful h hphase hnew
  | submitDecision id answer =>
    obtain ⟨-, -, rfl⟩ := World.step_submitDecision hstep
    exact submitDecision_faithful h
  | cancel id =>
    obtain ⟨-, rfl⟩ := World.step_cancel hstep
    split
    · exact h
    · rename_i request hrequest
      have hsame := cancelSchedulerRequest_phase w request
      refine h.of_shrinks (cancelSchedulerRequest_shrinks w request) (fun _ => ?_) (fun _ => ?_)
        (fun _ hf => ?_)
      · rw [hsame]
      · rw [hsame]
      · rwa [hsame] at hf
  | shutdown =>
    obtain ⟨hphase, rfl⟩ := World.step_shutdown hstep
    exact h.of_quiet (hphase ▸ idle_quiet)
      (Shrinks.foldl cancelSchedulerRequest_shrinks _ w) stopped_quiet
  | tick answer =>
    obtain ⟨hphase, rfl⟩ := World.step_tick hstep
    exact beginTick_faithful h hphase
  | proceed =>
    obtain ⟨d, hphase, rfl⟩ | ⟨remaining, message, hphase, rfl⟩ := World.step_proceed hstep
    · exact proceed_faithful h hphase
    · exact proceedFailing_faithful h hphase

theorem before_finished_eq {before after front : List InferenceEvent} {e e' : InferenceEvent}
    (he : isFinished e = true) (hfront : Unfinished front)
    (h : before ++ e :: after = front ++ [e']) : before = front := by
  rcases append_eq_append_iff.mp h with ⟨mid, hmid, hrest⟩ | ⟨mid, hmid, hrest⟩
  · cases mid with
    | nil => rw [hmid, append_nil]
    | cons a mid =>
      obtain rfl : e = a := (cons.inj hrest).1
      have := hfront e (by simp [hmid])
      rw [he] at this
      cases this
  · have hlen := congrArg length hrest
    simp only [length_append, length_cons, length_nil] at hlen
    obtain rfl : mid = [] := length_eq_zero_iff.mp (by omega)
    rw [hmid, append_nil]

/-- From a reached state on the losses of that state are kept in view. -/
theorem Faithful.mark (h : Faithful (fun _ _ => False) w) :
    Faithful (fun x sent => outputs (stream w x) = sent ∧
      ∃ s, w.active.get s = some x ∧ s ∈ refused w.phase) w where
  injective := h.injective
  known := h.known
  fresh := h.fresh
  unfinished := h.unfinished
  complete := h.complete
  blocked := h.blocked
  silent := by
    rintro x sent ⟨hsent, s, hs, hr⟩
    refine ⟨h.known hs, hsent, h.unfinished hs, fun t ht => ?_⟩
    rwa [h.injective ht hs]
  settled := h.settled

/-- A run, seen in some state `w` that it passes and in `w'`, in which the client of no request
receives behind a refused delta while the same tick still holds something of the request: whoever
has received `Finished` has received every delta of its request before it, in order, and nothing
of a request is received behind a delta that was refused. -/
theorem finished_after_all_deltas {capacity : Nat} {actions behind : List (Action κ)}
    {w w' : World κ} (run : Path World.step Uninterrupted (World.init capacity) actions w)
    (further : Path World.step Uninterrupted w behind w') : DeliversAll w w' := by
  have hw := run.invariant step_faithful (init_faithful capacity)
  have h := further.invariant step_faithful hw.mark
  constructor
  · intro id before reason usage after hreceived
    have hmem : InferenceEvent.finished reason usage ∈ stream w' id := by
      rw [stream, hreceived]
      simp
    have hgone : ∀ s, w'.active.get s ≠ some id := fun s hs => by
      have := h.unfinished hs _ hmem
      cases this
    rcases h.settled hgone with hunfinished | ⟨front, r, u, hstream, hfront, hall⟩
    · have := hunfinished _ hmem
      cases this
    · -- the only `Finished` event of the channel is the last one
      rw [stream, hreceived, append_assoc, cons_append] at hstream
      rw [before_finished_eq rfl hfront hstream]
      exact hall
  · intro id request hactive hrefused
    obtain ⟨-, hsent, hunfinished, -⟩ := h.silent ⟨rfl, request, hactive, hrefused⟩
    refine ⟨?_, fun event hevent => hunfinished event (mem_append_left _ hevent)⟩
    rw [← hsent, stream, outputs, outputs, filterMap_append]
    exact prefix_append _ _

/-- Two deltas of one request and its end in one tick, or three deltas: on a channel of one slot
the second delta is refused. -/
def gapTick (ends : Bool) : List (Action Unit) :=
  [.submit 0 (.ok 7), .tick (.ok {
      output := [⟨7, .text "a"⟩, ⟨7, .text "b"⟩] ++ if ends then [] else [⟨7, .text "c"⟩]
      finished := if ends then [⟨7, .eos, ⟨1, 0, 2, 0⟩, 0⟩] else []
      decisionsFinished := []
      decisionsFailed := [] }),
    .proceed, .proceed]

/-- The client receives the first delta, and what stands behind the second goes through. -/
def gapBehind : List (Action Unit) := [.receive 0, .proceed, .receive 0]

/-- The run meets the tick and what stands behind it, and does not deliver all. -/
def Gap (ends : Bool) : Prop :=
  ∃ w w', Lib.Run.run World.step (World.init 1) (gapTick ends) = some w ∧
    Lib.Run.run World.step w gapBehind = some w' ∧ ¬ DeliversAll w w'

/-- A client receives `Finished` without the second delta, another the third delta without it. -/
theorem gap_before_finished : Gap true ∧ Gap false := by
  constructor
  · refine ⟨_, _, rfl, rfl, fun h => ?_⟩
    have hgap := h.finished 0 [.output (.text "a")] .eos ⟨1, 0, 2, 0⟩ [] rfl
    have hlen := congrArg length hgap
    exact absurd hlen (by decide)
  · refine ⟨_, _, rfl, rfl, fun h => ?_⟩
    have hlen := (h.silent 0 7 rfl (by decide)).1.length_le
    exact absurd hlen (by decide)

/-- A tick on a channel with room for it, which a client receives whole, and one on a channel of
one slot, of which the client receives the first delta when the tick is over. -/
theorem finished_after_all_deltas_with_room : (∃ w, Path World.step Uninterrupted (World.init 3)
        [.submit 0 (.ok 7), .tick (.ok ⟨[⟨7, .text "a"⟩, ⟨7, .text "b"⟩],
          [⟨7, .eos, ⟨1, 0, 2, 0⟩, 0⟩], [], []⟩), .proceed, .proceed, .proceed, .receive 0,
          .receive 0, .receive 0] (w : World Unit) ∧ DeliversAll w w) ∧
      ∃ w w', Path World.step Uninterrupted (World.init 1) (gapTick false) w ∧
        Path World.step Uninterrupted w [.proceed, .receive 0] w' ∧
        w'.received 0 = [.output (.text "a")] ∧ DeliversAll w w' := by
  constructor
  · have run : ∃ w, Path World.step Uninterrupted (World.init 3)
        [.submit 0 (.ok 7), .tick (.ok ⟨[⟨7, .text "a"⟩, ⟨7, .text "b"⟩],
          [⟨7, .eos, ⟨1, 0, 2, 0⟩, 0⟩], [], []⟩), .proceed, .proceed, .proceed, .receive 0,
          .receive 0, .receive 0] (w : World Unit) := by
      refine ⟨_, .cons trivial rfl (.cons trivial rfl (.cons trivial rfl (.cons trivial rfl
        (.cons trivial rfl (.cons ?_ rfl (.cons ?_ rfl (.cons ?_ rfl (.nil _))))))))⟩ <;>
      · intro request _ hr
        exact (not_mem_nil hr).elim
    obtain ⟨w, hw⟩ := run
    exact ⟨w, hw, finished_after_all_deltas hw (.nil _)⟩
  · have run : ∃ w w', Path World.step Uninterrupted (World.init 1) (gapTick false) w ∧
        Path World.step Uninterrupted w [.proceed, .receive 0] w' ∧
        w'.received 0 = [.output (.text "a")] := by
      refine ⟨_, _, .cons trivial rfl (.cons trivial rfl (.cons trivial rfl (.cons trivial rfl
        (.nil _)))), .cons trivial rfl (.cons ?_ rfl (.nil _)), rfl⟩
      -- nothing of the request is left in the tick
      rintro request _ _ (hheld | ⟨finished, hfinished, -⟩)
      · exact hheld rfl
      · cases hfinished
    obtain ⟨w, w', hw, hw', hreceived⟩ := run
    exact ⟨w, w', hw, hw', hreceived, finished_after_all_deltas hw hw'⟩

end Eider.Guarantees.ActorDelivery
