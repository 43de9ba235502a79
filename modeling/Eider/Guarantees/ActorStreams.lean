import Eider.Guarantees.ActorMaps

/-!
# What a client is sent, in every order of steps

Deltas may be lost, but those in a client's channel are deltas that the engine has produced for
it, in their order and each at most once.
-/
namespace Eider.Guarantees.ActorStreams
open Function
open Source Lib Lib.Run Guarantees.ActorDelivery List
open Guarantees.ActorMaps

variable {κ : Type}
variable {w w' : World κ} {id : ActorRequestId} {event : InferenceEvent} {rest : Delivery κ}
variable {phase : Phase κ}

theorem outputs_append (events more : List InferenceEvent) :
    outputs (events ++ more) = outputs events ++ outputs more := filterMap_append

/-- A client has a part of what was produced for it. The pending deltas of a retained request
still fit behind that part. -/
structure Ordered (w : World κ) : Prop where
  active : ∀ {s x}, w.active.get s = some x →
    (outputs (stream w x) ++ pendingOutput w.phase s).Sublist (w.produced x)
  kept : ∀ x, (outputs (stream w x)).Sublist (w.produced x)

theorem init_ordered (capacity : Nat) : Ordered (World.init capacity : World κ) where
  active h := by cases h
  kept _ := Sublist.refl _

/-! ## Steps that send nothing -/

theorem Ordered.of_shrinks (h : Ordered w) (hs : Shrinks w w')
    (hpending : ∀ s, (pendingOutput w'.phase s).Sublist (pendingOutput w.phase s)) :
    Ordered w' := by
  have hstream : ∀ x, stream w' x = stream w x := fun x => by
    rw [stream, stream, hs.received, hs.channels]
  constructor
  · intro s x ha
    rw [hstream, hs.produced]
    exact ((hpending s).append_left _).trans (h.active (hs.active ha))
  · intro x
    rw [hstream, hs.produced]
    exact h.kept x

theorem Ordered.of_empty (h : Ordered w) (hs : Shrinks w w')
    (hempty : ∀ s, pendingOutput phase s = []) : Ordered { w' with phase := phase } := by
  refine h.of_shrinks (hs.withPhase phase) fun s => ?_
  rw [hempty]
  exact nil_sublist _

theorem Ordered.of_channels {channels : ActorRequestId → Channel}
    {received : ActorRequestId → List InferenceEvent} {closed : ActorRequestId → Bool}
    (h : Ordered w) (hstream : ∀ x, received x ++ (channels x).buffer = stream w x) :
    Ordered { w with channels := channels, received := received, completionClosed := closed } where
  active ha := by
    simp only [stream, hstream]
    exact h.active ha
  kept x := by
    simp only [stream, hstream]
    exact h.kept x

/-! ## Sends -/

/-- An event that goes through, when its deltas are the next of its request. -/
theorem Ordered.of_send {sent : World κ} (h : Ordered { w with phase := phase })
    (hsend : w.send id event = some sent)
    (hkept : (outputs (stream w id) ++ outputs [event]).Sublist (w.produced id))
    (hself : ∀ s, w.active.get s = some id →
      (outputs (stream w id) ++ outputs [event] ++ pendingOutput phase s).Sublist
        (w.produced id)) : Ordered { sent with phase := phase } := by
  have happ := appends_of_send hsend phase
  obtain ⟨hroom, rfl⟩ := send_some hsend
  constructor
  · intro s x hs
    by_cases hx : x = id
    · subst hx
      rw [happ.self, outputs_append]
      exact hself s hs
    · rw [(happ.others hx).1]
      exact h.active hs
  · intro x
    by_cases hx : x = id
    · subst hx
      rw [happ.self, outputs_append]
      exact hkept
    · rw [(happ.others hx).1]
      exact h.kept x

/-- An event without a delta, in a phase where nothing is pending. -/
theorem Ordered.sendOrDrop (h : Ordered { w with phase := phase }) (hnone : outputs [event] = [])
    (hempty : ∀ s, pendingOutput phase s = []) :
    Ordered { w.sendOrDrop id event with phase := phase } := by
  unfold World.sendOrDrop
  cases hsend : w.send id event with
  | none => exact h
  | some sent =>
    have hkept : (outputs (stream w id) ++ outputs [event]).Sublist (w.produced id) := by
      rw [hnone, append_nil]
      exact h.kept id
    refine h.of_send hsend hkept fun s _ => ?_
    rw [hempty, append_nil]
    exact hkept

theorem deliverOutput_ordered {delta : EngineDelta} (hs : Settled w) (h : Ordered w)
    (hphase : w.phase = .delivering { rest with output := delta :: rest.output }) :
    Ordered (w.deliverOutput delta rest) := by
  have hpending : ∀ s, pendingOutput w.phase s =
      (if delta.requestId = s then [delta.event] else []) ++
        pendingOutput (.delivering rest) s := by
    intro s
    rw [hphase, pendingOutput_cons]
  have hdropped : Ordered { w with phase := .delivering rest } :=
    h.of_shrinks ⟨rfl, rfl, rfl, rfl, rfl, id⟩ fun s => by
      rw [hpending]
      exact sublist_append_right _ _
  unfold World.deliverOutput
  split
  · exact hdropped
  · rename_i x hactive
    split
    · rename_i sent hsend
      have hsent := h.active hactive
      rw [hpending, if_pos rfl, ← append_assoc] at hsent
      refine hdropped.of_send hsend ((sublist_append_left _ _).trans hsent) fun s ht => ?_
      obtain rfl := hs.injective (.inl ht) (.inl hactive)
      exact hsent
    · exact hdropped.of_shrinks ⟨rfl, rfl, rfl, rfl, rfl, id⟩ fun _ => Sublist.refl _

theorem proceed_ordered {d : Delivery κ} (hs : Settled w) (h : Ordered w)
    (hphase : w.phase = .delivering d) : Ordered (w.proceed d) := by
  unfold World.proceed
  split
  · exact deliverOutput_ordered hs h hphase
  · unfold World.deliverFinished
    split
    · exact h.of_empty (Shrinks.refl w) fun _ => rfl
    · exact (h.of_empty (forgetActive_shrinks w _) fun _ => rfl).sendOrDrop rfl fun _ => rfl
  · unfold World.deliverDecision
    split
    · exact h.of_empty (Shrinks.refl w) fun _ => rfl
    · exact h.of_empty ((forgetDecision_shrinks w _).trans (complete_shrinks _ _ _)) fun _ => rfl
  · unfold World.deliverDecision
    split
    · exact h.of_empty (Shrinks.refl w) fun _ => rfl
    · exact h.of_empty ((forgetDecision_shrinks w _).trans (complete_shrinks _ _ _)) fun _ => rfl
  · exact h.of_empty (Shrinks.foldl cancelSchedulerRequest_shrinks _ w) fun _ => rfl

theorem proceedFailing_ordered {message : Text} {remaining : List EngineRequestId}
    (h : Ordered w) : Ordered (w.proceedFailing message remaining) := by
  unfold World.proceedFailing
  split
  · exact h.of_empty (Shrinks.foldl (failRequest_shrinks message) _ w) fun _ => rfl
  · split
    · exact h.of_empty (Shrinks.refl w) fun _ => rfl
    · exact (h.of_empty (Shrinks.refl w) fun _ => rfl).sendOrDrop rfl fun _ => rfl

/-! ## Whole runs -/

theorem submit_ordered {answer : Except Text EngineRequestId} (hs : Settled w) (h : Ordered w)
    (hphase : w.phase = .idle) (hnew : id ∉ w.submitted) : Ordered (w.submit id answer) := by
  cases answer with
  | ok request =>
    refine ⟨fun {s x} ha => ?_, h.kept⟩
    change (w.active.insert request id).get s = some x at ha
    rw [BTreeMap.get_insert] at ha
    split at ha
    · -- the new request has no stream
      cases ha
      change (outputs (stream w id) ++ pendingOutput w.phase s).Sublist _
      rw [(hs.fresh hnew).1, hphase]
      exact nil_sublist _
    · exact h.active ha
  | error message =>
    have hempty : ∀ s, pendingOutput w.phase s = [] := fun s => by
      rw [hphase]
      rfl
    have hsent : Ordered { w.sendOrDrop id (.error message) with phase := w.phase } :=
      Ordered.sendOrDrop h rfl hempty
    rw [← sendOrDrop_phase w id (.error message)] at hsent
    exact ⟨hsent.active, hsent.kept⟩

theorem beginTick_ordered {answer : Except Text (EngineTick κ)} (hs : Settled w) (h : Ordered w)
    (hphase : w.phase = .idle) : Ordered (w.beginTick answer) := by
  cases answer with
  | error message => exact h.of_empty (Shrinks.refl w) fun _ => rfl
  | ok tick =>
    refine ⟨fun {s x} ha => ?_, fun x => (h.kept x).trans (sublist_append_left _ _)⟩
    -- the deltas of a retained request become pending
    have hdeltas : w.deltasOf tick.output x = pendingOutput (w.beginTick (.ok tick)).phase s := by
      unfold World.deltasOf
      change _ = (tick.output.filter fun delta => delta.requestId = s).map EngineDelta.event
      congr 1
      refine filter_congr fun delta _ => decide_eq_decide.mpr
        ⟨fun hd => hs.injective (.inl hd) (.inl ha), ?_⟩
      rintro rfl
      exact ha
    have hsent := h.active ha
    rw [hphase] at hsent
    rw [← hdeltas]
    exact ((append_nil _).symm ▸ hsent).append (Sublist.refl _)

theorem step_ordered {action : Action κ} (hs : Settled w) (h : Ordered w)
    (hstep : w.step action = some w') : Ordered w' := by
  cases action with
  | receive id =>
    obtain ⟨event, buffer, hbuffer, rfl⟩ := World.receive_eq_some hstep
    refine h.of_channels fun x => ?_
    by_cases hx : x = id
    · subst hx
      simp [stream, hbuffer]
    · simp [stream, update_of_ne hx]
  | close id =>
    cases hstep
    have hbuffer : ∀ x, (update w.channels id { w.channels id with closed := true } x).buffer =
        (w.channels x).buffer := by
      intro x
      by_cases hx : x = id
      · subst hx
        simp
      · rw [update_of_ne hx]
    exact h.of_channels fun x => congrArg _ (hbuffer x)
  | submit id answer =>
    obtain ⟨hphase, hnew, rfl⟩ := World.step_submit hstep
    exact submit_ordered hs h hphase hnew
  | submitDecision id answer =>
    obtain ⟨-, -, rfl⟩ := World.step_submitDecision hstep
    cases answer with
    | ok request => exact ⟨h.active, h.kept⟩
    | error message =>
      have hanswered : Ordered (w.complete id (.error message)) :=
        h.of_shrinks (complete_shrinks w id _) fun s => by rw [complete_phase]
      exact ⟨hanswered.active, hanswered.kept⟩
  | cancel id =>
    obtain ⟨-, rfl⟩ := World.step_cancel hstep
    split
    · exact h
    · rename_i request hrequest
      refine h.of_shrinks (cancelSchedulerRequest_shrinks w request) fun s => ?_
      rw [cancelSchedulerRequest_phase]
  | shutdown =>
    obtain ⟨-, rfl⟩ := World.step_shutdown hstep
    exact h.of_empty (Shrinks.foldl cancelSchedulerRequest_shrinks _ w) fun _ => rfl
  | tick answer =>
    obtain ⟨hphase, rfl⟩ := World.step_tick hstep
    exact beginTick_ordered hs h hphase
  | proceed =>
    obtain ⟨d, hphase, rfl⟩ | ⟨remaining, message, -, rfl⟩ := World.step_proceed hstep
    · exact proceed_ordered hs h hphase
    · exact proceedFailing_ordered h

/-- In every run of the actor and its clients, with an engine that answers with fresh ids. -/
theorem streams_in_order {capacity : Nat} {actions : List (Action κ)}
    (run : Path World.step AnswersFresh (World.init capacity) actions w) :
    ∀ id, (outputs (w.received id ++ (w.channels id).buffer)).Sublist (w.produced id) := by
  have hkeeps : ∀ {w w' : World κ} {action}, Settled w ∧ Ordered w → AnswersFresh w action →
      w.step action = some w' → Settled w' ∧ Ordered w' := fun h hfresh hstep =>
    ⟨step_settled h.1 hfresh hstep, step_ordered h.1 h.2 hstep⟩
  have h := run.invariant hkeeps ⟨init_settled capacity, init_ordered capacity⟩
  exact h.2.kept

/-- The run that loses a delta and then finishes. -/
def gapRun : List (Action Unit) := gapTick true ++ gapBehind

theorem gapRun_in_order : ∃ w, Path World.step AnswersFresh (World.init 1) gapRun w ∧
    (outputs (w.received 0 ++ (w.channels 0).buffer)).Sublist (w.produced 0) := by
  have hfresh : ∀ s, ¬ Retained (World.init 1 : World Unit) s := by
    rintro s (⟨x, hx⟩ | ⟨x, hx⟩) <;> cases hx
  obtain ⟨w, hw⟩ : ∃ w, Path World.step (fun _ _ => True) (World.init 1) gapRun w :=
    ⟨_, Path.of_run rfl⟩
  have hpath := fresh_path hw (by decide) fun s _ => hfresh s
  exact ⟨w, hpath, streams_in_order hpath 0⟩

end Eider.Guarantees.ActorStreams
