import Mathlib.Logic.Function.Basic
import Eider.Source.Engine

/-!
The inference actor (`eider-api/src/actor.rs`, lines 296 to 850) and its clients.

The actor thread handles commands and ticks one after the other, but its clients
run beside it: between any two sends of one tick a client may receive an event
or drop its receiver. A tick is therefore not one step. It leaves a `Delivery`,
the part of the tick's report that the loop has not handled yet, and each
`proceed` step handles the next entry of it.

The engine is whatever answers its calls: the actions carry its answers. What
the clients have received and what the engine has produced for each request is
recorded beside the state of the source.
-/
namespace Eider.Source
open Lib Function

abbrev ActorRequestId := Nat

/-- A bounded `mpsc` channel: the events sent and not received, and whether the
receiver was dropped. -/
structure Channel where
  buffer : List InferenceEvent
  closed : Bool

/-- `Sender::try_send` on a channel of a capacity. -/
def Channel.trySend (capacity : Nat) (channel : Channel) (event : InferenceEvent) :
    Option Channel :=
  if channel.closed || capacity ≤ channel.buffer.length then none
  else some { channel with buffer := channel.buffer ++ [event] }

/-- What the tick loop still has to handle. -/
structure Delivery (κ : Type) where
  output : List EngineDelta
  finished : List EngineFinished
  decisionsFinished : List (EngineDecisionFinished κ)
  decisionsFailed : List EngineDecisionFailed
  disconnected : List EngineRequestId

/-- Where `run_actor_loop` stands. -/
inductive Phase (κ : Type) where
  | idle
  | delivering (delivery : Delivery κ)
  /-- A failed tick: requests that are still to be sent the error. -/
  | failing (remaining : List EngineRequestId) (message : Text)
  | stopped

/-- The actor with its clients. `active` and `activeDecisions` hold the external
identity of each request, under which its channel is found. -/
structure World (κ : Type) where
  eventCapacity : Nat
  active : BTreeMap EngineRequestId ActorRequestId
  activeDecisions : BTreeMap EngineRequestId ActorRequestId
  schedulerByExternal : BTreeMap ActorRequestId EngineRequestId
  phase : Phase κ
  channels : ActorRequestId → Channel
  completions : ActorRequestId → Option (Except Text κ)
  /-- Decision receivers that were dropped. -/
  completionClosed : ActorRequestId → Bool
  submitted : List ActorRequestId
  /-- Events that each client has received. -/
  received : ActorRequestId → List InferenceEvent
  /-- Deltas that the engine has produced for each retained request. -/
  produced : ActorRequestId → List ChatOutputEvent

/-- One step of the actor, with the engine's answer, or of a client. -/
inductive Action (κ : Type) where
  | submit (id : ActorRequestId) (answer : Except Text EngineRequestId)
  | submitDecision (id : ActorRequestId) (answer : Except Text EngineRequestId)
  | cancel (id : ActorRequestId)
  | shutdown
  | tick (answer : Except Text (EngineTick κ))
  | proceed
  | receive (id : ActorRequestId)
  | close (id : ActorRequestId)

variable {κ : Type}

namespace World

/-- A started actor without requests. -/
def init (eventCapacity : Nat) : World κ where
  eventCapacity := eventCapacity
  active := BTreeMap.empty
  activeDecisions := BTreeMap.empty
  schedulerByExternal := BTreeMap.empty
  phase := .idle
  channels := fun _ => ⟨[], false⟩
  completions := fun _ => none
  completionClosed := fun _ => false
  submitted := []
  received := fun _ => []
  produced := fun _ => []

variable (w : World κ) (id : ActorRequestId)

/-- `try_send` to the channel of an external request, `none` when refused. -/
def send (event : InferenceEvent) : Option (World κ) :=
  ((w.channels id).trySend w.eventCapacity event).map fun channel =>
    { w with channels := update w.channels id channel }

/-- `let _ = sender.try_send(event)`. -/
def sendOrDrop (event : InferenceEvent) : World κ :=
  (w.send id event).getD w

/-- `completion.send`, which a dropped receiver does not get. -/
def complete (result : Except Text κ) : World κ :=
  if w.completionClosed id then w
  else { w with completions := update w.completions id (some result) }

variable (request : EngineRequestId)

/-- Removes a request of either kind from the actor's maps. -/
def forgetActive : World κ :=
  match w.active.get request with
  | none => w
  | some id => { w with
      active := w.active.erase request
      schedulerByExternal := w.schedulerByExternal.erase id }

def forgetDecision : World κ :=
  match w.activeDecisions.get request with
  | none => w
  | some id => { w with
      activeDecisions := w.activeDecisions.erase request
      schedulerByExternal := w.schedulerByExternal.erase id }

def cancelSchedulerRequest : World κ :=
  (w.forgetActive request).forgetDecision request

def cancelAll : World κ :=
  (w.active.keys ++ w.activeDecisions.keys).foldl cancelSchedulerRequest w

/-- `fail_all` for one request. -/
def failRequest (message : Text) (w : World κ) (request : EngineRequestId) : World κ :=
  let failed := w.forgetActive request
  match failed.activeDecisions.get request with
  | none => failed
  | some id => (failed.forgetDecision request).complete id (.error message)

def failAll (message : Text) : World κ :=
  (w.active.keys ++ w.activeDecisions.keys).foldl (failRequest message) w

/-- The deltas of a tick for one external request. -/
def deltasOf (output : List EngineDelta) (id : ActorRequestId) : List ChatOutputEvent :=
  (output.filter fun delta => w.active.get delta.requestId = some id).map EngineDelta.event

/-- The tick loop on the next delta. -/
def deliverOutput (delta : EngineDelta) (rest : Delivery κ) : World κ :=
  match w.active.get delta.requestId with
  | none => { w with phase := .delivering rest }
  | some id =>
    match w.send id (.output delta.event) with
    | some sent => { sent with phase := .delivering rest }
    | none =>
      let refused := { rest with disconnected := rest.disconnected ++ [delta.requestId] }
      { w with phase := .delivering refused }

/-- The tick loop on the next finished request. -/
def deliverFinished (finished : EngineFinished) (rest : Delivery κ) : World κ :=
  match w.active.get finished.requestId with
  | none => { w with phase := .delivering rest }
  | some id =>
    let sent := (w.forgetActive finished.requestId).sendOrDrop id
      (.finished finished.finishReason finished.usage)
    { sent with phase := .delivering rest }

/-- The tick loop on the next decision that ended. -/
def deliverDecision (result : Except Text κ) (rest : Delivery κ) : World κ :=
  match w.activeDecisions.get request with
  | none => { w with phase := .delivering rest }
  | some id => { (w.forgetDecision request).complete id result with phase := .delivering rest }

/-- The end of a tick: requests whose client is gone are cancelled. -/
def cancelDisconnected (disconnected : List EngineRequestId) : World κ :=
  let closed := (w.activeDecisions.entries.filter fun e => w.completionClosed e.2).map Prod.fst
  { ((disconnected ++ closed).mergeSort.dedup.foldl cancelSchedulerRequest w) with phase := .idle }

/-- One round of the tick's loops. -/
def proceed (d : Delivery κ) : World κ :=
  match d with
  | ⟨delta :: output, finished, decisionsFinished, decisionsFailed, disconnected⟩ =>
    w.deliverOutput delta ⟨output, finished, decisionsFinished, decisionsFailed, disconnected⟩
  | ⟨[], request :: finished, decisionsFinished, decisionsFailed, disconnected⟩ =>
    w.deliverFinished request ⟨[], finished, decisionsFinished, decisionsFailed, disconnected⟩
  | ⟨[], [], decision :: decisionsFinished, decisionsFailed, disconnected⟩ =>
    w.deliverDecision decision.requestId (.ok decision.completion)
      ⟨[], [], decisionsFinished, decisionsFailed, disconnected⟩
  | ⟨[], [], [], decision :: decisionsFailed, disconnected⟩ =>
    w.deliverDecision decision.requestId (.error decision.message)
      ⟨[], [], [], decisionsFailed, disconnected⟩
  | ⟨[], [], [], [], disconnected⟩ => w.cancelDisconnected disconnected

/-- One round of the error loop, and `fail_all` behind it. -/
def proceedFailing (message : Text) : List EngineRequestId → World κ
  | [] => { w.failAll message with phase := .idle }
  | request :: rest =>
    match w.active.get request with
    | none => { w with phase := .failing rest message }
    | some id => { w.sendOrDrop id (.error message) with phase := .failing rest message }

/-- `handle_command` for `Submit`. -/
def submit : Except Text EngineRequestId → World κ
  | .ok request => { w with
      active := w.active.insert request id
      schedulerByExternal := w.schedulerByExternal.insert id request
      submitted := id :: w.submitted }
  | .error message => { w.sendOrDrop id (.error message) with submitted := id :: w.submitted }

/-- `handle_command` for `SubmitDecision`. -/
def submitDecision : Except Text EngineRequestId → World κ
  | .ok request => { w with
      activeDecisions := w.activeDecisions.insert request id
      schedulerByExternal := w.schedulerByExternal.insert id request
      submitted := id :: w.submitted }
  | .error message => { w.complete id (.error message) with submitted := id :: w.submitted }

/-- The engine's answer to a tick. -/
def beginTick : Except Text (EngineTick κ) → World κ
  | .ok tick => { w with
      phase := .delivering ⟨tick.output, tick.finished, tick.decisionsFinished,
        tick.decisionsFailed, []⟩
      produced := fun id => w.produced id ++ w.deltasOf tick.output id }
  | .error message => { w with phase := .failing w.active.keys message }

/-- A client takes the oldest event from its channel. -/
def receive : Option (World κ) :=
  let channel := w.channels id
  match channel.buffer with
  | [] => none
  | event :: buffer =>
    if channel.closed then none
    else some { w with
      channels := update w.channels id { channel with buffer := buffer }
      received := update w.received id (w.received id ++ [event]) }

/-- A client drops its receiver. -/
def close : World κ :=
  { w with
    channels := update w.channels id { w.channels id with closed := true }
    completionClosed := update w.completionClosed id true }

/-- The step function. Commands and ticks wait for the loop to come round, a new
request has a new external identity, and an actor without requests does not
tick. -/
def step : Action κ → Option (World κ)
  | .receive id => w.receive id
  | .close id => some (w.close id)
  | action =>
    match w.phase, action with
    | .idle, .submit id answer => if id ∈ w.submitted then none else some (w.submit id answer)
    | .idle, .submitDecision id answer =>
      if id ∈ w.submitted then none else some (w.submitDecision id answer)
    | .idle, .cancel id =>
      match w.schedulerByExternal.get id with
      | none => some w
      | some request => some (w.cancelSchedulerRequest request)
    | .idle, .shutdown => some { w.cancelAll with phase := .stopped }
    | .idle, .tick answer =>
      if w.active.keys = [] ∧ w.activeDecisions.keys = [] then none else some (w.beginTick answer)
    | .delivering d, .proceed => some (w.proceed d)
    | .failing remaining message, .proceed => some (w.proceedFailing message remaining)
    | _, _ => none

attribute [local simp] step

/-! ## What a step does -/

variable {w w' : World κ} {id : ActorRequestId} {answer : Except Text EngineRequestId}

theorem step_submit (h : w.step (.submit id answer) = some w') :
    w.phase = .idle ∧ id ∉ w.submitted ∧ w' = w.submit id answer := by
  simp only [step] at h
  cases hphase : w.phase <;> simp only [hphase] at h
  · split at h
    · cases h
    · exact ⟨rfl, ‹_›, (Option.some.inj h).symm⟩
  all_goals cases h

theorem step_submitDecision (h : w.step (.submitDecision id answer) = some w') :
    w.phase = .idle ∧ id ∉ w.submitted ∧ w' = w.submitDecision id answer := by
  simp only [step] at h
  cases hphase : w.phase <;> simp only [hphase] at h
  · split at h
    · cases h
    · exact ⟨rfl, ‹_›, (Option.some.inj h).symm⟩
  all_goals cases h

theorem step_cancel (h : w.step (.cancel id) = some w') :
    w.phase = .idle ∧ w' = match w.schedulerByExternal.get id with
      | none => w
      | some request => w.cancelSchedulerRequest request := by
  simp only [step] at h
  cases hphase : w.phase <;> simp only [hphase] at h
  · cases hget : w.schedulerByExternal.get id with
    | none =>
      rw [hget] at h
      exact ⟨rfl, (Option.some.inj h).symm⟩
    | some request =>
      rw [hget] at h
      exact ⟨rfl, (Option.some.inj h).symm⟩
  all_goals cases h

theorem step_shutdown (h : w.step .shutdown = some w') :
    w.phase = .idle ∧ w' = { w.cancelAll with phase := .stopped } := by
  simp only [step] at h
  cases hphase : w.phase <;> simp only [hphase] at h
  · exact ⟨rfl, (Option.some.inj h).symm⟩
  all_goals cases h

theorem step_tick {answer : Except Text (EngineTick κ)}
    (h : w.step (.tick answer) = some w') : w.phase = .idle ∧ w' = w.beginTick answer := by
  simp only [step] at h
  cases hphase : w.phase <;> simp only [hphase] at h
  · split at h
    · cases h
    · exact ⟨rfl, (Option.some.inj h).symm⟩
  all_goals cases h

theorem step_proceed (h : w.step .proceed = some w') :
    (∃ d, w.phase = .delivering d ∧ w' = w.proceed d) ∨
      ∃ remaining message, w.phase = .failing remaining message ∧
        w' = w.proceedFailing message remaining := by
  simp only [step] at h
  cases hphase : w.phase with
  | delivering d =>
    rw [hphase] at h
    exact .inl ⟨d, rfl, (Option.some.inj h).symm⟩
  | failing remaining message =>
    rw [hphase] at h
    exact .inr ⟨remaining, message, rfl, (Option.some.inj h).symm⟩
  | idle =>
    rw [hphase] at h
    cases h
  | stopped =>
    rw [hphase] at h
    cases h

theorem receive_eq_some (h : w.receive id = some w') :
    ∃ event buffer, (w.channels id).buffer = event :: buffer ∧
      w' = { w with
        channels := update w.channels id { w.channels id with buffer := buffer }
        received := update w.received id (w.received id ++ [event]) } := by
  simp only [World.receive] at h
  split at h
  · cases h
  · rename_i event buffer hbuffer
    split at h
    · cases h
    · exact ⟨event, buffer, hbuffer, (Option.some.inj h).symm⟩

end World

end Eider.Source
