import Eider.Source.Actor
import Eider.Source.Serving

/-!
The inference actor over the Qwen3.6 chat service: the engine that answers the
actor's calls in `Actor` is here the service of `Serving`.

A failed tick leaves the service with whatever its loops had done to the
requests; `fail_all` then cancels every request the actor knows, which removes
them from the service. What a failed tick did to them is therefore not followed,
only the value it left in the counter of call identities, which the action gives.
-/
namespace Eider.Source

/-- The actor and the service it drives. -/
structure ServingActor (δ κ : Type) where
  world : World κ
  service : ChatService δ

namespace ServingActor
variable {δ κ : Type}

/-- One step of the actor, with what the scheduler answers, or of a client. -/
inductive Step (κ : Type) where
  | submit (id : ActorRequestId) (request : ChatService.RenderedRequest)
      (queue : Nat → Except Error EngineRequestId)
  | submitDecision (id : ActorRequestId) (answer : Except Text EngineRequestId)
  | cancel (id : ActorRequestId)
  | shutdown
  | tick (report : SchedulerReport κ) (idsAfterFailure : Nat)
  | proceed
  | receive (id : ActorRequestId)
  | close (id : ActorRequestId)

/-- `error.to_string()` around a result. -/
def shown {α : Type} (display : Error → Text) : Except Error α → Except Text α
  | .ok a => .ok a
  | .error e => .error (display e)

def cancelRequests (s : ChatService δ) (ids : List EngineRequestId) : ChatService δ :=
  ids.foldl ChatService.cancelRequest s

/-- Requests that the actor retains. -/
def retained (w : World κ) : List EngineRequestId := w.active.keys ++ w.activeDecisions.keys

/-- Requests whose client was found gone during the tick. -/
def disconnected (w : World κ) (refused : List EngineRequestId) : List EngineRequestId :=
  (refused ++ (w.activeDecisions.entries.filter fun e =>
    w.completionClosed e.2).map Prod.fst).mergeSort.dedup

/-- Requests that the next round of the loop cancels: those found disconnected
when a tick is over, all of them behind a failed tick. -/
def cancelled (w : World κ) : List EngineRequestId :=
  match w.phase with
  | .delivering ⟨[], [], [], [], refused⟩ => disconnected w refused
  | .failing [] _ => retained w
  | _ => []

section
variable (fromStr : Text → Except Text Value) (tokenizer : Tokenizer δ) (maxContextTokens : Nat)
  (display : Error → Text)

variable (a : ServingActor δ κ)

/-- The step as the actor sees it, with the answer of the service. -/
def action : Step κ → Action κ
  | .submit id request queue => .submit id (shown display
      ((a.service.addRequest tokenizer maxContextTokens request queue).map Prod.snd))
  | .submitDecision id answer => .submitDecision id answer
  | .cancel id => .cancel id
  | .shutdown => .shutdown
  | .tick report _ =>
    .tick (shown display ((a.service.tick fromStr tokenizer report).map Prod.snd))
  | .proceed => .proceed
  | .receive id => .receive id
  | .close id => .close id

def serviceAfter : Step κ → ChatService δ
  | .submit _ request queue =>
    match a.service.addRequest tokenizer maxContextTokens request queue with
    | .ok (service, _) => service
    | .error _ => a.service
  | .cancel id =>
    match a.world.schedulerByExternal.get id with
    | some request => a.service.cancelRequest request
    | none => a.service
  | .shutdown => cancelRequests a.service (retained a.world)
  | .tick report idsAfterFailure =>
    match a.service.tick fromStr tokenizer report with
    | .ok (service, _) => service
    | .error _ => { a.service with nextToolCallId := idsAfterFailure }
  | .proceed => cancelRequests a.service (cancelled a.world)
  | _ => a.service

/-- The step function. -/
def step (s : Step κ) : Option (ServingActor δ κ) :=
  (a.world.step (a.action fromStr tokenizer maxContextTokens display s)).map fun world =>
    ⟨world, a.serviceAfter fromStr tokenizer maxContextTokens s⟩

end

end ServingActor

end Eider.Source
