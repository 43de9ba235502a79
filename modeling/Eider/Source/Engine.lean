import Eider.Source.ChatOutput

/-!
The records between the serving actor and an inference engine
(`eider-runtime/src/engine.rs`, `request.rs`, and `InferenceEvent` of
`eider-api/src/protocol.rs`). Progress records that only feed metrics are left
out. The completion of a decision group is carried unread, as the type `κ`.
-/
namespace Eider.Source

abbrev EngineRequestId := Nat

inductive ChatFinishReason where
  | eos
  | length
  | stop (sequence : Text)
  | toolCalls
deriving DecidableEq, Repr

structure ChatUsage where
  promptTokens : Nat
  cachedPromptTokens : Nat
  completionTokens : Nat
  reasoningTokens : Nat
deriving DecidableEq, Repr

structure EngineDelta where
  requestId : EngineRequestId
  event : ChatOutputEvent

structure EngineFinished where
  requestId : EngineRequestId
  finishReason : ChatFinishReason
  usage : ChatUsage
  releasedSequenceDeviceBytes : Nat
deriving DecidableEq, Repr

structure EngineDecisionFinished (κ : Type) where
  requestId : EngineRequestId
  completion : κ

structure EngineDecisionFailed where
  requestId : EngineRequestId
  message : Text
  releasedSequenceDeviceBytes : Nat
deriving DecidableEq, Repr

structure EngineTick (κ : Type) where
  output : List EngineDelta
  finished : List EngineFinished
  decisionsFinished : List (EngineDecisionFinished κ)
  decisionsFailed : List EngineDecisionFailed

inductive InferenceEvent where
  | output (event : ChatOutputEvent)
  | finished (finishReason : ChatFinishReason) (usage : ChatUsage)
  | error (message : Text)

end Eider.Source
