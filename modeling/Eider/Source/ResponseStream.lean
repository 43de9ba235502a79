import Eider.Source.Engine

/-!
The event builder of the Responses API (`eider-api/src/protocol.rs`, lines 546 to 922):
`ResponseStream` turns the inference events of one request into response events.

An event carries the fields that depend on the request; fields that are the same in every
event of a kind (`role`, `annotations`, the null fields of a response) are left out. The
identity of an item is the counter value that `next_id` prints. Other responses draw from
the same counters, so every push is told the value that it finds. `serde_json::to_string`
on the arguments of a call is the parameter `toJson`.
-/
namespace Eider.Source.Responses
open Lib

inductive ItemStatus where
  | inProgress
  | completed
deriving DecidableEq, Repr

/-- An entry of `output`. A message lists its content parts, reasoning its summary parts. -/
inductive OutputItem where
  | message (id : Nat) (status : ItemStatus) (content : List Text)
  | reasoning (id : Nat) (status : ItemStatus) (summary : List Text)
  | functionCall (id : Nat) (status : ItemStatus) (callId : Nat) (name arguments : Text)
deriving DecidableEq, Repr

def messageItem (id : Nat) (status : ItemStatus) (text : Text) : OutputItem :=
  .message id status (if status = .inProgress then [] else [text])

def reasoningItem (id : Nat) (status : ItemStatus) (text : Text) : OutputItem :=
  .reasoning id status (if status = .inProgress then [] else [text])

def functionItem (id callId : Nat) (name arguments : Text) (status : ItemStatus) : OutputItem :=
  .functionCall id status callId name arguments

inductive ResponseStatus where
  | inProgress
  | completed
  | incomplete
deriving DecidableEq, Repr

structure Response where
  id : Nat
  createdAt : Nat
  status : ResponseStatus
  incompleteReason : Option Text
  model : Text
  output : List OutputItem
  parallelToolCalls : Bool
  usage : Option ChatUsage
deriving DecidableEq, Repr

/-- The events, named by their `type`. -/
inductive StreamEvent where
  | created (response : Response)
  | outputItemAdded (outputIndex : Nat) (item : OutputItem)
  | outputItemDone (outputIndex : Nat) (item : OutputItem)
  | reasoningSummaryPartAdded (itemId outputIndex summaryIndex : Nat) (part : Text)
  | reasoningSummaryTextDelta (itemId outputIndex summaryIndex : Nat) (delta : Text)
  | reasoningSummaryTextDone (itemId outputIndex summaryIndex : Nat) (text : Text)
  | reasoningSummaryPartDone (itemId outputIndex summaryIndex : Nat) (part : Text)
  | contentPartAdded (itemId outputIndex contentIndex : Nat) (part : Text)
  | outputTextDelta (itemId outputIndex contentIndex : Nat) (delta : Text)
  | outputTextDone (itemId outputIndex contentIndex : Nat) (text : Text)
  | contentPartDone (itemId outputIndex contentIndex : Nat) (part : Text)
  | functionCallArgumentsDelta (itemId outputIndex : Nat) (delta : Text)
  | functionCallArgumentsDone (itemId outputIndex : Nat) (name arguments : Text)
  | responseCompleted (response : Response)
  | responseIncomplete (response : Response)
  | error (message : Text)
deriving DecidableEq, Repr

/-- `ReasoningItem` and `TextItem`: an item that has been added and is not done. -/
structure OpenItem where
  id : Nat
  outputIndex : Nat
  text : Text
deriving DecidableEq, Repr

structure ResponseStream where
  parallelToolCalls : Bool
  responseId : Nat
  model : Text
  createdAt : Nat
  output : List OutputItem
  reasoning : Option OpenItem
  text : Option OpenItem
  completed : Bool

def ResponseStream.new (model : Text) (parallelToolCalls : Bool) (responseId createdAt : Nat) :
    ResponseStream where
  parallelToolCalls := parallelToolCalls
  responseId := responseId
  model := model
  createdAt := createdAt
  output := []
  reasoning := none
  text := none
  completed := false

namespace ResponseStream

variable (s : ResponseStream)

def response (status : ResponseStatus)
    (terminal : Option (ChatUsage × Option Text)) : Response where
  id := s.responseId
  createdAt := s.createdAt
  status := status
  incompleteReason := terminal.bind Prod.snd
  model := s.model
  output := s.output
  parallelToolCalls := s.parallelToolCalls
  usage := terminal.map Prod.fst

def created : StreamEvent := .created (s.response .inProgress none)

/-- A call of the builder: the stream behind it and the events it returns. -/
abbrev Pushed := ResponseStream × List StreamEvent

variable (itemId : Nat)

/-- The item that a reasoning delta goes to, with the events that open it. -/
def openReasoning : OpenItem × List StreamEvent :=
  match s.reasoning with
  | some item => (item, [])
  | none =>
    (⟨itemId, s.output.length, []⟩,
      [.outputItemAdded s.output.length (reasoningItem itemId .inProgress []),
        .reasoningSummaryPartAdded itemId s.output.length 0 []])

def pushReasoning (delta : Text) : Pushed :=
  if delta.isEmpty then (s, [])
  else
    let (item, events) := s.openReasoning itemId
    ({ s with reasoning := some { item with text := item.text ++ delta } },
      events ++ [.reasoningSummaryTextDelta item.id item.outputIndex 0 delta])

def closeReasoning : Pushed :=
  match s.reasoning with
  | none => (s, [])
  | some reasoning =>
    let item := reasoningItem reasoning.id .completed reasoning.text
    ({ s with reasoning := none, output := s.output ++ [item] },
      [.reasoningSummaryTextDone reasoning.id reasoning.outputIndex 0 reasoning.text,
        .reasoningSummaryPartDone reasoning.id reasoning.outputIndex 0 reasoning.text,
        .outputItemDone reasoning.outputIndex item])

/-- The item that a text delta goes to, with the events that open it. -/
def openText : OpenItem × List StreamEvent :=
  match s.text with
  | some item => (item, [])
  | none =>
    (⟨itemId, s.output.length, []⟩,
      [.outputItemAdded s.output.length (messageItem itemId .inProgress []),
        .contentPartAdded itemId s.output.length 0 []])

def pushText (delta : Text) : Pushed :=
  if delta.isEmpty then (s, [])
  else
    let (item, events) := s.openText itemId
    ({ s with text := some { item with text := item.text ++ delta } },
      events ++ [.outputTextDelta item.id item.outputIndex 0 delta])

def closeText : Pushed :=
  match s.text with
  | none => (s, [])
  | some text =>
    let item := messageItem text.id .completed text.text
    ({ s with text := none, output := s.output ++ [item] },
      [.outputTextDone text.id text.outputIndex 0 text.text,
        .contentPartDone text.id text.outputIndex 0 text.text,
        .outputItemDone text.outputIndex item])

/-- The events of a function call, which is added and done in one push. -/
def functionEvents (itemId outputIndex callId : Nat) (name arguments : Text) : List StreamEvent :=
  [.outputItemAdded outputIndex (functionItem itemId callId name [] .inProgress),
    .functionCallArgumentsDelta itemId outputIndex arguments,
    .functionCallArgumentsDone itemId outputIndex name arguments,
    .outputItemDone outputIndex (functionItem itemId callId name arguments .completed)]

section
variable (toJson : BTreeMap Text Value → Text)

def pushTool (s : ResponseStream) (itemId : Nat) (call : ChatToolCall) : Pushed :=
  let (s, reasoningEvents) := s.closeReasoning
  let (s, textEvents) := s.closeText
  let arguments := toJson call.function.arguments
  let completed := functionItem itemId call.id call.function.name arguments .completed
  ({ s with output := s.output ++ [completed] }, reasoningEvents ++ textEvents ++
      functionEvents itemId s.output.length call.id call.function.name arguments)

def finish (s : ResponseStream) (finishReason : ChatFinishReason) (usage : ChatUsage) : Pushed :=
  let (s, reasoningEvents) := s.closeReasoning
  let (s, textEvents) := s.closeText
  let s := { s with completed := true }
  let terminal : StreamEvent :=
    if finishReason = .length then
      .responseIncomplete (s.response .incomplete (some (usage, some "max_output_tokens")))
    else .responseCompleted (s.response .completed (some (usage, none)))
  (s, reasoningEvents ++ textEvents ++ [terminal])

/-- `ResponseStream::push`; `itemId` is what `NEXT_ITEM_ID` holds. -/
def push (s : ResponseStream) (itemId : Nat) : InferenceEvent → Pushed
  | .output (.reasoning delta) => s.pushReasoning itemId delta
  | .output (.text delta) =>
    let (s, closing) := s.closeReasoning
    let (s, events) := s.pushText itemId delta
    (s, closing ++ events)
  | .output (.toolCall call) => s.pushTool toJson itemId call
  | .finished finishReason usage => s.finish finishReason usage
  | .error message => ({ s with completed := true }, [.error message])

/-- The events that a sequence of pushes returns, each push with the counter value that it
finds. -/
def pushAll (s : ResponseStream) : List (Nat × InferenceEvent) → Pushed
  | [] => (s, [])
  | (itemId, event) :: rest =>
    let (s, events) := s.push toJson itemId event
    let (s, later) := pushAll s rest
    (s, events ++ later)

end

end ResponseStream

end Eider.Source.Responses
