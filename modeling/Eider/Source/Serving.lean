import Eider.Source.ChatCodec
import Eider.Source.Engine
import Eider.Source.Stop

/-!
The Qwen3.6 chat service (`infer/src/execution/serving.rs`): it turns what the
scheduler reports for one iteration into the deltas and finished requests of an
`EngineTick`.

The scheduler is seen through its report of the iteration, which also holds what
the service asks it afterwards: the state of a request, and what releasing it
returns. `NEXT_TOOL_CALL_ID` is process-wide; the service carries its value and
hands it to the parser that runs.
-/
namespace Eider.Source
open Lib

inductive RequestFinishReason where
  | eos
  | length
  | toolCalls
deriving DecidableEq, Repr

inductive RequestState where
  | waiting
  | prefilling
  | decoding
  | finished
deriving DecidableEq, Repr

/-- `Qwen36ScheduledToken`, without its logit. -/
structure ScheduledToken where
  requestId : EngineRequestId
  id : Nat
  finishReason : Option RequestFinishReason
deriving DecidableEq, Repr

/-- One iteration of the scheduler. `cancels` says whether `cancel_request`
answers `Cancelled` for a request that is not finished. -/
structure SchedulerReport (κ : Type) where
  admitted : List (EngineRequestId × Nat)
  generated : List ScheduledToken
  decisionsFinished : List (EngineDecisionFinished κ)
  decisionsFailed : List EngineDecisionFailed
  requestState : EngineRequestId → Option RequestState
  cancels : EngineRequestId → Bool
  releasedSequenceDeviceBytes : EngineRequestId → Nat

structure ResponseFilter where
  stop : StopBuffer
  sawToolCalls : Bool

namespace ResponseFilter

def new (stopSequences : List Text) : ResponseFilter := ⟨StopBuffer.new stopSequences, false⟩

/-- The text event that `flush` and the stop buffer emit. -/
def textEvent (text : Text) : List ChatOutputEvent := if text.isEmpty then [] else [.text text]

def flush (f : ResponseFilter) : ResponseFilter × List ChatOutputEvent :=
  ({ f with stop := f.stop.finish.1 }, textEvent f.stop.finish.2)

/-- `apply`: the events that pass, and the reason to end the response. -/
def apply (f : ResponseFilter) : List ChatOutputEvent →
    ResponseFilter × List ChatOutputEvent × Option ChatFinishReason
  | [] => (f, [], none)
  | .reasoning t :: events =>
    let rest := apply f events
    (rest.1, if f.sawToolCalls then rest.2.1 else .reasoning t :: rest.2.1, rest.2.2)
  | .text t :: events =>
    if f.sawToolCalls then apply f events
    else
      let stopped := f.stop.push t
      let pushed := { f with stop := stopped.1 }
      match stopped.2.matched with
      | some sequence => (pushed, textEvent stopped.2.text, some (.stop sequence))
      | none =>
        let rest := apply pushed events
        (rest.1, textEvent stopped.2.text ++ rest.2.1, rest.2.2)
  | .toolCall call :: _ =>
    ({ f.flush.1 with sawToolCalls := true }, f.flush.2 ++ [.toolCall call], some .toolCalls)

end ResponseFilter

def mapSchedulerFinish : RequestFinishReason → ChatFinishReason
  | .eos => .eos
  | .length => .length
  | .toolCalls => .toolCalls

structure ActiveChatRequest (δ : Type) where
  output : ChatOutputCodec δ
  filter : ResponseFilter
  usage : ChatUsage

/-- `Qwen36ChatService`: the requests it retains. -/
structure ChatService (δ : Type) where
  requests : BTreeMap EngineRequestId (ActiveChatRequest δ)
  nextToolCallId : Nat

variable {δ κ : Type}

namespace ActiveChatRequest

variable (a : ActiveChatRequest δ)

/-- Lets the request's parser draw call identities from the global counter. -/
def withIds (ids : Nat) : ActiveChatRequest δ :=
  { a with output := { a.output with
      parser := { a.output.parser with nextToolCallId := ids } } }

/-- The global counter behind a push. -/
def ids : Nat := a.output.parser.nextToolCallId

/-- `request.usage.cached_prompt_tokens = ..`. -/
def withCached (cached : Nat) : ActiveChatRequest δ :=
  { a with usage := { a.usage with cachedPromptTokens := cached } }

section
variable (fromStr : Text → Except Text Value) (tokenizer : Tokenizer δ) (a : ActiveChatRequest δ)

/-- The loop body of `tick_with_lifecycle` for one generated token: the request
behind it, its deltas, and the reason to end it. -/
def serve (token : ScheduledToken) :
    Except Error (ActiveChatRequest δ × List ChatOutputEvent × Option ChatFinishReason) := do
  let usage := { a.usage with
    completionTokens := a.usage.completionTokens + 1
    reasoningTokens := a.usage.reasoningTokens + if a.output.isReasoning then 1 else 0 }
  let (output, events) ← a.output.pushToken fromStr tokenizer token.id
  let applied := a.filter.apply events
  return (⟨output, applied.1, usage⟩, applied.2.1,
    applied.2.2 <|> token.finishReason.map mapSchedulerFinish)

/-- The terminal block of `tick_with_lifecycle` for a reason other than a stop
sequence: what `finish` or `finish_truncated` still yields, and the reason. -/
def finishOutput (reason : ChatFinishReason) :
    Except Error (ActiveChatRequest δ × List ChatOutputEvent × ChatFinishReason) := do
  let (output, events) ← a.output.finishWithTruncation (reason == .length)
  let applied := a.filter.apply events
  let ended : ActiveChatRequest δ := ⟨output, applied.1, a.usage⟩
  match applied.2.2 with
  | some protocolReason => return (ended, applied.2.1, protocolReason)
  | none =>
    if applied.1.sawToolCalls then return (ended, applied.2.1, .toolCalls)
    else
      return ({ ended with filter := applied.1.flush.1 }, applied.2.1 ++ applied.1.flush.2, reason)

/-- The terminal block of `tick_with_lifecycle` for one request, up to its
release. -/
def conclude (reason : ChatFinishReason) :
    Except Error (ActiveChatRequest δ × List ChatOutputEvent × ChatFinishReason) :=
  match reason with
  | .stop sequence => .ok (a, [], .stop sequence)
  | reason => a.finishOutput reason

end

end ActiveChatRequest

/-- A decimal rendering of an identity in an error detail. -/
def idPiece (id : Nat) : Piece := .text (toString id).toList

/-- `release_scheduler_request`. -/
def SchedulerReport.release (report : SchedulerReport κ) (id : EngineRequestId) :
    Except Error Nat :=
  match report.requestState id with
  | some .finished => .ok (report.releasedSequenceDeviceBytes id)
  | some _ =>
    if report.cancels id then .ok (report.releasedSequenceDeviceBytes id)
    else .error ⟨"Qwen3.6 chat service", ["failed to stop request ", idPiece id]⟩
  | none => .error ⟨"Qwen3.6 chat service",
      ["terminal request ", idPiece id, " is absent from scheduler"]⟩

namespace ChatService

/-- Tags deltas with their request. -/
def tag (id : EngineRequestId) (events : List ChatOutputEvent) : List EngineDelta :=
  events.map fun event => ⟨id, event⟩

/-- One round of the `admitted` loop. -/
def admitOne (s : ChatService δ) (admission : EngineRequestId × Nat) : ChatService δ :=
  match s.requests.get admission.1 with
  | none => s
  | some a => { s with requests := s.requests.insert admission.1 (a.withCached admission.2) }

def admitAll (s : ChatService δ) (admitted : List (EngineRequestId × Nat)) : ChatService δ :=
  admitted.foldl admitOne s

structure TickState (δ : Type) where
  service : ChatService δ
  output : List EngineDelta
  terminal : BTreeMap EngineRequestId ChatFinishReason

section
variable (fromStr : Text → Except Text Value) (tokenizer : Tokenizer δ)

/-- One round of the token loop. -/
def serveToken (t : TickState δ) (token : ScheduledToken) : Except Error (TickState δ) :=
  match t.service.requests.get token.requestId with
  | none => .error ⟨"Qwen3.6 chat service",
      ["scheduler emitted token for unknown request ", idPiece token.requestId]⟩
  | some a => do
    let (a, events, reason) ← (a.withIds t.service.nextToolCallId).serve fromStr tokenizer token
    return {
      service := ⟨t.service.requests.insert token.requestId a, a.ids⟩
      output := t.output ++ tag token.requestId events
      terminal := match reason with
        | some reason => t.terminal.insert token.requestId reason
        | none => t.terminal
    }

def serveTokens : TickState δ → List ScheduledToken → Except Error (TickState δ)
  | t, [] => .ok t
  | t, token :: tokens => do
    let t ← serveToken fromStr tokenizer t token
    serveTokens t tokens

variable (report : SchedulerReport κ)

/-- The loop over the retained requests: a finished one ends for its length
unless it already has a reason. -/
def markFinished (keys : List EngineRequestId)
    (terminal : BTreeMap EngineRequestId ChatFinishReason) :
    BTreeMap EngineRequestId ChatFinishReason :=
  keys.foldl (fun terminal id =>
    if report.requestState id = some .finished ∧ terminal.get id = none then
      terminal.insert id .length
    else terminal) terminal

structure EndState (δ : Type) where
  service : ChatService δ
  output : List EngineDelta
  finished : List EngineFinished

/-- One round of the terminal loop. Terminal requests are retained, so the
`expect` of the source is the branch without a request. -/
def endRequest (t : EndState δ)
    (entry : EngineRequestId × ChatFinishReason) : Except Error (EndState δ) :=
  match t.service.requests.get entry.1 with
  | none => .ok t
  | some a => do
    let (a, events, reason) ← (a.withIds t.service.nextToolCallId).conclude entry.2
    let released ← report.release entry.1
    return {
      service := ⟨t.service.requests.erase entry.1, a.ids⟩
      output := t.output ++ tag entry.1 events
      finished := t.finished ++ [⟨entry.1, reason, a.usage, released⟩]
    }

/-- The terminal loop, in the order of the ids. -/
def endRequests :
    EndState δ → List (EngineRequestId × ChatFinishReason) → Except Error (EndState δ)
  | t, [] => .ok t
  | t, entry :: entries => do
    let t ← endRequest report t entry
    endRequests t entries

/-- `tick_with_lifecycle` on a report of the scheduler. -/
def tick (s : ChatService δ) (report : SchedulerReport κ) :
    Except Error (ChatService δ × EngineTick κ) := do
  let served ← serveTokens fromStr tokenizer ⟨s.admitAll report.admitted, [], BTreeMap.empty⟩
    report.generated
  let terminal := markFinished report served.service.requests.keys served.terminal
  let ended ← endRequests report ⟨served.service, served.output, []⟩ terminal.entries
  return (ended.service, {
    output := ended.output
    finished := ended.finished
    decisionsFinished := report.decisionsFinished
    decisionsFailed := report.decisionsFailed
  })

end

def validateStopSequences (stopSequences : List Text) : Except Error Unit :=
  if stopSequences.any List.isEmpty then
    .error ⟨"chat stop sequences", ["stop sequences must not be empty"]⟩
  else .ok ()

def completionTokensWithinContext (promptTokens requested maxContextTokens : Nat) :
    Except Error Nat :=
  if maxContextTokens < promptTokens then
    .error ⟨"Qwen3.6 chat prompt capacity", ["expected at most ", idPiece maxContextTokens,
      " tokens, got ", idPiece promptTokens, " tokens"]⟩
  else .ok (min requested (maxContextTokens - promptTokens))

/-- What `add_request` reads of a rendered `ChatRequest`. -/
structure RenderedRequest where
  tools : List ChatTool
  startsInReasoning : Bool
  stopSequences : List Text
  promptTokens : Nat
  maxNewTokens : Nat

/-- `add_request`. `queue` is the answer of the tool grammar and the scheduler
for the completion tokens that are left: the id it assigned. -/
def addRequest (tokenizer : Tokenizer δ) (maxContextTokens : Nat) (s : ChatService δ)
    (request : RenderedRequest) (queue : Nat → Except Error EngineRequestId) :
    Except Error (ChatService δ × EngineRequestId) := do
  validateStopSequences request.stopSequences
  let output ← ChatOutputCodec.new tokenizer request.tools request.startsInReasoning
    s.nextToolCallId
  let maxNewTokens ← completionTokensWithinContext request.promptTokens request.maxNewTokens
    maxContextTokens
  let id ← queue maxNewTokens
  let active : ActiveChatRequest δ :=
    ⟨output, ResponseFilter.new request.stopSequences, ⟨request.promptTokens, 0, 0, 0⟩⟩
  return ({ s with requests := s.requests.insert id active }, id)

/-- `cancel_request`, which forgets the request whatever the scheduler answers. -/
def cancelRequest (s : ChatService δ) (id : EngineRequestId) : ChatService δ :=
  { s with requests := s.requests.erase id }

end ChatService

end Eider.Source
