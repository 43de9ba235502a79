import Eider.Source.Gemma4.State

/-!
The chat phases of a Gemma 4 tick (`infer/src/execution/gemma4_serving.rs`, lines 897 to 1230):
admission, decoding, prefill and the end of a request.
-/
namespace Eider.Source.Gemma4
open Lib Lib.ByteReader Lib.Faults
open Source.Qwen36 (SchedulerConfig RequestConfig raise attempt expect kvPageTokens
  retainedPromptPrefixTokens)

variable {φ : Type}

def changeRequest (id : Nat) (f : ActiveRequest → ActiveRequest) : Serving φ Unit :=
  modify fun s => match s.requests.get id with
    | some request => { s with requests := s.requests.insert id (f request) }
    | none => s

section
variable (model : Model) (input : TickInput model.vocab φ)

/-! ## Admission -/

variable (request : ActiveRequest)

def requestCapacity : Nat :=
  max (request.prompt.length + request.generation.maxNewTokens) 1

/-- The tokens of the prompt that the cache restores: whole pages of a retained prefix, and no
more than leave the last token for the prefill. -/
def restoredTokens (pages : Nat) (prompt : List Nat) : List Nat :=
  prompt.take (min (pages * kvPageTokens) (retainedPromptPrefixTokens prompt.length kvPageTokens))

def admitted (restored sid : Nat) (request : ActiveRequest) : ActiveRequest :=
  { request with
    promptPosition := restored
    prefixRetained := restored = request.prefixTarget && restored ≠ 0
    sequenceId := some sid
    usage := { request.usage with cachedPromptTokens := restored } }

variable (id : Nat)

/-- The body of the loop of `admit`; the result says whether the loop goes on. -/
def admitRequest : Serving φ Bool := do
  let request ← expect ((← get).requests.get id) "waiting request exists"
  let state ← attempt (newSequenceState model (requestCapacity request))
  reach input (.newSequenceState id) (.device "new_sequence_state")
  reach input (.newPageTable id) (.device "Sm12xPageTable::new")
  reach input (.admission id) (cacheError "admit")
  if input.wouldBlock id then
    modify fun s => { s with waiting := id :: s.waiting }
    return false
  else
    let cacheId := (← get).sequenceCache.nextId
    modify fun s => { s with sequenceCache := s.sequenceCache.enter input.chargedBytes }
    reach input (.synchronizeAdmission id) (.device "synchronize")
    let restored := restoredTokens (input.restoredPages id) request.prompt
    let sid ← insertSequence ⟨cacheId, restoreRows state restored⟩
    changeRequest id (admitted restored.length sid)
    return true

/-- The loop of `admit`. Each turn takes one request from the queue, so the length of the
queue bounds the turns. -/
def admitLoop : Nat → Serving φ Unit
  | 0 => pure ()
  | turns + 1 => do
    let s ← get
    if s.sequences.size < s.config.maxActiveSequences then
      match s.waiting with
      | [] => pure ()
      | id :: rest =>
        set { s with waiting := rest }
        if ← admitRequest model input id then admitLoop turns else pure ()
    else pure ()

/-- `admit`. -/
def admitRequests : Serving φ Unit := do
  admitLoop model input (← get).waiting.length

/-! ## Decoding -/

/-- The logits of the next token: those of the prompt, or those behind the last token. -/
def advance (id sid : Nat) (request : ActiveRequest) : Serving φ Unit := do
  if request.promptLogitsReady then
    changeRequest id fun request => { request with promptLogitsReady := false }
  else
    let token ← expect request.lastToken "generated Gemma 4 token exists after prompt logits"
    callModel [sid] [[token]]
      (AppendBatch.forwardToken model.device (only (input.forwardCall id)) true)

/-- The next token, by an argmax on the device or by a sampler on the host. -/
def sampleToken (request : ActiveRequest) : Serving φ Nat := do
  reach input (.readback id) (.device "readback")
  if request.generation.sampling.usesFastArgmax then pure ()
  else reach input (.sample id) (.format "sampling" "sample")
  return input.sampled id

def countToken (reasoning : Bool) (token : Nat) (request : ActiveRequest) : ActiveRequest :=
  { request with
    generatedTokens := request.generatedTokens + 1
    lastToken := some token
    history := request.history ++ [token]
    usage := { request.usage with
      completionTokens := request.usage.completionTokens + 1
      reasoningTokens := if reasoning then request.usage.reasoningTokens + 1
        else request.usage.reasoningTokens } }

/-- Why a request ends at a token, if it does. -/
def endsAt (reason : Option ChatFinishReason) (token : Nat) : Option ChatFinishReason :=
  match reason with
  | some reason => some reason
  | none =>
    if request.generation.eosTokenIds.contains token then some .eos
    else if request.generatedTokens = request.generation.maxNewTokens then some .length
    else none

/-- `generate_one`. The lease of the source covers the whole function; here the call of the
model has its own. -/
def generateOne : Serving φ (Option ChatFinishReason) := do
  let request ← expect ((← get).requests.get id) "decode request exists"
  let sid ← expect request.sequenceId "decode request is admitted"
  let _ ← attempt (leaseMany (← get).sequences [sid])
  advance model input id sid request
  let token ← sampleToken model input id request
  changeRequest id (countToken (input.isReasoning id) token)
  report fun tick => { tick with generated := tick.generated ++ [id] }
  reach input (.pushToken id) (.format "chat output" "push_token")
  let request ← expect ((← get).requests.get id) "decode request exists"
  return endsAt request (input.pushed id) token

def decodeLoop : List Nat → BTreeMap Nat ChatFinishReason →
    Serving φ (BTreeMap Nat ChatFinishReason)
  | [], terminal => return terminal
  | id :: rest, terminal => do
    match ← generateOne model input id with
    | some reason => decodeLoop rest (terminal.insert id reason)
    | none => decodeLoop rest terminal

/-- The filter of `decode_ids`. -/
def decodable : Bool :=
  request.sequenceId.isSome && request.prompt.length ≤ request.promptPosition &&
    request.generatedTokens < request.generation.maxNewTokens

variable (s : ChatService φ) (request : ActiveRequest)

def decodeIds : List Nat :=
  ((s.requests.values.filter decodable).take s.config.decodeCapacity).map ActiveRequest.id

/-! ## Prefill -/

/-- The filter of `prefill_ids`. -/
def prefillable : Bool :=
  request.sequenceId.isSome && request.generation.maxNewTokens ≠ 0 &&
    request.promptPosition < request.prompt.length

def prefillIds : List Nat :=
  ((s.requests.values.filter prefillable).take s.config.prefillSequenceCapacity).map
    ActiveRequest.id

/-- The chunk of a request for its share of the budget. It stops at the prefix that is to be
retained. -/
def prefillChunk (fairShare : Nat) : Nat :=
  let chunk := min (request.prompt.length - request.promptPosition) fairShare
  if request.prefixRetained = false ∧ request.promptPosition < request.prefixTarget then
    min chunk (request.prefixTarget - request.promptPosition)
  else chunk

/-- The selection loop of `prefill`, with the budget that is left. -/
def selectChunks : List ActiveRequest → Nat → List (ActiveRequest × Nat)
  | [], _ => []
  | request :: rest, budget =>
    let chunk := prefillChunk request ((budget + rest.length) / (rest.length + 1))
    if chunk = 0 then selectChunks rest budget
    else (request, chunk) :: selectChunks rest (budget - chunk)

def chunkTokens (chunk : Nat) : List Nat :=
  (request.prompt.drop request.promptPosition).take chunk

def checkpointReady : Bool :=
  !request.prefixRetained && request.prefixTarget ≠ 0 &&
    request.prefixTarget ≤ request.promptPosition

/-- `retain_request_checkpoint`, seen from the request. Its failures are only logged. -/
def retainRequestCheckpoint : ActiveRequest :=
  if request.prefixRetained ∨ request.prefixTarget = 0 then request
  else if s.maxPrefixEntries = some 0 then { request with prefixRetained := true }
  else match request.sequenceId.bind s.sequences.get with
    | none => request
    | some entry =>
      if entry.sequence.position ≠ request.prefixTarget then request
      else { request with prefixRetained := true }

def prefilled (chunk : Nat) : ActiveRequest :=
  let request := { request with
    promptPosition := request.promptPosition + chunk
    promptLogitsReady := request.promptPosition + chunk = request.prompt.length }
  if checkpointReady request then retainRequestCheckpoint s request else request

def takeRequests : List Nat → Serving φ (List ActiveRequest)
  | [] => return []
  | id :: rest => do
    let s ← get
    let request ← expect (s.requests.get id) "prefill request exists"
    set { s with requests := s.requests.erase id }
    let requests ← takeRequests rest
    return request :: requests

def putRequest : Serving φ Unit :=
  modify fun s => { s with requests := s.requests.insert request.id request }

/-- The sequence that a request of the batch must have. -/
def scheduledSequence : Except CudaError Nat :=
  match request.sequenceId with
  | some sid => .ok sid
  | none => .error (.format "Gemma 4 scheduled prefill"
      s!"request {request.id} has no admitted sequence")

/-- `prefill`. The requests of a batch that fails go back as they were. -/
def prefill (ids : List Nat) : Serving φ Unit := do
  let s ← get
  let requests ← ids.mapM fun id => expect (s.requests.get id) "prefill request exists"
  let selected := selectChunks requests s.config.prefillTokenCapacity
  if selected = [] then pure ()
  else
    let sids ← attempt (selected.mapM fun entry => scheduledSequence entry.1)
    let _ ← attempt (leaseMany s.sequences sids)
    let taken ← takeRequests (selected.map fun entry => entry.1.id)
    let chunks := selected.map Prod.snd
    let workspace := promptWorkspace s.config chunks.sum
    orUndo (do
      callModel sids (List.zipWith chunkTokens taken chunks)
        (AppendBatch.prefillBatch .gemma4 model.device (only input.prefillCall) workspace)
      reach input .synchronizePrefill (.device "synchronize")) (taken.forM putRequest)
    (taken.zip chunks).forM fun entry => do
      let request := prefilled (← get) entry.1 entry.2
      report fun tick => { tick with
        prefilled := tick.prefilled ++ [(request.id, request.promptPosition)] }
      putRequest request

/-! ## The end of a request -/

def withEmptyRequests (terminal : BTreeMap Nat ChatFinishReason) : BTreeMap Nat ChatFinishReason :=
  (s.requests.values.filter fun request => request.sequenceId.isSome &&
    request.generation.maxNewTokens = 0).foldl (fun terminal request =>
      if terminal.contains request.id then terminal else terminal.insert request.id .length)
    terminal

def finishOutput (reason : ChatFinishReason) : Serving φ ChatFinishReason := do
  match reason with
  | .eos | .length =>
    reach input (.finishOutput id) (.format "chat output" "finish")
    return (input.finished id).getD reason
  | reason => return reason

def finishRequest (reason : ChatFinishReason) : Serving φ Unit := do
  let _ ← expect ((← get).requests.get id) "terminal request exists"
  let reason ← finishOutput model input id reason
  let request ← expect ((← get).requests.get id) "terminal request remains"
  modify fun s => { s with requests := s.requests.erase id }
  let sid ← expect request.sequenceId "terminal request is admitted"
  let sequence ← releaseSequence sid
  finishSequence (input.fails (.finishSequence id)) sequence
  report fun tick => { tick with finished := tick.finished ++ [(id, reason, request.usage)] }

end

end Eider.Source.Gemma4
