import Eider.Source.ActiveSequences
import Eider.Source.Scheduler.Tick

/-!
The Flint chat service (`infer/src/execution/flint_serving.rs`) and the admission of its
sequences (`infer/src/flint/sequence.rs`, lines 218 to 331).

The state of a sequence beside its cache id is a type `S`, and `Calls` says what each call of
one tick does and returns, so that any call can fail at any point of any tick. The output
codec with the stop buffer and the tool flag behind it is the type `ω`. Durations steer
nothing here, and the package behind the cache says how many tokens of a prompt it can keep.
-/
namespace Eider.Source.Flint
open Lib Lib.ByteReader
open Source.Qwen36 (SchedulerConfig RequestConfig raise attempt expect)

/-- `FlintSequence`, once it is admitted. -/
structure FlintSequence (S : Type) where
  cacheId : Nat
  state : S

/-- `Request`, with the id it is kept under. -/
structure Request (S ω : Type) where
  id : Nat
  prompt : List Nat
  position : Nat
  prefixTarget : Nat
  prefixRetained : Bool
  state : Option (FlintSequence S)
  generation : RequestConfig
  last : Option Nat
  history : List Nat
  output : ω
  usage : ChatUsage

/-- The calls of one tick: the state behind each, and what it returns. The admission by the
cache answers with the bytes it charges and the state behind the restore, or with `none` if it
would block. The events of a text end the request at the reason that they give. -/
structure Calls (S ω : Type) where
  newSequenceState : (request capacity : Nat) → Except CudaError S
  admission : (request : Nat) → S → Except CudaError (Option (Nat × S))
  synchronizeAdmission : (request : Nat) → Except CudaError Unit
  initializeSampling : (request : Nat) → List Nat → S → Except CudaError S
  position : S → Nat
  deviceBytes : S → Nat
  forwardDecodeBatch : List (S × Nat) → List S × Except CudaError Unit
  forward : (request : Nat) → List Nat → S → S × Except CudaError Unit
  sample : (request : Nat) → List Nat → S → S × Except CudaError Nat
  retainPrefix : (request : Nat) → List Nat → S → S
  isReasoning : ω → Bool
  sawTools : ω → Bool
  pushToken : (request : Nat) → ω → Nat → ω × Except CudaError (Option ChatFinishReason)
  finishOutput : (request : Nat) → ω → Bool → ω × Except CudaError (Option ChatFinishReason)
  finishSequence : (request : Nat) → Except CudaError Unit

/-- `EngineTick`, without texts. -/
structure Tick where
  generated : List Nat
  prefilled : List (Nat × Nat)
  finished : List EngineFinished
deriving DecidableEq, Repr

def Tick.empty : Tick := ⟨[], [], []⟩

/-- `FlintChatService`, with the report that the current tick is filling. -/
structure FlintChatService (S ω : Type) where
  config : SchedulerConfig
  retainPrefixes : Bool
  decodeCursor : Option Nat
  prefillCursor : Option Nat
  nextId : Nat
  waiting : List Nat
  requests : BTreeMap Nat (Request S ω)
  cache : ActiveSequences
  tick : Tick

/-- A call of the service: `?` keeps what the service has become, a panic ends it. -/
abbrev Serving (S ω : Type) := EStateM (Fault CudaError) (FlintChatService S ω)

variable {S ω α : Type}

def changeRequest (id : Nat) (f : Request S ω → Request S ω) : Serving S ω Unit :=
  modify fun s => match s.requests.get id with
    | some request => { s with requests := s.requests.insert id (f request) }
    | none => s

def report (f : Tick → Tick) : Serving S ω Unit := modify fun s => { s with tick := f s.tick }

/-- A request with another state of its sequence. -/
def Request.withState (state : S) (request : Request S ω) : Request S ω :=
  { request with state := request.state.map fun sequence => { sequence with state := state } }

/-- A program on the state of a request's sequence. -/
def onState (id : Nat) (message : String) (program : S → S × Except CudaError α) :
    Serving S ω α := do
  let request ← expect ((← get).requests.get id) message
  let sequence ← expect request.state message
  let called := program sequence.state
  changeRequest id (Request.withState called.1)
  attempt called.2

/-- `rotate_requests`: the ids behind the cursor come first. The result is the selection with
the new cursor. -/
def rotateRequests (ids : List Nat) (cursor : Option Nat) (capacity : Nat) :
    List Nat × Option Nat :=
  let rotated := match cursor with
    | some previous =>
      let offset := (ids.takeWhile fun id => id ≤ previous).length
      ids.drop offset ++ ids.take offset
    | none => ids
  let selected := rotated.take capacity
  (selected, selected.getLast?.orElse fun _ => cursor)

section
variable (calls : Calls S ω)

/-! ## Admission -/

/-- `FlintModel::admit`. -/
def admitSequence (id capacity : Nat) : Serving S ω (Option (FlintSequence S)) := do
  let state ← attempt (calls.newSequenceState id capacity)
  match ← attempt (calls.admission id state) with
  | none => return none
  | some (bytes, state) =>
    let s ← get
    set { s with cache := s.cache.enter bytes }
    attempt (calls.synchronizeAdmission id)
    return some ⟨s.cache.nextId, state⟩

/-- The history of a request enters its sampling state, if the penalties read it. -/
def initializeSampling (id : Nat) (request : Request S ω) (state : S) : Except CudaError S :=
  if request.generation.sampling.usesHistoryPenalties then
    calls.initializeSampling id request.history state
  else .ok state

def admittedRequest (sequence : FlintSequence S) (request : Request S ω) : Request S ω :=
  { request with
    position := calls.position sequence.state
    prefixRetained := calls.position sequence.state = request.prefixTarget
    state := some sequence
    usage := { request.usage with cachedPromptTokens := calls.position sequence.state } }

/-- The positions that admission asks for. -/
def requestCapacity (request : Request S ω) : Nat :=
  max (request.prompt.length + request.generation.maxNewTokens) 1

/-- The body of the admission loop; the result says whether the loop goes on. -/
def admitRequest (id : Nat) : Serving S ω Bool := do
  let request ← expect ((← get).requests.get id) "queued request"
  match ← admitSequence calls id (requestCapacity request) with
  | none =>
    modify fun s => { s with waiting := id :: s.waiting }
    return false
  | some sequence =>
    let state ← attempt (initializeSampling calls id request sequence.state)
    changeRequest id (admittedRequest calls { sequence with state := state })
    return true

variable (s : FlintChatService S ω)

def FlintChatService.activeSequenceCount : Nat :=
  (s.requests.values.filter fun request => request.state.isSome).length

/-- The admission loop. Each turn takes one request from the queue, so the length of the
queue bounds the turns. -/
def admitLoop : Nat → Serving S ω Unit
  | 0 => pure ()
  | turns + 1 => do
    let s ← get
    if s.activeSequenceCount < s.config.maxActiveSequences then
      match s.waiting with
      | [] => pure ()
      | id :: rest =>
        set { s with waiting := rest }
        if ← admitRequest calls id then admitLoop turns else pure ()
    else pure ()

/-! ## Decoding -/

/-- The requests behind their prompt. -/
def decodable : List Nat :=
  (s.requests.values.filter fun request => request.state.isSome &&
    request.position = request.prompt.length && 0 < request.generation.maxNewTokens).map Request.id

/-- The selected requests that have a token to feed, with their states. -/
def decodeBatch (decode : List Nat) : List (Nat × S × Nat) :=
  s.requests.values.filterMap fun request =>
    if decode.contains request.id then
      request.last.bind fun token =>
        request.state.map fun sequence => (request.id, sequence.state, token)
    else none

/-- The states behind a packed step go back into their requests. -/
def storeStates (states : List (Nat × S)) : Serving S ω Unit :=
  states.forM fun entry => changeRequest entry.1 (Request.withState entry.2)

/-- The packed step, for more than one request; the result says whether it was made. -/
def packedStep (decode : List Nat) : Serving S ω Bool := do
  let batch := decodeBatch (← get) decode
  if 1 < batch.length then
    let called := calls.forwardDecodeBatch (batch.map Prod.snd)
    storeStates ((batch.map Prod.fst).zip called.1)
    attempt called.2
    return true
  else return false

/-- A request behind a token, before its text is decoded. -/
def countToken (token : Nat) (request : Request S ω) : Request S ω :=
  { request with
    last := some token
    history := request.history ++ [token]
    usage := { request.usage with
      completionTokens := request.usage.completionTokens + 1
      reasoningTokens := if calls.isReasoning request.output
        then request.usage.reasoningTokens + 1 else request.usage.reasoningTokens } }

/-- The markers that end an answer, beside the end-of-text tokens of the request. -/
def roleMarkers : List Nat := [150001, 150003, 150005, 150018]

/-- The emission of a token, and why it ends the request, if it does. -/
def emitToken (id token : Nat) : Serving S ω (Option ChatFinishReason) := do
  changeRequest id (countToken calls token)
  report fun tick => { tick with generated := tick.generated ++ [id] }
  let request ← expect ((← get).requests.get id) "active request"
  -- Role markers stop before they enter the user-visible decoder.
  if request.generation.eosTokenIds.contains token || roleMarkers.contains token then
    return some .eos
  else
    let pushed := calls.pushToken id request.output token
    changeRequest id fun request => { request with output := pushed.1 }
    match ← attempt pushed.2 with
    | some reason => return some reason
    | none =>
      if request.generation.maxNewTokens ≤ request.usage.completionTokens then return some .length
      else return none

/-- The body of the decode loop. -/
def decodeRequest (packed : Bool) (id : Nat) : Serving S ω (Option ChatFinishReason) := do
  let request ← expect ((← get).requests.get id) "active request"
  match request.last with
  | some token =>
    if packed then pure () else onState id "active state" (calls.forward id [token])
  | none => pure ()
  let token ← onState id "active state" (calls.sample id request.history)
  emitToken calls id token

/-- The decode loop, with the requests that have ended so far. -/
def decodeLoop (packed : Bool) : List Nat → BTreeMap Nat ChatFinishReason →
    Serving S ω (BTreeMap Nat ChatFinishReason)
  | [], terminal => return terminal
  | id :: rest, terminal => do
    match ← decodeRequest calls packed id with
    | some reason => decodeLoop packed rest (terminal.insert id reason)
    | none => decodeLoop packed rest terminal

def decodePhase : Serving S ω (BTreeMap Nat ChatFinishReason) := do
  let s ← get
  let rotated := rotateRequests (decodable s) s.decodeCursor s.config.decodeCapacity
  set { s with decodeCursor := rotated.2 }
  let packed ← packedStep calls rotated.1
  decodeLoop calls packed rotated.1 .empty

/-! ## Prefill -/

/-- The requests inside their prompt. -/
def prefillable : List Nat :=
  (s.requests.values.filter fun request => request.state.isSome &&
    request.position < request.prompt.length && 0 < request.generation.maxNewTokens).map Request.id

/-- The rows of a request, for its share of the budget; a chunk ends at the prefix that is to
be retained. -/
def prefillRows (request : Request S ω) (fairShare : Nat) : Nat :=
  let rows := min (request.prompt.length - request.position) fairShare
  if request.prefixRetained || request.prefixTarget = 0 then rows
  else min rows (request.prefixTarget - request.position)

/-- A request behind a chunk. A failure to retain its prefix is only logged. -/
def prefilledRequest (rows : Nat) (request : Request S ω) : Request S ω :=
  let moved := { request with position := request.position + rows }
  if !moved.prefixRetained && moved.position = moved.prefixTarget then
    { moved with
      state := moved.state.map fun sequence =>
        { sequence with state := calls.retainPrefix moved.id moved.prompt sequence.state }
      prefixRetained := true }
  else moved

/-- The prefill loop, with the budget that is left. -/
def prefillLoop : List Nat → Nat → Serving S ω Unit
  | [], _ => pure ()
  | id :: rest, budget => do
    let request ← expect ((← get).requests.get id) "active request"
    let rows := prefillRows request ((budget + rest.length) / (rest.length + 1))
    if rows = 0 then prefillLoop rest budget
    else
      onState id "active state"
        (calls.forward id ((request.prompt.drop request.position).take rows))
      changeRequest id (prefilledRequest calls rows)
      report fun tick => { tick with
        prefilled := tick.prefilled ++ [(id, request.position + rows)] }
      prefillLoop rest (budget - rows)

def prefillPhase : Serving S ω Unit := do
  let s ← get
  let rotated := rotateRequests (prefillable s) s.prefillCursor s.config.prefillSequenceCapacity
  set { s with prefillCursor := rotated.2 }
  prefillLoop calls rotated.1 s.config.prefillTokenCapacity

/-! ## The end of a request -/

/-- The requests that ask for no tokens end as soon as they are admitted. -/
def withEmptyRequests (terminal : BTreeMap Nat ChatFinishReason) : BTreeMap Nat ChatFinishReason :=
  (s.requests.values.filter fun request => request.state.isSome &&
    request.generation.maxNewTokens = 0).foldl (fun terminal request =>
      terminal.insert request.id .length) terminal

/-- The reason that a request is finished with, behind the last part of its output. -/
def lastReason (output : ω) (reason : ChatFinishReason) (last : Option ChatFinishReason) :
    ChatFinishReason :=
  let reason := last.getD reason
  if calls.sawTools output && reason = .eos then .toolCalls else reason

/-- The sequence of a removed request is finished. -/
def finishSequence (id : Nat) (sequence : FlintSequence S) : Serving S ω Unit := do
  modify fun s => { s with cache := s.cache.finish sequence.cacheId }
  attempt (calls.finishSequence id)

/-- The body of the loop over the ended requests. The request is removed first. -/
def finishRequest (id : Nat) (reason : ChatFinishReason) : Serving S ω Unit := do
  let request ← expect ((← get).requests.get id) "terminal request"
  modify fun s => { s with requests := s.requests.erase id }
  let finished := calls.finishOutput id request.output (reason = .length)
  let last ← attempt finished.2
  match request.state with
  | some sequence => finishSequence calls id sequence
  | none => pure ()
  report fun tick => { tick with finished := tick.finished ++
    [⟨id, lastReason calls finished.1 reason last, request.usage,
      (request.state.map fun sequence => calls.deviceBytes sequence.state).getD 0⟩] }

/-- `step`. -/
def tick : Serving S ω Unit := do
  modify fun s => { s with tick := .empty }
  admitLoop calls (← get).waiting.length
  let terminal ← decodePhase calls
  prefillPhase calls
  let terminal := withEmptyRequests (← get) terminal
  terminal.entries.forM fun entry => finishRequest calls entry.1 entry.2

end

/-! ## Requests from outside -/

/-- The error of the service for what it cannot take. -/
def invalid (detail : String) : CudaError := .format "Flint serving" detail

def checkRequest (config : SchedulerConfig) (prompt : List Nat) (generation : RequestConfig) :
    Except CudaError Unit := do
  let capacity := prompt.length + generation.maxNewTokens
  rejectIf (2 ^ 64 ≤ capacity) (invalid "request length overflow")
  rejectIf (prompt = [] ∨ config.maxContextTokens < capacity)
    (invalid "request exceeds context capacity or has an empty prompt")

def newRequest (id prefixTarget : Nat) (prompt : List Nat) (generation : RequestConfig)
    (output : ω) : Request S ω where
  id := id
  prompt := prompt
  position := 0
  prefixTarget := prefixTarget
  prefixRetained := false
  state := none
  generation := generation
  last := none
  history := prompt
  output := output
  usage := ⟨prompt.length, 0, 0, 0⟩

/-- `enqueue`, with the id it returns. `rendered` is the prompt, or the error of the stop
sequences or of the template; a sampler or a codec that cannot be built, `none`, is found
behind the new id. `cacheable` is the answer of `cacheable_prefix_tokens`. -/
def enqueue (rendered : Except CudaError (List Nat)) (generation : RequestConfig)
    (cacheable : Nat) (output : Option ω) : Serving S ω Nat := do
  attempt (rejectIf (generation.sampling.valid = false)
    (.format "sampling" "invalid sampling parameters"))
  let prompt ← attempt rendered
  let s ← get
  attempt (checkRequest s.config prompt generation)
  attempt (rejectIf (2 ^ 64 ≤ s.nextId + 1) (invalid "request ID overflow"))
  set { s with nextId := s.nextId + 1 }
  match output with
  | none => raise (.device "ChatOutputCodec::new")
  | some output =>
    let prefixTarget := if s.retainPrefixes then cacheable else 0
    modify fun t => { t with
      requests := t.requests.insert s.nextId
        (newRequest s.nextId prefixTarget prompt generation output)
      waiting := t.waiting ++ [s.nextId] }
    return s.nextId

/-- `cancel_request`. The errors of the release are only logged. -/
def cancelRequest (id : Nat) : Serving S ω Unit :=
  modify fun s =>
    let waiting := s.waiting.filter fun waiting => waiting ≠ id
    match s.requests.get id with
    | none => { s with waiting := waiting }
    | some request => { s with
        waiting := waiting
        requests := s.requests.erase id
        cache := match request.state with
          | some sequence => s.cache.finish sequence.cacheId
          | none => s.cache }

/-- `new`, once the cache is built. -/
def FlintChatService.new (config : SchedulerConfig) (maxRetainedBytes : Nat) :
    FlintChatService S ω where
  config := config
  retainPrefixes := maxRetainedBytes ≠ 0
  decodeCursor := none
  prefillCursor := none
  nextId := 1
  waiting := []
  requests := .empty
  cache := ⟨.empty, 0⟩
  tick := .empty

inductive Action (S ω : Type) where
  | addRequest (rendered : Except CudaError (List Nat)) (generation : RequestConfig)
      (cacheable : Nat) (output : Option ω)
  | tick (calls : Calls S ω)
  | cancelRequest (id : Nat)

def Action.call : Action S ω → Serving S ω (Option Nat)
  | .addRequest rendered generation cacheable output =>
    some <$> enqueue rendered generation cacheable output
  | .tick calls => do
    Flint.tick calls
    return none
  | .cancelRequest id => do
    Flint.cancelRequest id
    return none

/-- One step of a run, with the ids that were returned so far; a panic ends the run. -/
def step (x : FlintChatService S ω × List Nat) (action : Action S ω) :
    Option (FlintChatService S ω × List Nat) :=
  match action.call x.1 with
  | .ok returned s => some (s, x.2 ++ returned.toList)
  | .error (.failed _) s => some (s, x.2)
  | .error (.panicked _) _ => none

end Eider.Source.Flint
