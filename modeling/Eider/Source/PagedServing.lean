import Eider.Source.Scheduler.Tick
import Eider.Source.ActiveSequences

/-!
The chat services of Ling 3, BitNet and Bonsai (`infer/src/execution/ling3_serving.rs`,
`bitnet_serving.rs`, `bonsai_serving.rs`, and the sequence pools and admissions of the three
models). They are one program that admits its sequences in two ways.

The state of a sequence beside its cache id is a type `S`, and `Calls` says what each call of
one tick does and returns, so that any call can fail at any point of any tick. The output
codec with the response filter behind it is the type `ω`. Durations steer nothing here.
-/
namespace Eider.Source.PagedServing
open Lib Lib.ByteReader
open Source.Qwen36 (SchedulerConfig RequestConfig raise attempt expect)

inductive Family where
  | ling3
  | bitNet
  | bonsai
deriving DecidableEq, Repr

/-- How a service begins the labels of its errors. -/
def Family.label : Family → String
  | .ling3 => "Ling 3"
  | .bitNet => "BitNet"
  | .bonsai => "Bonsai"

def Family.emptyPrompt : Family → String
  | .ling3 => "prompt tokenised to zero tokens"
  | .bitNet => "prompt tokenized to zero tokens"
  | .bonsai => "prompt tokenized to zero tokens"

/-- A sequence of a pool (`Ling3Sequence`, `BitNetSequence`, `BonsaiSequence`). -/
structure Sequence (S : Type) where
  cacheId : Nat
  state : S

/-- `ActiveRequest`, with the id it is kept under. -/
structure ActiveRequest (ω : Type) where
  id : Nat
  prompt : List Nat
  promptPosition : Nat
  generation : RequestConfig
  generatedTokens : Nat
  lastToken : Option Nat
  promptLogitsReady : Bool
  sequenceId : Option Nat
  history : List Nat
  output : ω
  usage : ChatUsage

/-- The calls of one tick: the state behind each, and what it returns. The admission by the
cache answers with the bytes it charges, or with `none` if it would block. A text that is
decoded ends the request at the reason that the response filter finds in it. -/
structure Calls (S ω : Type) where
  newState : (request capacity : Nat) → Except CudaError S
  newWorkspace : (request : Nat) → Except CudaError Unit
  prepareDecodeGraphs : (request : Nat) → S → Except CudaError S
  newPageTable : (request capacity : Nat) → Except CudaError Unit
  admission : (request : Nat) → Except CudaError (Option Nat)
  synchronizeAdmission : (request : Nat) → Except CudaError Unit
  deviceBytes : S → Nat
  prefill : (request : Nat) → List Nat → S → S × Except CudaError Unit
  decodeToken : (request token : Nat) → S → S × Except CudaError Unit
  argmaxWithLogit : (request : Nat) → S → Except CudaError Nat
  logitsToHost : (request : Nat) → S → Except CudaError Unit
  sample : (request : Nat) → List Nat → S → Except CudaError Nat
  isReasoning : ω → Bool
  pushToken : (request : Nat) → ω → Nat → ω × Except CudaError (Option ChatFinishReason)
  finishOutput : (request : Nat) → ω → Bool → ω × Except CudaError (Option ChatFinishReason)
  finishSequence : (request : Nat) → Except CudaError Unit

/-- `EngineTick`, without texts. -/
structure Tick where
  generated : List Nat
  prefilled : List (Nat × Nat)
  finished : List EngineFinished
deriving DecidableEq, Repr

def Tick.empty : Tick := ⟨[], [], []⟩

/-- `Ling3ChatService`, `BitNetChatService`, `BonsaiChatService`, with the report that the
current tick is filling. -/
structure ChatService (S ω : Type) where
  config : SchedulerConfig
  nextId : Nat
  waiting : List Nat
  requests : BTreeMap Nat (ActiveRequest ω)
  sequences : BTreeMap Nat (Sequence S)
  nextSequenceId : Nat
  sequenceCache : ActiveSequences
  tick : Tick

/-- A call of the service: `?` keeps what the service has become, a panic ends it. -/
abbrev Serving (S ω : Type) := EStateM (Fault CudaError) (ChatService S ω)

variable {S ω α : Type}

/-! ## The pool and the requests -/

variable (family : Family)

def unknownSequence : CudaError :=
  .format (family.label ++ " execution sequence") "unknown or released sequence"

def insertSequence (sequence : Sequence S) : Serving S ω Nat := do
  let s ← get
  if s.nextSequenceId + 1 < 2 ^ 64 then
    set { s with
      sequences := s.sequences.insert s.nextSequenceId sequence
      nextSequenceId := s.nextSequenceId + 1 }
    return s.nextSequenceId
  else raise (.format (family.label ++ " sequence ID") "sequence ID space exhausted")

def releaseSequence (sid : Nat) : Serving S ω (Sequence S) := do
  let s ← get
  match s.sequences.get sid with
  | some sequence =>
    set { s with sequences := s.sequences.erase sid }
    return sequence
  | none => raise (unknownSequence family)

/-- A program on the state of a leased sequence. The lease ends by putting the sequence back,
whether the program returns or fails. -/
def withLease (sid : Nat) (program : S → S × Except CudaError α) :
    Serving S ω α := do
  let s ← get
  match s.sequences.get sid with
  | some sequence =>
    let called := program sequence.state
    set { s with
      sequences := s.sequences.insert sid { sequence with state := called.1 } }
    attempt called.2
  | none => raise (unknownSequence family)

def changeRequest (id : Nat) (f : ActiveRequest ω → ActiveRequest ω) : Serving S ω Unit :=
  modify fun s => match s.requests.get id with
    | some request => { s with requests := s.requests.insert id (f request) }
    | none => s

def report (f : Tick → Tick) : Serving S ω Unit := modify fun s => { s with tick := f s.tick }

section
variable (family : Family) (calls : Calls S ω)

/-! ## Admission -/

def requestCapacity (request : ActiveRequest ω) : Nat :=
  max (request.prompt.length + request.generation.maxNewTokens) 1

variable (id : Nat) (request : ActiveRequest ω)

/-- The cache admits a sequence, or it would block. -/
def admitToCache (state : S) : Serving S ω (Option (Sequence S)) := do
  match ← attempt (calls.admission id) with
  | none => return none
  | some bytes =>
    let s ← get
    set { s with sequenceCache := s.sequenceCache.enter bytes }
    return some ⟨s.sequenceCache.nextId, state⟩

def admitLing3Sequence (id capacity : Nat) : Serving S ω (Option (Sequence S)) := do
  let state ← attempt (calls.newState id capacity)
  attempt (calls.newWorkspace id)
  let state ← attempt (calls.prepareDecodeGraphs id state)
  attempt (calls.newPageTable id capacity)
  admitToCache calls id state

/-- `BitNetSequence::admit` and `BonsaiSequence::admit`, which do not wait for capacity. -/
def admitSynchronized (label : String) (id capacity : Nat) : Serving S ω (Sequence S) := do
  let state ← attempt (calls.newState id capacity)
  attempt (calls.newPageTable id capacity)
  match ← admitToCache calls id state with
  | none => raise (.format (label ++ " sequence admission")
      "configured cache has insufficient capacity")
  | some sequence =>
    attempt (calls.synchronizeAdmission id)
    return sequence

/-- The admission of a sequence. -/
def admitSequence (id capacity : Nat) : Serving S ω (Option (Sequence S)) :=
  match family with
  | .ling3 => admitLing3Sequence calls id capacity
  | .bitNet => some <$> admitSynchronized calls "BitNet" id capacity
  | .bonsai => some <$> admitSynchronized calls "Bonsai" id capacity

/-- The body of the loop of `admit`; the result says whether the loop goes on. -/
def admitRequest : Serving S ω Bool := do
  let request ← expect ((← get).requests.get id) "waiting request exists"
  match ← admitSequence family calls id (requestCapacity request) with
  | none =>
    modify fun s => { s with waiting := id :: s.waiting }
    return false
  | some sequence =>
    let sid ← insertSequence family sequence
    changeRequest id fun request => { request with sequenceId := some sid }
    return true

/-- The loop of `admit`. Each turn takes one request from the queue, so the length of the
queue bounds the turns. -/
def admitLoop : Nat → Serving S ω Unit
  | 0 => pure ()
  | turns + 1 => do
    let s ← get
    if s.sequences.size < s.config.maxActiveSequences then
      match s.waiting with
      | [] => pure ()
      | id :: rest =>
        set { s with waiting := rest }
        if ← admitRequest family calls id then admitLoop turns else pure ()
    else pure ()

/-- `admit`. -/
def admitRequests : Serving S ω Unit := do
  admitLoop family calls (← get).waiting.length

/-! ## Decoding and prefill -/

/-- The logits of the next token: those of the prompt, or those behind the last token. -/
def advance (id sid : Nat) (request : ActiveRequest ω) : Serving S ω Unit := do
  if request.promptLogitsReady then
    changeRequest id fun request => { request with promptLogitsReady := false }
  else
    let token ← expect request.lastToken "generated token exists after prompt logits"
    withLease family sid (calls.decodeToken id token)

/-- The next token. Ling 3 always samples on the host. -/
def sampleToken (state : S) : Except CudaError Nat := do
  if family ≠ .ling3 && request.generation.sampling.usesFastArgmax then
    calls.argmaxWithLogit id state
  else
    calls.logitsToHost id state
    calls.sample id request.history state

def countToken (token : Nat) (request : ActiveRequest ω) : ActiveRequest ω :=
  { request with
    generatedTokens := request.generatedTokens + 1
    lastToken := some token
    history := request.history ++ [token]
    usage := { request.usage with
      completionTokens := request.usage.completionTokens + 1
      reasoningTokens := if calls.isReasoning request.output
        then request.usage.reasoningTokens + 1 else request.usage.reasoningTokens } }

def endsAt (reason : Option ChatFinishReason) (token : Nat) : Option ChatFinishReason :=
  match reason with
  | some reason => some reason
  | none =>
    if request.generation.eosTokenIds.contains token then some .eos
    else if request.generatedTokens = request.generation.maxNewTokens then some .length
    else none

def emitToken (id token : Nat) : Serving S ω (Option ChatFinishReason) := do
  changeRequest id (countToken calls token)
  report fun tick => { tick with generated := tick.generated ++ [id] }
  let request ← expect ((← get).requests.get id) "decode request exists"
  let pushed := calls.pushToken id request.output token
  changeRequest id fun request => { request with output := pushed.1 }
  let reason ← attempt pushed.2
  return endsAt request reason token

/-- `generate_one`. The lease of the source covers the whole function; here each use of the
sequence has its own. -/
def generateOne : Serving S ω (Option ChatFinishReason) := do
  let request ← expect ((← get).requests.get id) "decode request exists"
  let sid ← expect request.sequenceId "decode request is admitted"
  withLease family sid fun state => (state, .ok ())
  advance family calls id sid request
  let token ← withLease family sid fun state => (state, sampleToken family calls id request state)
  emitToken calls id token

def decodeLoop : List Nat → BTreeMap Nat ChatFinishReason →
    Serving S ω (BTreeMap Nat ChatFinishReason)
  | [], terminal => return terminal
  | id :: rest, terminal => do
    match ← generateOne family calls id with
    | some reason => decodeLoop rest (terminal.insert id reason)
    | none => decodeLoop rest terminal

variable (s : ChatService S ω)

def decodeIds : List Nat :=
  ((s.requests.values.filter fun request => request.sequenceId.isSome &&
    request.promptPosition = request.prompt.length &&
    request.generatedTokens < request.generation.maxNewTokens).take
      s.config.decodeCapacity).map ActiveRequest.id

def prefillIds : List Nat :=
  ((s.requests.values.filter fun request => request.sequenceId.isSome &&
    request.generation.maxNewTokens ≠ 0 && request.promptPosition < request.prompt.length).take
      s.config.prefillSequenceCapacity).map ActiveRequest.id

/-- The loop of `prefill`, with the budget that is left. -/
def prefillLoop : List Nat → Nat → Serving S ω Unit
  | [], _ => pure ()
  | id :: rest, budget => do
    let request ← expect ((← get).requests.get id) "prefill request exists"
    let available := request.prompt.length - request.promptPosition
    let chunk := min available ((budget + rest.length) / (rest.length + 1))
    if chunk = 0 then prefillLoop rest budget
    else
      let stop := request.promptPosition + chunk
      let sid ← expect request.sequenceId "request is admitted"
      withLease family sid
        (calls.prefill id ((request.prompt.take stop).drop request.promptPosition))
      changeRequest id fun request => { request with
        promptPosition := stop
        promptLogitsReady := stop = request.prompt.length }
      report fun tick => { tick with prefilled := tick.prefilled ++ [(id, stop)] }
      prefillLoop rest (budget - chunk)

/-! ## The end of a request -/

def withEmptyRequests (terminal : BTreeMap Nat ChatFinishReason) : BTreeMap Nat ChatFinishReason :=
  (s.requests.values.filter fun request => request.sequenceId.isSome &&
    request.generation.maxNewTokens = 0).foldl (fun terminal request =>
      if terminal.contains request.id then terminal else terminal.insert request.id .length)
    terminal

def finishOutput (output : ω) (reason : ChatFinishReason) : Serving S ω ChatFinishReason :=
  match reason with
  | .eos => do
    let finished := calls.finishOutput id output false
    changeRequest id fun request => { request with output := finished.1 }
    return (← attempt finished.2).getD .eos
  | .length => do
    let finished := calls.finishOutput id output true
    changeRequest id fun request => { request with output := finished.1 }
    return (← attempt finished.2).getD .length
  | reason => return reason

def finishRequest (reason : ChatFinishReason) : Serving S ω Unit := do
  let request ← expect ((← get).requests.get id) "terminal request exists"
  let reason ← finishOutput calls id request.output reason
  modify fun s => { s with requests := s.requests.erase id }
  let sid ← expect request.sequenceId "terminal request is admitted"
  let sequence ← releaseSequence family sid
  modify fun s => { s with sequenceCache := s.sequenceCache.finish sequence.cacheId }
  attempt (calls.finishSequence id)
  report fun tick => { tick with finished := tick.finished ++
    [⟨id, reason, request.usage, calls.deviceBytes sequence.state⟩] }

/-- `tick_with_lifecycle`. -/
def tick : Serving S ω Unit := do
  modify fun s => { s with tick := .empty }
  admitRequests family calls
  let terminal ← decodeLoop family calls (decodeIds (← get)) .empty
  let s ← get
  prefillLoop family calls (prefillIds s) s.config.prefillTokenCapacity
  let terminal := withEmptyRequests (← get) terminal
  terminal.entries.forM fun entry => finishRequest family calls entry.1 entry.2

end

/-! ## Requests from outside -/

variable (family : Family)

def checkRequest (config : SchedulerConfig) (prompt : List Nat)
    (generation : RequestConfig) : Except CudaError Unit := do
  let total := prompt.length + generation.maxNewTokens
  rejectIf (prompt = []) (.format (family.label ++ " chat prompt") family.emptyPrompt)
  rejectIf (2 ^ 64 ≤ total) (.shape (family.label ++ " request capacity")
    "prompt + completion without overflow" s!"{prompt.length} + {generation.maxNewTokens}")
  rejectIf (config.maxContextTokens < total) (.shape (family.label ++ " request capacity")
    s!"at most {config.maxContextTokens} tokens" s!"{total} tokens")

def newRequest (id : Nat) (prompt : List Nat) (generation : RequestConfig) (output : ω) :
    ActiveRequest ω where
  id := id
  prompt := prompt
  promptPosition := 0
  generation := generation
  generatedTokens := 0
  lastToken := none
  promptLogitsReady := false
  sequenceId := none
  history := prompt
  output := output
  usage := ⟨prompt.length, 0, 0, 0⟩

/-- `add_request`, with the id it returns. `rendered` is the prompt, or the error of the stop
sequences or of the template; a sampler or a codec that cannot be built, `none`, is found
behind the new id. Only BitNet refuses tools. -/
def addRequest (tools : Bool) (rendered : Except CudaError (List Nat))
    (generation : RequestConfig) (output : Option ω) : Serving S ω Nat := do
  attempt (rejectIf (generation.sampling.valid = false)
    (.format "sampling" "invalid sampling parameters"))
  attempt (rejectIf (family = .bitNet ∧ tools = true) (.format "BitNet chat tools"
    "the official BitNet checkpoint template has no tool-call protocol"))
  let prompt ← attempt rendered
  let s ← get
  attempt (checkRequest family s.config prompt generation)
  attempt (rejectIf (2 ^ 64 ≤ s.nextId + 1)
    (.format (family.label ++ " request ID") "request ID space exhausted"))
  set { s with nextId := s.nextId + 1 }
  match output with
  | none => raise (.device "ChatOutputCodec::new")
  | some output =>
    modify fun t => { t with
      requests := t.requests.insert s.nextId (newRequest s.nextId prompt generation output)
      waiting := t.waiting ++ [s.nextId] }
    return s.nextId

/-- `cancel_request`. The errors of the release are only logged. -/
def cancelRequest (id : Nat) : Serving S ω Unit :=
  modify fun s => match s.requests.get id with
    | none => s
    | some request =>
      let waiting := s.waiting.filter fun waiting => waiting ≠ id
      let requests := s.requests.erase id
      match request.sequenceId.bind fun sid => (s.sequences.get sid).map fun q => (sid, q) with
      | none => { s with requests := requests, waiting := waiting }
      | some (sid, sequence) => { s with
          requests := requests
          waiting := waiting
          sequences := s.sequences.erase sid
          sequenceCache := s.sequenceCache.finish sequence.cacheId }

/-- `new`, once the cache is built. The warm-up of BitNet and Bonsai has finished its sequence,
whose id is given out. -/
def ChatService.new (config : SchedulerConfig) : ChatService S ω where
  config := config
  nextId := 1
  waiting := []
  requests := .empty
  sequences := .empty
  nextSequenceId := 0
  sequenceCache := ⟨.empty, if family = .ling3 then 0 else 1⟩
  tick := .empty

inductive Action (S ω : Type) where
  | addRequest (tools : Bool) (rendered : Except CudaError (List Nat))
      (generation : RequestConfig) (output : Option ω)
  | tick (calls : Calls S ω)
  | cancelRequest (id : Nat)

def Action.call : Action S ω → Serving S ω (Option Nat)
  | .addRequest tools rendered generation output =>
    some <$> PagedServing.addRequest family tools rendered generation output
  | .tick calls => do
    PagedServing.tick family calls
    return none
  | .cancelRequest id => do
    PagedServing.cancelRequest id
    return none

/-- One step of a run, with the ids that were returned so far; a panic ends the run. -/
def step (x : ChatService S ω × List Nat) (action : Action S ω) :
    Option (ChatService S ω × List Nat) :=
  match action.call family x.1 with
  | .ok returned s => some (s, x.2 ++ returned.toList)
  | .error (.failed _) s => some (s, x.2)
  | .error (.panicked _) _ => none

end Eider.Source.PagedServing
