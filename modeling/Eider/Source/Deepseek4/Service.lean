import Eider.Source.Deepseek4.Model
import Eider.Source.Scheduler.Tick

/-!
The DeepSeek V4 chat service (`infer/src/execution/deepseek4_serving.rs`, lines 29 to 1065)
and its sequence pool (`deepseek4/execution.rs`).

`TickInput` says which calls of one tick fail, what the sequence caches answer to an
admission and what the samplers other than the argmax draw. The output codec with the
response filter behind it is the type `ω`, seen through `OutputCodec`; the texts it emits
are its own. Durations and byte counts steer nothing here.
-/
namespace Eider.Source.Deepseek4
open Lib Lib.ByteReader
open Source.Qwen36 (SchedulerConfig RequestConfig raise attempt expect kvPageTokens
  retainedPromptPrefixTokens)

/-- The output codec and the response filter of a request. `push` is a token that decodes:
the codec behind it and the reason to end the response, if the filter finds one; `finish`
is what the filter finds at the end, for a truncated response or not. -/
structure OutputCodec (ω : Type) where
  isReasoning : ω → Bool
  push : ω → Nat → ω × Option ChatFinishReason
  finish : ω → Bool → Option ChatFinishReason

/-- `ActiveRequest`, with the id it is kept under. -/
structure ActiveRequest (ω : Type) where
  id : Nat
  prompt : List Nat
  promptPosition : Nat
  prefixTarget : Nat
  prefixRetained : Bool
  generation : RequestConfig
  generatedTokens : Nat
  lastToken : Option Nat
  pendingSample : Option Nat
  sequenceId : Option Nat
  history : List Nat
  output : ω
  usage : ChatUsage

/-- The calls of a tick that may fail. -/
inductive Site where
  | newSequenceState (request : Nat)
  | newPageTable (request : Nat)
  | admission (request : Nat)
  | newMtpPageTable (request : Nat)
  | newMtpState (request : Nat)
  | admitMtp (request : Nat)
  | newMtpHidden (request : Nat)
  | ordinary (call : ForwardCall)
  | cycle (call : CycleCall)
  | prefill (call : ForwardCall)
  | tails (call : ForwardCall)
  | sample (request : Nat)
  | pushToken (request generated : Nat)
  | finishOutput (request : Nat)
  | finishSequence (request : Nat)
deriving DecidableEq, Repr

/-- `AdmissionOutcome`, with the checkpoint that the cache hands to the restore closure. -/
inductive Admission (L κ : Type) where
  | admitted (checkpoint : Option (List L × List κ))
  | wouldBlock

/-- What the outside answers in one tick. -/
structure TickInput (L κ : Type) where
  fails : Site → Bool
  admission : Nat → Admission L κ
  mtpAdmits : Nat → Bool
  sampled : Nat → Nat

/-- `EngineTick`, without texts; `generated` names the tokens beside the requests. -/
structure Tick where
  generated : List (Nat × Nat)
  verification : List (Nat × Nat)
  prefilled : List (Nat × Nat)
  finished : List (Nat × ChatFinishReason × ChatUsage)
deriving DecidableEq, Repr

def Tick.empty : Tick := ⟨[], [], [], []⟩

/-- `Deepseek4ChatService`, with the report that the current tick is filling. -/
structure ChatService (L κ H ω : Type) where
  config : SchedulerConfig
  nextId : Nat
  waiting : List Nat
  requests : BTreeMap Nat (ActiveRequest ω)
  sequences : BTreeMap Nat (ExecutionSequence L κ H)
  nextSequenceId : Nat
  retainPrefixes : Bool
  workspace : BatchWorkspace
  mtpWorkspace : Option MtpWorkspace
  tick : Tick

/-- A call of the service: `?` keeps what the service has become, a panic ends it. -/
abbrev Serving (L κ H ω : Type) := EStateM (Fault CudaError) (ChatService L κ H ω)

variable {L κ H Φ ω α : Type}

/-! ## The pool and the requests -/

variable (pool : BTreeMap Nat (ExecutionSequence L κ H))

/-- `lease_many`: the entries of the ids. -/
def leaseMany (ids : List Nat) : Except CudaError (List (ExecutionSequence L κ H)) :=
  let unknown := CudaError.format "DeepSeek V4 execution sequence" "unknown or released sequence"
  if ids.Nodup then
    ids.mapM fun id => match pool.get id with
      | some sequence => .ok sequence
      | none => .error unknown
  else .error unknown

/-- The end of a lease: the entries go back under their ids. -/
def endLease (ids : List Nat)
    (entries : List (ExecutionSequence L κ H)) : BTreeMap Nat (ExecutionSequence L κ H) :=
  (ids.zip entries).foldl (fun pool entry => pool.insert entry.1 entry.2) pool

/-- A model call under a lease: its result and the entries behind it. -/
def withLease (ids : List Nat)
    (call : List (ExecutionSequence L κ H) → List (ExecutionSequence L κ H) × Except CudaError α) :
    Serving L κ H ω (α × List (ExecutionSequence L κ H)) := do
  let s ← get
  let entries ← attempt (leaseMany s.sequences ids)
  set { s with sequences := endLease s.sequences ids (call entries).1 }
  let result ← attempt (call entries).2
  return (result, (call entries).1)

def insertSequence (sequence : ExecutionSequence L κ H) : Serving L κ H ω Nat := do
  let s ← get
  if s.nextSequenceId + 1 < 2 ^ 64 then
    set { s with
      sequences := s.sequences.insert s.nextSequenceId sequence
      nextSequenceId := s.nextSequenceId + 1 }
    return s.nextSequenceId
  else raise (.format "DeepSeek V4 sequence ID" "sequence ID space exhausted")

def releaseSequence (id : Nat) : Serving L κ H ω Unit := do
  let s ← get
  match s.sequences.get id with
  | none => raise (.format "DeepSeek V4 execution sequence" "unknown or released sequence")
  | some _ => set { s with sequences := s.sequences.erase id }

/-- A call that may fail at a site. -/
def reachSite (input : TickInput L κ) (site : Site) (call : String) : Serving L κ H ω Unit :=
  if input.fails site then raise (.device call) else pure ()

/-- A call that is made only when it is needed. -/
def reachSiteWhen (needed : Bool) (input : TickInput L κ) (site : Site) (call : String) :
    Serving L κ H ω Unit :=
  if needed then reachSite input site call else pure ()

/-- `requests.remove(id).expect(..)` on each id. -/
def takeRequests (message : String) : List Nat → Serving L κ H ω (List (ActiveRequest ω))
  | [] => pure []
  | id :: rest => do
    let s ← get
    let request ← expect (s.requests.get id) message
    set { s with requests := s.requests.erase id }
    return request :: (← takeRequests message rest)

/-- `requests.insert(id, request)`. -/
def putRequest (request : ActiveRequest ω) : Serving L κ H ω Unit :=
  modify fun s => { s with requests := s.requests.insert request.id request }

/-- A call whose error puts the requests in hand back. -/
def orPutBack (requests : List (ActiveRequest ω)) (call : Serving L κ H ω α) :
    Serving L κ H ω α := fun s =>
  match call s with
  | .ok a s => .ok a s
  | .error (.failed e) s => (do
      requests.forM putRequest
      raise e) s
  | .error (.panicked message) s => .error (.panicked message) s

/-- `request.sequence_id.expect(..)` of each request. -/
def sequenceIds (message : String) (requests : List (ActiveRequest ω)) :
    Serving L κ H ω (List Nat) :=
  requests.mapM fun request => expect request.sequenceId message

def report (f : Tick → Tick) : Serving L κ H ω Unit :=
  modify fun s => { s with tick := f s.tick }

/-! ## Tokens -/

section
variable (codec : OutputCodec ω) (input : TickInput L κ)

/-- The request behind a token, before its text is decoded. -/
def countToken (request : ActiveRequest ω) (token : Nat) : ActiveRequest ω :=
  { request with
    generatedTokens := request.generatedTokens + 1
    lastToken := some token
    history := request.history ++ [token]
    usage := { request.usage with
      completionTokens := request.usage.completionTokens + 1
      reasoningTokens := if codec.isReasoning request.output
        then request.usage.reasoningTokens + 1 else request.usage.reasoningTokens } }

/-- `apply_sample`: the request behind a token, and why it ends there. A token whose text
does not decode is counted all the same. -/
def applySample (request : ActiveRequest ω) (token : Nat) :
    ActiveRequest ω × Except CudaError (Option ChatFinishReason) :=
  let counted := countToken codec request token
  if input.fails (.pushToken request.id counted.generatedTokens) then
    (counted, .error (.device "push_token"))
  else
    let pushed := codec.push request.output token
    let counted := { counted with output := pushed.1 }
    (counted, .ok (match pushed.2 with
      | some reason => some reason
      | none =>
        if request.generation.eosTokenIds.contains token then some .eos
        else if counted.generatedTokens = request.generation.maxNewTokens then some .length
        else none))

/-- The loop over the emitted tokens of a request: it ends at the first that finishes it. -/
def applySamples (request : ActiveRequest ω) : List Nat →
    List Nat × ActiveRequest ω × Except CudaError (Option ChatFinishReason)
  | [] => ([], request, .ok none)
  | token :: tokens =>
    match applySample codec input request token with
    | (request, .error e) => ([token], request, .error e)
    | (request, .ok (some reason)) => ([token], request, .ok (some reason))
    | (request, .ok none) =>
      let rest := applySamples request tokens
      (token :: rest.1, rest.2)

def sampleToken (device : Device L κ H Φ) (request : ActiveRequest ω) (logits : Φ) :
    Except CudaError Nat :=
  if input.fails (.sample request.id) then .error (.device "sample")
  else if request.generation.sampling.usesFastArgmax then .ok (device.top1 logits)
  else .ok (input.sampled request.id)

end

/-! ## Admission -/

section
variable (device : Device L κ H Φ) (input : TickInput L κ)

def admittedSequence (capacity : Nat) (checkpoint : Option (List L × List κ)) : Sequence L κ :=
  let (layers, rows) := checkpoint.getD (device.newLayers, [])
  { state := {
      layers := layers
      rollbackLayers := device.newLayers
      rollbackPosition := 0
      appendPending := false
      position := rows.length
      maxTokens := capacity }
    entry := ⟨rows, none⟩ }

def admittedMtpSequence : MtpSequence H where
  entry := ⟨[], none⟩
  position := 0
  previousHidden := device.zeroStream
  deferredHidden := device.zeroStream
  deferredToken := none

def admitMtp (id : Nat) : Serving L κ H ω (Option (MtpSequence H)) := do
  match (← get).mtpWorkspace with
  | none => return none
  | some _ =>
    reachSite input (.newMtpPageTable id) "Sm12xPageTable::new"
    reachSite input (.newMtpState id) "Deepseek4LayerSequenceState::new"
    reachSite input (.admitMtp id) "admit"
    if input.mtpAdmits id then
      reachSite input (.newMtpHidden id) "DeviceBuffer::zeroed"
      return some (admittedMtpSequence device)
    else
      raise (.format "DeepSeek V4 MTP admission"
        "preallocated MTP cache refused an admitted target sequence")

/-- The body of the admission loop; the result says whether the loop goes on. A cache that
retains nothing finds no checkpoint. -/
def admitRequest (id : Nat) : Serving L κ H ω Bool := do
  let request ← expect ((← get).requests.get id) "waiting request exists"
  let capacity := max (request.prompt.length + request.generation.maxNewTokens) 1
  reachSite input (.newSequenceState id) "new_sequence_state"
  reachSite input (.newPageTable id) "Sm12xPageTable::new"
  reachSite input (.admission id) "admit"
  match input.admission id with
  | .wouldBlock =>
    modify fun s => { s with waiting := id :: s.waiting }
    return false
  | .admitted checkpoint =>
    let sequence := admittedSequence device capacity
      (if (← get).retainPrefixes then checkpoint else none)
    let mtpSequence ← admitMtp device input id
    let cached := sequence.state.position
    let placed := { request with
      promptPosition := cached
      prefixRetained := cached = request.prefixTarget && cached ≠ 0 }
    putRequest placed
    let sequenceId ← insertSequence ⟨sequence, mtpSequence⟩
    putRequest { placed with
      sequenceId := some sequenceId
      usage := { placed.usage with cachedPromptTokens := cached } }
    return true

/-- The loop of `admit`. Each turn takes one request from the queue, so the length of the
queue bounds the turns. -/
def admitLoop : Nat → Serving L κ H ω Unit
  | 0 => pure ()
  | turns + 1 => do
    let s ← get
    if s.sequences.size < s.config.maxActiveSequences then
      match s.waiting with
      | [] => pure ()
      | id :: rest =>
        set { s with waiting := rest }
        if ← admitRequest device input id then admitLoop turns else pure ()
    else pure ()

/-- `admit`. -/
def admitRequests : Serving L κ H ω Unit := do
  admitLoop device input (← get).waiting.length

end

/-! ## Prefill -/

section
variable (device : Device L κ H Φ) (input : TickInput L κ)

def maxContinuationPrefillTokens : Nat := 1024

def prefillChunkCapacity (promptPosition fairShare : Nat) : Nat :=
  if promptPosition = 0 then fairShare else min fairShare maxContinuationPrefillTokens

def retentionBoundedChunk (chunk promptPosition prefixTarget : Nat)
    (retentionEnabled prefixRetained : Bool) : Nat :=
  if prefixRetained || !retentionEnabled || promptPosition ≥ prefixTarget then chunk
  else min chunk (prefixTarget - promptPosition)

def divCeil (a b : Nat) : Nat := (a + b - 1) / b

def prefillChunk (retainPrefixes : Bool) (request : ActiveRequest ω) (fairShare : Nat) : Nat :=
  let available := request.prompt.length - request.promptPosition
  retentionBoundedChunk
    (min (available - 1) (prefillChunkCapacity request.promptPosition fairShare))
    request.promptPosition request.prefixTarget retainPrefixes request.prefixRetained

/-- The selection loop of `prefill`. -/
def selectPrefill : List Nat → Nat → Serving L κ H ω (List (Nat × Nat))
  | [], _ => pure []
  | id :: rest, budget =>
    if budget = 0 then pure []
    else do
      let s ← get
      let request ← expect (s.requests.get id) "prefill request exists"
      let chunk := prefillChunk s.retainPrefixes request (divCeil budget (rest.length + 1))
      if chunk = 0 then selectPrefill rest budget
      else
        let selected ← selectPrefill rest (budget - chunk)
        return (id, chunk) :: selected

variable (request : ActiveRequest ω)

def retainedPrefixReady : Bool :=
  !request.prefixRetained && request.prefixTarget ≠ 0 &&
    request.promptPosition ≥ request.prefixTarget

/-- `retain_request_prefix`, seen from the request. Its failures are only logged. -/
def retainRequestPrefix (retainPrefixes : Bool) (request : ActiveRequest ω)
    (sequence : ExecutionSequence L κ H) : ActiveRequest ω :=
  if request.prefixRetained || request.prefixTarget = 0 || !retainPrefixes then request
  else if sequence.sequence.state.position ≠ request.prefixTarget then request
  else { request with prefixRetained := true }

/-- The result of a program over rows, with the sequences it leaves. -/
def runRows {β : Type} (program : EStateM CudaError (List β) α) (rows : List β)
    (store : List β → List (ExecutionSequence L κ H)) :
    List (ExecutionSequence L κ H) × Except CudaError α :=
  match program rows with
  | .ok a rows => (store rows, .ok a)
  | .error e rows => (store rows, .error e)

def targetRow (entry : ExecutionSequence L κ H) (tokens : List Nat) : BatchRow L κ H :=
  ⟨tokens, entry.sequence, []⟩

variable (entries : List (ExecutionSequence L κ H))

def storeTargets (rows : List (BatchRow L κ H)) : List (ExecutionSequence L κ H) :=
  List.zipWith (fun entry row => { entry with sequence := row.sequence }) entries rows

def rowPairs (tokens : List (List Nat)) : List (RowPair L κ H) :=
  List.zipWith (fun entry tokens => (targetRow entry tokens,
    ⟨tokens, entry.mtpSequence.getD (admittedMtpSequence device), []⟩)) entries tokens

def storePairs (pairs : List (RowPair L κ H)) : List (ExecutionSequence L κ H) :=
  pairs.map fun pair => ⟨pair.1.sequence, some pair.2.sequence⟩

def prefillCall (workspace : BatchWorkspace) (mtpWorkspace : Option MtpWorkspace)
    (tokens : List (List Nat)) (entries : List (ExecutionSequence L κ H)) :
    List (ExecutionSequence L κ H) × Except CudaError Unit :=
  match mtpWorkspace with
  | some mtpWorkspace =>
    runRows (prefillBatchWithMtp device (fun call => input.fails (.prefill call)) workspace
      mtpWorkspace) (rowPairs device entries tokens) storePairs
  | none =>
    runRows (prefillBatch device (fun call => input.fails (.prefill (.target call))) workspace)
      (List.zipWith targetRow entries tokens) (storeTargets entries)

def prefillSelected (selected : List (Nat × Nat)) : Serving L κ H ω Unit := do
  let requests ← takeRequests "prefill request exists" (selected.map Prod.fst)
  let ids ← sequenceIds "prefill request is admitted" requests
  let s ← get
  let tokens := List.zipWith
    (fun request (entry : Nat × Nat) =>
      (request.prompt.drop request.promptPosition).take entry.2) requests selected
  let called ← orPutBack requests
    (withLease ids (prefillCall device input s.workspace s.mtpWorkspace tokens))
  let moved := List.zipWith (fun (request : ActiveRequest ω) (entry : Nat × Nat) =>
    { request with promptPosition := request.promptPosition + entry.2 }) requests selected
  let settled := List.zipWith (fun request entry =>
    if retainedPrefixReady request then retainRequestPrefix s.retainPrefixes request entry
    else request) moved called.2
  settled.forM fun request => do
    report fun tick => { tick with
      prefilled := tick.prefilled ++ [(request.id, request.promptPosition)] }
    putRequest request

def tailCall (workspace : BatchWorkspace) (mtpWorkspace : Option MtpWorkspace)
    (tokens : List (List Nat)) (entries : List (ExecutionSequence L κ H)) :
    List (ExecutionSequence L κ H) × Except CudaError (List Φ) :=
  match mtpWorkspace with
  | some mtpWorkspace =>
    runRows (forwardBatchWithMtp device (fun call => input.fails (.tails call)) workspace
      mtpWorkspace) (rowPairs device entries tokens) storePairs
  | none =>
    runRows (do
        let logits ← forwardBatch device (fun call => input.fails (.tails (.target call))) workspace
        reach (input.fails (.tails .copyToHost)) "copy_to_host"
        return logits)
      (List.zipWith targetRow entries tokens) (storeTargets entries)

/-- The retention of a prompt that is complete, under a lease of its sequence. -/
def retainTail : Serving L κ H ω (ActiveRequest ω) :=
  if retainedPrefixReady request then do
    let s ← get
    let sequenceId ← expect request.sequenceId "prefill request is admitted"
    let entries ← attempt (leaseMany s.sequences [sequenceId])
    return match entries with
      | entry :: _ => retainRequestPrefix s.retainPrefixes request entry
      | [] => request
  else pure request

/-- What becomes of a request behind its prompt tail. -/
def settleTail (sampled : Nat) : Serving L κ H ω Unit := do
  let settled ← retainTail { request with
    promptPosition := request.promptPosition + 1
    pendingSample := some sampled }
  report fun tick => { tick with
    prefilled := tick.prefilled ++ [(settled.id, settled.promptPosition)] }
  putRequest settled

def prefillTails (tailIds : List Nat) : Serving L κ H ω Unit := do
  let requests ← takeRequests "prefill request exists" tailIds
  let ids ← sequenceIds "prefill request is admitted" requests
  let s ← get
  let tokens := requests.map fun request => request.prompt.drop request.promptPosition
  let called ← orPutBack requests
    (withLease ids (tailCall device input s.workspace s.mtpWorkspace tokens))
  let sampled ← orPutBack requests (attempt
    ((requests.zip called.1).mapM fun row => sampleToken input device row.1 row.2))
  (requests.zip sampled).forM fun row => settleTail row.1 row.2

def prefill (ids : List Nat) : Serving L κ H ω Unit :=
  if ids = [] then pure ()
  else do
    let s ← get
    let selected ← selectPrefill ids s.config.prefillTokenCapacity
    if selected ≠ [] then prefillSelected device input selected
    else
      let tails := (ids.filter fun id => match s.requests.get id with
        | some request => request.promptPosition + 1 = request.prompt.length
        | none => false).take s.config.prefillTokenCapacity
      if tails = [] then pure () else prefillTails device input tails

end

/-! ## Decode -/

section
variable (device : Device L κ H Φ) (codec : OutputCodec ω) (input : TickInput L κ)

def ordinaryRows : List (ActiveRequest ω) → List (ExecutionSequence L κ H) →
    List (BatchRow L κ H)
  | request :: requests, entry :: entries =>
    if request.pendingSample.isSome then ordinaryRows requests entries
    else targetRow entry request.lastToken.toList :: ordinaryRows requests entries
  | _, _ => []

def storeOrdinary : List (ActiveRequest ω) → List (ExecutionSequence L κ H) →
    List (BatchRow L κ H) → List (ExecutionSequence L κ H)
  | request :: requests, entry :: entries, rows =>
    if request.pendingSample.isSome then entry :: storeOrdinary requests entries rows
    else
      match rows with
      | row :: rows =>
        { entry with sequence := row.sequence } :: storeOrdinary requests entries rows
      | [] => entry :: storeOrdinary requests entries []
  | _, entries, _ => entries

def ordinaryCall (workspace : BatchWorkspace) (requests : List (ActiveRequest ω))
    (entries : List (ExecutionSequence L κ H)) :
    List (ExecutionSequence L κ H) × Except CudaError (List Φ) :=
  runRows (do
      let logits ← forwardBatch device (fun call => input.fails (.ordinary (.target call))) workspace
      reach (input.fails (.ordinary .copyToHost)) "copy_to_host"
      return logits)
    (ordinaryRows requests entries) (storeOrdinary requests entries)

/-- The sample of a request: the one in wait, or one of its row of logits. -/
def nextSample (request : ActiveRequest ω) (logits : List Φ) : Except (Fault CudaError) Nat :=
  match request.pendingSample, logits with
  | some token, _ => .ok token
  | none, [] => .error (.panicked "one logits row exists per forwarded request")
  | none, row :: _ =>
    match sampleToken input device request row with
    | .ok token => .ok token
    | .error e => .error (.failed e)

/-- What the sampling loop of `generate` leaves: the requests, the tokens it reports, and
the requests that end. -/
structure Sampled (ω : Type) where
  requests : List (ActiveRequest ω)
  generated : List (Nat × Nat)
  result : Except (Fault CudaError) (List (Nat × ChatFinishReason))

/-- The requests that end, with one that may. -/
def withReason (id : Nat) (reason : Option ChatFinishReason)
    (terminal : List (Nat × ChatFinishReason)) : List (Nat × ChatFinishReason) :=
  match reason with
  | some reason => (id, reason) :: terminal
  | none => terminal

/-- The sampling loop of `generate`. It stops at the first error. -/
def sampleRows : List (ActiveRequest ω) → List Φ → Sampled ω
  | [], _ => ⟨[], [], .ok []⟩
  | request :: requests, logits =>
    let taken := { request with pendingSample := none }
    match nextSample device input request logits with
    | .error e => ⟨taken :: requests, [], .error e⟩
    | .ok token =>
      match applySample codec input taken token with
      | (request, .error e) => ⟨request :: requests, [(request.id, token)], .error (.failed e)⟩
      | (sampled, .ok reason) =>
        let rest := sampleRows requests
          (if request.pendingSample.isSome then logits else logits.tail)
        ⟨sampled :: rest.requests, (request.id, token) :: rest.generated,
          rest.result.map (withReason request.id reason)⟩

/-- The logits of the requests that have no sample in wait. -/
def ordinaryLogits (requests : List (ActiveRequest ω)) (sequenceIds : List Nat) :
    Serving L κ H ω (List Φ) :=
  if requests.all fun request => request.pendingSample.isSome then pure []
  else do
    let _ ← (requests.filter fun request => request.pendingSample.isNone).mapM fun request =>
      expect request.lastToken "generated token exists after prompt logits"
    let s ← get
    let called ← orPutBack requests
      (withLease sequenceIds (ordinaryCall device input s.workspace requests))
    return called.1

def generate (ids : List Nat) : Serving L κ H ω (List (Nat × ChatFinishReason)) :=
  if ids = [] then pure []
  else do
    let requests ← takeRequests "decode request exists" ids
    let sequenceIds ← sequenceIds "decode request is admitted" requests
    let logits ← ordinaryLogits device input requests sequenceIds
    let sampled := sampleRows device codec input requests logits
    report fun tick => { tick with generated := tick.generated ++ sampled.generated }
    sampled.requests.forM putRequest
    match sampled.result with
    | .ok terminal => return terminal
    | .error fault => throw fault

def newLane (token : Nat) (entry : ExecutionSequence L κ H) : Lane L κ H where
  input := token
  target := targetRow entry []
  mtp := ⟨[], entry.mtpSequence.getD (admittedMtpSequence device), []⟩
  draft := 0
  accepted := false
  nextToken := 0

def storeLanes (lanes : List (Lane L κ H)) : List (ExecutionSequence L κ H) :=
  lanes.map fun lane => ⟨lane.target.sequence, some lane.mtp.sequence⟩

/-- The model call of a speculative decode, with what each row emits. -/
def cycleCall (workspace : BatchWorkspace) (mtpWorkspace : MtpWorkspace) (tokens : List Nat)
    (entries : List (ExecutionSequence L κ H)) :
    List (ExecutionSequence L κ H) × Except CudaError (List (Bool × List Nat)) :=
  runRows (do
      speculativeCycleArgmax device (fun call => input.fails (.cycle call)) workspace mtpWorkspace
      return (← get).map fun lane => (lane.accepted, lane.emittedTokens))
    (List.zipWith (newLane device) tokens entries) storeLanes

/-- The reinsertion loop of `generate_speculative`. A token whose text does not decode ends
it with the request and those behind it still in hand. -/
def settleLanes : List (ActiveRequest ω × Bool × List Nat) →
    Serving L κ H ω (List (Nat × ChatFinishReason))
  | [] => pure []
  | (request, accepted, tokens) :: rest => do
    report fun tick => { tick with
      verification := tick.verification ++ [(request.id, if accepted then 1 else 0)] }
    let applied := applySamples codec input request tokens
    report fun tick => { tick with
      generated := tick.generated ++ applied.1.map fun token => (request.id, token) }
    let reason ← attempt applied.2.2
    putRequest applied.2.1
    let terminal ← settleLanes rest
    return withReason request.id reason terminal

def generateSpeculative (ids : List Nat) : Serving L κ H ω (List (Nat × ChatFinishReason)) :=
  if ids = [] then pure []
  else do
    let requests ← takeRequests "decode request exists" ids
    let tokens ← requests.mapM fun request => expect request.lastToken "speculative input exists"
    let sequenceIds ← sequenceIds "speculative request is admitted" requests
    let s ← get
    let mtpWorkspace ← expect s.mtpWorkspace "speculative workspace exists"
    let called ← orPutBack requests
      (withLease sequenceIds (cycleCall device input s.workspace mtpWorkspace tokens))
    settleLanes codec input (requests.zip called.1)

end

/-! ## Ticks -/

section
variable (device : Device L κ H Φ) (codec : OutputCodec ω) (input : TickInput L κ)
variable (request : ActiveRequest ω)

def finishOutput (reason : ChatFinishReason) : ChatFinishReason :=
  match reason with
  | .eos => (codec.finish request.output false).getD .eos
  | .length => (codec.finish request.output true).getD .length
  | reason => reason

def finishRequest (id : Nat) (reason : ChatFinishReason) : Serving L κ H ω Unit := do
  let request ← expect ((← get).requests.get id) "terminal request exists"
  reachSiteWhen (reason = .eos || reason = .length) input (.finishOutput id) "finish"
  modify fun s => { s with requests := s.requests.erase id }
  let sequenceId ← expect request.sequenceId "terminal request is admitted"
  releaseSequence sequenceId
  reachSite input (.finishSequence id) "finish"
  report fun tick => { tick with
    finished := tick.finished ++ [(id, finishOutput codec request reason, request.usage)] }

def decodable : Bool :=
  request.sequenceId.isSome && request.promptPosition ≥ request.prompt.length &&
    request.generatedTokens < request.generation.maxNewTokens

/-- The requests that can speculate, beside decoding. -/
def speculative : Bool :=
  request.pendingSample.isNone && request.lastToken.isSome &&
    request.generation.sampling.usesFastArgmax &&
    request.generation.maxNewTokens - request.generatedTokens ≥ 2

variable (s : ChatService L κ H ω)

def decodeBatch : List (ActiveRequest ω) :=
  (s.requests.values.filter decodable).take s.config.decodeCapacity

/-- The requests that a tick decodes speculatively. -/
def speculativeBatch : List (ActiveRequest ω) :=
  (decodeBatch s).filter fun request => s.mtpWorkspace.isSome && speculative request

def ordinaryBatch : List (ActiveRequest ω) :=
  (decodeBatch s).filter fun request => !(s.mtpWorkspace.isSome && speculative request)

def prefillBatchOf : List (ActiveRequest ω) :=
  (s.requests.values.filter fun request => request.sequenceId.isSome &&
    request.generation.maxNewTokens ≠ 0 &&
    request.promptPosition < request.prompt.length).take s.config.prefillSequenceCapacity

/-- The requests that ask for no tokens end as soon as they are admitted. -/
def emptyRequests : List (Nat × ChatFinishReason) :=
  (s.requests.values.filter fun request =>
    request.sequenceId.isSome && request.generation.maxNewTokens = 0).map fun request =>
      (request.id, .length)

variable (terminal : BTreeMap Nat ChatFinishReason) (pairs : List (Nat × ChatFinishReason))

/-- `terminal.insert` for each pair. -/
def insertAll : BTreeMap Nat ChatFinishReason :=
  pairs.foldl (fun terminal pair => terminal.insert pair.1 pair.2) terminal

/-- `terminal.entry(id).or_insert(reason)` for each pair. -/
def insertMissing : BTreeMap Nat ChatFinishReason :=
  pairs.foldl (fun terminal pair =>
    if terminal.contains pair.1 then terminal else terminal.insert pair.1 pair.2) terminal

/-- `tick_with_lifecycle`. -/
def tick : Serving L κ H ω Unit := do
  modify fun s => { s with tick := .empty }
  admitRequests device input
  let s ← get
  let ordinary := (ordinaryBatch s).map ActiveRequest.id
  let speculative := (speculativeBatch s).map ActiveRequest.id
  let ended ← generate device codec input ordinary
  let endedSpeculative ← generateSpeculative device codec input speculative
  prefill device input ((prefillBatchOf (← get)).map ActiveRequest.id)
  let terminal := insertMissing (insertAll (insertAll .empty ended) endedSpeculative)
    (emptyRequests (← get))
  terminal.entries.forM fun entry => finishRequest codec input entry.1 entry.2

/-- `new_with_cache_config`, for a model with or without MTP weights. -/
def ChatService.new (mtpEnabled : Bool) (config : SchedulerConfig) (maxRetainedBytes : Nat) :
    Except CudaError (ChatService L κ H ω) := do
  config.validate
  rejectIf (config.speculativeDrafts > 1) (.shape "DeepSeek V4 speculative drafts"
    "zero or one native MTP draft" s!"{config.speculativeDrafts}")
  let speculative := decide (config.speculativeDrafts = 1)
  rejectIf (speculative = true ∧ mtpEnabled = false) (.format "DeepSeek V4 speculative decoding"
    "model was not loaded with native MTP weights")
  let sequences := max config.decodeCapacity config.prefillSequenceCapacity
  let workspace : BatchWorkspace :=
    ⟨sequences, max config.prefillTokenCapacity config.decodeCapacity, config.maxContextTokens⟩
  rejectIf (device.maxPositionEmbeddings < config.maxContextTokens)
    (.shape "DeepSeek V4 batch workspace"
      s!"positive capacities and context <= {device.maxPositionEmbeddings}"
      (s!"sequences={workspace.sequenceCapacity} tokens={workspace.tokenCapacity} " ++
        s!"context={workspace.maxContextTokens}"))
  let mtpWorkspace : MtpWorkspace :=
    ⟨sequences, max config.prefillTokenCapacity (config.decodeCapacity * 2)⟩
  rejectIf (speculative = true ∧ mtpWorkspace.tokenCapacity < mtpWorkspace.sequenceCapacity)
    (.shape "DeepSeek V4 MTP workspace" "positive token capacity at least sequence capacity"
      (s!"sequences={mtpWorkspace.sequenceCapacity} tokens={mtpWorkspace.tokenCapacity}"))
  return {
    config := config
    nextId := 1
    waiting := []
    requests := .empty
    sequences := .empty
    nextSequenceId := 0
    retainPrefixes := !speculative && maxRetainedBytes ≠ 0
    workspace := workspace
    mtpWorkspace := if speculative then some mtpWorkspace else none
    tick := .empty
  }

def checkRequest (config : SchedulerConfig) (prompt : List Nat) (generation : RequestConfig) :
    Except CudaError Unit := do
  let total := prompt.length + generation.maxNewTokens
  rejectIf (prompt = []) (.format "DeepSeek V4 chat prompt" "prompt tokenized to zero tokens")
  rejectIf (2 ^ 64 ≤ total) (.shape "DeepSeek V4 request capacity"
    "prompt + completion without overflow" s!"{prompt.length} + {generation.maxNewTokens}")
  rejectIf (config.maxContextTokens < total) (.shape "DeepSeek V4 request capacity"
    s!"at most {config.maxContextTokens} tokens" s!"{total} tokens")

def newRequest (id : Nat) (prompt : List Nat) (generation : RequestConfig) (output : ω) :
    ActiveRequest ω where
  id := id
  prompt := prompt
  promptPosition := 0
  prefixTarget := retainedPromptPrefixTokens prompt.length kvPageTokens
  prefixRetained := false
  generation := generation
  generatedTokens := 0
  lastToken := none
  pendingSample := none
  sequenceId := none
  history := prompt
  output := output
  usage := ⟨prompt.length, 0, 0, 0⟩

/-- `add_request`, with the id it returns. `rendered` is the prompt, or the error of the
stop sequences or of the template; a codec that cannot be built, `none`, is found behind
the new id. -/
def addRequest (rendered : Except CudaError (List Nat)) (generation : RequestConfig)
    (output : Option ω) : Serving L κ H ω Nat := do
  attempt (rejectIf (generation.sampling.valid = false)
    (.format "sampling" "invalid sampling parameters"))
  let prompt ← attempt rendered
  attempt (checkRequest (← get).config prompt generation)
  let s ← get
  if s.nextId + 1 < 2 ^ 64 then
    set { s with nextId := s.nextId + 1 }
    match output with
    | none => raise (.device "ChatOutputCodec::new")
    | some output =>
      putRequest (newRequest s.nextId prompt generation output)
      modify fun t => { t with waiting := t.waiting ++ [s.nextId] }
      return s.nextId
  else raise (.format "DeepSeek V4 request ID" "request ID space exhausted")

/-- `cancel_request`. The errors of the release are only logged. -/
def cancelRequest (id : Nat) : Serving L κ H ω Unit :=
  modify fun s => match s.requests.get id with
    | none => s
    | some request =>
      { s with
        requests := s.requests.erase id
        waiting := s.waiting.filter fun waiting => waiting ≠ id
        sequences := match request.sequenceId with
          | some sequenceId => s.sequences.erase sequenceId
          | none => s.sequences }

inductive Action (L κ ω : Type) where
  | addRequest (rendered : Except CudaError (List Nat)) (generation : RequestConfig)
      (output : Option ω)
  | tick (input : TickInput L κ)
  | cancelRequest (id : Nat)

def Action.call : Action L κ ω → Serving L κ H ω Unit
  | .addRequest rendered generation output => do
    let _ ← Deepseek4.addRequest rendered generation output
  | .tick input => Deepseek4.tick device codec input
  | .cancelRequest id => Deepseek4.cancelRequest id

def step (action : Action L κ ω) : Option (ChatService L κ H ω) :=
  match action.call device codec s with
  | .ok _ s => some s
  | .error (.failed _) s => some s
  | .error (.panicked _) _ => none

end

end Eider.Source.Deepseek4
