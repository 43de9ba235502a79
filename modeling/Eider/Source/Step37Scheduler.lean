import Eider.Source.Scheduler.Tick

/-!
The Step-3.7 scheduler (`infer/src/execution/step37_scheduler.rs`, lines 83 to 851) and
its sequence pool (`step37/execution.rs`, lines 17 to 148).

The model, its kernels and `seqcache` are parameters: `TextModel` says what a call does
when it succeeds, `interrupted` what a failing call leaves, and `TickInput` which calls
of one tick fail and which tokens are sampled. Samplers, histories, durations and byte
counts steer nothing here.
-/
namespace Eider.Source.Step37
open Lib Lib.ByteReader
open Source.Qwen36 (SchedulerConfig RequestConfig PrefixMatch raise attempt expect fairShare
  kvPageTokens retainedPromptPrefixTokens prefillChunkTokens)

variable {S C α : Type}

structure Request where
  id : Nat
  lifecycle : RequestState
  config : RequestConfig
  promptTokens : List Nat
  promptPosition : Nat
  prefixTarget : Nat
  prefixRetained : Bool
  sequenceId : Option Nat
  lastToken : Option Nat
  generatedTokens : List ScheduledToken
  finishReason : Option RequestFinishReason
deriving DecidableEq, Repr

/-- The calls of a tick that may fail. All but the batched prefill name their request. -/
inductive Site where
  | newSequenceState (request : Nat)
  | newPageTable (request : Nat)
  | deviceTokenCounts (request : Nat)
  | admission (request : Nat)
  | admissionSynchronize (request : Nat)
  | insertSequence (request : Nat)
  | decodeOne (request : Nat)
  | finishSequence (request : Nat)
  | prefillBatch
deriving DecidableEq, Repr

/-- `AdmissionOutcome`; an admitted sequence starts behind its restored prefix. -/
inductive AdmissionOutcome where
  | admitted (cacheId position : Nat)
  | wouldBlock
deriving DecidableEq, Repr

/-- `Step37TextModel` with the sequence cache `C`. `S` is a sequence: its cache id, its
page table and its decode state. -/
structure TextModel (S C : Type) where
  vocab : Nat
  maxPrefixEntries : Option Nat
  lookupPrefix : C → List Nat → C × Option PrefixMatch
  admission : C → Option PrefixMatch → Nat → C × AdmissionOutcome
  fromAdmission : Nat → Nat → Nat → S
  position : S → Nat
  decodeOne : S → C → Nat → S × C
  prefillBatch : List (List Nat × S) → C → List S × C
  finish : S → C → C
  containsPrefix : C → List Nat → Nat → Bool
  retainPrefix : S → C → List Nat → S × C
  interrupted : Site → List S → C → List S × C

/-- Which calls of a tick fail, and the token that is sampled for a request. -/
structure TickInput where
  fails : Site → Bool
  sampled : Nat → Nat

/-- `Step37SchedulerTick`, without durations and byte counts. -/
structure SchedulerTick where
  admitted : List (Nat × Nat)
  scheduled : List Nat
  prefilled : List (Nat × Nat × Nat)
  generated : List ScheduledToken
  finished : List Nat
deriving DecidableEq, Repr

def SchedulerTick.empty : SchedulerTick := ⟨[], [], [], [], []⟩

/-- `Step37Scheduler`, with the report that the current tick is filling. -/
structure Scheduler (S C : Type) where
  config : SchedulerConfig
  requests : BTreeMap Nat Request
  waiting : List Nat
  prefilling : List Nat
  decoding : List Nat
  nextId : Nat
  sequences : BTreeMap Nat S
  nextSequenceId : Nat
  cache : C
  tick : SchedulerTick

/-- A scheduler call: `?` keeps what the scheduler has become, a panic ends it. -/
abbrev Scheduling (S C : Type) := EStateM (Fault CudaError) (Scheduler S C)

namespace Request

variable (r : Request)

def maxTokens : Nat := r.promptTokens.length + r.config.maxNewTokens

/-- `remaining_prompt_tokens`. A restored prefix is one of the prompt, so the difference
is not negative. -/
def remainingPromptTokens : Nat := r.promptTokens.length - r.promptPosition

def prefillableTokens : Nat := r.remainingPromptTokens - 1

def decodeInputToken : Except CudaError Nat :=
  if r.remainingPromptTokens = 1 then .ok (r.promptTokens.getD r.promptPosition 0)
  else
    match r.lastToken with
    | some token => .ok token
    | none => .error (.format "Step-3.7 scheduled request"
        s!"request {r.id} has no decode input token")

/-- The finish reason of a request that generates `token`. -/
def finishAt (token : Nat) : Option RequestFinishReason :=
  if r.config.eosTokenIds.contains token then some .eos
  else if r.generatedTokens.length + 1 = r.config.maxNewTokens then some .length
  else none

def applySample (sampled : Nat) : Request × ScheduledToken :=
  let finishReason := r.finishAt sampled
  let token : ScheduledToken := ⟨r.id, sampled, finishReason⟩
  ({ r with
      promptPosition := if r.remainingPromptTokens = 1 then r.promptPosition + 1
        else r.promptPosition
      lastToken := some sampled
      lifecycle := if finishReason.isSome then .finished else .decoding
      finishReason := finishReason
      generatedTokens := r.generatedTokens ++ [token] }, token)

end Request

/-! ## The pool and the maps -/

variable (model : TextModel S C) (input : TickInput)

/-- A call that may fail at a site; a failure may leave the cache changed. -/
def reach (site : Site) (call : String) : Scheduling S C Unit :=
  if input.fails site then do
    modify fun s => { s with cache := (model.interrupted site [] s.cache).2 }
    raise (.device call)
  else pure ()

/-- A call that is made only when it is needed. -/
def reachWhen (needed : Bool) (model : TextModel S C) (input : TickInput) (site : Site)
    (call : String) : Scheduling S C Unit :=
  if needed then reach model input site call else pure ()

/-- `lease_many`: the entries of the ids, in their order. The lease puts every entry back
when it ends, so the pool itself is left as it is. -/
def leaseMany (pool : BTreeMap Nat S) (ids : List Nat) : Except CudaError (List S) :=
  if ids.Nodup then
    ids.mapM fun id => match pool.get id with
      | some sequence => .ok sequence
      | none => .error (.format "Step-3.7 execution sequence lease"
          s!"unknown or released sequence {id}")
  else .error (.format "Step-3.7 execution sequence lease" "duplicate sequence ID in one batch")

/-- The end of a lease: the entries go back under their ids. -/
def endLease (pool : BTreeMap Nat S) (ids : List Nat) (entries : List S) : BTreeMap Nat S :=
  (ids.zip entries).foldl (fun pool entry => pool.insert entry.1 entry.2) pool

def insertSequence (sequence : S) : Scheduling S C Nat := do
  let s ← get
  if s.nextSequenceId + 1 < 2 ^ 64 then
    set { s with
      sequences := s.sequences.insert s.nextSequenceId sequence
      nextSequenceId := s.nextSequenceId + 1 }
    return s.nextSequenceId
  else raise (.format "Step-3.7 sequence ID" "sequence ID space exhausted")

variable (id : Nat)

def releaseSequence : Scheduling S C S := do
  let s ← get
  match s.sequences.get id with
  | none => raise (.format "Step-3.7 execution sequence" s!"unknown or released sequence {id}")
  | some sequence =>
    set { s with sequences := s.sequences.erase id }
    return sequence

/-- `requests.remove(&id).expect(..)`. -/
def takeRequest (message : String) : Scheduling S C Request := do
  let s ← get
  let request ← expect (s.requests.get id) message
  set { s with requests := s.requests.erase id }
  return request

variable (request : Request)

/-- `requests.insert(request.id, request)`. -/
def putRequest : Scheduling S C Unit :=
  modify fun s => { s with requests := s.requests.insert request.id request }

def report (f : SchedulerTick → SchedulerTick) : Scheduling S C Unit :=
  modify fun s => { s with tick := f s.tick }

/-! ## Admission -/

/-- `device_token_counts` is kept for these requests. -/
def keepsTokenCounts (r : Request) : Bool :=
  r.config.sampling.supportsGpuSampling && r.config.sampling.usesHistoryPenalties

/-- The end of an admission: the sequence joins the pool and the request its queue. -/
def installRequest (cacheId cached : Nat) : Scheduling S C Unit := do
  reach model input (.admissionSynchronize request.id) "synchronize"
  let placed := { request with
    promptPosition := cached
    prefixRetained := cached = request.prefixTarget && cached ≠ 0 }
  putRequest placed
  reach model input (.insertSequence request.id) "device_bytes"
  let sequenceId ← insertSequence
    (model.fromAdmission cacheId (max request.maxTokens 1) cached)
  putRequest { placed with sequenceId := some sequenceId, lifecycle := .prefilling }
  modify fun s => { s with
    prefilling := s.prefilling ++ [request.id]
    tick := { s.tick with admitted := s.tick.admitted ++ [(request.id, cached)] } }

/-- The body of the admission loop; the result says whether the loop goes on. -/
def admitRequest : Scheduling S C Bool := do
  let request ← expect ((← get).requests.get id) "waiting request retained"
  let looked := model.lookupPrefix (← get).cache request.promptTokens
  modify fun s => { s with cache := looked.1 }
  reach model input (.newSequenceState id) "new_sequence_state"
  reach model input (.newPageTable id) "Sm12xPageTable::new"
  reachWhen (keepsTokenCounts request) model input (.deviceTokenCounts id)
    "DeviceBuffer::from_host"
  reach model input (.admission id) "admit"
  let admitted := model.admission (← get).cache looked.2 (max request.maxTokens 1)
  modify fun s => { s with cache := admitted.1 }
  match admitted.2 with
  | .wouldBlock =>
    modify fun s => { s with waiting := id :: s.waiting }
    return false
  | .admitted cacheId position =>
    installRequest model input request cacheId position
    return true

/-- The loop of `admit_waiting`. Each turn takes one request from the queue, so the length
of the queue bounds the turns. -/
def admitLoop : Nat → Scheduling S C Unit
  | 0 => pure ()
  | turns + 1 => do
    let s ← get
    if s.sequences.size < s.config.maxActiveSequences then
      match s.waiting with
      | [] => pure ()
      | id :: rest =>
        set { s with waiting := rest }
        if ← admitRequest model input id then admitLoop turns else pure ()
    else pure ()

def admitWaiting : Scheduling S C Unit := do
  admitLoop model input (← get).waiting.length

/-! ## Decode -/

/-- The `while` loop over the decoding queue, for the rows left. -/
def selectDecoding : Nat → Scheduling S C (List Request)
  | 0 => pure []
  | rows + 1 => do
    match (← get).decoding with
    | [] => pure []
    | id :: rest =>
      modify fun s => { s with decoding := rest }
      let request ← takeRequest id "decoding request retained"
      let selected ← selectDecoding rows
      return request :: selected

/-- The scan of the prefilling queue for requests with one prompt token left. -/
def scanPrefilling : Nat → List Request → Scheduling S C (List Request)
  | 0, selected => pure selected
  | scan + 1, selected => do
    let s ← get
    match s.prefilling with
    | [] => pure selected
    | id :: rest =>
      if selected.length < s.config.decodeCapacity then
        let request ← expect (s.requests.get id) "prefilling request retained"
        if request.remainingPromptTokens = 1 then
          set { s with prefilling := rest, requests := s.requests.erase id }
          scanPrefilling scan (selected ++ [request])
        else
          set { s with prefilling := rest ++ [id] }
          scanPrefilling scan selected
      else
        set { s with prefilling := rest ++ [id] }
        scanPrefilling scan selected

/-- The decode batch of a tick. -/
def selectBatch : Scheduling S C (List Request) := do
  let selected ← selectDecoding (← get).config.decodeCapacity
  scanPrefilling (← get).prefilling.length selected

/-- `execute_decode`: `sample_one` or `logits_one` with the host sampler. -/
def executeDecode :
    Scheduling S C Nat := do
  let token ← attempt request.decodeInputToken
  match request.sequenceId with
  | none => raise (.format "Step-3.7 scheduled decode"
      s!"request {request.id} has no admitted sequence state")
  | some sequenceId =>
    let s ← get
    match s.sequences.get sequenceId with
    | none => raise (.format "Step-3.7 execution sequence lease"
        s!"unknown or released sequence {sequenceId}")
    | some sequence =>
      if input.fails (.decodeOne request.id) then
        let (sequences, cache) := model.interrupted (.decodeOne request.id) [sequence] s.cache
        set { s with sequences := endLease s.sequences [sequenceId] sequences, cache := cache }
        raise (.device "decode_one")
      else
        let (sequence, cache) := model.decodeOne sequence s.cache token
        set { s with sequences := s.sequences.insert sequenceId sequence, cache := cache }
        return input.sampled request.id

/-- A call whose error the caller inspects. -/
def caught (call : Scheduling S C α) : Scheduling S C (Except CudaError α) := fun s =>
  match call s with
  | .ok a s => .ok (.ok a) s
  | .error (.failed e) s => .ok (.error e) s
  | .error (.panicked message) s => .error (.panicked message) s

/-- A request goes back to the front of its queue. -/
def restoreRequest : Scheduling S C Unit := do
  modify fun s =>
    if request.lifecycle = .decoding then { s with decoding := request.id :: s.decoding }
    else { s with prefilling := request.id :: s.prefilling }
  putRequest request

/-- What becomes of a request behind its sample. -/
def settleRequest :
    Scheduling S C Unit := do
  if request.lifecycle = .finished then
    let sequenceId ← expect request.sequenceId "finished admitted request has a sequence ID"
    let sequence ← releaseSequence sequenceId
    modify fun s => { s with cache := model.finish sequence s.cache }
    reach model input (.finishSequence request.id) "finish"
    report fun tick => { tick with finished := tick.finished ++ [request.id] }
    putRequest { request with sequenceId := none }
  else
    modify fun s => { s with decoding := s.decoding ++ [request.id] }
    putRequest request

/-- The loop over the decode batch. A failing request is put back together with those
behind it; those before it have moved on. -/
def decodeSelected : List Request → Scheduling S C Unit
  | [] => pure ()
  | request :: rest => do
    report fun tick => { tick with scheduled := tick.scheduled ++ [request.id] }
    match ← caught (executeDecode model input request) with
    | .error e =>
      (request :: rest).reverse.forM restoreRequest
      raise e
    | .ok sampled =>
      let (request, token) := request.applySample sampled
      report fun tick => { tick with generated := tick.generated ++ [token] }
      settleRequest model input request
      decodeSelected rest

def runDecodePhase : Scheduling S C Unit := do
  decodeSelected model input (← selectBatch)

/-! ## Prefill -/

/-- `retain_request_checkpoint`. Every failure is logged and ends the attempt. -/
def retainRequestCheckpoint (r : Request) : Scheduling S C Request := do
  if r.prefixRetained || r.prefixTarget = 0 then return r
  else if model.maxPrefixEntries = some 0 then return { r with prefixRetained := true }
  else
    match r.sequenceId with
    | none => return r
    | some sequenceId =>
      let s ← get
      match s.sequences.get sequenceId with
      | none => return r
      | some sequence =>
        if model.position sequence ≠ r.prefixTarget then return r
        else if model.containsPrefix s.cache r.promptTokens r.prefixTarget then
          return { r with prefixRetained := true }
        else
          let (sequence, cache) := model.retainPrefix sequence s.cache r.promptTokens
          set { s with sequences := s.sequences.insert sequenceId sequence, cache := cache }
          return { r with prefixRetained := true }

/-- How many requests of the queue a prefill selects, for the rows left. -/
def eligiblePrefills : List Nat → Nat → Scheduling S C Nat
  | [], _ => pure 0
  | _, 0 => pure 0
  | id :: rest, rows + 1 => do
    let request ← expect ((← get).requests.get id) "prefilling request retained"
    if request.prefillableTokens > 0 then
      let eligible ← eligiblePrefills rest rows
      return eligible + 1
    else eligiblePrefills rest (rows + 1)

/-- The selection loop of `run_prefill_phase`: `scan` turns, `slots` requests and
`tokenBudget` tokens are left. -/
def selectPrefill : Nat → Nat → Nat → Scheduling S C (List (Nat × Nat))
  | 0, _, _ => pure []
  | scan + 1, slots, tokenBudget =>
    if slots = 0 ∨ tokenBudget = 0 then pure []
    else do
      match (← get).prefilling with
      | [] => throw (.panicked "prefilling request retained")
      | id :: rest =>
        let request ← expect ((← get).requests.get id) "prefilling request retained"
        if request.prefillableTokens = 0 then
          modify fun s => { s with prefilling := rest ++ [id] }
          selectPrefill scan slots tokenBudget
        else
          let chunk := prefillChunkTokens request.prefillableTokens (fairShare tokenBudget slots)
            request.promptPosition request.prefixTarget request.prefixRetained
          modify fun s => { s with prefilling := rest }
          let selected ← selectPrefill scan (slots - 1) (tokenBudget - chunk)
          return (id, chunk) :: selected

/-- `requests.remove(id).expect(..)` on each selected id. -/
def takeRequests (message : String) : List Nat → Scheduling S C (List Request)
  | [] => pure []
  | id :: rest => do
    let request ← takeRequest id message
    return request :: (← takeRequests message rest)

/-- `requests[id].sequence_id.ok_or_else(..)`. -/
def sequenceIdOf (requests : BTreeMap Nat Request) (id : Nat) : Except CudaError Nat :=
  match requests.get id >>= Request.sequenceId with
  | some sequenceId => .ok sequenceId
  | none => .error (.format "Step-3.7 scheduled prefill" s!"request {id} has no admitted sequence")

/-- The rows of a prefill: the next chunk of each prompt. -/
def prefillRows (requests : List Request) (chunks : List Nat) (entries : List S) :
    List (List Nat × S) :=
  ((requests.zip chunks).zip entries).map fun row =>
    ((row.1.1.promptTokens.drop row.1.1.promptPosition).take row.1.2, row.2)

/-- What becomes of the requests behind their chunks. -/
def settlePrefills : List (Request × Nat) → Scheduling S C Unit
  | [] => pure ()
  | (request, chunk) :: rest => do
    let request ← retainRequestCheckpoint model
      { request with promptPosition := request.promptPosition + chunk }
    report fun tick => { tick with
      prefilled := tick.prefilled ++ [(request.id, chunk, request.promptPosition)] }
    modify fun s => { s with prefilling := s.prefilling ++ [request.id] }
    putRequest request
    settlePrefills rest

/-- The batched prefill of the selected requests. -/
def prefillSelected (selected : List (Nat × Nat)) :
    Scheduling S C Unit := do
  let s ← get
  let sequenceIds ← attempt ((selected.map Prod.fst).mapM (sequenceIdOf s.requests))
  let entries ← attempt (leaseMany s.sequences sequenceIds)
  let requests ← takeRequests "prefilling request retained" (selected.map Prod.fst)
  report fun tick => { tick with scheduled := tick.scheduled ++ selected.map Prod.fst }
  let rows := prefillRows requests (selected.map Prod.snd) entries
  if input.fails .prefillBatch then
    modify fun s =>
      let (entries, cache) := model.interrupted .prefillBatch entries s.cache
      { s with sequences := endLease s.sequences sequenceIds entries, cache := cache }
    requests.reverse.forM fun request => do
      modify fun s => { s with prefilling := request.id :: s.prefilling }
      putRequest request
    raise (.device "prefill_batch")
  else
    modify fun s =>
      let (entries, cache) := model.prefillBatch rows s.cache
      { s with sequences := endLease s.sequences sequenceIds entries, cache := cache }
    settlePrefills model (requests.zip (selected.map Prod.snd))

def runPrefillPhase : Scheduling S C Unit := do
  let s ← get
  let eligible ← eligiblePrefills s.prefilling s.config.prefillSequenceCapacity
  if eligible = 0 then pure ()
  else
    let selected ← selectPrefill s.prefilling.length eligible s.config.prefillTokenCapacity
    if selected = [] then pure () else prefillSelected model input selected

/-! ## Calls and runs -/

/-- `Step37Scheduler::new`, over a new cache. -/
def Scheduler.new (config : SchedulerConfig) (cache : C) : Except CudaError (Scheduler S C) := do
  config.validate
  return {
    config := config
    requests := .empty
    waiting := []
    prefilling := []
    decoding := []
    nextId := 0
    sequences := .empty
    nextSequenceId := 0
    cache := cache
    tick := .empty
  }

def unknownToken (tokens : List Nat) : Option Nat :=
  tokens.find? fun token => model.vocab ≤ token

def checkRequest (config : SchedulerConfig) (promptTokens : List Nat)
    (request : RequestConfig) : Except CudaError Unit := do
  let maxTokens := promptTokens.length + request.maxNewTokens
  rejectIf (request.sampling.valid = false) (.format "sampling" "invalid sampling parameters")
  rejectIf (promptTokens = []) (.format "Step-3.7 scheduler prompt"
    "prompt must contain at least one token")
  rejectIf (unknownToken model promptTokens ≠ none) (.shape "Step-3.7 scheduler prompt token"
    s!"token < {model.vocab}" (toString ((unknownToken model promptTokens).getD 0)))
  rejectIf (2 ^ 64 ≤ maxTokens) (.shape "Step-3.7 scheduler request capacity"
    "prompt + completion length without overflow"
    s!"{promptTokens.length} + {request.maxNewTokens}")
  rejectIf (config.maxContextTokens < maxTokens) (.shape "Step-3.7 scheduler request capacity"
    s!"at most {config.maxContextTokens} tokens" s!"{maxTokens}")

/-- The request that `add_request` makes. A request for no tokens is finished at once. -/
def newRequest (promptTokens : List Nat) (config : RequestConfig) : Request where
  id := id
  lifecycle := if config.maxNewTokens = 0 then .finished else .waiting
  config := config
  promptTokens := promptTokens
  promptPosition := 0
  prefixTarget := retainedPromptPrefixTokens promptTokens.length kvPageTokens
  prefixRetained := false
  sequenceId := none
  lastToken := none
  generatedTokens := []
  finishReason := if config.maxNewTokens = 0 then some .length else none

def addRequest (promptTokens : List Nat) (config : RequestConfig) :
    Scheduling S C Unit := do
  attempt (checkRequest model (← get).config promptTokens config)
  let s ← get
  if s.nextId + 1 < 2 ^ 64 then
    set { s with
      nextId := s.nextId + 1
      requests := s.requests.insert s.nextId (newRequest s.nextId promptTokens config)
      waiting := if config.maxNewTokens = 0 then s.waiting else s.waiting ++ [s.nextId] }
  else raise (.format "Step-3.7 scheduler request ID" "request ID space exhausted")

def tick : Scheduling S C Unit := do
  modify fun s => { s with tick := .empty }
  admitWaiting model input
  runDecodePhase model input
  runPrefillPhase model input

/-- `cancel_request`. The errors of the release are only logged. -/
def cancelRequest : Scheduling S C Unit :=
  modify fun s => match s.requests.get id with
    | none => s
    | some request =>
      if request.lifecycle = .finished then s
      else
        let s := { s with
          waiting := s.waiting.filter fun queued => queued ≠ id
          prefilling := s.prefilling.filter fun queued => queued ≠ id
          decoding := s.decoding.filter fun queued => queued ≠ id
          requests := s.requests.erase id }
        match request.sequenceId.bind fun sequenceId =>
            (s.sequences.get sequenceId).map fun sequence => (sequenceId, sequence) with
        | none => s
        | some (sequenceId, sequence) => { s with
            sequences := s.sequences.erase sequenceId
            cache := model.finish sequence s.cache }

def removeFinished : Scheduling S C Unit :=
  modify fun s => match s.requests.get id with
    | some request =>
      if request.lifecycle = .finished then { s with requests := s.requests.erase id } else s
    | none => s

inductive Action where
  | addRequest (promptTokens : List Nat) (config : RequestConfig)
  | tick (input : TickInput)
  | cancelRequest (id : Nat)
  | removeFinished (id : Nat)

def Action.call : Action → Scheduling S C Unit
  | .addRequest promptTokens config => Step37.addRequest model promptTokens config
  | .tick input => Step37.tick model input
  | .cancelRequest id => Step37.cancelRequest model id
  | .removeFinished id => Step37.removeFinished id

/-- The tokens that a client reads behind an action that returned `Ok`. -/
def Action.reports (s : Scheduler S C) : Action → List ScheduledToken
  | .tick _ => s.tick.generated
  | _ => []

/-- A scheduler and the tokens that its client has read from the ticks so far. -/
structure Session (S C : Type) where
  scheduler : Scheduler S C
  reported : List ScheduledToken

/-- One step of a run. The report of a tick that returns an error is lost. -/
def step (session : Session S C) (action : Action) : Option (Session S C) :=
  match action.call model session.scheduler with
  | .ok _ s => some ⟨s, session.reported ++ action.reports s⟩
  | .error (.failed _) s => some ⟨s, session.reported⟩
  | .error (.panicked _) _ => none

end Eider.Source.Step37
