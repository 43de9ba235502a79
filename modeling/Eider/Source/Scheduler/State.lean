import Eider.Lib.ByteReader
import Eider.Source.Batch
import Eider.Source.Serving
import Eider.Source.ToolConstraint

/-!
Data of the Qwen3.6 scheduler (`infer/src/execution/scheduler.rs`, lines 170 to 313),
of its sequence pool (`qwen3/qwen36/execution.rs`, lines 17 to 163) and of the
recurrent states it snapshots, restores and forks (`qwen3/qwen36.rs`, lines 8966 to
9165).

Everything outside is a parameter. `TextModel` bundles the kernels, the two halves of
`seqcache` and the constraint; `TickInput` says which calls of one tick fail and what
the samplers and drafters answer. The drafters' own states only steer their proposals,
which are arbitrary, so a request keeps no more of them than whether they exist.
-/
namespace Eider.Source.Qwen36
open Lib Lib.ByteReader

structure SchedulerConfig where
  decodeCapacity : Nat
  decisionBranchCapacity : Nat
  prefillSequenceCapacity : Nat
  prefillTokenCapacity : Nat
  maxActiveSequences : Nat
  maxContextTokens : Nat
  speculativeDrafts : Nat
deriving DecidableEq, Repr

def SchedulerConfig.validate (c : SchedulerConfig) : Except CudaError Unit :=
  rejectIf (c.decodeCapacity = 0 ∨ c.decisionBranchCapacity = 0 ∨ c.prefillSequenceCapacity = 0 ∨
      c.prefillTokenCapacity = 0 ∨ c.maxActiveSequences = 0 ∨ c.maxContextTokens = 0)
    (.shape "scheduler configuration" "all capacities greater than zero"
      (s!"decode={c.decodeCapacity} decision_branches={c.decisionBranchCapacity} " ++
        s!"prefill_sequences={c.prefillSequenceCapacity} " ++
        s!"prefill_tokens={c.prefillTokenCapacity} active={c.maxActiveSequences} " ++
        s!"context={c.maxContextTokens}"))

/-- What the scheduler asks of a `SamplingConfig`. -/
structure Sampling where
  valid : Bool
  usesFastArgmax : Bool
  supportsGpuSampling : Bool
  usesHistoryPenalties : Bool
deriving DecidableEq, Repr

structure RequestConfig where
  sampling : Sampling
  maxNewTokens : Nat
  eosTokenIds : List Nat
deriving DecidableEq, Repr

/-- `SampledToken`; the scheduler does not read the adjusted logit. -/
structure SampledToken (φ : Type) where
  id : Nat
  logit : φ
deriving DecidableEq, Repr

structure Request (K φ : Type) where
  id : Nat
  lifecycle : RequestState
  config : RequestConfig
  promptTokens : List Nat
  promptPosition : Nat
  prefixTarget : Nat
  prefixRetained : Bool
  sequenceId : Option Nat
  toolGrammar : Option (ToolGrammar K)
  lastToken : Option Nat
  generatedTokens : List ScheduledToken
  finishReason : Option RequestFinishReason
  mtpState : Bool
  dflash2State : Bool
  specFrontier : Option (SpeculativeFrontier φ)
  specReady : Bool
  specStarted : Bool

/-- `DecisionBranch`, without the question that only shapes its answer. -/
structure DecisionBranch where
  questionId : String
  suffixTokens : List Nat
  labelTokenIds : List Nat
  optionKeys : List String
deriving DecidableEq, Repr

structure DecisionRequest where
  promptFormat : String
  prefixTokens : List Nat
  labelTokenIds : List Nat
  branches : List DecisionBranch
deriving DecidableEq, Repr

structure DecisionBranchLogits (φ : Type) where
  questionId : String
  logits : List φ
deriving DecidableEq, Repr

/-- `Qwen36DecisionBranch`. -/
structure ActiveBranch where
  branch : DecisionBranch
  sequenceId : Nat
  suffixPosition : Nat
deriving DecidableEq, Repr

/-- `seqcache::PrefixMatch`: the entry that was found and how many tokens it covers. -/
structure PrefixMatch where
  entry : Nat
  tokens : Nat
deriving DecidableEq, Repr

structure DecisionGroup (φ : Type) where
  id : Nat
  request : DecisionRequest
  parentSequenceId : Option Nat
  parentPosition : Nat
  alignedPrefix : Option PrefixMatch
  alignedPrefixEntry : Option Nat
  nextBranch : Nat
  activeBranches : List ActiveBranch
  logits : List (DecisionBranchLogits φ)

def DecisionGroup.sequences {φ : Type} (g : DecisionGroup φ) : List Nat :=
  g.parentSequenceId.toList ++ g.activeBranches.map ActiveBranch.sequenceId

structure SequenceSnapshot (n : Nat) (β : Type) where
  modelId : Nat
  position : Nat
  linearStates : LinearStates n β

/-- `AdmissionOutcome`, with what the cache hands to the restore closure. -/
inductive AdmissionOutcome (n : Nat) (β : Type) where
  | admitted (cacheId : Nat) (snapshot : Option (SequenceSnapshot n β)) (position : Nat)
  | wouldBlock

inductive RetainOutcome where
  | inserted (entry : Nat)
  | duplicate (entry : Nat)
deriving DecidableEq, Repr

/-- The calls of `seqcache` outside an append. `withdraw` is an admission whose
restore closure fails. -/
structure PrefixCache (n : Nat) (β C : Type) where
  maxPrefixEntries : Option Nat
  lookupPrefix : C → List Nat → C × Option PrefixMatch
  admission : C → Option PrefixMatch → Nat → C × Except CudaError (AdmissionOutcome n β)
  withdraw : C → Nat → C
  branch : C → Nat → Nat → C × Except CudaError (Option Nat)
  finish : C → Nat → C × Except CudaError Unit
  containsPrefix : C → List Nat → Nat → Bool
  retainPrefix : C → Nat → List Nat → SequenceSnapshot n β → C × Except CudaError RetainOutcome
  evictPrefix : C → Nat → C × Except CudaError Unit

/-- `Qwen36TextModel` and what stands around it: `blank` are the buffers of a new
sequence, `readout` is the label head of decisions, `negativeInfinity` is what the mask
kernel writes, `zeroLogit` the logit of a new frontier, and `isFinite` and `exceeds`
compare logits on the host. -/
structure TextModel (n : Nat) (β κ φ C R K : Type) where
  modelId : Nat
  device : Device n β κ φ
  cache : SequenceCache C R κ
  prefixes : PrefixCache n β C
  constraint : Constraint K
  blank : LinearStates n β
  readout : LinearStates n β → List κ → List φ
  negativeInfinity : φ
  zeroLogit : φ
  isFinite : φ → Bool
  exceeds : φ → φ → Bool
  dflash2Enabled : Bool
  mtpWeights : Bool

/-- The calls of one tick, other than those inside a batch operation, that may fail.
Admission names the request, sampling the row, a decision branch its place. -/
inductive Site where
  | newSequenceState (request : Nat)
  | newPageTable (request : Nat)
  | deviceTokenCounts (request : Nat)
  | restoreSnapshot (request : Nat)
  | insertSequence (request : Nat)
  | speculativeState (request : Nat)
  | admissionSynchronize (request : Nat)
  | newSpeculativeWorkspace
  | newMtpWorkspace
  | decodeDflash2Workspace
  | propose
  | copyProposals
  | appendSpeculative
  | maskLogits
  | readTop1
  | sampleTopkTopp
  | copyLogits
  | sample (row : Nat)
  | copyCounts (row : Nat)
  | mtpAppend (row : Nat)
  | hiddenSynchronize
  | dflash2Append (row : Nat)
  | dflash2Synchronize
  | warmupWorkspace
  | warmupHidden
  | prefillDflash2Workspace
  | dflash2Prefill (row : Nat)
  | mtpWarmup (row : Nat)
  | prefillSynchronize
  | snapshot (request : Nat)
  | parentState
  | parentSynchronize
  | retainSynchronize
  | branchState (index : Nat)
  | branchFork (index : Nat)
  | branchSynchronize
  | selectedLogits
  | answers
deriving DecidableEq, Repr

/-- What one tick is told: the calls that fail, the samples of the rows that are not
argmax rows, the drafts proposed, and whether a restored request has a retained drafter
state. -/
structure TickInput (φ : Type) where
  fails : Site → Bool
  decodeCall : Option Call
  prefillCall : Option Call
  decisionCall : Option Call
  sampled : Nat → SampledToken φ
  proposal : Nat → Nat
  retainedDrafter : Nat → Bool

/-- The workspaces that are allocated when they are first needed. -/
structure Workspaces where
  speculative : Bool
  mtp : Bool
  mtpHidden : Bool
  dflash2 : Bool
deriving DecidableEq, Repr

/-- `Qwen36SchedulerTick`, without durations and byte counts. A completed decision is
its logits. -/
structure SchedulerTick (φ : Type) where
  admitted : List (Nat × Nat)
  scheduled : List Nat
  prefilled : List (Nat × Nat × Nat)
  generated : List ScheduledToken
  speculative : List (Nat × Nat)
  finished : List Nat
  decisionsFinished : List (Nat × List (DecisionBranchLogits φ))
  decisionsFailed : List (Nat × CudaError)

def SchedulerTick.empty {φ : Type} : SchedulerTick φ := ⟨[], [], [], [], [], [], [], []⟩

/-- `Qwen36Scheduler`, with the execution state it owns and the report that the
current tick is filling. -/
structure Scheduler (n : Nat) (β φ C K : Type) where
  config : SchedulerConfig
  requests : BTreeMap Nat (Request K φ)
  waiting : List Nat
  prefilling : List Nat
  decoding : List Nat
  decisions : BTreeMap Nat (DecisionGroup φ)
  decisionQueue : List Nat
  nextId : Nat
  sequences : BTreeMap Nat (Sequence n β)
  nextSequenceId : Nat
  cache : C
  workspaces : Workspaces
  decisionReadout : Option (List Nat)
  tick : SchedulerTick φ

/-- A scheduler call: `?` keeps what the scheduler has become, a panic ends it. -/
abbrev Scheduling (n : Nat) (β φ C K : Type) := EStateM (Fault CudaError) (Scheduler n β φ C K)

section
variable {σ α : Type}

/-- `return Err(error)`. -/
def raise (error : CudaError) : EStateM (Fault CudaError) σ α := throw (.failed error)

/-- A call that either returns or fails. -/
def attempt (result : Except CudaError α) : EStateM (Fault CudaError) σ α :=
  match result with
  | .ok a => pure a
  | .error e => raise e

def expect (value : Option α) (message : String) : EStateM (Fault CudaError) σ α :=
  match value with
  | some a => pure a
  | none => throw (.panicked message)

/-- A call of the device that may fail at a site. -/
def reach {φ : Type} (input : TickInput φ) (site : Site) (call : String) :
    EStateM (Fault CudaError) σ Unit :=
  if input.fails site then raise (.device call) else pure ()

/-- A call of the device that is made only when it is needed. -/
def reachWhen {φ : Type} (needed : Bool) (input : TickInput φ) (site : Site) (call : String) :
    EStateM (Fault CudaError) σ Unit :=
  if needed then reach input site call else pure ()

end

namespace Request
variable {K φ : Type} (r : Request K φ)

def maxTokens : Nat := r.promptTokens.length + r.config.maxNewTokens

/-- `remaining_prompt_tokens`. A restored prefix is one of the prompt, so the
difference is not negative. -/
def remainingPromptTokens : Nat := r.promptTokens.length - r.promptPosition

def prefillableTokens : Nat := r.remainingPromptTokens - 1

def decodeInputToken : Except CudaError Nat :=
  if r.remainingPromptTokens = 1 then .ok (r.promptTokens.getD r.promptPosition 0)
  else if r.specReady then
    match r.specFrontier with
    | some frontier => .ok frontier.token
    | none => .error (.format "Qwen3.8 speculative request"
        s!"request {r.id} is ready without a frontier")
  else
    match r.lastToken with
    | some token => .ok token
    | none => .error (.format "Qwen3.6 scheduled request"
        s!"request {r.id} has no decode input token")

end Request

def speculativeDraftCount (configured maxNewTokens generatedTokens : Nat) (specStarted : Bool) :
    Nat :=
  let remaining := maxNewTokens - generatedTokens
  min configured (if specStarted then remaining - 1 else remaining)

namespace Request
variable {K φ : Type}

def activeSpeculativeDrafts (r : Request K φ) (configured : Nat) : Nat :=
  speculativeDraftCount configured r.config.maxNewTokens r.generatedTokens.length r.specStarted

/-- The finish reason of a request that generates `token`. -/
def finishAt (r : Request K φ) (token : Nat) (toolGrammarComplete : Bool) :
    Option RequestFinishReason :=
  if toolGrammarComplete then some .toolCalls
  else if r.config.eosTokenIds.contains token then some .eos
  else if r.generatedTokens.length + 1 = r.config.maxNewTokens then some .length
  else none

def applySample (r : Request K φ) (sampled : SampledToken φ) (toolGrammarComplete : Bool) :
    Request K φ × ScheduledToken :=
  let finishReason := r.finishAt sampled.id toolGrammarComplete
  let token : ScheduledToken := ⟨r.id, sampled.id, finishReason⟩
  ({ r with
      promptPosition := if r.remainingPromptTokens = 1 then r.promptPosition + 1
        else r.promptPosition
      lastToken := some sampled.id
      lifecycle := if finishReason.isSome then .finished else .decoding
      finishReason := finishReason
      generatedTokens := r.generatedTokens ++ [token] }, token)

end Request

def prefillChunkTokens (available fairShare promptPosition checkpointTarget : Nat)
    (checkpointed : Bool) : Nat :=
  let chunk := min available fairShare
  if checkpointed = false ∧ promptPosition < checkpointTarget ∧
      checkpointTarget < promptPosition + chunk then
    checkpointTarget - promptPosition
  else chunk

def kvPageTokens : Nat := 128

def retainedPromptPrefixTokens (promptTokens pageTokens : Nat) : Nat :=
  if pageTokens = 0 then 0 else (promptTokens - 1) / pageTokens * pageTokens

/-- The loop of `decode_capacity_classes`; the value doubles, so `fuel` of the capacity
suffices. -/
def capacityClasses (capacity : Nat) : Nat → Nat → List Nat
  | 0, _ => [capacity]
  | fuel + 1, value =>
    if value < capacity then value :: capacityClasses capacity fuel (value * 2) else [capacity]

def decodeCapacityClasses (capacity : Nat) : List Nat := capacityClasses capacity capacity 1

section
variable {n : Nat} {β κ φ C R K : Type}

def newSequenceState (model : TextModel n β κ φ C R K) (maxTokens : Nat) :
    Except CudaError (SequenceState n β) :=
  if maxTokens = 0 then .error (.shape "Qwen3.6 sequence state" "max_tokens > 0" "0")
  else .ok {
    modelId := model.modelId
    linearStates := model.blank
    rollbackLinearStates := model.blank
    rollbackPosition := 0
    appendPending := false
    position := 0
    maxTokens := maxTokens
  }

def snapshotSequence (modelId : Nat) (source : SequenceState n β) :
    Except CudaError (SequenceSnapshot n β) :=
  if source.modelId ≠ modelId ∨ source.position = 0 ∨ source.position % 128 ≠ 0 then
    .error (.shape "Qwen3.6 sequence snapshot"
      "matching model and nonzero 128-token-aligned position"
      s!"model={source.modelId} expected_model={modelId} position={source.position}")
  else .ok ⟨source.modelId, source.position, source.linearStates⟩

def restoreSequenceSnapshot (modelId : Nat) (snapshot : SequenceSnapshot n β)
    (destination : SequenceState n β) : Except CudaError (SequenceState n β) :=
  if snapshot.modelId ≠ modelId ∨ destination.modelId ≠ modelId ∨ destination.position ≠ 0 ∨
      destination.maxTokens < snapshot.position then
    .error (.format "Qwen3.6 sequence snapshot restore"
      "snapshot and empty destination are incompatible")
  else .ok { destination with
    linearStates := snapshot.linearStates
    position := snapshot.position }

/-- `fork_sequence_state_on_stream`. -/
def forkSequenceState (modelId : Nat) (source destination : SequenceState n β) :
    Except CudaError (SequenceState n β) :=
  if source.modelId ≠ modelId ∨ destination.modelId ≠ modelId ∨ source.appendPending = true ∨
      destination.appendPending = true ∨ destination.position ≠ 0 ∨ source.position = 0 ∨
      destination.maxTokens < source.position then
    .error (.format "Qwen3.6 live sequence fork"
      (s!"incompatible source or destination: source_position={source.position} " ++
        s!"destination_position={destination.position} " ++
        s!"destination_capacity={destination.maxTokens}"))
  else .ok { destination with
    linearStates := source.linearStates
    position := source.position
    rollbackPosition := source.position }

/-- `Qwen36SequencePool::lease_many`: the entries of the ids, in their order. The lease
puts every entry back when it ends, so the pool itself is left as it is. -/
def leaseMany (pool : BTreeMap Nat (Sequence n β)) (ids : List Nat) :
    Except CudaError (List (Sequence n β)) :=
  if ids.Nodup then
    ids.mapM fun id => match pool.get id with
      | some sequence => .ok sequence
      | none => .error (.format "Qwen3.6 execution sequence lease"
          s!"unknown or released sequence {id}")
  else .error (.format "Qwen3.6 execution sequence lease" "duplicate sequence ID in one batch")

/-- The end of a lease: the entries go back under their ids. -/
def endLease (pool : BTreeMap Nat (Sequence n β)) (ids : List Nat)
    (entries : List (Sequence n β)) : BTreeMap Nat (Sequence n β) :=
  (ids.zip entries).foldl (fun pool entry => pool.insert entry.1 entry.2) pool

def insertSequence (sequence : Sequence n β) : Scheduling n β φ C K Nat := do
  let s ← get
  if s.nextSequenceId + 1 < 2 ^ 64 then
    set { s with
      sequences := s.sequences.insert s.nextSequenceId sequence
      nextSequenceId := s.nextSequenceId + 1 }
    return s.nextSequenceId
  else raise (.format "Qwen3.6 sequence ID" "sequence ID space exhausted")

def releaseSequence (id : Nat) : Scheduling n β φ C K (Sequence n β) := do
  let s ← get
  match s.sequences.get id with
  | none => raise (.format "Qwen3.6 execution sequence" s!"unknown or released sequence {id}")
  | some sequence =>
    set { s with sequences := s.sequences.erase id }
    return sequence

def finishSequence (model : TextModel n β κ φ C R K) (sequence : Sequence n β) :
    Scheduling n β φ C K Unit := do
  let s ← get
  let finished := model.prefixes.finish s.cache sequence.cacheId
  set { s with cache := finished.1 }
  attempt finished.2

/-- The request leaves the map: `requests.remove(&id).expect(..)`. -/
def takeRequest (id : Nat) (message : String) : Scheduling n β φ C K (Request K φ) := do
  let s ← get
  let request ← expect (s.requests.get id) message
  set { s with requests := s.requests.erase id }
  return request

/-- `requests.insert(request.id, request)`. -/
def putRequest (request : Request K φ) : Scheduling n β φ C K Unit :=
  modify fun s => { s with requests := s.requests.insert request.id request }

def report (f : SchedulerTick φ → SchedulerTick φ) : Scheduling n β φ C K Unit :=
  modify fun s => { s with tick := f s.tick }

end

end Eider.Source.Qwen36
