import Eider.Lib.Lease
import Eider.Lib.Lending
import Eider.Source.ActiveSequences
import Eider.Source.AppendBatch
import Eider.Source.Scheduler.Tick

/-!
Data of the Gemma 4 service (`infer/src/execution/gemma4_serving.rs`, lines 1 to 215) and its
sequence pool (`gemma4/execution.rs`, `gemma4/sequence.rs`).

A K/V row is known by the token it was computed from. The output codec with the response filter
behind it, the samplers and the page bytes of the cache stay outside: `TickInput` says what they
answer in a tick, and which call fails, if one does. Durations and the bytes that are only
reported are left out.
-/
namespace Eider.Source.Gemma4
open Lib Lib.ByteReader
open Source.Qwen36 (SchedulerConfig RequestConfig DecisionBranch DecisionRequest
  DecisionBranchLogits ActiveBranch raise attempt expect kvPageTokens)

/-- `Gemma4Model`. `treeRowsFit` is the check of the tree attention on its row count. -/
structure Model where
  modelId : Nat
  vocab : Nat
  layers : Nat
  maxPositionEmbeddings : Nat
  treeRowsFit : Nat → Bool

/-- The model as the batched appends see it. -/
def Model.device (model : Model) : AppendBatch.Device Nat where
  modelId := model.modelId
  vocab := model.vocab
  layers := model.layers
  write := tokenRows
  length_write := length_tokenRows

/-- A sequence of the pool (`Gemma4Sequence`). -/
structure ExecutionSequence where
  cacheId : Nat
  sequence : AppendBatch.Sequence Nat

/-- `ActiveRequest`, with the id it is kept under. -/
structure ActiveRequest where
  id : Nat
  prompt : List Nat
  promptPosition : Nat
  prefixTarget : Nat
  prefixRetained : Bool
  generation : RequestConfig
  generatedTokens : Nat
  lastToken : Option Nat
  promptLogitsReady : Bool
  sequenceId : Option Nat
  history : List Nat
  usage : ChatUsage

/-- `DecisionGroup`. Its `DecisionBranchState` is that of the Qwen3.6 scheduler. -/
structure DecisionGroup (φ : Type) where
  id : Nat
  request : DecisionRequest
  parentSequenceId : Option Nat
  parentPosition : Nat
  nextBranch : Nat
  activeBranches : List ActiveBranch
  logits : List (DecisionBranchLogits φ)

def DecisionGroup.sequences {φ : Type} (group : DecisionGroup φ) : List Nat :=
  group.activeBranches.map ActiveBranch.sequenceId ++ group.parentSequenceId.toList

/-- The calls of one tick that may fail: those for a request, those of the batch of prompts,
and those of the decision phase. -/
inductive Site where
  | newSequenceState (request : Nat)
  | newPageTable (request : Nat)
  | admission (request : Nat)
  | synchronizeAdmission (request : Nat)
  | forward (request : Nat) (call : AppendBatch.Call)
  | readback (request : Nat)
  | sample (request : Nat)
  | pushToken (request : Nat)
  | prefill (call : AppendBatch.Call)
  | synchronizePrefill
  | finishOutput (request : Nat)
  | finishSequence (request : Nat)
  | decisionTree
  | parentState
  | parentPageTable
  | parentAdmission
  | decisionPrefill (call : AppendBatch.Call)
  | synchronizeDecision
  | branchState (index : Nat)
  | branchPageTable (index : Nat)
  | branch (index : Nat)
  | synchronizeBranches
  | stageSequence (row : Nat)
  | selectedLogits
  | answers
  | finishDecision (sequence : Nat)
deriving DecidableEq, Repr

/-- What one tick is told: the call that fails, what the prefix cache finds and charges, the
tokens that are sampled, what the output of a request answers, and the label logits. -/
structure TickInput (vocab : Nat) (φ : Type) where
  failing : Option Site
  restoredPages : Nat → Nat
  wouldBlock : Nat → Bool
  chargedBytes : Nat
  sampled : Nat → Fin vocab
  isReasoning : Nat → Bool
  pushed : Nat → Option ChatFinishReason
  finished : Nat → Option ChatFinishReason
  parentBlocks : Bool
  branchBlocks : Nat → Bool
  treeLogits : List (List φ)
  labelLogits : List (List φ)

namespace TickInput
variable {vocab : Nat} {φ : Type} (input : TickInput vocab φ)

def fails (site : Site) : Bool := input.failing = some site

def forwardCall (id : Nat) : Option AppendBatch.Call :=
  match input.failing with
  | some (.forward request call) => if request = id then some call else none
  | _ => none

def prefillCall : Option AppendBatch.Call :=
  match input.failing with
  | some (.prefill call) => some call
  | _ => none

def decisionCall : Option AppendBatch.Call :=
  match input.failing with
  | some (.decisionPrefill call) => some call
  | _ => none

/-- The sequences of decisions that cannot be finished. -/
def finishFails (sid : Nat) : Bool := input.fails (.finishDecision sid)

end TickInput

/-- `EngineTick`, without texts. A completed decision is its logits. -/
structure Tick (φ : Type) where
  generated : List Nat
  prefilled : List (Nat × Nat)
  finished : List (Nat × ChatFinishReason × ChatUsage)
  decisionsFinished : List (Nat × List (DecisionBranchLogits φ))
  decisionsFailed : List (Nat × CudaError)

def Tick.empty {φ : Type} : Tick φ := ⟨[], [], [], [], []⟩

/-- `Gemma4ChatService`, with the report that the current tick is filling. -/
structure ChatService (φ : Type) where
  config : SchedulerConfig
  nextId : Nat
  waiting : List Nat
  requests : BTreeMap Nat ActiveRequest
  labelTokenIds : List Nat
  decisionQueue : List Nat
  decisions : BTreeMap Nat (DecisionGroup φ)
  sequences : BTreeMap Nat ExecutionSequence
  nextSequenceId : Nat
  maxPrefixEntries : Option Nat
  sequenceCache : ActiveSequences
  tick : Tick φ

/-- A call of the service: `?` keeps what the service has become, a panic ends it. -/
abbrev Serving (φ : Type) := EStateM (Fault CudaError) (ChatService φ)

variable {φ α : Type}

/-- A call of the device or of the cache that may fail. -/
def reach {vocab : Nat} {σ : Type} (input : TickInput vocab φ) (site : Site) (error : CudaError) :
    EStateM (Fault CudaError) σ Unit :=
  Faults.reach (input.fails site) (.failed error)

def cacheError (call : String) : CudaError := AppendBatch.cacheError .gemma4 call

/-! ## The pool -/

variable (sequence : ExecutionSequence)

def insertSequence : Serving φ Nat := do
  let s ← get
  if s.nextSequenceId + 1 < 2 ^ 64 then
    set { s with
      sequences := s.sequences.insert s.nextSequenceId sequence
      nextSequenceId := s.nextSequenceId + 1 }
    return s.nextSequenceId
  else raise (.format "Gemma 4 sequence ID" "sequence ID space exhausted")

def releaseSequence (sid : Nat) : Serving φ ExecutionSequence := do
  let s ← get
  match s.sequences.get sid with
  | some sequence =>
    set { s with sequences := s.sequences.erase sid }
    return sequence
  | none => raise (.format "Gemma 4 execution sequence" s!"unknown or released sequence {sid}")

def leaseMany (pool : BTreeMap Nat ExecutionSequence) (ids : List Nat) :
    Except CudaError (List ExecutionSequence) := do
  rejectIf (¬ ids.Nodup) (.format "Gemma 4 execution sequence lease"
    "duplicate sequence ID in one batch")
  ids.mapM fun id => match pool.get id with
    | some sequence => .ok sequence
    | none => .error (.format "Gemma 4 execution sequence lease"
        s!"unknown or released sequence {id}")

def toRow (tokens : List Nat) : AppendBatch.Row Nat :=
  ⟨tokens, sequence.sequence⟩

def ofRow (row : AppendBatch.Row Nat) : ExecutionSequence :=
  { sequence with sequence := row.sequence }

/-- A call of the model on leased sequences, with the tokens for each. The lease ends whether
the call returns or fails. -/
def callModel (ids : List Nat) (tokens : List (List Nat)) (call : AppendBatch.Appending Nat Unit) :
    Serving φ Unit := do
  let s ← get
  let leased ← attempt (leaseMany s.sequences ids)
  match call (List.zipWith toRow leased tokens) with
  | .ok _ rows =>
    set { s with sequences := Lease.putBack s.sequences ids (List.zipWith ofRow leased rows) }
  | .error e rows =>
    set { s with sequences := Lease.putBack s.sequences ids (List.zipWith ofRow leased rows) }
    raise e

def finishSequence (fails : Bool) (sequence : ExecutionSequence) : Serving φ Unit := do
  modify fun s => { s with sequenceCache := s.sequenceCache.finish sequence.cacheId }
  Faults.reach fails (.failed (cacheError "finish"))

/-! ## The workspaces -/

def tailPrefillTokenCapacity : Nat := 512

def prefillWorkspace (config : SchedulerConfig) : AppendBatch.Workspace where
  sequenceCapacity := config.prefillSequenceCapacity
  tokenCapacity := config.prefillTokenCapacity
  maxContextTokens := config.maxContextTokens

/-- The workspace of a batch of prompts: the tail workspace, where there is one and the tokens
fit into it. -/
def promptWorkspace (config : SchedulerConfig) (tokens : Nat) : AppendBatch.Workspace :=
  if tailPrefillTokenCapacity < config.prefillTokenCapacity ∧ tokens ≤ tailPrefillTokenCapacity then
    { prefillWorkspace config with tokenCapacity := tailPrefillTokenCapacity }
  else prefillWorkspace config

/-- `new_sequence_state` and `new_decision_sequence_state`. -/
def newSequenceState (model : Model) (maxTokens : Nat) : Except CudaError
    (AppendBatch.Sequence Nat) := do
  rejectIf (maxTokens = 0 ∨ model.maxPositionEmbeddings < maxTokens)
    (.shape "Gemma 4 decode capacity" s!"1..={model.maxPositionEmbeddings}" s!"{maxTokens}")
  return {
    modelId := model.modelId
    position := 0
    maxTokens := maxTokens
    entry := { rows := [], pending := none }
  }

/-- A sequence that shares the rows of another up to a position. -/
def restoreRows (state : AppendBatch.Sequence Nat) (rows : List Nat) : AppendBatch.Sequence Nat :=
  { state with position := rows.length, entry := { rows := rows, pending := none } }

def report (f : Tick φ → Tick φ) : Serving φ Unit := modify fun s => { s with tick := f s.tick }

end Eider.Source.Gemma4
