import Eider.Lib.Sweep
import Eider.Source.Batch

/-!
The model calls of DeepSeek V4 that append to sequences (`deepseek4/model.rs`, lines 3393
to 4388) and the append transaction of a sequence state (`deepseek4/state.rs`, lines 588
to 626).

A call works on rows: the tokens to append, the sequence, and the part of the workspace's
streams that belongs to the row. `fails` says which calls of the device and of the cache
fail; the calls that take an append back after a failure do not. `seqcache` keeps one entry
per sequence and every call names its sequence, so each row carries its own entry.
-/
namespace Eider.Source.Deepseek4
open Lib

/-- `Deepseek4SequenceState`; `L` is the compression state of one layer. -/
structure SequenceState (L : Type) where
  layers : List L
  rollbackLayers : List L
  rollbackPosition : Nat
  appendPending : Bool
  position : Nat
  maxTokens : Nat

namespace SequenceState
variable {L : Type} (s : SequenceState L)

/-- `begin_append`; `fails` names the layers whose copy fails. -/
def beginAppend (fails : Nat → Bool) : SequenceState L × Except CudaError Unit :=
  if s.appendPending ∨ s.rollbackLayers.length ≠ s.layers.length then
    (s, .error (.format "DeepSeek V4 state transaction"
      (if s.appendPending then "an append transaction is already pending"
        else "state was created without transaction storage")))
  else
    match (List.range s.layers.length).find? fails with
    | some layer =>
      ({ s with rollbackLayers := s.layers.take layer ++ s.rollbackLayers.drop layer },
        .error (.device "copy_from_on_stream"))
    | none =>
      ({ s with
          rollbackLayers := s.layers
          rollbackPosition := s.position
          appendPending := true }, .ok ())

/-- `commit_append`, on a state whose append is pending. -/
def commitAppend (rows : Nat) : SequenceState L :=
  { s with position := s.rollbackPosition + rows, appendPending := false }

/-- `abort_append`, with every copy made. -/
def abortAppend : SequenceState L × Except CudaError Unit :=
  if s.appendPending then
    ({ s with
        layers := s.rollbackLayers
        position := s.rollbackPosition
        appendPending := false }, .ok ())
  else
    (s, .error (.format "DeepSeek V4 state transaction" "no append transaction is pending"))

end SequenceState

/-- `Deepseek4Sequence`, with its entry in the sequence cache. -/
structure Sequence (L κ : Type) where
  state : SequenceState L
  entry : CacheEntry κ

/-- `Deepseek4MtpSequence`, with its entry in the MTP cache. What the MTP layer keeps of a
row is a function of the stream it was fed, so the entry holds these streams. -/
structure MtpSequence (H : Type) where
  entry : CacheEntry H
  position : Nat
  previousHidden : H
  deferredHidden : H
  deferredToken : Option Nat

structure ExecutionSequence (L κ H : Type) where
  sequence : Sequence L κ
  mtpSequence : Option (MtpSequence H)

/-- What the kernels compute. `advance` is one row of the decoder behind the compression
states and the K/V rows before it; its last component is the row's final stream. `draft`
is the MTP layer over all the streams fed to it, with its head and the argmax. -/
structure Device (L κ H Φ : Type) where
  layers : Nat
  vocab : Nat
  maxPositionEmbeddings : Nat
  newLayers : List L
  advance : List L → List κ → Nat → List L × κ × H
  interrupted : Nat → List L → List Nat → List L
  logits : H → Φ
  top1 : Φ → Nat
  zeroStream : H
  mtpInput : Nat → H → H
  draft : List H → Nat
  length_advance : ∀ states rows token, (advance states rows token).1.length = states.length
  top1_lt : ∀ logits, top1 logits < vocab
  draft_lt : ∀ streams, draft streams < vocab

/-- The decoder over the rows of one sequence: its states, the new K/V rows, the streams. -/
def Device.pass {L κ H Φ : Type} (d : Device L κ H Φ) :
    List L → List κ → List Nat → List L × List κ × List H
  | layers, _, [] => (layers, [], [])
  | layers, rows, token :: tokens =>
    let row := d.advance layers rows token
    let rest := d.pass row.1 (rows ++ [row.2.1]) tokens
    (rest.1, row.2.1 :: rest.2.1, row.2.2 :: rest.2.2)

/-- The calls of a target batch that may fail; `beginAppend` also names the layer that is
copied. -/
inductive TargetCall where
  | reserveAppend (row : Nat)
  | beginAppend (row layer : Nat)
  | embedding
  | layer (index : Nat)
  | finalStream (row : Nat)
  | hyperHead
  | finalNorm
  | lmHead
  | synchronize
  | commitAppend (row : Nat)
deriving DecidableEq, Repr

/-- The calls of an MTP batch that may fail; `inputs` stands for the copies and kernels
before the first reservation. -/
inductive MtpCall where
  | inputs
  | reserveAppend (row : Nat)
  | layer
  | head
  | synchronize
  | commitAppend (row : Nat)
  | previousHidden (row : Nat)
  | finish
  | readback
deriving DecidableEq, Repr

/-- The calls of a batch with MTP rows that may fail. -/
inductive ForwardCall where
  | target (call : TargetCall)
  | copyToHost
  | mtp (call : MtpCall)
deriving DecidableEq, Repr

/-- The calls of a speculative cycle that may fail. -/
inductive CycleCall where
  | draftStream (row : Nat)
  | mtp (call : MtpCall)
  | target (call : TargetCall)
  | verificationStreams
  | hyperHead
  | finalNorm
  | lmHead
  | synchronize
  | readback
  | commitAppend (row : Nat)
  | abortState (row : Nat)
  | rerun (row : Nat) (call : TargetCall)
  | rerunStream (row : Nat)
  | rerunSynchronize
  | previousHidden (row : Nat)
  | deferredHidden (row : Nat)
  | lastSynchronize
deriving DecidableEq, Repr

/-- The limits of a `Deepseek4BatchWorkspace`. -/
structure BatchWorkspace where
  sequenceCapacity : Nat
  tokenCapacity : Nat
  maxContextTokens : Nat
deriving DecidableEq, Repr

/-- The limits of a `Deepseek4MtpWorkspace`. -/
structure MtpWorkspace where
  sequenceCapacity : Nat
  tokenCapacity : Nat
deriving DecidableEq, Repr

/-- `Deepseek4BatchRow`, with its rows of `workspace.streams`. -/
structure BatchRow (L κ H : Type) where
  tokenIds : List Nat
  sequence : Sequence L κ
  streams : List H

/-- `Deepseek4MtpBatchRow`, with the rows of the target's `streams` at its tokens. -/
structure MtpBatchRow (H : Type) where
  tokenIds : List Nat
  sequence : MtpSequence H
  streams : List H

/-- One sequence of a speculative cycle: its target row, its MTP row, the input token, and
what the cycle has found out about the draft. -/
structure Lane (L κ H : Type) where
  input : Nat
  target : BatchRow L κ H
  mtp : MtpBatchRow H
  draft : Nat
  accepted : Bool
  nextToken : Nat

/-- `deepseek4_cache_error`. -/
def cacheError (call : String) : CudaError := .format "DeepSeek V4 sequence cache" call

variable {L κ H Φ α : Type}

/-- A call that may fail and changes nothing of the rows. -/
def reach {σ : Type} (fails : Bool) (call : String) : EStateM CudaError σ Unit :=
  if fails then throw (.device call) else pure ()

/-- A call for each of `count` rows. -/
def reachRows {σ : Type} (fails : Nat → Bool) (call : String) (count : Nat) :
    EStateM CudaError σ Unit :=
  reach ((List.range count).any fails) call

def check {σ : Type} (result : Except CudaError Unit) : EStateM CudaError σ Unit :=
  match result with
  | .ok () => pure ()
  | .error e => throw e

/-! ## Target rows -/

namespace BatchRow

variable (row : BatchRow L κ H)

def mapState (f : SequenceState L → SequenceState L) : BatchRow L κ H :=
  { row with sequence := { row.sequence with state := f row.sequence.state } }

def mapEntry (f : CacheEntry κ → CacheEntry κ) : BatchRow L κ H :=
  { row with sequence := { row.sequence with entry := f row.sequence.entry } }

/-- `cache.reserve_append`. -/
def reserve : BatchRow L κ H := row.mapEntry CacheEntry.reserve

/-- `cache.abort_append`. -/
def abortReservation : BatchRow L κ H := row.mapEntry CacheEntry.abort

/-- `state.begin_append`. -/
def begin (fails : Nat → Bool) : BatchRow L κ H × Except CudaError Unit :=
  let (state, result) := row.sequence.state.beginAppend fails
  (row.mapState fun _ => state, result)

/-- `state.abort_append`. -/
def abortState : BatchRow L κ H := row.mapState fun s => s.abortAppend.1

def abort : BatchRow L κ H := row.abortState.abortReservation

/-- Both resources keep `count` rows. -/
def commit (count : Nat) (row : BatchRow L κ H) : BatchRow L κ H :=
  (row.mapEntry fun e => e.commit count).mapState fun s => s.commitAppend count

/-- The error of the state's rollback. -/
def rollbackError : Option CudaError :=
  match row.sequence.state.abortAppend.2 with
  | .error e => some e
  | .ok () => none

variable (device : Device L κ H Φ)

/-- What the decoder writes for the row. -/
def pass (row : BatchRow L κ H) : BatchRow L κ H :=
  let passed := device.pass row.sequence.state.layers row.sequence.entry.rows row.tokenIds
  { ((row.mapState fun s => { s with layers := passed.1 }).mapEntry fun e => e.write passed.2.1)
    with streams := passed.2.2 }

/-- What a pass that failed at a layer leaves. -/
def interrupted (layer : Nat) (row : BatchRow L κ H) : BatchRow L κ H :=
  row.mapState fun s => { s with layers := device.interrupted layer s.layers row.tokenIds }

/-- The stream of the last row. -/
def finalStream (row : BatchRow L κ H) : H :=
  row.streams.getLastD device.zeroStream

end BatchRow

section
variable (device : Device L κ H Φ) (fails : TargetCall → Bool) (workspace : BatchWorkspace)

def reserveModelRows : EStateM CudaError (List (BatchRow L κ H)) Unit := do
  sweep (failAt (fun row => fails (.reserveAppend row)) (cacheError "reserve_append") id
    BatchRow.reserve) BatchRow.abortReservation id
  onError
    (sweep (fun index row => row.begin fun layer => fails (.beginAppend index layer))
      BatchRow.abortState id)
    fun rows => (rows.map BatchRow.abortReservation, none)

def abortModelRows (rows : List (BatchRow L κ H)) : List (BatchRow L κ H) × Option CudaError :=
  (rows.map BatchRow.abort, rows.findSome? BatchRow.rollbackError)

/-- The commit of one row; a failure takes the row back. -/
def commitModelRow (index : Nat) (row : BatchRow L κ H) : BatchRow L κ H × Except CudaError Unit :=
  failAt (fun row => fails (.commitAppend row))
    (row.rollbackError.getD (cacheError "commit_append"))
    BatchRow.abort (BatchRow.commit row.tokenIds.length) index row

def commitModelRows : EStateM CudaError (List (BatchRow L κ H)) Unit :=
  sweep (commitModelRow fails) id BatchRow.abort

/-- One row of `validate_model_rows`. -/
def validateModelRow (row : BatchRow L κ H) : Except CudaError Unit := do
  let state := row.sequence.state
  let last := state.position + row.tokenIds.length
  let unknown := row.tokenIds.find? fun token => device.vocab ≤ token
  rejectIf (row.tokenIds = []) (.shape "DeepSeek V4 model row" "at least one token" "0 tokens")
  rejectIf (unknown ≠ none)
    (.shape "DeepSeek V4 token id" s!"token < {device.vocab}" s!"{unknown.getD 0}")
  rejectIf (2 ^ 64 ≤ last) (.shape "DeepSeek V4 sequence capacity"
    "position plus row length without overflow"
    s!"position={state.position} rows={row.tokenIds.length}")
  rejectIf (state.maxTokens < last ∨ workspace.maxContextTokens < state.maxTokens)
    (.shape "DeepSeek V4 sequence capacity"
      s!"end <= state capacity <= {workspace.maxContextTokens}"
      s!"end={last} capacity={state.maxTokens}")

def validateModelRows (rows : List (BatchRow L κ H)) : Except CudaError Unit := do
  let total := (rows.map fun row => row.tokenIds.length).sum
  rejectIf (rows = [] ∨ workspace.sequenceCapacity < rows.length)
    (.shape "DeepSeek V4 model rows" s!"1..={workspace.sequenceCapacity} sequences"
      s!"{rows.length}")
  checkEach (validateModelRow device workspace) rows
  rejectIf (workspace.tokenCapacity < total)
    (.shape "DeepSeek V4 model batch" s!"at most {workspace.tokenCapacity} tokens" s!"{total}")

theorem validateModelRow_ok_iff {row : BatchRow L κ H} :
    validateModelRow device workspace row = .ok () ↔
      row.tokenIds ≠ [] ∧ (∀ token ∈ row.tokenIds, token < device.vocab) ∧
      row.sequence.state.position + row.tokenIds.length < 2 ^ 64 ∧
      row.sequence.state.position + row.tokenIds.length ≤ row.sequence.state.maxTokens ∧
      row.sequence.state.maxTokens ≤ workspace.maxContextTokens := by
  unfold validateModelRow
  simp only [check_bind_eq_ok_iff, rejectIf_eq_ok_iff, ne_eq, not_not, List.find?_eq_none,
    decide_eq_true_eq, not_le, not_or, not_lt]

theorem validateModelRows_ok_iff {rows : List (BatchRow L κ H)} :
    validateModelRows device workspace rows = .ok () ↔
      rows ≠ [] ∧ rows.length ≤ workspace.sequenceCapacity ∧
      (∀ row ∈ rows, validateModelRow device workspace row = .ok ()) ∧
      (rows.map fun row => row.tokenIds.length).sum ≤ workspace.tokenCapacity := by
  unfold validateModelRows
  simp only [check_bind_eq_ok_iff, rejectIf_eq_ok_iff, checkEach_eq_ok_iff, not_or, not_lt,
    and_assoc, ne_eq]

/-- The layers of `run_decoder_batch`. -/
def runLayers : EStateM CudaError (List (BatchRow L κ H)) Unit :=
  match (List.range device.layers).find? fun layer => fails (.layer layer) with
  | some layer => do
    modify fun rows => rows.map (BatchRow.interrupted device layer)
    throw (.device "run_layer_rows")
  | none => modify fun rows => rows.map (BatchRow.pass device)

def runDecoderBatch : EStateM CudaError (List (BatchRow L κ H)) Unit := do
  check (validateModelRows device workspace (← get))
  reach (fails .embedding) "copy_bf16_rows_to_f32_indexed_prefix_into_on_stream"
  runLayers device fails

def prefillBatch : EStateM CudaError (List (BatchRow L κ H)) Unit := do
  reserveModelRows fails
  onError (do
    runDecoderBatch device fails workspace
    reach (fails .synchronize) "synchronize") abortModelRows
  commitModelRows fails

/-- The head behind the decoder of `forward_batch`, with the final stream of each row. -/
def projectRows : EStateM CudaError (List (BatchRow L κ H)) Unit := do
  reachRows (fun row => fails (.finalStream row)) "copy_range_from_device_on_stream"
    (← get).length
  reach (fails .hyperHead) "hyper_head"
  reach (fails .finalNorm) "final_norm"
  reach (fails .lmHead) "lm_head"

/-- `forward_batch`, with the logits of the last token of each row. -/
def forwardBatch : EStateM CudaError (List (BatchRow L κ H)) (List Φ) := do
  reserveModelRows fails
  onError (runDecoderBatch device fails workspace) abortModelRows
  projectRows fails
  onError (reach (fails .synchronize) "synchronize") abortModelRows
  commitModelRows fails
  return (← get).map fun row => device.logits (row.finalStream device)

end

/-! ## MTP rows -/

namespace MtpBatchRow

variable (row : MtpBatchRow H)

def mapEntry (f : CacheEntry H → CacheEntry H) : MtpBatchRow H :=
  { row with sequence := { row.sequence with entry := f row.sequence.entry } }

def reserve : MtpBatchRow H := row.mapEntry CacheEntry.reserve

def abort : MtpBatchRow H := row.mapEntry CacheEntry.abort

variable (device : Device L κ H Φ) (row : MtpBatchRow H)

/-- `previous_streams` of the row: the stream of the token before each of its tokens. -/
def previousStreams : List H :=
  (if row.sequence.position = 0 then device.zeroStream else row.sequence.previousHidden) ::
    row.streams.take (row.tokenIds.length - 1)

/-- The streams fed to the MTP layer. The first token of a sequence is fed zeros. -/
def inputs : List H :=
  let combined := List.zipWith device.mtpInput row.tokenIds (row.previousStreams device)
  if row.sequence.position = 0 then device.zeroStream :: combined.tail else combined

/-- What the MTP layer writes for the row. -/
def write : MtpBatchRow H :=
  row.mapEntry fun e => e.write (row.inputs device)

/-- `commit_append` and the new position. -/
def commit : MtpBatchRow H :=
  let committed := row.mapEntry fun e => e.commit row.tokenIds.length
  { committed with sequence := { committed.sequence with
      position := committed.sequence.position + row.tokenIds.length } }

/-- The stream of the last token becomes `previous_hidden`. -/
def remember : MtpBatchRow H :=
  { row with sequence := { row.sequence with
      previousHidden := row.streams.getLastD device.zeroStream } }

end MtpBatchRow

section
variable (device : Device L κ H Φ) (fails : MtpCall → Bool) (workspace : MtpWorkspace)

/-- The checks of `append_mtp_from_target`. -/
def checkMtpRows (rows : List (MtpBatchRow H)) : Except CudaError Unit := do
  let total := (rows.map fun row => row.tokenIds.length).sum
  rejectIf (rows = [] ∨ workspace.sequenceCapacity < rows.length)
    (.shape "DeepSeek V4 MTP rows" s!"1..={workspace.sequenceCapacity} sequences" s!"{rows.length}")
  checkEach (fun row => rejectIf (row.tokenIds = [])
    (.shape "DeepSeek V4 MTP row" "at least one token" "0 tokens")) rows
  rejectIf (workspace.tokenCapacity < total)
    (.shape "DeepSeek V4 MTP rows" s!"at most {workspace.tokenCapacity} tokens" s!"{total}")

theorem checkMtpRows_ok_iff {rows : List (MtpBatchRow H)} :
    checkMtpRows workspace rows = .ok () ↔
      rows ≠ [] ∧ rows.length ≤ workspace.sequenceCapacity ∧
      (∀ row ∈ rows, row.tokenIds ≠ []) ∧
      (rows.map fun row => row.tokenIds.length).sum ≤ workspace.tokenCapacity := by
  unfold checkMtpRows
  simp only [check_bind_eq_ok_iff, rejectIf_eq_ok_iff, checkEach_eq_ok_iff, not_or, not_lt,
    and_assoc, ne_eq]

/-- The commit of one MTP row. A failure takes nothing back. -/
def commitMtpRow (index : Nat) (row : MtpBatchRow H) : MtpBatchRow H × Except CudaError Unit :=
  if fails (.commitAppend index) then (row, .error (cacheError "commit_append"))
  else if fails (.previousHidden index) then
    (row.commit, .error (.device "copy_range_from_device_on_stream"))
  else (row.commit.remember device, .ok ())

/-- The MTP layer and, for a draft, its head. -/
def runMtpLayer (projectLogits : Bool) : EStateM CudaError (List (MtpBatchRow H)) Unit := do
  reach (fails .layer) "run_layer_rows"
  modify fun rows => rows.map (MtpBatchRow.write device)
  reach (projectLogits && fails .head) "run_top1_rows"
  reach (fails .synchronize) "synchronize"

/-- `append_mtp_from_target`; the drafts are returned in any case and used only by the
caller that asks for them. -/
def appendMtpFromTarget (projectLogits : Bool) :
    EStateM CudaError (List (MtpBatchRow H)) (List Nat) := do
  check (checkMtpRows workspace (← get))
  reach (fails .inputs) "copy_range_from_device_on_stream"
  sweep (failAt (fun row => fails (.reserveAppend row)) (cacheError "reserve_append") id
    MtpBatchRow.reserve) MtpBatchRow.abort id
  onError (runMtpLayer device fails projectLogits)
    fun rows => (rows.map MtpBatchRow.abort, none)
  sweep (commitMtpRow device fails) id id
  reach (fails .finish) "synchronize"
  reach (projectLogits && fails .readback) "copy_prefix_to_host"
  return (← get).map fun row => device.draft row.sequence.entry.rows

end

/-! ## Batches with MTP rows -/

section
variable (device : Device L κ H Φ) (fails : ForwardCall → Bool) (workspace : BatchWorkspace)
variable (mtpWorkspace : MtpWorkspace)

abbrev RowPair (L κ H : Type) := BatchRow L κ H × MtpBatchRow H

def onTargets (m : EStateM CudaError (List (BatchRow L κ H)) α) :
    EStateM CudaError (List (RowPair L κ H)) α :=
  overRows Prod.fst (fun pair row => (row, pair.2)) m

def onMtps (m : EStateM CudaError (List (MtpBatchRow H)) α) :
    EStateM CudaError (List (RowPair L κ H)) α :=
  overRows Prod.snd (fun pair row => (pair.1, row)) m

/-- The MTP rows read the streams that the target rows left in the workspace. -/
def shareStreams : EStateM CudaError (List (RowPair L κ H)) Unit :=
  modify fun pairs => pairs.map fun pair => (pair.1, { pair.2 with streams := pair.1.streams })

/-- `target and MTP rows are not aligned`. -/
def checkAligned (label : String) (pairs : List (RowPair L κ H)) : Except CudaError Unit :=
  rejectIf (∃ pair ∈ pairs, pair.1.tokenIds ≠ pair.2.tokenIds)
    (.format label "target and MTP rows are not aligned")

def prefillBatchWithMtp : EStateM CudaError (List (RowPair L κ H)) Unit := do
  check (checkAligned "DeepSeek V4 MTP prefill" (← get))
  onTargets (prefillBatch device (fun call => fails (.target call)) workspace)
  shareStreams
  let _ ← onMtps (appendMtpFromTarget device (fun call => fails (.mtp call)) mtpWorkspace false)

def forwardBatchWithMtp : EStateM CudaError (List (RowPair L κ H)) (List Φ) := do
  check (checkAligned "DeepSeek V4 MTP forward" (← get))
  let logits ← onTargets (forwardBatch device (fun call => fails (.target call)) workspace)
  reach (fails .copyToHost) "copy_to_host"
  shareStreams
  let _ ← onMtps (appendMtpFromTarget device (fun call => fails (.mtp call)) mtpWorkspace false)
  return logits

end

/-! ## Speculative cycles -/

section
variable (device : Device L κ H Φ) (fails : CycleCall → Bool) (workspace : BatchWorkspace)
variable (mtpWorkspace : MtpWorkspace)

def onLaneTargets (m : EStateM CudaError (List (BatchRow L κ H)) α) :
    EStateM CudaError (List (Lane L κ H)) α :=
  overRows Lane.target (fun lane row => { lane with target := row }) m

def onLaneMtps (m : EStateM CudaError (List (MtpBatchRow H)) α) :
    EStateM CudaError (List (Lane L κ H)) α :=
  overRows Lane.mtp (fun lane row => { lane with mtp := row }) m

/-- The streams of one draft row; a deferred token is caught up together with the input. -/
def draftStreams (index : Nat) (row : MtpBatchRow H) : MtpBatchRow H × Except CudaError Unit :=
  if row.sequence.position = 0 then
    (row, .error (.format "DeepSeek V4 MTP draft" "draft rows require a prefetched MTP state"))
  else
    match row.tokenIds, row.sequence.deferredToken with
    | [_], none =>
      failAt (fun row => fails (.draftStream row)) (.device "copy_range_from_device_on_stream") id
        (fun row => { row with streams := [row.sequence.previousHidden] }) index row
    | [deferred, _], some expected =>
      if deferred = expected then
        failAt (fun row => fails (.draftStream row)) (.device "copy_range_from_device_on_stream") id
          (fun row => { row with
            streams := [row.sequence.deferredHidden, row.sequence.deferredHidden] }) index row
      else (row, .error (.format "DeepSeek V4 MTP draft"
        "deferred catch-up token is not aligned with the draft row"))
    | _, _ => (row, .error (.format "DeepSeek V4 MTP draft"
        "deferred catch-up token is not aligned with the draft row"))

def draftMtpArgmax : EStateM CudaError (List (MtpBatchRow H)) (List Nat) := do
  sweep (draftStreams fails) id id
  let drafts ← appendMtpFromTarget device (fun call => fails (.mtp call)) mtpWorkspace true
  modify fun rows => rows.map fun row =>
    { row with sequence := { row.sequence with deferredToken := none } }
  return drafts

/-- The first check of `speculative_cycle_argmax`. -/
def checkCycle (lanes : List (Lane L κ H)) : Except CudaError Unit :=
  let count := lanes.length
  rejectIf (count = 0 ∨ mtpWorkspace.sequenceCapacity < count ∨ workspace.tokenCapacity < count * 2)
    (.shape "DeepSeek V4 speculative cycle"
      (s!"1..={mtpWorkspace.sequenceCapacity} aligned sequences " ++
        s!"and {count * 2} target rows")
      (s!"target={count} mtp={count} inputs={count} " ++
        s!"target_capacity={workspace.tokenCapacity}"))

namespace Lane

variable (lane : Lane L κ H)

def drafting : Lane L κ H :=
  { lane with mtp := { lane.mtp with
      tokenIds := match lane.mtp.sequence.deferredToken with
        | some deferred => [deferred, lane.input]
        | none => [lane.input] } }

def verifying (draft : Nat) : Lane L κ H :=
  { lane with draft := draft, target := { lane.target with tokenIds := [lane.input, draft] } }

/-- The target's token behind row `index` of the verification. -/
def targetToken (device : Device L κ H Φ) (lane : Lane L κ H) (index : Nat) : Nat :=
  device.top1 (device.logits (lane.target.streams.getD index device.zeroStream))

/-- Whether the target confirms the draft, and the token behind it. -/
def verified (device : Device L κ H Φ) (lane : Lane L κ H) : Lane L κ H :=
  let currentToken := lane.targetToken device 0
  let matched := currentToken = lane.draft
  { lane with
    accepted := matched
    nextToken := if matched then lane.targetToken device 1 else currentToken }

/-- The commit of an accepted row or the rollback of a rejected one. -/
def settle (index : Nat) (lane : Lane L κ H) : Lane L κ H × Except CudaError Unit :=
  if lane.accepted then
    failAt (fun row => fails (.commitAppend row)) (cacheError "commit_append") id
      (fun lane => { lane with target := lane.target.commit 2 }) index lane
  else
    failAt (fun row => fails (.abortState row)) (.device "copy_from_on_stream") id
      (fun lane => { lane with target := lane.target.abort }) index lane

/-- The pass over the input token of a rejected row. -/
def rerun (index : Nat) (lane : Lane L κ H) : Lane L κ H × Except CudaError Unit :=
  if lane.accepted then (lane, .ok ())
  else
    let row := { lane.target with tokenIds := [lane.input] }
    match forwardBatch device (fun call => fails (.rerun index call)) workspace [row] with
    | .error e rows => ({ lane with target := rows.headD row }, .error e)
    | .ok _ rows =>
      let lane := { lane with target := rows.headD row }
      if fails (.rerunStream index) then
        (lane, .error (.device "copy_range_from_device_on_stream"))
      else (lane, .ok ())

/-- The hidden states that the MTP sequence keeps, and the token it defers. -/
def realign (index : Nat) (lane : Lane L κ H) : Lane L κ H × Except CudaError Unit :=
  if fails (.previousHidden index) then
    (lane, .error (.device "copy_range_from_device_on_stream"))
  else
    let sequence := { lane.mtp.sequence with
      previousHidden := lane.target.streams.getD 0 device.zeroStream }
    let lane := { lane with mtp := { lane.mtp with sequence := sequence } }
    if lane.accepted then
      if fails (.deferredHidden index) then
        (lane, .error (.device "copy_range_from_device_on_stream"))
      else
        ({ lane with mtp := { lane.mtp with sequence := { sequence with
            deferredHidden := lane.target.streams.getD 1 device.zeroStream
            deferredToken := some lane.draft } } }, .ok ())
    else
      ({ lane with mtp := { lane.mtp with sequence := { sequence with
          deferredToken := none } } }, .ok ())

def emittedTokens : List Nat :=
  if lane.accepted then [lane.draft, lane.nextToken] else [lane.nextToken]

end Lane

def draftLanes : EStateM CudaError (List (Lane L κ H)) Unit := do
  modify fun lanes => lanes.map Lane.drafting
  let drafts ← onLaneMtps (draftMtpArgmax device fails mtpWorkspace)
  modify fun lanes => List.zipWith Lane.verifying lanes drafts

/-- The target pass over `[input, draft]` of each row and its argmax. -/
def verifyLanes : EStateM CudaError (List (Lane L κ H)) Unit := do
  onLaneTargets do
    reserveModelRows fun call => fails (.target call)
    onError (runDecoderBatch device (fun call => fails (.target call)) workspace) abortModelRows
  reach (fails .verificationStreams) "copy_prefix_from_device_on_stream"
  reach (fails .hyperHead) "hyper_head"
  reach (fails .finalNorm) "final_norm"
  reach (fails .lmHead) "run_top1_rows"
  reach (fails .synchronize) "synchronize"
  reach (fails .readback) "copy_prefix_to_host"
  modify fun lanes => lanes.map (Lane.verified device)

/-- `speculative_cycle_argmax`. The result is read off the lanes. -/
def speculativeCycleArgmax : EStateM CudaError (List (Lane L κ H)) Unit := do
  check (checkCycle workspace mtpWorkspace (← get))
  draftLanes device fails mtpWorkspace
  verifyLanes device fails workspace
  sweep (Lane.settle fails) id id
  sweep (Lane.rerun device fails workspace) id id
  reach (fails .rerunSynchronize) "synchronize"
  sweep (Lane.realign device fails) id id
  reach (fails .lastSynchronize) "synchronize"

end

end Eider.Source.Deepseek4
