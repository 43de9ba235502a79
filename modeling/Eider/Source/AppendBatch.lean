import Eider.Lib.Faults
import Eider.Lib.Sweep
import Eider.Source.Batch

/-!
The batched appends of Gemma 4, Step 3.7 and Laguna (`gemma4/batch.rs`, lines 871 to 1017;
`step37/batch.rs`, 259 to 462; `laguna/batch.rs`, 321 to 527) and `forward_token` of Gemma 4
(`gemma4.rs`, 1998 to 2150). The three `prefill_batch` are one program whose checks differ.

`seqcache` keeps one entry per sequence and every call names its sequence, so each row carries
its own entry. `fails` says which calls of the device and of the cache fail. A commit that
fails leaves its reservation open, and so does an abort that fails. What the layers write
beside the K/V rows is scratch that no later call reads.
-/
namespace Eider.Source.AppendBatch
open Lib Lib.Faults

inductive Family where
  | gemma4
  | step37
  | laguna
deriving DecidableEq, Repr

/-- How a model begins the labels of its errors. -/
def Family.label : Family → String
  | .gemma4 => "Gemma 4"
  | .step37 => "Step-3.7"
  | .laguna => "Laguna"

/-- A sequence (`Gemma4Sequence`, `Step37Sequence`, `LagunaSequence`), with its entry in the
sequence cache. -/
structure Sequence (κ : Type) where
  modelId : Nat
  position : Nat
  maxTokens : Nat
  entry : CacheEntry κ

/-- A prefill row: a sequence and the tokens to append to it. -/
structure Row (κ : Type) where
  tokenIds : List Nat
  sequence : Sequence κ

structure Workspace where
  sequenceCapacity : Nat
  tokenCapacity : Nat
  maxContextTokens : Nat
deriving DecidableEq, Repr

/-- The model: its id, its vocabulary, its layers, and the K/V rows that they write. -/
structure Device (κ : Type) where
  modelId : Nat
  vocab : Nat
  layers : Nat
  write : List κ → List Nat → List κ
  length_write : ∀ rows tokens, (write rows tokens).length = tokens.length

/-- The calls that may fail. `inputs` stands for the copies and kernels before the layers. -/
inductive Call where
  | reserveAppend (row : Nat)
  | inputs
  | layer (index : Nat)
  | head (row : Nat)
  | abortAppend (row : Nat)
  | commitAppend (row : Nat)
deriving DecidableEq, Repr

/-- `gemma4_cache_error`, `step37_cache_error`, `laguna_cache_error`. -/
def cacheError (family : Family) (call : String) : CudaError :=
  .format (family.label ++ " sequence cache") call

variable {κ : Type}

namespace Row

variable (row : Row κ)

def mapEntry (f : CacheEntry κ → CacheEntry κ) : Row κ :=
  { row with sequence := { row.sequence with entry := f row.sequence.entry } }

/-- `cache.reserve_append`. -/
def reserve : Row κ := row.mapEntry CacheEntry.reserve

/-- `cache.abort_append`. -/
def abort : Row κ := row.mapEntry CacheEntry.abort

/-- What the layers write for the row. -/
def pass (device : Device κ) (row : Row κ) : Row κ :=
  row.mapEntry fun entry => entry.write (device.write entry.rows row.tokenIds)

/-- `cache.commit_append` and the new position. -/
def commit : Row κ :=
  let committed := row.mapEntry fun entry => entry.commit row.tokenIds.length
  { committed with sequence := { committed.sequence with
      position := row.sequence.position + row.tokenIds.length } }

end Row

/-! ## The checks of a batch -/

section
variable (family : Family) (device : Device κ) (workspace : Workspace)

def totalTokens (rows : List (Row κ)) : Except CudaError Nat :=
  rows.foldlM (fun total row =>
    if total + row.tokenIds.length < 2 ^ 64 then .ok (total + row.tokenIds.length)
    else .error (.shape (family.label ++ " prefill token count")
      "total token count without overflow" s!"total={total} row={row.tokenIds.length}")) 0

def checkTokens (tokenIds : List Nat) : Except CudaError Unit :=
  let unknown := tokenIds.find? fun token => device.vocab ≤ token
  rejectIf (unknown ≠ none)
    (.shape (family.label ++ " prefill token") s!"token < {device.vocab}" s!"{unknown.getD 0}")

def checkOverflow (row : Row κ) : Except CudaError Unit :=
  rejectIf (2 ^ 64 ≤ row.sequence.position + row.tokenIds.length)
    (.shape (family.label ++ " prefill context") "position + tokens without overflow"
      s!"position={row.sequence.position} tokens={row.tokenIds.length}")

def checkContext (row : Row κ) : Except CudaError Unit :=
  let sequence := row.sequence
  let stop := sequence.position + row.tokenIds.length
  let context := family.label ++ " prefill context"
  match family with
  | .gemma4 => do
    -- The sum saturates.
    let stop := min stop (2 ^ 64 - 1)
    rejectIf (sequence.maxTokens < stop ∨ workspace.maxContextTokens < sequence.maxTokens)
      (.shape context s!"end <= sequence max_tokens <= {workspace.maxContextTokens}"
        s!"end={stop} max_tokens={sequence.maxTokens}")
  | .step37 => do
    checkOverflow .step37 row
    rejectIf (workspace.maxContextTokens < stop)
      (.shape context s!"end <= {workspace.maxContextTokens}" s!"end={stop}")
    rejectIf (sequence.maxTokens < stop)
      (.shape (family.label ++ " prefill state") s!"end <= {sequence.maxTokens}" s!"end={stop}")
  | .laguna => do
    checkOverflow .laguna row
    rejectIf (sequence.maxTokens < stop ∨ workspace.maxContextTokens < stop)
      (.shape context s!"end <= min({sequence.maxTokens}, {workspace.maxContextTokens})"
        s!"end={stop}")

/-- The checks of one row. Only Laguna looks at the model of the state. -/
def checkRow (row : Row κ) : Except CudaError Unit := do
  rejectIf (row.tokenIds = [])
    (.format (family.label ++ " prefill row") "prompt chunks must not be empty")
  rejectIf (family = .laguna ∧ row.sequence.modelId ≠ device.modelId)
    (.format (family.label ++ " prefill state") "state belongs to a different model instance")
  checkTokens family device row.tokenIds
  checkContext family workspace row

def checkRows (rows : List (Row κ)) : Except CudaError Unit := do
  rejectIf (rows = [] ∨ workspace.sequenceCapacity < rows.length)
    (.shape (family.label ++ " prefill rows") s!"1..={workspace.sequenceCapacity} sequences"
      s!"{rows.length}")
  let total ← totalTokens family rows
  rejectIf (total = 0 ∨ workspace.tokenCapacity < total)
    (.shape (family.label ++ " prefill token count") s!"1..={workspace.tokenCapacity} tokens"
      s!"{total}")
  checkEach (checkRow family device workspace) rows

end

/-! ## The calls -/

/-- A call that works on rows and keeps them when it fails. -/
abbrev Appending (κ : Type) := EStateM CudaError (List (Row κ))

section
variable (family : Family) (device : Device κ) (fails : Call → Bool)

/-- The loop of `abort_append` over the rows. It ends with the first call that fails. -/
def abortRows (rows : List (Row κ)) : List (Row κ) × Except CudaError Unit :=
  sweepFrom (failAt (fun row => fails (.abortAppend row)) (cacheError family "abort_append") id
    Row.abort) id id 0 rows

/-- The loop of `reserve_append`; `reserved` holds the rows before this one. -/
def reserveRows : Nat → List (Row κ) → List (Row κ) → List (Row κ) × Except CudaError Unit
  | _, reserved, [] => (reserved, .ok ())
  | index, reserved, row :: rows =>
    if fails (.reserveAppend index) then
      let aborted := abortRows family fails reserved
      (aborted.1 ++ row :: rows,
        aborted.2 >>= fun _ => .error (cacheError family "reserve_append"))
    else reserveRows (index + 1) (reserved ++ [row.reserve]) rows

/-- A loop over the rows as a call. -/
def onRows (loop : List (Row κ) → List (Row κ) × Except CudaError Unit) : Appending κ Unit :=
  fun rows => match loop rows with
    | (rows, .ok ()) => .ok () rows
    | (rows, .error e) => .error e rows

/-- The loop of `commit_append`. It ends with the first call that fails. -/
def commitRows : Appending κ Unit :=
  sweep (failAt (fun row => fails (.commitAppend row)) (cacheError family "commit_append") id
    Row.commit) id id

/-- `prefill_batch_impl`. Only Gemma 4 has heads. -/
def prefillBatchImpl (workspace : Workspace) : Appending κ Unit := do
  check (checkRows family device workspace (← get))
  reach (fails .inputs) (.device "inputs")
  reach ((List.range device.layers).any fun index => fails (.layer index))
    (.device "run_layer_prefill")
  modify fun rows => rows.map (Row.pass device)
  reach (family = .gemma4 && (List.range (← get).length).any fun row => fails (.head row))
    (.device "head")

/-- A call on reserved rows: if it fails the reservations are aborted. -/
def orAbort (call : Appending κ Unit) : Appending κ Unit :=
  orUndo call (onRows (abortRows family fails))

def prefillBatch (workspace : Workspace) : Appending κ Unit := do
  onRows (reserveRows family fails 0 [])
  orAbort family fails (prefillBatchImpl family device fails workspace)
  commitRows family fails

/-- The checks of `forward_token_uncommitted`. -/
def checkDecode (row : Row κ) : Except CudaError Unit := do
  let unknown := row.tokenIds.find? fun token => device.vocab ≤ token
  rejectIf (unknown ≠ none)
    (.shape "Gemma 4 input token" s!"token < {device.vocab}" s!"{unknown.getD 0}")
  rejectIf (row.sequence.maxTokens ≤ row.sequence.position)
    (.shape "Gemma 4 decode position" s!"position < {row.sequence.maxTokens}"
      s!"{row.sequence.position}")

/-- `forward_token_uncommitted`; `head` says whether an output is asked for. -/
def forwardTokenUncommitted (head : Bool) : Appending κ Unit := do
  check (checkEach (checkDecode device) (← get))
  reach (fails .inputs) (.device "inputs")
  reach ((List.range device.layers).any fun index => fails (.layer index))
    (.device "run_decode_into")
  modify fun rows => rows.map (Row.pass device)
  reach (head && fails (.head 0)) (.device "head")

/-- `forward_token`, on the one row of the sequence and its token. -/
def forwardToken (head : Bool) : Appending κ Unit := do
  onRows (reserveRows .gemma4 fails 0 [])
  orAbort .gemma4 fails (forwardTokenUncommitted device fails head)
  commitRows .gemma4 fails

end

end Eider.Source.AppendBatch
