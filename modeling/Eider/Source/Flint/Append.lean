import Eider.Lib.Faults
import Eider.Lib.Sweep
import Eider.Source.Batch

/-!
`forward` and `forward_decode_batch` of Flint (`flint/model.rs`, lines 406 to 683), with the local
rings (`eider-cuda/src/kernels/sink_attention.rs`, 100 to 110 and 179 to 305).

`fails` says which calls fail. `abort_append` of the cache does not, and a commit that fails
leaves its reservation open. A sequence carries its entry in the sequence cache; the buffers of
the rings are scratch until the position of the ring says otherwise.
-/
namespace Eider.Source.Flint.Append
open Lib Lib.Faults

/-- `FlintSequence`, with its entry in the sequence cache. `caches` holds the position of each
local ring, and nothing for a layer that attends to all positions. `graph` holds the workspace
and the bound of the captured graph. -/
structure Sequence (κ : Type) where
  modelId : Nat
  caches : List (Option Nat)
  graph : Option (Nat × Nat)
  cacheId : Option Nat
  cacheIdentity : Option Nat
  position : Nat
  capacity : Nat
  valid : Bool
  logitsReady : Bool
  entry : CacheEntry κ

/-- `FlintWorkspace`; `decodeGraph` holds the rows and the bound of the captured batch. -/
structure Workspace where
  identity : Nat
  modelId : Nat
  capacity : Nat
  maxContext : Nat
  decodeGraph : Option (Nat × Nat)

/-- The model, the cache it is called with, and the K/V rows that its layers write. -/
structure Device (κ : Type) where
  modelId : Nat
  vocab : Nat
  layers : Nat
  cacheIdentity : Nat
  write : List κ → List Nat → List κ
  length_write : ∀ rows tokens, (write rows tokens).length = tokens.length

/-- The calls that may fail. `inputs` stands for the copies before the layers, `head` for the
kernels behind them; `attention` fails behind the update of its ring. -/
inductive Call where
  | reserveAppend (row : Nat)
  | begin
  | setRow (row : Nat)
  | inputs
  | layer (index : Nat)
  | attention (index : Nat)
  | head
  | capture
  | launch
  | logits (row : Nat)
  | synchronize
  | commitAppend (row : Nat)
deriving DecidableEq, Repr

def invalid (detail : String) : CudaError := .format "Flint" detail

def cacheError (call : String) : CudaError := invalid ("sequence cache: " ++ call)

def u32Max : Nat := 2 ^ 32 - 1

variable {κ : Type}

namespace Sequence

variable (s : Sequence κ)

def mapEntry (f : CacheEntry κ → CacheEntry κ) : Sequence κ :=
  { s with entry := f s.entry }

/-- A reserved sequence is invalid until its append is committed. -/
def open' : Sequence κ := { s with valid := false, logitsReady := false }

/-- What the layers write for the tokens. -/
def pass (device : Device κ) (s : Sequence κ) (tokens : List Nat) : Sequence κ :=
  s.mapEntry fun entry => entry.write (device.write entry.rows tokens)

/-- The ring of a layer behind its attention. -/
def advanceRing (index next : Nat) : Sequence κ :=
  { s with caches := s.caches.modify index fun ring => ring.map fun _ => next }

/-- `commit_append` and the new position. -/
def commit (rows : Nat) : Sequence κ :=
  { s.mapEntry fun entry => entry.commit rows with position := s.position + rows }

/-- `record_replay_position` of each local ring. -/
def recordPositions : Sequence κ × Except CudaError Unit :=
  if s.caches.any Option.isSome ∧ u32Max < s.position then
    (s, .error (invalid "position overflow"))
  else ({ s with caches := s.caches.map fun ring => ring.map fun _ => s.position }, .ok ())

/-- A committed sequence is valid again. -/
def finish : Sequence κ := { s with valid := true, logitsReady := true }

def validateCache (device : Device κ) (s : Sequence κ) : Except CudaError Unit :=
  rejectIf (s.cacheIdentity ≠ some device.cacheIdentity)
    (invalid "sequence belongs to another cache")

end Sequence

/-- The number of positions that a captured graph covers. -/
def graphBound (w : Workspace) (positions : Nat) : Nat :=
  min ((positions + 255) / 256 * 256) w.maxContext

/-! ## One sequence -/

/-- A call that works on a sequence and keeps it when it fails. -/
abbrev Appending (κ : Type) := EStateM CudaError (Sequence κ)

section
variable (device : Device κ) (w : Workspace) (fails : Call → Bool)

/-- The checks of `forward_impl`. -/
def checkForward (s : Sequence κ) (tokens : List Nat) : Except CudaError Unit := do
  rejectIf (w.modelId ≠ device.modelId ∨ s.modelId ≠ device.modelId ∨ s.valid = false ∨
      tokens.length = 0 ∨ w.capacity < tokens.length ∨ w.maxContext < s.capacity ∨
      s.capacity - s.position < tokens.length ∨ (tokens.any fun token => device.vocab ≤ token))
    (invalid "invalid forward state, token or capacity")
  s.validateCache device
  rejectIf (s.cacheId = none) (invalid "unadmitted sequence")

variable (rows : Nat)

/-- `forward_layers` of one sequence. A local ring moves before its kernel is checked. -/
def forwardLayers : Appending κ Unit :=
  (List.range device.layers).forM fun index => do
    reach (fails (.layer index)) (.device "forward_layers")
    modify fun s => s.advanceRing index (s.position + rows)
    reach (fails (.attention index)) (.device "infer_paged_sink_attention")

def forwardReserved : Appending κ Unit := do
  forwardLayers device fails rows
  reach (fails .head) (.device "nvfp4_w4a16_matvec_f32_batch_into_on_stream")

/-- The capture of the decode graph, when the one at hand is of another workspace or bound. -/
def captureGraph (bound : Nat) : Appending κ Unit := do
  if (← get).graph = some (w.identity, bound) then pure ()
  else do
    modify fun s => { s with graph := none }
    forwardReserved device fails 1
    reach (fails .capture) (.device "capture")
    modify fun s => { s with graph := some (w.identity, bound) }

/-- The kernels over the tokens. A captured graph is replayed as it is, so that a replay moves
no ring. -/
def runKernels (graphs : Bool) : Appending κ Unit :=
  if graphs ∧ rows = 1 then do
    captureGraph device w fails (graphBound w ((← get).position + 1))
    reach (fails .launch) (.device "launch")
  else forwardReserved device fails rows

variable (tokens : List Nat)

/-- The execution behind the reservation. -/
def execute (graphs : Bool) : Appending κ Unit := do
  reach (fails .begin) (.device "synchronize")
  reach (fails .inputs) (.device "copy_range_from_host")
  runKernels device w fails tokens.length graphs
  modify fun s => s.pass device tokens
  reach (fails .synchronize) (.device "synchronize")

/-- The commit of one sequence, with the record of its position. -/
def commitForward : Appending κ Unit := do
  orUndo (reach (fails (.commitAppend 0)) (cacheError "commit_append"))
    (modify fun s => s.mapEntry CacheEntry.abort)
  modify fun s => s.commit rows
  let recorded := (← get).recordPositions
  set recorded.1
  check recorded.2
  modify Sequence.finish

def forwardImpl (graphs : Bool) : Appending κ Unit := do
  check (checkForward device w (← get) tokens)
  reach (fails (.reserveAppend 0)) (cacheError "reserve_append")
  modify fun s => (s.mapEntry CacheEntry.reserve).open'
  orUndo (execute device w fails tokens graphs) (modify fun s => s.mapEntry CacheEntry.abort)
  commitForward fails tokens.length

def forward : Appending κ Unit := forwardImpl device w fails tokens true

end

/-! ## One token for each of several sequences -/

/-- A sequence and its token. -/
structure Request (κ : Type) where
  sequence : Sequence κ
  token : Nat

namespace Request

def map (r : Request κ) (f : Sequence κ → Sequence κ) : Request κ :=
  { r with sequence := f r.sequence }

def reserve (r : Request κ) : Request κ := r.map fun s => s.mapEntry CacheEntry.reserve

def abort (r : Request κ) : Request κ := r.map fun s => s.mapEntry CacheEntry.abort

end Request

section
variable (device : Device κ) (w : Workspace) (fails : Call → Bool)

/-- The checks of one request of a batch. -/
def checkRequest (r : Request κ) : Except CudaError Unit := do
  let s := r.sequence
  rejectIf (s.modelId ≠ device.modelId ∨ s.valid = false ∨ s.capacity ≤ s.position ∨
      w.maxContext < s.capacity ∨ device.vocab ≤ r.token ∨ s.cacheId = none)
    (invalid "invalid decode state, token or capacity")
  s.validateCache device

/-- The checks of `forward_decode_batch`. -/
def checkBatch (requests : List (Request κ)) : Except CudaError Unit := do
  rejectIf (w.modelId ≠ device.modelId ∨ requests.length = 0 ∨ w.capacity < requests.length)
    (invalid "invalid decode workspace or batch size")
  checkEach (checkRequest device w) requests

/-- A call that works on the requests and keeps them when it fails. -/
abbrev Decoding (κ : Type) := EStateM CudaError (List (Request κ))

/-- The reservations. One that fails takes the ones before it back. -/
def reserveRequests : Decoding κ Unit :=
  sweep (failAt (fun row => fails (.reserveAppend row)) (cacheError "reserve_append") id
    Request.reserve) Request.abort id

/-- `set_row`, for each request. -/
def setRows : Nat → List (Request κ) → Decoding κ Unit
  | _, [] => pure ()
  | row, r :: requests => do
    check (rejectIf (u32Max ≤ r.sequence.position) (invalid "decode row geometry mismatch"))
    reach (fails (.setRow row)) (invalid "decode row geometry mismatch")
    setRows (row + 1) requests

/-- The capture of the batch's graph, when the one at hand is of other rows or bounds. -/
def captureBatch (rows bound : Nat) : Decoding κ Unit :=
  if w.decodeGraph = some (rows, bound) then pure ()
  else do
    reach ((List.range device.layers).any fun index =>
      fails (.layer index) || fails (.attention index)) (.device "forward_layers")
    reach (fails .head) (.device "nvfp4_w4a16_matvec_f32_batch_into_on_stream")
    reach (fails .capture) (.device "capture")

/-- The execution behind the reservations. -/
def executeBatch : Decoding κ Unit := do
  reach (fails .begin) (.device "synchronize")
  let requests ← get
  setRows fails 0 requests
  reach (fails .inputs) (.device "copy_range_from_host")
  let positions := requests.foldl (fun bound r => max bound (r.sequence.position + 1)) 0
  captureBatch device w fails requests.length (graphBound w positions)
  reach (fails .launch) (.device "launch")
  modify fun requests => requests.map fun r => r.map fun s => s.pass device [r.token]
  reach ((List.range requests.length).any fun row => fails (.logits row))
    (.device "copy_range_from_device_on_stream")
  reach (fails .synchronize) (.device "synchronize")

/-- `commit_append`, the record of the position, and the end of one request. -/
def commitRequest (row : Nat) (r : Request κ) : Request κ × Except CudaError Unit :=
  if fails (.commitAppend row) then (r.abort, .error (cacheError "commit_append"))
  else
    let recorded := (r.sequence.commit 1).recordPositions
    match recorded.2 with
    | .error e => ({ r with sequence := recorded.1 }, .error e)
    | .ok () => ({ r with sequence := recorded.1.finish }, .ok ())

/-- The commits. One that fails takes the rows from its own on back; a record that fails takes
nothing back. -/
def commitRequests : Nat → List (Request κ) → List (Request κ) × Except CudaError Unit
  | _, [] => ([], .ok ())
  | row, r :: requests =>
    match commitRequest fails row r with
    | (r, .error e) =>
      (r :: if fails (.commitAppend row) then requests.map Request.abort else requests, .error e)
    | (r, .ok ()) =>
      let rest := commitRequests (row + 1) requests
      (r :: rest.1, rest.2)

def forwardDecodeBatch : Decoding κ Unit := do
  check (checkBatch device w (← get))
  reserveRequests fails
  modify fun requests => requests.map fun r => r.map Sequence.open'
  orUndo (executeBatch device w fails)
    (modify fun requests => requests.map Request.abort)
  let committed := commitRequests fails 0 (← get)
  set committed.1
  check committed.2

end

end Eider.Source.Flint.Append
