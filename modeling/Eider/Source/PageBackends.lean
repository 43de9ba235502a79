import Eider.Source.PageBackend

/-!
The page backends of DeepSeek V4 (`infer/src/deepseek4/sequence.rs`, lines 275 to
580), Ling 3 (`infer/src/ling3/sequence.rs`, 160 to 465) and Nemotron 3
(`infer/src/nemotron3/sequence.rs`, 245 to 715).

All three keep the same record of their slots and treat it alike. They differ in
the pools behind the slots, in the tail snapshots that only Nemotron 3 takes, and in
what precedes the release of retired pages.
-/
namespace Eider.Source

/-! ## Pools -/

/-- A pool of plain `f32` buffers over the same slots: the label of the size check
and the row width of each buffer. -/
structure BufferPool where
  buffers : List (String × Nat)
  slots : Nat
  copyLabel : String
deriving Repr

/-- The calls on the device, with the copies inside a buffer of a layer's pool. -/
structure BufferDevice (D S : Type) extends PageDevice D S where
  /-- `copy_within_on_stream` of a layer and a buffer: source, destination, length. -/
  copyWithinOnStream : Nat → Nat → Nat → Nat → Nat → D → Outcome D Unit

namespace BufferPool

def checkSizes (slots : Nat) : List (String × Nat) → Except CudaError Unit
  | [] => .ok ()
  | (label, width) :: rest =>
    if slots * sm12xKvPageTokens < 2 ^ 64 && slots * sm12xKvPageTokens * width < 2 ^ 64 then
      checkSizes slots rest
    else .error (.shape label "pool shape without overflow" s!"slots={slots} width={width}")

variable (alloc : Nat → Except CudaError Unit)

/-- `DeviceBuffer::zeroed` of every buffer. -/
def zeroed (slots : Nat) :
    List (String × Nat) → Except CudaError Unit
  | [] => .ok ()
  | (_, width) :: rest => do
    alloc (slots * sm12xKvPageTokens * width)
    zeroed slots rest

/-- The constructor that the pools share. -/
def new (copyLabel : String) (slots : Nat)
    (buffers : List (String × Nat)) : Except CudaError BufferPool := do
  checkSizes slots buffers
  zeroed alloc slots buffers
  .ok ⟨buffers, slots, copyLabel⟩

def pageBytes (p : BufferPool) : Nat := sm12xKvPageTokens * (p.buffers.map Prod.snd).sum * 4

section
variable {D S : Type} (calls : BufferDevice D S)

/-- The copies of a page, one for each buffer. -/
def copyBuffers (layer source destination : Nat) :
    List (String × Nat) → Nat → D → Outcome D Unit
  | [], _, device => (.ok (), device)
  | (_, width) :: rest, buffer, device =>
    let values := sm12xKvPageTokens * width
    match calls.copyWithinOnStream layer buffer (source * values) (destination * values) values
        device with
    | (.error e, device) => (.error e, device)
    | (.ok (), device) => copyBuffers layer source destination rest (buffer + 1) device

def copyPage (p : BufferPool) (layer source destination : Nat) (device : D) : Outcome D Unit :=
  if source ≥ p.slots || destination ≥ p.slots then
    (.error (.shape p.copyLabel s!"slots below {p.slots}"
      s!"source={source} destination={destination}"), device)
  else copyBuffers calls layer source destination p.buffers 0 device

end

end BufferPool

/-! ## Slots -/

structure BackendErrors where
  pageSlots : Nat → CudaError
  invalidPage : Nat → CudaError
  exhausted : CudaError
  partialCopy : Nat → CudaError

/-- `free_slots`, `used_slots` and `ever_used_slots`. -/
structure SlotRecord where
  freeSlots : List Nat
  usedSlots : List Bool
  everUsedSlots : List Bool
deriving DecidableEq, Repr

/-- What a call of a backend leaves behind, with the transaction it borrows. -/
structure BackendState (T D : Type) where
  slots : SlotRecord
  transaction : T
  context : CacheContext D

namespace SlotRecord

def new (slots : Nat) : SlotRecord where
  freeSlots := (List.range slots).reverse
  usedSlots := List.replicate slots false
  everUsedSlots := List.replicate slots false

/-- The check of the slot count that the constructors begin with. -/
def checkCount (errors : BackendErrors) (slots : Nat) : Except CudaError Unit :=
  if slots = 0 || slots > u32Max then .error (errors.pageSlots slots) else .ok ()

/-- `validate`, `validate_page`. -/
def validate (errors : BackendErrors) (s : SlotRecord) (page : Sm12xPage) : Except CudaError Unit :=
  if s.usedSlots[page.slot]? = some true then .ok () else .error (errors.invalidPage page.slot)

/-- The loops that validate pages and stop at the first that fails. -/
def validateAll (errors : BackendErrors) (s : SlotRecord) : List Sm12xPage → Except CudaError Unit
  | [] => .ok ()
  | page :: rest =>
    match s.validate errors page with
    | .error e => .error e
    | .ok () => s.validateAll errors rest

/-- `rollback_page` and the body of the release loops. -/
def release (s : SlotRecord) (page : Sm12xPage) : SlotRecord :=
  { s with
    usedSlots := s.usedSlots.set page.slot false
    freeSlots := s.freeSlots ++ [page.slot] }

def releaseAll (s : SlotRecord) (pages : List Sm12xPage) : SlotRecord := pages.foldl release s

def allocatePage (errors : BackendErrors) (s : SlotRecord) : Outcome SlotRecord PageAllocation :=
  match s.freeSlots.getLast? with
  | none => (.error errors.exhausted, s)
  | some slot =>
    (.ok ⟨⟨slot⟩, s.everUsedSlots.getD slot false⟩,
      { freeSlots := s.freeSlots.dropLast
        usedSlots := s.usedSlots.set slot true
        everUsedSlots := s.everUsedSlots.set slot true })

section
variable {D S T P : Type} (calls : BufferDevice D S) (errors : BackendErrors)

/-- The copy loop of `copy_partial_page` over the layers that have a pool. -/
def copyPools (copyPool : Nat → P → D → Outcome D Unit) :
    List (Option P) → Nat → D → Outcome D Unit
  | [], _, device => (.ok (), device)
  | none :: pools, layer, device => copyPools copyPool pools (layer + 1) device
  | some pool :: pools, layer, device =>
    match copyPool layer pool device with
    | (.error e, device) => (.error e, device)
    | (.ok (), device) => copyPools copyPool pools (layer + 1) device

/-- `copy_partial_page`. Behind a failed copy the stream is synchronised first; if
that fails too, the call returns without the rollback. -/
def copyPartialPage (copy : Nat → Nat → D → Outcome D Unit) (s : SlotRecord) (source : Sm12xPage)
    (validTokens : Nat) (device : D) : Outcome (SlotRecord × D) PageAllocation :=
  match s.validate errors source with
  | .error e => (.error e, s, device)
  | .ok () =>
    if validTokens = 0 || validTokens ≥ sm12xKvPageTokens then
      (.error (errors.partialCopy validTokens), s, device)
    else
      match s.allocatePage errors with
      | (.error e, s) => (.error e, s, device)
      | (.ok allocation, s) =>
        match copy source.slot allocation.page.slot device with
        | (.ok (), device) => (.ok allocation, s, device)
        | (.error e, device) =>
          match calls.synchronize device with
          | (.error sync, device) => (.error sync, s, device)
          | (.ok (), device) => (.error e, s.release allocation.page, device)

/-- The end of `abort_append` and `commit_append`: the page table is updated, and
then the released slots return. -/
def finishAppend (a : BackendState T D) (pages released : List Sm12xPage) (position : Nat) :
    Outcome (BackendState T D) Unit :=
  match PageTable.update calls.toPageDevice pages position a.context with
  | (.error e, context) => (.error e, { a with context := context })
  | (.ok (), context) =>
    (.ok (), { a with slots := a.slots.releaseAll released, context := context })

variable (restore : T → D → Outcome D Unit) (a : BackendState T D)

/-- `abort_append`; `restore` writes the rows of the tail back. -/
def abortAppend
    (restored released : List Sm12xPage) (position : Nat) : Outcome (BackendState T D) Unit :=
  match a.slots.validateAll errors (restored ++ released) with
  | .error e => (.error e, a)
  | .ok () =>
    match restore a.transaction a.context.device with
    | (.error e, device) => (.error e, { a with context := { a.context with device := device } })
    | (.ok (), device) =>
      match calls.synchronize device with
      | (.error e, device) => (.error e, { a with context := { a.context with device := device } })
      | (.ok (), device) =>
        finishAppend calls { a with context := { a.context with device := device } } restored
          released position

def commitAppend (commit : BackendAppendCommit) : Outcome (BackendState T D) Unit :=
  match a.slots.validateAll errors
      (commit.committedPages ++ commit.sealedPages ++ commit.releasedPages) with
  | .error e => (.error e, a)
  | .ok () =>
    match restore a.transaction a.context.device with
    | (.error e, device) => (.error e, { a with context := { a.context with device := device } })
    | (.ok (), device) =>
      let (synchronized, device) :=
        if commit.releasedPages.isEmpty then (.ok (), device) else calls.synchronize device
      match synchronized with
      | .error e => (.error e, { a with context := { a.context with device := device } })
      | .ok () =>
        finishAppend calls { a with context := { a.context with device := device } }
          commit.committedPages commit.releasedPages commit.position

def updatePageTable (s : SlotRecord) (pages : List Sm12xPage) (position : Nat)
    (context : CacheContext D) : Outcome (CacheContext D) Unit :=
  match s.validateAll errors pages with
  | .error e => (.error e, context)
  | .ok () => PageTable.update calls.toPageDevice pages position context

/-- `retire_pages`, where `settle` precedes the release. The pages are handed back
with the error. -/
def retirePages (settle : D → Outcome D Unit) (s : SlotRecord) (pages : List Sm12xPage)
    (device : D) : Outcome (SlotRecord × D) Unit :=
  match s.validateAll errors pages with
  | .error e => (.error e, s, device)
  | .ok () =>
    match settle device with
    | (.error e, device) => (.error e, s, device)
    | (.ok (), device) => (.ok (), s.releaseAll pages, device)

end

end SlotRecord

/-- The calls of `seqcache::PageBackend` on a backend `B` with transactions `T`. -/
structure PageBackendCalls (B T D : Type) where
  slots : B → SlotRecord
  allocatePage : B → Outcome B PageAllocation
  rollbackPage : B → Sm12xPage → B
  prepareAppend : B → List BackendAppendPage → D → Outcome (B × D) T
  abortAppend : B → T → List Sm12xPage → List Sm12xPage → Nat → CacheContext D →
    Outcome (B × T × CacheContext D) Unit
  copyPartialPage : B → Sm12xPage → Nat → D → Outcome (B × D) PageAllocation
  commitAppend : B → T → BackendAppendCommit → CacheContext D →
    Outcome (B × T × CacheContext D) Unit
  updatePageTable : B → List Sm12xPage → Nat → CacheContext D → Outcome (CacheContext D) Unit
  retirePages : B → List Sm12xPage → D → Outcome (B × D) Unit

/-- The checked sum of the page bytes of the pools; `overflow` is the error at a pool
that does not fit, from the sum before it, its bytes and the number of layers up to it. -/
def sumPageBytes (overflow : Nat → Nat → Nat → CudaError) :
    List (Option Nat) → Nat → Nat → Except CudaError Nat
  | [], _, bytes => .ok bytes
  | none :: rest, layer, bytes => sumPageBytes overflow rest (layer + 1) bytes
  | some next :: rest, layer, bytes =>
    if bytes + next < 2 ^ 64 then sumPageBytes overflow rest (layer + 1) (bytes + next)
    else .error (overflow bytes next (layer + 1))

/-! ## DeepSeek V4 -/

structure Deepseek4PageBackend where
  pools : List BufferPool
  slots : SlotRecord
  pageBytes : Nat

namespace Deepseek4PageBackend

def errors : BackendErrors where
  pageSlots slots := .shape "DeepSeek V4 page slots" s!"1..={u32Max}" s!"{slots}"
  invalidPage slot := .format "DeepSeek V4 physical page" s!"slot {slot} is not allocated"
  exhausted := .format "DeepSeek V4 physical page allocation" "preallocated page pool exhausted"
  partialCopy tokens := .shape "DeepSeek V4 partial page copy"
    s!"valid tokens in 1..{sm12xKvPageTokens}" s!"{tokens}"

variable (alloc : Nat → Except CudaError Unit)

/-- `Deepseek4PagePool::new`. -/
def newPool (slots width : Nat) : Except CudaError BufferPool :=
  BufferPool.new alloc "DeepSeek V4 page copy" slots [("DeepSeek V4 page pool", width)]

/-- `new`. The pools of all layers have one size, so they are made before their bytes
are summed. -/
def new (layers width slots : Nat) :
    Except CudaError Deepseek4PageBackend := do
  SlotRecord.checkCount errors slots
  if layers = 0 || width = 0 then
    throw (.shape "DeepSeek V4 page geometry" "positive layer count and width"
      s!"layers={layers} width={width}")
  let pools ← (List.replicate layers ()).mapM fun _ => newPool alloc slots width
  let pageBytes ← sumPageBytes (fun _ _ layers => .shape "DeepSeek V4 page bundle bytes"
    "layer page-byte sum without overflow" s!"layers={layers}")
    (pools.map fun pool => some pool.pageBytes) 0 0
  return ⟨pools, .new slots, pageBytes⟩

variable {D S : Type} (calls : BufferDevice D S)

/-- The copy of a page in the pools of all layers. -/
def copyPages (b : Deepseek4PageBackend) (source destination : Nat) : D → Outcome D Unit :=
  SlotRecord.copyPools (fun layer pool => BufferPool.copyPage calls pool layer source destination)
    (b.pools.map some) 0

/-- The `PageBackend` implementation. An append carries no transaction. -/
def pageBackend : PageBackendCalls Deepseek4PageBackend Unit D where
  slots b := b.slots
  allocatePage b :=
    let (result, slots) := b.slots.allocatePage errors
    (result, { b with slots := slots })
  rollbackPage b page := { b with slots := b.slots.release page }
  prepareAppend b _ device := (.ok (), b, device)
  abortAppend b transaction restored released position context :=
    let (result, left) := SlotRecord.abortAppend calls errors (fun _ device => (.ok (), device))
      ⟨b.slots, transaction, context⟩ restored released position
    (result, { b with slots := left.slots }, left.transaction, left.context)
  copyPartialPage b source validTokens device :=
    let (result, slots, device) :=
      SlotRecord.copyPartialPage calls errors (copyPages calls b) b.slots source validTokens device
    (result, { b with slots := slots }, device)
  commitAppend b transaction commit context :=
    let (result, left) := SlotRecord.commitAppend calls errors (fun _ device => (.ok (), device))
      ⟨b.slots, transaction, context⟩ commit
    (result, { b with slots := left.slots }, left.transaction, left.context)
  updatePageTable b pages position context :=
    b.slots.updatePageTable calls errors pages position context
  retirePages b pages device :=
    let (result, slots, device) := b.slots.retirePages errors calls.synchronize pages device
    (result, { b with slots := slots }, device)

end Deepseek4PageBackend

/-! ## Ling 3 -/

/-- `Ling3PageBackend`. Only the MLA layers have a pool. -/
structure Ling3PageBackend where
  pools : List (Option BufferPool)
  slots : SlotRecord
  pageBytes : Nat

namespace Ling3PageBackend

def errors : BackendErrors where
  pageSlots slots := .shape "Ling 3 page slots" s!"1..={u32Max}" s!"{slots}"
  invalidPage slot := .format "Ling 3 physical page" s!"slot {slot} is not allocated"
  exhausted := .format "Ling 3 physical page allocation" "preallocated page pool exhausted"
  partialCopy tokens := .shape "Ling 3 partial page copy"
    s!"valid tokens in 1..{sm12xKvPageTokens}" s!"{tokens}"

variable (alloc : Nat → Except CudaError Unit)

/-- `Ling3MlaPagePool::new`. -/
def newPool (slots keyWidth valueWidth : Nat) : Except CudaError BufferPool :=
  BufferPool.new alloc "Ling 3 MLA page copy" slots
    [("Ling 3 MLA key pool", keyWidth), ("Ling 3 MLA value pool", valueWidth)]

/-- The layer loop of `new`. -/
def makePools (slots : Nat) :
    List (Option (Nat × Nat)) → Nat → Except CudaError (List (Option BufferPool) × Nat)
  | [], bytes => .ok ([], bytes)
  | none :: rest, bytes => do
    let (pools, bytes) ← makePools slots rest bytes
    return (none :: pools, bytes)
  | some (keyWidth, valueWidth) :: rest, bytes => do
    let pool ← newPool alloc slots keyWidth valueWidth
    if bytes + pool.pageBytes < 2 ^ 64 then
      let (pools, bytes) ← makePools slots rest (bytes + pool.pageBytes)
      return (some pool :: pools, bytes)
    else throw (.shape "Ling 3 page bytes" "page bytes without overflow"
      s!"accumulated={bytes} next={pool.pageBytes}")

def new (layouts : List (Option (Nat × Nat))) (slots : Nat) :
    Except CudaError Ling3PageBackend := do
  SlotRecord.checkCount errors slots
  let (pools, pageBytes) ← makePools alloc slots layouts 0
  return ⟨pools, .new slots, pageBytes⟩

variable {D S : Type} (calls : BufferDevice D S)

def copyPages (b : Ling3PageBackend) (source destination : Nat) : D → Outcome D Unit :=
  SlotRecord.copyPools (fun layer pool => BufferPool.copyPage calls pool layer source destination)
    b.pools 0

/-- The `PageBackend` implementation. An append carries no transaction. -/
def pageBackend : PageBackendCalls Ling3PageBackend Unit D where
  slots b := b.slots
  allocatePage b :=
    let (result, slots) := b.slots.allocatePage errors
    (result, { b with slots := slots })
  rollbackPage b page := { b with slots := b.slots.release page }
  prepareAppend b _ device := (.ok (), b, device)
  abortAppend b transaction restored released position context :=
    let (result, left) := SlotRecord.abortAppend calls errors (fun _ device => (.ok (), device))
      ⟨b.slots, transaction, context⟩ restored released position
    (result, { b with slots := left.slots }, left.transaction, left.context)
  copyPartialPage b source validTokens device :=
    let (result, slots, device) :=
      SlotRecord.copyPartialPage calls errors (copyPages calls b) b.slots source validTokens device
    (result, { b with slots := slots }, device)
  commitAppend b transaction commit context :=
    let (result, left) := SlotRecord.commitAppend calls errors (fun _ device => (.ok (), device))
      ⟨b.slots, transaction, context⟩ commit
    (result, { b with slots := left.slots }, left.transaction, left.context)
  updatePageTable b pages position context :=
    b.slots.updatePageTable calls errors pages position context
  retirePages b pages device :=
    let (result, slots, device) := b.slots.retirePages errors calls.synchronize pages device
    (result, { b with slots := slots }, device)

end Ling3PageBackend

/-! ## Nemotron 3 -/

inductive Nemotron3KvCacheStorage where
  | f32
  | nvfp4
deriving DecidableEq, Repr

inductive Nemotron3LayerPool where
  | f32 (pool : BufferPool)
  | nvfp4
deriving Repr

def Nemotron3LayerPool.isNvfp4 : Nemotron3LayerPool → Bool
  | .f32 _ => false
  | .nvfp4 => true

structure Nemotron3PageBackend (S : Type) where
  pools : List (Option Nemotron3LayerPool)
  tailSnapshotReuse : List (List S)
  slots : SlotRecord
  pageBytes : Nat
  storage : Nemotron3KvCacheStorage

namespace Nemotron3PageBackend

def errors : BackendErrors where
  pageSlots slots := .shape "Nemotron 3 KV page slots" s!"1..={u32Max}" s!"{slots}"
  invalidPage slot := .shape "Nemotron 3 physical page" "an allocated pool slot" s!"{slot}"
  exhausted := .shape "Nemotron 3 physical page allocation" "a free preallocated slot"
    "pool exhausted"
  partialCopy tokens := .shape "Nemotron 3 partial page copy"
    s!"valid tokens in 1..{sm12xKvPageTokens}" s!"{tokens}"

variable (alloc : Nat → Except CudaError Unit)

/-- `F32KvPagePool::new`: two buffers of one width. -/
def newF32Pool (slots kvHeads headDim : Nat) : Except CudaError BufferPool :=
  if kvHeads * headDim < 2 ^ 64 then
    BufferPool.new alloc "F32 KV page copy" slots
      [("F32 KV page pool", kvHeads * headDim), ("F32 KV page pool", kvHeads * headDim)]
  else .error (.shape "F32 KV page width" "head geometry without overflow"
    s!"kv_heads={kvHeads} head_dim={headDim}")

/-- The pool of an attention layer and its page bytes; `nvfp4Bytes` is what making an
`Sm12xKvPagePool` returns. -/
def newPool (nvfp4Bytes : Except CudaError Nat)
    (slots kvHeads headDim : Nat) : Nemotron3KvCacheStorage →
    Except CudaError (Nemotron3LayerPool × Nat)
  | .f32 => do
    let pool ← newF32Pool alloc slots kvHeads headDim
    return (.f32 pool, pool.pageBytes)
  | .nvfp4 => do
    let bytes ← nvfp4Bytes
    return (.nvfp4, bytes)

/-- The layer loop of `new`. -/
def makePools (newPool : Except CudaError (Nemotron3LayerPool × Nat)) :
    List Bool → Nat → Nat → Except CudaError (List (Option Nemotron3LayerPool) × Nat)
  | [], _, bytes => .ok ([], bytes)
  | false :: rest, layer, bytes => do
    let (pools, bytes) ← makePools newPool rest (layer + 1) bytes
    return (none :: pools, bytes)
  | true :: rest, layer, bytes => do
    let (pool, next) ← newPool
    if bytes + next < 2 ^ 64 then
      let (pools, bytes) ← makePools newPool rest (layer + 1) (bytes + next)
      return (some pool :: pools, bytes)
    else throw (.shape "Nemotron 3 page bundle bytes" "layer page-byte sum without overflow"
      s!"layers={layer + 1}")

def new {S : Type} (nvfp4Bytes : Except CudaError Nat)
    (attentionLayers : List Bool) (pageSlots kvHeads headDim : Nat)
    (storage : Nemotron3KvCacheStorage) : Except CudaError (Nemotron3PageBackend S) := do
  SlotRecord.checkCount errors pageSlots
  let (pools, pageBytes) ←
    makePools (newPool alloc nvfp4Bytes pageSlots kvHeads headDim storage) attentionLayers 0 0
  return {
    pools := pools
    tailSnapshotReuse := pools.map fun _ => []
    slots := .new pageSlots
    pageBytes := pageBytes
    storage := storage }

/-- The layers whose pool keeps a compact tail. -/
def nvfp4Layers {S : Type} (b : Nemotron3PageBackend S) : List Bool :=
  b.pools.map fun pool => pool.any Nemotron3LayerPool.isNvfp4

def reservedRows : List BackendAppendPage → Nat → Except CudaError Nat
  | [], rows => .ok rows
  | page :: rest, rows =>
    if rows + page.rows < 2 ^ 64 then reservedRows rest (rows + page.rows)
    else .error (.shape "Nemotron 3 append transaction" "row count without overflow"
      s!"rows={rows} next={page.rows}")

section
variable {D S : Type} (calls : BufferDevice D S)

def snapshotLayer (layer slot : Nat) (reuse : List (List S)) (device : D) :
    Outcome (List (List S) × D) S :=
  let reusable := reuse.getD layer []
  let (snapshot, reuse, device) := match reusable.getLast? with
    | some snapshot => (Except.ok snapshot, reuse.set layer reusable.dropLast, device)
    | none =>
      let (snapshot, device) := calls.tailSnapshot layer device
      (snapshot, reuse, device)
  match snapshot with
  | .error e => (.error e, reuse, device)
  | .ok snapshot =>
    let (filled, device) := calls.snapshotTailOnStream layer slot snapshot device
    (filled, reuse, device)

def snapshotLayers (slot : Nat) : List Bool → Nat → List (List S) → D → List (Option S) →
    Outcome (List (List S) × D) (List (Option S))
  | [], _, reuse, device, snapshots => (.ok snapshots, reuse, device)
  | false :: layers, layer, reuse, device, snapshots =>
    snapshotLayers slot layers (layer + 1) reuse device (snapshots ++ [none])
  | true :: layers, layer, reuse, device, snapshots =>
    match snapshotLayer calls layer slot reuse device with
    | (.error e, reuse, device) => (.error e, reuse, device)
    | (.ok snapshot, reuse, device) =>
      snapshotLayers slot layers (layer + 1) reuse device (snapshots ++ [some snapshot])

variable (b : Nemotron3PageBackend S)

def prepareAppend (pages : List BackendAppendPage) (device : D) :
    Outcome (Nemotron3PageBackend S × D) (PageTransaction S) :=
  match reservedRows pages 0 with
  | .error e => (.error e, b, device)
  | .ok reservedRows =>
    match pages.find? (·.existedBeforeReservation) with
    | none => (.ok ⟨none, reservedRows⟩, b, device)
    | some page =>
      match b.slots.validate errors page.page with
      | .error e => (.error e, b, device)
      | .ok () =>
        let rows := page.pageOffset % compactTailRows
        if rows = 0 then (.ok ⟨none, reservedRows⟩, b, device)
        else
          match snapshotLayers calls page.page.slot b.nvfp4Layers 0 b.tailSnapshotReuse device []
            with
          | (.error e, reuse, device) => (.error e, { b with tailSnapshotReuse := reuse }, device)
          | (.ok snapshots, reuse, device) =>
            (.ok ⟨some ⟨page.page.slot, rows, snapshots⟩, reservedRows⟩,
              { b with tailSnapshotReuse := reuse }, device)

def restoreTail (transaction : PageTransaction S) (device : D) : Outcome D Unit :=
  match transaction.existingTail with
  | none => (.ok (), device)
  | some tail => PageBackend.restoreLayers calls.toPageDevice tail.slot tail.rows
      (b.nvfp4Layers.zip tail.snapshots) 0 device

def recycleTransaction (transaction : PageTransaction S) :
    Nemotron3PageBackend S × PageTransaction S :=
  match transaction.existingTail with
  | none => (b, transaction)
  | some tail =>
    let recycled := (b.tailSnapshotReuse.zip tail.snapshots).map fun reuse =>
      reuse.1 ++ reuse.2.toList
    ({ b with tailSnapshotReuse := recycled ++ b.tailSnapshotReuse.drop tail.snapshots.length },
      { transaction with existingTail := none })

/-- The copies of a page in the pool of a layer. -/
def copyPool (source destination layer : Nat) : Nemotron3LayerPool → D → Outcome D Unit
  | .f32 pool, device => BufferPool.copyPage calls pool layer source destination device
  | .nvfp4, device => calls.copyPageOnStream layer source destination device

def copyPages (source destination : Nat) : D → Outcome D Unit :=
  SlotRecord.copyPools (fun layer pool => copyPool calls source destination layer pool) b.pools 0

/-- What `abort_append` and `commit_append` leave: behind a success the snapshots of the
transaction return. -/
def recycleAppend :
    Outcome (BackendState (PageTransaction S) D) Unit →
      Outcome (Nemotron3PageBackend S × PageTransaction S × CacheContext D) Unit
  | (.error e, left) => (.error e, { b with slots := left.slots }, left.transaction, left.context)
  | (.ok (), left) =>
    let (b, transaction) := recycleTransaction { b with slots := left.slots } left.transaction
    (.ok (), b, transaction, left.context)

def pageBackend : PageBackendCalls (Nemotron3PageBackend S) (PageTransaction S) D where
  slots b := b.slots
  allocatePage b :=
    let (result, slots) := b.slots.allocatePage errors
    (result, { b with slots := slots })
  rollbackPage b page := { b with slots := b.slots.release page }
  prepareAppend b pages device := prepareAppend calls b pages device
  abortAppend b transaction restored released position context :=
    recycleAppend b (SlotRecord.abortAppend calls errors (restoreTail calls b)
      ⟨b.slots, transaction, context⟩ restored released position)
  copyPartialPage b source validTokens device :=
    let (result, slots, device) :=
      SlotRecord.copyPartialPage calls errors (copyPages calls b) b.slots source validTokens device
    (result, { b with slots := slots }, device)
  commitAppend b transaction commit context :=
    let restore (transaction : PageTransaction S) (device : D) : Outcome D Unit :=
      if PageBackend.keepsCompactTail transaction commit then
        restoreTail calls b transaction device
      else (.ok (), device)
    recycleAppend b (SlotRecord.commitAppend calls errors restore ⟨b.slots, transaction, context⟩
      commit)
  updatePageTable b pages position context :=
    b.slots.updatePageTable calls errors pages position context
  retirePages b pages device :=
    let (result, slots, device) :=
      b.slots.retirePages errors (fun device => (.ok (), device)) pages device
    (result, { b with slots := slots }, device)

end

end Nemotron3PageBackend

end Eider.Source
