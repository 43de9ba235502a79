import Eider.Source.Sequence

/-!
The SM12x page backend behind the sequence cache (`infer/src/sm12x_cache.rs`,
lines 11 to 540): one pool of physical slots shared by every paged layer, handed
to `seqcache` as pages and taken back from it.

Calls on the device may fail at any point, so `PageDevice` leaves their results
open. A call returns its result and what it left behind, also when it failed.
-/
namespace Eider.Source

def sm12xKvPageTokens : Nat := 128

def compactTailRows : Nat := 16

def u32Max : Nat := 2 ^ 32 - 1

structure Sm12xPage where
  slot : Nat
deriving DecidableEq, Repr

theorem slot_injective : Function.Injective Sm12xPage.slot := by
  rintro ⟨slot⟩ ⟨other⟩ rfl
  rfl

/-- The result of a fallible call and the state that it leaves behind. -/
abbrev Outcome (σ α : Type) := Except CudaError α × σ

/-- The calls on the layer pools, the stream and the page table's buffers, over a
device state `D` and tail snapshots `S`. -/
structure PageDevice (D S : Type) where
  /-- `Sm12xKvPagePool::tail_snapshot` of a layer. -/
  tailSnapshot : Nat → D → Outcome D S
  /-- `snapshot_tail_on_stream` of a layer and a slot. -/
  snapshotTailOnStream : Nat → Nat → S → D → Outcome D S
  /-- `restore_tail_prefix_on_stream` of a layer, a slot and a number of rows. -/
  restoreTailPrefixOnStream : Nat → Nat → S → Nat → D → Outcome D Unit
  /-- `copy_page_on_stream` of a layer from one slot to another. -/
  copyPageOnStream : Nat → Nat → Nat → D → Outcome D Unit
  synchronize : D → Outcome D Unit
  /-- `staging_upload.synchronize`. -/
  synchronizeUpload : D → Outcome D Unit
  /-- `copy_range_from_pinned_on_stream` and the record of its event. -/
  upload : List Nat → D → Outcome D Unit

/-! ## Page table -/

/-- `Sm12xPageTable`, without the buffers on the device. -/
structure PageTable where
  host : List Nat
  staging : List Nat
  pageCapacity : Nat
  position : Nat
deriving Repr

/-- `Sm12xCacheContext`: what an operation borrows. -/
structure CacheContext (D : Type) where
  device : D
  pageTable : PageTable

section
variable {D S : Type} (calls : PageDevice D S)

def pageTableUpdateError (table : PageTable) (pages position : Nat) : CudaError :=
  .shape "SM12x page-table update"
    s!"at most {table.pageCapacity} pages and position <= {table.pageCapacity * sm12xKvPageTokens}"
    s!"pages={pages} position={position}"

/-- `Sm12xPageTable::update`, with `update_slots` on the slots of the pages. The
two checks of the iterator's length cannot fail here. -/
def PageTable.update (pages : List Sm12xPage) (position : Nat) (c : CacheContext D) :
    Outcome (CacheContext D) Unit :=
  let table := c.pageTable
  if pages.length > table.pageCapacity || position > table.pageCapacity * sm12xKvPageTokens then
    (.error (pageTableUpdateError table pages.length position), c)
  else
    match calls.synchronizeUpload c.device with
    | (.error e, device) => (.error e, { c with device := device })
    | (.ok (), device) =>
      let staging := pages.map Sm12xPage.slot ++
        List.replicate (table.pageCapacity - pages.length) u32Max
      if table.host = staging then
        (.ok (), ⟨device, { table with
          staging := staging
          position := position }⟩)
      else
        match calls.upload staging device with
        | (.error e, device) => (.error e, ⟨device, { table with staging := staging }⟩)
        | (.ok (), device) =>
          (.ok (), ⟨device, { table with
            host := staging
            staging := table.host
            position := position }⟩)

/-! ## Backend -/

/-- `Sm12xPageBackend`. A layer has a pool or none; the pools themselves are on the
device. -/
structure PageBackend (S : Type) where
  pools : List Bool
  tailSnapshotReuse : List (List S)
  freeSlots : List Nat
  usedSlots : List Bool
  everUsedSlots : List Bool
  pageBytes : Nat

structure PageAllocation where
  page : Sm12xPage
  recycled : Bool

/-- `Sm12xExistingTail`. -/
structure ExistingTail (S : Type) where
  slot : Nat
  rows : Nat
  snapshots : List (Option S)

/-- `Sm12xAppendTransaction`. -/
structure PageTransaction (S : Type) where
  existingTail : Option (ExistingTail S)
  reservedRows : Nat

structure BackendAppendPage where
  page : Sm12xPage
  rows : Nat
  pageOffset : Nat
  existedBeforeReservation : Bool

structure BackendAppendCommit where
  committedPages : List Sm12xPage
  sealedPages : List Sm12xPage
  releasedPages : List Sm12xPage
  rows : Nat
  position : Nat

namespace PageBackend

variable (poolBytes : Nat × Nat → Except CudaError Nat)

/-- The layer loop of `new_heterogeneous`: `poolBytes` is what making the pool of a
layer returns. -/
def layerBytes :
    List (Option (Nat × Nat)) → Nat → Nat → Except CudaError Nat
  | [], _, bytes => .ok bytes
  | none :: rest, layer, bytes => layerBytes rest (layer + 1) bytes
  | some geometry :: rest, layer, bytes =>
    match poolBytes geometry with
    | .error e => .error e
    | .ok pool =>
      if bytes + pool < 2 ^ 64 then layerBytes rest (layer + 1) (bytes + pool)
      else .error (.shape "SM12x page bundle bytes" "full-layer page byte sum without overflow"
        s!"layers={layer + 1}")

/-- `new_heterogeneous`. -/
def new (layerGeometries : List (Option (Nat × Nat))) (pageSlots : Nat) :
    Except CudaError (PageBackend S) :=
  if pageSlots = 0 || pageSlots > u32Max then
    .error (.shape "SM12x KV page slots" s!"1..={u32Max}" s!"{pageSlots}")
  else
    match layerBytes poolBytes layerGeometries 0 0 with
    | .error e => .error e
    | .ok pageBytes =>
      .ok {
        pools := layerGeometries.map Option.isSome
        tailSnapshotReuse := layerGeometries.map fun _ => []
        freeSlots := (List.range pageSlots).reverse
        usedSlots := List.replicate pageSlots false
        everUsedSlots := List.replicate pageSlots false
        pageBytes := pageBytes
      }

def validatePage (b : PageBackend S) (page : Sm12xPage) : Except CudaError Unit :=
  if b.usedSlots[page.slot]? = some true then .ok ()
  else .error (.shape "SM12x physical page" "an allocated pool slot" s!"{page.slot}")

/-- The loops that validate pages and stop at the first that fails. -/
def validatePages (b : PageBackend S) : List Sm12xPage → Except CudaError Unit
  | [] => .ok ()
  | page :: rest =>
    match b.validatePage page with
    | .error e => .error e
    | .ok () => b.validatePages rest

/-- Puts the slot of a page back: the body of `rollback_page` and of the release
loops. -/
def release (b : PageBackend S) (page : Sm12xPage) : PageBackend S :=
  { b with
    usedSlots := b.usedSlots.set page.slot false
    freeSlots := b.freeSlots ++ [page.slot] }

def releaseAll (b : PageBackend S) (pages : List Sm12xPage) : PageBackend S :=
  pages.foldl release b

def recycleTransaction (b : PageBackend S) (transaction : PageTransaction S) :
    PageBackend S × PageTransaction S :=
  match transaction.existingTail with
  | none => (b, transaction)
  | some tail =>
    let recycled := (b.tailSnapshotReuse.zip tail.snapshots).map fun reuse =>
      reuse.1 ++ reuse.2.toList
    ({ b with tailSnapshotReuse := recycled ++ b.tailSnapshotReuse.drop tail.snapshots.length },
      { transaction with existingTail := none })

def allocatePage (b : PageBackend S) : Outcome (PageBackend S) PageAllocation :=
  match b.freeSlots.getLast? with
  | none => (.error (.shape "SM12x physical page allocation" "a free preallocated slot"
      "pool exhausted"), b)
  | some slot =>
    (.ok ⟨⟨slot⟩, b.everUsedSlots.getD slot false⟩,
      { b with
        freeSlots := b.freeSlots.dropLast
        usedSlots := b.usedSlots.set slot true
        everUsedSlots := b.everUsedSlots.set slot true })

def rollbackPage (b : PageBackend S) (page : Sm12xPage) : PageBackend S := b.release page

/-- The checked sum of `prepare_append`. -/
def reservedRows : List BackendAppendPage → Nat → Except CudaError Nat
  | [], rows => .ok rows
  | page :: rest, rows =>
    if rows + page.rows < 2 ^ 64 then reservedRows rest (rows + page.rows)
    else .error (.shape "SM12x append transaction" "row count without overflow"
      s!"rows={rows} next={page.rows}")

/-- The snapshot of one layer: a reusable one or a new one, filled from the slot. -/
def snapshotLayer (layer slot : Nat) (b : PageBackend S) (device : D) :
    Outcome (PageBackend S × D) S :=
  let reusable := b.tailSnapshotReuse.getD layer []
  let (snapshot, b, device) := match reusable.getLast? with
    | some snapshot =>
      (Except.ok snapshot,
        { b with tailSnapshotReuse := b.tailSnapshotReuse.set layer reusable.dropLast }, device)
    | none =>
      let (snapshot, device) := calls.tailSnapshot layer device
      (snapshot, b, device)
  match snapshot with
  | .error e => (.error e, b, device)
  | .ok snapshot =>
    let (filled, device) := calls.snapshotTailOnStream layer slot snapshot device
    (filled, b, device)

/-- The layer loop of `prepare_append`. -/
def snapshotLayers (slot : Nat) : List Bool → Nat → PageBackend S → D → List (Option S) →
    Outcome (PageBackend S × D) (List (Option S))
  | [], _, b, device, snapshots => (.ok snapshots, b, device)
  | false :: pools, layer, b, device, snapshots =>
    snapshotLayers slot pools (layer + 1) b device (snapshots ++ [none])
  | true :: pools, layer, b, device, snapshots =>
    match snapshotLayer calls layer slot b device with
    | (.error e, b, device) => (.error e, b, device)
    | (.ok snapshot, b, device) =>
      snapshotLayers slot pools (layer + 1) b device (snapshots ++ [some snapshot])

def prepareAppend (b : PageBackend S) (pages : List BackendAppendPage) (device : D) :
    Outcome (PageBackend S × D) (PageTransaction S) :=
  match reservedRows pages 0 with
  | .error e => (.error e, b, device)
  | .ok reservedRows =>
    match pages.find? (·.existedBeforeReservation) with
    | none => (.ok ⟨none, reservedRows⟩, b, device)
    | some page =>
      match b.validatePage page.page with
      | .error e => (.error e, b, device)
      | .ok () =>
        let rows := page.pageOffset % compactTailRows
        if rows = 0 then (.ok ⟨none, reservedRows⟩, b, device)
        else
          match snapshotLayers calls page.page.slot b.pools 0 b device [] with
          | (.error e, b, device) => (.error e, b, device)
          | (.ok snapshots, b, device) =>
            (.ok ⟨some ⟨page.page.slot, rows, snapshots⟩, reservedRows⟩, b, device)

/-- The loop that restores the tail rows of every layer. -/
def restoreLayers (slot rows : Nat) : List (Bool × Option S) → Nat → D → Outcome D Unit
  | [], _, device => (.ok (), device)
  | (true, some snapshot) :: rest, layer, device =>
    match calls.restoreTailPrefixOnStream layer slot snapshot rows device with
    | (.error e, device) => (.error e, device)
    | (.ok (), device) => restoreLayers slot rows rest (layer + 1) device
  | _ :: rest, layer, device => restoreLayers slot rows rest (layer + 1) device

/-- Restores the existing tail of a transaction, if it has one. -/
def restoreTail (b : PageBackend S) (transaction : PageTransaction S) (device : D) :
    Outcome D Unit :=
  match transaction.existingTail with
  | none => (.ok (), device)
  | some tail => restoreLayers calls tail.slot tail.rows (b.pools.zip tail.snapshots) 0 device

/-- What an append operation leaves behind. -/
structure AppendState (D S : Type) where
  backend : PageBackend S
  transaction : PageTransaction S
  context : CacheContext D

variable (a : AppendState D S)

/-- The end of `abort_append` and `commit_append`: the page table is updated, and
then the released slots and the snapshots return. -/
def finishAppend (pages released : List Sm12xPage) (position : Nat) :
    Outcome (AppendState D S) Unit :=
  match PageTable.update calls pages position a.context with
  | (.error e, context) => (.error e, { a with context := context })
  | (.ok (), context) =>
    let (backend, transaction) := (a.backend.releaseAll released).recycleTransaction a.transaction
    (.ok (), ⟨backend, transaction, context⟩)

def abortAppend (restored released : List Sm12xPage) (position : Nat) :
    Outcome (AppendState D S) Unit :=
  match a.backend.validatePages (restored ++ released) with
  | .error e => (.error e, a)
  | .ok () =>
    match a.backend.restoreTail calls a.transaction a.context.device with
    | (.error e, device) => (.error e, { a with context := { a.context with device := device } })
    | (.ok (), device) =>
      match calls.synchronize device with
      | (.error e, device) => (.error e, { a with context := { a.context with device := device } })
      | (.ok (), device) =>
        finishAppend calls { a with context := { a.context with device := device } } restored
          released position

/-- The copy loop of `copy_partial_page`. -/
def copyLayers (source destination : Nat) : List Bool → Nat → D → Outcome D Unit
  | [], _, device => (.ok (), device)
  | false :: pools, layer, device => copyLayers source destination pools (layer + 1) device
  | true :: pools, layer, device =>
    match calls.copyPageOnStream layer source destination device with
    | (.error e, device) => (.error e, device)
    | (.ok (), device) => copyLayers source destination pools (layer + 1) device

def copyPartialPage (b : PageBackend S) (source : Sm12xPage) (validTokens : Nat) (device : D) :
    Outcome (PageBackend S × D) PageAllocation :=
  match b.validatePage source with
  | .error e => (.error e, b, device)
  | .ok () =>
    if validTokens = 0 || validTokens ≥ sm12xKvPageTokens then
      (.error (.shape "SM12x partial page copy" s!"valid tokens in 1..{sm12xKvPageTokens}"
        s!"{validTokens}"), b, device)
    else
      match b.allocatePage with
      | (.error e, b) => (.error e, b, device)
      | (.ok allocation, b) =>
        match copyLayers calls source.slot allocation.page.slot b.pools 0 device with
        | (.error e, device) => (.error e, b.rollbackPage allocation.page, device)
        | (.ok (), device) => (.ok allocation, b, device)

/-- Whether a commit keeps fewer rows than were reserved and all of them in the
compact tail. -/
def keepsCompactTail (transaction : PageTransaction S) (commit : BackendAppendCommit) : Bool :=
  commit.rows < transaction.reservedRows &&
    transaction.existingTail.any fun tail => tail.rows + commit.rows ≤ compactTailRows

def commitAppend (commit : BackendAppendCommit) : Outcome (AppendState D S) Unit :=
  match a.backend.validatePages
      (commit.committedPages ++ commit.sealedPages ++ commit.releasedPages) with
  | .error e => (.error e, a)
  | .ok () =>
    let (restored, device) :=
      if keepsCompactTail a.transaction commit then
        a.backend.restoreTail calls a.transaction a.context.device
      else (.ok (), a.context.device)
    match restored with
    | .error e => (.error e, { a with context := { a.context with device := device } })
    | .ok () =>
      let (synchronized, device) :=
        if commit.releasedPages.isEmpty then (.ok (), device) else calls.synchronize device
      match synchronized with
      | .error e => (.error e, { a with context := { a.context with device := device } })
      | .ok () =>
        finishAppend calls { a with context := { a.context with device := device } }
          commit.committedPages commit.releasedPages commit.position

def updatePageTable (b : PageBackend S) (pages : List Sm12xPage) (position : Nat)
    (context : CacheContext D) : Outcome (CacheContext D) Unit :=
  match b.validatePages pages with
  | .error e => (.error e, context)
  | .ok () => PageTable.update calls pages position context

/-- `retire_pages`. The pages are handed back with the error. -/
def retirePages (b : PageBackend S) (pages : List Sm12xPage) : Outcome (PageBackend S) Unit :=
  match b.validatePages pages with
  | .error e => (.error e, b)
  | .ok () => (.ok (), b.releaseAll pages)

end PageBackend

end

end Eider.Source
