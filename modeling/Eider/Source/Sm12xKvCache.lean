import Eider.Lib.Ring
import Eider.Source.PageBackend

/-!
The compact K/V pages of the SM12x pools: the kernels that append rows to a page
(`eider-cuda/src/kernels/sm12x_kv_cache_oxide.rs`, lines 62 to 380, and
`backends/cuda-oxide/src/kernels/kv_cache.rs`, lines 10 to 440), the tail snapshots
(`sm12x_kv_cache.rs`, lines 1124 to 1480), and append transactions of one sequence over
the page backend.

The rows of keys and values are the types `K` and `V`. `Packing` says what the quantizers
make of eight key rows and of sixteen value rows; the kernels that pack dense rows first
replace the values that are not finite by zero. The BF16 copies for prompt attention and
the shape checks of buffers are left out.

Which pages a reservation covers is decided by `seqcache`, so it comes with the action.
The new pages have been allocated by then and hold whatever their slots held.
-/
namespace Eider.Source.Sm12x
open Lib Function

structure KvRow (K V : Type) where
  key : K
  value : V

/-- A physical page of one layer: the circular f32 tails, the key tiles of eight rows and
the value blocks of sixteen rows. -/
structure KvPage (K V TK TV : Type) where
  keyTail : Nat → K
  valueTail : Nat → V
  keyTiles : Nat → TK
  valueBlocks : Nat → TV

/-- The quantizers, and the replacement of values that are not finite. -/
structure Packing (K V TK TV : Type) where
  packKey : List K → TK
  packValue : List V → TV
  finiteKey : K → K
  finiteValue : V → V

section
variable {K V TK TV : Type} (pack : Packing K V TK TV) (page : KvPage K V TK TV) (position : Nat)
variable (rows : List (KvRow K V))

/-- `sm12x_kv_copy_tail_f32`. -/
def copyTail : KvPage K V TK TV :=
  { page with
    keyTail := Ring.writeAll compactTailRows page.keyTail position (rows.map KvRow.key)
    valueTail := Ring.writeAll compactTailRows page.valueTail position (rows.map KvRow.value) }

/-- `sm12x_kv_finalize_key_f32` for one row. -/
def finalizeKeyRow : KvPage K V TK TV :=
  if position % 8 = 7 then
    let tile := pack.packKey (Ring.window page.keyTail (position % 16 / 8 * 8) 8)
    { page with keyTiles := update page.keyTiles (position / 8) tile }
  else page

/-- `sm12x_kv_finalize_value_f32` for one row. -/
def finalizeValueRow : KvPage K V TK TV :=
  if position % 16 = 15 then
    let block := pack.packValue (Ring.window page.valueTail 0 16)
    { page with valueBlocks := update page.valueBlocks (position / 16) block }
  else page

def finalizeKey (position rows : Nat) : KvPage K V TK TV :=
  (List.range rows).foldl (fun page z => finalizeKeyRow pack page (position + z)) page

def finalizeValue (position rows : Nat) : KvPage K V TK TV :=
  (List.range rows).foldl (fun page z => finalizeValueRow pack page (position + z)) page

/-- The tile that a group of `finalize_key_rows` packs. -/
def rowsKeyTile (group : Nat) : TK :=
  pack.packKey (((rows.drop (8 * group)).take 8).map fun row => pack.finiteKey row.key)

/-- The block that a group of `finalize_value_rows` packs. -/
def rowsValueBlock (group : Nat) : TV :=
  pack.packValue (((rows.drop (16 * group)).take 16).map fun row => pack.finiteValue row.value)

/-- `finalize_key_rows`: complete tiles straight from the rows. -/
def finalizeKeyRows : KvPage K V TK TV :=
  let tiles := (List.range (rows.length / 8)).foldl (fun tiles group =>
    update tiles (position / 8 + group) (rowsKeyTile pack rows group)) page.keyTiles
  { page with keyTiles := tiles }

/-- `finalize_value_rows`: complete blocks straight from the rows. -/
def finalizeValueRows : KvPage K V TK TV :=
  let blocks := (List.range (rows.length / 16)).foldl (fun blocks group =>
    update blocks ((position + group * 16) / 16) (rowsValueBlock pack rows group))
    page.valueBlocks
  { page with valueBlocks := blocks }

def append (row : KvRow K V) : KvPage K V TK TV :=
  let page := copyTail page position [row]
  let page := if position % 8 = 7 then finalizeKey pack page position 1 else page
  if position % 16 = 15 then finalizeValue pack page position 1 else page

/-- Rows of one block that go through the tail. -/
def appendThroughTail : KvPage K V TK TV :=
  let page := copyTail page position rows
  let page := finalizeKey pack page position rows.length
  finalizeValue pack page position rows.length

/-- Whole blocks of sixteen rows; the last one also goes to the tail. -/
def appendBlocks : KvPage K V TK TV :=
  let page := finalizeKeyRows pack page position rows
  let page := finalizeValueRows pack page position rows
  copyTail page (position + rows.length - 16) (rows.drop (rows.length - 16))

/-- The rows of `append_rows` that complete the block at the start. -/
def headRows (startPosition rows : Nat) : Nat :=
  if startPosition % 16 = 0 then 0 else min rows (16 - startPosition % 16)

/-- The rows of `append_rows` that are appended as whole blocks. -/
def bulkRows (startPosition rows : Nat) : Nat := (rows - headRows startPosition rows) / 16 * 16

def appendRows (startPosition : Nat) (rows : List (KvRow K V)) : KvPage K V TK TV :=
  let head := headRows startPosition rows.length
  let page := if startPosition % 16 = 0 then page
    else appendThroughTail pack page startPosition (rows.take head)
  let bulk := bulkRows startPosition rows.length
  let page := if bulk = 0 then page
    else appendBlocks pack page (startPosition + head) ((rows.drop head).take bulk)
  let processed := head + bulk
  if processed < rows.length then
    appendThroughTail pack page (startPosition + processed) (rows.drop processed)
  else page

/-- One append call of a caller: a single row, or several at once. -/
inductive Chunk where
  | one
  | rows (count : Nat)
deriving DecidableEq, Repr

def Chunk.count : Chunk → Nat
  | .one => 1
  | .rows count => count

/-- `append_at_offsets_on_stream` and `append_rows_at_offset_on_stream`, behind their
checks. -/
def Chunk.perform :
    Chunk → KvPage K V TK TV
  | .one => (rows.head?.map (append pack page position)).getD page
  | .rows _ => appendRows pack page position rows

end

/-! ## The pools as the device of the page backend -/

section
variable {K V TK TV : Type}

structure TailSnapshot (K V : Type) where
  key : Nat → K
  value : Nat → V

/-- The pages of the layers by slot. -/
abbrev KvPools (K V TK TV : Type) := Nat → Nat → KvPage K V TK TV

def KvPools.set (pools : KvPools K V TK TV) (layer slot : Nat) (page : KvPage K V TK TV) :
    KvPools K V TK TV :=
  fun l s => if l = layer ∧ s = slot then page else pools l s

/-- What `snapshot_tail_on_stream` copies. -/
def KvPage.tails (page : KvPage K V TK TV) : TailSnapshot K V := ⟨page.keyTail, page.valueTail⟩

/-- `restore_tail_prefix_on_stream` on the page of a slot. -/
def KvPage.restoreTailPrefix (page : KvPage K V TK TV) (snapshot : TailSnapshot K V) (rows : Nat) :
    KvPage K V TK TV :=
  { page with
    keyTail := Ring.restore rows snapshot.key page.keyTail
    valueTail := Ring.restore rows snapshot.value page.valueTail }

/-- The pools as a device on which every call succeeds. -/
def kvDevice (K V TK TV : Type) [Inhabited K] [Inhabited V] :
    PageDevice (KvPools K V TK TV) (TailSnapshot K V) where
  tailSnapshot := fun _ pools => (.ok ⟨default, default⟩, pools)
  snapshotTailOnStream := fun layer slot _ pools => (.ok (pools layer slot).tails, pools)
  restoreTailPrefixOnStream := fun layer slot snapshot rows pools =>
    if rows > compactTailRows then
      (.error (.shape "SM12x paged KV tail restore" s!"at most {compactTailRows} rows"
        s!"{rows} rows"), pools)
    else (.ok (), pools.set layer slot ((pools layer slot).restoreTailPrefix snapshot rows))
  copyPageOnStream := fun layer source destination pools =>
    (.ok (), pools.set layer destination (pools layer source))
  synchronize := fun pools => (.ok (), pools)
  synchronizeUpload := fun pools => (.ok (), pools)
  upload := fun _ pools => (.ok (), pools)

end

/-! ## Append transactions of one sequence -/

section
variable {K V TK TV : Type}

/-- A token's rows, one for each layer. -/
abbrev TokenRows (K V : Type) := Nat → KvRow K V

/-- An open reservation: the pages of the sequence with the new ones, the rows that the
caller appends, and how many of them each layer has. -/
structure Reservation (K V : Type) where
  transaction : PageTransaction (TailSnapshot K V)
  slots : List Nat
  rows : List (TokenRows K V)
  appended : Nat → Nat

/-- A sequence over the backend. -/
structure PagedSequence (K V TK TV : Type) where
  backend : PageBackend (TailSnapshot K V)
  pools : KvPools K V TK TV
  pageTable : PageTable
  slots : List Nat
  position : Nat
  reservation : Option (Reservation K V)

inductive Action (K V TK TV : Type) where
  | reserve (pages : List BackendAppendPage) (rows : List (TokenRows K V))
  | append (layer : Nat) (chunk : Chunk)
  | commit (rows : Nat)
  | abort
  /-- Another sequence of the backend moves on. -/
  | elsewhere (backend : PageBackend (TailSnapshot K V)) (pools : KvPools K V TK TV)

def pagesFor (tokens : Nat) : Nat := (tokens + (sm12xKvPageTokens - 1)) / sm12xKvPageTokens

/-- The slots of the pages that a reservation adds. -/
def newSlots (pages : List BackendAppendPage) : List Nat :=
  (pages.filter fun page => !page.existedBeforeReservation).map fun page => page.page.slot

/-- What `seqcache` hands to `commit_append`. -/
def commitOf (s : PagedSequence K V TK TV) (r : Reservation K V) (rows : Nat) :
    BackendAppendCommit :=
  let pages := r.slots.map Sm12xPage.mk
  let position := s.position + rows
  { committedPages := pages.take (pagesFor position)
    sealedPages := (pages.take (position / sm12xKvPageTokens)).drop
      (s.position / sm12xKvPageTokens)
    releasedPages := pages.drop (pagesFor position)
    rows := rows
    position := position }

section
variable [Inhabited K] [Inhabited V] (pack : Packing K V TK TV)

/-- One call of the sequence's caller; `none` if it is out of order or fails. -/
def step (s : PagedSequence K V TK TV) : Action K V TK TV → Option (PagedSequence K V TK TV)
  | .reserve pages rows =>
    match s.reservation, s.backend.prepareAppend (kvDevice K V TK TV) pages s.pools with
    | none, (.ok transaction, backend, pools) =>
      some { s with
        backend := backend
        pools := pools
        reservation := some ⟨transaction, s.slots ++ newSlots pages, rows, fun _ => 0⟩ }
    | _, _ => none
  | .append layer chunk =>
    match s.reservation with
    | none => none
    | some r =>
      let start := s.position + r.appended layer
      match r.slots[start / sm12xKvPageTokens]? with
      | none => none
      | some slot =>
        if chunk.count = 0 ∨ start % sm12xKvPageTokens + chunk.count > sm12xKvPageTokens ∨
            r.rows.length < r.appended layer + chunk.count then none
        else
          let rows := ((r.rows.drop (r.appended layer)).take chunk.count).map (· layer)
          some { s with
            pools := s.pools.set layer slot
              (chunk.perform pack (s.pools layer slot) (start % sm12xKvPageTokens) rows)
            reservation := some { r with
              appended := update r.appended layer (r.appended layer + chunk.count) } }
  | .commit rows =>
    match s.reservation with
    | none => none
    | some r =>
      if rows ≤ r.rows.length ∧ ∀ layer < s.backend.pools.length,
          s.backend.pools[layer]? = some true → r.appended layer = r.rows.length then
        let commit := commitOf s r rows
        match PageBackend.commitAppend (kvDevice K V TK TV)
            ⟨s.backend, r.transaction, ⟨s.pools, s.pageTable⟩⟩ commit with
        | (.ok (), after) =>
          some {
            backend := after.backend
            pools := after.context.device
            pageTable := after.context.pageTable
            slots := r.slots.take (pagesFor commit.position)
            position := commit.position
            reservation := none
          }
        | (.error _, _) => none
      else none
  | .abort =>
    match s.reservation with
    | none => none
    | some r =>
      let pages := r.slots.map Sm12xPage.mk
      match PageBackend.abortAppend (kvDevice K V TK TV)
          ⟨s.backend, r.transaction, ⟨s.pools, s.pageTable⟩⟩ (pages.take (pagesFor s.position))
          (pages.drop (pagesFor s.position)) s.position with
      | (.ok (), after) =>
        some { s with
          backend := after.backend
          pools := after.context.device
          pageTable := after.context.pageTable
          slots := r.slots.take (pagesFor s.position)
          reservation := none }
      | (.error _, _) => none
  | .elsewhere backend pools => some { s with backend := backend, pools := pools }

end

/-- The rows that an action commits. -/
def committedRows (s : PagedSequence K V TK TV) : Action K V TK TV → List (TokenRows K V)
  | .commit rows => (s.reservation.map fun r => r.rows.take rows).getD []
  | _ => []

end

end Eider.Source.Sm12x
