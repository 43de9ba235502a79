import Eider.Source.Dory.Workspace

/-!
The plan of a packed decision wave (`eider-cuda/src/kernels/dory/branches.rs`, lines 40
to 200): which physical rows the packed queries are written to, and the page table
through which each segment reads.

An index out of range panics; `none` stands for that.
-/
namespace Eider.Source.Dory

/-- `as u32`. -/
def asU32 (n : Nat) : Nat := n % 2 ^ 32

/-- The errors of `eider-cuda/src/kernels/dory.rs`. -/
def invalidKernel (detail : String) : CudaError := .format "Dory kernel" detail

structure DoryBranchPlan where
  prefixLen : Nat
  prefixRows : Nat
  rows : Nat
  maxRows : Nat
  capacity : Nat
  stride : Nat
  positions : List Nat
  destinations : List Nat
  offsets : List Nat
  lengths : List Nat
  pages : List Nat
deriving DecidableEq, Repr

/-- The vectors that `new` fills. -/
structure PlanBuild where
  pages : List Nat
  positions : List Nat
  destinations : List Nat
  offsets : List Nat
  used : List Nat
  nextPage : Nat

def overwrite (pages : List Nat) (start : Nat) (values : List Nat) : List Nat :=
  pages.mapIdx fun i page => if start ≤ i then values.getD (i - start) page else page

/-- Writes values into the table of a segment, from an index on. -/
def writeTable (pages : List Nat) (stride segment start : Nat) (values : List Nat) :
    Option (List Nat) :=
  if (segment + 1) * stride ≤ pages.length ∧ start + values.length ≤ stride then
    some (overwrite pages (segment * stride + start) values)
  else none

/-- The pages that a branch of a length takes behind the full pages of the prefix. -/
def pageCount (prefixLen length : Nat) : Nat := divCeil (prefixLen % 64 + length) 64

def addBranch (prefixLen stride prefixSegments branch length : Nat) (b : PlanBuild) :
    Option PlanBuild := do
  let segment := branch + prefixSegments
  let pages ← writeTable b.pages stride segment 0 ((List.range (prefixLen / 64)).map asU32)
  let count := pageCount prefixLen length
  let pages ← writeTable pages stride segment (prefixLen / 64)
    ((List.range count).map fun page => asU32 (b.nextPage + page))
  let positions := b.positions ++ (List.range length).map fun row => asU32 (prefixLen + row)
  some {
    pages := pages
    positions := positions
    destinations := b.destinations ++ (List.range length).map fun row =>
      asU32 (b.nextPage * 64 + prefixLen % 64 + row)
    offsets := b.offsets ++ [asU32 positions.length]
    used := b.used ++ [asU32 (prefixLen + length)]
    nextPage := b.nextPage + count }

def addBranches (prefixLen stride prefixSegments : Nat) :
    Nat → List Nat → PlanBuild → Option PlanBuild
  | _, [], b => some b
  | branch, length :: rest, b => do
    let b ← addBranch prefixLen stride prefixSegments branch length b
    addBranches prefixLen stride prefixSegments (branch + 1) rest b

/-- The vectors ahead of the branches: the prefix is a segment of its own when its
queries are in the batch. -/
def startPlan (prefixLen prefixRows stride segments : Nat) : Option PlanBuild :=
  let pages := List.replicate (stride * segments) 0
  let nextPage := divCeil prefixLen 64
  if 0 < prefixRows then
    if nextPage ≤ pages.length then
      some {
        pages := overwrite pages 0 ((List.range nextPage).map asU32)
        positions := List.range (asU32 prefixLen)
        destinations := List.range (asU32 prefixLen)
        offsets := [0, asU32 prefixLen]
        used := [asU32 prefixLen]
        nextPage := nextPage }
    else none
  else some ⟨pages, [], [], [0], [], nextPage⟩

namespace DoryBranchPlan

/-- `new`; `supported` stands for `DoryBranchPlan::supported()`, and `fromHost` for what
`DeviceBuffer::from_host` returns for a length. -/
def new (supported : Bool) (fromHost : Nat → Except CudaError Unit) (prefixLen : Nat)
    (lengths : List Nat) (includePrefix : Bool) : Option (Except CudaError DoryBranchPlan) :=
  let prefixRows := if includePrefix then prefixLen else 0
  let rows := prefixRows + lengths.sum
  if 2 ^ 64 ≤ rows then some (.error (invalidKernel "branch row count overflow"))
  else if !supported ∨ 1048576 < prefixLen ∨ rows = 0 ∨ 65535 < rows ∨ lengths = [] ∨
      64 < lengths.length ∨ 0 ∈ lengths then
    some (.error (invalidKernel "branch dimensions or FlashAttention support"))
  else do
    let maxSuffix := lengths.foldl max 0
    let stride := divCeil (prefixLen + maxSuffix) 64
    let prefixSegments := if 0 < prefixRows then 1 else 0
    let b ← startPlan prefixLen prefixRows stride (lengths.length + prefixSegments)
    let b ← addBranches prefixLen stride prefixSegments 0 lengths b
    some do
      [b.positions, b.destinations, b.offsets, b.used, b.pages].forM fun v => fromHost v.length
      return {
        prefixLen := prefixLen
        prefixRows := prefixRows
        rows := rows
        maxRows := max maxSuffix prefixRows
        capacity := b.nextPage * 64
        stride := stride
        positions := b.positions
        destinations := b.destinations
        offsets := b.offsets
        lengths := b.used
        pages := b.pages }

def branches (p : DoryBranchPlan) : Nat :=
  p.lengths.length - if 0 < p.prefixRows then 1 else 0

/-- The physical row that the page table of a segment gives for an absolute position. -/
def address (p : DoryBranchPlan) (segment position : Nat) : Nat :=
  p.pages.getD (segment * p.stride + position / 64) 0 * 64 + position % 64

end DoryBranchPlan

end Eider.Source.Dory
