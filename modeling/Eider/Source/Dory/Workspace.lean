import Eider.Source.DoryPrefix

/-!
The prefill workspace of Dory and the scratch of its attention (`infer/src/dory/mod.rs`,
lines 204 to 272, `infer/src/dory/config.rs`, 49 to 100, and
`eider-cuda/src/kernels/dory.rs`, 308 to 380).

`flash` stands for `cfg!(eider_flash_attention)`, the kind of the build. Of the
checkpoint configuration only the widths are read here.
-/
namespace Eider.Source.Dory

def usizeMax : Nat := 2 ^ 64 - 1

def saturatingMul (a b : Nat) : Nat := min (a * b) usizeMax

def saturatingAdd (a b : Nat) : Nat := min (a + b) usizeMax

def divCeil (a b : Nat) : Nat := (a + (b - 1)) / b

/-- The widths of `DoryConfig`. -/
structure DoryConfig where
  hiddenSize : Nat
  intermediateSize : Nat
  headDim : Nat
  numAttentionHeads : Nat
  numKeyValueHeads : Nat
  maxPositionEmbeddings : Nat
deriving DecidableEq, Repr

/-- The bounds that `DoryConfig::validate` sets on the widths. -/
def DoryConfig.validWidths (c : DoryConfig) : Bool :=
  c.headDim == 256 && c.numKeyValueHeads != 0 && c.numAttentionHeads != 0 &&
    c.numAttentionHeads % c.numKeyValueHeads == 0 && decide (c.numAttentionHeads ≤ 32) &&
    c.maxPositionEmbeddings != 0 && decide (c.maxPositionEmbeddings ≤ 262144) &&
    [c.hiddenSize, c.intermediateSize].all fun n => n != 0 && decide (n ≤ 8192) && n % 64 == 0

/-- The context splits of the fallback kernel. -/
def attentionSplits (capacity window : Nat) : Nat :=
  divCeil (min capacity (if window = 0 then capacity else window)) 256

def doryAttentionWorkspaceLen (flash : Bool) (rows qheads capacity window : Nat) : Nat :=
  if flash && rows == 1 && decide (qheads ≤ 64) then 8 * qheads * 257 + qheads + 2
  else if flash && decide (16 ≤ rows) then saturatingAdd (saturatingMul rows qheads) 1
  else
    saturatingMul (saturatingMul (saturatingMul rows qheads) (attentionSplits capacity window)) 258

/-- The lengths of the buffers of an attention call. -/
structure AttentionBuffers where
  query : Nat
  key : Nat
  value : Nat
  cacheKey : Nat
  cacheValue : Nat
  scratch : Nat
  output : Nat
  position : Nat
deriving Repr

/-- `dory_attention`; `launch` is what the kernel returns. -/
def doryAttention (flash : Bool) (b : AttentionBuffers) (rows qheads kvheads capacity window : Nat)
    (launch : Except CudaError Unit) : Except CudaError Unit :=
  let splits := attentionSplits capacity window
  let qn := saturatingMul (saturatingMul rows qheads) 256
  let kn := saturatingMul (saturatingMul rows kvheads) 256
  let cn := saturatingMul (saturatingMul capacity kvheads) 256
  let pn := doryAttentionWorkspaceLen flash rows qheads capacity window
  if rows = 0 ∨ capacity < rows ∨ 65535 < rows ∨ 65535 < splits ∨ 2 ^ 32 - 1 < window ∨
      2 ^ 32 - 1 < capacity ∨ kvheads = 0 ∨ qheads = 0 ∨ qheads % kvheads ≠ 0 ∨ 2 ^ 32 - 1 < qn ∨
      2 ^ 32 - 1 < cn ∨ b.query < qn ∨ b.key < kn ∨ b.value < kn ∨ b.output < qn ∨
      b.cacheKey < cn ∨ b.cacheValue < cn ∨ b.scratch < pn ∨ b.position ≠ 1 then
    .error (invalid "attention dimensions")
  else launch

/-- `DoryPrefillWorkspace`: its identity, its capacity and the length of `partial`. -/
structure DoryPrefillWorkspace where
  identity : Nat
  capacity : Nat
  scratch : Nat
deriving DecidableEq, Repr

namespace DoryPrefillWorkspace

def attentionWorkspaceLen (flash : Bool) (c : DoryConfig) (rows context : Nat) : Nat :=
  max (doryAttentionWorkspaceLen flash rows c.numAttentionHeads context 0)
    (doryAttentionWorkspaceLen flash (min rows 15) c.numAttentionHeads context 0)

/-- The lengths of the buffers that `new` allocates ahead of `partial`. -/
def bufferLengths (c : DoryConfig) (rows : Nat) : List Nat :=
  let h := c.hiddenSize
  let q := c.numAttentionHeads * 256
  let k := c.numKeyValueHeads * 256
  let f := c.intermediateSize
  [rows, 1, 1, rows * h, rows * h, rows * h, rows * h, rows * q, rows * q, rows * k, rows * k,
    rows * k, rows * max f q, rows * f, rows * max f q, rows * max f q]

/-- `new`; `alloc` is what `DeviceBuffer::zeroed` returns for a length, and `gemm` what
`PrefillGemm::new` returns. -/
def new (flash : Bool) (gemm : Except CudaError Unit) (alloc : Nat → Except CudaError Unit)
    (identity : Nat) (c : DoryConfig) (rows context : Nat) :
    Except CudaError DoryPrefillWorkspace := do
  if rows = 0 ∨ 65535 < rows then throw (invalid "invalid prompt chunk capacity")
  gemm
  (bufferLengths c rows).forM alloc
  let scratch := attentionWorkspaceLen flash c rows context
  alloc scratch
  return ⟨identity, rows, scratch⟩

def reserveAttention (flash : Bool) (alloc : Nat → Except CudaError Unit) (identity : Nat)
    (c : DoryConfig) (w : DoryPrefillWorkspace) (context : Nat) :
    Except CudaError Unit × DoryPrefillWorkspace :=
  let n := attentionWorkspaceLen flash c w.capacity context
  if w.scratch < n then
    match alloc n with
    | .error e => (.error e, w)
    | .ok () => (.ok (), { w with scratch := n, identity := identity })
  else (.ok (), w)

end DoryPrefillWorkspace

end Eider.Source.Dory
