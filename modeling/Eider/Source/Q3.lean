import Eider.Source.GgufQuant

/-!
The blockwise Q3 format (`eider-cuda/src/q3.rs`).

Arithmetic on `f32` and `f64` is a parameter. A slice is indexed within its bounds or the result
is the error `none`.
-/
namespace Eider.Source.Q3
open Source.GgufQuant (FloatOps QuantError f32ToBf16)

def q3BlockSize : Nat := 128
def q3ScaleRefinementSteps : Nat := 5

/-- What the quantization uses besides of `f32`, and of `f64`, whose values are in `D`. -/
structure Q3Floats (F D : Type) extends FloatOps F where
  half : F
  add : F → F → F
  div : F → F → F
  abs : F → F
  max : F → F → F
  isFinite : F → Bool
  eqZero : F → Bool
  leZero : F → Bool
  roundToI32 : F → Int
  toF64 : F → D
  toF32 : D → F
  ofI32 : Int → D
  addF64 : D → D → D
  mulF64 : D → D → D
  divF64 : D → D → D

structure QuantizedQ3 where
  packedValues : List (BitVec 8)
  scales : List (BitVec 16)

abbrev Q3Result := Except (Option QuantError)

/-- A slice of `f32`: it has fewer than `2 ^ 63` bytes. -/
abbrev F32Slice (F : Type) := {values : List F // 4 * values.length < 2 ^ 63}

def index {α : Type} (slice : List α) (i : Nat) : Q3Result α :=
  match slice[i]? with
  | some value => .ok value
  | none => .error none

/-- `slice[i] |= bits`. -/
def orAt (slice : List (BitVec 8)) (i : Nat) (bits : BitVec 8) : Q3Result (List (BitVec 8)) :=
  if i < slice.length then .ok (slice.modify i (· ||| bits)) else .error none

def packQ3Code (packed : List (BitVec 8)) (index : Nat) (code : BitVec 8) :
    Q3Result (List (BitVec 8)) := do
  let bit := index * 3
  let byte := bit / 8
  let shift := bit % 8
  let value := (code &&& 0x07#8).setWidth 16 <<< shift
  let packed ← orAt packed byte (value.setWidth 8)
  if 5 < shift then orAt packed (byte + 1) ((value >>> 8).setWidth 8) else return packed

def unpackQ3Code (packed : List (BitVec 8)) (i : Nat) : Q3Result (BitVec 8) := do
  let bit := i * 3
  let byte := bit / 8
  let shift := bit % 8
  let low ← index packed byte
  let high := (packed[byte + 1]?).elim 0#16 fun value => value.setWidth 16 <<< 8
  return (((low.setWidth 16 ||| high) >>> shift) &&& 0x07#16).setWidth 8

def checkedMatrixLen (label : String) (rows cols : Nat) : Q3Result Nat :=
  if rows * cols < 2 ^ 64 then .ok (rows * cols)
  else .error (some (.shape label "rows * cols without overflow" s!"rows={rows} cols={cols}"))

section
variable {F D : Type} (ops : Q3Floats F D)

def bf16ToF32 (bits : BitVec 16) : F := ops.ofBits (bits.setWidth 32 <<< 16)

def q3Code (normalized : F) : BitVec 8 :=
  let rounded := ops.roundToI32 (ops.mul (ops.add normalized (ops.ofInt 7)) ops.half)
  BitVec.ofInt 8 (if rounded < 0 then 0 else if 7 < rounded then 7 else rounded)

def q3Level (normalized : F) : Int := (q3Code ops normalized).toNat * 2 - 7

/-- The refinement of the scale of a block. -/
def refineScale (values : List F) : Nat → F → F
  | 0, fittedScale => fittedScale
  | steps + 1, fittedScale =>
    let sums := values.foldl (fun (sums : D × D) value =>
        let level := ops.ofI32 (q3Level ops (ops.div value fittedScale))
        (ops.addF64 sums.1 (ops.mulF64 (ops.toF64 value) level),
          ops.addF64 sums.2 (ops.mulF64 level level))) (ops.ofI32 0, ops.ofI32 0)
    let nextScale := ops.toF32 (ops.divF64 sums.1 sums.2)
    if !ops.isFinite nextScale || ops.leZero nextScale then fittedScale
    else refineScale values steps nextScale

/-- The scale of a block. -/
def blockScale (values : List F) : BitVec 16 :=
  let maxAbs := values.foldl (fun maxAbs value => ops.max maxAbs (ops.abs value)) (ops.ofInt 0)
  let fittedScale := ops.div maxAbs (ops.ofInt 7)
  f32ToBf16 ops.toFloatOps (if ops.eqZero fittedScale then fittedScale
    else refineScale ops values q3ScaleRefinementSteps fittedScale)

/-- The code of a value behind the scale of its block. -/
def codeOf (scale value : F) : BitVec 8 :=
  q3Code ops (if ops.eqZero scale then ops.ofInt 0 else ops.div value scale)

def finiteValue (valueAt : Nat → Q3Result F) (flat : Nat) : Q3Result F := do
  let value ← valueAt flat
  if !ops.isFinite value then throw (some (.format "Q3 matrix" "weights must be finite"))
  return value

/-- One block of `quantize_q3_with`. -/
def quantizeBlock (valueAt : Nat → Q3Result F) (quantized : QuantizedQ3) (blockStart : Nat) :
    Q3Result QuantizedQ3 := do
  let values ← (List.range q3BlockSize).mapM fun offset =>
    finiteValue ops valueAt (blockStart + offset)
  let scaleBits := blockScale ops values
  let scale := bf16ToF32 ops scaleBits
  if !ops.isFinite scale then
    throw (some (.format "Q3 matrix" "quantized scale must be finite"))
  let packedValues ← values.zipIdx.foldlM (fun packed element =>
    packQ3Code packed (blockStart + element.2) (codeOf ops scale element.1)) quantized.packedValues
  return { packedValues, scales := quantized.scales ++ [scaleBits] }

def quantizeQ3With (rows cols : Nat) (valueAt : Nat → Q3Result F) : Q3Result QuantizedQ3 :=
  let blockStarts := (List.range rows).flatMap fun row =>
    (List.range (cols / q3BlockSize)).map fun block => row * cols + block * q3BlockSize
  blockStarts.foldlM (quantizeBlock ops valueAt)
    { packedValues := List.replicate (rows * cols * 3 / 8) 0, scales := [] }

def quantizeQ3RowMajor (rows cols : Nat) (values : F32Slice F) : Q3Result QuantizedQ3 := do
  let len ← checkedMatrixLen "Q3 matrix" rows cols
  if rows = 0 ∨ cols = 0 ∨ cols % q3BlockSize ≠ 0 ∨ values.1.length ≠ len then
    throw (some (.shape "Q3 matrix"
      s!"non-empty row-major values with cols divisible by {q3BlockSize}"
      s!"rows={rows} cols={cols} values={values.1.length}"))
  quantizeQ3With ops rows cols (index values.1)

def validateQuantized (rows cols : Nat) (quantized : QuantizedQ3) : Q3Result Unit := do
  let len ← checkedMatrixLen "Q3 matrix" rows cols
  let packedLen := len * 3 % 2 ^ 64 / 8
  if rows = 0 ∨ cols = 0 ∨ cols % q3BlockSize ≠ 0 ∨ quantized.packedValues.length ≠ packedLen ∨
      quantized.scales.length ≠ len / q3BlockSize ∨
      quantized.scales.any (fun scale => !ops.isFinite (bf16ToF32 ops scale)) then
    throw (some (.shape "Q3 matrix" (s!"rows > 0, cols divisible by {q3BlockSize}, "
        ++ s!"packed_values={packedLen} scales={len / q3BlockSize}")
      (s!"rows={rows} cols={cols} packed_values={quantized.packedValues.length} "
        ++ s!"scales={quantized.scales.length}")))

/-- One element of the decoded matrix. -/
def dequantizeAt (cols : Nat) (quantized : QuantizedQ3) (position : Nat × Nat) : Q3Result F := do
  let code ← unpackQ3Code quantized.packedValues (position.1 * cols + position.2)
  let scale ← index quantized.scales (position.1 * (cols / q3BlockSize) + position.2 / q3BlockSize)
  return ops.mul (ops.sub (ops.mul (ops.ofInt code.toNat) (ops.ofInt 2)) (ops.ofInt 7))
    (bf16ToF32 ops scale)

def dequantizeQ3RowMajor (rows cols : Nat) (quantized : QuantizedQ3) : Q3Result (List F) := do
  validateQuantized ops rows cols quantized
  let positions := (List.range rows).flatMap fun row =>
    (List.range cols).map fun col => (row, col)
  positions.mapM (dequantizeAt ops cols quantized)

end

end Eider.Source.Q3
