import Mathlib.Algebra.GroupWithZero.Nat
import Mathlib.Order.Nat

/-!
The decoding of K-quantized GGML tensors (`eider-format/src/gguf_quant.rs`).

Arithmetic on `f32` is a parameter: values are of a type `F`, with their bits. The conversions
from half precision and to BF16 are the source's own, on these bits. A byte is a `BitVec 8`.
-/
namespace Eider.Source.GgufQuant

/-- `Error`, as far as these functions return it. -/
inductive QuantError where
  | shape (label expected actual : String)
  | format (label detail : String)
deriving DecidableEq, Repr

/-- What the decoders use of `f32`. -/
structure FloatOps (F : Type) where
  ofBits : BitVec 32 → F
  toBits : F → BitVec 32
  mul : F → F → F
  sub : F → F → F
  ofInt : Int → F

def ggmlTypeQ4K : Nat := 12
def ggmlTypeQ6K : Nat := 14

def qkK : Nat := 256
def q4KBlockBytes : Nat := 144
def q6KBlockBytes : Nat := 210

def quantizedByteLen (kind elements : Nat) : Except QuantError Nat := do
  if elements % qkK ≠ 0 then
    throw (.shape "GGML K-quant tensor" s!"element count divisible by {qkK}"
      s!"{elements} elements")
  let blockBytes ←
    if kind = ggmlTypeQ4K then pure q4KBlockBytes
    else if kind = ggmlTypeQ6K then pure q6KBlockBytes
    else throw (.format "GGML K-quant tensor" s!"unsupported tensor type {kind}")
  if elements / qkK * blockBytes < 2 ^ 64 then return elements / qkK * blockBytes
  else throw (.shape "GGML K-quant tensor" "packed byte length without overflow"
    s!"{elements} elements of type {kind}")

def byteAt (bytes : List (BitVec 8)) (index : Nat) : BitVec 8 := bytes.getD index 0

/-- `u16::from_le_bytes` at an index. -/
def halfAt (bytes : List (BitVec 8)) (index : Nat) : BitVec 16 :=
  byteAt bytes (index + 1) ++ byteAt bytes index

def chunksExact (size : Nat) (bytes : List (BitVec 8)) : List (List (BitVec 8)) :=
  (List.range (bytes.length / size)).map fun chunk => (bytes.drop (chunk * size)).take size

def q4KScaleMin (index : Nat) (packed : List (BitVec 8)) : BitVec 8 × BitVec 8 :=
  if index < 4 then (byteAt packed index &&& 63#8, byteAt packed (index + 4) &&& 63#8)
  else
    ((byteAt packed (index + 4) &&& 0x0f#8) ||| ((byteAt packed (index - 4) >>> 6) <<< 4),
      (byteAt packed (index + 4) >>> 4) ||| ((byteAt packed index >>> 6) <<< 4))

section
variable {F : Type} (ops : FloatOps F)

/-- The bits of `f16_to_f32`. -/
def f16Bits (value : BitVec 16) : BitVec 32 :=
  let sign := (value &&& 0x8000#16).setWidth 32 <<< 16
  let exponent := (value >>> 10) &&& 0x1f#16
  let fraction := (value &&& 0x03ff#16).setWidth 32
  if exponent = 0 then
    if fraction = 0 then sign
    else
      let leading := fraction.clz - 22
      let normalized := (fraction <<< (leading + 1)) &&& 0x03ff#32
      let exponent := 112 - leading
      sign ||| (exponent <<< 23) ||| (normalized <<< 13)
  else if exponent = 0x1f then sign ||| 0x7f800000#32 ||| (fraction <<< 13)
  else sign ||| ((exponent.setWidth 32 + 112) <<< 23) ||| (fraction <<< 13)

def f16ToF32 (value : BitVec 16) : F := ops.ofBits (f16Bits value)

def f32ToBf16 (value : F) : BitVec 16 :=
  let bits := ops.toBits value
  let roundingBias := ((bits >>> 16) &&& 1) + 0x7fff#32
  ((bits + roundingBias) >>> 16).setWidth 16

def ofU8 (value : BitVec 8) : F := ops.ofInt value.toNat

/-- `dequantize_q4_k_block`: what it emits, in order. -/
def dequantizeQ4KBlock (block : List (BitVec 8)) : List F :=
  let d := f16ToF32 ops (halfAt block 0)
  let dmin := f16ToF32 ops (halfAt block 2)
  let scales := (block.take 16).drop 4
  let quants := block.drop 16
  (List.range 4).flatMap fun group =>
    let low := q4KScaleMin (group * 2) scales
    let high := q4KScaleMin (group * 2 + 1) scales
    let packed := (quants.drop (group * 32)).take 32
    let deltaLow := ops.mul d (ofU8 ops low.1)
    let offsetLow := ops.mul dmin (ofU8 ops low.2)
    let deltaHigh := ops.mul d (ofU8 ops high.1)
    let offsetHigh := ops.mul dmin (ofU8 ops high.2)
    packed.map (fun (quant : BitVec 8) =>
        ops.sub (ops.mul deltaLow (ofU8 ops (quant &&& 0x0f#8))) offsetLow) ++
      packed.map fun (quant : BitVec 8) =>
        ops.sub (ops.mul deltaHigh (ofU8 ops (quant >>> 4))) offsetHigh

def encodeScaledQ6 (delta : F) (scale : BitVec 8) (quant : Int) : BitVec 16 :=
  f32ToBf16 ops (ops.mul (ops.mul delta (ops.ofInt scale.toInt)) (ops.ofInt quant))

/-- The writes of one lane of a half, with the indices inside the half. -/
def q6KLane (d : F) (ql qh scales : List (BitVec 8)) (lane : Nat) : List (Nat × BitVec 16) :=
  let scaleIndex := lane / 16
  let code (bits : BitVec 8) : Int := (bits.toNat : Int) - 32
  let q1 := code ((byteAt ql lane &&& 0x0f#8) ||| ((byteAt qh lane &&& 3#8) <<< 4))
  let q2 := code ((byteAt ql (lane + 32) &&& 0x0f#8) ||| (((byteAt qh lane >>> 2) &&& 3#8) <<< 4))
  let q3 := code ((byteAt ql lane >>> 4) ||| (((byteAt qh lane >>> 4) &&& 3#8) <<< 4))
  let q4 := code ((byteAt ql (lane + 32) >>> 4) ||| (((byteAt qh lane >>> 6) &&& 3#8) <<< 4))
  [(lane, encodeScaledQ6 ops d (byteAt scales scaleIndex) q1),
    (lane + 32, encodeScaledQ6 ops d (byteAt scales (scaleIndex + 2)) q2),
    (lane + 64, encodeScaledQ6 ops d (byteAt scales (scaleIndex + 4)) q3),
    (lane + 96, encodeScaledQ6 ops d (byteAt scales (scaleIndex + 6)) q4)]

/-- `dequantize_q6_k_block`, into the slice of a block. -/
def dequantizeQ6KBlock (block : List (BitVec 8)) (output : List (BitVec 16)) : List (BitVec 16) :=
  let ql := block.take 128
  let qh := (block.take 192).drop 128
  let scales := (block.take 208).drop 192
  let d := f16ToF32 ops (halfAt block 208)
  let writes := (List.range 2).flatMap fun half => (List.range 32).flatMap fun lane =>
    (q6KLane ops d (ql.drop (half * 64)) (qh.drop (half * 32)) (scales.drop (half * 8)) lane).map
      fun write => (half * 128 + write.1, write.2)
  writes.foldl (fun output write => output.set write.1 write.2) output

/-- `dequantize_to_bf16`. The slices that the blocks of Q6_K are decoded into follow each
other. -/
def dequantizeToBf16 (kind : Nat) (bytes : List (BitVec 8)) (elements : Nat) :
    Except QuantError (List (BitVec 16)) := do
  let expected ← quantizedByteLen kind elements
  if bytes.length ≠ expected then
    throw (.shape "GGML K-quant tensor bytes" s!"{expected} bytes" s!"{bytes.length} bytes")
  if kind = ggmlTypeQ4K then
    return (chunksExact q4KBlockBytes bytes).flatMap fun block =>
      (dequantizeQ4KBlock ops block).map (f32ToBf16 ops)
  else
    return (chunksExact q6KBlockBytes bytes).flatMap fun block =>
      dequantizeQ6KBlock ops block (List.replicate qkK 0)

end

end Eider.Source.GgufQuant
