import Eider.Source.Deepseek4.ExpertStore
import Eider.Source.GgufQuant

/-!
Host records of ModelOpt NVFP4 weights (`eider-format/src/modelopt.rs`, lines 649 to 757, 903 to
912, 1147 to 1161 and 1253 to 1264; `eider-format/src/gguf_nvfp4.rs`; `eider-cuda/src/format.rs`,
lines 36 to 38 and 194 to 217).

An `f32` in a record is known by its bits. The length of an allocated layout is below `2 ^ 63`,
and then no index or offset wraps (`scales_fit_usize`).
-/
namespace Eider.Source.ModelOpt
open Lib
open Source.GgufQuant (QuantError)
open Source.Deepseek4 (Linear isFinite)

def divCeil (a b : Nat) : Nat := (a + (b - 1)) / b

/-! ## Scales for cuBLASLt -/

def cublasltScaleLayoutLen (outer inner : Nat) : Nat :=
  let blocks := divCeil inner 16
  let inner := divCeil blocks 4 * 4
  divCeil outer 128 * 128 * inner

def cublasltScaleOffset (outer block inner : Nat) : Nat :=
  let blocks := divCeil inner 16
  let paddedBlocks := divCeil blocks 4 * 4
  let tileBase := (block / 4 * 4 + outer / 128 * paddedBlocks) * 128
  tileBase + outer % 32 * 16 + outer % 128 / 32 * 4 + block % 4

/-- The double loop over rows and blocks; an index out of range ends it. -/
def modeloptScalesToCublaslt (outFeatures inFeatures : Nat) (scales : List UInt8) :
    Option (List UInt8) :=
  let blocks := inFeatures / 16
  (List.range outFeatures).foldlM (fun packed out =>
    (List.range blocks).foldlM (fun packed block => do
      let scale ← scales[out * blocks + block]?
      let offset := cublasltScaleOffset out block inFeatures
      if offset < packed.length then some (packed.set offset scale) else none) packed)
    (List.replicate (cublasltScaleLayoutLen outFeatures inFeatures) 0)

def roundUp (value multiple : Nat) : Nat := divCeil value multiple * multiple

def ue4m3ScaleLayoutLen (outerDim innerDim : Nat) : Nat :=
  let innerScaleBlocks := divCeil innerDim 16
  let sfInnerDim := roundUp innerScaleBlocks 4
  roundUp outerDim 128 * sfInnerDim

def ue4m3TiledScaleOffset (outer innerBlock innerDim : Nat) : Nat :=
  let innerScaleBlocks := divCeil innerDim 16
  let sfInnerDim := roundUp innerScaleBlocks 4
  let tileOuter := outer / 128
  let outerInTile := outer % 128
  let tileInner := innerBlock / 4
  let innerInTile := innerBlock % 4
  let tileBase := (tileInner * 4 + tileOuter * sfInnerDim) * 128
  tileBase + outerInTile % 32 * 16 + outerInTile / 32 * 4 + innerInTile

/-! ## Nibbles -/

def lowNibble (byte : UInt8) : UInt8 := byte &&& (0x0f : UInt8)

def highNibble (byte : UInt8) : UInt8 := byte >>> (4 : UInt8)

/-- The code that the loop of `dequantize_to_f32_col_major` reads for an element. -/
def nibbleAt (packed : List UInt8) (flat : Nat) : UInt8 :=
  if flat % 2 = 0 then lowNibble (packed.getD (flat / 2) 0)
  else highNibble (packed.getD (flat / 2) 0)

/-! ## GGUF NVFP4 -/

variable (bytes : List UInt8)

/-- The 36 bytes of a block. -/
def ggufBlock (blockIndex : Nat) : List UInt8 :=
  (bytes.drop (blockIndex * 36)).take 36

/-- What the loops over the groups of a block write. -/
def blockWrites (blockIndex : Nat) (block : List UInt8) : List (Nat × UInt8) :=
  (List.range 4).flatMap fun group =>
    let source := (block.drop (4 + group * 8)).take 8
    let target := blockIndex * 32 + group * 8
    (List.range 4).flatMap fun j =>
      [(target + j, lowNibble (source.getD (2 * j) 0) |||
          lowNibble (source.getD (2 * j + 1) 0) <<< (4 : UInt8)),
        (target + (j + 4), highNibble (source.getD (2 * j) 0) |||
          (source.getD (2 * j + 1) 0 &&& (0xf0 : UInt8)))]

/-- The body of the loop over the blocks, on `packed_weight` and `weight_scale`. -/
def unpackBlock (out : List UInt8 × List UInt8) (blockIndex : Nat) :
    Except QuantError (List UInt8 × List UInt8) :=
  let block := ggufBlock bytes blockIndex
  -- UE4M3 has no sign, and 0x7f is not a finite scale.
  if (block.take 4).any fun scale => 0x7f ≤ scale.toNat then
    .error (.format "GGUF NVFP4" s!"invalid UE4M3 scale in block {blockIndex}")
  else .ok (writeAll (blockWrites blockIndex block) out.1, out.2 ++ block.take 4)

def unpackGgufNvfp4 (outFeatures inFeatures : Nat) (globalScale : UInt32) :
    Except QuantError Linear :=
  let elements := outFeatures * inFeatures
  if 2 ^ 64 ≤ elements then .error (.format "GGUF NVFP4" "shape overflow")
  else if outFeatures = 0 ∨ inFeatures = 0 ∨ inFeatures % 64 ≠ 0 ∨
      bytes.length ≠ elements / 64 * 36 ∨ isFinite globalScale = false ∨
      -- a finite number is at most zero if it has a sign or is zero
      2 ^ 31 ≤ globalScale.toNat ∨ globalScale = 0 then
    .error (.format "GGUF NVFP4" (s!"invalid {outFeatures}x{inFeatures} NVFP4 record: "
      ++ s!"{bytes.length} bytes, scale {globalScale}"))
  else do
    let out ← (List.range (bytes.length / 36)).foldlM (unpackBlock bytes)
      (List.replicate (elements / 2) 0, [])
    return ⟨"", outFeatures, inFeatures, out.1, out.2, globalScale, 0x3f800000⟩

end Eider.Source.ModelOpt
