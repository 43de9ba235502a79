import Eider.Source.Deepseek4.ExpertStore
import Eider.Source.GgufQuant

/-!
The disk artifact of one prepared NVFP4 linear (`eider-format/src/nvfp4_artifact.rs`).

An `Nvfp4Artifact` has the fields of a linear record; its scalars are known by their bits. A
file has fewer than `2 ^ 63` bytes.
-/
namespace Eider.Source.Nvfp4Artifact
open Lib.ByteReader
open Source.Deepseek4 (Linear isFinite leF32)
open Source.GgufQuant (QuantError)

def magicBytes : List UInt8 := [69, 73, 68, 78, 86, 70, 52, 0]

def version : Nat := 1

def headerBytes : Nat := 60

def artifactIoError (action path error : String) : QuantError :=
  .format "NVFP4 artifact" s!"failed to {action} {path}: {error}"

def validate (record : Linear) : Except QuantError Unit :=
  let elements := record.outFeatures * record.inFeatures
  let shape := s!"out_features={record.outFeatures} in_features={record.inFeatures}"
  if record.outFeatures = 0 ∨ record.inFeatures = 0 ∨ record.inFeatures % 16 ≠ 0 then
    .error (.shape "NVFP4 artifact" "non-zero dimensions and input width divisible by 16" shape)
  else if 2 ^ 64 ≤ elements then
    .error (.shape "NVFP4 artifact" "out_features * in_features without overflow" shape)
  else if record.packedWeight.length ≠ elements / 2 ∨
      record.weightScale.length ≠ elements / 16 then
    .error (.shape "NVFP4 artifact" s!"weight={elements / 2} scales={elements / 16}"
      s!"weight={record.packedWeight.length} scales={record.weightScale.length}")
  else if record.tensor = "" ∨ isFinite record.weightScale2 = false ∨
      isFinite record.inputScale = false then
    .error (.format "NVFP4 artifact" (s!"expected a prefix and finite scales, got prefix="
      ++ s!"{record.tensor.quote} weight_scale_2={record.weightScale2} "
      ++ s!"input_scale={record.inputScale}"))
  else .ok ()

def stringBytes (s : String) : List UInt8 := s.toByteArray.data.toList

/-- The bytes that the calls of `write_to` add up to. -/
def encode (record : Linear) : List UInt8 :=
  magicBytes ++ (toLeBytes 4 version ++
    ([record.outFeatures, record.inFeatures, record.packedWeight.length,
      record.weightScale.length, (stringBytes record.tensor).length].flatMap (toLeBytes 8) ++
    (leF32 record.weightScale2 ++ (leF32 record.inputScale ++
      (stringBytes record.tensor ++ (record.packedWeight ++ record.weightScale))))))

/-- `write_to` a path, on a disk with room. -/
def writeTo (path : String) (record : Linear) : Except QuantError (List UInt8) := do
  validate record
  if (encode record).length < 2 ^ 63 then return encode record
  else throw (artifactIoError "write" path "File too large (os error 27)")

section
variable (path : String)

def eof : QuantError := artifactIoError "read" path "failed to fill whole buffer"

def readUsize : Reading QuantError Nat := readLe 8 (eof path)

def readF32 : Reading QuantError UInt32 := UInt32.ofNat <$> readLe 4 (eof path)

/-- What `read_from` reads of a file of the length. -/
def readRecord (fileLen : Nat) : Reading QuantError Linear := do
  let magic ← readExact 8 (eof path)
  let stored ← readLe 4 (eof path)
  ensure (magic = magicBytes ∧ stored = version)
    (.format "NVFP4 artifact" s!"invalid header in {path}")
  let outFeatures ← readUsize path
  let inFeatures ← readUsize path
  let packedLen ← readUsize path
  let scaleLen ← readUsize path
  let tensorLen ← readUsize path
  let weightScale2 ← readF32 path
  let inputScale ← readF32 path
  let expectedLen := headerBytes + tensorLen + packedLen + scaleLen
  ensure (expectedLen < 2 ^ 64) (.format "NVFP4 artifact" s!"payload length overflow in {path}")
  ensure (fileLen = expectedLen)
    (.format "NVFP4 artifact" s!"expected {expectedLen} bytes in {path}, got {fileLen}")
  request tensorLen
  request packedLen
  request scaleLen
  let tensor ← readExact tensorLen (eof path)
  let packedWeight ← readExact packedLen (eof path)
  let weightScale ← readExact scaleLen (eof path)
  let tensor ← okOr (String.fromUTF8? ⟨tensor.toArray⟩)
    (.format "NVFP4 artifact" s!"non-UTF-8 prefix in {path}")
  let record : Linear :=
    ⟨tensor, outFeatures, inFeatures, packedWeight, weightScale, weightScale2, inputScale⟩
  match validate record with
  | .ok () => return record
  | .error e => fail e

def readFrom : Reading QuantError Linear := do
  let fileLen ← fileLength
  readRecord path fileLen

end

end Eider.Source.Nvfp4Artifact
