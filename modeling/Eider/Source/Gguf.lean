import Mathlib.Data.String.Basic
import Eider.Lib.BTreeMap
import Eider.Lib.ByteReader

/-!
The GGUF v3 index reader (`eider-format/src/gguf.rs`, lines 14 to 282 and 326 to 566).

The file is open and its bytes do not change; `stream_position` and `metadata` of an
open file do not fail. `requests` of the reader lists the buffers whose size is a
number of the file; vectors and maps that grow with what has been read are not
listed. The text of a `FromUtf8Error` is left out.
-/
namespace Eider.Source
open Lib Lib.ByteReader

/-- `eider_format::Error`. -/
inductive FormatError where
  | format (label detail : String)
  | utf8 (label : String) (bytes : List UInt8)
deriving DecidableEq, Repr

namespace Gguf

def magicBytes : List UInt8 := [71, 71, 85, 70]
def defaultAlignment : UInt64 := 32
def maxStringBytes : Nat := 16 * 1024 * 1024
def maxDimensions : Nat := 8
def maxRetainedArrayValues : Nat := 1024

/-- `size_of::<GgufTensor>()`: a string, a vector, a `u64` and a `u32`. -/
def tensorSize : Nat := 64

inductive GgufValue where
  | unsigned (value : UInt64)
  | signed (value : Int64)
  | float (value : Float)
  | bool (value : Bool)
  | string (value : String)
  | unsignedArray (values : List UInt64)
  | signedArray (values : List Int64)
  | floatArray (values : List Float)
  | boolArray (values : List Bool)
  | stringArray (values : List String)

def GgufValue.asU64 : GgufValue → Option UInt64
  | .unsigned value => some value
  | .signed value => if 0 ≤ value.toInt then some value.toUInt64 else none
  | _ => none

structure GgufTensor where
  name : String
  dimensions : List UInt64
  kind : UInt32
  offset : UInt64
deriving DecidableEq

structure GgufIndex where
  path : String
  metadata : BTreeMap String GgufValue
  tensors : BTreeMap String GgufTensor
  dataOffset : UInt64

def formatError (path operation error : String) : FormatError :=
  .format "GGUF file" s!"{path}: {operation}: {error}"

/-- What `read_exact` reports at the end of the file. -/
def eof : String := "failed to fill whole buffer"

section
variable (path : String)

def readU8 : Reading FormatError UInt8 :=
  UInt8.ofNat <$> readLe 1 (formatError path "read byte" eof)

def readI8 : Reading FormatError Int8 := UInt8.toInt8 <$> readU8 path

/-- `read_number!`. -/
def readNumber (width : Nat) : Reading FormatError Nat :=
  readLe width (formatError path "read number" eof)

def readU16 : Reading FormatError UInt16 := UInt16.ofNat <$> readNumber path 2
def readI16 : Reading FormatError Int16 := UInt16.toInt16 <$> readU16 path
def readU32 : Reading FormatError UInt32 := UInt32.ofNat <$> readNumber path 4
def readI32 : Reading FormatError Int32 := UInt32.toInt32 <$> readU32 path
def readF32 : Reading FormatError Float32 := Float32.ofBits <$> readU32 path
def readU64 : Reading FormatError UInt64 := UInt64.ofNat <$> readNumber path 8
def readI64 : Reading FormatError Int64 := UInt64.toInt64 <$> readU64 path
def readF64 : Reading FormatError Float := Float.ofBits <$> readU64 path

end

section
variable (path : String)

/-- The bytes of a string as `String::from_utf8` reads them. -/
def fromUtf8 (bytes : List UInt8) : Option String := String.fromUTF8? ⟨bytes.toArray⟩

def readString : Reading FormatError String := do
  let length ← readU64 path
  ensure (decide (length.toNat ≤ maxStringBytes))
    (.format "GGUF string" s!"{length} bytes exceed the {maxStringBytes} byte limit")
  request length.toNat
  let bytes ← readExact length.toNat (formatError path "read string" eof)
  okOr (fromUtf8 bytes) (.utf8 "GGUF string" bytes)

def skipBytes (bytes : Nat) : Reading FormatError Unit := do
  ensure (decide (bytes < 2 ^ 63))
    (.format "GGUF metadata array" s!"{bytes} bytes exceed seek range")
  seekForward bytes (formatError path "skip metadata array" "Invalid argument (os error 22)")

/-- The boolean of `read_metadata_value` and of `read_small_array`. -/
def readBool : Reading FormatError Bool := do
  let value ← readU8 path
  if value = 0 then pure false
  else if value = 1 then pure true
  else fail (.format "GGUF boolean" s!"invalid value {value}")

def nestedArray : FormatError := .format "GGUF metadata array" "nested arrays are invalid"

variable (elementKind : UInt32)

def unsupportedElement : FormatError :=
  .format "GGUF metadata array" s!"unsupported element type {elementKind}"

def readSmallArray (count : Nat) : Reading FormatError GgufValue :=
  match elementKind.toNat with
  | 0 => .unsignedArray <$> times count (UInt8.toUInt64 <$> readU8 path)
  | 2 => .unsignedArray <$> times count (UInt16.toUInt64 <$> readU16 path)
  | 4 => .unsignedArray <$> times count (UInt32.toUInt64 <$> readU32 path)
  | 10 => .unsignedArray <$> times count (readU64 path)
  | 1 => .signedArray <$> times count (Int8.toInt64 <$> readI8 path)
  | 3 => .signedArray <$> times count (Int16.toInt64 <$> readI16 path)
  | 5 => .signedArray <$> times count (Int32.toInt64 <$> readI32 path)
  | 11 => .signedArray <$> times count (readI64 path)
  | 6 => .floatArray <$> times count (Float32.toFloat <$> readF32 path)
  | 12 => .floatArray <$> times count (readF64 path)
  | 7 => .boolArray <$> times count (readBool path)
  | 9 => fail nestedArray
  | 8 => .stringArray <$> times count (readString path)
  | _ => fail (unsupportedElement elementKind)

/-- The element widths of `skip_array`. -/
def elementWidth : Nat → Option Nat
  | 0 | 1 | 7 => some 1
  | 2 | 3 => some 2
  | 4 | 5 | 6 => some 4
  | 10 | 11 | 12 => some 8
  | _ => none

def skipArray (count : Nat) : Reading FormatError Unit :=
  if elementKind.toNat = 9 then fail nestedArray
  else if elementKind.toNat = 8 then
    foldTimes count (fun _ => do
      let length ← readU64 path
      skipBytes path length.toNat) ()
  else do
    let width ← okOr (elementWidth elementKind.toNat) (unsupportedElement elementKind)
    ensure (decide (count * width < 2 ^ 64)) (.format "GGUF metadata array" "byte length overflow")
    skipBytes path (count * width)

def readMetadataValue (kind : UInt32) (retainStrings : Bool) :
    Reading FormatError (Option GgufValue) :=
  match kind.toNat with
  | 0 => (fun value => some (.unsigned value.toUInt64)) <$> readU8 path
  | 1 => (fun value => some (.signed value.toInt64)) <$> readI8 path
  | 2 => (fun value => some (.unsigned value.toUInt64)) <$> readU16 path
  | 3 => (fun value => some (.signed value.toInt64)) <$> readI16 path
  | 4 => (fun value => some (.unsigned value.toUInt64)) <$> readU32 path
  | 5 => (fun value => some (.signed value.toInt64)) <$> readI32 path
  | 6 => (fun value => some (.float value.toFloat)) <$> readF32 path
  | 7 => (fun value => some (.bool value)) <$> readBool path
  | 8 => (fun value => some (.string value)) <$> readString path
  | 9 => do
    let elementKind ← readU32 path
    let count ← readU64 path
    if maxRetainedArrayValues < count.toNat ∨ elementKind.toNat = 8 ∧ retainStrings = false then do
      skipArray path elementKind count.toNat
      pure none
    else some <$> readSmallArray path elementKind count.toNat
  | 10 => (fun value => some (.unsigned value)) <$> readU64 path
  | 11 => (fun value => some (.signed value)) <$> readI64 path
  | 12 => (fun value => some (.float value)) <$> readF64 path
  | _ => fail (.format "GGUF metadata" s!"unsupported value type {kind}")

end

/-! ## The index -/

section
variable (path : String)

/-- The magic, the version and the two counts. -/
def readHeader : Reading FormatError (UInt64 × UInt64) := do
  let magic ← readExact 4 (formatError path "read magic" eof)
  ensure (magic = magicBytes)
    (.format "GGUF header" s!"{path} has invalid magic {magic.map UInt8.toNat}")
  let version ← readU32 path
  ensure (version = 3) (.format "GGUF header" s!"{path} uses version {version}; expected version 3")
  let tensorCount ← readU64 path
  let metadataCount ← readU64 path
  pure (tensorCount, metadataCount)

variable (metadata : BTreeMap String GgufValue)

/-- The body of the metadata loop. -/
def readMetadataEntry :
    Reading FormatError (BTreeMap String GgufValue) := do
  let key ← readString path
  let kind ← readU32 path
  let value ← readMetadataValue path kind (key = "general.tensor_extra.name")
  match value with
  | some value => pure (metadata.insert key value)
  | none => pure metadata

/-- The body of the tensor loop. The offset is still relative. -/
def readTensor : Reading FormatError GgufTensor := do
  let name ← readString path
  let dimensionCount ← readU32 path
  ensure (decide (dimensionCount ≠ 0 ∧ dimensionCount.toNat ≤ maxDimensions))
    (.format "GGUF tensor shape" s!"{name} has unsupported rank {dimensionCount}")
  let dimensions ← times dimensionCount.toNat (readU64 path)
  let kind ← readU32 path
  let offset ← readU64 path
  pure ⟨name, dimensions, kind, offset⟩

def isPowerOfTwo (n : UInt64) : Bool := (List.range 64).any fun k => n.toNat == 2 ^ k

def checkedAdd (a b : UInt64) : Option UInt64 :=
  if a.toNat + b.toNat < 2 ^ 64 then some (a + b) else none

/-- The alignment that the metadata asks for. -/
def alignmentOf : UInt64 :=
  ((metadata.get "general.alignment").bind GgufValue.asU64).getD defaultAlignment

/-- The start of the tensor data behind an index that ends at `indexEnd`. -/
def dataOffsetOf (indexEnd alignment : UInt64) : Option UInt64 :=
  (checkedAdd indexEnd (alignment - 1)).map fun offset => offset &&& ~~~(alignment - 1)

/-- The last loop of `open`, which places the tensors in the file. -/
def placeTensors (dataOffset : UInt64) (fileLen : Nat) :
    List GgufTensor → BTreeMap String GgufTensor →
      Except FormatError (BTreeMap String GgufTensor)
  | [], tensors => .ok tensors
  | tensor :: rest, tensors =>
    match checkedAdd dataOffset tensor.offset with
    | none => .error (.format "GGUF tensor offset" s!"{tensor.name} absolute offset overflows")
    | some offset =>
      if fileLen < offset.toNat then
        .error (.format "GGUF tensor offset"
          s!"{tensor.name} starts at {offset} beyond {fileLen} byte file")
      else if tensors.contains tensor.name then
        .error (.format "GGUF tensor table" s!"duplicate tensor {tensor.name}")
      else placeTensors dataOffset fileLen rest
        (tensors.insert tensor.name { tensor with offset := offset })

/-- The alignment and the places, behind the two tables. -/
def finishIndex (relativeTensors : List GgufTensor) :
    Reading FormatError GgufIndex := do
  let alignment := alignmentOf metadata
  ensure (isPowerOfTwo alignment)
    (.format "GGUF alignment" s!"{alignment} is not a non-zero power of two")
  let indexEnd ← streamPosition
  let dataOffset ← okOr (dataOffsetOf (UInt64.ofNat indexEnd) alignment)
    (.format "GGUF data offset" "alignment overflow")
  let fileLen ← fileLength
  match placeTensors dataOffset fileLen relativeTensors .empty with
  | .error e => fail e
  | .ok tensors => pure ⟨path, metadata, tensors, dataOffset⟩

/-- The header and the two tables of `open`. -/
def readTables : Reading FormatError (BTreeMap String GgufValue × List GgufTensor) := do
  let (tensorCount, metadataCount) ← readHeader path
  let metadata ← foldTimes metadataCount.toNat (readMetadataEntry path) .empty
  request (tensorCount.toNat * tensorSize)
  let relativeTensors ← times tensorCount.toNat (readTensor path)
  pure (metadata, relativeTensors)

/-- `GgufIndex::open` behind the opened file. -/
def readIndex : Reading FormatError GgufIndex := do
  let (metadata, relativeTensors) ← readTables path
  finishIndex path metadata relativeTensors

/-- `GgufIndex::open` on a file with the bytes. -/
def openFile (bytes : List UInt8) : EStateM.Result (Fault FormatError) Reader GgufIndex :=
  readIndex path ⟨bytes, 0, []⟩

end

end Gguf

end Eider.Source
