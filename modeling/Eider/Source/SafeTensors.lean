import Eider.Source.Text
import Eider.Source.Gguf

/-!
The safetensors header reader (`eider-format/src/safetensors.rs`, lines 16 to 94 and
359 to 423).

The file is open and its bytes do not change. `serde_json::from_slice` is a parameter;
the buffers that it requests are not listed among the requests of the reader.
-/
namespace Eider.Source
open Lib Lib.ByteReader

/-- `Value::as_u64`: a literal without sign, fraction and exponent, in range. -/
def Value.asU64 : Value → Option Nat
  | .number literal =>
    let n := Nat.ofDigits 10 (literal.reverse.map fun c => c.toNat - '0'.toNat)
    if !literal.isEmpty && literal.all Char.isDigit && decide (n < 2 ^ 64) then some n else none
  | _ => none

namespace SafeTensors

structure SafeTensorInfo where
  dtype : Text
  shape : List Nat
  dataBegin : Nat
  dataEnd : Nat
deriving DecidableEq, Repr

structure SafeTensorShard where
  path : String
  dataStart : Nat
  tensors : BTreeMap Text SafeTensorInfo
deriving DecidableEq

def okOrElse {α : Type} (value : Option α) (label detail : String) : Except FormatError α :=
  match value with
  | some a => .ok a
  | none => .error (.format label detail)

def parseTensorInfo (name : Text) (value : Value) : Except FormatError SafeTensorInfo := do
  let name := String.ofList name
  let object ← okOrElse value.asObject "safetensors tensor metadata"
    s!"{name} metadata is not an object"
  let dtype ← okOrElse ((object.lookup "dtype".toList).bind Value.asStr) "safetensors tensor dtype"
    s!"{name} is missing dtype"
  let dims ← okOrElse ((object.lookup "shape".toList).bind Value.asArray) "safetensors tensor shape"
    s!"{name} is missing shape"
  let shape ← dims.mapM fun dim => okOrElse dim.asU64 "safetensors tensor shape"
    s!"{name} has non-integer shape dimension"
  let offsets ← okOrElse ((object.lookup "data_offsets".toList).bind Value.asArray)
    "safetensors data offsets" s!"{name} is missing data_offsets"
  match offsets with
  | [first, last] => do
    let dataBegin ← okOrElse first.asU64 "safetensors data offsets"
      s!"{name} begin offset is not an integer"
    let dataEnd ← okOrElse last.asU64 "safetensors data offsets"
      s!"{name} end offset is not an integer"
    if dataEnd < dataBegin then
      .error (.format "safetensors data offsets" s!"{name} end offset precedes begin offset")
    else .ok ⟨dtype, shape, dataBegin, dataEnd⟩
  | _ => .error (.format "safetensors data offsets" s!"{name} has {offsets.length} offsets")

/-- The loop over the header's fields. -/
def parseTensors : List (Text × Value) → BTreeMap Text SafeTensorInfo →
    Except FormatError (BTreeMap Text SafeTensorInfo)
  | [], tensors => .ok tensors
  | (name, value) :: rest, tensors =>
    if name = "__metadata__".toList then parseTensors rest tensors
    else
      match parseTensorInfo name value with
      | .error e => .error e
      | .ok info => parseTensors rest (tensors.insert name info)

section
variable (fromSlice : List UInt8 → Except String Value) (path : String)

def parseHeader (header : Value) : Except FormatError (BTreeMap Text SafeTensorInfo) :=
  match header.asObject with
  | none => .error (.format "safetensors header" "header root is not an object")
  | some object => parseTensors object .empty

/-- An unchecked sum of two `u64`. -/
def addU64 (a b : Nat) : Reading FormatError Nat :=
  if a + b < 2 ^ 64 then pure (a + b) else throw (.panicked "attempt to add with overflow")

/-- `SafeTensorShard::open` behind the opened file. -/
def readShard : Reading FormatError SafeTensorShard := do
  let headerLen ← readLe 8 (.format "safetensors header length" "failed to fill whole buffer")
  request headerLen
  let headerBytes ← readExact headerLen
    (.format "safetensors header" "failed to fill whole buffer")
  match fromSlice headerBytes with
  | .error e => fail (.format "safetensors header json" e)
  | .ok header =>
    match parseHeader header with
    | .error e => fail e
    | .ok tensors => do
      let dataStart ← addU64 8 headerLen
      pure ⟨path, dataStart, tensors⟩

/-- `SafeTensorShard::open` on a file with the bytes. -/
def openFile (bytes : List UInt8) : EStateM.Result (Fault FormatError) Reader SafeTensorShard :=
  readShard fromSlice path ⟨bytes, 0, []⟩

end

end SafeTensors

end Eider.Source
