import Eider.Source.Gguf

/-!
# Reading GGUF encodings back

The GGUF v3 encoding of a metadata list and a tensor table, with all thirteen value
types, and what `GgufIndex::open` makes of it: `index_of_encoding`. Arrays of arrays,
ranks outside 1 to 8 and strings over 16 MiB are refused by design
(`unsupported_encodings_refused`); strings that are skipped may have any length.
-/
namespace Eider.Guarantees.GgufRoundTrip
open Lib Lib.ByteReader Source Source.Gguf List

variable {n : Nat} {entry : String × MetadataValue} {t : GgufTensor} {k : Nat} {e : FormatError}

/-! ## The encoding -/

/-- The value types other than arrays. -/
inductive ElementKind where
  | uint8 | int8 | uint16 | int16 | uint32 | int32 | float32 | bool | string | uint64 | int64
  | float64
deriving DecidableEq, Repr

namespace ElementKind

/-- A float is its bits. -/
abbrev Carrier : ElementKind → Type
  | uint8 => UInt8
  | int8 => Int8
  | uint16 => UInt16
  | int16 => Int16
  | uint32 => UInt32
  | int32 => Int32
  | float32 => UInt32
  | bool => Bool
  | string => String
  | uint64 => UInt64
  | int64 => Int64
  | float64 => UInt64

def code : ElementKind → UInt32
  | uint8 => 0
  | int8 => 1
  | uint16 => 2
  | int16 => 3
  | uint32 => 4
  | int32 => 5
  | float32 => 6
  | bool => 7
  | string => 8
  | uint64 => 10
  | int64 => 11
  | float64 => 12

end ElementKind

/-- A string with its length in front. -/
def encodeString (s : String) : List UInt8 :=
  toLeBytes 8 s.utf8ByteSize ++ s.toByteArray.data.toList

namespace ElementKind

def encode : (k : ElementKind) → k.Carrier → List UInt8
  | uint8, v => toLeBytes 1 (UInt8.toNat v)
  | int8, v => toLeBytes 1 (Int8.toUInt8 v).toNat
  | uint16, v => toLeBytes 2 (UInt16.toNat v)
  | int16, v => toLeBytes 2 (Int16.toUInt16 v).toNat
  | uint32, v => toLeBytes 4 (UInt32.toNat v)
  | int32, v => toLeBytes 4 (Int32.toUInt32 v).toNat
  | float32, v => toLeBytes 4 (UInt32.toNat v)
  | bool, v => toLeBytes 1 (Bool.toNat v)
  | string, v => encodeString v
  | uint64, v => toLeBytes 8 (UInt64.toNat v)
  | int64, v => toLeBytes 8 (Int64.toUInt64 v).toNat
  | float64, v => toLeBytes 8 (UInt64.toNat v)

/-- What is retained of a value. -/
def value : (k : ElementKind) → k.Carrier → GgufValue
  | uint8, v => .unsigned (UInt8.toUInt64 v)
  | int8, v => .signed (Int8.toInt64 v)
  | uint16, v => .unsigned (UInt16.toUInt64 v)
  | int16, v => .signed (Int16.toInt64 v)
  | uint32, v => .unsigned (UInt32.toUInt64 v)
  | int32, v => .signed (Int32.toInt64 v)
  | float32, v => .float (Float32.ofBits v).toFloat
  | bool, v => .bool v
  | string, v => .string v
  | uint64, v => .unsigned v
  | int64, v => .signed v
  | float64, v => .float (Float.ofBits v)

/-- What is retained of a small array. -/
def arrayValue : (k : ElementKind) → List k.Carrier → GgufValue
  | uint8, vs => .unsignedArray (vs.map UInt8.toUInt64)
  | int8, vs => .signedArray (vs.map Int8.toInt64)
  | uint16, vs => .unsignedArray (vs.map UInt16.toUInt64)
  | int16, vs => .signedArray (vs.map Int16.toInt64)
  | uint32, vs => .unsignedArray (vs.map UInt32.toUInt64)
  | int32, vs => .signedArray (vs.map Int32.toInt64)
  | float32, vs => .floatArray (vs.map fun v => (Float32.ofBits v).toFloat)
  | bool, vs => .boolArray vs
  | string, vs => .stringArray vs
  | uint64, vs => .unsignedArray vs
  | int64, vs => .signedArray vs
  | float64, vs => .floatArray (vs.map Float.ofBits)

/-- A value that is read fits the limit on strings. -/
def Fits : (k : ElementKind) → k.Carrier → Prop
  | string, v => String.utf8ByteSize v ≤ maxStringBytes
  | _, _ => True

end ElementKind

/-- An array of plain values, or of arrays. -/
inductive MetadataArray where
  | flat (k : ElementKind) (values : List k.Carrier)
  | nested (arrays : List MetadataArray)

mutual

/-- The element type, the count and the elements. -/
def MetadataArray.encode : MetadataArray → List UInt8
  | .flat k values =>
    toLeBytes 4 k.code.toNat ++ (toLeBytes 8 values.length ++ values.flatMap k.encode)
  | .nested arrays => toLeBytes 4 9 ++ (toLeBytes 8 arrays.length ++ encodeArrays arrays)

def encodeArrays : List MetadataArray → List UInt8
  | [] => []
  | array :: rest => array.encode ++ encodeArrays rest

end

inductive MetadataValue where
  | scalar (k : ElementKind) (v : k.Carrier)
  | array (a : MetadataArray)

namespace MetadataValue

def code : MetadataValue → UInt32
  | scalar k _ => k.code
  | array _ => 9

def encode : MetadataValue → List UInt8
  | scalar k v => k.encode v
  | array a => a.encode

/-- Arrays that are dropped: those over 1024 elements, and string arrays other than
the precision names. -/
def Dropped (key : String) (k : ElementKind) (values : List k.Carrier) : Prop :=
  maxRetainedArrayValues < values.length ∨ k = .string ∧ key ≠ "general.tensor_extra.name"

instance (key : String) (k : ElementKind) (values : List k.Carrier) :
    Decidable (Dropped key k values) :=
  inferInstanceAs (Decidable (_ ∨ _))

/-- What is retained under a key. -/
def retained (key : String) : MetadataValue → Option GgufValue
  | scalar k v => some (k.value v)
  | array (.flat k values) => if Dropped key k values then none else some (k.arrayValue values)
  | array (.nested _) => none

/-- A value that the reader supports: no array of arrays, and the strings that it
reads within the limit. -/
def Supported (key : String) : MetadataValue → Prop
  | scalar k v => k.Fits v
  | array (.flat k values) => ¬ Dropped key k values → ∀ v ∈ values, k.Fits v
  | array (.nested _) => False

end MetadataValue

abbrev Metadata := List (String × MetadataValue)

def encodeEntry (entry : String × MetadataValue) : List UInt8 :=
  encodeString entry.1 ++ (toLeBytes 4 entry.2.code.toNat ++ entry.2.encode)

/-- A tensor descriptor, with its relative offset. -/
def encodeTensor (t : GgufTensor) : List UInt8 :=
  encodeString t.name ++ (toLeBytes 4 t.dimensions.length ++
    (t.dimensions.flatMap (fun d => toLeBytes 8 d.toNat) ++
      (toLeBytes 4 t.kind.toNat ++ toLeBytes 8 t.offset.toNat)))

variable (metadata : Metadata) (tensors : List GgufTensor)

def encodeHeader : List UInt8 :=
  magicBytes ++ (toLeBytes 4 3 ++ (toLeBytes 8 tensors.length ++ toLeBytes 8 metadata.length))

def encodeIndex : List UInt8 :=
  encodeHeader metadata tensors ++
    (metadata.flatMap encodeEntry ++ tensors.flatMap encodeTensor)

/-- The retained metadata, the last value of a key winning. -/
def retainedMetadata : BTreeMap String GgufValue :=
  .ofList (metadata.filterMap fun entry => (entry.2.retained entry.1).map (entry.1, ·))

/-- The end of the index, rounded up to the alignment. -/
def dataStart : Nat :=
  let alignment := (alignmentOf (retainedMetadata metadata)).toNat
  ((encodeIndex metadata tensors).length + (alignment - 1)) / alignment * alignment

/-- The whole file. -/
def encodeFile (payload : List UInt8) : List UInt8 :=
  encodeIndex metadata tensors ++ (List.replicate
    (dataStart metadata tensors - (encodeIndex metadata tensors).length) 0 ++ payload)

/-- What the reader needs of a file. -/
structure Readable (metadata : Metadata) (tensors : List GgufTensor) (payload : List UInt8) :
    Prop where
  keys : ∀ entry ∈ metadata, entry.1.utf8ByteSize ≤ maxStringBytes
  values : ∀ entry ∈ metadata, entry.2.Supported entry.1
  names : ∀ t ∈ tensors, t.name.utf8ByteSize ≤ maxStringBytes
  ranks : ∀ t ∈ tensors, 1 ≤ t.dimensions.length ∧ t.dimensions.length ≤ 8
  unique : (tensors.map GgufTensor.name).Nodup
  alignment : ∃ k, (alignmentOf (retainedMetadata metadata)).toNat = 2 ^ k
  present : ∀ t ∈ tensors, t.offset.toNat ≤ payload.length
  /-- A file has at most `i64::MAX` bytes. -/
  length : (encodeFile metadata tensors payload).length < 2 ^ 63
  /-- So has the table of the tensors in memory. -/
  table : tensors.length * tensorSize < 2 ^ 63

/-! ## Numbers and strings -/

section
variable (path : String)

theorem consumes_readU8 (v : UInt8) : Consumes (readU8 path) (toLeBytes 1 v.toNat) v := by
  have hread := consumes_readLe 1 (formatError path "read byte" eof) v.toNat_lt
  have hmap : Consumes (readU8 path) (toLeBytes 1 v.toNat) (UInt8.ofNat v.toNat) := hread.map
  rw [UInt8.ofNat_toNat] at hmap
  exact hmap

theorem consumes_readI8 (v : Int8) : Consumes (readI8 path) (toLeBytes 1 v.toUInt8.toNat) v := by
  have hmap : Consumes (readI8 path) _ v.toUInt8.toInt8 := (consumes_readU8 path v.toUInt8).map
  exact hmap

theorem consumes_readU16 (v : UInt16) : Consumes (readU16 path) (toLeBytes 2 v.toNat) v := by
  have hread := consumes_readLe 2 (formatError path "read number" eof) v.toNat_lt
  have hmap : Consumes (readU16 path) (toLeBytes 2 v.toNat) (UInt16.ofNat v.toNat) := hread.map
  rw [UInt16.ofNat_toNat] at hmap
  exact hmap

theorem consumes_readI16 (v : Int16) :
    Consumes (readI16 path) (toLeBytes 2 v.toUInt16.toNat) v := by
  have hmap : Consumes (readI16 path) _ v.toUInt16.toInt16 := (consumes_readU16 path v.toUInt16).map
  exact hmap

theorem consumes_readU32 (v : UInt32) : Consumes (readU32 path) (toLeBytes 4 v.toNat) v := by
  have hread := consumes_readLe 4 (formatError path "read number" eof) v.toNat_lt
  have hmap : Consumes (readU32 path) (toLeBytes 4 v.toNat) (UInt32.ofNat v.toNat) := hread.map
  rw [UInt32.ofNat_toNat] at hmap
  exact hmap

theorem consumes_readI32 (v : Int32) :
    Consumes (readI32 path) (toLeBytes 4 v.toUInt32.toNat) v := by
  have hmap : Consumes (readI32 path) _ v.toUInt32.toInt32 := (consumes_readU32 path v.toUInt32).map
  exact hmap

theorem consumes_readU64 (v : UInt64) : Consumes (readU64 path) (toLeBytes 8 v.toNat) v := by
  have hread := consumes_readLe 8 (formatError path "read number" eof) v.toNat_lt
  have hmap : Consumes (readU64 path) (toLeBytes 8 v.toNat) (UInt64.ofNat v.toNat) := hread.map
  rw [UInt64.ofNat_toNat] at hmap
  exact hmap

theorem consumes_readI64 (v : Int64) :
    Consumes (readI64 path) (toLeBytes 8 v.toUInt64.toNat) v := by
  have hmap : Consumes (readI64 path) _ v.toUInt64.toInt64 := (consumes_readU64 path v.toUInt64).map
  exact hmap

theorem consumes_readCount (h : n < 2 ^ 64) :
    Consumes (readU64 path) (toLeBytes 8 n) (UInt64.ofNat n) := by
  have hread := consumes_readU64 path (UInt64.ofNat n)
  rw [UInt64.toNat_ofNat_of_lt' h] at hread
  exact hread

theorem consumes_readBool (v : Bool) : Consumes (readBool path) (toLeBytes 1 v.toNat) v := by
  cases v with
  | false => exact (consumes_readU8 path 0).bind_last (.pure false)
  | true => exact (consumes_readU8 path 1).bind_last (.pure true)

theorem fromUtf8_toByteArray (s : String) : fromUtf8 s.toByteArray.data.toList = some s := by
  have hbytes : (⟨s.toByteArray.data.toList.toArray⟩ : ByteArray) = s.toByteArray := by simp
  rw [fromUtf8, hbytes, String.fromUTF8?, dif_pos s.isValidUTF8]
  rfl

theorem length_stringBytes (s : String) : s.toByteArray.data.toList.length = s.utf8ByteSize := by
  simp

theorem consumes_readString {s : String} (h : s.utf8ByteSize ≤ maxStringBytes) :
    Consumes (readString path) (encodeString s) s := by
  have hmax : maxStringBytes < 2 ^ 63 := by decide
  have hcount : (UInt64.ofNat s.utf8ByteSize).toNat = s.utf8ByteSize :=
    UInt64.toNat_ofNat_of_lt' (lt_of_le_of_lt h (by decide))
  refine (consumes_readCount path (by omega)).bind ?_
  rw [hcount]
  refine (consumes_ensure _ (decide_eq_true h)).bind_silent ?_
  refine (consumes_request (by omega)).bind_silent ?_
  refine (consumes_readExact _ _).bind_last ?_
  rw [fromUtf8_toByteArray]
  exact .pure s

theorem consumes_skipBytes (bytes : List UInt8) : Consumes (skipBytes path bytes.length) bytes () :=
  consumes_of_length fun hlength =>
    (consumes_ensure _ (decide_eq_true hlength)).bind_silent (consumes_seekForward _ _)

end

/-! ## Arrays -/

section
variable (path : String) (k : ElementKind)

theorem consumes_readSmallArray (values : List k.Carrier) (h : ∀ v ∈ values, k.Fits v) :
    Consumes (readSmallArray path k.code values.length) (values.flatMap k.encode)
      (k.arrayValue values) := by
  cases k with
  | uint8 => exact (consumes_times values fun v _ => (consumes_readU8 path v).map).map
  | int8 => exact (consumes_times values fun v _ => (consumes_readI8 path v).map).map
  | uint16 => exact (consumes_times values fun v _ => (consumes_readU16 path v).map).map
  | int16 => exact (consumes_times values fun v _ => (consumes_readI16 path v).map).map
  | uint32 => exact (consumes_times values fun v _ => (consumes_readU32 path v).map).map
  | int32 => exact (consumes_times values fun v _ => (consumes_readI32 path v).map).map
  | float32 =>
    have hread : ∀ v, Consumes (readF32 path) (toLeBytes 4 (UInt32.toNat v)) (Float32.ofBits v) :=
      fun v => (consumes_readU32 path v).map
    exact (consumes_times values fun v _ => (hread v).map).map
  | bool =>
    have hread := consumes_times values fun v _ => consumes_readBool path v
    rw [map_id''] at hread
    · exact hread.map
    · exact fun _ => rfl
  | string =>
    have hread := consumes_times values fun v hv => consumes_readString path (h v hv)
    rw [map_id''] at hread
    · exact hread.map
    · exact fun _ => rfl
  | uint64 =>
    have hread := consumes_times values fun v _ => consumes_readU64 path v
    rw [map_id''] at hread
    · exact hread.map
    · exact fun _ => rfl
  | int64 =>
    have hread := consumes_times values fun v _ => consumes_readI64 path v
    rw [map_id''] at hread
    · exact hread.map
    · exact fun _ => rfl
  | float64 =>
    have hread : ∀ v, Consumes (readF64 path) (toLeBytes 8 (UInt64.toNat v)) (Float.ofBits v) :=
      fun v => (consumes_readU64 path v).map
    exact (consumes_times values fun v _ => hread v).map

theorem elementWidth_encode {k : ElementKind} (hk : k ≠ .string) :
    ∃ width, elementWidth k.code.toNat = some width ∧ ∀ v, (k.encode v).length = width := by
  cases k with
  | string => exact absurd rfl hk
  | uint8 => exact ⟨1, rfl, fun v => length_toLeBytes _ _⟩
  | int8 => exact ⟨1, rfl, fun v => length_toLeBytes _ _⟩
  | bool => exact ⟨1, rfl, fun v => length_toLeBytes _ _⟩
  | uint16 => exact ⟨2, rfl, fun v => length_toLeBytes _ _⟩
  | int16 => exact ⟨2, rfl, fun v => length_toLeBytes _ _⟩
  | uint32 => exact ⟨4, rfl, fun v => length_toLeBytes _ _⟩
  | int32 => exact ⟨4, rfl, fun v => length_toLeBytes _ _⟩
  | float32 => exact ⟨4, rfl, fun v => length_toLeBytes _ _⟩
  | uint64 => exact ⟨8, rfl, fun v => length_toLeBytes _ _⟩
  | int64 => exact ⟨8, rfl, fun v => length_toLeBytes _ _⟩
  | float64 => exact ⟨8, rfl, fun v => length_toLeBytes _ _⟩

theorem code_toNat_ne_array : k.code.toNat ≠ 9 := by
  cases k with
  | _ => decide

theorem code_toNat_eq_string_iff : k.code.toNat = 8 ↔ k = .string := by
  cases k with
  | _ => decide

theorem length_flatMap_const {α : Type} {encode : α → List UInt8} {width : Nat} (values : List α)
    (h : ∀ v, (encode v).length = width) :
    (values.flatMap encode).length = values.length * width := by
  induction values with
  | nil => simp
  | cons v rest ih =>
    rw [flatMap_cons, length_append, ih, h, length_cons, Nat.succ_mul, Nat.add_comm]

theorem consumes_skipString (s : String) :
    Consumes (do let length ← readU64 path; skipBytes path length.toNat) (encodeString s) () := by
  refine consumes_of_length fun hlength => ?_
  rw [encodeString, length_append, length_toLeBytes, length_stringBytes] at hlength
  refine (consumes_readCount path (by omega)).bind ?_
  rw [UInt64.toNat_ofNat_of_lt' (lt_trans (by omega) (by decide : 2 ^ 63 < UInt64.size)),
    ← length_stringBytes]
  exact consumes_skipBytes path _

theorem consumes_skipArray (values : List k.Carrier) :
    Consumes (skipArray path k.code values.length) (values.flatMap k.encode) () := by
  refine consumes_of_length fun hlength => ?_
  rw [skipArray, if_neg (code_toNat_ne_array k)]
  by_cases hk : k = .string
  · subst hk
    exact consumes_foldTimes values () fun _ v _ => consumes_skipString path v
  · rw [if_neg (mt (code_toNat_eq_string_iff k).mp hk)]
    obtain ⟨width, hwidth, hencode⟩ := elementWidth_encode hk
    rw [length_flatMap_const values hencode] at hlength
    rw [hwidth]
    refine (Consumes.pure width).bind_silent ?_
    refine (consumes_ensure _ (decide_eq_true (by omega))).bind_silent ?_
    rw [← length_flatMap_const values hencode]
    exact consumes_skipBytes path _

end

/-! ## Entries of the tables -/

section
variable (path : String)

theorem consumes_readScalar (k : ElementKind) (v : k.Carrier) (retainStrings : Bool)
    (h : k.Fits v) :
    Consumes (readMetadataValue path k.code retainStrings) (k.encode v) (some (k.value v)) := by
  cases k with
  | uint8 => exact (consumes_readU8 path v).map
  | int8 => exact (consumes_readI8 path v).map
  | uint16 => exact (consumes_readU16 path v).map
  | int16 => exact (consumes_readI16 path v).map
  | uint32 => exact (consumes_readU32 path v).map
  | int32 => exact (consumes_readI32 path v).map
  | float32 =>
    have hread : Consumes (readF32 path) (toLeBytes 4 (UInt32.toNat v)) (Float32.ofBits v) :=
      (consumes_readU32 path v).map
    exact hread.map
  | bool => exact (consumes_readBool path v).map
  | string => exact (consumes_readString path h).map
  | uint64 => exact (consumes_readU64 path v).map
  | int64 => exact (consumes_readI64 path v).map
  | float64 =>
    have hread : Consumes (readF64 path) (toLeBytes 8 (UInt64.toNat v)) (Float.ofBits v) :=
      (consumes_readU64 path v).map
    exact hread.map

theorem length_le_flatMap {α : Type} {encode : α → List UInt8} (values : List α)
    (h : ∀ v, 1 ≤ (encode v).length) : values.length ≤ (values.flatMap encode).length := by
  induction values with
  | nil => simp
  | cons v rest ih =>
    rw [flatMap_cons, length_append, length_cons]
    have := h v
    omega

theorem encode_length_pos (k : ElementKind) (v : k.Carrier) : 1 ≤ (k.encode v).length := by
  cases k with
  | string =>
    change 1 ≤ (encodeString v).length
    rw [encodeString, length_append, length_toLeBytes]
    omega
  | _ => simp [ElementKind.encode]

theorem toNat_ofNat (h : n < 2 ^ 63) : (UInt64.ofNat n).toNat = n :=
  UInt64.toNat_ofNat_of_lt' (lt_trans h (by decide))

theorem consumes_readArray (key : String) (k : ElementKind) (values : List k.Carrier)
    (h : ¬ MetadataValue.Dropped key k values → ∀ v ∈ values, k.Fits v) :
    Consumes (readMetadataValue path 9 (key = "general.tensor_extra.name"))
      (MetadataArray.flat k values).encode
      ((MetadataValue.array (.flat k values)).retained key) := by
  rw [MetadataArray.encode]
  refine consumes_of_length fun hlength => ?_
  have hcount := length_le_flatMap values (encode_length_pos k)
  simp only [length_append, length_toLeBytes] at hlength
  refine (consumes_readU32 path k.code).bind ?_
  refine (consumes_readCount path (by omega)).bind ?_
  rw [toNat_ofNat (by omega), MetadataValue.retained]
  have hdropped : (maxRetainedArrayValues < values.length ∨ k.code.toNat = 8 ∧
      decide (key = "general.tensor_extra.name") = false) ↔ MetadataValue.Dropped key k values := by
    rw [code_toNat_eq_string_iff, decide_eq_false_iff_not]
    exact Iff.rfl
  by_cases hdrop : MetadataValue.Dropped key k values
  · rw [if_pos (hdropped.mpr hdrop), if_pos hdrop]
    exact (consumes_skipArray path k values).bind_last (.pure none)
  · rw [if_neg (mt hdropped.mp hdrop), if_neg hdrop]
    exact (consumes_readSmallArray path k values (h hdrop)).map

theorem consumes_readMetadataValue {key : String} {value : MetadataValue}
    (h : value.Supported key) :
    Consumes (readMetadataValue path value.code (key = "general.tensor_extra.name")) value.encode
      (value.retained key) := by
  match value, h with
  | .scalar k v, h => exact consumes_readScalar path k v _ h
  | .array (.flat k values), h => exact consumes_readArray path key k values h

variable (metadata : BTreeMap String GgufValue)

/-- The metadata behind one more entry. -/
def addEntry (entry : String × MetadataValue) : BTreeMap String GgufValue :=
  match entry.2.retained entry.1 with
  | some value => metadata.insert entry.1 value
  | none => metadata

theorem consumes_readMetadataEntry
    (hkey : entry.1.utf8ByteSize ≤ maxStringBytes) (hvalue : entry.2.Supported entry.1) :
    Consumes (readMetadataEntry path metadata) (encodeEntry entry) (addEntry metadata entry) := by
  refine (consumes_readString path hkey).bind ?_
  refine (consumes_readU32 path entry.2.code).bind ?_
  refine (consumes_readMetadataValue path hvalue).bind_last ?_
  rw [addEntry]
  cases entry.2.retained entry.1 with
  | none => exact .pure metadata
  | some value => exact .pure (metadata.insert entry.1 value)

theorem foldl_addEntry (metadata : Metadata) :
    metadata.foldl addEntry .empty = retainedMetadata metadata := by
  rw [retainedMetadata, BTreeMap.ofList, foldl_filterMap]
  congr 1
  funext m entry
  rw [addEntry]
  cases entry.2.retained entry.1 with
  | none => rfl
  | some value => rfl

theorem consumes_readTensor (hname : t.name.utf8ByteSize ≤ maxStringBytes)
    (hrank : 1 ≤ t.dimensions.length ∧ t.dimensions.length ≤ 8) :
    Consumes (readTensor path) (encodeTensor t) t := by
  have hcount : (UInt32.ofNat t.dimensions.length).toNat = t.dimensions.length :=
    UInt32.toNat_ofNat_of_lt' (lt_of_le_of_lt hrank.2 (by decide))
  have hread := consumes_readU32 path (UInt32.ofNat t.dimensions.length)
  rw [hcount] at hread
  refine (consumes_readString path hname).bind (hread.bind ?_)
  have hsupported : UInt32.ofNat t.dimensions.length ≠ 0 ∧
      (UInt32.ofNat t.dimensions.length).toNat ≤ maxDimensions := by
    rw [hcount]
    refine ⟨fun hzero => ?_, hrank.2⟩
    have := congrArg UInt32.toNat hzero
    rw [hcount] at this
    change t.dimensions.length = 0 at this
    omega
  refine (consumes_ensure _ (decide_eq_true hsupported)).bind_silent ?_
  rw [hcount]
  have hdimensions := consumes_times t.dimensions fun d _ => consumes_readU64 path d
  rw [map_id''] at hdimensions
  · refine hdimensions.bind ((consumes_readU32 path t.kind).bind ?_)
    exact (consumes_readU64 path t.offset).bind_last (.pure t)
  · exact fun _ => rfl

end

/-! ## The index -/

section
variable (path : String) {metadata : Metadata} {tensors : List GgufTensor} {payload : List UInt8}

theorem encodeString_length (s : String) : 8 ≤ (encodeString s).length := by
  rw [encodeString, length_append, length_toLeBytes]
  omega

theorem encodeEntry_length (entry : String × MetadataValue) : 1 ≤ (encodeEntry entry).length := by
  rw [encodeEntry, length_append]
  have := encodeString_length entry.1
  omega

theorem encodeTensor_length (t : GgufTensor) : 1 ≤ (encodeTensor t).length := by
  rw [encodeTensor, length_append]
  have := encodeString_length t.name
  omega

theorem consumes_readHeader (hmetadata : metadata.length < 2 ^ 63)
    (htensors : tensors.length < 2 ^ 63) :
    Consumes (readHeader path) (encodeHeader metadata tensors)
      (UInt64.ofNat tensors.length, UInt64.ofNat metadata.length) := by
  refine (consumes_readExact magicBytes _).bind ?_
  refine (consumes_ensure _ (decide_eq_true rfl)).bind_silent ?_
  refine (consumes_readU32 path 3).bind ?_
  refine (consumes_ensure _ (decide_eq_true rfl)).bind_silent ?_
  refine (consumes_readCount path (by omega)).bind ?_
  exact (consumes_readCount path (by omega)).bind_last (.pure _)

theorem consumes_readTables (h : Readable metadata tensors payload) :
    Consumes (readTables path) (encodeIndex metadata tensors)
      (retainedMetadata metadata, tensors) := by
  refine consumes_of_length fun hlength => ?_
  have hentries := length_le_flatMap metadata encodeEntry_length
  have hdescriptors := length_le_flatMap tensors encodeTensor_length
  simp only [encodeIndex, length_append] at hlength
  refine (consumes_readHeader path (by omega) (by omega)).bind ?_
  dsimp only
  rw [toNat_ofNat (by omega), toNat_ofNat (by omega)]
  have hmetadata := consumes_foldTimes metadata .empty fun m entry hentry =>
    consumes_readMetadataEntry path m (h.keys entry hentry) (h.values entry hentry)
  rw [foldl_addEntry] at hmetadata
  refine hmetadata.bind ((consumes_request h.table).bind_silent ?_)
  have htensors := consumes_times tensors fun t ht =>
    consumes_readTensor path (h.names t ht) (h.ranks t ht)
  rw [map_id''] at htensors
  · exact htensors.bind_last (.pure _)
  · exact fun _ => rfl

theorem and_mask (hk : k < 64) (hn : n < 2 ^ 64) : n &&& (2 ^ 64 - 2 ^ k) = n / 2 ^ k * 2 ^ k := by
  have hmask : 2 ^ 64 - 2 ^ k = (2 ^ (64 - k) - 1) <<< k := by
    rw [Nat.shiftLeft_eq, Nat.sub_mul, ← Nat.pow_add, Nat.sub_add_cancel (by omega), Nat.one_mul]
  apply Nat.eq_of_testBit_eq
  intro i
  rw [hmask, ← Nat.shiftLeft_eq, ← Nat.shiftRight_eq_div_pow, Nat.testBit_and]
  simp only [Nat.testBit_shiftLeft, Nat.testBit_shiftRight, Nat.testBit_two_pow_sub_one]
  by_cases hlow : i < k
  · simp [Nat.not_le.mpr hlow]
  · have hsum : k + (i - k) = i := by omega
    rw [hsum]
    by_cases hhigh : i < 64
    · have hbit : i - k < 64 - k := by omega
      simp [hbit, Bool.and_comm]
    · have hzero : n.testBit i = false :=
        Nat.testBit_lt_two_pow (lt_of_lt_of_le hn (Nat.pow_le_pow_right (by omega) (by omega)))
      simp [hzero]

theorem dataOffsetOf_eq {indexEnd : Nat} {alignment : UInt64}
    (halignment : alignment.toNat = 2 ^ k) (hend : indexEnd < 2 ^ 63) :
    ∃ offset, dataOffsetOf (UInt64.ofNat indexEnd) alignment = some offset ∧
      offset.toNat = (indexEnd + (alignment.toNat - 1)) / alignment.toNat * alignment.toNat := by
  have hk : k < 64 := by
    have hlt := alignment.toNat_lt
    rw [halignment] at hlt
    exact (Nat.pow_lt_pow_iff_right (by decide)).mp hlt
  have hpos : 1 ≤ 2 ^ k := Nat.one_le_two_pow
  have hle : 2 ^ k ≤ 2 ^ 63 := Nat.pow_le_pow_right (by decide) (by omega)
  have hone : (alignment - 1).toNat = 2 ^ k - 1 := by
    rw [UInt64.toNat_sub_of_le, halignment]
    · rfl
    · rw [UInt64.le_iff_toNat_le, halignment]
      exact hpos
  have hsum : indexEnd + (2 ^ k - 1) < 2 ^ 64 := by omega
  have hnat : (UInt64.ofNat indexEnd).toNat = indexEnd := toNat_ofNat hend
  refine ⟨(UInt64.ofNat indexEnd + (alignment - 1)) &&& ~~~(alignment - 1), ?_, ?_⟩
  · rw [dataOffsetOf, checkedAdd, if_pos (by rw [hnat, hone]; exact hsum), Option.map_some]
  · rw [UInt64.toNat_and, UInt64.toNat_add, UInt64.toNat_not, hnat, hone, halignment,
      Nat.mod_eq_of_lt hsum]
    have hmask : UInt64.size - 1 - (2 ^ k - 1) = 2 ^ 64 - 2 ^ k := by
      have hsize : UInt64.size = 2 ^ 64 := rfl
      omega
    rw [hmask]
    exact and_mask hk hsum

/-- A tensor at its place in the file. -/
def placed (dataOffset : UInt64) (t : GgufTensor) : GgufTensor :=
  { t with offset := dataOffset + t.offset }

theorem placeTensors_eq {dataOffset : UInt64} {fileLen : Nat} {tensors : List GgufTensor}
    {acc : BTreeMap String GgufTensor} (hlen : fileLen < 2 ^ 63)
    (hplaces : ∀ t ∈ tensors, dataOffset.toNat + t.offset.toNat ≤ fileLen)
    (hunique : (tensors.map GgufTensor.name).Nodup)
    (hfresh : ∀ t ∈ tensors, acc.contains t.name = false) :
    placeTensors dataOffset fileLen tensors acc =
      .ok (tensors.foldl (fun m t => m.insert t.name (placed dataOffset t)) acc) := by
  induction tensors generalizing acc with
  | nil => rfl
  | cons t rest ih =>
    have hplace := hplaces t mem_cons_self
    rw [map_cons, nodup_cons] at hunique
    have hsum : (dataOffset + t.offset).toNat = dataOffset.toNat + t.offset.toNat := by
      rw [UInt64.toNat_add, Nat.mod_eq_of_lt (by omega)]
    have hadd : checkedAdd dataOffset t.offset = some (dataOffset + t.offset) := by
      rw [checkedAdd, if_pos (by omega)]
    rw [placeTensors, hadd]
    simp only [hsum]
    rw [if_neg (by omega), if_neg (by simp [hfresh t mem_cons_self])]
    refine ih (fun t' ht' => hplaces t' (mem_cons_of_mem _ ht')) hunique.2 ?_
    intro t' ht'
    have hne : t'.name ≠ t.name := by
      intro heq
      exact hunique.1 (heq ▸ mem_map_of_mem ht')
    have hold := hfresh t' (mem_cons_of_mem _ ht')
    rw [BTreeMap.contains, BTreeMap.get_insert_of_ne _ _ hne]
    exact hold

theorem finishIndex_eq {m : BTreeMap String GgufValue} {dataOffset : UInt64}
    {placedTensors : BTreeMap String GgufTensor} {r : Reader}
    (halignment : isPowerOfTwo (alignmentOf m) = true)
    (hoffset : dataOffsetOf (UInt64.ofNat r.position) (alignmentOf m) = some dataOffset)
    (hplaces : placeTensors dataOffset r.file.length tensors .empty = .ok placedTensors) :
    finishIndex path m tensors r = .ok ⟨path, m, placedTensors, dataOffset⟩ r := by
  have hensure : ∀ e : FormatError, ensure (isPowerOfTwo (alignmentOf m)) e r = .ok () r := by
    intro e
    rw [ensure, if_pos halignment]
    rfl
  have hposition : (streamPosition : Reading FormatError Nat) r = .ok r.position r := rfl
  have hdata : ∀ e : FormatError,
      okOr (dataOffsetOf (UInt64.ofNat r.position) (alignmentOf m)) e r = .ok dataOffset r := by
    intro e
    rw [hoffset]
    rfl
  have hlength : (fileLength : Reading FormatError Nat) r = .ok r.file.length r := rfl
  rw [finishIndex, bind_run_ok (hensure _), bind_run_ok hposition, bind_run_ok (hdata _),
    bind_run_ok hlength, hplaces]
  rfl

theorem isPowerOfTwo_of_eq {n : UInt64} (h : n.toNat = 2 ^ k) : isPowerOfTwo n = true := by
  have hlt := n.toNat_lt
  rw [h] at hlt
  have hk : k < 64 := (Nat.pow_lt_pow_iff_right (by decide)).mp hlt
  rw [isPowerOfTwo, any_eq_true]
  exact ⟨k, mem_range.mpr hk, by simp [h]⟩

theorem index_le_dataStart (tensors : List GgufTensor)
    (h : ∃ k, (alignmentOf (retainedMetadata metadata)).toNat = 2 ^ k) :
    (encodeIndex metadata tensors).length ≤ dataStart metadata tensors := by
  obtain ⟨k, hk⟩ := h
  simp only [dataStart, hk]
  have hmod := Nat.div_add_mod ((encodeIndex metadata tensors).length + (2 ^ k - 1)) (2 ^ k)
  rw [Nat.mul_comm] at hmod
  omega

/-- The index of an encoding: the retained metadata, and the tensors at the aligned end of the
two tables. -/
theorem openFile_encoding (h : Readable metadata tensors payload) : ∃ dataOffset reader,
    openFile path (encodeFile metadata tensors payload) =
      .ok ⟨path, retainedMetadata metadata,
        .ofList (tensors.map fun t => (t.name, placed dataOffset t)), dataOffset⟩ reader ∧
    dataOffset.toNat = dataStart metadata tensors ∧
    ∀ t ∈ tensors, (placed dataOffset t).offset.toNat =
      dataStart metadata tensors + t.offset.toNat := by
  obtain ⟨k, hk⟩ := h.alignment
  have hpadding := index_le_dataStart tensors h.alignment
  have hfile : (encodeFile metadata tensors payload).length =
      dataStart metadata tensors + payload.length := by
    simp only [encodeFile, length_append, length_replicate]
    omega
  have hlength := h.length
  obtain ⟨requests, htables⟩ := consumes_readTables path h
    ⟨encodeFile metadata tensors payload, 0, []⟩ ⟨Nat.zero_le _, hlength⟩ ⟨_, rfl⟩
  have hend : (encodeIndex metadata tensors).length < 2 ^ 63 := by omega
  obtain ⟨dataOffset, hoffset, hstart⟩ := dataOffsetOf_eq hk hend
  have hstart' : dataOffset.toNat = dataStart metadata tensors := hstart
  have hplaces : ∀ t ∈ tensors,
      dataOffset.toNat + t.offset.toNat ≤ (encodeFile metadata tensors payload).length := by
    intro t ht
    have := h.present t ht
    omega
  refine ⟨dataOffset, ⟨encodeFile metadata tensors payload, (encodeIndex metadata tensors).length,
    requests⟩, ?_, hstart', ?_⟩
  · rw [openFile, readIndex, bind_run_ok htables, Nat.zero_add]
    refine finishIndex_eq path (isPowerOfTwo_of_eq hk) hoffset ?_
    rw [placeTensors_eq hlength hplaces h.unique fun _ _ => rfl, BTreeMap.ofList, foldl_map]
  · intro t ht
    have := hplaces t ht
    rw [placed, UInt64.toNat_add, Nat.mod_eq_of_lt (by omega), hstart']

/-- Every supported metadata list and tensor table is read back from its encoding:
the retained metadata with the last value of a key, the tensors at the aligned end of
the index, and dropped arrays without a trace, because skipping an array takes the
bytes that reading it takes. -/
theorem index_of_encoding (h : Readable metadata tensors payload) : (∃ dataOffset reader,
      openFile path (encodeFile metadata tensors payload) =
        .ok ⟨path, retainedMetadata metadata,
          .ofList (tensors.map fun t => (t.name, placed dataOffset t)), dataOffset⟩ reader ∧
      dataOffset.toNat = dataStart metadata tensors ∧
      ∀ t ∈ tensors, (placed dataOffset t).offset.toNat =
        dataStart metadata tensors + t.offset.toNat) ∧
    ∀ (k : ElementKind) (values : List k.Carrier), (∀ v ∈ values, k.Fits v) →
      Consumes (readSmallArray path k.code values.length) (values.flatMap k.encode)
        (k.arrayValue values) ∧
      Consumes (skipArray path k.code values.length) (values.flatMap k.encode) () := by
  exact ⟨openFile_encoding path h, fun k values hfits =>
    ⟨consumes_readSmallArray path k values hfits, consumes_skipArray path k values⟩⟩

end

/-- A file with a small alignment, a repeated key, a retained and a dropped array. -/
def sampleMetadata : Metadata :=
  [("general.alignment", .scalar .uint32 8), ("layers", .scalar .int16 (-1)),
    ("layers", .array (.flat .uint8 [1, 2])), ("tokens", .array (.flat .string ["a", "b"]))]

def sampleTensors : List GgufTensor := [⟨"weight", [4, 2], 0, 8⟩]

theorem sample_alignment : (alignmentOf (retainedMetadata sampleMetadata)).toNat = 8 := by
  rfl

theorem sample_length :
    (encodeFile sampleMetadata sampleTensors (List.replicate 16 0)).length < 2 ^ 63 := by
  have hindex : (encodeIndex sampleMetadata sampleTensors).length < 1000 := by
    simp [encodeIndex, encodeHeader, encodeEntry, encodeTensor, sampleMetadata, sampleTensors,
      encodeString, MetadataValue.encode, MetadataArray.encode, ElementKind.encode, magicBytes]
    decide
  have hstart : dataStart sampleMetadata sampleTensors < 2000 := by
    simp only [dataStart, sample_alignment]
    omega
  simp only [encodeFile, length_append, length_replicate]
  omega

theorem sample_readable : Readable sampleMetadata sampleTensors (List.replicate 16 0) where
  keys := by decide
  values := by
    simp [sampleMetadata, MetadataValue.Supported, MetadataValue.Dropped, ElementKind.Fits]
  names := by decide
  ranks := by decide
  unique := by decide
  alignment := ⟨3, sample_alignment⟩
  present := by decide
  length := sample_length
  table := by decide

theorem sample_index : ∃ dataOffset reader,
    openFile "m.gguf" (encodeFile sampleMetadata sampleTensors (List.replicate 16 0)) =
      .ok ⟨"m.gguf", retainedMetadata sampleMetadata,
        .ofList [("weight", placed dataOffset ⟨"weight", [4, 2], 0, 8⟩)], dataOffset⟩ reader := by
  obtain ⟨⟨dataOffset, reader, hindex, -⟩, -⟩ := index_of_encoding "m.gguf" sample_readable
  exact ⟨dataOffset, reader, hindex⟩

/-! ## Refused encodings -/

section
variable (path : String)

theorem readString_fails {s : String} (hlong : maxStringBytes < s.utf8ByteSize)
    (hlength : s.utf8ByteSize < 2 ^ 63) :
    Fails (readString path) (encodeString s) (.format "GGUF string"
      s!"{UInt64.ofNat s.utf8ByteSize} bytes exceed the {maxStringBytes} byte limit") := by
  refine (consumes_readCount path (by omega)).bind_fails (Fails.bind ?_)
  rw [toNat_ofNat hlength]
  exact fails_ensure _ _ (decide_eq_false (by omega))

theorem readEntry_fails_key (m : BTreeMap String GgufValue)
    (hlong : maxStringBytes < entry.1.utf8ByteSize) (hlength : entry.1.utf8ByteSize < 2 ^ 63) :
    Fails (readMetadataEntry path m) (encodeEntry entry) (.format "GGUF string"
      s!"{UInt64.ofNat entry.1.utf8ByteSize} bytes exceed the {maxStringBytes} byte limit") :=
  ((readString_fails path hlong hlength).extend (prefix_append _ _)).bind

theorem readNestedArray_fails (arrays : List MetadataArray) (retainStrings : Bool)
    (harrays : arrays.length < 2 ^ 63) :
    Fails (readMetadataValue path 9 retainStrings) (MetadataArray.nested arrays).encode
      nestedArray := by
  refine (consumes_readU32 path 9).bind_fails ?_
  refine (consumes_readCount path (by omega)).bind_fails ?_
  -- both consumers of an array refuse the element type
  split
  · exact Fails.bind (fails_fail _ _)
  · exact Fails.map (fails_fail _ _)

theorem readEntry_fails_value (m : BTreeMap String GgufValue)
    (hkey : entry.1.utf8ByteSize ≤ maxStringBytes)
    (h : Fails (readMetadataValue path entry.2.code (entry.1 = "general.tensor_extra.name"))
      entry.2.encode e) : Fails (readMetadataEntry path m) (encodeEntry entry) e := by
  refine (consumes_readString path hkey).bind_fails ?_
  exact (consumes_readU32 path entry.2.code).bind_fails h.bind

theorem readTensor_fails (hname : t.name.utf8ByteSize ≤ maxStringBytes)
    (hrank : maxDimensions < t.dimensions.length) (hlength : t.dimensions.length < 2 ^ 32) :
    Fails (readTensor path) (encodeTensor t) (.format "GGUF tensor shape"
      s!"{t.name} has unsupported rank {UInt32.ofNat t.dimensions.length}") := by
  have hcount : (UInt32.ofNat t.dimensions.length).toNat = t.dimensions.length :=
    UInt32.toNat_ofNat_of_lt' hlength
  have hread := consumes_readU32 path (UInt32.ofNat t.dimensions.length)
  rw [hcount] at hread
  refine (consumes_readString path hname).bind_fails (hread.bind_fails (Fails.bind ?_))
  refine fails_ensure _ _ (decide_eq_false ?_)
  omega

theorem openFile_fails_entry (h : Fails (readMetadataEntry path .empty) (encodeEntry entry) e)
    (hlength : (encodeFile [entry] [] []).length < 2 ^ 63) :
    ∃ reader, openFile path (encodeFile [entry] [] []) = .error (.failed e) reader := by
  have htables : Fails (readTables path) (encodeIndex [entry] []) e := by
    refine (consumes_readHeader path (by simp) (by simp)).bind_fails (Fails.bind ?_)
    have hfirst : Fails (foldTimes 1 (readMetadataEntry path) .empty) (encodeEntry entry) e :=
      h.bind
    exact hfirst.extend ((prefix_append _ _).trans (prefix_append _ _))
  exact htables.bind _ ⟨Nat.zero_le _, hlength⟩ ⟨_, rfl⟩

theorem openFile_fails_tensor (h : Fails (readTensor path) (encodeTensor t) e)
    (hlength : (encodeFile [] [t] []).length < 2 ^ 63) :
    ∃ reader, openFile path (encodeFile [] [t] []) = .error (.failed e) reader := by
  have htables : Fails (readTables path) (encodeIndex [] [t]) e := by
    refine (consumes_readHeader path (by simp) (by simp)).bind_fails ?_
    refine (Consumes.pure _).bind_fails ((consumes_request (by simp [tensorSize])).bind_fails
      (Fails.bind ?_))
    have hfirst : Fails (times 1 (readTensor path)) (encodeTensor t) e := h.bind
    exact hfirst.extend (prefix_append _ _)
  exact htables.bind _ ⟨Nat.zero_le _, hlength⟩ ⟨_, rfl⟩

/-- Without retained metadata the default alignment bounds the padding. -/
theorem encodeFile_length_le {metadata : Metadata} (tensors : List GgufTensor)
    (payload : List UInt8) (h : retainedMetadata metadata = .empty) :
    (encodeFile metadata tensors payload).length ≤
      (encodeIndex metadata tensors).length + 31 + payload.length := by
  have halignment : (alignmentOf (retainedMetadata metadata)).toNat = 32 := by
    rw [h]
    rfl
  have hstart : dataStart metadata tensors ≤ (encodeIndex metadata tensors).length + 31 := by
    simp only [dataStart, halignment]
    omega
  simp only [encodeFile, length_append, length_replicate]
  omega

theorem retainedMetadata_dropped (key : String) {values : List UInt8}
    (h : maxRetainedArrayValues < values.length) :
    retainedMetadata [(key, .array (.flat .uint8 values))] = .empty := by
  have hdropped : MetadataValue.Dropped key .uint8 values := .inl h
  simp only [retainedMetadata, filterMap_cons, MetadataValue.retained, if_pos hdropped,
    Option.map_none, filterMap_nil]
  rfl

theorem openFile_fails_key {key : String} {values : List UInt8}
    (hlong : maxStringBytes < key.utf8ByteSize) (hkey : key.utf8ByteSize < 2 ^ 62)
    (hdropped : maxRetainedArrayValues < values.length) (hvalues : values.length < 2 ^ 61) :
    ∃ e reader, openFile path (encodeFile [(key, .array (.flat .uint8 values))] [] []) =
      .error (.failed e) reader := by
  have hentry : Fails (readMetadataEntry path .empty)
      (encodeEntry (key, .array (.flat .uint8 values))) _ :=
    readEntry_fails_key path .empty hlong (lt_trans hkey (by decide))
  have hlength := encodeFile_length_le [] [] (retainedMetadata_dropped key hdropped)
  have helements := length_flatMap_const values fun v => length_toLeBytes 1 (UInt8.toNat v)
  refine ⟨_, openFile_fails_entry path hentry (lt_of_le_of_lt hlength ?_)⟩
  simp only [encodeIndex, encodeHeader, encodeEntry, encodeString, MetadataValue.encode,
    MetadataArray.encode, magicBytes, flatMap_cons, flatMap_nil, length_append,
    length_cons, length_nil, length_toLeBytes, length_stringBytes]
  change _ + ((_ + (_ + (_ + (_ + (values.flatMap fun v => toLeBytes 1 (UInt8.toNat v)).length))) +
    0 + 0)) + _ + _ < _
  omega

end

/-- A key one byte over the limit. -/
def longKey : String := String.ofList (List.replicate (maxStringBytes + 1) 'a')

theorem longKey_size : longKey.utf8ByteSize = maxStringBytes + 1 := by
  rw [longKey, ← String.size_toByteArray]
  simp only [String.toByteArray_ofList, utf8Encode, size_toByteArray,
    length_flatMap, map_replicate, sum_replicate]
  exact Nat.mul_one _

/-- An array of arrays, a tensor of rank nine and a key over 16 MiB are refused. -/
theorem unsupported_encodings_refused :
    (∃ e reader, openFile "m.gguf" (encodeFile [("a", .array (.nested []))] [] []) =
      .error (.failed e) reader) ∧
    (∃ e reader, openFile "m.gguf" (encodeFile [] [⟨"a", List.replicate 9 1, 0, 0⟩] []) =
      .error (.failed e) reader) ∧
    ∃ e reader, openFile "m.gguf"
      (encodeFile [(longKey, .array (.flat .uint8 (List.replicate 1025 0)))] [] []) =
        .error (.failed e) reader := by
  refine ⟨?_, ?_, ?_⟩
  · have hentry : Fails (readMetadataEntry "m.gguf" .empty)
        (encodeEntry ("a", .array (.nested []))) nestedArray :=
      readEntry_fails_value "m.gguf" .empty (by decide)
        (readNestedArray_fails "m.gguf" [] _ (by decide))
    have hlength : (encodeFile [("a", .array (.nested []))] [] []).length ≤ _ :=
      encodeFile_length_le [] [] rfl
    exact ⟨_, openFile_fails_entry "m.gguf" hentry (lt_of_le_of_lt hlength (by decide))⟩
  · have htensor := readTensor_fails (t := ⟨"a", replicate 9 1, 0, 0⟩) "m.gguf"
      (by decide) (by decide) (by decide)
    have hlength : (encodeFile [] [⟨"a", replicate 9 1, 0, 0⟩] []).length ≤ _ :=
      encodeFile_length_le _ [] rfl
    exact ⟨_, openFile_fails_tensor "m.gguf" htensor (lt_of_le_of_lt hlength (by decide +kernel))⟩
  · have hsize := longKey_size
    have hmax : maxStringBytes < 2 ^ 61 := by decide
    refine openFile_fails_key "m.gguf" ?_ ?_ ?_ ?_
    · omega
    · omega
    · rw [length_replicate]
      decide
    · rw [length_replicate]
      decide

end Eider.Guarantees.GgufRoundTrip
