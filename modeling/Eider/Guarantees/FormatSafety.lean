import Eider.Guarantees.GgufRoundTrip
import Eider.Source.SafeTensors

/-!
# Opening checkpoint files of any content

What `GgufIndex::open` and `SafeTensorShard::open` do on every byte string:
`opening_is_safe`. A string of a GGUF file is read into a buffer of its declared
length, up to 16 MiB, and the start of the data is checked only through the tensors,
so a small file may do both of `small_files_exceed_themselves`.

Two declared sizes go into an allocation as they are: the number of GGUF tensors and
the length of the safetensors header. The results say nothing of sizes that no
allocation can have.
-/
namespace Eider.Guarantees.FormatSafety
open Lib Lib.ByteReader Source

variable {s : Reader} {file : List UInt8}

/-! ## GGUF -/

section
open Source.Gguf
variable (path : String) {allowed : Nat → Prop}

theorem calm_readU8 : Calm allowed (readU8 path) := (calm_readLe _ _).map
theorem calm_readI8 : Calm allowed (readI8 path) := (calm_readU8 path).map
theorem calm_readU16 : Calm allowed (readU16 path) := Calm.map (calm_readLe _ _)
theorem calm_readI16 : Calm allowed (readI16 path) := (calm_readU16 path).map
theorem calm_readU32 : Calm allowed (readU32 path) := Calm.map (calm_readLe _ _)
theorem calm_readI32 : Calm allowed (readI32 path) := (calm_readU32 path).map
theorem calm_readF32 : Calm allowed (readF32 path) := (calm_readU32 path).map
theorem calm_readU64 : Calm allowed (readU64 path) := Calm.map (calm_readLe _ _)
theorem calm_readI64 : Calm allowed (readI64 path) := (calm_readU64 path).map
theorem calm_readF64 : Calm allowed (readF64 path) := (calm_readU64 path).map

theorem calm_readBool : Calm allowed (readBool path) := by
  refine (calm_readU8 path).bind fun value => ?_
  split
  · exact .pure false
  · split
    · exact .pure true
    · exact calm_fail _

theorem calm_skipBytes (bytes : Nat) : Calm allowed (skipBytes path bytes) :=
  (calm_ensure _ _).bind fun _ => calm_seekForward _ _

theorem calm_skipArray (elementKind : UInt32) (count : Nat) :
    Calm allowed (skipArray path elementKind count) := by
  rw [skipArray]
  split
  · exact calm_fail _
  · split
    · exact calm_foldTimes _ _ fun _ => (calm_readU64 path).bind fun _ => calm_skipBytes path _
    · exact (calm_okOr _ _).bind fun _ => (calm_ensure _ _).bind fun _ => calm_skipBytes path _

section
variable (hallowed : ∀ size ≤ maxStringBytes, allowed size)
include hallowed

theorem calm_readString : Calm allowed (readString path) := by
  intro r
  refine (calm_readU64 path r).bind fun length t _ => ?_
  refine (calm_ensure _ _ t).bind fun _ t' hensure => ?_
  have hlength := of_decide_eq_true (ensure_ok_inv hensure).1
  refine (calm_request (hallowed _ hlength) (lt_of_le_of_lt hlength (by decide))).bind
    (fun _ => ?_) t'
  exact (calm_readExact _ _).bind fun _ => calm_okOr _ _

theorem calm_readSmallArray (elementKind : UInt32) (count : Nat) :
    Calm allowed (readSmallArray path elementKind count) := by
  rw [readSmallArray]
  split
  · exact (calm_times _ (calm_readU8 path).map).map
  · exact (calm_times _ (calm_readU16 path).map).map
  · exact (calm_times _ (calm_readU32 path).map).map
  · exact (calm_times _ (calm_readU64 path)).map
  · exact (calm_times _ (calm_readI8 path).map).map
  · exact (calm_times _ (calm_readI16 path).map).map
  · exact (calm_times _ (calm_readI32 path).map).map
  · exact (calm_times _ (calm_readI64 path)).map
  · exact (calm_times _ (calm_readF32 path).map).map
  · exact (calm_times _ (calm_readF64 path)).map
  · exact (calm_times _ (calm_readBool path)).map
  · exact calm_fail _
  · exact (calm_times _ (calm_readString path hallowed)).map
  · exact calm_fail _

theorem calm_readMetadataValue (kind : UInt32)
    (retainStrings : Bool) : Calm allowed (readMetadataValue path kind retainStrings) := by
  rw [readMetadataValue]
  split
  · exact (calm_readU8 path).map
  · exact (calm_readI8 path).map
  · exact (calm_readU16 path).map
  · exact (calm_readI16 path).map
  · exact (calm_readU32 path).map
  · exact (calm_readI32 path).map
  · exact (calm_readF32 path).map
  · exact (calm_readBool path).map
  · exact (calm_readString path hallowed).map
  · refine (calm_readU32 path).bind fun elementKind => (calm_readU64 path).bind fun count => ?_
    split
    · exact (calm_skipArray path _ _).bind fun _ => .pure none
    · exact (calm_readSmallArray path hallowed _ _).map
  · exact (calm_readU64 path).map
  · exact (calm_readI64 path).map
  · exact (calm_readF64 path).map
  · exact calm_fail _

theorem calm_readMetadataEntry
    (metadata : BTreeMap String GgufValue) : Calm allowed (readMetadataEntry path metadata) := by
  refine (calm_readString path hallowed).bind fun key => (calm_readU32 path).bind fun kind => ?_
  refine (calm_readMetadataValue path hallowed _ _).bind fun value => ?_
  cases value with
  | none => exact .pure metadata
  | some value => exact .pure (metadata.insert key value)

theorem calm_readTensor : Calm allowed (readTensor path) := by
  refine (calm_readString path hallowed).bind fun name => (calm_readU32 path).bind fun rank => ?_
  refine (calm_ensure _ _).bind fun _ => (calm_times _ (calm_readU64 path)).bind fun _ => ?_
  exact (calm_readU32 path).bind fun _ => (calm_readU64 path).bind fun _ => .pure _

end

theorem calm_readHeader : Calm allowed (readHeader path) := by
  refine (calm_readExact _ _).bind fun magic => (calm_ensure _ _).bind fun _ => ?_
  refine (calm_readU32 path).bind fun version => (calm_ensure _ _).bind fun _ => ?_
  exact (calm_readU64 path).bind fun _ => (calm_readU64 path).bind fun _ => .pure _

theorem calm_finishIndex (metadata : BTreeMap String GgufValue) (tensors : List GgufTensor) :
    Calm allowed (finishIndex path metadata tensors) := by
  refine (calm_ensure _ _).bind fun _ => calm_streamPosition.bind fun indexEnd => ?_
  refine (calm_okOr _ _).bind fun dataOffset => calm_fileLength.bind fun fileLen => ?_
  cases placeTensors dataOffset fileLen tensors .empty with
  | error e => exact calm_fail e
  | ok placed => exact .pure _

/-- The number of tensors that the header declares. -/
def declaredTensors (file : List UInt8) : Nat := ofLeBytes ((file.drop 8).take 8)

theorem readU64_ok {r : Reader} {v : UInt64} (h : readU64 path r = .ok v s) :
    v.toNat = ofLeBytes ((r.file.drop r.position).take 8) ∧
      s = { r with position := r.position + 8 } := by
  obtain ⟨n, hnumber, rfl⟩ := map_ok_inv h
  obtain ⟨bytes, hbytes, rfl⟩ := map_ok_inv hnumber
  obtain ⟨rfl, rfl, hinside⟩ := readExact_ok_inv hbytes
  have hlt := ofLeBytes_lt ((r.file.drop r.position).take 8)
  have hlength : ((r.file.drop r.position).take 8).length ≤ 8 := List.length_take_le _ _
  have hpow := Nat.pow_le_pow_right (by decide : 0 < 256) hlength
  exact ⟨UInt64.toNat_ofNat_of_lt' (lt_of_lt_of_le hlt hpow), rfl⟩

theorem readHeader_ok {tensorCount metadataCount : UInt64}
    (h : readHeader path ⟨file, 0, []⟩ = .ok (tensorCount, metadataCount) s) :
    tensorCount.toNat = declaredTensors file := by
  obtain ⟨magic, r₁, hmagic, h⟩ := bind_ok_inv h
  obtain ⟨-, rfl, -⟩ := readExact_ok_inv hmagic
  obtain ⟨_, r₂, hensure, h⟩ := bind_ok_inv h
  obtain ⟨-, rfl⟩ := ensure_ok_inv hensure
  obtain ⟨version, r₃, hversion, h⟩ := bind_ok_inv h
  obtain ⟨n, hnumber, -⟩ := map_ok_inv hversion
  obtain ⟨bytes, hbytes, -⟩ := map_ok_inv hnumber
  obtain ⟨-, rfl, -⟩ := readExact_ok_inv hbytes
  obtain ⟨_, r₄, hensure, h⟩ := bind_ok_inv h
  obtain ⟨-, rfl⟩ := ensure_ok_inv hensure
  obtain ⟨count, r₅, hcount, h⟩ := bind_ok_inv h
  obtain ⟨other, r₆, -, h⟩ := bind_ok_inv h
  cases h
  exact (readU64_ok path hcount).1

/-- The buffers of an index: strings, and the table of the tensors. -/
def IndexBuffer (file : List UInt8) (size : Nat) : Prop :=
  size ≤ maxStringBytes ∨ size = declaredTensors file * tensorSize

theorem calm_readTables (htable : declaredTensors file * tensorSize < 2 ^ 63) :
    CalmAt (IndexBuffer file) (readTables path) ⟨file, 0, []⟩ := by
  have hallowed : ∀ size ≤ maxStringBytes, IndexBuffer file size := fun _ => .inl
  refine (calm_readHeader path _).bind fun counts t hheader => ?_
  have hcount := readHeader_ok path hheader
  refine (calm_foldTimes _ _ (calm_readMetadataEntry path hallowed)).bind (fun metadata => ?_) t
  refine (calm_request (.inr (by rw [hcount])) (by rw [hcount]; exact htable)).bind fun _ => ?_
  exact (calm_times _ (calm_readTensor path hallowed)).bind fun _ => .pure _

theorem calm_readIndex (htable : declaredTensors file * tensorSize < 2 ^ 63) :
    CalmAt (IndexBuffer file) (readIndex path) ⟨file, 0, []⟩ :=
  (calm_readTables path htable).bind fun _ t _ => calm_finishIndex path _ _ t

/-- Behind the two tables, the table of the tensors has been allocated. -/
theorem readTables_table {t : Reader} {tables : BTreeMap String GgufValue × List GgufTensor}
    (h : readTables path ⟨file, 0, []⟩ = .ok tables t) :
    declaredTensors file * tensorSize < 2 ^ 63 := by
  obtain ⟨⟨tensorCount, metadataCount⟩, r₁, hheader, h₁⟩ := bind_ok_inv h
  obtain ⟨metadata, r₂, -, h₂⟩ := bind_ok_inv h₁
  obtain ⟨_, r₃, hrequest, -⟩ := bind_ok_inv h₂
  rw [← readHeader_ok path hheader]
  exact (request_ok_inv hrequest).1

theorem placeTensors_ok {dataOffset : UInt64} {fileLen : Nat} {tensors : List GgufTensor}
    {acc placed : BTreeMap String GgufTensor}
    (h : placeTensors dataOffset fileLen tensors acc = .ok placed)
    (hacc : ∀ name t, acc.get name = some t →
      dataOffset.toNat ≤ t.offset.toNat ∧ t.offset.toNat ≤ fileLen) :
    ∀ name t, placed.get name = some t →
      dataOffset.toNat ≤ t.offset.toNat ∧ t.offset.toNat ≤ fileLen := by
  induction tensors generalizing acc with
  | nil =>
    cases h
    exact hacc
  | cons tensor rest ih =>
    rw [placeTensors, checkedAdd] at h
    split at h
    · cases h
    rename_i offset hadd
    split at hadd
    · rename_i hsum
      cases hadd
      split at h
      · cases h
      rename_i hinside
      split at h
      · cases h
      refine ih h fun name t hget => ?_
      rw [BTreeMap.get_insert] at hget
      split at hget
      · cases hget
        rw [UInt64.toNat_add, Nat.mod_eq_of_lt hsum] at hinside ⊢
        omega
      · exact hacc name t hget
    · cases hadd

theorem readIndex_ok {index : GgufIndex} (h : readIndex path ⟨file, 0, []⟩ = .ok index s) :
    ∃ tensors, placeTensors index.dataOffset file.length tensors .empty = .ok index.tensors := by
  obtain ⟨⟨metadata, tensors⟩, t, htables, h₁⟩ := bind_ok_inv h
  have hfile := (calm_readTables path (readTables_table path htables)).file
  rw [rest_ok htables] at hfile
  refine ⟨tensors, ?_⟩
  obtain ⟨_, r₁, hensure, h₂⟩ := bind_ok_inv h₁
  rw [(ensure_ok_inv hensure).2] at h₂
  obtain ⟨indexEnd, r₂, hposition, h₃⟩ := bind_ok_inv h₂
  cases hposition
  obtain ⟨dataOffset, r₃, hoffset, h₄⟩ := bind_ok_inv h₃
  rw [(okOr_ok_inv hoffset).2] at h₄
  obtain ⟨fileLen, r₄, hlength, h₅⟩ := bind_ok_inv h₄
  cases hlength
  cases hplaces : placeTensors dataOffset t.file.length tensors .empty with
  | error e =>
    rw [hplaces] at h₅
    cases h₅
  | ok placed =>
    rw [hplaces] at h₅
    cases h₅
    rw [hfile] at hplaces
    exact hplaces

end

/-! ## Safetensors -/

section
open Source.SafeTensors
variable (fromSlice : List UInt8 → Except String Value) (path : String)

/-- The length of the header that the file declares. -/
def declaredHeader (file : List UInt8) : Nat := ofLeBytes (file.take 8)

theorem readShard_quiet (hheader : declaredHeader file < 2 ^ 63) :
    CalmAt (· = declaredHeader file) (readShard fromSlice path) ⟨file, 0, []⟩ := by
  refine (calm_readLe _ _ _).bind fun headerLen t hlen => ?_
  obtain ⟨bytes, hbytes, rfl⟩ := map_ok_inv hlen
  obtain ⟨rfl, rfl, -⟩ := readExact_ok_inv hbytes
  have hrequest : Calm (· = declaredHeader file)
      (request (ofLeBytes ((file.drop 0).take 8)) : Reading FormatError Unit) :=
    calm_request rfl hheader
  refine hrequest.bind (fun _ => ?_) _
  refine (calm_readExact _ _).bind fun headerBytes => ?_
  cases fromSlice headerBytes with
  | error e => exact calm_fail _
  | ok header =>
    dsimp only
    cases parseHeader header with
    | error e => exact calm_fail _
    | ok tensors =>
      have hsum : 8 + ofLeBytes ((file.drop 0).take 8) < 2 ^ 64 := by
        change 8 + declaredHeader file < 2 ^ 64
        omega
      rw [addU64, if_pos hsum]
      exact .pure _

theorem readShard_ok {shard : SafeTensorShard}
    (h : readShard fromSlice path ⟨file, 0, []⟩ = .ok shard s) :
    shard.dataStart = 8 + declaredHeader file ∧ shard.dataStart ≤ file.length ∧
      s.requests = [declaredHeader file] := by
  obtain ⟨headerLen, r₁, hlen, h⟩ := bind_ok_inv h
  obtain ⟨bytes, hbytes, rfl⟩ := map_ok_inv hlen
  obtain ⟨rfl, rfl, height⟩ := readExact_ok_inv hbytes
  obtain ⟨_, r₂, hrequest, h⟩ := bind_ok_inv h
  obtain ⟨-, rfl⟩ := request_ok_inv hrequest
  obtain ⟨headerBytes, r₃, hread, h⟩ := bind_ok_inv h
  obtain ⟨-, rfl, hinside⟩ := readExact_ok_inv hread
  cases hslice : fromSlice headerBytes with
  | error e =>
    rw [hslice] at h
    cases h
  | ok header =>
    rw [hslice] at h
    dsimp only at h
    cases hheader : parseHeader header with
    | error e =>
      rw [hheader] at h
      cases h
    | ok tensors =>
      rw [hheader] at h
      dsimp only [addU64] at h
      split at h
      · cases h
        refine ⟨rfl, ?_, rfl⟩
        change 8 + declaredHeader file ≤ file.length
        change declaredHeader file = 0 ∨ 0 + 8 + declaredHeader file ≤ file.length at hinside
        change 8 = 0 ∨ 0 + 8 ≤ file.length at height
        omega
      · cases h

end

/-- On every byte string, where the two sizes that go into an allocation as they are
can be allocated: neither reader panics or overflows, the other buffers of an index
have at most 16 MiB, the tensors of an index lie in the file behind the start of its
data, and the data of a shard starts in the file, behind a header that is in it. -/
theorem opening_is_safe (path : String) (fromSlice : List UInt8 → Except String Value)
    (file : List UInt8) :
    (declaredTensors file * Gguf.tensorSize < 2 ^ 63 →
      (∀ s message, Gguf.openFile path file ≠ .error (.panicked message) s) ∧
      ∀ size ∈ (rest (Gguf.readIndex path) ⟨file, 0, []⟩).requests,
        size ≤ Gguf.maxStringBytes ∨ size = declaredTensors file * Gguf.tensorSize) ∧
    (∀ index s, Gguf.openFile path file = .ok index s →
      ∀ name t, index.tensors.get name = some t →
        index.dataOffset.toNat ≤ t.offset.toNat ∧ t.offset.toNat ≤ file.length) ∧
    (declaredHeader file < 2 ^ 63 →
      ∀ s message, SafeTensors.openFile fromSlice path file ≠ .error (.panicked message) s) ∧
    ∀ shard s, SafeTensors.openFile fromSlice path file = .ok shard s →
      shard.dataStart = 8 + declaredHeader file ∧ shard.dataStart ≤ file.length ∧
        ∀ size ∈ s.requests, size ≤ file.length := by
  refine ⟨fun htable => ?_, fun index s h => ?_, fun hheader => ?_, fun shard s h => ?_⟩
  · have hcalm := calm_readIndex path htable
    refine ⟨hcalm.quiet, fun size hsize => ?_⟩
    rcases hcalm.requests size hsize with hbuffer | hbefore
    · exact hbuffer
    · cases hbefore
  · obtain ⟨tensors, hplaces⟩ := readIndex_ok path h
    exact placeTensors_ok hplaces fun name t hget => by cases hget
  · exact (readShard_quiet fromSlice path hheader).quiet
  · obtain ⟨hstart, hinside, hrequests⟩ := readShard_ok fromSlice path h
    refine ⟨hstart, hinside, fun size hsize => ?_⟩
    rw [hrequests, List.mem_singleton] at hsize
    omega

/-- The shard `{"t":{"dtype":"U8","shape":[2],"data_offsets":[0,2]}}` with its two bytes of
data, and what `serde_json` reads from its header. -/
def shardHeader : List UInt8 :=
  "\x7b\"t\":\x7b\"dtype\":\"U8\",\"shape\":[2],\"data_offsets\":[0,2]\x7d\x7d".toList.map
    fun c => c.toNat.toUInt8

def shardFile : List UInt8 := toLeBytes 8 shardHeader.length ++ shardHeader ++ [7, 9]

def shardFromSlice (bytes : List UInt8) : Except String Value :=
  if bytes = shardHeader then
    .ok (.object [("t".toList, .object [("dtype".toList, .string "U8".toList),
      ("shape".toList, .array [.number ['2']]),
      ("data_offsets".toList, .array [.number ['0'], .number ['2']])])])
  else .error "expected value"

section
open GgufRoundTrip

/-- A GGUF file with numbers, arrays, strings and a tensor, and a shard with one tensor. -/
theorem sample_files_open_safely :
    let file := encodeFile sampleMetadata sampleTensors (List.replicate 16 0)
    ((∀ s message, Gguf.openFile "m.gguf" file ≠ .error (.panicked message) s) ∧
      (∀ size ∈ (rest (Gguf.readIndex "m.gguf") ⟨file, 0, []⟩).requests,
        size ≤ Gguf.maxStringBytes ∨ size = declaredTensors file * Gguf.tensorSize) ∧
      ∃ index s t, Gguf.openFile "m.gguf" file = .ok index s ∧ index.tensors.get "weight" = some t ∧
        index.dataOffset.toNat ≤ t.offset.toNat ∧ t.offset.toNat ≤ file.length) ∧
    (∀ s message, SafeTensors.openFile shardFromSlice "m.safetensors" shardFile ≠
      .error (.panicked message) s) ∧
    ∃ shard s, SafeTensors.openFile shardFromSlice "m.safetensors" shardFile = .ok shard s ∧
      shard.tensors.get "t".toList = some ⟨"U8".toList, [2], 0, 2⟩ ∧
      shard.dataStart = 8 + declaredHeader shardFile ∧ shard.dataStart ≤ shardFile.length ∧
      ∀ size ∈ s.requests, size ≤ shardFile.length := by
  intro file
  constructor
  · obtain ⟨hquiet, hplaces, -⟩ := opening_is_safe "m.gguf" shardFromSlice file
    have htable : declaredTensors file * Gguf.tensorSize < 2 ^ 63 := by decide
    obtain ⟨dataOffset, reader, hopen, -⟩ := openFile_encoding "m.gguf" sample_readable
    refine ⟨(hquiet htable).1, (hquiet htable).2, _, _, _, hopen, rfl, ?_⟩
    exact hplaces _ _ hopen "weight" _ rfl
  · obtain ⟨-, -, hquiet, hplaces⟩ := opening_is_safe "m.safetensors" shardFromSlice shardFile
    refine ⟨hquiet (by decide), ?_⟩
    have hopen : ∃ shard s, SafeTensors.openFile shardFromSlice "m.safetensors" shardFile =
        .ok shard s ∧ shard.tensors.get "t".toList = some ⟨"U8".toList, [2], 0, 2⟩ :=
      ⟨_, _, rfl, by decide⟩
    obtain ⟨shard, s, hok, htensor⟩ := hopen
    exact ⟨shard, s, hok, htensor, hplaces shard s hok⟩

end

/-- A file without metadata and tensors, and one that declares a key of 16 MiB. -/
def emptyFile : List UInt8 :=
  Gguf.magicBytes ++ toLeBytes 4 3 ++ toLeBytes 8 0 ++ toLeBytes 8 0

def longKeyFile : List UInt8 :=
  Gguf.magicBytes ++ toLeBytes 4 3 ++ toLeBytes 8 0 ++ toLeBytes 8 1 ++
    toLeBytes 8 Gguf.maxStringBytes

/-- An index whose data starts behind the end of its file, and a buffer larger than
the file it is for. -/
theorem small_files_exceed_themselves : (∃ index s, Gguf.openFile "m.gguf" emptyFile = .ok index s ∧
      emptyFile.length < index.dataOffset.toNat) ∧
    ∃ size ∈ (rest (Gguf.readIndex "m.gguf") ⟨longKeyFile, 0, []⟩).requests,
      longKeyFile.length < size := by
  exact ⟨⟨_, _, rfl, by decide⟩, Gguf.maxStringBytes, by decide, by decide⟩

end Eider.Guarantees.FormatSafety
