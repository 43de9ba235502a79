import Eider.Source.Nvfp4Artifact

/-!
# NVFP4 artifacts are read back

Reader and writer agree on every byte: a written artifact is read back as it was, and a file
that is accepted is the one that the artifact would be written to.
-/
namespace Eider.Guarantees.Nvfp4Artifacts
open Lib.ByteReader Source.Nvfp4Artifact List
open Source.Deepseek4 (Linear leF32)
open Source.GgufQuant (QuantError)

/-- The shape equations of an artifact. -/
structure Shaped (record : Linear) : Prop where
  elements : record.outFeatures * record.inFeatures < 2 ^ 64
  packed : record.packedWeight.length * 2 = record.outFeatures * record.inFeatures
  scales : record.weightScale.length * 16 = record.outFeatures * record.inFeatures
  outFeatures : record.outFeatures < 2 ^ 64
  inFeatures : record.inFeatures < 2 ^ 64

section
variable {record : Linear} {path : String} {bytes : List UInt8}

theorem shaped_of_validate (h : validate record = .ok ()) : Shaped record := by
  unfold validate at h
  dsimp only at h
  split at h
  · cases h
  split at h
  · cases h
  split at h
  · cases h
  rename_i hshape helements hlengths
  simp only [not_or, not_not] at hshape hlengths
  obtain ⟨hout, hin, hdvd⟩ := hshape
  obtain ⟨hpacked, hscales⟩ := hlengths
  have hsixteen : record.outFeatures * record.inFeatures % 16 = 0 := by
    rw [Nat.mul_mod, hdvd, Nat.mul_zero]
  have hout' := Nat.le_mul_of_pos_right record.outFeatures (Nat.pos_of_ne_zero hin)
  have hin' := Nat.le_mul_of_pos_left record.inFeatures (Nat.pos_of_ne_zero hout)
  constructor <;> omega

theorem length_encode : (encode record).length = headerBytes + (stringBytes record.tensor).length +
    record.packedWeight.length + record.weightScale.length := by
  simp [encode, headerBytes, magicBytes, leF32]
  omega

/-! ## Reading what was written -/

theorem consumes_readF32 (value : UInt32) : Consumes (readF32 path) (leF32 value) value := by
  have hread := (consumes_readLe 4 (eof path) value.toNat_lt).map (g := UInt32.ofNat)
  rwa [UInt32.ofNat_toNat] at hread

theorem consumes_okOr_tensor (tensor : String) (e : QuantError) :
    Consumes (okOr (String.fromUTF8? ⟨(stringBytes tensor).toArray⟩) e) [] tensor := by
  have hbytes : (⟨(stringBytes tensor).toArray⟩ : ByteArray) = tensor.toByteArray := by
    simp [stringBytes]
  rw [hbytes, String.fromUTF8?, dif_pos tensor.isValidUTF8]
  exact .pure tensor

theorem consumes_payload (h : validate record = .ok ()) :
    Consumes (do
      let tensor ← readExact (stringBytes record.tensor).length (eof path)
      let packedWeight ← readExact record.packedWeight.length (eof path)
      let weightScale ← readExact record.weightScale.length (eof path)
      let tensor ← okOr (String.fromUTF8? ⟨tensor.toArray⟩)
        (.format "NVFP4 artifact" s!"non-UTF-8 prefix in {path}")
      let read : Linear := ⟨tensor, record.outFeatures, record.inFeatures, packedWeight,
        weightScale, record.weightScale2, record.inputScale⟩
      match validate read with
      | .ok () => return read
      | .error e => fail e)
      (stringBytes record.tensor ++ (record.packedWeight ++ record.weightScale)) record := by
  refine (consumes_readExact _ _).bind ((consumes_readExact _ _).bind ?_)
  refine (consumes_readExact _ _).bind_last ((consumes_okOr_tensor _ _).bind_silent ?_)
  dsimp only
  rw [h]
  exact .pure record

/-- A valid record whose file has the length of its encoding. -/
theorem consumes_readRecord (h : validate record = .ok ())
    (hfile : (encode record).length < 2 ^ 63) :
    Consumes (readRecord path (encode record).length) (encode record) record := by
  obtain ⟨-, -, -, hout, hin⟩ := shaped_of_validate h
  have hlength := @length_encode record
  have header : headerBytes = 60 := rfl
  have sized : headerBytes + (stringBytes record.tensor).length + record.packedWeight.length +
      record.weightScale.length < 2 ^ 64 := by omega
  refine (consumes_readExact magicBytes _).bind ?_
  refine (consumes_readLe 4 _ (show version < 256 ^ 4 by decide)).bind ?_
  refine (consumes_ensure _ (by simp)).bind_silent ?_
  simp only [flatMap_cons, flatMap_nil, append_nil, append_assoc]
  refine (consumes_readLe 8 _ hout).bind ((consumes_readLe 8 _ hin).bind ?_)
  refine (consumes_readLe 8 _ (by omega)).bind ((consumes_readLe 8 _ (by omega)).bind ?_)
  refine (consumes_readLe 8 _ (by omega)).bind ?_
  refine (consumes_readF32 _).bind ((consumes_readF32 _).bind ?_)
  refine (consumes_ensure _ (decide_eq_true sized)).bind_silent ?_
  refine (consumes_ensure _ (decide_eq_true hlength)).bind_silent ?_
  refine (consumes_request (by omega)).bind_silent ((consumes_request (by omega)).bind_silent ?_)
  exact (consumes_request (by omega)).bind_silent (consumes_payload h)

theorem read_of_write (h : writeTo path record = .ok bytes) :
    ∃ s, readFrom path ⟨bytes, 0, []⟩ = .ok record s := by
  obtain ⟨⟨⟩, hvalid, h⟩ := Eider.Source.bind_ok h
  split at h
  · rename_i hfile
    cases h
    have whole : encode record <+: (encode record).drop 0 := by rw [drop_zero]
    have read : Consumes (readRecord path (encode record).length) (encode record) record :=
      consumes_readRecord hvalid hfile
    generalize encode record = bytes at *
    obtain ⟨requests, hrun⟩ := read ⟨bytes, 0, []⟩ ⟨Nat.zero_le _, hfile⟩ whole
    exact ⟨_, hrun⟩
  · cases h

/-! ## Writing what was read -/

theorem accepts_readF32 : Accepts (readF32 path) fun value bytes => bytes = leF32 value := by
  refine (accepts_readLe 4 _).map ?_
  rintro n bytes ⟨rfl, hlt⟩
  rw [leF32, UInt32.toNat_ofNat_of_lt' hlt]

theorem stringBytes_of_fromUTF8 {s : String} (h : String.fromUTF8? ⟨bytes.toArray⟩ = some s) :
    stringBytes s = bytes := by
  unfold String.fromUTF8? at h
  split at h
  · cases h
    simp [stringBytes, String.fromUTF8]
  · cases h

theorem accepts_readRecord (fileLen : Nat) :
    Accepts (readRecord path fileLen) fun record bytes =>
      validate record = .ok () ∧ bytes = encode record ∧ fileLen = (encode record).length := by
  refine (accepts_readExact 8 _).bind fun magic _ hmagic => ?_
  refine (accepts_readLe 4 _).bind fun stored _ hstored => ?_
  refine (accepts_ensure _ _).bind fun _ _ hheader => ?_
  refine (accepts_readLe 8 _).bind fun outFeatures _ hout => ?_
  refine (accepts_readLe 8 _).bind fun inFeatures _ hin => ?_
  refine (accepts_readLe 8 _).bind fun packedLen _ hpackedLen => ?_
  refine (accepts_readLe 8 _).bind fun scaleLen _ hscaleLen => ?_
  refine (accepts_readLe 8 _).bind fun tensorLen _ htensorLen => ?_
  refine accepts_readF32.bind fun weightScale2 _ hweight => ?_
  refine accepts_readF32.bind fun inputScale _ hinput => ?_
  refine (accepts_ensure _ _).bind fun _ _ hsized => (accepts_ensure _ _).bind fun _ _ hlen => ?_
  refine (accepts_request _).bind fun _ _ hfirst => (accepts_request _).bind fun _ _ hsecond => ?_
  refine (accepts_request _).bind fun _ _ hthird => (accepts_readExact _ _).bind fun tensor _ ht => ?_
  refine (accepts_readExact _ _).bind fun packed _ hp => ?_
  refine (accepts_readExact _ _).bind fun scales _ hs => ?_
  refine (accepts_okOr _ _).bind fun tensor' _ hstring => ?_
  dsimp only
  split
  · rename_i hvalid
    obtain ⟨rfl, -⟩ := hmagic
    obtain ⟨rfl, -⟩ := hstored
    obtain ⟨rfl, hheader⟩ := hheader
    obtain ⟨rfl, rfl⟩ := of_decide_eq_true hheader
    obtain ⟨rfl, -⟩ := hout
    obtain ⟨rfl, -⟩ := hin
    obtain ⟨rfl, -⟩ := hpackedLen
    obtain ⟨rfl, -⟩ := hscaleLen
    obtain ⟨rfl, -⟩ := htensorLen
    obtain ⟨rfl, -⟩ := hsized
    obtain ⟨rfl, hlen⟩ := hlen
    obtain ⟨rfl, -⟩ := hfirst
    obtain ⟨rfl, -⟩ := hsecond
    obtain ⟨rfl, -⟩ := hthird
    obtain ⟨rfl, htensor⟩ := ht
    obtain ⟨rfl, hpacked⟩ := hp
    obtain ⟨rfl, hscales⟩ := hs
    obtain ⟨rfl, hstring⟩ := hstring
    obtain rfl := stringBytes_of_fromUTF8 hstring
    refine .pure ⟨hvalid, ?_, ?_⟩
    · simp only [encode, flatMap_cons, flatMap_nil, append_nil, append_assoc,
        nil_append, htensor, hpacked, hscales, ← hweight, ← hinput]
    · rw [of_decide_eq_true hlen, length_encode, htensor, hpacked, hscales]
  · intro r s a hrun
    cases hrun

/-- A file that is accepted is the encoding of what is read. -/
theorem eq_encode_of_read {s : Reader} (h : readFrom path ⟨bytes, 0, []⟩ = .ok record s) :
    validate record = .ok () ∧ bytes = encode record := by
  obtain ⟨read, ⟨hvalid, rfl, hlength⟩, hstart, -⟩ :=
    accepts_readRecord bytes.length ⟨bytes, 0, []⟩ s record h
  exact ⟨hvalid, (hstart.eq_of_length hlength.symm).symm⟩

end

/-- A written artifact is read back, and a file that is accepted is the only one for its
artifact, which would be written to it again. -/
theorem artifacts_read_back (path : String) (record : Linear) (bytes : List UInt8) :
    (validate record = .ok () → writeTo path record = .ok bytes →
      ∃ s, readFrom path ⟨bytes, 0, []⟩ = .ok record s) ∧
    ∀ s, readFrom path ⟨bytes, 0, []⟩ = .ok record s →
      (bytes.length < 2 ^ 63 → writeTo path record = .ok bytes) ∧
      (∀ path' bytes' s', readFrom path' ⟨bytes', 0, []⟩ = .ok record s' → bytes' = bytes) ∧
      record.packedWeight.length * 2 = record.outFeatures * record.inFeatures ∧
      record.weightScale.length * 16 = record.outFeatures * record.inFeatures := by
  refine ⟨fun _ => read_of_write, fun s h => ?_⟩
  obtain ⟨hvalid, rfl⟩ := eq_encode_of_read h
  obtain ⟨-, hpacked, hscales, -⟩ := shaped_of_validate hvalid
  refine ⟨fun hsize => ?_, fun path' bytes' s' h' => (eq_encode_of_read h').2, hpacked, hscales⟩
  rw [writeTo, hvalid]
  exact if_pos hsize

/-- One row of 16 values. -/
def oneRow : Linear :=
  ⟨"w", 1, 16, [1, 2, 3, 4, 5, 6, 7, 8], [0x38], 0x3f800000, 0x3f800000⟩

theorem one_row_read_back : writeTo "row.nvfp4" oneRow = .ok (encode oneRow) ∧
    (∃ s, readFrom "row.nvfp4" ⟨encode oneRow, 0, []⟩ = .ok oneRow s) ∧
    (∀ path' bytes' s', readFrom path' ⟨bytes', 0, []⟩ = .ok oneRow s' →
      bytes' = encode oneRow) ∧
    oneRow.packedWeight.length * 2 = 16 ∧ oneRow.weightScale.length * 16 = 16 := by
  have hvalid : validate oneRow = .ok () := by decide +kernel
  have hwritten : writeTo "row.nvfp4" oneRow = .ok (encode oneRow) := by decide +kernel
  obtain ⟨hread, hkept⟩ := artifacts_read_back "row.nvfp4" oneRow (encode oneRow)
  obtain ⟨s, h⟩ := hread hvalid hwritten
  exact ⟨hwritten, ⟨s, h⟩, (hkept s h).2⟩

end Eider.Guarantees.Nvfp4Artifacts
