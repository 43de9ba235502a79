import Eider.Guarantees.QuantLayout

/-!
The two formats as instances of one: blocks of some size, with a layout and an element for
every position. Accepted bytes are the blocks of a tensor, and the blocks are their fields.
-/
namespace Eider.Guarantees.QuantFormats
open Lib Source.GgufQuant Guarantees.QuantLayout List

/-- A block format: its layout, and the element at a position from the fields. -/
structure QuantFormat where
  kind : Nat
  blockBytes : Nat
  Field : Type
  width : Field → Nat
  layout : BitLayout blockBytes Field width
  element : ((field : Field) → BitVec (width field)) → Fin 256 → BitVec 16

/-- The bytes of a block. -/
def QuantFormat.block (format : QuantFormat) (bytes : List (BitVec 8)) (index : Nat) :
    List (BitVec 8) := (bytes.drop (index * format.blockBytes)).take format.blockBytes

/-- The fields of a block. -/
def QuantFormat.fields (format : QuantFormat) (bytes : List (BitVec 8)) (index : Nat) :
    (field : format.Field) → BitVec (format.width field) :=
  format.layout.read (blockOf format.blockBytes (format.block bytes index))

section
variable {F : Type} (ops : FloatOps F)

def q4KFormat : QuantFormat where
  kind := ggmlTypeQ4K
  blockBytes := q4KBlockBytes
  Field := Q4KField
  width := Q4KField.width
  layout := q4KLayout
  element := q4KElement ops

def q6KFormat : QuantFormat where
  kind := ggmlTypeQ6K
  blockBytes := q6KBlockBytes
  Field := Q6KField
  width := Q6KField.width
  layout := q6KLayout
  element := q6KElement ops

/-- What the decoder makes of a format. -/
structure Decodes (format : QuantFormat) : Prop where
  /-- As many elements as asked for, each made of the fields of its own block. -/
  elements : ∀ bytes elements result,
    dequantizeToBf16 ops format.kind bytes elements = .ok result →
      result.length = elements ∧ ∀ e < elements,
        result[e]? = some (format.element (format.fields bytes (e / 256)) (Fin.ofNat 256 e))
  /-- Every bit of a block is a bit of a field, and of only one. -/
  bits : ∀ place : Fin format.blockBytes × Fin 8,
    ∃! bit : (field : format.Field) × Fin (format.width field),
      format.layout.place bit.1 bit.2 = place
  /-- A field consists of the bits at its places. -/
  reads : ∀ bytes index field k, (format.fields bytes index field).getLsb k =
    (byteAt (format.block bytes index) (format.layout.place field k).1).getLsb
      (format.layout.place field k).2
  /-- Other bytes have other fields. -/
  differ : ∀ bytes bytes' elements result result',
    dequantizeToBf16 ops format.kind bytes elements = .ok result →
    dequantizeToBf16 ops format.kind bytes' elements = .ok result' → bytes ≠ bytes' →
      ∃ index < elements / 256, ∃ field,
        format.fields bytes index field ≠ format.fields bytes' index field
  /-- Any fields are those of some bytes that are accepted. -/
  onto : ∀ elements length, quantizedByteLen format.kind elements = .ok length →
    ∀ fields : Nat → (field : format.Field) → BitVec (format.width field),
      ∃ bytes result, dequantizeToBf16 ops format.kind bytes elements = .ok result ∧
        ∀ index < elements / 256, format.fields bytes index = fields index

end

variable {bytes : List (BitVec 8)}

section
variable (format : QuantFormat)

theorem byteAt_block (bytes : List (BitVec 8)) (index : Nat) {offset : Nat}
    (h : offset < format.blockBytes) :
    byteAt (format.block bytes index) offset =
      byteAt bytes (index * format.blockBytes + offset) := by
  rw [QuantFormat.block, byteAt_take _ h, byteAt_drop]

theorem length_block {index count : Nat} (hlength : bytes.length = count * format.blockBytes)
    (hindex : index < count) : (format.block bytes index).length = format.blockBytes := by
  have hnext : (index + 1) * format.blockBytes ≤ count * format.blockBytes :=
    Nat.mul_le_mul_right _ hindex
  rw [Nat.succ_mul] at hnext
  rw [QuantFormat.block, length_take, length_drop, hlength]
  omega

theorem fields_injective {bytes' : List (BitVec 8)} {count : Nat}
    (hlength : bytes.length = count * format.blockBytes)
    (hlength' : bytes'.length = count * format.blockBytes)
    (h : ∀ index < count, format.fields bytes index = format.fields bytes' index) :
    bytes = bytes' := by
  apply ext_getElem (hlength.trans hlength'.symm)
  intro i hi hi'
  have hpositive : 0 < format.blockBytes := by
    rw [hlength] at hi
    exact Nat.pos_of_ne_zero fun h => by simp [h] at hi
  have hcount : i / format.blockBytes < count :=
    (Nat.div_lt_iff_lt_mul hpositive).mpr (hlength ▸ hi)
  have hoffset : i % format.blockBytes < format.blockBytes := Nat.mod_lt _ hpositive
  have hblock := congrFun (format.layout.read_injective (h _ hcount)) ⟨_, hoffset⟩
  have hindex : i / format.blockBytes * format.blockBytes + i % format.blockBytes = i :=
    Nat.div_add_mod' i format.blockBytes
  simp only [blockOf, byteAt_block format _ _ hoffset, hindex] at hblock
  simpa [byteAt, hi, hi'] using hblock

variable (fields : Nat → (field : format.Field) → BitVec (format.width field))

/-- The bytes whose blocks have given fields. -/
def encode (count : Nat) : List (BitVec 8) :=
  (List.range count).flatMap fun index => List.ofFn (format.layout.write (fields index))

theorem length_encode
    (count : Nat) : (encode format fields count).length = count * format.blockBytes :=
  length_flatMap_range fun _ _ => length_ofFn

theorem fields_encode {count index : Nat} (hindex : index < count) :
    format.fields (encode format fields count) index = fields index := by
  have hblock : blockOf format.blockBytes (format.block (encode format fields count) index) =
      format.layout.write (fields index) := by
    funext offset
    have hpositive : 0 < format.blockBytes := Nat.zero_lt_of_lt offset.isLt
    have hnext : (index + 1) * format.blockBytes ≤ count * format.blockBytes :=
      Nat.mul_le_mul_right _ hindex
    rw [Nat.succ_mul] at hnext
    have hchunk : (index * format.blockBytes + offset) / format.blockBytes = index := by
      rw [Nat.mul_comm, Nat.mul_add_div hpositive, Nat.div_eq_of_lt offset.isLt, Nat.add_zero]
    have hrest : (index * format.blockBytes + offset) % format.blockBytes = offset := by
      rw [Nat.mul_comm, Nat.mul_add_mod, Nat.mod_eq_of_lt offset.isLt]
    rw [blockOf, byteAt_block format _ _ offset.isLt, byteAt, getD_eq_getElem?_getD, encode,
      getElem?_flatMap_range (fun _ _ => length_ofFn) (by omega), hchunk, hrest]
    simp
  rw [QuantFormat.fields, hblock, format.layout.read_write]

end

section
variable {F : Type} (ops : FloatOps F)

/-- The bytes of a block of a kind. -/
def blockBytesOf (kind : Nat) : Nat := if kind = ggmlTypeQ4K then q4KBlockBytes else q6KBlockBytes

theorem quantizedByteLen_ok {kind elements length : Nat}
    (h : quantizedByteLen kind elements = .ok length) :
    elements % qkK = 0 ∧ length = elements / qkK * blockBytesOf kind := by
  unfold quantizedByteLen at h
  by_cases hdivides : elements % qkK = 0
  · refine ⟨hdivides, ?_⟩
    by_cases h4 : kind = ggmlTypeQ4K
    · subst h4
      simp only [Bind.bind, Except.bind, Pure.pure, Except.pure, hdivides, ne_eq,
        not_true_eq_false, if_false, if_true] at h
      split at h
      · exact (Except.ok.inj h).symm
      · cases h
    · by_cases h6 : kind = ggmlTypeQ6K
      · subst h6
        simp only [Bind.bind, Except.bind, Pure.pure, Except.pure, hdivides, ne_eq,
          not_true_eq_false, if_false, if_true, if_neg h4] at h
        split at h
        · exact (Except.ok.inj h).symm
        · cases h
      · simp [Bind.bind, Except.bind, hdivides, h4, h6, throw, throwThe, MonadExceptOf.throw] at h
  · simp [Bind.bind, Except.bind, hdivides, throw, throwThe, MonadExceptOf.throw] at h

/-- What the decoder makes of a block of a kind. -/
def decodeBlock (kind : Nat) (block : List (BitVec 8)) : List (BitVec 16) :=
  if kind = ggmlTypeQ4K then (dequantizeQ4KBlock ops block).map (f32ToBf16 ops)
  else dequantizeQ6KBlock ops block (List.replicate qkK 0)

variable {ops}

theorem dequantizeToBf16_iff {kind elements : Nat} {result : List (BitVec 16)} :
    dequantizeToBf16 ops kind bytes elements = .ok result ↔
      quantizedByteLen kind elements = .ok bytes.length ∧
        result = (chunksExact (blockBytesOf kind) bytes).flatMap (decodeBlock ops kind) := by
  unfold dequantizeToBf16
  cases hlen : quantizedByteLen kind elements with
  | error error => simp [Bind.bind, Except.bind]
  | ok expected =>
    by_cases hlength : bytes.length = expected
    · by_cases hkind : kind = ggmlTypeQ4K
      · subst hkind
        have hdecode : decodeBlock ops ggmlTypeQ4K =
            fun block => (dequantizeQ4KBlock ops block).map (f32ToBf16 ops) := rfl
        simp [Bind.bind, Except.bind, hlength, hdecode, blockBytesOf, Pure.pure,
          Except.pure, eq_comm]
      · have hdecode : decodeBlock ops kind =
            fun block => dequantizeQ6KBlock ops block (replicate qkK 0) := by
          funext block
          rw [decodeBlock, if_neg hkind]
        simp [Bind.bind, Except.bind, hlength, hkind, hdecode, blockBytesOf, Pure.pure,
          Except.pure, eq_comm]
    · have hother : expected ≠ bytes.length := Ne.symm hlength
      simp [Bind.bind, Except.bind, hlength, hother, throw, throwThe, MonadExceptOf.throw]

/-- The block decoder of a format makes its elements. -/
structure BlockDecodes (ops : FloatOps F) (format : QuantFormat) : Prop where
  positive : 0 < format.blockBytes
  size : blockBytesOf format.kind = format.blockBytes
  length : ∀ block, block.length = format.blockBytes →
    (decodeBlock ops format.kind block).length = 256
  element : ∀ block, block.length = format.blockBytes → ∀ position : Fin 256,
    (decodeBlock ops format.kind block)[position.val]? =
      some (format.element (format.layout.read (blockOf format.blockBytes block)) position)

theorem q4K_blockDecodes : BlockDecodes ops (q4KFormat ops) where
  positive := Nat.zero_lt_succ _
  size := rfl
  length := length_dequantizeQ4KBlock ops
  element := dequantizeQ4KBlock_getElem? ops

theorem q6K_blockDecodes : BlockDecodes ops (q6KFormat ops) where
  positive := Nat.zero_lt_succ _
  size := rfl
  length := fun block _ => length_dequantizeQ6KBlock ops block
  element := fun block _ => dequantizeQ6KBlock_getElem? ops block

namespace BlockDecodes
variable {format : QuantFormat} (hformat : BlockDecodes ops format)

include hformat

theorem accepted {elements : Nat} {result : List (BitVec 16)}
    (h : dequantizeToBf16 ops format.kind bytes elements = .ok result) :
    elements = elements / 256 * 256 ∧ bytes.length = elements / 256 * format.blockBytes ∧
      result = (List.range (elements / 256)).flatMap fun index =>
        decodeBlock ops format.kind (format.block bytes index) := by
  obtain ⟨haccepted, hresult⟩ := dequantizeToBf16_iff.mp h
  obtain ⟨hdivides, hlength⟩ := quantizedByteLen_ok haccepted
  rw [hformat.size] at hlength hresult
  have hcount : bytes.length / format.blockBytes = elements / 256 := by
    rw [hlength]
    exact Nat.mul_div_cancel _ hformat.positive
  refine ⟨?_, hlength, ?_⟩
  · change elements % 256 = 0 at hdivides
    omega
  · rw [hresult, chunksExact, hcount, flatMap_map]
    rfl

theorem decodes : Decodes ops format where
  elements := by
    intro bytes elements result h
    obtain ⟨hdivides, hlength, rfl⟩ := hformat.accepted h
    have hchunk : ∀ index < elements / 256,
        (decodeBlock ops format.kind (format.block bytes index)).length = 256 :=
      fun index hindex => hformat.length _ (length_block format hlength hindex)
    refine ⟨(length_flatMap_range hchunk).trans hdivides.symm, fun e he => ?_⟩
    have hblock : e / 256 < elements / 256 := by omega
    rw [getElem?_flatMap_range hchunk (hdivides ▸ he)]
    exact hformat.element _ (length_block format hlength hblock) (Fin.ofNat 256 e)
  bits := format.layout.existsUnique_bit
  reads := fun bytes index field k => format.layout.getLsb_read _ field k
  differ := by
    intro bytes bytes' elements result result' h h' hne
    obtain ⟨-, hlength, -⟩ := hformat.accepted h
    obtain ⟨-, hlength', -⟩ := hformat.accepted h'
    by_contra hsame
    refine hne (fields_injective format hlength hlength' fun index hindex => ?_)
    funext field
    by_contra hfield
    exact hsame ⟨index, hindex, field, hfield⟩
  onto := by
    intro elements length h fields
    obtain ⟨-, hlength⟩ := quantizedByteLen_ok h
    rw [hformat.size, ← length_encode format fields] at hlength
    exact ⟨encode format fields (elements / qkK), _, dequantizeToBf16_iff.mpr ⟨hlength ▸ h, rfl⟩,
      fun index hindex => fields_encode format fields hindex⟩

end BlockDecodes

/-- The decoder of the two K-quant formats, over any arithmetic of `f32`: accepted bytes give
as many elements as asked for, element `e` from the fields of block `e / 256` that its
position in the block names; and the fields are the block, bit for bit, so that different
bytes have different fields and any fields are those of accepted bytes. -/
theorem k_quants_decode (ops : FloatOps F) :
    Decodes ops (q4KFormat ops) ∧ Decodes ops (q6KFormat ops) :=
  ⟨q4K_blockDecodes.decodes, q6K_blockDecodes.decodes⟩

end

end Eider.Guarantees.QuantFormats
