import Eider.Lib.BitLayout
import Eider.Lib.Chunks
import Eider.Source.Batch
import Eider.Source.Q3
import Mathlib.Data.List.FinRange
import Mathlib.Data.List.GetD

/-!
# The codes of the Q3 format

The bits `3 i`, `3 i + 1` and `3 i + 2` of the buffer belong to the code at `i`, though the code
may straddle two bytes. Packing writes these bits only, so the codes are independent of each
other and of the order in which they are written.
-/
namespace Eider.Guarantees.Q3Codes
open Lib Source Source.Q3 List

variable {packed packed' : List (BitVec 8)} {i : Nat} {code : BitVec 8}

/-! ## Bits -/

/-- A bit of the buffer, the lowest of the first byte first. -/
def bitAt (packed : List (BitVec 8)) (k : Nat) : Bool := (packed.getD (k / 8) 0).getLsbD (k % 8)

theorem ext_bitAt (hlength : packed.length = packed'.length)
    (h : ∀ k < packed.length * 8, bitAt packed k = bitAt packed' k) : packed = packed' := by
  refine ext_getElem hlength fun i hi hi' => BitVec.eq_of_getLsbD_eq fun j hj => ?_
  have hbit := h (i * 8 + j) (by omega)
  have hdiv : (i * 8 + j) / 8 = i := by omega
  have hmod : (i * 8 + j) % 8 = j := by omega
  rw [bitAt, bitAt, hdiv, hmod, getD_eq_getElem _ _ hi, getD_eq_getElem _ _ hi'] at hbit
  exact hbit

theorem bitAt_replicate (n k : Nat) : bitAt (replicate n 0) k = false := by
  unfold bitAt
  rw [getD_eq_getElem?_getD, getElem?_replicate]
  split <;> simp

theorem seven_bit {w : Nat} (hw : 3 ≤ w) (j : Nat) : (7#w).getLsbD j = decide (j < 3) := by
  have hseven : Nat.testBit 7 j = decide (j < 3) := Nat.testBit_two_pow_sub_one 3 j
  rw [BitVec.getLsbD_ofNat, hseven]
  by_cases hj : j < 3
  · simp [hj, hj.trans_le hw]
  · simp [hj]

theorem orAt_spec (bits : BitVec 8) (h : i < packed.length) :
    ∃ after, orAt packed i bits = .ok after ∧
    after.length = packed.length ∧ ∀ k, bitAt after k =
      (bitAt packed k || (decide (k / 8 = i) && bits.getLsbD (k % 8))) := by
  refine ⟨_, if_pos h, length_modify .., fun k => ?_⟩
  simp only [bitAt, getD_eq_getElem?_getD, getElem?_modify]
  by_cases hk : k / 8 = i
  · subst hk
    simp [getElem?_eq_getElem h]
  · simp [hk, Ne.symm hk]

theorem shifted_bit (code : BitVec 8) {shift : Nat} (hshift : shift < 8) (j : Nat) :
    ((code &&& 7#8).setWidth 16 <<< shift).getLsbD j =
      (decide (shift ≤ j ∧ j < shift + 3) && code.getLsbD (j - shift)) := by
  rw [BitVec.getLsbD_shiftLeft, BitVec.getLsbD_setWidth, BitVec.getLsbD_and, seven_bit (by decide)]
  by_cases hj : shift ≤ j ∧ j < shift + 3
  · have hwidth : j < 16 ∧ j - shift < 16 ∧ j - shift < 3 ∧ ¬ j < shift := by omega
    simp [hj, hwidth]
  · have hout : j < shift ∨ ¬ j - shift < 3 := by omega
    obtain hout | hout := hout
    · simp [hj, hout]
    · simp [hj, hout]

theorem packQ3Code_spec (code : BitVec 8) (h : i * 3 + 2 < packed.length * 8) :
    ∃ after, packQ3Code packed i code = .ok after ∧ after.length = packed.length ∧
      ∀ k, bitAt after k = (bitAt packed k ||
        (decide (i * 3 ≤ k ∧ k < i * 3 + 3) && code.getLsbD (k - i * 3))) := by
  have hvalue := shifted_bit code (Nat.mod_lt (i * 3) (by decide : 0 < 8))
  obtain ⟨middle, hlow, hlength, hmiddle⟩ := orAt_spec
    (((code &&& 7#8).setWidth 16 <<< (i * 3 % 8)).setWidth 8)
    (show i * 3 / 8 < packed.length by omega)
  unfold packQ3Code
  dsimp only
  rw [hlow]
  have hlowBits : ∀ k, k / 8 = i * 3 / 8 → (bitAt middle k = (bitAt packed k ||
      (decide (i * 3 ≤ k ∧ k < i * 3 + 3) && code.getLsbD (k - i * 3)))) := by
    intro k hk
    have hsub : k % 8 - i * 3 % 8 = k - i * 3 := by omega
    have hiff : (i * 3 % 8 ≤ k % 8 ∧ k % 8 < i * 3 % 8 + 3) ↔ i * 3 ≤ k ∧ k < i * 3 + 3 := by
      omega
    rw [hmiddle, BitVec.getLsbD_setWidth, hvalue, hsub]
    simp [hk, hiff, Nat.mod_lt]
  have hother : ∀ k, k / 8 ≠ i * 3 / 8 → bitAt middle k = bitAt packed k := by
    intro k hk
    simp [hmiddle, hk]
  by_cases hshift : 5 < i * 3 % 8
  · obtain ⟨after, hhigh, hlength', hafter⟩ := orAt_spec
      ((((code &&& 7#8).setWidth 16 <<< (i * 3 % 8)) >>> 8).setWidth 8)
      (show i * 3 / 8 + 1 < middle.length by omega)
    refine ⟨after, (if_pos hshift).trans hhigh, hlength'.trans hlength, fun k => ?_⟩
    rw [hafter, BitVec.getLsbD_setWidth, BitVec.getLsbD_ushiftRight, hvalue]
    by_cases hk : k / 8 = i * 3 / 8
    · have hnot : ¬ k / 8 = i * 3 / 8 + 1 := by omega
      simp [hnot, hlowBits k hk]
    · rw [hother k hk]
      by_cases hnext : k / 8 = i * 3 / 8 + 1
      · have hsub : 8 + k % 8 - i * 3 % 8 = k - i * 3 := by omega
        have hiff : (i * 3 % 8 ≤ 8 + k % 8 ∧ 8 + k % 8 < i * 3 % 8 + 3) ↔
            i * 3 ≤ k ∧ k < i * 3 + 3 := by
          omega
        simp [hnext, hiff, hsub, Nat.mod_lt]
      · have hout : ¬ (i * 3 ≤ k ∧ k < i * 3 + 3) := by omega
        simp [hnext, hout]
  · refine ⟨middle, if_neg hshift, hlength, fun k => ?_⟩
    by_cases hk : k / 8 = i * 3 / 8
    · exact hlowBits k hk
    · have hout : ¬ (i * 3 ≤ k ∧ k < i * 3 + 3) := by omega
      simp [hother k hk, hout]

theorem unpackQ3Code_spec (h : i * 3 + 2 < packed.length * 8) :
    ∃ code, unpackQ3Code packed i = .ok code ∧
      ∀ j, code.getLsbD j = (decide (j < 3) && bitAt packed (i * 3 + j)) := by
  have hbyte : i * 3 / 8 < packed.length := by omega
  have hhigh : (packed[i * 3 / 8 + 1]?).elim 0#16 (fun value => value.setWidth 16 <<< 8) =
      (packed.getD (i * 3 / 8 + 1) 0).setWidth 16 <<< 8 := by
    rw [getD_eq_getElem?_getD]
    cases packed[i * 3 / 8 + 1]? <;> rfl
  unfold unpackQ3Code index
  dsimp only
  rw [getElem?_eq_getElem hbyte, hhigh]
  refine ⟨_, rfl, fun j => ?_⟩
  rw [BitVec.getLsbD_setWidth, BitVec.getLsbD_and, seven_bit (by decide),
    BitVec.getLsbD_ushiftRight, BitVec.getLsbD_or, BitVec.getLsbD_setWidth,
    BitVec.getLsbD_shiftLeft, BitVec.getLsbD_setWidth]
  by_cases hj : j < 3
  · have hword : i * 3 % 8 + j < 16 ∧ j < 8 := by omega
    by_cases hlow : i * 3 % 8 + j < 8
    · have hdiv : (i * 3 + j) / 8 = i * 3 / 8 := by omega
      have hmod : (i * 3 + j) % 8 = i * 3 % 8 + j := by omega
      rw [bitAt, hdiv, hmod, getD_eq_getElem _ _ hbyte]
      simp [hj, hword, hlow]
    · have hdiv : (i * 3 + j) / 8 = i * 3 / 8 + 1 := by omega
      have hmod : (i * 3 + j) % 8 = i * 3 % 8 + j - 8 := by omega
      have hshift : i * 3 % 8 + j - 8 < 16 := by omega
      rw [bitAt, hdiv, hmod, BitVec.getLsbD_of_ge _ _ (Nat.not_lt.mp hlow)]
      simp [hj, hword, hlow, hshift]
  · simp [hj]

theorem pack_run {ι : Type} (place : ι → Nat) (code : ι → BitVec 8) {items : List ι}
    (h : ∀ x ∈ items, place x * 3 + 2 < packed.length * 8) :
    ∃ after, items.foldlM (fun packed x => packQ3Code packed (place x) (code x)) packed =
        .ok after ∧ after.length = packed.length ∧ ∀ i, ∀ j < 3, bitAt after (i * 3 + j) =
      (bitAt packed (i * 3 + j) ||
        items.any fun x => decide (place x = i) && (code x).getLsbD j) := by
  induction items generalizing packed with
  | nil => exact ⟨packed, rfl, rfl, fun i j _ => by simp⟩
  | cons first rest ih =>
    obtain ⟨hfirst, hrest⟩ := forall_mem_cons.mp h
    obtain ⟨middle, hpack, hlength, hmiddle⟩ := packQ3Code_spec (code first) hfirst
    obtain ⟨after, hrun, hlength', hafter⟩ := ih (hlength.symm ▸ hrest)
    refine ⟨after, ?_, hlength'.trans hlength, fun i j hj => ?_⟩
    · rw [foldlM_cons, hpack]
      exact hrun
    · rw [hafter i j hj, hmiddle, any_cons, Bool.or_assoc]
      by_cases hi : place first = i
      · subst hi
        simp [hj]
      · have hout : ¬ (place first * 3 ≤ i * 3 + j ∧ i * 3 + j < place first * 3 + 3) := by omega
        simp [hi, hout]

/-! ## Codes in any order -/

/-- The buffer of three-bit codes that are written in the order. -/
def packCodes {n : Nat} (order : List (Fin n)) (codes : Fin n → BitVec 3) :
    Q3Result (List (BitVec 8)) :=
  order.foldlM (fun packed (i : Fin n) => packQ3Code packed i ((codes i).setWidth 8))
    (replicate (n * 3 / 8) 0)

section
variable {n : Nat} {order : List (Fin n)} (hn : 64 ∣ n) (horder : order.Perm (finRange n))
include hn horder

theorem packCodes_spec (codes : Fin n → BitVec 3) : ∃ packed, packCodes order codes = .ok packed ∧
    packed.length = n * 3 / 8 ∧
      ∀ i : Fin n, ∀ j < 3, bitAt packed (i * 3 + j) = (codes i).getLsbD j := by
  have hroom : ∀ i ∈ order, i.val * 3 + 2 < (replicate (n * 3 / 8) (0 : BitVec 8)).length * 8 := by
    intro i _
    rw [length_replicate]
    omega
  obtain ⟨packed, hrun, hlength, hbits⟩ := pack_run Fin.val (fun i => (codes i).setWidth 8) hroom
  refine ⟨packed, hrun, hlength.trans length_replicate, fun i j hj => ?_⟩
  have hmem : i ∈ order := horder.mem_iff.mpr (mem_finRange i)
  rw [hbits i j hj, bitAt_replicate, Bool.false_or, Bool.eq_iff_iff, any_eq_true]
  constructor
  · rintro ⟨x, -, hx⟩
    simp only [Bool.and_eq_true, decide_eq_true_eq, Fin.val_inj] at hx
    obtain ⟨rfl, hx⟩ := hx
    rw [BitVec.getLsbD_setWidth, Bool.and_eq_true] at hx
    exact hx.2
  · intro hbit
    refine ⟨i, hmem, ?_⟩
    have hwidth : j < 8 := by omega
    simp [hbit, hwidth]

theorem packCodes_reads (codes : Fin n → BitVec 3) : ∃ packed, packCodes order codes = .ok packed ∧
    packed.length = n * 3 / 8 ∧ ∀ i : Fin n, unpackQ3Code packed i = .ok ((codes i).setWidth 8) := by
  obtain ⟨packed, hrun, hlength, hbits⟩ := packCodes_spec hn horder codes
  refine ⟨packed, hrun, hlength, fun i => ?_⟩
  obtain ⟨code, hunpack, hcode⟩ := unpackQ3Code_spec
    (show i * 3 + 2 < packed.length * 8 by omega)
  rw [hunpack]
  refine congrArg _ (BitVec.eq_of_getLsbD_eq fun j hj => ?_)
  rw [hcode, BitVec.getLsbD_setWidth]
  by_cases hthree : j < 3
  · simp [hthree, hj, hbits i j hthree]
  · simp [hthree, BitVec.getLsbD_of_ge _ _ (Nat.not_lt.mp hthree)]

/-- Every buffer is that of exactly one choice of codes. -/
theorem packCodes_existsUnique (hlength : packed.length = n * 3 / 8) :
    ∃! codes : Fin n → BitVec 3, packCodes order codes = .ok packed := by
  let codes : Fin n → BitVec 3 := fun i => ofBits fun j => bitAt packed (i * 3 + j)
  refine ⟨codes, ?_, fun codes' h => funext fun i => ?_⟩
  · obtain ⟨packed', hrun, hlength', hbits⟩ := packCodes_spec hn horder codes
    rw [hrun]
    refine congrArg _ (ext_bitAt (hlength'.trans hlength.symm) fun k hk => ?_)
    have hindex : k / 3 < n := by omega
    have hsplit : k / 3 * 3 + k % 3 = k := by omega
    have hbit := hbits ⟨k / 3, hindex⟩ (k % 3) (by omega)
    rw [hsplit] at hbit
    rw [hbit]
    have hget := getLsb_ofBits (fun j : Fin 3 => bitAt packed (k / 3 * 3 + j)) ⟨k % 3, by omega⟩
    rw [hsplit] at hget
    exact hget
  · obtain ⟨packed', hrun, -, hbits⟩ := packCodes_spec hn horder codes'
    cases hrun.symm.trans h
    apply BitVec.eq_of_getLsbD_eq
    intro j hj
    rw [← hbits i j hj]
    exact (getLsb_ofBits (fun j : Fin 3 => bitAt packed (i * 3 + j)) ⟨j, hj⟩).symm

end

/-! ## Quantized matrices -/

theorem mapM_cases {α β : Type} {f : α → Q3Result β} {g : α → β} {P : α → Prop} {xs : List α}
    (h : ∀ x ∈ xs, (P x ∧ f x = .ok (g x)) ∨ (¬ P x ∧ ∃ e, f x = .error (some e))) :
    ((∀ x ∈ xs, P x) ∧ xs.mapM f = .ok (xs.map g)) ∨
      ((∃ x ∈ xs, ¬ P x) ∧ ∃ e, xs.mapM f = .error (some e)) := by
  induction xs with
  | nil => exact .inl ⟨nofun, rfl⟩
  | cons x xs ih =>
    obtain ⟨hfirst, hrest⟩ := forall_mem_cons.mp h
    rw [mapM_cons]
    obtain ⟨hx, hf⟩ | ⟨hx, e, hf⟩ := hfirst
    · rw [hf]
      obtain ⟨hall, hrun⟩ | ⟨⟨y, hy, hnot⟩, e, hrun⟩ := ih hrest
      · refine .inl ⟨forall_mem_cons.mpr ⟨hx, hall⟩, ?_⟩
        rw [hrun]
        rfl
      · refine .inr ⟨⟨y, mem_cons_of_mem _ hy, hnot⟩, e, ?_⟩
        rw [hrun]
        rfl
    · rw [hf]
      exact .inr ⟨⟨x, mem_cons_self, hx⟩, e, rfl⟩

theorem flatMap_rows {α : Type} (rows cols : Nat) (f : Nat → α) :
    ((range rows).flatMap fun row => (range cols).map fun col => f (row * cols + col)) =
      (range (rows * cols)).map f := by
  induction rows with
  | zero => simp
  | succ rows ih =>
    rw [range_succ, flatMap_append, ih, flatMap_singleton, Nat.succ_mul, range_add, map_append,
      map_map]
    rfl

section
variable {F D : Type} (ops : Q3Floats F D) (values : List F)

/-- The value at a position. -/
def valueAt (flat : Nat) : F := values.getD flat (ops.ofInt 0)

/-- The scale that is chosen for a block. -/
def chosenScale (block : Nat) : BitVec 16 :=
  blockScale ops ((range q3BlockSize).map fun offset => valueAt ops values (block * 128 + offset))

/-- The code that is chosen for an element. -/
def chosenCode (flat : Nat) : BitVec 8 :=
  codeOf ops (bf16ToF32 ops (chosenScale ops values (flat / 128))) (valueAt ops values flat)

/-- The block has finite values and a finite scale. -/
def FiniteBlock (block : Nat) : Prop :=
  (∀ offset ∈ range q3BlockSize, ops.isFinite (valueAt ops values (block * 128 + offset)) = true) ∧
    ops.isFinite (bf16ToF32 ops (chosenScale ops values block)) = true

theorem q3Code_bit (normalized : F) {j : Nat} (hj : 3 ≤ j) :
    (q3Code ops normalized).getLsbD j = false := by
  have hlt : (q3Code ops normalized).toNat < 2 ^ 3 := by
    unfold q3Code
    dsimp only
    rw [BitVec.toNat_ofInt]
    split
    · decide
    · split
      · decide
      · omega
  exact Nat.testBit_lt_two_pow (hlt.trans_le (Nat.pow_le_pow_right (by decide) hj))

/-- The first `count` blocks are quantized. -/
structure Quantized (len count : Nat) (quantized : QuantizedQ3) : Prop where
  length : quantized.packedValues.length = len * 3 / 8
  scales : quantized.scales = (range count).map (chosenScale ops values)
  bits : ∀ flat, ∀ j < 3, bitAt quantized.packedValues (flat * 3 + j) =
    (decide (flat < count * 128) && (chosenCode ops values flat).getLsbD j)

theorem block_any (count flat j : Nat) :
    (((range q3BlockSize).map fun offset =>
        valueAt ops values (count * 128 + offset)).zipIdx.any fun x =>
      decide (count * 128 + x.2 = flat) &&
        (codeOf ops (bf16ToF32 ops (chosenScale ops values count)) x.1).getLsbD j) =
      (decide (count * 128 ≤ flat ∧ flat < count * 128 + 128) &&
        (chosenCode ops values flat).getLsbD j) := by
  rw [Bool.eq_iff_iff, any_eq_true]
  simp only [Bool.and_eq_true, decide_eq_true_eq, Prod.exists, mk_mem_zipIdx_iff_getElem?,
    getElem?_map, Option.map_eq_some_iff]
  constructor
  · rintro ⟨_, offset, ⟨_, hget, rfl⟩, rfl, hbit⟩
    obtain ⟨hlt, heq⟩ := List.getElem?_eq_some_iff.mp hget
    rw [length_range, q3BlockSize] at hlt
    rw [getElem_range] at heq
    subst heq
    have hdiv : (count * 128 + offset) / 128 = count := by omega
    refine ⟨by omega, ?_⟩
    rwa [chosenCode, hdiv]
  · rintro ⟨hin, hbit⟩
    have hdiv : flat / 128 = count := by omega
    have hflat : count * 128 + (flat - count * 128) = flat := by omega
    have hlt : flat - count * 128 < q3BlockSize := by
      unfold q3BlockSize
      omega
    refine ⟨_, flat - count * 128, ⟨_, getElem?_range hlt, rfl⟩, hflat, ?_⟩
    rwa [hflat, ← hdiv]

theorem finiteValue_cases {flat : Nat} (h : flat < values.length) :
    (ops.isFinite (valueAt ops values flat) = true ∧
        finiteValue ops (index values) flat = .ok (valueAt ops values flat)) ∨
      (¬ ops.isFinite (valueAt ops values flat) = true ∧
        ∃ e, finiteValue ops (index values) flat = .error (some e)) := by
  have hget : index values flat = .ok (valueAt ops values flat) := by
    rw [index, valueAt, getElem?_eq_getElem h, getD_eq_getElem _ _ h]
  unfold finiteValue
  rw [hget]
  by_cases hfinite : ops.isFinite (valueAt ops values flat) = true
  · exact .inl ⟨hfinite, if_neg (by simp [hfinite])⟩
  · exact .inr ⟨hfinite, _, if_pos (by simp [hfinite])⟩

theorem quantizeBlock_cases {len count : Nat} {quantized : QuantizedQ3} (hdvd : 128 ∣ len)
    (hlength : values.length = len) (hcount : count * 128 < len)
    (h : Quantized ops values len count quantized) :
    (FiniteBlock ops values count ∧ ∃ after,
        quantizeBlock ops (index values) quantized (count * 128) = .ok after ∧
          Quantized ops values len (count + 1) after) ∨
      (¬ FiniteBlock ops values count ∧ ∃ e,
        quantizeBlock ops (index values) quantized (count * 128) = .error (some e)) := by
  have hread : ∀ offset ∈ range q3BlockSize, _ := fun offset hoffset =>
    finiteValue_cases ops values (show count * 128 + offset < values.length by
      have hlt : offset < 128 := mem_range.mp hoffset
      omega)
  unfold quantizeBlock
  obtain ⟨hfinite, hrun⟩ | ⟨⟨offset, hoffset, hnot⟩, e, hrun⟩ := mapM_cases hread
  · rw [hrun]
    by_cases hscale : ops.isFinite (bf16ToF32 ops (chosenScale ops values count)) = true
    · left
      refine ⟨⟨hfinite, hscale⟩, ?_⟩
      have hroom : ∀ x ∈ ((range q3BlockSize).map fun offset =>
          valueAt ops values (count * 128 + offset)).zipIdx,
          (count * 128 + x.2) * 3 + 2 < quantized.packedValues.length * 8 := by
        intro x hx
        have hlt := snd_lt_of_mem_zipIdx hx
        rw [length_map, length_range, q3BlockSize] at hlt
        rw [h.length]
        omega
      obtain ⟨packed, hpack, hlength', hbits⟩ := pack_run
        (fun x : F × Nat => count * 128 + x.2) (fun x => codeOf ops
          (bf16ToF32 ops (chosenScale ops values count)) x.1) hroom
      refine ⟨⟨packed, quantized.scales ++ [chosenScale ops values count]⟩, ?_,
        hlength'.trans h.length, ?_, fun flat j hj => ?_⟩
      · refine (if_neg (by simpa [chosenScale] using hscale)).trans ?_
        exact congrArg (fun run : Q3Result (List (BitVec 8)) => run >>= fun packed =>
          pure (QuantizedQ3.mk packed (quantized.scales ++ [chosenScale ops values count]))) hpack
      · rw [h.scales, range_succ, map_append]
        rfl
      · rw [hbits flat j hj, h.bits flat j hj]
        rw [block_any]
        by_cases hflat : flat < count * 128
        · have hnext : flat < (count + 1) * 128 := by omega
          simp [hflat, hnext]
        · have hiff : (count * 128 ≤ flat ∧ flat < count * 128 + 128) ↔
              flat < (count + 1) * 128 := by
            omega
          simp [hflat, hiff]
    · exact .inr ⟨fun hblock => hscale hblock.2, _, if_pos (by simpa [chosenScale] using hscale)⟩
  · rw [hrun]
    exact .inr ⟨fun hblock => hnot (hblock.1 offset hoffset), e, rfl⟩

theorem quantizeBlocks_cases {len count : Nat} (hdvd : 128 ∣ len) (hlength : values.length = len)
    (hcount : count * 128 ≤ len) :
    ((∀ block < count, FiniteBlock ops values block) ∧ ∃ after,
        ((range count).map (· * 128)).foldlM (quantizeBlock ops (index values))
          ⟨replicate (len * 3 / 8) 0, []⟩ = .ok after ∧ Quantized ops values len count after) ∨
      ((∃ block < count, ¬ FiniteBlock ops values block) ∧ ∃ e,
        ((range count).map (· * 128)).foldlM (quantizeBlock ops (index values))
          ⟨replicate (len * 3 / 8) 0, []⟩ = .error (some e)) := by
  induction count with
  | zero =>
    refine .inl ⟨nofun, _, rfl, length_replicate, rfl, fun flat j _ => ?_⟩
    exact (bitAt_replicate ..).trans (by simp)
  | succ count ih =>
    rw [range_succ, map_append, foldlM_append]
    simp only [map_cons, map_nil, foldlM_cons, foldlM_nil, bind_pure]
    obtain ⟨hall, middle, hrun, hmiddle⟩ | ⟨⟨block, hblock, hnot⟩, e, hrun⟩ := ih (by omega)
    · rw [hrun]
      obtain ⟨hfinite, after, hstep, hafter⟩ | ⟨hnot, e, hstep⟩ :=
        quantizeBlock_cases ops values hdvd hlength (by omega) hmiddle
      · refine .inl ⟨fun block hblock => ?_, after, hstep, hafter⟩
        obtain hblock | rfl := Nat.lt_succ_iff_lt_or_eq.mp hblock
        · exact hall block hblock
        · exact hfinite
      · exact .inr ⟨⟨count, Nat.lt_succ_self count, hnot⟩, e, hstep⟩
    · rw [hrun]
      exact .inr ⟨⟨block, Nat.lt_succ_of_lt hblock, hnot⟩, e, rfl⟩

/-- What the quantization accepts. -/
structure Accepts (rows cols : Nat) : Prop where
  someRows : rows ≠ 0
  someCols : cols ≠ 0
  aligned : cols % 128 = 0
  length : values.length = rows * cols
  finite : ∀ block < rows * (cols / 128), FiniteBlock ops values block

/-- The value of the code and the scale that are chosen for an element. -/
def chosenValue (flat : Nat) : F :=
  ops.mul (ops.sub (ops.mul (ops.ofInt (chosenCode ops values flat).toNat) (ops.ofInt 2))
    (ops.ofInt 7)) (bf16ToF32 ops (chosenScale ops values (flat / 128)))

theorem blocks_mul (rows : Nat) {cols : Nat} (haligned : cols % 128 = 0) :
    rows * (cols / 128) * 128 = rows * cols := by
  rw [Nat.mul_assoc, Nat.div_mul_cancel (Nat.dvd_of_mod_eq_zero haligned)]

theorem dequantize_eq {rows cols : Nat} {quantized : QuantizedQ3} (hlen : 4 * (rows * cols) < 2 ^ 63)
    (haccepts : Accepts ops values rows cols)
    (h : Quantized ops values (rows * cols) (rows * (cols / 128)) quantized) :
    dequantizeQ3RowMajor ops rows cols quantized =
      .ok ((range (rows * cols)).map (chosenValue ops values)) := by
  have hlast := blocks_mul rows haccepts.aligned
  have hfits : rows * cols < 2 ^ 64 ∧ rows * cols * 3 < 2 ^ 64 := by omega
  have hvalid : validateQuantized ops rows cols quantized = .ok () := by
    unfold validateQuantized checkedMatrixLen
    rw [if_pos hfits.1]
    refine if_neg ?_
    have hany : quantized.scales.any (fun scale => !ops.isFinite (bf16ToF32 ops scale)) = false := by
      rw [h.scales, any_map, any_eq_false]
      intro block hblock
      simpa using (haccepts.finite block (mem_range.mp hblock)).2
    have hscales : quantized.scales.length = rows * cols / q3BlockSize := by
      rw [h.scales, length_map, length_range, ← hlast, q3BlockSize, Nat.mul_div_cancel _ (by decide)]
    rw [Nat.mod_eq_of_lt hfits.2]
    simp [haccepts.someRows, haccepts.someCols, haccepts.aligned, q3BlockSize, h.length, hany,
      hscales]
  have hread : ∀ position ∈ (range rows).flatMap fun row => (range cols).map fun col => (row, col),
      dequantizeAt ops cols quantized position =
        .ok (chosenValue ops values (position.1 * cols + position.2)) := by
    intro position hposition
    simp only [mem_flatMap, mem_map, mem_range] at hposition
    obtain ⟨row, hrow, col, hcol, rfl⟩ := hposition
    have hnext := Nat.mul_le_mul_right cols (Nat.succ_le_of_lt hrow)
    rw [Nat.succ_mul] at hnext
    have hrowStart := blocks_mul row haccepts.aligned
    have hblock : row * (cols / q3BlockSize) + col / q3BlockSize = (row * cols + col) / 128 := by
      unfold q3BlockSize
      omega
    obtain ⟨code, hunpack, hcode⟩ := unpackQ3Code_spec
      (show (row * cols + col) * 3 + 2 < quantized.packedValues.length * 8 by
        rw [h.length]
        omega)
    have hchosen : code = chosenCode ops values (row * cols + col) := by
      refine BitVec.eq_of_getLsbD_eq fun j hj => ?_
      rw [hcode]
      by_cases hthree : j < 3
      · have hin : row * cols + col < rows * (cols / 128) * 128 := by omega
        simp [h.bits _ j hthree, hthree, hin]
      · have hbit := q3Code_bit ops
        simp [hthree, chosenCode, codeOf, hbit _ (Nat.not_lt.mp hthree)]
    have hscale : index quantized.scales ((row * cols + col) / 128) =
        .ok (chosenScale ops values ((row * cols + col) / 128)) := by
      have hin : (row * cols + col) / 128 < rows * (cols / 128) := by omega
      rw [index, h.scales, getElem?_map, getElem?_range hin]
      rfl
    rw [dequantizeAt, hunpack, hblock, hscale, hchosen]
    rfl
  unfold dequantizeQ3RowMajor
  rw [hvalid]
  refine (mapM_eq_ok hread).trans ?_
  rw [← flatMap_rows, map_flatMap]
  simp only [map_map]
  rfl

/-- A matrix is refused without an index out of bounds, or decoded with what was chosen. -/
def RoundTrip (rows cols : Nat) (values : F32Slice F) : Prop :=
  (Accepts ops values.1 rows cols ∧ ∃ quantized,
      quantizeQ3RowMajor ops rows cols values = .ok quantized ∧
      dequantizeQ3RowMajor ops rows cols quantized =
        .ok ((range (rows * cols)).map (chosenValue ops values.1))) ∨
    (¬ Accepts ops values.1 rows cols ∧ ∃ e,
      quantizeQ3RowMajor ops rows cols values = .error (some e))

theorem quantize_roundTrip (rows cols : Nat) (values : F32Slice F) :
    RoundTrip ops rows cols values := by
  have hslice := values.2
  unfold RoundTrip quantizeQ3RowMajor checkedMatrixLen
  by_cases hsmall : rows * cols < 2 ^ 64
  · rw [if_pos hsmall]
    by_cases hshape : rows = 0 ∨ cols = 0 ∨ cols % q3BlockSize ≠ 0 ∨ values.1.length ≠ rows * cols
    · refine .inr ⟨fun haccepts => ?_, _, if_pos hshape⟩
      obtain h | h | h | h := hshape
      · exact haccepts.someRows h
      · exact haccepts.someCols h
      · exact h haccepts.aligned
      · exact h haccepts.length
    · obtain ⟨hrows, hcols, haligned, hlength⟩ : rows ≠ 0 ∧ cols ≠ 0 ∧ cols % 128 = 0 ∧
          values.1.length = rows * cols := by
        simpa [q3BlockSize] using hshape
      have hrun : quantizeQ3With ops rows cols (index values.1) =
          ((range (rows * (cols / 128))).map (· * 128)).foldlM (quantizeBlock ops (index values.1))
            ⟨replicate (rows * cols * 3 / 8) 0, []⟩ := by
        unfold quantizeQ3With
        rw [← flatMap_rows]
        simp only [Nat.add_mul, blocks_mul _ haligned]
        rfl
      have hlast := blocks_mul rows haligned
      obtain ⟨hall, quantized, hblocks, hquantized⟩ | ⟨⟨block, hblock, hnot⟩, e, hblocks⟩ :=
        quantizeBlocks_cases ops values.1 ⟨rows * (cols / 128), by omega⟩ hlength hlast.le
      · have haccepts : Accepts ops values.1 rows cols := ⟨hrows, hcols, haligned, hlength, hall⟩
        refine .inl ⟨haccepts, quantized, (if_neg hshape).trans (hrun.trans hblocks), ?_⟩
        exact dequantize_eq ops values.1 (hlength ▸ hslice) haccepts hquantized
      · exact .inr ⟨fun haccepts => hnot (haccepts.finite block hblock), e,
          (if_neg hshape).trans (hrun.trans hblocks)⟩
  · rw [if_neg hsmall]
    refine .inr ⟨fun haccepts => ?_, _, rfl⟩
    have := haccepts.length
    omega

end

/-- Codes that are written in any order are read back, from within the buffer, and every buffer
is that of one choice of codes; and a quantized matrix is decoded with the codes and the scales
that were chosen for its elements. -/
theorem codes_read_back {n : Nat} {order : List (Fin n)} (hn : 64 ∣ n)
    (horder : order.Perm (finRange n)) :
    (∀ codes : Fin n → BitVec 3, ∃ packed, packCodes order codes = .ok packed ∧
      packed.length = n * 3 / 8 ∧
      ∀ i : Fin n, unpackQ3Code packed i = .ok ((codes i).setWidth 8)) ∧
    (∀ packed : List (BitVec 8), packed.length = n * 3 / 8 →
      ∃! codes : Fin n → BitVec 3, packCodes order codes = .ok packed) ∧
    ∀ (F D : Type) (ops : Q3Floats F D) rows cols values, RoundTrip ops rows cols values :=
  ⟨packCodes_reads hn horder, fun _ => packCodes_existsUnique hn horder, fun _ _ =>
    quantize_roundTrip⟩

theorem sixty_four_codes_read_back : ∃ packed,
    packCodes (finRange 64).reverse (fun _ => 5#3) = .ok packed ∧ packed.length = 24 ∧
      ∀ i : Fin 64, unpackQ3Code packed i = .ok 5#8 :=
  (codes_read_back (Nat.dvd_refl 64) (reverse_perm _)).1 fun _ => 5#3

end Eider.Guarantees.Q3Codes
