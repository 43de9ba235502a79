import Eider.Lib.BitLayout
import Eider.Lib.Chunks
import Eider.Source.GgufQuant
import Mathlib.Data.List.Nodup
import Mathlib.Tactic.IntervalCases

/-!
The block formats Q4_K and Q6_K as layouts of bits, and the decoders as readers of these.

Each layout says once where the bits of a field lie. The shifts and masks of the source are
then shown to read these places, field by field, and every element to be made of the fields
that its position asks for.
-/
namespace Eider.Guarantees.QuantLayout
open Lib Source.GgufQuant List

/-! ## The layouts -/

/-- The fields of a Q4_K block: two half-precision factors, a scale and a minimum for every
32 positions, and a code for every position. -/
inductive Q4KField where
  | d
  | dmin
  | scale (part : Fin 8)
  | minimum (part : Fin 8)
  | code (position : Fin 256)
deriving DecidableEq

abbrev Q4KField.width : Q4KField → Nat
  | .d => 16
  | .dmin => 16
  | .scale _ => 6
  | .minimum _ => 6
  | .code _ => 4

/-- The places of the bits of a field. Scales and minima of the upper parts keep their top
bits behind those of the lower parts. -/
def q4KPlace : (field : Q4KField) → Fin field.width → Fin 144 × Fin 8
  | .d, k => (Fin.ofNat 144 (k / 8), Fin.ofNat 8 k)
  | .dmin, k => (Fin.ofNat 144 (2 + k / 8), Fin.ofNat 8 k)
  | .scale part, k =>
    if part.val < 4 then (Fin.ofNat 144 (4 + part), Fin.ofNat 8 k)
    else if k.val < 4 then (Fin.ofNat 144 (8 + part), Fin.ofNat 8 k)
    else (Fin.ofNat 144 part, Fin.ofNat 8 (2 + k))
  | .minimum part, k =>
    if part.val < 4 then (Fin.ofNat 144 (8 + part), Fin.ofNat 8 k)
    else if k.val < 4 then (Fin.ofNat 144 (8 + part), Fin.ofNat 8 (4 + k))
    else (Fin.ofNat 144 (4 + part), Fin.ofNat 8 (2 + k))
  | .code position, k => (Fin.ofNat 144 (16 + position / 64 * 32 + position % 32),
      Fin.ofNat 8 (position / 32 % 2 * 4 + k))

/-- The bit of a field that a place belongs to. -/
def q4KOwner (place : Fin 144 × Fin 8) : (field : Q4KField) × Fin field.width :=
  let byte := place.1.val
  let bit := place.2.val
  if byte < 2 then ⟨.d, Fin.ofNat 16 (8 * byte + bit)⟩
  else if byte < 4 then ⟨.dmin, Fin.ofNat 16 (8 * (byte - 2) + bit)⟩
  else if byte < 8 then
    if bit < 6 then ⟨.scale (Fin.ofNat 8 (byte - 4)), Fin.ofNat 6 bit⟩
    else ⟨.scale (Fin.ofNat 8 byte), Fin.ofNat 6 (bit - 2)⟩
  else if byte < 12 then
    if bit < 6 then ⟨.minimum (Fin.ofNat 8 (byte - 8)), Fin.ofNat 6 bit⟩
    else ⟨.minimum (Fin.ofNat 8 (byte - 4)), Fin.ofNat 6 (bit - 2)⟩
  else if byte < 16 then
    if bit < 4 then ⟨.scale (Fin.ofNat 8 (byte - 8)), Fin.ofNat 6 bit⟩
    else ⟨.minimum (Fin.ofNat 8 (byte - 8)), Fin.ofNat 6 (bit - 4)⟩
  else
    let offset := byte - 16
    ⟨.code (Fin.ofNat 256 (offset / 32 * 64 + bit / 4 * 32 + offset % 32)), Fin.ofNat 4 bit⟩

theorem q4KOwner_place : (field : Q4KField) → (k : Fin field.width) →
    q4KOwner (q4KPlace field k) = ⟨field, k⟩
  | .d, k => by revert k; decide +kernel
  | .dmin, k => by revert k; decide +kernel
  | .scale part, k => by revert part k; decide +kernel
  | .minimum part, k => by revert part k; decide +kernel
  | .code position, k => by revert position k; decide +kernel

def q4KLayout : BitLayout 144 Q4KField Q4KField.width where
  place := q4KPlace
  owner := q4KOwner
  owner_place := q4KOwner_place
  place_owner := fun ⟨byte, bit⟩ => by revert byte bit; decide +kernel

/-- The fields of a Q6_K block: a half-precision factor, a signed scale for every 16
positions, and a code for every position. -/
inductive Q6KField where
  | d
  | scale (part : Fin 16)
  | code (position : Fin 256)
deriving DecidableEq

abbrev Q6KField.width : Q6KField → Nat
  | .d => 16
  | .scale _ => 8
  | .code _ => 6

/-- The places of the bits of a field. A code has its low bits in one of the first 128 bytes
and its high bits in one of the next 64. -/
def q6KPlace : (field : Q6KField) → Fin field.width → Fin 210 × Fin 8
  | .d, k => (Fin.ofNat 210 (208 + k / 8), Fin.ofNat 8 k)
  | .scale part, k => (Fin.ofNat 210 (192 + part), Fin.ofNat 8 k)
  | .code position, k =>
    let half := position.val / 128
    let quarter := position.val % 128 / 32
    let lane := position.val % 32
    if k.val < 4 then
      (Fin.ofNat 210 (half * 64 + quarter % 2 * 32 + lane), Fin.ofNat 8 (quarter / 2 * 4 + k))
    else (Fin.ofNat 210 (128 + half * 32 + lane), Fin.ofNat 8 (quarter * 2 + (k - 4)))

/-- The bit of a field that a place belongs to. -/
def q6KOwner (place : Fin 210 × Fin 8) : (field : Q6KField) × Fin field.width :=
  let byte := place.1.val
  let bit := place.2.val
  if byte < 128 then
    ⟨.code (Fin.ofNat 256 (byte / 64 * 128 + (byte % 64 / 32 + bit / 4 * 2) * 32 + byte % 32)),
      Fin.ofNat 6 (bit % 4)⟩
  else if byte < 192 then
    ⟨.code (Fin.ofNat 256 ((byte - 128) / 32 * 128 + bit / 2 * 32 + byte % 32)),
      Fin.ofNat 6 (4 + bit % 2)⟩
  else if byte < 208 then ⟨.scale (Fin.ofNat 16 (byte - 192)), place.2⟩
  else ⟨.d, Fin.ofNat 16 (8 * (byte - 208) + bit)⟩

theorem q6KOwner_place : (field : Q6KField) → (k : Fin field.width) →
    q6KOwner (q6KPlace field k) = ⟨field, k⟩
  | .d, k => by revert k; decide +kernel
  | .scale part, k => by revert part k; decide +kernel
  | .code position, k => by revert position k; decide +kernel

def q6KLayout : BitLayout 210 Q6KField Q6KField.width where
  place := q6KPlace
  owner := q6KOwner
  owner_place := q6KOwner_place
  place_owner := fun ⟨byte, bit⟩ => by revert byte bit; decide +kernel

/-! ## Reading the fields -/

/-- The bytes of a slice, as a block. -/
def blockOf (n : Nat) (bytes : List (BitVec 8)) : ByteBlock n := fun i => byteAt bytes i

/-- The fields of a Q4_K block. -/
abbrev q4KFields (block : List (BitVec 8)) : (field : Q4KField) → BitVec field.width :=
  q4KLayout.read (blockOf 144 block)

/-- The fields of a Q6_K block. -/
abbrev q6KFields (block : List (BitVec 8)) : (field : Q6KField) → BitVec field.width :=
  q6KLayout.read (blockOf 210 block)

section
variable (block : List (BitVec 8))

theorem byteAt_drop (start index : Nat) :
    byteAt (block.drop start) index = byteAt block (start + index) := by
  simp [byteAt, getD_eq_getElem?_getD]

theorem byteAt_take {stop index : Nat} (h : index < stop) :
    byteAt (block.take stop) index = byteAt block index := by
  simp [byteAt, getD_eq_getElem?_getD, h]

variable {k : Nat}

theorem q4KFields_bit (field : Q4KField) (hk : k < field.width) :
    (q4KFields block field).getLsbD k =
      (byteAt block (q4KPlace field ⟨k, hk⟩).1).getLsbD (q4KPlace field ⟨k, hk⟩).2 :=
  q4KLayout.getLsb_read (blockOf 144 block) field ⟨k, hk⟩

theorem q6KFields_bit (field : Q6KField) (hk : k < field.width) :
    (q6KFields block field).getLsbD k =
      (byteAt block (q6KPlace field ⟨k, hk⟩).1).getLsbD (q6KPlace field ⟨k, hk⟩).2 :=
  q6KLayout.getLsb_read (blockOf 210 block) field ⟨k, hk⟩

theorem halfAt_bit (start k : Nat) (hk : k < 16) :
    (halfAt block start).getLsbD k = (byteAt block (start + k / 8)).getLsbD (k % 8) := by
  unfold halfAt
  rw [BitVec.getLsbD_append]
  by_cases h : k < 8
  · rw [if_pos h, Nat.div_eq_of_lt h, Nat.mod_eq_of_lt h, Nat.add_zero]
  · have hdiv : k / 8 = 1 := by omega
    have hmod : k % 8 = k - 8 := by omega
    rw [if_neg h, hdiv, hmod]

theorem q4KFields_d : halfAt block 0 = q4KFields block .d := by
  apply BitVec.eq_of_getLsbD_eq
  intro k hk
  rw [halfAt_bit block 0 k hk, q4KFields_bit block .d hk]
  simp only [q4KPlace, Fin.ofNat]
  congr 2
  omega

theorem q4KFields_dmin : halfAt block 2 = q4KFields block .dmin := by
  apply BitVec.eq_of_getLsbD_eq
  intro k hk
  have hbyte : (2 + k / 8) % 144 = 2 + k / 8 := by omega
  rw [halfAt_bit block 2 k hk, q4KFields_bit block .dmin hk]
  simp only [q4KPlace, Fin.ofNat, hbyte]

theorem q6KFields_d : halfAt block 208 = q6KFields block .d := by
  apply BitVec.eq_of_getLsbD_eq
  intro k hk
  have hbyte : (208 + k / 8) % 210 = 208 + k / 8 := by omega
  rw [halfAt_bit block 208 k hk, q6KFields_bit block .d hk]
  simp only [q6KPlace, Fin.ofNat, hbyte]

/-! The masks and shifts of the source, bit by bit. -/

variable (x : BitVec 8)

theorem low6_bit (hk : k < 8) : (x &&& 63#8).getLsbD k = (decide (k < 6) && x.getLsbD k) := by
  interval_cases k <;> simp

theorem low4_bit (hk : k < 8) : (x &&& 0x0f#8).getLsbD k = (decide (k < 4) && x.getLsbD k) := by
  interval_cases k <;> simp

theorem high4_bit (hk : k < 8) : (x >>> 4).getLsbD k = (decide (k < 4) && x.getLsbD (4 + k)) := by
  interval_cases k <;> simp

theorem top2_bit (hk : k < 8) :
    ((x >>> 6) <<< 4).getLsbD k = (decide (4 ≤ k ∧ k < 6) && x.getLsbD (2 + k)) := by
  interval_cases k <;> simp

theorem pair_bit {quarter : Nat} (hquarter : quarter < 4) (hk : k < 8) :
    (((x >>> (quarter * 2)) &&& 3#8) <<< 4).getLsbD k =
      (decide (4 ≤ k ∧ k < 6) && x.getLsbD (quarter * 2 + (k - 4))) := by
  interval_cases quarter <;> interval_cases k <;> simp

/-- A byte that holds a field of at most eight bits is the field. -/
theorem eq_setWidth {width : Nat} {x : BitVec 8} {field : BitVec width}
    (hlow : ∀ k < 8, k < width → x.getLsbD k = field.getLsbD k)
    (hhigh : ∀ k < 8, width ≤ k → x.getLsbD k = false) : x = field.setWidth 8 := by
  apply BitVec.eq_of_getLsbD_eq
  intro k hk
  rw [BitVec.getLsbD_setWidth, decide_eq_true hk, Bool.true_and]
  by_cases h : k < width
  · exact hlow k hk h
  · rw [hhigh k hk (Nat.not_lt.mp h), BitVec.getLsbD_of_ge _ _ (Nat.not_lt.mp h)]

theorem scales_byteAt {index : Nat} (h : index < 12) :
    byteAt ((block.take 16).drop 4) index = byteAt block (4 + index) := by
  rw [byteAt_drop, byteAt_take block (by omega)]

theorem q4KScaleMin_scale (part : Fin 8) : (q4KScaleMin part ((block.take 16).drop 4)).1 =
      (q4KFields block (.scale part)).setWidth 8 := by
  unfold q4KScaleMin
  by_cases hlow : part.val < 4
  · rw [if_pos hlow, scales_byteAt block (by omega)]
    apply eq_setWidth
    · intro k hk hwidth
      have hbyte : (4 + part.val) % 144 = 4 + part.val := by omega
      rw [q4KFields_bit block (.scale part) hwidth, low6_bit _ hk]
      simp [q4KPlace, hlow, Fin.ofNat, hbyte, Nat.mod_eq_of_lt hk, hwidth]
    · intro k hk hwidth
      rw [low6_bit _ hk]
      simp [hwidth]
  · rw [if_neg hlow, scales_byteAt block (by omega), scales_byteAt block (by omega)]
    have hfirst : 4 + (part.val + 4) = 8 + part.val := by omega
    have hsecond : 4 + (part.val - 4) = part.val := by omega
    rw [hfirst, hsecond]
    apply eq_setWidth
    · intro k hk hwidth
      rw [q4KFields_bit block (.scale part) hwidth, BitVec.getLsbD_or, low4_bit _ hk, top2_bit _ hk]
      by_cases h4 : k < 4
      · have hbyte : (8 + part.val) % 144 = 8 + part.val := by omega
        simp [q4KPlace, hlow, Fin.ofNat, hbyte, Nat.mod_eq_of_lt hk, h4]
      · have hbyte : part.val % 144 = part.val := by omega
        have hbit : (2 + k) % 8 = 2 + k := Nat.mod_eq_of_lt (by change k < 6 at hwidth; omega)
        simp [q4KPlace, hlow, Fin.ofNat, hbyte, hbit, h4, Nat.not_lt.mp h4, hwidth]
    · intro k hk hwidth
      have hnot : ¬ k < 4 := by change 6 ≤ k at hwidth; omega
      have hnot' : ¬ k < 6 := Nat.not_lt.mpr hwidth
      rw [BitVec.getLsbD_or, low4_bit _ hk, top2_bit _ hk]
      simp [hnot, hnot']

theorem q4KScaleMin_minimum (part : Fin 8) : (q4KScaleMin part ((block.take 16).drop 4)).2 =
      (q4KFields block (.minimum part)).setWidth 8 := by
  unfold q4KScaleMin
  by_cases hlow : part.val < 4
  · rw [if_pos hlow]
    have hfirst : 4 + (part.val + 4) = 8 + part.val := by omega
    change byteAt ((block.take 16).drop 4) (part + 4) &&& 63#8 = _
    rw [scales_byteAt block (by omega), hfirst]
    apply eq_setWidth
    · intro k hk hwidth
      have hbyte : (8 + part.val) % 144 = 8 + part.val := by omega
      rw [q4KFields_bit block (.minimum part) hwidth, low6_bit _ hk]
      simp [q4KPlace, hlow, Fin.ofNat, hbyte, Nat.mod_eq_of_lt hk, hwidth]
    · intro k hk hwidth
      rw [low6_bit _ hk]
      simp [hwidth]
  · rw [if_neg hlow]
    have hfirst : 4 + (part.val + 4) = 8 + part.val := by omega
    rw [scales_byteAt block (show part.val + 4 < 12 by omega),
      scales_byteAt block (show part.val < 12 by omega), hfirst]
    apply eq_setWidth
    · intro k hk hwidth
      rw [q4KFields_bit block (.minimum part) hwidth, BitVec.getLsbD_or, high4_bit _ hk,
        top2_bit _ hk]
      by_cases h4 : k < 4
      · have hbyte : (8 + part.val) % 144 = 8 + part.val := by omega
        have hbit : (4 + k) % 8 = 4 + k := by omega
        simp [q4KPlace, hlow, Fin.ofNat, hbyte, hbit, h4]
      · have hbyte : (4 + part.val) % 144 = 4 + part.val := by omega
        have hbit : (2 + k) % 8 = 2 + k := Nat.mod_eq_of_lt (by change k < 6 at hwidth; omega)
        simp [q4KPlace, hlow, Fin.ofNat, hbyte, hbit, h4, Nat.not_lt.mp h4, hwidth]
    · intro k hk hwidth
      have hnot : ¬ k < 4 := by change 6 ≤ k at hwidth; omega
      have hnot' : ¬ k < 6 := Nat.not_lt.mpr hwidth
      rw [BitVec.getLsbD_or, high4_bit _ hk, top2_bit _ hk]
      simp [hnot, hnot']

/-- The nibble of a byte that a code of Q4_K, or the low bits of a code of Q6_K, lie in. -/
def nibble (upper : Nat) (x : BitVec 8) : BitVec 8 := if upper = 0 then x &&& 0x0f#8 else x >>> 4

theorem nibble_bit {upper : Nat} (hupper : upper < 2) (x : BitVec 8) (hk : k < 8) :
    (nibble upper x).getLsbD k = (decide (k < 4) && x.getLsbD (upper * 4 + k)) := by
  unfold nibble
  by_cases h : upper = 0
  · subst h
    rw [if_pos rfl, low4_bit x hk, Nat.zero_mul, Nat.zero_add]
  · have hone : upper = 1 := by omega
    subst hone
    rw [if_neg h, high4_bit x hk]

theorem q4KCode (position : Fin 256) :
    nibble (position / 32 % 2) (byteAt block (16 + position / 64 * 32 + position % 32)) =
      (q4KFields block (.code position)).setWidth 8 := by
  have hupper : position.val / 32 % 2 < 2 := Nat.mod_lt _ (by omega)
  apply eq_setWidth
  · intro k hk hwidth
    have hk4 : k < 4 := hwidth
    have hbyte : (16 + position.val / 64 * 32 + position.val % 32) % 144 =
        16 + position.val / 64 * 32 + position.val % 32 := Nat.mod_eq_of_lt (by omega)
    have hbit : (position.val / 32 % 2 * 4 + k) % 8 = position.val / 32 % 2 * 4 + k :=
      Nat.mod_eq_of_lt (by omega)
    rw [q4KFields_bit block (.code position) hwidth, nibble_bit hupper _ hk]
    simp only [q4KPlace, Fin.ofNat, hbyte, hbit, decide_eq_true hk4, Bool.true_and]
  · intro k hk hwidth
    have hnot : ¬ k < 4 := Nat.not_lt.mpr hwidth
    rw [nibble_bit hupper _ hk, decide_eq_false hnot, Bool.false_and]

theorem q6KScale (part : Fin 16) : byteAt block (192 + part) = q6KFields block (.scale part) := by
  apply BitVec.eq_of_getLsbD_eq
  intro k hk
  have hbyte : (192 + part.val) % 210 = 192 + part.val := by omega
  rw [q6KFields_bit block (.scale part) hk]
  simp only [q6KPlace, Fin.ofNat, hbyte, Nat.mod_eq_of_lt hk]

theorem q6KCode (position : Fin 256) : (nibble (position % 128 / 32 / 2)
        (byteAt block (position / 128 * 64 + position % 128 / 32 % 2 * 32 + position % 32)) |||
      (((byteAt block (128 + position / 128 * 32 + position % 32) >>>
        (position.val % 128 / 32 * 2)) &&& 3#8) <<< 4)) =
      (q6KFields block (.code position)).setWidth 8 := by
  have hquarter : position.val % 128 / 32 < 4 := by omega
  have hupper : position.val % 128 / 32 / 2 < 2 := by omega
  apply eq_setWidth
  · intro k hk hwidth
    have hk6 : k < 6 := hwidth
    rw [q6KFields_bit block (.code position) hwidth, BitVec.getLsbD_or, nibble_bit hupper _ hk,
      pair_bit _ hquarter hk]
    by_cases h4 : k < 4
    · have hnot : ¬ (4 ≤ k ∧ k < 6) := by omega
      have hbyte : (position.val / 128 * 64 + position.val % 128 / 32 % 2 * 32 +
          position.val % 32) % 210 = position.val / 128 * 64 + position.val % 128 / 32 % 2 * 32 +
          position.val % 32 := Nat.mod_eq_of_lt (by omega)
      have hbit : (position.val % 128 / 32 / 2 * 4 + k) % 8 =
          position.val % 128 / 32 / 2 * 4 + k := Nat.mod_eq_of_lt (by omega)
      simp only [q6KPlace, h4, if_true, Fin.ofNat, hbyte, hbit, decide_true, Bool.true_and,
        decide_eq_false hnot, Bool.false_and, Bool.or_false]
    · have hyes : 4 ≤ k ∧ k < 6 := by omega
      have hbyte : (128 + position.val / 128 * 32 + position.val % 32) % 210 =
          128 + position.val / 128 * 32 + position.val % 32 := Nat.mod_eq_of_lt (by omega)
      have hbit : (position.val % 128 / 32 * 2 + (k - 4)) % 8 =
          position.val % 128 / 32 * 2 + (k - 4) := Nat.mod_eq_of_lt (by omega)
      simp only [q6KPlace, h4, if_false, Fin.ofNat, hbyte, hbit, decide_false, Bool.false_and,
        decide_eq_true hyes, Bool.true_and, Bool.false_or]
  · intro k hk hwidth
    have hnot : ¬ k < 4 := by change 6 ≤ k at hwidth; omega
    have hnot' : ¬ (4 ≤ k ∧ k < 6) := by change 6 ≤ k at hwidth; omega
    rw [BitVec.getLsbD_or, nibble_bit hupper _ hk, pair_bit _ hquarter hk, decide_eq_false hnot,
      decide_eq_false hnot', Bool.false_and, Bool.false_and, Bool.false_or]

end

/-! ## The elements -/

section
variable {F : Type} (ops : FloatOps F)

/-- The element at a position of a Q4_K block, from the fields. -/
def q4KElement (fields : (field : Q4KField) → BitVec field.width) (position : Fin 256) :
    BitVec 16 :=
  let part := Fin.ofNat 8 (position / 32)
  let delta := ops.mul (f16ToF32 ops (fields .d)) (ops.ofInt (fields (.scale part)).toNat)
  let offset := ops.mul (f16ToF32 ops (fields .dmin)) (ops.ofInt (fields (.minimum part)).toNat)
  f32ToBf16 ops (ops.sub (ops.mul delta (ops.ofInt (fields (.code position)).toNat)) offset)

/-- The element at a position of a Q6_K block, from the fields. -/
def q6KElement (fields : (field : Q6KField) → BitVec field.width) (position : Fin 256) :
    BitVec 16 :=
  let part := Fin.ofNat 16 (position / 16)
  let delta := ops.mul (f16ToF32 ops (fields .d)) (ops.ofInt (fields (.scale part)).toInt)
  f32ToBf16 ops (ops.mul delta (ops.ofInt ((fields (.code position)).toNat - 32)))

theorem ofU8_setWidth {width : Nat} (h : width ≤ 8) (field : BitVec width) :
    ofU8 ops (field.setWidth 8) = ops.ofInt field.toNat := by
  rw [ofU8, BitVec.toNat_setWidth_of_le h]

variable (block : List (BitVec 8))

theorem packed_getElem? (hblock : block.length = q4KBlockBytes) {group lane : Nat}
    (hgroup : group < 4) (hlane : lane < 32) :
    (((block.drop 16).drop (group * 32)).take 32)[lane]? =
      some (byteAt block (16 + group * 32 + lane)) := by
  have hindex : 16 + group * 32 + lane < block.length := by
    rw [hblock, q4KBlockBytes]
    omega
  rw [getElem?_take_of_lt hlane, getElem?_drop, getElem?_drop, ← Nat.add_assoc,
    byteAt, getD_eq_getElem?_getD, getElem?_eq_getElem hindex, Option.getD_some]

variable (position : Fin 256)

theorem q4KElement_eq {part : Nat} {code : BitVec 8}
    (hpart : part = position / 32) (hcode : code = (q4KFields block (.code position)).setWidth 8) :
    f32ToBf16 ops
        (ops.sub
          (ops.mul (ops.mul (f16ToF32 ops (halfAt block 0))
              (ofU8 ops (q4KScaleMin part ((block.take 16).drop 4)).1)) (ofU8 ops code))
          (ops.mul (f16ToF32 ops (halfAt block 2))
            (ofU8 ops (q4KScaleMin part ((block.take 16).drop 4)).2))) =
      q4KElement ops (q4KFields block) position := by
  have hval : part = (Fin.ofNat 8 (position / 32)).val := by
    rw [hpart]
    exact (Nat.mod_eq_of_lt (by omega)).symm
  rw [hval, hcode, q4KScaleMin_scale, q4KScaleMin_minimum, q4KFields_d, q4KFields_dmin,
    ofU8_setWidth ops (Nat.le_of_ble_eq_true rfl), ofU8_setWidth ops (Nat.le_of_ble_eq_true rfl),
    ofU8_setWidth ops (Nat.le_of_ble_eq_true rfl)]
  rfl

theorem dequantizeQ4KBlock_getElem? (hblock : block.length = q4KBlockBytes) (position : Fin 256) :
    ((dequantizeQ4KBlock ops block).map (f32ToBf16 ops))[position.val]? =
      some (q4KElement ops (q4KFields block) position) := by
  have hgroup : position.val / 64 < 4 := by omega
  have hpacked : ∀ group < 4, (((block.drop 16).drop (group * 32)).take 32).length = 32 := by
    intro group hgroup
    rw [length_take, length_drop, length_drop, hblock, q4KBlockBytes]
    omega
  have hcode := q4KCode block position
  rw [getElem?_map, dequantizeQ4KBlock]
  refine (congrArg _ (getElem?_flatMap_range
    (fun group hgroup => (?length : _ = 64)) (by omega))).trans ?element
  case length =>
    rw [length_append, length_map, length_map, hpacked group hgroup]
  case element =>
    by_cases hlow : position.val % 64 < 32
    · have hupper : position.val / 32 % 2 = 0 := by omega
      have hlane : position.val % 64 = position.val % 32 := by omega
      rw [hupper, ← hlane] at hcode
      rw [getElem?_append_left (by rwa [length_map, hpacked _ hgroup]),
        getElem?_map, packed_getElem? block hblock hgroup hlow]
      exact congrArg some (q4KElement_eq ops block position (by omega) hcode)
    · have hupper : position.val / 32 % 2 = 1 := by omega
      have hlane : position.val % 64 - 32 = position.val % 32 := by omega
      rw [hupper, ← hlane] at hcode
      rw [getElem?_append_right (by rw [length_map, hpacked _ hgroup]; omega),
        length_map, hpacked _ hgroup, getElem?_map,
        packed_getElem? block hblock hgroup (by omega)]
      exact congrArg some (q4KElement_eq ops block position (by omega) hcode)

theorem length_dequantizeQ4KBlock (hblock : block.length = q4KBlockBytes) :
    ((dequantizeQ4KBlock ops block).map (f32ToBf16 ops)).length = qkK := by
  rw [length_map, dequantizeQ4KBlock]
  refine length_flatMap_range (fun group hgroup => (?_ : _ = 64))
  rw [length_append, length_map, length_map, length_take, length_drop,
    length_drop, hblock, q4KBlockBytes]
  omega

/-- The writes of a Q6_K block. -/
def q6KWrites : List (Nat × BitVec 16) :=
  let ql := block.take 128
  let qh := (block.take 192).drop 128
  let scales := (block.take 208).drop 192
  let d := f16ToF32 ops (halfAt block 208)
  (List.range 2).flatMap fun half => (List.range 32).flatMap fun lane =>
    (q6KLane ops d (ql.drop (half * 64)) (qh.drop (half * 32)) (scales.drop (half * 8)) lane).map
      fun write => (half * 128 + write.1, write.2)

theorem dequantizeQ6KBlock_eq (output : List (BitVec 16)) :
    dequantizeQ6KBlock ops block output = writeAll (q6KWrites ops block) output := rfl

/-- No position is written twice, whatever the block holds. -/
theorem q6KWrites_nodup : ((q6KWrites ops block).map Prod.fst).Nodup := by
  have hkeys : (q6KWrites ops block).map Prod.fst =
      (range 2).flatMap fun half => (range 32).flatMap fun lane =>
        [half * 128 + lane, half * 128 + (lane + 32), half * 128 + (lane + 64),
          half * 128 + (lane + 96)] := by
    simp only [q6KWrites, q6KLane, map_flatMap, map_cons, map_nil]
  rw [hkeys, nodup_flatMap]
  constructor
  · intro half _
    rw [nodup_flatMap]
    constructor
    · intro lane _
      simp
    · apply nodup_range.pairwise_of_forall_ne
      intro lane hlane lane' hlane' hne key hkey hkey'
      simp only [mem_range, mem_cons, not_mem_nil, or_false] at *
      omega
  · apply nodup_range.pairwise_of_forall_ne
    intro half hhalf half' hhalf' hne key hkey hkey'
    simp only [mem_flatMap, mem_range, mem_cons, not_mem_nil, or_false] at *
    obtain ⟨lane, hlane, hkey⟩ := hkey
    obtain ⟨lane', hlane', hkey'⟩ := hkey'
    omega

theorem q6KElement_eq {scale code : BitVec 8}
    (hscale : scale = q6KFields block (.scale (Fin.ofNat 16 (position / 16))))
    (hcode : code = (q6KFields block (.code position)).setWidth 8) :
    encodeScaledQ6 ops (f16ToF32 ops (halfAt block 208)) scale ((code.toNat : Int) - 32) =
      q6KElement ops (q6KFields block) position := by
  rw [hscale, hcode, q6KFields_d, BitVec.toNat_setWidth_of_le (Nat.le_of_ble_eq_true rfl)]
  rfl

/-- The four writes of a lane are those of the quarters of its half. -/
theorem mem_q6KLane (d : F) (ql qh scales : List (BitVec 8)) (lane : Nat) {quarter : Nat}
    (hquarter : quarter < 4) :
    (lane + quarter * 32, encodeScaledQ6 ops d (byteAt scales (lane / 16 + quarter * 2))
      (((nibble (quarter / 2) (byteAt ql (lane + quarter % 2 * 32)) |||
        (((byteAt qh lane >>> (quarter * 2)) &&& 3#8) <<< 4)).toNat : Int) - 32)) ∈
      q6KLane ops d ql qh scales lane := by
  interval_cases quarter <;> simp [q6KLane, nibble]

theorem q6KWrites_mem :
    (position.val, q6KElement ops (q6KFields block) position) ∈ q6KWrites ops block := by
  have hhalf : position.val / 128 < 2 := by omega
  have hlane : position.val % 32 < 32 := Nat.mod_lt _ (by omega)
  have hquarter : position.val % 128 / 32 < 4 := by omega
  refine mem_flatMap.mpr ⟨position / 128, mem_range.mpr hhalf, ?_⟩
  refine mem_flatMap.mpr ⟨position % 32, mem_range.mpr hlane, mem_map.mpr ?_⟩
  refine ⟨_, mem_q6KLane ops _ _ _ _ _ hquarter, Prod.ext ?_ ?_⟩
  · omega
  · refine q6KElement_eq ops block position ?_ ?_
    · have hpart : (Fin.ofNat 16 (position / 16)).val = position / 16 :=
        Nat.mod_eq_of_lt (by omega)
      have hindex : 192 + (position.val / 128 * 8 +
          (position.val % 32 / 16 + position.val % 128 / 32 * 2)) =
          192 + position.val / 16 := by omega
      rw [← q6KScale, hpart, byteAt_drop, byteAt_drop, byteAt_take block (by omega), hindex]
    · have hlow : position.val / 128 * 64 + (position.val % 32 + position.val % 128 / 32 % 2 * 32) =
          position.val / 128 * 64 + position.val % 128 / 32 % 2 * 32 + position.val % 32 := by omega
      rw [← q6KCode, byteAt_drop, byteAt_take block (by omega), byteAt_drop, byteAt_drop,
        byteAt_take block (by omega), hlow, Nat.add_assoc 128]

theorem dequantizeQ6KBlock_getElem? :
    (dequantizeQ6KBlock ops block (List.replicate qkK 0))[position.val]? =
      some (q6KElement ops (q6KFields block) position) := by
  exact getElem?_writeAll (q6KWrites_nodup ops block) (q6KWrites_mem ops block position)
    (by rw [length_replicate]; exact position.isLt)

theorem length_dequantizeQ6KBlock :
    (dequantizeQ6KBlock ops block (List.replicate qkK 0)).length = qkK := by
  rw [dequantizeQ6KBlock_eq, length_writeAll, length_replicate]

end

end Eider.Guarantees.QuantLayout
