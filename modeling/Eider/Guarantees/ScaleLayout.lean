import Eider.Source.ModelOpt
import Mathlib.Data.List.Forall2
import Mathlib.Data.List.ProdSigma
import Mathlib.Data.List.Nodup
import Mathlib.Tactic.Ring

/-!
# Scales repacked for cuBLASLt

The layout is cut into tiles of 128 rows and 4 blocks. An offset is the number of its tile and
a place among the 512 of the tile, and both give row and block back (`tiled_offset_inj`); so
each scale has a byte of its own.
-/
namespace Eider.Guarantees.ScaleLayout
open Lib Source.ModelOpt List

/-! ## Offsets -/

/-- The tiles side by side. -/
def tilesAcross (inner : Nat) : Nat := divCeil (divCeil inner 16) 4

variable (outer block inner : Nat)

def tile : Nat := block / 4 + outer / 128 * tilesAcross inner

/-- The place inside the tile. -/
def lane (outer block : Nat) : Nat := outer % 32 * 16 + outer % 128 / 32 * 4 + block % 4

theorem lane_lt (outer block : Nat) : lane outer block < 512 := by
  unfold lane
  omega

theorem lane_inj {outer outer' block block' : Nat} (h : lane outer block = lane outer' block') :
    outer % 32 = outer' % 32 ∧ outer % 128 / 32 = outer' % 128 / 32 ∧ block % 4 = block' % 4 := by
  have hquarter : outer % 128 / 32 < 4 := by omega
  have hquarter' : outer' % 128 / 32 < 4 := by omega
  unfold lane at h
  generalize outer % 128 / 32 = quarter at h hquarter ⊢
  generalize outer' % 128 / 32 = quarter' at h hquarter' ⊢
  omega

theorem cublasltScaleOffset_eq :
    cublasltScaleOffset outer block inner = tile outer block inner * 512 + lane outer block := by
  unfold cublasltScaleOffset tile lane tilesAcross
  ring

theorem cublasltScaleLayoutLen_eq (outer inner : Nat) :
    cublasltScaleLayoutLen outer inner = divCeil outer 128 * tilesAcross inner * 512 := by
  unfold cublasltScaleLayoutLen tilesAcross
  ring

/-- The device crate takes the row inside the tile first. -/
theorem ue4m3TiledScaleOffset_eq :
    ue4m3TiledScaleOffset outer block inner = cublasltScaleOffset outer block inner := by
  unfold ue4m3TiledScaleOffset
  dsimp only
  rw [Nat.mod_mod_of_dvd outer (by decide : 32 ∣ 128)]
  rfl

theorem lt_tilesAcross {block inner : Nat} (h : block < divCeil inner 16) :
    block / 4 < tilesAcross inner := by
  unfold tilesAcross
  generalize divCeil inner 16 = blocks at h
  unfold divCeil
  omega

theorem offset_lt_layoutLen {outer block outFeatures inner : Nat} (hout : outer < outFeatures)
    (hblock : block < divCeil inner 16) :
    cublasltScaleOffset outer block inner < cublasltScaleLayoutLen outFeatures inner := by
  have hacross := lt_tilesAcross hblock
  have hdown : outer / 128 + 1 ≤ divCeil outFeatures 128 := by
    unfold divCeil
    omega
  have htile : tile outer block inner < divCeil outFeatures 128 * tilesAcross inner :=
    calc tile outer block inner < (outer / 128 + 1) * tilesAcross inner := by
          rw [tile, Nat.succ_mul]
          omega
      _ ≤ divCeil outFeatures 128 * tilesAcross inner := Nat.mul_le_mul_right _ hdown
  have hlane := lane_lt outer block
  rw [cublasltScaleOffset_eq, cublasltScaleLayoutLen_eq]
  omega

theorem tiled_offset_inj {outer outer' block block' inner : Nat}
    (hblock : block < divCeil inner 16) (hblock' : block' < divCeil inner 16)
    (h : cublasltScaleOffset outer block inner = cublasltScaleOffset outer' block' inner) :
    outer = outer' ∧ block = block' := by
  have hacross := lt_tilesAcross hblock
  have hacross' := lt_tilesAcross hblock'
  have hlane := lane_lt outer block
  have hlane' := lane_lt outer' block'
  rw [cublasltScaleOffset_eq, cublasltScaleOffset_eq] at h
  have htile : tile outer block inner = tile outer' block' inner := by omega
  have hplace : lane outer block = lane outer' block' := by omega
  have hinside := lane_inj hplace
  have hrows : outer / 128 = outer' / 128 := by
    have hquotient := congrArg (· / tilesAcross inner) htile
    simpa [tile, Nat.add_mul_div_right _ _ (Nat.zero_lt_of_lt hacross),
      Nat.div_eq_of_lt hacross, Nat.div_eq_of_lt hacross'] using hquotient
  have hblocks : block / 4 = block' / 4 := by
    rw [tile, tile, hrows] at htile
    omega
  omega

/-! ## Repacking -/

theorem foldlM_nested {α β γ : Type} (f : α → β → γ → Option γ) (xs : List α) (ys : List β)
    (s : γ) : xs.foldlM (fun s x => ys.foldlM (fun s y => f x y s) s) s =
      (xs ×ˢ ys).foldlM (fun s p => f p.1 p.2 s) s := by
  induction xs generalizing s with
  | nil => rfl
  | cons x xs ih =>
    rw [foldlM_cons, product_cons, foldlM_append, foldlM_map]
    exact congrArg _ (funext ih)

theorem foldlM_writes {α β : Type} {place : α → Nat} {value : α → Option β} {writes : List (Nat × β)}
    {items : List α} (output : List β)
    (h : List.Forall₂ (fun x write => place x = write.1 ∧ value x = some write.2) items writes)
    (hplaces : ∀ x ∈ items, place x < output.length) :
    items.foldlM (fun output x => do
      let v ← value x
      if place x < output.length then some (output.set (place x) v) else none) output =
      some (writeAll writes output) := by
  induction h generalizing output with
  | nil => rfl
  | @cons x write items writes hwrite _ ih =>
    obtain ⟨hx, hitems⟩ := forall_mem_cons.mp hplaces
    have hlength : (output.set write.1 write.2).length = output.length := length_set
    simp only [foldlM_cons, hwrite.2, hwrite.1, Option.bind_eq_bind, Option.bind_some,
      if_pos (hwrite.1 ▸ hx)]
    exact ih _ (hlength ▸ hitems)

section
variable {outFeatures inFeatures : Nat} {scales : List UInt8}

/-- The pairs of row and block in the order of the loops. -/
def pairs (outFeatures blocks : Nat) : List (Nat × Nat) :=
  List.range outFeatures ×ˢ List.range blocks

theorem mem_pairs {blocks : Nat} {p : Nat × Nat} :
    p ∈ pairs outFeatures blocks ↔ p.1 < outFeatures ∧ p.2 < blocks := by
  obtain ⟨out, block⟩ := p
  rw [pairs, mem_product, mem_range, mem_range]

/-- What the loops write. -/
def scaleWrites (outFeatures inFeatures : Nat) (scales : List UInt8) : List (Nat × UInt8) :=
  (pairs outFeatures (inFeatures / 16)).map fun p =>
    (cublasltScaleOffset p.1 p.2 inFeatures, scales.getD (p.1 * (inFeatures / 16) + p.2) 0)

theorem index_lt {out block blocks : Nat} (hout : out < outFeatures) (hblock : block < blocks) :
    out * blocks + block < outFeatures * blocks :=
  calc out * blocks + block < (out + 1) * blocks := by
        rw [Nat.succ_mul]
        omega
    _ ≤ outFeatures * blocks := Nat.mul_le_mul_right _ hout

theorem blocks_eq (h : 16 ∣ inFeatures) : divCeil inFeatures 16 = inFeatures / 16 := by
  unfold divCeil
  omega

theorem modeloptScalesToCublaslt_eq (h : 16 ∣ inFeatures)
    (hscales : outFeatures * (inFeatures / 16) ≤ scales.length) :
    modeloptScalesToCublaslt outFeatures inFeatures scales =
      some (writeAll (scaleWrites outFeatures inFeatures scales)
        (List.replicate (cublasltScaleLayoutLen outFeatures inFeatures) 0)) := by
  unfold modeloptScalesToCublaslt
  rw [foldlM_nested]
  refine foldlM_writes (α := Nat × Nat) _ ?_ ?_
  · rw [scaleWrites, forall₂_map_right_iff, pairs, forall₂_same]
    intro p hp
    obtain ⟨hout, hblock⟩ := mem_pairs.mp hp
    have hindex := index_lt hout hblock
    simp [getElem?_eq_getElem (hindex.trans_le hscales)]
  · intro p hp
    obtain ⟨hout, hblock⟩ := mem_pairs.mp hp
    rw [length_replicate]
    exact offset_lt_layoutLen hout (blocks_eq h ▸ hblock)

theorem scaleWrites_nodup (h : 16 ∣ inFeatures) :
    ((scaleWrites outFeatures inFeatures scales).map Prod.fst).Nodup := by
  have hpairs : (pairs outFeatures (inFeatures / 16)).Nodup :=
    List.Nodup.product nodup_range nodup_range
  rw [scaleWrites, map_map]
  refine List.Nodup.map_on ?_ hpairs
  intro p hp q hq heq
  have hinj := tiled_offset_inj (blocks_eq h ▸ (mem_pairs.mp hp).2)
    (blocks_eq h ▸ (mem_pairs.mp hq).2) heq
  exact Prod.ext hinj.1 hinj.2

end

/-- Where a `usize` holds the length of the layout, it holds every index and offset of a scale. -/
theorem scales_fit_usize (h : 16 ∣ inFeatures)
    (hfits : cublasltScaleLayoutLen outFeatures inFeatures < 2 ^ 64) {out block : Nat}
    (hout : out < outFeatures) (hblock : block < inFeatures / 16) :
    out * (inFeatures / 16) + block < 2 ^ 64 ∧ cublasltScaleOffset out block inFeatures < 2 ^ 64 := by
  have hrows : outFeatures ≤ divCeil outFeatures 128 * 128 := by
    unfold divCeil
    omega
  have hblocks : inFeatures / 16 ≤ divCeil (divCeil inFeatures 16) 4 * 4 := by
    rw [blocks_eq h]
    unfold divCeil
    omega
  have hindex : out * (inFeatures / 16) + block < cublasltScaleLayoutLen outFeatures inFeatures :=
    (index_lt hout hblock).trans_le (Nat.mul_le_mul hrows hblocks)
  exact ⟨hindex.trans hfits, (offset_lt_layoutLen hout (blocks_eq h ▸ hblock)).trans hfits⟩

/-- Repacking places every scale at a byte of its own inside the layout and zero elsewhere, and
the two implementations of length and offset agree. -/
theorem scales_repacked_losslessly (outFeatures inFeatures : Nat) (h : 16 ∣ inFeatures) :
    (∀ out < outFeatures, ∀ block < inFeatures / 16,
      cublasltScaleOffset out block inFeatures < cublasltScaleLayoutLen outFeatures inFeatures) ∧
    (∀ out out', ∀ block < inFeatures / 16, ∀ block' < inFeatures / 16,
      cublasltScaleOffset out block inFeatures = cublasltScaleOffset out' block' inFeatures →
        out = out' ∧ block = block') ∧
    (∀ scales : List UInt8, outFeatures * (inFeatures / 16) ≤ scales.length →
      ∃ packed, modeloptScalesToCublaslt outFeatures inFeatures scales = some packed ∧
        packed.length = cublasltScaleLayoutLen outFeatures inFeatures ∧
        (∀ out < outFeatures, ∀ block < inFeatures / 16,
          packed[cublasltScaleOffset out block inFeatures]? =
            scales[out * (inFeatures / 16) + block]?) ∧
        ∀ i < packed.length, (∀ out < outFeatures, ∀ block < inFeatures / 16,
          i ≠ cublasltScaleOffset out block inFeatures) → packed[i]? = some 0) ∧
    (∀ outer inner, cublasltScaleLayoutLen outer inner = ue4m3ScaleLayoutLen outer inner) ∧
    ∀ outer block inner,
      cublasltScaleOffset outer block inner = ue4m3TiledScaleOffset outer block inner := by
  have hlt : ∀ out < outFeatures, ∀ block < inFeatures / 16,
      cublasltScaleOffset out block inFeatures < cublasltScaleLayoutLen outFeatures inFeatures :=
    fun out hout block hblock => offset_lt_layoutLen hout (blocks_eq h ▸ hblock)
  refine ⟨hlt, ?_, ?_, fun _ _ => rfl, fun _ _ _ => (ue4m3TiledScaleOffset_eq _ _ _).symm⟩
  · intro out out' block hblock block' hblock' heq
    exact tiled_offset_inj (blocks_eq h ▸ hblock) (blocks_eq h ▸ hblock') heq
  · intro scales hscales
    refine ⟨_, modeloptScalesToCublaslt_eq h hscales, ?_, ?_, ?_⟩
    · rw [length_writeAll, length_replicate]
    · intro out hout block hblock
      have hindex := (index_lt hout hblock).trans_le hscales
      have hmem : (cublasltScaleOffset out block inFeatures,
          scales.getD (out * (inFeatures / 16) + block) 0) ∈
          scaleWrites outFeatures inFeatures scales :=
        mem_map.mpr ⟨(out, block), mem_pairs.mpr ⟨hout, hblock⟩, rfl⟩
      rw [getElem?_writeAll (scaleWrites_nodup h) hmem (by simpa using hlt out hout block hblock)]
      simp [getElem?_eq_getElem hindex]
    · intro i hi hother
      rw [length_writeAll, length_replicate] at hi
      have hnot : i ∉ (scaleWrites outFeatures inFeatures scales).map Prod.fst := by
        intro hmem
        rw [scaleWrites, map_map] at hmem
        obtain ⟨p, hp, rfl⟩ := mem_map.mp hmem
        exact hother p.1 (mem_pairs.mp hp).1 p.2 (mem_pairs.mp hp).2 rfl
      rw [getElem?_writeAll_of_not_mem hnot]
      simp [hi]

theorem two_rows_repacked :
    16 ∣ 32 ∧ ∃ packed, modeloptScalesToCublaslt 2 32 [1, 2, 3, 4] = some packed ∧
      packed.length = 512 ∧ packed[1]? = some 2 ∧ packed[16]? = some 3 := by
  have hdvd : 16 ∣ 32 := by decide
  obtain ⟨-, -, hscales, -⟩ := scales_repacked_losslessly 2 32 hdvd
  obtain ⟨packed, heq, hlength, hplaced, -⟩ := hscales [1, 2, 3, 4] (by decide)
  exact ⟨hdvd, packed, heq, hlength, hplaced 0 (by decide) 1 (by decide),
    hplaced 1 (by decide) 0 (by decide)⟩

end Eider.Guarantees.ScaleLayout
