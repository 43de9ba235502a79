import Eider.Source.ModelOpt
import Mathlib.Tactic.IntervalCases

/-!
# GGML NVFP4 blocks as ModelOpt records

A block of 36 bytes holds four scales and four groups of 16 codes. GGML keeps the first eight
codes of a group in the low halves of its bytes and the others in the high halves; a ModelOpt
record keeps neighbours together. Every byte of the record is made of two codes of one group
(`packedByte`), and both orders can be read back.
-/
namespace Eider.Guarantees.NibbleOrder
open Lib Source.ModelOpt List
open Source.Deepseek4 (Linear)

/-! ## Bytes of two nibbles -/

theorem eq_of_bits {a b : UInt8}
    (h : ∀ k < 8, a.toBitVec.getLsbD k = b.toBitVec.getLsbD k) : a = b :=
  UInt8.toBitVec_inj.mp (BitVec.eq_of_getLsbD_eq h)

variable (a b : UInt8)

theorem lowNibble_lows :
    lowNibble (lowNibble a ||| lowNibble b <<< (4 : UInt8)) = lowNibble a := by
  apply eq_of_bits
  intro k hk
  interval_cases k <;> simp [lowNibble]

theorem highNibble_lows :
    highNibble (lowNibble a ||| lowNibble b <<< (4 : UInt8)) = lowNibble b := by
  apply eq_of_bits
  intro k hk
  interval_cases k <;> simp [lowNibble, highNibble]

theorem lowNibble_highs :
    lowNibble (highNibble a ||| (b &&& (0xf0 : UInt8))) = highNibble a := by
  apply eq_of_bits
  intro k hk
  interval_cases k <;> simp [lowNibble, highNibble]

theorem highNibble_highs :
    highNibble (highNibble a ||| (b &&& (0xf0 : UInt8))) = highNibble b := by
  apply eq_of_bits
  intro k hk
  interval_cases k <;> simp [highNibble]

theorem eq_of_nibbles {a b : UInt8} (hlow : lowNibble a = lowNibble b)
    (hhigh : highNibble a = highNibble b) : a = b := by
  have join : ∀ c : UInt8, lowNibble c ||| highNibble c <<< (4 : UInt8) = c := by
    intro c
    apply eq_of_bits
    intro k hk
    interval_cases k <;> simp [lowNibble, highNibble]
  rw [← join a, ← join b, hlow, hhigh]

/-! ## Two orders -/

variable (bytes : List UInt8)

/-- The byte of GGML's layout that holds the code of an element. -/
def ggmlByte (element : Nat) : UInt8 :=
  bytes.getD (element / 64 * 36 + 4 + element % 64 / 16 * 8 + element % 8) 0

/-- The code of an element in GGML's split halves. -/
def ggmlNibble (element : Nat) : UInt8 :=
  if element % 16 < 8 then lowNibble (ggmlByte bytes element)
  else highNibble (ggmlByte bytes element)

/-- The scale of an element's group of 16 in GGML's blocks. -/
def ggmlScale (element : Nat) : UInt8 :=
  bytes.getD (element / 64 * 36 + element % 64 / 16) 0

/-- The byte of a ModelOpt record that holds the codes of two neighbours. -/
def packedByte (index : Nat) : UInt8 :=
  let even := 2 * index
  if index % 8 < 4 then
    lowNibble (ggmlByte bytes even) ||| lowNibble (ggmlByte bytes (even + 1)) <<< (4 : UInt8)
  else highNibble (ggmlByte bytes even) ||| (ggmlByte bytes (even + 1) &&& (0xf0 : UInt8))

section
variable {bytes packed scales : List UInt8} {blocks element : Nat}

theorem getD_source {block group k : Nat} (hgroup : group < 4) (hk : k < 8) :
    (((ggufBlock bytes block).drop (4 + group * 8)).take 8).getD k 0 =
      bytes.getD (block * 36 + 4 + group * 8 + k) 0 := by
  have hindex : block * 36 + (4 + group * 8 + k) = block * 36 + 4 + group * 8 + k := by omega
  have hinside : 4 + group * 8 + k < 36 := by omega
  simp [ggufBlock, getD_eq_getElem?_getD, getElem?_drop, hk, hinside, hindex]

/-- Every write of a block is the byte that belongs to its position. -/
theorem blockWrites_packed {block : Nat} :
    ∀ write ∈ blockWrites block (ggufBlock bytes block), write.2 = packedByte bytes write.1 := by
  intro write hwrite
  obtain ⟨group, hgroup, hwrite⟩ := mem_flatMap.mp hwrite
  obtain ⟨j, hj, hwrite⟩ := mem_flatMap.mp hwrite
  rw [mem_range] at hgroup hj
  have heven := @getD_source bytes block group (2 * j) hgroup (by omega)
  have hodd := @getD_source bytes block group (2 * j + 1) hgroup (by omega)
  simp only [heven, hodd, mem_cons, not_mem_nil, or_false] at hwrite
  obtain rfl | rfl := hwrite
  · have hlow : (block * 32 + group * 8 + j) % 8 < 4 := by omega
    simp only [packedByte, ggmlByte, hlow, if_true]
    congr 4 <;> omega
  · have hhigh : ¬ (block * 32 + group * 8 + (j + 4)) % 8 < 4 := by omega
    simp only [packedByte, ggmlByte, hhigh, if_false]
    congr 4 <;> omega

theorem mem_blockWrites {block i : Nat} (h : i / 32 = block) (content : List UInt8) :
    i ∈ (blockWrites block content).map Prod.fst := by
  simp only [blockWrites, map_flatMap, mem_flatMap, mem_range, map_cons,
    map_nil, mem_cons, not_mem_nil, or_false]
  exact ⟨i % 32 / 8, by omega, i % 4, by omega, by omega⟩

theorem unpackBlocks_ok {out out' : List UInt8 × List UInt8}
    (h : (List.range blocks).foldlM (unpackBlock bytes) out = .ok out') :
    out'.1 = writeAll
        ((List.range blocks).flatMap fun block => blockWrites block (ggufBlock bytes block)) out.1 ∧
      out'.2 = out.2 ++ (List.range blocks).flatMap fun block => (ggufBlock bytes block).take 4 := by
  induction blocks generalizing out' with
  | zero =>
    cases h
    exact ⟨rfl, (append_nil _).symm⟩
  | succ blocks ih =>
    rw [range_succ, foldlM_append] at h
    obtain ⟨middle, hfirst, hlast⟩ := Eider.Source.bind_ok h
    obtain ⟨hpacked, hscales⟩ := ih hfirst
    obtain ⟨last, hblock, hlast⟩ := Eider.Source.bind_ok hlast
    cases hlast
    unfold unpackBlock at hblock
    dsimp only at hblock
    split at hblock
    · cases hblock
    · rw [← Except.ok.inj hblock, range_succ, flatMap_append, flatMap_append,
        flatMap_singleton, flatMap_singleton, writeAll_append, ← hpacked, hscales,
        append_assoc]
      simp only [and_self]

theorem nibbleAt_packed (h : packed[element / 2]? = some (packedByte bytes (element / 2))) :
    nibbleAt packed element = ggmlNibble bytes element := by
  rw [nibbleAt, getD_eq_getElem?_getD, h, Option.getD_some, ggmlNibble, packedByte]
  have hquarter : element / 2 % 8 < 4 ↔ element % 16 < 8 := by omega
  by_cases heven : element % 2 = 0
  · have hself : 2 * (element / 2) = element := by omega
    rw [if_pos heven, hself]
    by_cases hlow : element % 16 < 8
    · rw [if_pos (hquarter.mpr hlow), if_pos hlow, lowNibble_lows]
    · rw [if_neg (hquarter.not.mpr hlow), if_neg hlow, lowNibble_highs]
  · have hself : 2 * (element / 2) + 1 = element := by omega
    rw [if_neg heven, hself]
    by_cases hlow : element % 16 < 8
    · rw [if_pos (hquarter.mpr hlow), if_pos hlow, highNibble_lows]
    · rw [if_neg (hquarter.not.mpr hlow), if_neg hlow, highNibble_highs]

end

/-! ## Accepted records -/

/-- What an accepted record says: its lengths, and each element's code and scale. -/
structure Unpacked (bytes : List UInt8) (outFeatures inFeatures : Nat) (record : Linear) :
    Prop where
  shape : record.outFeatures = outFeatures ∧ record.inFeatures = inFeatures
  packed : record.packedWeight.length * 2 = outFeatures * inFeatures
  scales : record.weightScale.length * 16 = outFeatures * inFeatures
  nibble : ∀ element < outFeatures * inFeatures,
    nibbleAt record.packedWeight element = ggmlNibble bytes element
  scale : ∀ element < outFeatures * inFeatures,
    record.weightScale[element / 16]? = some (ggmlScale bytes element)

section
variable {bytes bytes' : List UInt8} {outFeatures inFeatures outFeatures' inFeatures' : Nat}
  {globalScale globalScale' : UInt32} {record : Linear}

theorem unpack_ok (h : unpackGgufNvfp4 bytes outFeatures inFeatures globalScale = .ok record) :
    Unpacked bytes outFeatures inFeatures record ∧ record.weightScale2 = globalScale ∧
      outFeatures * inFeatures = 64 * (bytes.length / 36) ∧
      bytes.length = 36 * (bytes.length / 36) := by
  unfold unpackGgufNvfp4 at h
  dsimp only at h
  split at h
  · cases h
  split at h
  · cases h
  rename_i hchecks
  simp only [not_or, not_not] at hchecks
  obtain ⟨-, -, hdvd, hlength, -⟩ := hchecks
  obtain ⟨out, hout, h⟩ := Eider.Source.bind_ok h
  cases h
  obtain ⟨hpacked, hscales⟩ := unpackBlocks_ok hout
  have helements : outFeatures * inFeatures % 64 = 0 := by rw [Nat.mul_mod, hdvd, Nat.mul_zero]
  generalize hblocks : bytes.length / 36 = blocks at *
  have hcount : outFeatures * inFeatures = 64 * blocks := by omega
  have hbytes : bytes.length = 36 * blocks := by omega
  rw [hcount] at hpacked ⊢
  have hgroups : ∀ block < blocks, ((ggufBlock bytes block).take 4).length = 4 := by
    intro block hblock
    simp only [ggufBlock, length_take, length_drop]
    omega
  refine ⟨⟨⟨rfl, rfl⟩, ?_, ?_, ?_, ?_⟩, rfl, rfl, hbytes⟩
  · rw [hpacked, length_writeAll, length_replicate]
    omega
  · rw [hscales, nil_append, length_flatMap_range hgroups]
    omega
  · intro element helement
    apply nibbleAt_packed
    rw [hpacked]
    apply getElem?_writeAll_of_forall
    · intro write hwrite
      obtain ⟨block, -, hwrite⟩ := mem_flatMap.mp hwrite
      exact blockWrites_packed write hwrite
    · rw [map_flatMap, mem_flatMap]
      exact ⟨element / 64, mem_range.mpr (by omega), mem_blockWrites (by omega) _⟩
    · rw [length_replicate]
      omega
  · intro element helement
    have hindex : element / 16 / 4 * 36 + element / 16 % 4 =
        element / 64 * 36 + element % 64 / 16 := by omega
    have hin : element / 64 * 36 + element % 64 / 16 < bytes.length := by omega
    have hfour : element / 16 % 4 < 4 := Nat.mod_lt _ (by omega)
    rw [hscales, nil_append, getElem?_flatMap_range hgroups (by omega)]
    rw [getElem?_take_of_lt hfour, ggufBlock, getElem?_take_of_lt (by omega),
      getElem?_drop, hindex, ggmlScale, getD_eq_getElem?_getD,
      getElem?_eq_getElem hin, Option.getD_some]

theorem bytes_eq {blocks : Nat} (hlength : bytes.length = 36 * blocks)
    (hlength' : bytes'.length = 36 * blocks)
    (hnibble : ∀ element < 64 * blocks, ggmlNibble bytes element = ggmlNibble bytes' element)
    (hscale : ∀ element < 64 * blocks, ggmlScale bytes element = ggmlScale bytes' element) :
    bytes = bytes' := by
  have hsame : ∀ i < 36 * blocks, bytes.getD i 0 = bytes'.getD i 0 := by
    intro i hi
    by_cases hgroup : i % 36 < 4
    · have hscale := hscale (i / 36 * 64 + i % 36 * 16) (by omega)
      have hindex : (i / 36 * 64 + i % 36 * 16) / 64 * 36 +
          (i / 36 * 64 + i % 36 * 16) % 64 / 16 = i := by omega
      rwa [ggmlScale, ggmlScale, hindex] at hscale
    · -- the element whose code is the low half of the byte, and the one eight further
      obtain ⟨element, helement⟩ : ∃ element,
          element = i / 36 * 64 + (i % 36 - 4) / 8 * 16 + (i % 36 - 4) % 8 := ⟨_, rfl⟩
      have hlow := hnibble element (by omega)
      have hhigh := hnibble (element + 8) (by omega)
      have hbyte : element / 64 * 36 + 4 + element % 64 / 16 * 8 + element % 8 = i := by omega
      have hbyte' : (element + 8) / 64 * 36 + 4 + (element + 8) % 64 / 16 * 8 +
          (element + 8) % 8 = i := by omega
      rw [ggmlNibble, ggmlNibble, if_pos (by omega), if_pos (by omega), ggmlByte, ggmlByte,
        hbyte] at hlow
      rw [ggmlNibble, ggmlNibble, if_neg (by omega), if_neg (by omega), ggmlByte, ggmlByte,
        hbyte'] at hhigh
      exact eq_of_nibbles hlow hhigh
  apply ext_getElem (hlength.trans hlength'.symm)
  intro i hi hi'
  have hi := hsame i (hlength ▸ hi)
  rwa [getD_eq_getElem?_getD, getD_eq_getElem?_getD, getElem?_eq_getElem, getElem?_eq_getElem] at hi

end

/-- An accepted record keeps the code and the scale of each element, and no other record is
converted to the same. -/
theorem gguf_record_kept (bytes : List UInt8) (outFeatures inFeatures : Nat)
    (globalScale : UInt32) (record : Linear)
    (h : unpackGgufNvfp4 bytes outFeatures inFeatures globalScale = .ok record) :
    Unpacked bytes outFeatures inFeatures record ∧
      ∀ bytes' outFeatures' inFeatures' globalScale',
        unpackGgufNvfp4 bytes' outFeatures' inFeatures' globalScale' = .ok record →
          bytes' = bytes ∧ outFeatures' = outFeatures ∧ inFeatures' = inFeatures ∧
            globalScale' = globalScale := by
  obtain ⟨hunpacked, hscale, hcount, hbytes⟩ := unpack_ok h
  refine ⟨hunpacked, ?_⟩
  intro bytes' outFeatures' inFeatures' globalScale' h'
  obtain ⟨hunpacked', hscale', hcount', hbytes'⟩ := unpack_ok h'
  obtain rfl := hunpacked.shape.1.symm.trans hunpacked'.shape.1
  obtain rfl := hunpacked.shape.2.symm.trans hunpacked'.shape.2
  have hblocks : bytes'.length / 36 = bytes.length / 36 := by omega
  rw [hblocks] at hbytes'
  refine ⟨bytes_eq hbytes' hbytes ?_ ?_, rfl, rfl, hscale'.symm.trans hscale⟩
  · intro element helement
    rw [← hunpacked.nibble element (by omega), ← hunpacked'.nibble element (by omega)]
  · intro element helement
    have hsame := hunpacked.scale element (by omega)
    rw [hunpacked'.scale element (by omega)] at hsame
    exact Option.some.inj hsame

/-- One block, whose first byte holds the codes 1 and 2 of the elements 0 and 8. -/
theorem one_block_kept : ∃ record,
    unpackGgufNvfp4 ([0x38, 0x38, 0x38, 0x38, 0x21] ++ List.replicate 31 0x43) 1 64 0x3f800000 =
      .ok record ∧
    nibbleAt record.packedWeight 0 = 1 ∧ nibbleAt record.packedWeight 8 = 2 := by
  obtain ⟨record, hrecord⟩ : ∃ record, unpackGgufNvfp4
      ([0x38, 0x38, 0x38, 0x38, 0x21] ++ replicate 31 0x43) 1 64 0x3f800000 = .ok record :=
    ⟨_, rfl⟩
  obtain ⟨⟨-, -, -, hnibble, -⟩, -⟩ := gguf_record_kept _ _ _ _ _ hrecord
  exact ⟨record, hrecord, hnibble 0 (by decide), hnibble 8 (by decide)⟩

end Eider.Guarantees.NibbleOrder
