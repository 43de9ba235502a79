import Eider.Source.Sm12xKvCache

/-!
# Compact pages

What the append kernels make of a page. A page holds its rows if the complete key tiles and
value blocks are packed from them and the circular tail has the rows behind; every kernel
extends the rows that a page holds, and a page holds rows if and only if it agrees with the
page to which they were appended one at a time.
-/
namespace Eider.Guarantees.CompactPages
open Lib Lib.Ring Source Source.Sm12x List Function

variable {K V TK TV : Type}
variable {β : Type} {f : KvRow K V → β}

/-! ## Pages -/

/-- The page holds the rows: complete tiles and blocks, and the rows of the tail from `low`
on. -/
structure Stored (pack : Packing K V TK TV) (page : KvPage K V TK TV) (low : Nat)
    (rows : List (KvRow K V)) : Prop where
  keys : ∀ t, 8 * t + 8 ≤ rows.length →
    page.keyTiles t = pack.packKey (((rows.drop (8 * t)).take 8).map KvRow.key)
  values : ∀ b, 16 * b + 16 ≤ rows.length →
    page.valueBlocks b = pack.packValue (((rows.drop (16 * b)).take 16).map KvRow.value)
  keyTail : Recent compactTailRows page.keyTail low (rows.map KvRow.key)
  valueTail : Recent compactTailRows page.valueTail low (rows.map KvRow.value)

/-- The rows that the bulk kernels pack are finite. -/
def Finite (pack : Packing K V TK TV) (rows : List (KvRow K V)) : Prop :=
  ∀ row ∈ rows, pack.finiteKey row.key = row.key ∧ pack.finiteValue row.value = row.value

section
variable {pack : Packing K V TK TV} {page : KvPage K V TK TV} {low : Nat}
variable {rows more : List (KvRow K V)}

theorem window_append {start count : Nat} (h : start + count ≤ rows.length) :
    (((rows ++ more).drop start).take count).map f = ((rows.drop start).take count).map f := by
  rw [drop_append_of_le_length (by omega),
    take_append_of_le_length (by rw [length_drop]; omega)]

theorem finalizeKey_succ (position rows : Nat) :
    finalizeKey pack page position (rows + 1) =
      finalizeKeyRow pack (finalizeKey pack page position rows) (position + rows) := by
  simp [finalizeKey, range_succ]

theorem finalizeValue_succ (position rows : Nat) :
    finalizeValue pack page position (rows + 1) =
      finalizeValueRow pack (finalizeValue pack page position rows) (position + rows) := by
  simp [finalizeValue, range_succ]

theorem finalizeKey_spec (pack : Packing K V TK TV) (page : KvPage K V TK TV)
    (position rows : Nat) :
    (finalizeKey pack page position rows).keyTail = page.keyTail ∧
    (finalizeKey pack page position rows).valueTail = page.valueTail ∧
    (finalizeKey pack page position rows).valueBlocks = page.valueBlocks ∧
    ∀ t, (finalizeKey pack page position rows).keyTiles t =
      if position ≤ 8 * t + 7 ∧ 8 * t + 7 < position + rows then
        pack.packKey (window page.keyTail (8 * t % 16) 8)
      else page.keyTiles t := by
  induction rows with
  | zero =>
    refine ⟨rfl, rfl, rfl, fun t => ?_⟩
    rw [if_neg (by omega)]
    rfl
  | succ rows ih =>
    obtain ⟨hkey, hvalue, hblocks, htiles⟩ := ih
    rw [finalizeKey_succ]
    unfold finalizeKeyRow
    split
    · refine ⟨hkey, hvalue, hblocks, fun t => ?_⟩
      by_cases ht : (position + rows) / 8 = t
      · have hstart : (position + rows) % 16 / 8 * 8 = 8 * t % 16 := by omega
        subst ht
        rw [if_pos (by omega), ← hstart, ← hkey]
        exact update_self ..
      · have hne : t ≠ (position + rows) / 8 := fun heq => ht heq.symm
        refine (update_of_ne hne _ _).trans ?_
        rw [htiles]
        by_cases hin : position ≤ 8 * t + 7 ∧ 8 * t + 7 < position + rows
        · rw [if_pos hin, if_pos (by omega)]
        · rw [if_neg hin, if_neg (by omega)]
    · refine ⟨hkey, hvalue, hblocks, fun t => ?_⟩
      rw [htiles]
      by_cases hin : position ≤ 8 * t + 7 ∧ 8 * t + 7 < position + rows
      · rw [if_pos hin, if_pos (by omega)]
      · rw [if_neg hin, if_neg (by omega)]

theorem finalizeValue_spec (pack : Packing K V TK TV) (page : KvPage K V TK TV)
    (position rows : Nat) :
    (finalizeValue pack page position rows).keyTail = page.keyTail ∧
    (finalizeValue pack page position rows).valueTail = page.valueTail ∧
    (finalizeValue pack page position rows).keyTiles = page.keyTiles ∧
    ∀ b, (finalizeValue pack page position rows).valueBlocks b =
      if position ≤ 16 * b + 15 ∧ 16 * b + 15 < position + rows then
        pack.packValue (window page.valueTail 0 16)
      else page.valueBlocks b := by
  induction rows with
  | zero =>
    refine ⟨rfl, rfl, rfl, fun b => ?_⟩
    rw [if_neg (by omega)]
    rfl
  | succ rows ih =>
    obtain ⟨hkey, hvalue, htiles, hblocks⟩ := ih
    rw [finalizeValue_succ]
    unfold finalizeValueRow
    split
    · refine ⟨hkey, hvalue, htiles, fun b => ?_⟩
      by_cases hb : (position + rows) / 16 = b
      · subst hb
        rw [if_pos (by omega), ← hvalue]
        exact update_self ..
      · have hne : b ≠ (position + rows) / 16 := fun heq => hb heq.symm
        refine (update_of_ne hne _ _).trans ?_
        rw [hblocks]
        by_cases hin : position ≤ 16 * b + 15 ∧ 16 * b + 15 < position + rows
        · rw [if_pos hin, if_pos (by omega)]
        · rw [if_neg hin, if_neg (by omega)]
    · refine ⟨hkey, hvalue, htiles, fun b => ?_⟩
      rw [hblocks]
      by_cases hin : position ≤ 16 * b + 15 ∧ 16 * b + 15 < position + rows
      · rw [if_pos hin, if_pos (by omega)]
      · rw [if_neg hin, if_neg (by omega)]

/-- Rows up to the end of the block go through the tail. -/
theorem Stored.throughTail (h : Stored pack page low rows) (more : List (KvRow K V))
    (hlow : low % 16 = 0) (hbound : low ≤ rows.length) (hblock : rows.length % 16 + more.length ≤ 16) :
    Stored pack (appendThroughTail pack page rows.length more) low (rows ++ more) := by
  have hkeyTail := h.keyTail.writeAll (more.map KvRow.key)
  have hvalueTail := h.valueTail.writeAll (more.map KvRow.value)
  rw [length_map, ← map_append] at hkeyTail hvalueTail
  have hlength : (rows ++ more).length = rows.length + more.length := length_append
  unfold appendThroughTail
  obtain ⟨hkey, hvalue, hblocks, htiles⟩ := finalizeKey_spec pack
    (copyTail page rows.length more) rows.length more.length
  obtain ⟨hkey', hvalue', htiles', hblocks'⟩ := finalizeValue_spec pack
    (finalizeKey pack (copyTail page rows.length more) rows.length more.length)
    rows.length more.length
  exact {
    keys := by
      intro t ht
      rw [htiles', htiles]
      split
      · have hwindow := hkeyTail.window_eq (8 * t) 8 (by omega)
          (by rw [length_map]; omega)
          (by rw [length_map, compactTailRows]; omega) (by rw [compactTailRows]; omega)
        rw [← map_drop, ← map_take] at hwindow
        exact congrArg pack.packKey hwindow
      · rw [window_append (by omega)]
        exact h.keys t (by omega)
    values := by
      intro b hb
      rw [hblocks']
      split
      · have hstart : 16 * b % compactTailRows = 0 := by rw [compactTailRows]; omega
        have hwindow := hvalueTail.window_eq (16 * b) 16 (by omega)
          (by rw [length_map]; omega)
          (by rw [length_map, compactTailRows]; omega) (by rw [compactTailRows]; omega)
        rw [hstart, ← map_drop, ← map_take] at hwindow
        rw [hvalue]
        exact congrArg pack.packValue hwindow
      · rw [hblocks, window_append (by omega)]
        exact h.values b (by omega)
    keyTail := by
      rw [hkey', hkey]
      exact hkeyTail
    valueTail := by
      rw [hvalue', hvalue]
      exact hvalueTail
  }

theorem append_eq (position : Nat) (row : KvRow K V) :
    append pack page position row = appendThroughTail pack page position [row] := by
  unfold append appendThroughTail
  simp only [finalizeKey, finalizeValue, length_singleton, range_one, foldl_cons,
    foldl_nil, Nat.add_zero]
  by_cases hkey : position % 8 = 7 <;> by_cases hvalue : position % 16 = 15 <;>
    simp [finalizeKeyRow, finalizeValueRow, hkey, hvalue]

theorem foldl_update (f : Nat → β) (base count : Nat) (tiles : Nat → β) (t : Nat) :
    (List.range count).foldl (fun tiles group => update tiles (base + group) (f group))
      tiles t = if base ≤ t ∧ t < base + count then f (t - base) else tiles t := by
  induction count with
  | zero =>
    rw [if_neg (by omega)]
    rfl
  | succ count ih =>
    rw [range_succ, foldl_append, foldl_cons, foldl_nil]
    by_cases ht : t = base + count
    · subst ht
      rw [update_self, if_pos (by omega), Nat.add_sub_cancel_left]
    · rw [update_of_ne ht, ih]
      by_cases hin : base ≤ t ∧ t < base + count
      · rw [if_pos hin, if_pos (by omega)]
      · rw [if_neg hin, if_neg (by omega)]

theorem appendBlocks_keyTiles (position t : Nat) :
    (appendBlocks pack page position more).keyTiles t =
      if position / 8 ≤ t ∧ t < position / 8 + more.length / 8 then
        rowsKeyTile pack more (t - position / 8)
      else page.keyTiles t :=
  foldl_update (rowsKeyTile pack more) (position / 8) (more.length / 8) page.keyTiles t

theorem appendBlocks_valueBlocks {position : Nat} (b : Nat) :
    (appendBlocks pack page position more).valueBlocks b =
      if position / 16 ≤ b ∧ b < position / 16 + more.length / 16 then
        rowsValueBlock pack more (b - position / 16)
      else page.valueBlocks b := by
  rw [← foldl_update (rowsValueBlock pack more) (position / 16) (more.length / 16)
    page.valueBlocks b]
  have hindex : ∀ group, (position + group * 16) / 16 = position / 16 + group := by
    intro group
    omega
  simp only [appendBlocks, copyTail, finalizeValueRows, finalizeKeyRows, hindex]

theorem map_finite {g : KvRow K V → β} {start count : Nat} (h : ∀ row ∈ more, f row = g row) :
    ((more.drop start).take count).map f = ((more.drop start).take count).map g :=
  map_congr_left fun row hrow => h row (mem_of_mem_drop (mem_of_mem_take hrow))

theorem window_append_right (start count : Nat) :
    (((rows ++ more).drop (rows.length + start)).take count).map f =
      ((more.drop start).take count).map f := by
  rw [drop_append, drop_eq_nil_of_le (by omega), nil_append,
    Nat.add_sub_cancel_left]

/-- Whole blocks are packed from the rows, and the last one stays in the tail. -/
theorem Stored.blocks (h : Stored pack page low rows) (hstart : rows.length % 16 = 0)
    (hmore : more.length % 16 = 0) (hpos : 0 < more.length) (hfinite : Finite pack more) :
    Stored pack (appendBlocks pack page rows.length more) low (rows ++ more) := by
  have hlength : (rows ++ more).length = rows.length + more.length := length_append
  have hsplit : rows ++ more = (rows ++ more.take (more.length - 16)) ++
      more.drop (more.length - 16) := by
    rw [append_assoc, take_append_drop]
  have hbefore : (rows ++ more.take (more.length - 16)).length =
      rows.length + more.length - 16 := by
    rw [length_append, length_take]
    omega
  have hturn : (more.drop (more.length - 16)).length = compactTailRows := by
    rw [length_drop, compactTailRows]
    omega
  exact {
    keys := by
      intro t ht
      rw [appendBlocks_keyTiles]
      split
      · have hstart8 : 8 * t = rows.length + 8 * (t - rows.length / 8) := by omega
        rw [hstart8, window_append_right]
        exact congrArg pack.packKey (map_finite fun row hrow => (hfinite row hrow).1)
      · rw [window_append (by omega)]
        exact h.keys t (by omega)
    values := by
      intro b hb
      rw [appendBlocks_valueBlocks]
      split
      · have hstart16 : 16 * b = rows.length + 16 * (b - rows.length / 16) := by omega
        rw [hstart16, window_append_right]
        exact congrArg pack.packValue (map_finite fun row hrow => (hfinite row hrow).2)
      · rw [window_append (by omega)]
        exact h.values b (by omega)
    keyTail := by
      have hfull := recent_writeAll_full compactTailRows low page.keyTail
        ((rows ++ more.take (more.length - 16)).map KvRow.key)
        ((more.drop (more.length - 16)).map KvRow.key) (by rw [length_map]; exact hturn)
      rw [length_map, hbefore, ← map_append, ← hsplit] at hfull
      exact hfull
    valueTail := by
      have hfull := recent_writeAll_full compactTailRows low page.valueTail
        ((rows ++ more.take (more.length - 16)).map KvRow.value)
        ((more.drop (more.length - 16)).map KvRow.value) (by rw [length_map]; exact hturn)
      rw [length_map, hbefore, ← map_append, ← hsplit] at hfull
      exact hfull
  }

theorem headRows_le (start rows : Nat) : headRows start rows ≤ rows := by
  unfold headRows
  split <;> omega

/-- The part of a call that the bulk kernels pack. -/
def bulkPart (start : Nat) (rows : List (KvRow K V)) : List (KvRow K V) :=
  (rows.drop (headRows start rows.length)).take (bulkRows start rows.length)

theorem Stored.appendRows (h : Stored pack page low rows) (hlow : low % 16 = 0)
    (hbound : low ≤ rows.length) (hfinite : Finite pack (bulkPart rows.length more)) :
    Stored pack (appendRows pack page rows.length more) low (rows ++ more) := by
  have hhead := headRows_le rows.length more.length
  have hbulk : bulkRows rows.length more.length =
      (more.length - headRows rows.length more.length) / 16 * 16 := rfl
  -- The block at the start is completed.
  have hfirst : Stored pack (if rows.length % 16 = 0 then page
      else appendThroughTail pack page rows.length
        (more.take (headRows rows.length more.length))) low
      (rows ++ more.take (headRows rows.length more.length)) := by
    split
    · rename_i hzero
      rw [show headRows rows.length more.length = 0 by simp [headRows, hzero], take_zero,
        append_nil]
      exact h
    · rename_i hzero
      refine h.throughTail _ hlow hbound ?_
      rw [length_take, headRows, if_neg hzero]
      omega
  have hfirstLength : (rows ++ more.take (headRows rows.length more.length)).length =
      rows.length + headRows rows.length more.length := by
    rw [length_append, length_take]
    omega
  unfold Sm12x.appendRows
  dsimp only
  generalize hpage : (if rows.length % 16 = 0 then page
    else appendThroughTail pack page rows.length
      (more.take (headRows rows.length more.length))) = first at hfirst ⊢
  -- Whole blocks follow.
  have hpart : bulkPart rows.length more = (more.drop (headRows rows.length more.length)).take
      (bulkRows rows.length more.length) := rfl
  have hpartLength : (bulkPart rows.length more).length = bulkRows rows.length more.length := by
    rw [hpart, length_take, length_drop]
    omega
  have hsecond : Stored pack (if bulkRows rows.length more.length = 0 then first
      else appendBlocks pack first (rows.length + headRows rows.length more.length)
        (bulkPart rows.length more)) low
      (rows ++ more.take (headRows rows.length more.length + bulkRows rows.length more.length)) := by
    rw [take_add, ← append_assoc, ← hpart]
    split
    · rename_i hzero
      rw [length_eq_zero_iff.mp (hpartLength.trans hzero), append_nil]
      exact hfirst
    · rw [← hfirstLength]
      refine hfirst.blocks ?_ ?_ ?_ hfinite
      · by_cases hstart : rows.length % 16 = 0
        · simp [headRows, hstart]
        · have hheadRows : headRows rows.length more.length =
              min more.length (16 - rows.length % 16) := by rw [headRows, if_neg hstart]
          omega
      · omega
      · omega
  have hsecondLength : (rows ++ more.take (headRows rows.length more.length +
      bulkRows rows.length more.length)).length = rows.length +
        (headRows rows.length more.length + bulkRows rows.length more.length) := by
    rw [length_append, length_take]
    omega
  rw [← hpart]
  generalize hpage' : (if bulkRows rows.length more.length = 0 then first
    else appendBlocks pack first (rows.length + headRows rows.length more.length)
      (bulkPart rows.length more)) = second at hsecond ⊢
  -- What is left goes through the tail.
  split
  · have hlast := hsecond.throughTail (more.drop (headRows rows.length more.length +
      bulkRows rows.length more.length)) hlow (by omega) (by
        rw [hsecondLength, length_drop]
        by_cases hstart : rows.length % 16 = 0
        · have hheadRows : headRows rows.length more.length = 0 := by simp [headRows, hstart]
          omega
        · have hheadRows : headRows rows.length more.length =
              min more.length (16 - rows.length % 16) := by rw [headRows, if_neg hstart]
          omega)
    rw [hsecondLength, append_assoc, take_append_drop] at hlast
    exact hlast
  · rw [take_of_length_le (by omega)] at hsecond
    exact hsecond

/-- What one append call asks of its rows. -/
def ChunkFinite (pack : Packing K V TK TV) (start : Nat) (rows : List (KvRow K V)) : Chunk → Prop
  | .one => True
  | .rows _ => Finite pack (bulkPart start rows)

theorem Stored.chunk (h : Stored pack page low rows) (hlow : low % 16 = 0)
    (hbound : low ≤ rows.length) (chunk : Chunk) (hcount : more.length = chunk.count)
    (hfinite : ChunkFinite pack rows.length more chunk) :
    Stored pack (chunk.perform pack page rows.length more) low (rows ++ more) := by
  cases chunk with
  | one =>
    obtain ⟨row, rfl⟩ := length_eq_one_iff.mp hcount
    change Stored pack (append pack page rows.length row) low (rows ++ [row])
    rw [append_eq]
    exact h.throughTail [row] hlow hbound (by rw [length_singleton]; omega)
  | rows count => exact h.appendRows hlow hbound hfinite

theorem Stored.retract {page' : KvPage K V TK TV} {low' kept : Nat} (h : Stored pack page low rows)
    (htiles : page'.keyTiles = page.keyTiles) (hblocks : page'.valueBlocks = page.valueBlocks)
    (hkeyTail : Recent compactTailRows page'.keyTail low' ((rows.take kept).map KvRow.key))
    (hvalueTail : Recent compactTailRows page'.valueTail low' ((rows.take kept).map KvRow.value)) :
    Stored pack page' low' (rows.take kept) where
  keys := by
    intro t ht
    have hlength := length_take_le' kept rows
    rw [htiles, h.keys t (by omega), drop_take, take_take,
      Nat.min_eq_left (by rw [length_take] at ht; omega)]
  values := by
    intro b hb
    have hlength := length_take_le' kept rows
    rw [hblocks, h.values b (by omega), drop_take, take_take,
      Nat.min_eq_left (by rw [length_take] at hb; omega)]
  keyTail := hkeyTail
  valueTail := hvalueTail

end

/-! ## Serial appends -/

/-- Rows appended one at a time. -/
def serial (pack : Packing K V TK TV) : KvPage K V TK TV → Nat → List (KvRow K V) →
    KvPage K V TK TV
  | page, _, [] => page
  | page, position, row :: rows => serial pack (append pack page position row) (position + 1) rows

/-- The pages agree in their finalized tiles and blocks below the position and in the live
rows of the tail. -/
structure SameBelow (position : Nat) (page other : KvPage K V TK TV) : Prop where
  keys : ∀ t, 8 * t + 8 ≤ position → page.keyTiles t = other.keyTiles t
  values : ∀ b, 16 * b + 16 ≤ position → page.valueBlocks b = other.valueBlocks b
  keyTail : ∀ p, position / 16 * 16 ≤ p → p < position →
    page.keyTail (p % 16) = other.keyTail (p % 16)
  valueTail : ∀ p, position / 16 * 16 ≤ p → p < position →
    page.valueTail (p % 16) = other.valueTail (p % 16)

section
variable {pack : Packing K V TK TV} {page other : KvPage K V TK TV} {rows : List (KvRow K V)}

theorem serial_stored (page : KvPage K V TK TV) (before rows : List (KvRow K V))
    (h : Stored pack page 0 before) :
    Stored pack (serial pack page before.length rows) 0 (before ++ rows) := by
  induction rows generalizing page before with
  | nil =>
    rw [append_nil]
    exact h
  | cons row rows ih =>
    have hnext := ih (append pack page before.length row) (before ++ [row]) (by
      rw [append_eq]
      exact h.throughTail [row] rfl (Nat.zero_le _) (by rw [length_singleton]; omega))
    rw [length_append, length_singleton, append_assoc] at hnext
    exact hnext

theorem stored_nil (pack : Packing K V TK TV) (page : KvPage K V TK TV) (low : Nat) :
    Stored pack page low [] where
  keys := by
    intro t ht
    simp at ht
  values := by
    intro b hb
    simp at hb
  keyTail := recent_of_length_le (Nat.zero_le _)
  valueTail := recent_of_length_le (Nat.zero_le _)

theorem recent_map_get {ring : Nat → β} {low p : Nat}
    (h : Recent compactTailRows ring low (rows.map f)) (hp : p < rows.length) (hlow : low ≤ p)
    (hturn : rows.length ≤ p + 16) : ring (p % 16) = f rows[p] := by
  refine h p _ ?_ hlow (by rw [length_map]; exact hturn)
  rw [getElem?_map, getElem?_eq_getElem hp]
  rfl

theorem recent_of_map_get {ring : Nat → β} {low : Nat}
    (h : ∀ p (hp : p < rows.length), low ≤ p → ring (p % 16) = f rows[p]) :
    Recent compactTailRows ring low (rows.map f) := by
  intro p x hx hlow _
  rw [getElem?_map, Option.map_eq_some_iff] at hx
  obtain ⟨row, hrow, rfl⟩ := hx
  obtain ⟨hp, rfl⟩ := List.getElem?_eq_some_iff.mp hrow
  exact h p hp hlow

theorem stored_iff_sameBelow (blank : KvPage K V TK TV) :
    Stored pack page (rows.length / 16 * 16) rows ↔
      SameBelow rows.length page (serial pack blank 0 rows) := by
  have hserial : Stored pack (serial pack blank 0 rows) 0 rows :=
    serial_stored blank [] rows (stored_nil pack blank 0)
  constructor
  · intro h
    exact {
      keys := fun t ht => by rw [h.keys t ht, hserial.keys t ht]
      values := fun b hb => by rw [h.values b hb, hserial.values b hb]
      keyTail := fun p hlow hp => by
        rw [recent_map_get h.keyTail hp hlow (by omega),
          recent_map_get hserial.keyTail hp (Nat.zero_le _) (by omega)]
      valueTail := fun p hlow hp => by
        rw [recent_map_get h.valueTail hp hlow (by omega),
          recent_map_get hserial.valueTail hp (Nat.zero_le _) (by omega)]
    }
  · intro h
    exact {
      keys := fun t ht => by rw [h.keys t ht, hserial.keys t ht]
      values := fun b hb => by rw [h.values b hb, hserial.values b hb]
      keyTail := recent_of_map_get fun p hp hlow => by
        rw [h.keyTail p hlow hp, recent_map_get hserial.keyTail hp (Nat.zero_le _) (by omega)]
      valueTail := recent_of_map_get fun p hp hlow => by
        rw [h.valueTail p hlow hp, recent_map_get hserial.valueTail hp (Nat.zero_le _) (by omega)]
    }

end

end Eider.Guarantees.CompactPages
