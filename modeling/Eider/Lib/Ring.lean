import Mathlib.Data.List.Basic
import Mathlib.Logic.Function.Basic

/-!
# Circular buffers

A ring of `size` slots keeps the last rows of a growing list: row `p` goes to slot
`p % size`. `Recent size ring low rows` says that the ring still holds every row from
`low` on that no later row has overwritten. Rows can be taken back: what is left holds
if the rows that were dropped did not overwrite any of it, and a prefix of the slots can
be put back from a copy.
-/
namespace Eider.Lib.Ring
open List Function

variable {α : Type*}

/-- Row `position` is written. -/
def write (size : Nat) (ring : Nat → α) (position : Nat) (row : α) : Nat → α :=
  update ring (position % size) row

/-- Rows are written from `position` on. -/
def writeAll (size : Nat) : (Nat → α) → Nat → List α → Nat → α
  | ring, _, [] => ring
  | ring, position, row :: rows => writeAll size (write size ring position row) (position + 1) rows

/-- The slots below `count` are taken from a copy. -/
def restore (count : Nat) (saved ring : Nat → α) : Nat → α :=
  fun slot => if slot < count then saved slot else ring slot

/-- Slots `start`, ..., `start + count - 1`. -/
def window (ring : Nat → α) (start count : Nat) : List α :=
  (List.range count).map fun i => ring (start + i)

def Recent (size : Nat) (ring : Nat → α) (low : Nat) (rows : List α) : Prop :=
  ∀ p row, rows[p]? = some row → low ≤ p → rows.length ≤ p + size → ring (p % size) = row

variable {size low low' : Nat} {ring saved : Nat → α} {rows : List α}

theorem recent_of_length_le (h : rows.length ≤ low) : Recent size ring low rows := by
  intro p row hrow hp _
  obtain ⟨hlen, -⟩ := List.getElem?_eq_some_iff.mp hrow
  omega

/-- Two rows less than a turn apart do not share a slot. -/
theorem mod_ne_of_lt {p q : Nat} (hpq : p < q) (hturn : q < p + size) : p % size ≠ q % size := by
  intro heq
  have hzero := Nat.sub_mod_eq_zero_of_mod_eq heq.symm
  rw [Nat.mod_eq_of_lt (by omega)] at hzero
  omega

section
variable (h : Recent size ring low rows)
include h

theorem Recent.write (row : α) :
    Recent size (write size ring rows.length row) low (rows ++ [row]) := by
  intro p x hx hp hlast
  rw [length_append, length_singleton] at hlast
  unfold Ring.write
  by_cases hnew : p = rows.length
  · subst hnew
    rw [getElem?_append_right (Nat.le_refl _), Nat.sub_self] at hx
    cases hx
    exact update_self ..
  · have hold : p < rows.length := by
      obtain ⟨hlen, -⟩ := List.getElem?_eq_some_iff.mp hx
      rw [List.length_append, List.length_singleton] at hlen
      omega
    rw [List.getElem?_append_left hold] at hx
    rw [update_of_ne (mod_ne_of_lt hold (by omega))]
    exact h p x hx hp (by omega)

theorem Recent.writeAll (more : List α) :
    Recent size (writeAll size ring rows.length more) low (rows ++ more) := by
  induction more generalizing ring rows with
  | nil =>
    rw [append_nil]
    exact h
  | cons row more ih =>
    have hnext := ih (h.write row)
    rw [length_append, length_singleton, append_assoc] at hnext
    exact hnext

omit h in
theorem recent_writeAll_full (size low : Nat) (ring : Nat → α) (before turn : List α)
    (hturn : turn.length = size) :
    Recent size (writeAll size ring before.length turn) low (before ++ turn) := by
  have hbefore : Recent size ring before.length before := recent_of_length_le (Nat.le_refl _)
  have hall := hbefore.writeAll turn
  intro p row hrow _ hlast
  rw [length_append, hturn] at hlast
  exact hall p row hrow (by omega) (by rw [length_append, hturn]; exact hlast)

/-- The ring's slots from that of row `start` on, up to the end of the turn. -/
theorem Recent.window_eq (start count : Nat) (hlow : low ≤ start)
    (hrows : start + count ≤ rows.length) (hlast : rows.length ≤ start + size)
    (hturn : start % size + count ≤ size) :
    window ring (start % size) count = (rows.drop start).take count := by
  apply ext_getElem?
  intro i
  unfold window
  by_cases hi : i < count
  · have hmod : start % size + i = (start + i) % size := by
      rw [Nat.add_mod, Nat.mod_eq_of_lt (show i < size by omega),
        Nat.mod_eq_of_lt (show start % size + i < size by omega)]
    have hbound : start + i < rows.length := by omega
    have hget : rows[start + i]? = some rows[start + i] := getElem?_eq_getElem hbound
    rw [getElem?_map, getElem?_range hi, Option.map_some, hmod,
      getElem?_take_of_lt hi, getElem?_drop, hget]
    exact congrArg some (h (start + i) _ hget (by omega) (by omega))
  · rw [getElem?_eq_none (by simpa using hi),
      getElem?_eq_none (by rw [length_take]; omega)]

/-- Rows are taken back: none of those dropped shares a slot with a row that is left and
was written with them. -/
theorem Recent.take_of_spared {kept : Nat} (hlow : low ≤ low') (hkept : kept ≤ low' + size)
    (spared : ∀ p q, low' ≤ p → p < kept → kept ≤ q → q < rows.length → p % size ≠ q % size) :
    Recent size ring low' (rows.take kept) := by
  intro p row hrow hp _
  obtain ⟨hlen, -⟩ := List.getElem?_eq_some_iff.mp hrow
  rw [List.length_take] at hlen
  rw [List.getElem?_take_of_lt (by omega)] at hrow
  refine h p row hrow (Nat.le_trans hlow hp) ?_
  by_contra hover
  refine spared p (p + size) hp (by omega) (by omega) (by omega) ?_
  rw [Nat.add_mod_right]

/-- Rows are taken back to `kept`, in the turn in which they began at row `before`: the slots
of the older rows are put back, and those dropped spared the slots of the newer ones. -/
theorem Recent.take_restore {before kept : Nat}
    (hsaved : Recent size saved low (rows.take before)) (hlow : low ≤ low')
    (hturn : low' % size = 0) (hbefore : low' ≤ before) (hkept : before ≤ kept)
    (hlast : kept < low' + size)
    (spared : ∀ p q, before ≤ p → p < kept → kept ≤ q → q < rows.length → p % size ≠ q % size) :
    Recent size (restore (before % size) saved ring) low' (rows.take kept) := by
  have hslot : ∀ p, low' ≤ p → p < low' + size → p % size = p - low' := by
    intro p hp hlt
    obtain ⟨d, rfl⟩ := Nat.exists_eq_add_of_le hp
    rw [Nat.add_mod, hturn, Nat.zero_add, Nat.mod_mod, Nat.mod_eq_of_lt (by omega)]
    omega
  intro p row hrow hp _
  obtain ⟨hlen, -⟩ := List.getElem?_eq_some_iff.mp hrow
  rw [List.length_take] at hlen
  rw [List.getElem?_take_of_lt (by omega)] at hrow
  unfold restore
  rw [hslot p hp (by omega), hslot before hbefore (by omega)]
  by_cases hold : p < before
  · rw [if_pos (by omega), ← hslot p hp (by omega)]
    refine hsaved p row ?_ (by omega) ?_
    · rw [getElem?_take_of_lt hold]
      exact hrow
    · rw [length_take]
      omega
  · rw [if_neg (by omega), ← hslot p hp (by omega)]
    refine h p row hrow (by omega) ?_
    by_contra hover
    refine spared p (p + size) (by omega) (by omega) (by omega) (by omega) ?_
    rw [Nat.add_mod_right]

end

end Eider.Lib.Ring
