import Eider.Lib.Chunks

/-!
# Ranges of a buffer

`slice bytes offset n` are `n` bytes from an offset on, and `patch bytes offset new` writes
over the bytes there. Patches that do not overlap are all read back.
-/
namespace Eider.Lib.Patch
open List

variable {α : Type}

/-- Up to `n` elements from an offset on. -/
def slice (bytes : List α) (offset n : Nat) : List α := (bytes.drop offset).take n

/-- The elements from an offset on are overwritten. -/
def patch (bytes : List α) (offset : Nat) (new : List α) : List α :=
  bytes.take offset ++ new ++ bytes.drop (offset + new.length)

section
variable {bytes new : List α} {offset o n : Nat}

theorem length_slice (h : o + n ≤ bytes.length) : (slice bytes o n).length = n := by
  rw [slice, length_take, length_drop]
  omega

theorem slice_self (bytes : List α) : slice bytes 0 bytes.length = bytes := by
  simp [slice]

theorem slice_append_left (h : o + n ≤ bytes.length) :
    slice (bytes ++ new) o n = slice bytes o n := by
  rw [slice, slice, drop_append_of_le_length (by omega), take_append_of_le_length]
  rw [length_drop]
  omega

theorem slice_append_right (h : bytes.length ≤ o) :
    slice (bytes ++ new) o n = slice new (o - bytes.length) n := by
  rw [slice, slice, drop_append, drop_eq_nil_of_le h, nil_append]

theorem slice_middle {middle : List α} (before after : List α)
    (h : bytes = before ++ (middle ++ after)) (ho : before.length = o) (hn : middle.length = n) :
    slice bytes o n = middle := by
  subst h ho hn
  rw [slice_append_right (Nat.le_refl _), Nat.sub_self, slice_append_left (by omega), slice_self]

theorem slice_slice {m k : Nat} (h : m + k ≤ n) :
    slice (slice bytes o n) m k = slice bytes (o + m) k := by
  rw [slice, slice, slice, drop_take, take_take, drop_drop, Nat.min_eq_left (by omega)]

theorem slice_add (bytes : List α) (o m k : Nat) :
    slice bytes o (m + k) = slice bytes o m ++ slice bytes (o + m) k := by
  rw [slice, slice, slice, take_add, drop_drop]

section
variable {g : Nat → List α} {k : Nat}

theorem slice_flatMap_range {n i : Nat} (h : ∀ j < n, (g j).length = k) (hi : i < n) :
    slice ((List.range n).flatMap g) (i * k) k = g i := by
  induction n with
  | zero => cases hi
  | succ n ih =>
    have hfirst : ∀ j < n, (g j).length = k := fun j hj => h j (Nat.lt_succ_of_lt hj)
    have hlength := length_flatMap_range hfirst
    rw [range_succ, flatMap_append, flatMap_singleton]
    rcases Nat.lt_succ_iff_lt_or_eq.mp hi with hlt | rfl
    · have hinside : i * k + k ≤ n * k := by
        rw [← Nat.succ_mul]
        exact Nat.mul_le_mul_right k hlt
      rw [slice_append_left (by omega)]
      exact ih hfirst hlt
    · have hlast := h i (Nat.lt_succ_self i)
      rw [slice_append_right (Nat.le_of_eq hlength), hlength, Nat.sub_self]
      conv_lhs => rw [← hlast]
      exact slice_self _

end

/-! ## Patches -/

theorem length_patch (h : offset + new.length ≤ bytes.length) :
    (patch bytes offset new).length = bytes.length := by
  rw [patch, length_append, length_append, length_take, length_drop]
  omega

theorem slice_patch (h : offset + new.length ≤ bytes.length) :
    slice (patch bytes offset new) offset new.length = new := by
  have hlen : (bytes.take offset).length = offset := length_take_of_le (by omega)
  rw [patch, append_assoc, slice_append_right (Nat.le_of_eq hlen), hlen, Nat.sub_self,
    slice_append_left (by omega), slice_self]

theorem slice_patch_before (hend : o + n ≤ offset) (h : offset + new.length ≤ bytes.length) :
    slice (patch bytes offset new) o n = slice bytes o n := by
  have hlen : (bytes.take offset).length = offset := length_take_of_le (by omega)
  rw [patch, append_assoc, slice_append_left (by omega)]
  conv_rhs => rw [← take_append_drop offset bytes]
  rw [slice_append_left (by omega)]

theorem slice_patch_after (hstart : offset + new.length ≤ o)
    (h : offset + new.length ≤ bytes.length) :
    slice (patch bytes offset new) o n = slice bytes o n := by
  have hlen : (bytes.take offset ++ new).length = offset + new.length := by
    rw [length_append, length_take_of_le (by omega)]
  rw [patch, slice_append_right (by omega), hlen, slice, slice, drop_drop]
  congr 2
  omega

/-! ## Lists of patches -/

/-- The patches are written one after another. -/
def patches (bytes : List α) (entries : List (Nat × List α)) : List α :=
  entries.foldl (fun bytes entry => patch bytes entry.1 entry.2) bytes

/-- The first patch ends ahead of the second one. -/
def Ahead (first second : Nat × List α) : Prop := first.1 + first.2.length ≤ second.1

variable {entries : List (Nat × List α)}

theorem patches_cons (bytes : List α) (entry : Nat × List α) (entries : List (Nat × List α)) :
    patches bytes (entry :: entries) = patches (patch bytes entry.1 entry.2) entries :=
  foldl_cons ..

theorem patches_append (bytes : List α) (entries more : List (Nat × List α)) :
    patches bytes (entries ++ more) = patches (patches bytes entries) more :=
  foldl_append

theorem length_patches (h : ∀ entry ∈ entries, entry.1 + entry.2.length ≤ bytes.length) :
    (patches bytes entries).length = bytes.length := by
  induction entries generalizing bytes with
  | nil => rfl
  | cons entry rest ih =>
    have hentry := length_patch (h entry mem_cons_self)
    rw [patches, foldl_cons, ← patches, ih, hentry]
    intro other hother
    rw [hentry]
    exact h other (mem_cons_of_mem _ hother)

theorem slice_patches_apart
    (happart : ∀ entry ∈ entries, o + n ≤ entry.1 ∨ entry.1 + entry.2.length ≤ o)
    (h : ∀ entry ∈ entries, entry.1 + entry.2.length ≤ bytes.length) :
    slice (patches bytes entries) o n = slice bytes o n := by
  induction entries generalizing bytes with
  | nil => rfl
  | cons entry rest ih =>
    have hentry := h entry mem_cons_self
    rw [patches, foldl_cons, ← patches, ih]
    · rcases happart entry mem_cons_self with hend | hstart
      · exact slice_patch_before hend hentry
      · exact slice_patch_after hstart hentry
    · intro other hother
      exact happart other (mem_cons_of_mem _ hother)
    · intro other hother
      rw [length_patch hentry]
      exact h other (mem_cons_of_mem _ hother)

theorem slice_patches (hordered : entries.Pairwise Ahead)
    (h : ∀ entry ∈ entries, entry.1 + entry.2.length ≤ bytes.length)
    {entry : Nat × List α} (hentry : entry ∈ entries) :
    slice (patches bytes entries) entry.1 entry.2.length = entry.2 := by
  induction entries generalizing bytes with
  | nil => cases hentry
  | cons first rest ih =>
    obtain ⟨hahead, hrest⟩ := pairwise_cons.mp hordered
    have hfirst := h first mem_cons_self
    have hinside : ∀ other ∈ rest, other.1 + other.2.length ≤ (patch bytes first.1 first.2).length := by
      intro other hother
      rw [length_patch hfirst]
      exact h other (mem_cons_of_mem _ hother)
    rw [patches, foldl_cons, ← patches]
    rcases mem_cons.mp hentry with rfl | hmem
    · rw [slice_patches_apart (fun other hother => .inl (hahead other hother)) hinside]
      exact slice_patch hfirst
    · exact ih hrest hinside hmem

end

end Eider.Lib.Patch
