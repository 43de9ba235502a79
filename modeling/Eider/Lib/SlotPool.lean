import Mathlib.Data.List.Perm.Subperm
import Mathlib.Data.List.Range
import Mathlib.Data.List.Basic

/-!
# Slot pools

A pool of `n` slots hands slots out from a free list and takes them back. Its
invariant is `Partition n free held`: the free and the held slots together are
the slots below `n`, each once. `Marks used held` says that a bit per slot marks
the held ones.
-/
namespace Eider.Lib.SlotPool
open List

/-- Every slot below `n` is free or held, and is so once. -/
def Partition (n : Nat) (free held : List Nat) : Prop := (free ++ held).Perm (List.range n)

/-- The bits that are set are those of the held slots. -/
def Marks (used : List Bool) (held : List Nat) : Prop :=
  ∀ slot, used[slot]? = some true ↔ slot ∈ held

namespace Partition
variable {n slot : Nat} {free held released : List Nat}

theorem initial (h : free.Perm (List.range n)) : Partition n free [] := by
  rw [Partition, append_nil]
  exact h

section
variable (h : Partition n free held)
include h

theorem nodup : (free ++ held).Nodup :=
  h.nodup_iff.mpr nodup_range

theorem free_nodup : free.Nodup :=
  (nodup_append.mp h.nodup).1

theorem held_nodup : held.Nodup :=
  (nodup_append.mp h.nodup).2.1

theorem lt_iff : slot < n ↔ slot ∈ free ∨ slot ∈ held := by
  rw [← mem_append, h.mem_iff, mem_range]

theorem mem_free_iff : slot ∈ free ↔ slot < n ∧ slot ∉ held := by
  have hdisjoint := (nodup_append.mp h.nodup).2.2
  rw [h.lt_iff]
  constructor
  · intro hfree
    exact ⟨.inl hfree, fun hheld => hdisjoint slot hfree slot hheld rfl⟩
  · rintro ⟨hfree | hheld, hnot⟩
    · exact hfree
    · exact absurd hheld hnot

omit h in
theorem take (h : Partition n (free ++ [slot]) held) : Partition n free (slot :: held) := by
  rw [Partition, append_cons]
  exact h

theorem give (hslot : slot ∈ held) : Partition n (free ++ [slot]) (held.erase slot) := by
  refine List.Perm.trans ?_ h
  rw [append_assoc, singleton_append]
  exact (perm_cons_erase hslot).symm.append_left free

end

end Partition

namespace Marks
variable {n slot : Nat} {used : List Bool} {held : List Nat}

theorem initial : Marks (List.replicate n false) [] := by
  intro slot
  simp [getElem?_replicate]

theorem take (h : Marks used held) (hslot : slot < used.length) :
    Marks (used.set slot true) (slot :: held) := by
  intro other
  rw [getElem?_set, mem_cons, ← h other]
  by_cases heq : slot = other
  · simp [heq, heq ▸ hslot]
  · simp [heq, Ne.symm heq]

theorem give (h : Marks used held) (hnodup : held.Nodup) :
    Marks (used.set slot false) (held.erase slot) := by
  intro other
  rw [getElem?_set, hnodup.mem_erase_iff, ← h other]
  by_cases heq : slot = other
  · subst heq
    by_cases hlt : slot < used.length <;> simp [hlt]
  · simp [heq, Ne.symm heq]

end Marks

end Eider.Lib.SlotPool
