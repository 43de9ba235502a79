import Eider.Lib.BTreeMap
import Mathlib.Data.List.Perm.Basic

/-!
# Custody

A system keeps items in a map and holds some in hand. Every item claims resources. The
books balance when the claims of all items, kept and held, are a permutation of the
resources in stock: no resource is without an owner, and none has two.
-/
namespace Eider.Lib
open List BTreeMap

variable {κ β ι : Type} [LinearOrder κ]

/-- The claims of the items in the map and in hand are the stock. -/
def Balanced (claim : β → List ι) (kept : BTreeMap κ β) (hand : List β) (stock : List ι) : Prop :=
  ((kept.values ++ hand).flatMap claim).Perm stock

namespace Balanced
variable {claim : β → List ι} {kept : BTreeMap κ β} {hand hand' : List β} {stock stock' : List ι}
variable {k : κ} {v w : β} {x : ι}

section
variable (h : Balanced claim kept hand stock)
include h

/-- The items and the stock may be listed in any order. -/
theorem perm (hhand : hand'.Perm hand)
    (hstock : stock.Perm stock') : Balanced claim kept hand' stock' :=
  ((hhand.append_left _).flatMap_right claim).trans (h.trans hstock)

omit h in
theorem empty : Balanced claim (BTreeMap.empty : BTreeMap κ β) [] [] := List.Perm.nil

/-- An item leaves the map for the hands of the system. -/
theorem take (hget : kept.get k = some v) : Balanced claim (kept.erase k) (v :: hand) stock := by
  have hvalues : ((kept.erase k).values ++ v :: hand).Perm (kept.values ++ hand) := by
    have hperm := (values_erase_perm hget).symm.append_right hand
    exact perm_middle.trans hperm
  exact (hvalues.flatMap_right claim).trans h

omit h in
theorem put (h : Balanced claim kept (v :: hand) stock) (hget : kept.get k = none) :
    Balanced claim (kept.insert k v) hand stock := by
  have hvalues : ((kept.insert k v).values ++ hand).Perm (kept.values ++ v :: hand) := by
    have hperm := (values_insert_perm (v := v) hget).append_right hand
    exact hperm.trans perm_middle.symm
  exact (hvalues.flatMap_right claim).trans h

omit h in
theorem cons_iff : Balanced claim kept (v :: hand) stock ↔
    (claim v ++ (kept.values ++ hand).flatMap claim).Perm stock := by
  have hvalues : (kept.values ++ v :: hand).Perm (v :: (kept.values ++ hand)) := perm_middle
  have hclaims := hvalues.flatMap_right claim
  exact ⟨hclaims.symm.trans, hclaims.trans⟩

omit h in
theorem change (h : Balanced claim kept (v :: hand) (claim v ++ stock)) :
    Balanced claim kept (w :: hand) (claim w ++ stock) := by
  rw [cons_iff] at h ⊢
  exact (perm_append_left_iff _).mpr ((perm_append_left_iff _).mp h)

omit h in
/-- An item in hand changes without changing its claims. -/
theorem same (h : Balanced claim kept (v :: hand) stock) (hclaim : claim w = claim v) :
    Balanced claim kept (w :: hand) stock := by
  rw [cons_iff] at h ⊢
  rwa [hclaim]

omit h in
theorem drop (h : Balanced claim kept (v :: hand) (claim v ++ stock)) :
    Balanced claim kept hand stock :=
  (perm_append_left_iff _).mp (cons_iff.mp h)

theorem add : Balanced claim kept (v :: hand) (claim v ++ stock) :=
  cons_iff.mpr ((perm_append_left_iff _).mpr h)

theorem mem (hget : kept.get k = some v) (hx : x ∈ claim v) : x ∈ stock :=
  h.mem_iff.mp (mem_flatMap.mpr ⟨v, mem_append_left _ (mem_values_iff.mpr ⟨k, hget⟩), hx⟩)

theorem mem_hand (hv : v ∈ hand) (hx : x ∈ claim v) : x ∈ stock :=
  h.mem_iff.mp (mem_flatMap.mpr ⟨v, mem_append_right _ hv, hx⟩)

/-- The items of the map are replaced in place by items with the same claims. -/
theorem remap {kept' : BTreeMap κ β}
    (hsame : ∀ k, (kept'.get k).map claim = (kept.get k).map claim) :
    Balanced claim kept' hand stock := by
  have hvalues := values_map_congr hsame
  unfold Balanced at h ⊢
  rw [flatMap_append, flatMap_def] at h ⊢
  rwa [hvalues]

end

/-- A resource in stock has exactly one owner in the map. -/
theorem existsUnique (h : Balanced claim kept [] stock) (hnodup : stock.Nodup) (hx : x ∈ stock) :
    ∃! k, ∃ v, kept.get k = some v ∧ x ∈ claim v := by
  have hmem : x ∈ (kept.values ++ []).flatMap claim := h.mem_iff.mpr hx
  obtain ⟨v, hv, hclaim⟩ := mem_flatMap.mp hmem
  rw [append_nil] at hv
  obtain ⟨k, hget⟩ := mem_values_iff.mp hv
  refine ⟨k, ⟨v, hget, hclaim⟩, ?_⟩
  rintro j ⟨w, hw, hclaim'⟩
  by_contra hne
  -- Two owners would list the resource twice.
  have hfirst : (kept.erase k).get j = some w := by
    rwa [get_erase_of_ne _ hne]
  have htaken := cons_iff.mp (h.take hget)
  have hnodup' := htaken.nodup_iff.mpr hnodup
  have hrest : x ∈ ((kept.erase k).values ++ []).flatMap claim :=
    mem_flatMap.mpr
      ⟨w, mem_append_left _ (mem_values_iff.mpr ⟨j, hfirst⟩), hclaim'⟩
  exact (nodup_append.mp hnodup').2.2 x hclaim x hrest rfl

end Balanced

theorem perm_cons_filter_ne [DecidableEq ι] {l : List ι} {x : ι} (hnodup : l.Nodup) (hx : x ∈ l) :
    l.Perm (x :: l.filter fun y => y ≠ x) := by
  have herase : l.filter (fun y => y ≠ x) = l.erase x := by
    rw [hnodup.erase_eq_filter]
    congr 1
    funext y
    by_cases h : y = x <;> simp [h]
  rw [herase]
  exact perm_cons_erase hx

namespace BTreeMap

theorem insert_insert (m : BTreeMap κ β) (k : κ) (v w : β) :
    (m.insert k v).insert k w = m.insert k w := by
  apply ext_get
  intro x
  rw [get_insert, get_insert, get_insert]
  split
  · rfl
  · rfl

variable {m : BTreeMap κ β}

theorem keys_insert_perm {k : κ} {v : β} (h : m.get k = none) :
    (m.insert k v).keys.Perm (k :: m.keys) := by
  have hnot : k ∉ m.keys := fun hmem => by
    rw [mem_keys_iff, h] at hmem
    cases hmem
  refine (perm_ext_iff_of_nodup (keys_nodup _) (nodup_cons.mpr ⟨hnot, keys_nodup _⟩)).mpr ?_
  intro x
  rw [mem_keys_insert, mem_cons]

theorem size_insert {k : κ} {v : β} (h : m.get k = none) : (m.insert k v).size = m.size + 1 := by
  have hlength := (keys_insert_perm (v := v) h).length_eq
  simpa only [keys, size, length_map, length_cons] using hlength

theorem keys_insert_of_mem {k : κ} {v w : β} (h : m.get k = some w) :
    (m.insert k v).keys = m.keys := by
  have hperm : (m.insert k v).keys.Perm m.keys := by
    refine (perm_ext_iff_of_nodup (keys_nodup _) (keys_nodup _)).mpr ?_
    intro x
    rw [mem_keys_insert]
    constructor
    · rintro (rfl | hx)
      · rw [mem_keys_iff, h]
        rfl
      · exact hx
    · exact Or.inr
  exact hperm.eq_of_pairwise (fun a b _ _ hab hba => absurd hab hba.asymm) (m.insert k v).sorted m.sorted

theorem keys_erase_perm {k : κ} {v : β} (h : m.get k = some v) :
    m.keys.Perm (k :: (m.erase k).keys) := by
  have hmem : k ∈ m.keys := by
    rw [mem_keys_iff, h]
    rfl
  rw [keys_erase]
  exact perm_cons_filter_ne (keys_nodup m) hmem

end BTreeMap

end Eider.Lib
