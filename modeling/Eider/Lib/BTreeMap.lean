import Mathlib.Algebra.GroupWithZero.Nat
import Mathlib.Data.List.Forall2
import Mathlib.Data.List.Nodup
import Mathlib.Order.Lattice
import Mathlib.Data.List.Basic

/-!
# Ordered maps

Rust's `BTreeMap` as its list of entries in strictly increasing key order. The
order is a field of the structure, so a map with a repeated key cannot be
built, and `get`, `insert` and `erase` are characterized by `get` alone.
-/
namespace Eider.Lib
open List Prod

variable {κ β : Type*} [LinearOrder κ]

/-- Entries in strictly increasing key order. -/
structure BTreeMap (κ β : Type*) [LinearOrder κ] where
  entries : List (κ × β)
  sorted : (entries.map fst).Pairwise (· < ·)

namespace BTreeMap

def getEntries (k : κ) : List (κ × β) → Option β
  | [] => none
  | (k', v) :: rest => if k' = k then some v else getEntries k rest

def insertEntries (k : κ) (v : β) : List (κ × β) → List (κ × β)
  | [] => [(k, v)]
  | (k', v') :: rest =>
    if k < k' then (k, v) :: (k', v') :: rest
    else if k' = k then (k, v) :: rest
    else (k', v') :: insertEntries k v rest

variable {k : κ} {v : β} {l : List (κ × β)}

theorem mem_keys_insertEntries {x : κ} :
    x ∈ (insertEntries k v l).map fst ↔ x = k ∨ x ∈ l.map fst := by
  induction l with
  | nil => simp [insertEntries]
  | cons p rest ih =>
    rw [insertEntries]
    split
    · simp
    · split
      · rename_i h
        subst h
        simp
      · simp only [map_cons, mem_cons, ih]
        tauto

theorem sorted_insertEntries (h : (l.map fst).Pairwise (· < ·)) :
    ((insertEntries k v l).map fst).Pairwise (· < ·) := by
  induction l with
  | nil => simp [insertEntries]
  | cons p rest ih =>
    rw [map_cons, pairwise_cons] at h
    rw [insertEntries]
    split
    · rename_i hlt
      rw [map_cons, map_cons, pairwise_cons, pairwise_cons]
      refine ⟨fun x hx => ?_, h⟩
      rcases mem_cons.mp hx with rfl | hx
      · exact hlt
      · exact hlt.trans (h.1 x hx)
    · split
      · rename_i heq
        subst heq
        rw [map_cons, pairwise_cons]
        exact h
      · rename_i hge hne
        rw [map_cons, pairwise_cons]
        refine ⟨fun x hx => ?_, ih h.2⟩
        rcases mem_keys_insertEntries.mp hx with rfl | hx
        · exact lt_of_le_of_ne (not_lt.mp hge) hne
        · exact h.1 x hx

/-- `BTreeMap::new`. -/
def empty : BTreeMap κ β := ⟨[], List.Pairwise.nil⟩

variable (m : BTreeMap κ β)

/-- `BTreeMap::get`. -/
def get (k : κ) : Option β := getEntries k m.entries

/-- `BTreeMap::contains_key`. -/
def contains (k : κ) : Bool := (m.get k).isSome

/-- `BTreeMap::insert`, which replaces the value of a present key. -/
def insert (k : κ) (v : β) : BTreeMap κ β :=
  ⟨insertEntries k v m.entries, sorted_insertEntries m.sorted⟩

/-- `BTreeMap::remove`. -/
def erase (k : κ) : BTreeMap κ β :=
  ⟨m.entries.filter fun e => e.1 ≠ k,
    m.sorted.sublist (List.filter_sublist.map fst)⟩

def keys : List κ := m.entries.map fst

def values : List β := m.entries.map snd

def size : Nat := m.entries.length

/-- `collect`, where a later entry of a key replaces an earlier one. -/
def ofList (l : List (κ × β)) : BTreeMap κ β :=
  l.foldl (fun m e => m.insert e.1 e.2) empty

theorem getEntries_insertEntries (k x : κ) (v : β) (l : List (κ × β)) :
    getEntries x (insertEntries k v l) = if k = x then some v else getEntries x l := by
  induction l with
  | nil => simp [insertEntries, getEntries]
  | cons p rest ih =>
    obtain ⟨k', v'⟩ := p
    rw [insertEntries]
    split
    · rw [getEntries]
    · split
      · rename_i heq
        subst heq
        simp only [getEntries]
        split <;> rfl
      · rename_i hne
        simp only [getEntries, ih]
        by_cases h1 : k' = x
        · subst h1
          simp [Ne.symm hne]
        · simp [h1]

theorem getEntries_filter_ne (k x : κ) (l : List (κ × β)) :
    getEntries x (l.filter fun e => e.1 ≠ k) = if k = x then none else getEntries x l := by
  induction l with
  | nil => simp [getEntries]
  | cons p rest ih =>
    obtain ⟨k', v'⟩ := p
    rw [filter_cons]
    by_cases h1 : k' = k
    · simp only [ne_eq, getEntries]
      split <;> simp_all
    · simp only [ne_eq, h1, not_false_eq_true, decide_true, if_true, getEntries, ih]
      by_cases h2 : k' = x
      · subst h2
        simp [Ne.symm h1]
      · simp [h2]

@[simp]
theorem get_empty (k : κ) : (empty : BTreeMap κ β).get k = none := rfl

theorem get_insert (k x : κ) (v : β) : (m.insert k v).get x = if k = x then some v else m.get x :=
  getEntries_insertEntries k x v m.entries

@[simp]
theorem get_insert_self (k : κ) (v : β) : (m.insert k v).get k = some v := by
  simp [get_insert]

theorem get_insert_of_ne {x : κ} (v : β) (h : x ≠ k) : (m.insert k v).get x = m.get x := by
  rw [get_insert, if_neg (Ne.symm h)]

theorem get_erase (k x : κ) : (m.erase k).get x = if k = x then none else m.get x :=
  getEntries_filter_ne k x m.entries

@[simp]
theorem get_erase_self (k : κ) : (m.erase k).get k = none := by
  simp [get_erase]

theorem get_erase_of_ne {x : κ} (h : x ≠ k) : (m.erase k).get x = m.get x := by
  rw [get_erase, if_neg (Ne.symm h)]

theorem getEntries_isSome_iff : (getEntries k l).isSome ↔ k ∈ l.map fst := by
  induction l with
  | nil => simp [getEntries]
  | cons p rest ih =>
    rw [getEntries]
    split
    · rename_i h
      simp [h]
    · rename_i h
      simp [ih, Ne.symm h]

variable {m : BTreeMap κ β} {n : BTreeMap κ β} {x : κ}

theorem mem_keys_iff : k ∈ m.keys ↔ (m.get k).isSome :=
  getEntries_isSome_iff.symm

theorem keys_nodup (m : BTreeMap κ β) : m.keys.Nodup :=
  m.sorted.imp fun h => ne_of_lt h

theorem mem_entries_iff : (k, v) ∈ m.entries ↔ m.get k = some v := by
  have aux : ∀ l : List (κ × β), (l.map fst).Nodup →
      ((k, v) ∈ l ↔ getEntries k l = some v) := by
    intro l
    induction l with
    | nil => simp [getEntries]
    | cons p rest ih =>
      intro hn
      rw [map_cons, nodup_cons] at hn
      rw [getEntries, mem_cons]
      split
      · rename_i h
        subst h
        have : (p.1, v) ∉ rest := fun hm => hn.1 (mem_map.mpr ⟨(p.1, v), hm, rfl⟩)
        simp [this, Prod.ext_iff, eq_comm]
      · rename_i h
        rw [← ih hn.2]
        simp [Prod.ext_iff, Ne.symm h]
  exact aux m.entries m.keys_nodup

theorem contains_insert : (m.insert k v).contains x = true ↔ x = k ∨ m.contains x = true := by
  rw [contains, contains, get_insert]
  by_cases h : k = x
  · simp [h]
  · simp [h, Ne.symm h]

@[simp]
theorem keys_empty : (empty : BTreeMap κ β).keys = [] := rfl

theorem mem_keys_insert : x ∈ (m.insert k v).keys ↔ x = k ∨ x ∈ m.keys :=
  mem_keys_insertEntries

theorem keys_erase (k : κ) : (m.erase k).keys = m.keys.filter fun x => x ≠ k := by
  simp only [keys, erase, filter_map]
  rfl

@[ext]
theorem ext_entries (h : m.entries = n.entries) : m = n := by
  cases m
  cases n
  simp_all

theorem entries_nodup (m : BTreeMap κ β) : m.entries.Nodup :=
  List.Nodup.of_map _ m.keys_nodup

theorem ext_get (h : ∀ k, m.get k = n.get k) : m = n := by
  have hsorted : ∀ m : BTreeMap κ β, m.entries.Pairwise fun a b => a.1 < b.1 := fun m =>
    pairwise_map.mp m.sorted
  have hperm : m.entries.Perm n.entries := by
    rw [perm_ext_iff_of_nodup m.entries_nodup n.entries_nodup]
    intro e
    rw [mem_entries_iff, mem_entries_iff, h]
  apply ext_entries
  apply hperm.eq_of_pairwise _ (hsorted m) (hsorted n)
  intro a b _ _ hab hba
  exact absurd hab (lt_asymm hba)

theorem keys_congr {γ : Type*} {n : BTreeMap κ γ}
    (h : ∀ k, (m.get k).isSome = (n.get k).isSome) : m.keys = n.keys := by
  have hperm : m.keys.Perm n.keys := by
    rw [perm_ext_iff_of_nodup m.keys_nodup n.keys_nodup]
    intro k
    rw [mem_keys_iff, mem_keys_iff, h]
  apply hperm.eq_of_pairwise _ m.sorted n.sorted
  intro a b _ _ hab hba
  exact absurd hab (lt_asymm hba)

theorem forall₂_values {γ : Type*} {R : β → γ → Prop} {n : BTreeMap κ γ} (hkeys : m.keys = n.keys)
    (hR : ∀ k v w, m.get k = some v → n.get k = some w → R v w) :
    List.Forall₂ R m.values n.values := by
  have hentries : List.Forall₂ (fun a b => a.1 = b.1) m.entries n.entries := by
    have hsame : List.Forall₂ (fun a b => a = b) m.keys n.keys := by
      rw [hkeys, forall₂_same]
      exact fun _ _ => rfl
    simpa only [keys, forall₂_map_left_iff, forall₂_map_right_iff] using hsame
  rw [values, values, forall₂_map_left_iff, forall₂_map_right_iff]
  rw [forall₂_iff_zip] at hentries ⊢
  refine ⟨hentries.1, fun {a b} hab => ?_⟩
  obtain ⟨ha, hb⟩ := of_mem_zip hab
  have hkey := hentries.2 hab
  rw [mem_entries_iff] at ha hb
  exact hR a.1 a.2 b.2 ha (hkey ▸ hb)

/-- Maps that agree up to a reading of their values list these readings alike. -/
theorem values_map_congr {γ δ : Type*} {n : BTreeMap κ γ} {f : β → δ} {g : γ → δ}
    (h : ∀ k, (m.get k).map f = (n.get k).map g) : m.values.map f = n.values.map g := by
  have hkeys : m.keys = n.keys := by
    apply keys_congr
    intro k
    have hsome := congrArg Option.isSome (h k)
    rwa [Option.isSome_map, Option.isSome_map] at hsome
  have hvalues : List.Forall₂ (fun v w => f v = g w) m.values n.values := by
    apply forall₂_values hkeys
    intro k v w hv hw
    have hk := h k
    rw [hv, hw] at hk
    exact Option.some.inj hk
  generalize m.values = vs at hvalues ⊢
  generalize n.values = ws at hvalues ⊢
  induction hvalues with
  | nil => rfl
  | cons hhead _ ih => rw [map_cons, map_cons, hhead, ih]

theorem values_erase_perm (h : m.get k = some v) : m.values.Perm (v :: (m.erase k).values) := by
  have hnew : (k, v) ∉ (m.erase k).entries := by simp [mem_entries_iff]
  have hentries : m.entries.Perm ((k, v) :: (m.erase k).entries) := by
    rw [perm_ext_iff_of_nodup m.entries_nodup (nodup_cons.mpr ⟨hnew, (m.erase k).entries_nodup⟩)]
    intro e
    rw [mem_cons, mem_entries_iff, mem_entries_iff, get_erase]
    by_cases hkey : k = e.1
    · subst hkey
      simp [h, Prod.ext_iff, eq_comm]
    · simp [hkey, Prod.ext_iff, Ne.symm hkey]
  exact hentries.map Prod.snd

theorem values_insert_perm (h : m.get k = none) : (m.insert k v).values.Perm (v :: m.values) := by
  have herase : (m.insert k v).erase k = m := by
    apply ext_get
    intro x
    rw [get_erase, get_insert]
    by_cases hkey : k = x
    · subst hkey
      simp [h]
    · simp [hkey]
  have hperm := values_erase_perm (m.get_insert_self k v)
  rwa [herase] at hperm

/-- Replacing an entry is taking it out and putting the new one in. -/
theorem insert_erase (k : κ) (v : β) : (m.erase k).insert k v = m.insert k v := by
  apply ext_get
  intro x
  rw [get_insert, get_insert, get_erase]
  split
  · rfl
  · rfl

theorem mem_values_iff : v ∈ m.values ↔ ∃ k, m.get k = some v := by
  simp [values, ← mem_entries_iff]

instance [DecidableEq β] : DecidableEq (BTreeMap κ β) := fun m n =>
  decidable_of_iff (m.entries = n.entries) ⟨ext_entries, congrArg entries⟩

end BTreeMap

/-- `BTreeSet`: an ordered map to the unit. -/
abbrev BTreeSet (κ : Type*) [LinearOrder κ] := BTreeMap κ Unit

/-- `collect` into a set. -/
def BTreeSet.ofKeys (l : List κ) : BTreeSet κ := BTreeMap.ofList (l.map fun k => (k, ()))

theorem BTreeSet.contains_ofKeys {l : List κ} {x : κ} :
    BTreeMap.contains (BTreeSet.ofKeys l) x = true ↔ x ∈ l := by
  have haux : ∀ (l : List κ) (m : BTreeSet κ),
      BTreeMap.contains ((l.map fun k => (k, ())).foldl (fun m e => m.insert e.1 e.2) m) x = true ↔
        x ∈ l ∨ BTreeMap.contains m x = true := by
    intro l
    induction l with
    | nil => intro m; simp
    | cons k rest ih =>
      intro m
      rw [map_cons, foldl_cons, ih, BTreeMap.contains_insert, mem_cons]
      exact or_left_comm.trans or_assoc.symm
  rw [BTreeSet.ofKeys, BTreeMap.ofList, haux]
  simp [BTreeMap.contains]

end Eider.Lib
