import Eider.Lib.Custody
import Mathlib.Order.Nat

/-!
# Desks

A desk keeps items under their ids, a queue of ids and a pool of slots. An item owns at
most one slot, and an item without one waits in the queue. `Sound d hand popped` says so
of the items in the map and of those that the system holds in its hands; the places
`popped` have been taken off the queue and not been given back. `Good` is what the system
asks of every item.
-/
namespace Eider.Lib
open List BTreeMap

variable {R : Type}

structure Desk (R : Type) where
  items : BTreeMap Nat R
  queue : List Nat
  pool : List Nat
  nextId : Nat
  nextSlot : Nat

namespace Desk

/-- The items of the ids are taken out of the map. -/
def without (ids : List Nat) (m : BTreeMap Nat R) : BTreeMap Nat R := ids.foldl BTreeMap.erase m

section
variable (idOf : R → Nat) (slotOf : R → Option Nat) (Good : R → Prop)

/-- The items are put under their ids. -/
def putAll (items : List R) (m : BTreeMap Nat R) : BTreeMap Nat R :=
  items.foldl (fun m r => m.insert (idOf r) r) m

/-- The place in the queue that an item claims. -/
def place (r : R) : List Nat := if (slotOf r).isSome then [] else [idOf r]

/-- The slot that an item claims. -/
def owns (r : R) : List Nat := (slotOf r).toList

structure Sound (d : Desk R) (hand : List R) (popped : List Nat) : Prop where
  keyed : ∀ id r, d.items.get id = some r → idOf r = id
  ids : ((d.items.values ++ hand).map idOf).Nodup
  known : ∀ r ∈ d.items.values ++ hand, idOf r < d.nextId
  queued : Balanced (place idOf slotOf) d.items hand (d.queue ++ popped)
  owned : Balanced (owns slotOf) d.items hand d.pool
  distinct : d.pool.Nodup
  allocated : ∀ slot ∈ d.pool, slot < d.nextSlot
  good : ∀ r ∈ d.items.values ++ hand, Good r

end

theorem get_of_get_erase {m : BTreeMap Nat R} {k id : Nat} {r : R}
    (h : (m.erase k).get id = some r) : id ≠ k ∧ m.get id = some r := by
  rw [get_erase] at h
  split at h
  · cases h
  · rename_i hne
    exact ⟨Ne.symm hne, h⟩

theorem get_of_get_without {ids : List Nat} {m : BTreeMap Nat R} {id : Nat} {r : R}
    (h : (without ids m).get id = some r) : m.get id = some r := by
  induction ids generalizing m with
  | nil => exact h
  | cons key ids ih => exact (get_of_get_erase (ih h)).2

namespace Sound
variable {idOf : R → Nat} {slotOf : R → Option Nat} {Good : R → Prop}
variable {d : Desk R} {hand hand' : List R} {popped popped' : List Nat} {id : Nat} {r r' : R}

section
variable (h : Sound idOf slotOf Good d hand popped)
include h

theorem get_none (hr : r ∈ hand) : d.items.get (idOf r) = none := by
  cases hget : d.items.get (idOf r) with
  | none => rfl
  | some other =>
    have hids := h.ids
    rw [map_append, nodup_append] at hids
    have hmem : other ∈ d.items.values := mem_values_iff.mpr ⟨idOf r, hget⟩
    exact absurd (h.keyed (idOf r) other hget)
      (hids.2.2 _ (mem_map_of_mem hmem) _ (mem_map_of_mem hr))

theorem take (hget : d.items.get id = some r) :
    Sound idOf slotOf Good { d with items := d.items.erase id } (r :: hand) popped := by
  have hall : ((d.items.erase id).values ++ r :: hand).Perm (d.items.values ++ hand) :=
    perm_middle.trans ((values_erase_perm hget).symm.append_right hand)
  exact {
    h with
    keyed := fun other x hx => h.keyed other x (get_of_get_erase hx).2
    ids := (hall.map _).nodup_iff.mpr h.ids
    known := fun x hx => h.known x (hall.mem_iff.mp hx)
    good := fun x hx => h.good x (hall.mem_iff.mp hx)
    queued := h.queued.take hget
    owned := h.owned.take hget
  }

omit h in
theorem put (h : Sound idOf slotOf Good d (r :: hand) popped) :
    Sound idOf slotOf Good { d with items := d.items.insert (idOf r) r } hand popped := by
  have hnone := h.get_none mem_cons_self
  have hall : ((d.items.insert (idOf r) r).values ++ hand).Perm (d.items.values ++ r :: hand) :=
    ((values_insert_perm (v := r) hnone).append_right hand).trans perm_middle.symm
  exact {
    h with
    keyed := fun other x hx => by
      rw [get_insert] at hx
      split at hx
      · rename_i heq
        cases hx
        exact heq
      · exact h.keyed other x hx
    ids := (hall.map _).nodup_iff.mpr h.ids
    known := fun x hx => h.known x (hall.mem_iff.mp hx)
    good := fun x hx => h.good x (hall.mem_iff.mp hx)
    queued := h.queued.put hnone
    owned := h.owned.put hnone
  }

omit h in
theorem mem_cons_change {x : R} (hx : x ∈ d.items.values ++ r' :: hand) :
    x = r' ∨ x ∈ d.items.values ++ r :: hand := by
  simp only [mem_append, mem_cons] at hx ⊢
  tauto

omit h in
theorem map_cons_change (hid : idOf r' = idOf r) :
    (d.items.values ++ r' :: hand).map idOf = (d.items.values ++ r :: hand).map idOf := by
  rw [map_append, map_append, map_cons, map_cons, hid]

theorem pop {rest : List Nat} (hqueue : d.queue = id :: rest) :
    Sound idOf slotOf Good { d with queue := rest } hand (id :: popped) := by
  refine { h with queued := h.queued.perm (List.Perm.refl _) ?_ }
  rw [hqueue]
  exact perm_middle.symm

omit h in
/-- An item in hand without a slot gives up its place for a new slot. -/
theorem assign {pool : List Nat} (h : Sound idOf slotOf Good d (r :: hand) (idOf r :: popped))
    (hid : idOf r' = idOf r) (hnone : slotOf r = none) (hsome : slotOf r' = some d.nextSlot)
    (hgood : Good r → Good r') (hpool : pool.Perm (d.nextSlot :: d.pool)) :
    Sound idOf slotOf Good { d with pool := pool, nextSlot := d.nextSlot + 1 } (r' :: hand)
      popped := by
  have howned : Balanced (owns slotOf) d.items (r' :: hand) (owns slotOf r' ++ d.pool) := by
    apply Balanced.change (v := r)
    rw [owns, hnone]
    exact h.owned
  have hqueued : Balanced (place idOf slotOf) d.items (r' :: hand)
      (place idOf slotOf r' ++ (d.queue ++ popped)) := by
    apply Balanced.change (v := r)
    rw [place, hnone]
    exact h.queued.perm (List.Perm.refl _) perm_middle
  rw [owns, hsome] at howned
  rw [place, hsome] at hqueued
  exact { h with
    ids := map_cons_change hid ▸ h.ids
    known := fun x hx => by
      obtain rfl | hx := mem_cons_change hx
      · exact hid ▸ h.known r (mem_append_right _ mem_cons_self)
      · exact h.known x hx
    queued := hqueued
    owned := howned.perm (List.Perm.refl _) hpool.symm
    distinct := by
      rw [hpool.nodup_iff, nodup_cons]
      exact ⟨fun hold => Nat.lt_irrefl _ (h.allocated _ hold), h.distinct⟩
    allocated := fun x hx => by
      rw [hpool.mem_iff, mem_cons] at hx
      obtain rfl | hx := hx
      · exact Nat.lt_succ_self _
      · exact Nat.lt_succ_of_lt (h.allocated x hx)
    good := fun x hx => by
      obtain rfl | hx := mem_cons_change hx
      · exact hgood (h.good r (mem_append_right _ mem_cons_self))
      · exact h.good x hx }

omit h in
theorem drop {queue pool : List Nat} (h : Sound idOf slotOf Good d (r :: hand) popped)
    (hqueue : (d.queue ++ popped).Perm (place idOf slotOf r ++ (queue ++ popped)))
    (hpool : d.pool.Perm (owns slotOf r ++ pool)) :
    Sound idOf slotOf Good { d with queue := queue, pool := pool } hand popped := by
  have hsub : (d.items.values ++ hand).Sublist (d.items.values ++ r :: hand) :=
    (sublist_cons_self r hand).append_left _
  have hnodup := hpool.nodup_iff.mp h.distinct
  exact { h with
    ids := h.ids.sublist (hsub.map _)
    known := fun x hx => h.known x (hsub.subset hx)
    queued := (h.queued.perm (List.Perm.refl _) hqueue).drop
    owned := (h.owned.perm (List.Perm.refl _) hpool).drop
    distinct := (nodup_append.mp hnodup).2.1
    allocated := fun x hx => h.allocated x (hpool.mem_iff.mpr (mem_append_right _ hx))
    good := fun x hx => h.good x (hsub.subset hx) }

theorem skip : Sound idOf slotOf Good { d with nextId := d.nextId + 1 } hand popped :=
  { h with known := fun x hx => Nat.lt_succ_of_lt (h.known x hx) }

/-- A new item comes into the hand, with a place at the end of the queue. -/
theorem join (hid : idOf r = d.nextId) (hnone : slotOf r = none) (hgood : Good r) :
    Sound idOf slotOf Good { d with queue := d.queue ++ [d.nextId], nextId := d.nextId + 1 } (r :: hand)
      popped := by
  have hall : (d.items.values ++ r :: hand).Perm (r :: (d.items.values ++ hand)) := perm_middle
  have hplace : place idOf slotOf r = [d.nextId] := by simp [place, hnone, hid]
  have howns : owns slotOf r = [] := by simp [owns, hnone]
  have hqueued := h.queued.add (v := r)
  have howned := h.owned.add (v := r)
  rw [hplace] at hqueued
  rw [howns] at howned
  exact { h with
    ids := by
      rw [(hall.map _).nodup_iff, map_cons, nodup_cons]
      refine ⟨fun hmem => ?_, h.ids⟩
      obtain ⟨x, hx, heq⟩ := mem_map.mp hmem
      have hlt := h.known x hx
      omega
    known := fun x hx => by
      obtain rfl | hx := mem_cons.mp (hall.mem_iff.mp hx)
      · dsimp only
        omega
      · exact Nat.lt_succ_of_lt (h.known x hx)
    queued := by
      apply hqueued.perm (List.Perm.refl _)
      simp only [append_assoc, singleton_append]
      exact perm_middle.symm
    owned := howned
    good := fun x hx => by
      obtain rfl | hx := mem_cons.mp (hall.mem_iff.mp hx)
      · exact hgood
      · exact h.good x hx }

/-- The kept items are replaced in place, but not their ids and their slots. -/
theorem remap {items : BTreeMap Nat R}
    (hsame : ∀ id, (items.get id).map (fun r => (idOf r, slotOf r)) =
      (d.items.get id).map fun r => (idOf r, slotOf r)) (hgood : ∀ r ∈ items.values, Good r) :
    Sound idOf slotOf Good { d with items := items } hand popped := by
  have hread {β : Type} (f : Nat × Option Nat → β) (id : Nat) :
      (items.get id).map (fun r => f (idOf r, slotOf r)) =
        (d.items.get id).map fun r => f (idOf r, slotOf r) := by
    have hpair := congrArg (Option.map f) (hsame id)
    simpa only [Option.map_map, Function.comp_def] using hpair
  have hids : (items.values ++ hand).map idOf = (d.items.values ++ hand).map idOf := by
    rw [map_append, map_append, values_map_congr (hread Prod.fst)]
  exact { h with
    keyed := fun id r hr => by
      have hpair := hread Prod.fst id
      rw [hr] at hpair
      obtain ⟨r₀, hr₀, heq⟩ := Option.map_eq_some_iff.mp hpair.symm
      rw [← h.keyed id r₀ hr₀]
      exact heq.symm
    ids := hids ▸ h.ids
    known := fun r hr => by
      have hmem : idOf r ∈ (d.items.values ++ hand).map idOf := hids ▸ mem_map_of_mem hr
      obtain ⟨r₀, hr₀, heq⟩ := mem_map.mp hmem
      exact heq ▸ h.known r₀ hr₀
    queued := h.queued.remap (hread fun pair => if pair.2.isSome then [] else [pair.1])
    owned := h.owned.remap (hread fun pair => pair.2.toList)
    good := fun r hr => by
      obtain hr | hr := mem_append.mp hr
      · exact hgood r hr
      · exact h.good r (mem_append_right _ hr) }

/-! ## Batches -/

/-! ## What a sound desk says -/

omit h in
theorem existsUnique_owner (h : Sound idOf slotOf Good d [] popped) {slot : Nat}
    (hslot : slot ∈ d.pool) : ∃! id, ∃ r, d.items.get id = some r ∧ slotOf r = some slot := by
  obtain ⟨id, ⟨r, hget, howns⟩, hunique⟩ := h.owned.existsUnique h.distinct hslot
  refine ⟨id, ⟨r, hget, by simpa [owns] using howns⟩, ?_⟩
  rintro other ⟨x, hx, hslot⟩
  exact hunique other ⟨x, hx, by simp [owns, hslot]⟩

omit h in
theorem mem_queue (h : Sound idOf slotOf Good d [] []) (hget : d.items.get id = some r)
    (hnone : slotOf r = none) : id ∈ d.queue := by
  have hplace : id ∈ place idOf slotOf r := by
    rw [place, hnone]
    simp [h.keyed id r hget]
  simpa using h.queued.mem hget hplace

theorem mem_pool {slot : Nat} (hr : r ∈ hand) (hsome : slotOf r = some slot) : slot ∈ d.pool :=
  h.owned.mem_hand hr (by simp [owns, hsome])

omit h in
theorem of_mem_queue (h : Sound idOf slotOf Good d [] popped) (hmem : id ∈ d.queue ++ popped) :
    ∃ r, d.items.get id = some r ∧ slotOf r = none := by
  obtain ⟨r, hr, hplace⟩ := mem_flatMap.mp (h.queued.mem_iff.mpr hmem)
  rw [append_nil] at hr
  obtain ⟨key, hget⟩ := mem_values_iff.mp hr
  rw [place] at hplace
  split at hplace
  · cases hplace
  · rename_i hslot
    rw [mem_singleton.mp hplace, h.keyed key r hget]
    exact ⟨r, hget, Option.not_isSome_iff_eq_none.mp hslot⟩

theorem queue_nodup : (d.queue ++ popped).Nodup := by
  apply h.queued.nodup_iff.mp
  refine List.Nodup.sublist ?_ h.ids
  generalize d.items.values ++ hand = items
  induction items with
  | nil => exact List.Sublist.refl _
  | cons x xs ih =>
    rw [flatMap_cons, map_cons, place]
    split
    · exact ih.cons _
    · exact ih.cons_cons _

end

/-- The item whose place was taken off the queue gets a new slot where it is kept. -/
theorem assignKept {pool : List Nat} (h : Sound idOf slotOf Good d [] [id])
    (hget : d.items.get id = some r) (hid : idOf r' = idOf r) (hsome : slotOf r' = some d.nextSlot)
    (hgood : Good r → Good r') (hpool : pool.Perm (d.nextSlot :: d.pool)) :
    Sound idOf slotOf Good { d with
      items := d.items.insert id r'
      pool := pool
      nextSlot := d.nextSlot + 1 } [] [] := by
  have hr : idOf r = id := h.keyed id r hget
  have hnone : slotOf r = none := by
    obtain ⟨x, hx, hnone⟩ := h.of_mem_queue (mem_append_right _ mem_cons_self)
    cases hget.symm.trans hx
    exact hnone
  have htaken : Sound idOf slotOf Good { d with items := d.items.erase id } [r] [idOf r] := by
    rw [hr]
    exact h.take hget
  have hassigned := (htaken.assign hid hnone hsome hgood hpool).put
  rwa [hid, hr, insert_erase] at hassigned

theorem empty (nextId nextSlot : Nat) :
    Sound idOf slotOf Good ⟨.empty, [], [], nextId, nextSlot⟩ [] [] where
  keyed := nofun
  ids := nodup_nil
  known := nofun
  queued := Balanced.empty
  owned := Balanced.empty
  distinct := nodup_nil
  allocated := nofun
  good := nofun

end Sound

/-! ## Cancelling -/

section
variable (slotOf : R → Option Nat)

/-- The item of the id goes, with its place and its slot. -/
def cancel (d : Desk R) (id : Nat) : Desk R :=
  match d.items.get id with
  | none => d
  | some r =>
    { d with
      items := d.items.erase id
      queue := d.queue.filter fun other => other ≠ id
      pool := d.pool.filter fun slot => slotOf r ≠ some slot }

variable {slotOf} {idOf : R → Nat} {Good : R → Prop} {d : Desk R}

theorem Sound.cancel (h : Sound idOf slotOf Good d [] []) (id : Nat) :
    Sound idOf slotOf Good (d.cancel slotOf id) [] [] := by
  unfold Desk.cancel
  split
  · exact h
  · rename_i r hget
    have hid := h.keyed id r hget
    have hqueue := h.queue_nodup
    rw [append_nil] at hqueue
    apply (h.take hget).drop
    · rw [append_nil, append_nil, place]
      split
      · rename_i hsome
        have hnot : id ∉ d.queue := by
          intro hmem
          obtain ⟨x, hx, hnone⟩ := h.of_mem_queue (mem_append_left [] hmem)
          cases hget.symm.trans hx
          rw [hnone] at hsome
          cases hsome
        have hfilter : d.queue.filter (fun other => other ≠ id) = d.queue := by
          rw [filter_eq_self]
          intro other hmem
          rw [decide_eq_true_eq]
          exact fun heq => hnot (heq ▸ hmem)
        rw [hfilter]
        exact List.Perm.refl _
      · rename_i hslot
        rw [hid]
        exact perm_cons_filter_ne hqueue
          (h.mem_queue hget (Option.not_isSome_iff_eq_none.mp hslot))
    · cases hslot : slotOf r with
      | none => simp [owns, hslot]
      | some slot =>
        have hmem : slot ∈ d.pool := h.owned.mem hget (by simp [owns, hslot])
        have hperm := perm_cons_filter_ne h.distinct hmem
        have hfilter : d.pool.filter (fun other => some slot ≠ some other) =
            d.pool.filter fun other => other ≠ slot := by
          apply filter_congr
          intro other _
          simp [eq_comm]
        rw [owns, hslot, hfilter]
        exact hperm

theorem Sound.cancelAll {ids : List Nat} (h : Sound idOf slotOf Good d [] [])
    (hall : ∀ id r, d.items.get id = some r → id ∈ ids) :
    let last := ids.foldl (Desk.cancel slotOf) d
    (∀ id, last.items.get id = none) ∧ last.queue = [] ∧ last.pool = [] := by
  induction ids generalizing d with
  | nil =>
    have hnone : ∀ id, d.items.get id = none := by
      intro id
      cases hget : d.items.get id with
      | none => rfl
      | some r => cases hall id r hget
    have hempty : d.items = .empty := ext_get fun id => by rw [hnone]; rfl
    have hqueued := h.queued
    have howned := h.owned
    rw [hempty] at hqueued howned
    refine ⟨hnone, ?_, howned.nil_eq.symm⟩
    simpa using hqueued.nil_eq.symm
  | cons id ids ih =>
    apply ih (h.cancel id)
    intro other r hget
    unfold Desk.cancel at hget
    split at hget
    · rename_i hnone
      have hmem := hall other r hget
      rw [mem_cons] at hmem
      obtain rfl | hmem := hmem
      · rw [hnone] at hget
        cases hget
      · exact hmem
    · obtain ⟨hne, hget⟩ := get_of_get_erase hget
      have hmem := hall other r hget
      rw [mem_cons] at hmem
      exact hmem.resolve_left hne

end

end Desk

end Eider.Lib
