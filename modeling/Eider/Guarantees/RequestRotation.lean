import Eider.Source.Flint.Service
import Mathlib.Data.List.Dedup
import Mathlib.Data.List.Perm.Subperm

/-!
# The rotation of the Flint requests

One cursor goes through the ids in ascending order and starts over behind the largest one. While
a request waits for its turn the cursor comes from behind it and takes no id twice, so the calls
that pass it over have taken as many other ids as they have places.

New requests have the largest ids, so the cursor meets them before it starts over: a request
that is on every list waits as long as new ones come and go (`arrivals_go_first`).
-/
namespace Eider.Guarantees.RequestRotation
open Source.Flint List

variable {capacity base a b id : Nat} {cursor : Option Nat} {ids : List Nat}
variable {lists : List (List Nat)}

/-- What the calls return, with the cursor that each call leaves to the next. -/
def rotations (capacity : Nat) : Option Nat → List (List Nat) → List (List Nat)
  | _, [] => []
  | cursor, ids :: lists =>
    let rotated := rotateRequests ids cursor capacity
    rotated.1 :: rotations capacity rotated.2 lists

attribute [grind =] rotations

/-- The cursor behind `base` meets `a` before `b`. -/
def Before (base a b : Nat) : Prop :=
  (base < a ∧ base < b ∧ a < b) ∨ (base < a ∧ b ≤ base) ∨ (a ≤ base ∧ b ≤ base ∧ a < b)

/-- The same behind a cursor that may not have been set yet. -/
def Comes (cursor : Option Nat) (a b : Nat) : Prop :=
  match cursor with
  | some base => Before base a b
  | none => a < b

/-! ## One call -/

/-- The ids in the order in which a call takes them. -/
def rotated (ids : List Nat) (cursor : Option Nat) : List Nat :=
  match cursor with
  | some previous =>
    ids.drop (ids.takeWhile fun id => id ≤ previous).length ++
      ids.take (ids.takeWhile fun id => id ≤ previous).length
  | none => ids

theorem rotateRequests_eq : rotateRequests ids cursor capacity =
    ((rotated ids cursor).take capacity,
      ((rotated ids cursor).take capacity).getLast?.orElse fun _ => cursor) := by
  cases cursor <;> rfl

theorem rotated_perm : (rotated ids cursor).Perm ids := by
  cases cursor with
  | none => exact .refl _
  | some previous => exact perm_append_comm.trans (.of_eq (take_append_drop _ ids))

theorem le_or_lt_of_offset (h : ids.Pairwise (· < ·)) (previous : Nat) :
    (∀ a ∈ ids.take (ids.takeWhile fun id => id ≤ previous).length, a ≤ previous) ∧
      ∀ a ∈ ids.drop (ids.takeWhile fun id => id ≤ previous).length, previous < a := by
  induction ids with
  | nil => exact ⟨nofun, nofun⟩
  | cons id ids ih =>
    obtain ⟨hfirst, hrest⟩ := pairwise_cons.mp h
    by_cases hid : id ≤ previous
    · simpa [takeWhile_cons, hid] using ih hrest
    · have hlt : ∀ a ∈ id :: ids, previous < a := by
        intro a ha
        obtain rfl | ha := mem_cons.mp ha
        · omega
        · have := hfirst a ha
          omega
      simpa [takeWhile_cons, hid] using hlt

/-- A call takes the ids in the order in which the cursor meets them. -/
theorem rotated_pairwise (h : ids.Pairwise (· < ·)) :
    (rotated ids cursor).Pairwise (Comes cursor) := by
  cases cursor with
  | none => exact h
  | some previous =>
    obtain ⟨hlow, hhigh⟩ := le_or_lt_of_offset h previous
    refine pairwise_append.mpr ⟨?_, ?_, fun a ha b hb => .inr (.inl ⟨hhigh a ha, hlow b hb⟩)⟩
    · exact (h.sublist (drop_sublist _ _)).imp_of_mem fun ha hb hlt =>
        .inl ⟨hhigh _ ha, hhigh _ hb, hlt⟩
    · exact (h.sublist (take_sublist _ _)).imp_of_mem fun ha hb hlt =>
        .inr (.inr ⟨hlow _ ha, hlow _ hb, hlt⟩)

/-- A call that passes an id over fills its places, on the way from the cursor to the id. -/
theorem passed_over (hids : ids.Pairwise (· < ·)) (hid : id ∈ ids)
    (hnot : id ∉ (rotateRequests ids cursor capacity).1) :
    (rotateRequests ids cursor capacity).1.length = capacity ∧
      (rotateRequests ids cursor capacity).1.Pairwise (Before id) ∧
      ∀ base ≠ id, cursor = some base →
        ∀ a ∈ (rotateRequests ids cursor capacity).1, Before id base a := by
  rw [rotateRequests_eq] at hnot ⊢
  have hpairs : (rotated ids cursor).Pairwise (Comes cursor) := rotated_pairwise hids
  have hmem : id ∈ rotated ids cursor := rotated_perm.mem_iff.mpr hid
  rw [← take_append_drop capacity (rotated ids cursor)] at hpairs hmem
  have hlater := (mem_append.mp hmem).resolve_left hnot
  obtain ⟨htaken, -, hcross⟩ := pairwise_append.mp hpairs
  refine ⟨?_, ?_, ?_⟩
  · have hlength := length_pos_of_mem hlater
    rw [length_drop] at hlength
    rw [length_take]
    omega
  · refine htaken.imp_of_mem fun {a b} ha hb hab => ?_
    have hb := hcross b hb id hlater
    have ha := hcross a ha id hlater
    cases cursor with
    | none => exact .inr (.inr ⟨Nat.le_of_lt ha, Nat.le_of_lt hb, hab⟩)
    | some base =>
      unfold Comes Before at *
      omega
  · rintro base hne rfl a ha
    have ha := hcross a ha id hlater
    unfold Comes Before at *
    omega

/-! ## Runs -/

theorem Before.trans {c : Nat} (h : Before base a b) (h' : Before base b c) : Before base a c := by
  unfold Before at *
  omega

theorem passed_over_run (hcapacity : 0 < capacity) (hlists : ∀ ids ∈ lists, ids.Pairwise (· < ·))
    (hid : ∀ ids ∈ lists, id ∈ ids) (hnot : id ∉ (rotations capacity cursor lists).flatten) :
    (rotations capacity cursor lists).flatten.length = lists.length * capacity ∧
      (rotations capacity cursor lists).flatten.Pairwise (Before id) ∧
      ∀ base ≠ id, cursor = some base →
        ∀ a ∈ (rotations capacity cursor lists).flatten, Before id base a := by
  induction lists generalizing cursor with
  | nil => exact ⟨(Nat.zero_mul _).symm, .nil, nofun⟩
  | cons ids lists ih =>
    obtain ⟨hids, hlists⟩ := forall_mem_cons.mp hlists
    obtain ⟨hfirst, hid⟩ := forall_mem_cons.mp hid
    rw [rotations, flatten_cons] at hnot ⊢
    obtain ⟨hnow, hlater⟩ := not_or.mp (mem_append.not.mp hnot)
    obtain ⟨hlength, hpairs, hcursor⟩ := passed_over hids hfirst hnow
    obtain ⟨hlength', hpairs', hcursor'⟩ := ih hlists hid hlater
    -- The last id of the call is the cursor for the next ones.
    obtain ⟨last, hlast⟩ : ∃ last, (rotateRequests ids cursor capacity).1.getLast? = some last := by
      refine Option.isSome_iff_exists.mp (getLast?_isSome.mpr ?_)
      exact ne_nil_of_length_pos (hcapacity.trans_eq hlength.symm)
    have hnext : (rotateRequests ids cursor capacity).2 = some last := by
      rw [rotateRequests_eq] at hlast ⊢
      rw [hlast]
      rfl
    obtain ⟨taken, htaken⟩ := getLast?_eq_some_iff.mp hlast
    have hlastMem : last ∈ (rotateRequests ids cursor capacity).1 := by simp [htaken]
    have hbehind := hcursor' last (ne_of_mem_of_not_mem hlastMem hnow) hnext
    have hcross : ∀ a ∈ (rotateRequests ids cursor capacity).1,
        ∀ b ∈ (rotations capacity (rotateRequests ids cursor capacity).2 lists).flatten,
          Before id a b := by
      intro a ha b hb
      rw [htaken, mem_append, mem_singleton] at ha
      obtain ha | rfl := ha
      · rw [htaken] at hpairs
        have hlt := (pairwise_append.mp hpairs).2.2 a ha last (mem_singleton.mpr rfl)
        exact hlt.trans (hbehind b hb)
      · exact hbehind b hb
    refine ⟨?_, pairwise_append.mpr ⟨hpairs, hpairs', hcross⟩, fun base hne heq a ha => ?_⟩
    · rw [length_append, hlength, hlength', length_cons, Nat.succ_mul, Nat.add_comm]
    · obtain ha | ha := mem_append.mp ha
      · exact hcursor base hne heq a ha
      · exact (hcursor base hne heq last hlastMem).trans (hbehind a ha)

theorem mem_lists_of_mem_rotations (h : a ∈ (rotations capacity cursor lists).flatten) :
    a ∈ lists.flatten := by
  induction lists generalizing cursor with
  | nil => exact h
  | cons ids lists ih =>
    rw [rotations, flatten_cons, rotateRequests_eq] at h
    obtain h | h := mem_append.mp h
    · exact mem_append_left _ (rotated_perm.mem_iff.mp (mem_of_mem_take h))
    · exact mem_append_right _ (ih h)

theorem rotations_append (capacity : Nat) (cursor : Option Nat) (xs ys : List (List Nat)) : ∃ next,
    rotations capacity cursor (xs ++ ys) =
      rotations capacity cursor xs ++ rotations capacity next ys := by
  induction xs generalizing cursor with
  | nil => exact ⟨cursor, rfl⟩
  | cons ids xs ih =>
    obtain ⟨next, heq⟩ := ih (rotateRequests ids cursor capacity).2
    exact ⟨next, by rw [cons_append, rotations, heq]; rfl⟩

theorem length_rotations : (rotations capacity cursor lists).length = lists.length := by
  induction lists generalizing cursor with
  | nil => rfl
  | cons ids lists ih => rw [rotations, length_cons, ih, length_cons]

/-- An id on all lists of some calls is taken by one of them, unless the lists hold more ids
than the calls have places. -/
theorem served_of_few (hcapacity : 0 < capacity) (hne : lists ≠ [])
    (hlists : ∀ ids ∈ lists, ids.Pairwise (· < ·)) (hid : ∀ ids ∈ lists, id ∈ ids)
    (hfew : lists.flatten.dedup.length ≤ lists.length * capacity) :
    id ∈ (rotations capacity cursor lists).flatten := by
  by_contra hnot
  obtain ⟨hlength, hpairs, -⟩ := passed_over_run hcapacity hlists hid hnot
  have hnodup : (id :: (rotations capacity cursor lists).flatten).Nodup := by
    refine nodup_cons.mpr ⟨hnot, hpairs.imp fun {a b} hab => ?_⟩
    unfold Before at hab
    omega
  have hsubset : id :: (rotations capacity cursor lists).flatten ⊆ lists.flatten.dedup := by
    obtain ⟨ids, hids⟩ := exists_mem_of_ne_nil lists hne
    refine cons_subset.mpr ⟨mem_dedup.mpr (mem_flatten.mpr ⟨ids, hids, hid ids hids⟩), ?_⟩
    exact fun a ha => mem_dedup.mpr (mem_lists_of_mem_rotations ha)
  have hcount := (subperm_of_subset hnodup hsubset).length_le
  rw [length_cons, hlength] at hcount
  omega

/-- Each call takes as many ids of its list as it has places, and an id on the lists of
consecutive calls is taken by one of them, if their lists together hold at most as many ids as
the calls have places. -/
theorem rotation_serves (hcapacity : 0 < capacity) (hlists : ∀ ids ∈ lists, ids.Pairwise (· < ·)) :
    (∀ before ids after, lists = before ++ ids :: after → ∃ selected : List Nat,
      (rotations capacity none lists)[before.length]? = some selected ∧
        selected.length = min capacity ids.length ∧ selected.Nodup ∧ ∀ a ∈ selected, a ∈ ids) ∧
    ∀ before window after : List (List Nat), lists = before ++ window ++ after → window ≠ [] →
      window.flatten.dedup.length ≤ window.length * capacity →
      ∀ id, (∀ ids ∈ window, id ∈ ids) →
        ∃ selected ∈ ((rotations capacity none lists).drop before.length).take window.length,
          id ∈ selected := by
  constructor
  · rintro before ids after rfl
    obtain ⟨next, heq⟩ := rotations_append capacity none before (ids :: after)
    refine ⟨(rotateRequests ids next capacity).1, ?_, ?_, ?_, ?_⟩
    · rw [heq, getElem?_append_right (Nat.le_of_eq length_rotations), length_rotations,
        Nat.sub_self]
      rfl
    · rw [rotateRequests_eq, length_take, rotated_perm.length_eq]
    · rw [rotateRequests_eq]
      have hids := hlists ids (mem_append_right _ mem_cons_self)
      exact (take_sublist _ _).nodup (rotated_perm.nodup_iff.mpr (hids.imp Nat.ne_of_lt))
    · rw [rotateRequests_eq]
      exact fun a ha => rotated_perm.mem_iff.mp (mem_of_mem_take ha)
  · rintro before window after rfl hne hfew id hid
    obtain ⟨next, heq⟩ := rotations_append capacity none before (window ++ after)
    obtain ⟨next', heq'⟩ := rotations_append capacity next window after
    rw [append_assoc, heq, heq', drop_left' length_rotations, take_left' length_rotations]
    refine mem_flatten.mp (served_of_few hcapacity hne ?_ hid hfew)
    exact fun ids hids => hlists ids (mem_append_left _ (mem_append_right _ hids))

/-- Request 2 leaves behind the first call, and request 4 arrives with the third. -/
def threeCalls : List (List Nat) := [[1, 2, 3], [1, 3], [1, 3, 4]]

theorem three_requests_served :
    (∃ selected : List Nat, (rotations 2 none threeCalls)[2]? = some selected ∧
      selected.length = 2 ∧ selected.Nodup ∧ ∀ a ∈ selected, a ∈ [1, 3, 4]) ∧
    ∃ selected ∈ ((rotations 2 none threeCalls).drop 1).take 2, 1 ∈ selected := by
  have hlists : ∀ ids ∈ threeCalls, ids.Pairwise (· < ·) := by decide
  obtain ⟨hselects, hserves⟩ := rotation_serves Nat.two_pos hlists
  exact ⟨hselects [[1, 2, 3], [1, 3]] [1, 3, 4] [] rfl,
    hserves [[1, 2, 3]] [[1, 3], [1, 3, 4]] [] rfl (cons_ne_nil _ _) (by decide) 1 (by decide)⟩

/-- Ascending lists of at most `bound` ids, where what is new is larger than every id so far. -/
def Arriving (bound : Nat) (lists : List (List Nat)) : Prop :=
  (∀ ids ∈ lists, ids.Pairwise (· < ·) ∧ ids.length ≤ bound) ∧
    ∀ i < lists.length, ∀ a ∈ lists.getD (i + 1) [], a ∉ lists.getD i [] →
      ∀ b ∈ (lists.take (i + 1)).flatten, b < a

/-- One place and two ids on each list: the first one waits for the new ones. -/
theorem arrivals_go_first : ¬ ∀ bound capacity lists, 0 < capacity → Arriving bound lists →
    ∀ i, i + bound ≤ lists.length → ∀ id, (∀ ids ∈ (lists.drop i).take bound, id ∈ ids) →
      ∃ selected ∈ ((rotations capacity none lists).drop i).take bound, id ∈ selected := by
  intro h
  have hserved := h 2 1 [[1], [1, 2], [1, 3]] Nat.one_pos ⟨by decide, by decide⟩ 1 (by decide) 1
    (by decide)
  revert hserved
  decide

end Eider.Guarantees.RequestRotation
