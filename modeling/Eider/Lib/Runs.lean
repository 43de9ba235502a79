import Mathlib.Data.List.Basic

/-!
# Lists with merged runs

Elements of a mergeable kind that come to stand next to each other are merged into one. Lists
are put together by `joinRuns`, which merges at the seam, and a list is coalesced by putting
its elements together one by one. How the elements are grouped does not matter.
-/
namespace Eider.Lib
open List

/-- Which elements are merged, and how. -/
structure Merging (α : Type*) where
  kind : α → Bool
  merge : α → α → α
  kind_merge : ∀ x y, kind x = true → kind y = true → kind (merge x y) = true
  merge_assoc : ∀ x y z, merge (merge x y) z = merge x (merge y z)

namespace Merging
variable {α : Type*} (m : Merging α)

/-- Two lists put together, with the elements at the seam merged if they are of the kind. -/
def joinRuns : List α → List α → List α
  | [], ys => ys
  | [x], [] => [x]
  | [x], y :: ys => if m.kind x && m.kind y then m.merge x y :: ys else x :: y :: ys
  | x :: x' :: xs, ys => x :: joinRuns (x' :: xs) ys

attribute [grind =] joinRuns

@[simp] theorem joinRuns_nil_left (ys : List α) : m.joinRuns [] ys = ys := rfl

@[simp] theorem joinRuns_nil_right (xs : List α) : m.joinRuns xs [] = xs := by
  induction xs with
  | nil => rfl
  | cons x xs ih =>
    cases xs with
    | nil => rfl
    | cons x' xs => exact congrArg (x :: ·) ih

theorem joinRuns_cons (x : α) {xs : List α} (hxs : xs ≠ []) (ys : List α) :
    m.joinRuns (x :: xs) ys = x :: m.joinRuns xs ys := by
  cases xs with
  | nil => exact absurd rfl hxs
  | cons x' xs => rfl

theorem joinRuns_ne_nil (x : α) (xs ys : List α) : m.joinRuns (x :: xs) ys ≠ [] := by
  cases xs with
  | cons x' xs => exact cons_ne_nil _ _
  | nil =>
    cases ys with
    | nil => exact cons_ne_nil _ _
    | cons y ys =>
      rw [joinRuns]
      split <;> exact cons_ne_nil _ _

theorem joinRuns_merge {x y : α} (hx : m.kind x = true) (hy : m.kind y = true) (ys : List α) :
    m.joinRuns [x] (y :: ys) = m.merge x y :: ys := by
  rw [joinRuns, hx, hy]
  rfl

theorem joinRuns_keep {x y : α} (h : m.kind x = false ∨ m.kind y = false) (ys : List α) :
    m.joinRuns [x] (y :: ys) = x :: y :: ys := by
  rw [joinRuns, if_neg]
  rw [Bool.and_eq_true]
  rintro ⟨hx, hy⟩
  rcases h with h | h <;> simp_all

theorem joinRuns_concat (xs : List α) (x : α) (ys : List α) :
    m.joinRuns (xs ++ [x]) ys = xs ++ m.joinRuns [x] ys := by
  induction xs with
  | nil => rfl
  | cons x' xs ih =>
    rw [cons_append, m.joinRuns_cons x' (append_ne_nil_of_right_ne_nil xs
      (cons_ne_nil x [])), ih, cons_append]

theorem joinRuns_head (x : α) (xs ys : List α) :
    ∃ x' rest, m.joinRuns (x :: xs) ys = x' :: rest ∧ m.kind x' = m.kind x := by
  cases xs with
  | cons x' xs => exact ⟨x, _, rfl, rfl⟩
  | nil =>
    cases ys with
    | nil => exact ⟨x, [], rfl, rfl⟩
    | cons y ys =>
      by_cases hxy : m.kind x = true ∧ m.kind y = true
      · exact ⟨m.merge x y, ys, m.joinRuns_merge hxy.1 hxy.2 ys,
          (m.kind_merge x y hxy.1 hxy.2).trans hxy.1.symm⟩
      · rw [not_and_or, Bool.not_eq_true, Bool.not_eq_true] at hxy
        exact ⟨x, y :: ys, m.joinRuns_keep hxy ys, rfl⟩

theorem joinRuns_single_assoc (x : α) (ys zs : List α) :
    m.joinRuns (m.joinRuns [x] ys) zs = m.joinRuns [x] (m.joinRuns ys zs) := by
  cases ys with
  | nil => rfl
  | cons y ys =>
    by_cases hxy : m.kind x = true ∧ m.kind y = true
    · rw [m.joinRuns_merge hxy.1 hxy.2]
      cases ys with
      | cons y' ys => rw [joinRuns, joinRuns, m.joinRuns_merge hxy.1 hxy.2]
      | nil =>
        cases zs with
        | nil => rw [joinRuns_nil_right, joinRuns_nil_right, m.joinRuns_merge hxy.1 hxy.2]
        | cons z zs =>
          have hmerged := m.kind_merge x y hxy.1 hxy.2
          by_cases hz : m.kind z = true
          · rw [m.joinRuns_merge hmerged hz, m.joinRuns_merge hxy.2 hz,
              m.joinRuns_merge hxy.1 (m.kind_merge y z hxy.2 hz), m.merge_assoc]
          · have hz : m.kind z = false := Bool.not_eq_true _ ▸ hz
            rw [m.joinRuns_keep (.inr hz), m.joinRuns_keep (.inr hz), m.joinRuns_merge hxy.1 hxy.2]
    · rw [not_and_or, Bool.not_eq_true, Bool.not_eq_true] at hxy
      obtain ⟨y', rest, hjoined, hkind⟩ := m.joinRuns_head y ys zs
      rw [m.joinRuns_keep hxy, m.joinRuns_cons x (cons_ne_nil y ys), hjoined,
        m.joinRuns_keep (by rwa [hkind])]

theorem joinRuns_assoc (xs ys zs : List α) :
    m.joinRuns (m.joinRuns xs ys) zs = m.joinRuns xs (m.joinRuns ys zs) := by
  induction xs with
  | nil => rfl
  | cons x xs ih =>
    cases xs with
    | nil => exact m.joinRuns_single_assoc x ys zs
    | cons x' xs =>
      rw [m.joinRuns_cons x (cons_ne_nil x' xs), m.joinRuns_cons x (cons_ne_nil x' xs),
        m.joinRuns_cons x (m.joinRuns_ne_nil x' xs ys), ih]

theorem filter_joinRuns (xs ys : List α) :
    (m.joinRuns xs ys).filter (fun x => !m.kind x) =
      xs.filter (fun x => !m.kind x) ++ ys.filter (fun x => !m.kind x) := by
  induction xs with
  | nil => rfl
  | cons x xs ih =>
    cases xs with
    | cons x' xs =>
      rw [m.joinRuns_cons x (cons_ne_nil x' xs), filter_cons, filter_cons, ih]
      split <;> rfl
    | nil =>
      cases ys with
      | nil => simp
      | cons y ys =>
        by_cases hxy : m.kind x = true ∧ m.kind y = true
        · rw [m.joinRuns_merge hxy.1 hxy.2]
          simp [hxy.1, hxy.2, m.kind_merge x y hxy.1 hxy.2]
        · rw [not_and_or, Bool.not_eq_true, Bool.not_eq_true] at hxy
          rw [m.joinRuns_keep hxy, ← filter_append]
          rfl

/-- Between elements of the other kind nothing is merged. -/
theorem joinRuns_eq_append {xs ys : List α}
    (h : ∀ x ∈ xs.getLast?, ∀ y ∈ ys.head?, m.kind x = false ∨ m.kind y = false) :
    m.joinRuns xs ys = xs ++ ys := by
  induction xs with
  | nil => rfl
  | cons x xs ih =>
    cases xs with
    | cons x' xs =>
      rw [m.joinRuns_cons x (cons_ne_nil x' xs), cons_append, ih]
      rwa [getLast?_cons_cons] at h
    | nil =>
      cases ys with
      | nil => rfl
      | cons y ys => exact m.joinRuns_keep (h x rfl y rfl) ys

/-- The elements put together one by one. -/
def coalesce (xs : List α) : List α := xs.foldl (fun joined x => m.joinRuns joined [x]) []

theorem foldl_joinRuns (joined xs : List α) :
    xs.foldl (fun joined x => m.joinRuns joined [x]) joined =
      m.joinRuns joined (m.coalesce xs) := by
  induction xs generalizing joined with
  | nil => exact (m.joinRuns_nil_right joined).symm
  | cons x xs ih =>
    have hwhole : m.coalesce (x :: xs) = m.joinRuns [x] (m.coalesce xs) := ih [x]
    rw [foldl_cons, ih, m.joinRuns_assoc, hwhole]

theorem coalesce_append (xs ys : List α) :
    m.coalesce (xs ++ ys) = m.joinRuns (m.coalesce xs) (m.coalesce ys) := by
  rw [coalesce, foldl_append]
  exact m.foldl_joinRuns _ ys

end Merging

end Eider.Lib
