import Mathlib.Data.List.Forall2

/-!
Sizes computed with checked arithmetic. A size is a number or the error of the check that
failed. `AtMost x y` says that `x` is computed whenever `y` is and is no larger; programs
built from checked sums and products of parts that are in this relation are in it again.
-/
namespace Eider.Lib.Sizes

variable {ε : Type} {x y : Except ε Nat}

/-- `x` exists and is at most `y` whenever `y` exists. -/
def AtMost (x y : Except ε Nat) : Prop := ∀ b, y = .ok b → ∃ a, x = .ok a ∧ a ≤ b

theorem AtMost.refl (x : Except ε Nat) : AtMost x x := fun b h => ⟨b, h, Nat.le_refl b⟩

theorem AtMost.ok {a b : Nat} (h : a ≤ b) : AtMost (.ok a : Except ε Nat) (.ok b) := by
  intro c hc
  cases hc
  exact ⟨a, rfl, h⟩

theorem AtMost.bind {f g : Nat → Except ε Nat} (h : AtMost x y)
    (hnext : ∀ a b, a ≤ b → AtMost (f a) (g b)) : AtMost (x >>= f) (y >>= g) := by
  intro c hc
  cases y with
  | error e => cases hc
  | ok b =>
    obtain ⟨a, rfl, hab⟩ := h b rfl
    exact hnext a b hab c hc

theorem AtMost.check {u v : Except ε Unit} (huv : v = .ok () → u = .ok ())
    (h : AtMost x y) : AtMost (u >>= fun _ => x) (v >>= fun _ => y) := by
  intro c hc
  cases v with
  | error e => cases hc
  | ok _ =>
    rw [huv rfl]
    exact h c hc

/-- A value is computed when it stays below `limit`. -/
def below (limit : Nat) (error : ε) (value : Nat) : Except ε Nat :=
  if value < limit then .ok value else .error error

theorem below_eq_ok {limit value b : Nat} {error : ε} :
    below limit error value = .ok b ↔ value < limit ∧ value = b := by
  unfold below
  split
  · simp [*]
  · simp only [reduceCtorEq, false_iff]
    omega

theorem AtMost.below {limit a b : Nat} {e e' : ε} (h : a ≤ b) :
    AtMost (below limit e a) (below limit e' b) := by
  intro c hc
  obtain ⟨hlimit, rfl⟩ := below_eq_ok.mp hc
  exact ⟨a, below_eq_ok.mpr ⟨Nat.lt_of_le_of_lt h hlimit, rfl⟩, h⟩

/-- The product of all factors, from the left. -/
def product (limit : Nat) (error : ε) (product : Nat) : List Nat → Except ε Nat
  | [] => .ok product
  | factor :: factors =>
    Sizes.below limit error (product * factor) >>= fun next => Sizes.product limit error next factors

theorem AtMost.product {limit p q : Nat} {e e' : ε} {xs ys : List Nat} (hpq : p ≤ q)
    (h : List.Forall₂ (· ≤ ·) xs ys) : AtMost (product limit e p xs) (product limit e' q ys) := by
  induction h generalizing p q with
  | nil => exact .ok hpq
  | cons hxy _ ih => exact AtMost.bind (.below (Nat.mul_le_mul hpq hxy)) fun _ _ hab => ih hab

/-- The sum of `count` equal parts, each of them computed. -/
def repeated (part : Except ε Nat) : Nat → Except ε Nat
  | 0 => .ok 0
  | count + 1 => part >>= fun bytes => repeated part count >>= fun rest => .ok (bytes + rest)

theorem AtMost.repeated (h : AtMost x y) (count : Nat) :
    AtMost (repeated x count) (repeated y count) := by
  induction count with
  | zero => exact .refl _
  | succ count ih => exact h.bind fun _ _ hab => ih.bind fun _ _ hcd => .ok (Nat.add_le_add hab hcd)

end Eider.Lib.Sizes
