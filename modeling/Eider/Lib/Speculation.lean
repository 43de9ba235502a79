import Mathlib.Algebra.BigOperators.Field
import Mathlib.Algebra.Order.BigOperators.Group.Finset
import Mathlib.Data.Real.Basic
import Mathlib.Tactic.Linarith
import Mathlib.Tactic.Ring

/-!
# Speculative sampling

A draft with probability `q` is accepted with probability `min 1 (p / q)`, where `p` is the
probability that it should have; a rejected one is replaced from the positive part of `p - q`.
The result has the probabilities `p`.
-/
namespace Eider.Lib.Speculation

/-- The probability that a draft is accepted. -/
noncomputable def accept (p q : ℝ) : ℝ := if q ≤ p then 1 else p / q

variable {ι : Type*} {s : Finset ι} {p q : ι → ℝ}

theorem mul_accept {p q : ℝ} (hp : 0 ≤ p) : q * accept p q = min p q := by
  unfold accept
  split
  · rename_i h
    rw [mul_one, min_eq_right h]
  · rename_i h
    rw [not_le] at h
    rw [mul_div_cancel₀ p (by linarith : 0 < q).ne', min_eq_left h.le]

theorem mul_one_sub_accept {p q : ℝ} (hp : 0 ≤ p) : q * (1 - accept p q) = max (q - p) 0 := by
  rw [mul_sub, mul_one, mul_accept hp]
  rcases le_total p q with h | h
  · rw [min_eq_left h, max_eq_left (sub_nonneg.mpr h)]
  · rw [min_eq_right h, sub_self, max_eq_right (sub_nonpos.mpr h)]

theorem min_add_excess (p q : ℝ) : min p q + max (p - q) 0 = p := by
  rcases le_total p q with h | h
  · rw [min_eq_left h, max_eq_right (sub_nonpos.mpr h), add_zero]
  · rw [min_eq_right h, max_eq_left (sub_nonneg.mpr h)]
    ring

theorem sum_excess_eq (hsum : ∑ i ∈ s, p i = ∑ i ∈ s, q i) :
    ∑ i ∈ s, max (q i - p i) 0 = ∑ i ∈ s, max (p i - q i) 0 := by
  have hp : ∑ i ∈ s, (min (p i) (q i) + max (p i - q i) 0) = ∑ i ∈ s, p i :=
    Finset.sum_congr rfl fun i _ => min_add_excess (p i) (q i)
  have hq : ∑ i ∈ s, (min (q i) (p i) + max (q i - p i) 0) = ∑ i ∈ s, q i :=
    Finset.sum_congr rfl fun i _ => min_add_excess (q i) (p i)
  rw [Finset.sum_add_distrib] at hp hq
  simp only [min_comm (q _)] at hq
  linarith

/-- A draft below its due probability leaves excess elsewhere. -/
theorem excess_pos (hsum : ∑ i ∈ s, p i = ∑ i ∈ s, q i) {i : ι} (hi : i ∈ s) (h : p i < q i) :
    0 < ∑ j ∈ s, max (p j - q j) 0 := by
  rw [← sum_excess_eq hsum]
  refine Finset.sum_pos' (fun j _ => le_max_right _ _) ⟨i, hi, ?_⟩
  rw [max_eq_left (by linarith)]
  linarith

/-- Drafting, accepting and replacing gives the wanted distribution. -/
theorem sum_speculation (hp : ∀ i ∈ s, 0 ≤ p i) (hsum : ∑ i ∈ s, p i = ∑ i ∈ s, q i) (g : ι → ℝ) :
    ∑ i ∈ s, q i * (accept (p i) (q i) * g i + (1 - accept (p i) (q i)) *
      ((∑ j ∈ s, max (p j - q j) 0)⁻¹ * ∑ j ∈ s, max (p j - q j) 0 * g j)) =
      ∑ i ∈ s, p i * g i := by
  generalize hexcess : ∑ j ∈ s, max (p j - q j) 0 = excess
  have hsplit : ∀ i ∈ s, q i * (accept (p i) (q i) * g i + (1 - accept (p i) (q i)) *
      (excess⁻¹ * ∑ j ∈ s, max (p j - q j) 0 * g j)) =
      min (p i) (q i) * g i +
        max (q i - p i) 0 * (excess⁻¹ * ∑ j ∈ s, max (p j - q j) 0 * g j) := by
    intro i hi
    rw [← mul_accept (hp i hi), ← mul_one_sub_accept (hp i hi)]
    ring
  have hreplaced : ∑ i ∈ s, max (q i - p i) 0 *
      (excess⁻¹ * ∑ j ∈ s, max (p j - q j) 0 * g j) = ∑ j ∈ s, max (p j - q j) 0 * g j := by
    rw [← Finset.sum_mul, sum_excess_eq hsum, hexcess]
    by_cases hzero : excess = 0
    · have hnone : ∀ j ∈ s, max (p j - q j) 0 = 0 :=
        (Finset.sum_eq_zero_iff_of_nonneg fun j _ => le_max_right _ _).mp (hexcess.trans hzero)
      rw [hzero, zero_mul]
      exact (Finset.sum_eq_zero fun j hj => by rw [hnone j hj, zero_mul]).symm
    · rw [← mul_assoc, mul_inv_cancel₀ hzero, one_mul]
  rw [Finset.sum_congr rfl hsplit, Finset.sum_add_distrib, hreplaced, ← Finset.sum_add_distrib]
  refine Finset.sum_congr rfl fun i _ => ?_
  rw [← add_mul, min_add_excess]

end Eider.Lib.Speculation
