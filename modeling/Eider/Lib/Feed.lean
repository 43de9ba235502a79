import Mathlib.Algebra.GroupWithZero.Nat
import Mathlib.Algebra.BigOperators.Group.Finset.Piecewise
import Mathlib.Algebra.Order.BigOperators.Group.Finset

/-!
# What each of several targets was fed

A log lists chunks with the target that each was fed to. `fedTo` is what a target has been
fed in all, in order, `total` counts the elements of a log, and a log is `Behind` a target
where the others are fed after it. Every element went to one target.
-/
namespace Eider.Lib.Feed
open List

variable {τ α : Type*}

/-- What a target was fed. -/
def fedTo [DecidableEq τ] (target : τ) (log : List (τ × List α)) : List α :=
  (log.filter fun entry => entry.1 = target).flatMap Prod.snd

/-- The number of elements fed. -/
def total (log : List (τ × List α)) : Nat := (log.map fun entry => entry.2.length).sum

@[simp] theorem total_nil : total ([] : List (τ × List α)) = 0 := rfl

@[simp] theorem total_append (log more : List (τ × List α)) :
    total (log ++ more) = total log + total more := by
  rw [total, map_append, sum_append, total, total]

@[simp] theorem total_cons (target : τ) (chunk : List α) (log : List (τ × List α)) :
    total ((target, chunk) :: log) = chunk.length + total log := by
  rw [total, map_cons, sum_cons, total]

section
variable [DecidableEq τ] {log : List (τ × List α)}

@[simp] theorem fedTo_nil (target : τ) : fedTo target ([] : List (τ × List α)) = [] := rfl

@[simp] theorem fedTo_append (target : τ) (log more : List (τ × List α)) :
    fedTo target (log ++ more) = fedTo target log ++ fedTo target more := by
  rw [fedTo, filter_append, flatMap_append, fedTo, fedTo]

@[simp] theorem fedTo_cons_self (target : τ) (chunk : List α) (log : List (τ × List α)) :
    fedTo target ((target, chunk) :: log) = chunk ++ fedTo target log := by
  simp [fedTo]

theorem fedTo_cons_of_ne {target other : τ} (h : other ≠ target) (chunk : List α)
    (log : List (τ × List α)) : fedTo target ((other, chunk) :: log) = fedTo target log := by
  simp [fedTo, h]

/-- Whatever goes to another target comes behind all that `first` is to be fed. -/
def Behind (first : τ) (all : List α) (log : List (τ × List α)) : Prop :=
  ∀ before entry after, log = before ++ entry :: after → entry.1 ≠ first → fedTo first before = all

theorem Behind.nil (first : τ) (all : List α) : Behind first all [] := by
  intro before entry after hsplit
  simp at hsplit

theorem Behind.concat {first : τ} {all : List α} {entry : τ × List α}
    (h : Behind first all log) (hentry : entry.1 ≠ first → fedTo first log = all) :
    Behind first all (log ++ [entry]) := by
  intro before other after hsplit hother
  rcases eq_nil_or_concat after with rfl | ⟨after, last, rfl⟩
  · obtain ⟨rfl, hlast⟩ := append_inj' hsplit rfl
    obtain rfl := singleton_inj.mp hlast
    exact hentry hother
  · rw [concat_eq_append, ← cons_append, ← append_assoc] at hsplit
    exact h before other after (append_inj' hsplit rfl).1 hother

theorem total_eq_sum {targets : Finset τ} (h : ∀ entry ∈ log, entry.1 ∈ targets) :
    total log = ∑ target ∈ targets, (fedTo target log).length := by
  induction log with
  | nil => simp
  | cons entry rest ih =>
    obtain ⟨fed, chunk⟩ := entry
    have hfed : fed ∈ targets := h (fed, chunk) mem_cons_self
    have split : ∀ target, (fedTo target ((fed, chunk) :: rest)).length =
        (if fed = target then chunk.length else 0) + (fedTo target rest).length := by
      intro target
      by_cases heq : fed = target
      · subst heq
        rw [fedTo_cons_self, length_append, if_pos rfl]
      · rw [fedTo_cons_of_ne heq, if_neg heq, Nat.zero_add]
    rw [total_cons, ih fun entry hentry => h entry (mem_cons_of_mem _ hentry)]
    simp only [split, Finset.sum_add_distrib, Finset.sum_ite_eq, hfed, if_true]

end

end Eider.Lib.Feed
