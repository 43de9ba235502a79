import Eider.Lib.Drain

/-!
# Computations that agree

Two fallible computations `Agree` when they succeed with related results or fail
with the same error, unless one of them ran into an `excused` error. Excused
errors stand for a shared resource that one run may exhaust and the other not.
-/
namespace Eider.Lib

variable {ε α β γ δ σ ω : Type}

/-- Both succeed with related values, both fail alike, or one is excused. -/
inductive Agree (excused : ε) (R : α → β → Prop) : Except ε α → Except ε β → Prop where
  | ok {a : α} {b : β} (related : R a b) : Agree excused R (.ok a) (.ok b)
  | error (e : ε) : Agree excused R (.error e) (.error e)
  | left (y : Except ε β) : Agree excused R (.error excused) y
  | right (x : Except ε α) : Agree excused R x (.error excused)

namespace Agree
variable {excused : ε} {R : α → β → Prop} {S : γ → δ → Prop} {y : Except ε β} {x : Except ε α}

theorem bind {f : α → Except ε γ} {g : β → Except ε δ}
    (h : Agree excused R x y) (next : ∀ {a b}, R a b → Agree excused S (f a) (g b)) :
    Agree excused S (x >>= f) (y >>= g) := by
  cases h with
  | ok related => exact next related
  | error e => exact .error e
  | left y => exact .left _
  | right x => exact .right _

/-- As `bind`, where the continuation may use what the computations returned. -/
theorem bind_of_ok {f : α → Except ε γ} {g : β → Except ε δ} (h : Agree excused R x y)
    (next : ∀ {a b}, x = .ok a → y = .ok b → R a b → Agree excused S (f a) (g b)) :
    Agree excused S (x >>= f) (y >>= g) := by
  cases h with
  | ok related => exact next rfl rfl related
  | error e => exact .error e
  | left y => exact .left _
  | right x => exact .right _

theorem of_ok {a : α} {b : β} (h : Agree excused R x y)
    (hx : x = .ok a) (hy : y = .ok b) : R a b := by
  cases h with
  | ok related =>
    cases hx
    cases hy
    exact related
  | error e => cases hx
  | left y => cases hx
  | right x => cases hy

end Agree

namespace Drain.Machine
variable (M : Machine σ ε ω) {excused : ε} {same : σ → σ → Prop} {obs : List ω → List ω → Prop}

/-- Related states drain to related states with related outputs, when every
step does so and the outputs compose. -/
theorem drain_agree (append : ∀ {a b c d}, obs a b → obs c d → obs (a ++ c) (b ++ d))
    (step : ∀ {s t}, same s t → Agree excused
      (fun x y => same x.1 y.1 ∧ obs x.2.1 y.2.1 ∧ x.2.2 = y.2.2) (M.step s) (M.step t))
    {s t : σ} (h : same s t) :
    Agree excused (fun x y => same x.1 y.1 ∧ obs x.2 y.2) (M.drain s) (M.drain t) := by
  induction hn : M.size s using Nat.strongRecOn generalizing s t with
  | ind n ih =>
    subst hn
    have hstep := step h
    rw [M.drain_eq s, M.drain_eq t]
    cases hs : M.step s with
    | error e =>
      rw [hs] at hstep
      generalize M.step t = y at hstep
      cases hstep with
      | error e => exact .error e
      | left y => exact .left _
      | right x => exact .right _
    | ok r =>
      obtain ⟨s', out, b⟩ := r
      rw [hs] at hstep
      cases ht : M.step t with
      | error e =>
        rw [ht] at hstep
        cases hstep
        exact .right _
      | ok r =>
        obtain ⟨t', out', b'⟩ := r
        rw [ht] at hstep
        obtain ⟨hsame, hobs, rfl⟩ := hstep.of_ok rfl rfl
        cases b with
        | false => exact .ok ⟨hsame, hobs⟩
        | true =>
          have hrest := ih _ (M.decreases hs) hsame rfl
          simp only [emit]
          generalize M.drain s' = x, M.drain t' = y at hrest
          cases hrest with
          | ok related => exact .ok ⟨related.1, append hobs related.2⟩
          | error e => exact .error e
          | left y => exact .left _
          | right x => exact .right _

end Drain.Machine

end Eider.Lib
