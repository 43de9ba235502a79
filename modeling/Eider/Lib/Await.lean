import Mathlib.Data.Nat.Notation

/-!
# Loops that wait for a value

`await step` runs a step until it gives a value; `collect next` calls a fallible `next`
until it gives none and gathers what came before. Both take fuel, and `none` says that
it ran out. A loop that draws nearer a value while it is silent gets one with enough
fuel, and a loop that stays silent gets none with any.
-/
namespace Eider.Lib.Await

variable {σ α ε : Type}

/-- The first value of a step. -/
def await (step : σ → Option α × σ) : Nat → σ → Option (α × σ)
  | 0, _ => none
  | fuel + 1, s =>
    match step s with
    | (some a, t) => some (a, t)
    | (none, t) => await step fuel t

/-- The values before the first none, or the first error. -/
def collect (next : σ → Option (Except ε (Option α) × σ)) :
    Nat → σ → Option (Except ε (List α) × σ)
  | 0, _ => none
  | fuel + 1, s =>
    match next s with
    | none => none
    | some (.error e, t) => some (.error e, t)
    | some (.ok none, t) => some (.ok [], t)
    | some (.ok (some a), t) => (collect next fuel t).map fun (r, u) => (r.map (a :: ·), u)

attribute [grind =] collect

section
variable {step : σ → Option α × σ} {n m : Nat} {s t : σ} {a : α}

theorem await_of_some (h : step s = (some a, t)) : await step (n + 1) s = some (a, t) := by
  rw [await, h]

theorem await_of_none (h : step s = (none, t)) : await step (n + 1) s = await step n t := by
  rw [await, h]

theorem await_mono (h : await step n s = some (a, t)) (hle : n ≤ m) :
    await step m s = some (a, t) := by
  induction n generalizing m s with
  | zero => cases h
  | succ n ih =>
    obtain ⟨m, rfl⟩ : ∃ k, m = k + 1 := ⟨m - 1, by omega⟩
    rcases hstep : step s with ⟨_ | b, u⟩
    · rw [await_of_none hstep] at h ⊢
      exact ih h (by omega)
    · rw [await_of_some hstep] at h ⊢
      exact h

/-- A loop whose measure goes down while it is silent gets a value. -/
theorem await_of_measure {Inv : σ → Prop} {Gives : α → σ → Prop} (measure : σ → Nat)
    (speaks : ∀ s, Inv s → (∃ a t, step s = (some a, t) ∧ Gives a t) ∨
      ∃ t, step s = (none, t) ∧ Inv t ∧ measure t < measure s) (h : Inv s)
    (hfuel : measure s < n) : ∃ a t, await step n s = some (a, t) ∧ Gives a t := by
  induction n generalizing s with
  | zero => omega
  | succ n ih =>
    rcases speaks s h with ⟨a, t, hstep, hgives⟩ | ⟨t, hstep, hinv, hless⟩
    · exact ⟨a, t, await_of_some hstep, hgives⟩
    · obtain ⟨a, u, hawait, hgives⟩ := ih hinv (by omega)
      exact ⟨a, u, (await_of_none hstep).trans hawait, hgives⟩

theorem await_silent {Inv : σ → Prop} (silent : ∀ s, Inv s → ∃ t, step s = (none, t) ∧ Inv t)
    (h : Inv s) : await step n s = none := by
  induction n generalizing s with
  | zero => rfl
  | succ n ih =>
    obtain ⟨t, hstep, hinv⟩ := silent s h
    exact (await_of_none hstep).trans (ih hinv)

end

section
variable {next : σ → Option (Except ε (Option α) × σ)} {n : Nat} {s t u : σ} {a : α}
  {r : Except ε (List α)} {e : ε}

theorem collect_of_none (h : next s = some (.ok none, t)) :
    collect next (n + 1) s = some (.ok [], t) := by
  rw [collect, h]

theorem collect_of_error (h : next s = some (.error e, t)) :
    collect next (n + 1) s = some (.error e, t) := by
  rw [collect, h]

theorem collect_of_stuck (h : next s = none) : collect next (n + 1) s = none := by
  rw [collect, h]

theorem collect_of_some (h : next s = some (.ok (some a), t)) :
    collect next (n + 1) s = (collect next n t).map fun (r, u) => (r.map (a :: ·), u) := by
  rw [collect, h]

end

end Eider.Lib.Await
