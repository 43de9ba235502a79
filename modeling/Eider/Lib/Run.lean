import Mathlib.Logic.Basic

/-!
# Runs of a transition function

A system is a partial function `step : σ → α → Option σ` from a state and an
action to the next state. `Path step guard s actions t` is a run whose every
action meets `guard` in the state before it. What holds initially and is kept by
every guarded step holds at the end of every run.
-/
namespace Eider.Lib.Run

variable {σ α : Type*}

/-- A run from `s` through `actions` to `t`, each action allowed by `guard`. -/
inductive Path (step : σ → α → Option σ) (guard : σ → α → Prop) : σ → List α → σ → Prop where
  | nil (s : σ) : Path step guard s [] s
  | cons {s t u : σ} {a : α} {actions : List α} (allowed : guard s a) (taken : step s a = some t)
      (rest : Path step guard t actions u) : Path step guard s (a :: actions) u

variable {step : σ → α → Option σ} {guard : σ → α → Prop}

variable {actions : List α}

theorem Path.invariant {Inv : σ → Prop}
    (keeps : ∀ {s t : σ} {a : α}, Inv s → guard s a → step s a = some t → Inv t) {s t : σ}
    (path : Path step guard s actions t) (start : Inv s) : Inv t := by
  induction path with
  | nil s => exact start
  | cons allowed taken rest ih => exact ih (keeps start allowed taken)

theorem Path.mono {weaker : σ → α → Prop} (weaken : ∀ {s : σ} {a : α}, guard s a → weaker s a)
    {s t : σ} (path : Path step guard s actions t) : Path step weaker s actions t := by
  induction path with
  | nil s => exact .nil s
  | cons allowed taken rest ih => exact .cons (weaken allowed) taken ih

/-- Runs are computed by folding the step. -/
def run (step : σ → α → Option σ) : σ → List α → Option σ
  | s, [] => some s
  | s, a :: actions => (step s a).bind fun t => run step t actions

/-- Runs with a check before every action. -/
def runWhere (step : σ → α → Option σ) (check : σ → α → Bool) : σ → List α → Option σ
  | s, [] => some s
  | s, a :: actions =>
    if check s a then (step s a).bind fun t => runWhere step check t actions else none

theorem Path.of_runWhere {check : σ → α → Bool} {s t : σ}
    (h : runWhere step check s actions = some t)
    (decides : ∀ a ∈ actions, ∀ s, check s a = true → guard s a) : Path step guard s actions t := by
  induction actions generalizing s with
  | nil =>
    cases h
    exact Path.nil _
  | cons a actions ih =>
    unfold runWhere at h
    split at h
    · rename_i hcheck
      obtain ⟨u, hu, h⟩ := Option.bind_eq_some_iff.mp h
      exact Path.cons (decides a List.mem_cons_self s hcheck) hu
        (ih h fun b hb => decides b (List.mem_cons_of_mem _ hb))
    · cases h

theorem Path.of_run_guarded {s t : σ} (h : run step s actions = some t)
    (allowed : ∀ a ∈ actions, ∀ s, guard s a) : Path step guard s actions t := by
  induction actions generalizing s with
  | nil =>
    cases h
    exact Path.nil _
  | cons a actions ih =>
    obtain ⟨u, hu, h⟩ := Option.bind_eq_some_iff.mp h
    exact Path.cons (allowed a List.mem_cons_self s) hu
      (ih h fun b hb => allowed b (List.mem_cons_of_mem _ hb))

theorem Path.of_run {s t : σ} (h : run step s actions = some t) :
    Path step (fun _ _ => True) s actions t :=
  Path.of_run_guarded h fun _ _ _ => trivial

/-- Runs with a log of what each action hands out. -/
def logging {β : Type*} (step : σ → α → Option σ) (out : σ → α → List β) (x : σ × List β)
    (a : α) : Option (σ × List β) :=
  (step x.1 a).map fun t => (t, x.2 ++ out x.1 a)

theorem logging_eq_some {β : Type*} {out : σ → α → List β} {x y : σ × List β} {a : α} :
    logging step out x a = some y ↔ step x.1 a = some y.1 ∧ y.2 = x.2 ++ out x.1 a := by
  unfold logging
  rw [Option.map_eq_some_iff]
  constructor
  · rintro ⟨t, ht, rfl⟩
    exact ⟨ht, rfl⟩
  · rintro ⟨ht, hlog⟩
    exact ⟨y.1, ht, by rw [← hlog]⟩

end Eider.Lib.Run
