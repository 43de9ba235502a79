import Eider.Lib.Ensures
import Mathlib.Data.List.Forall2

/-!
# Passes over rows that may fail

`sweep step undo skip` works through a list of rows in their order. A row that fails ends
the pass: the rows before it are handed to `undo` and the rows behind it to `skip`. The
pass is a program over the list, so that the rules of `Ensures` apply to it.
-/
namespace Eider.Lib
open List

variable {α β γ ε : Type} (step : Nat → α → α × Except ε Unit)

/-- The pass over the rows, numbered from `index`. -/
def sweepFrom (undo skip : α → α) :
    Nat → List α → List α × Except ε Unit
  | _, [] => ([], .ok ())
  | index, row :: rows =>
    match step index row with
    | (row, .error e) => (row :: rows.map skip, .error e)
    | (row, .ok ()) =>
      match sweepFrom undo skip (index + 1) rows with
      | (rows, .error e) => (undo row :: rows, .error e)
      | (rows, .ok ()) => (row :: rows, .ok ())

/-- The pass as a program whose state is the list of rows. -/
def sweep (undo skip : α → α) : EStateM ε (List α) Unit :=
  fun rows => match sweepFrom step undo skip 0 rows with
    | (rows, .ok ()) => .ok () rows
    | (rows, .error e) => .error e rows

/-- A step that fails on the rows of `fails` and does `work` on the others. -/
def failAt (fails : Nat → Bool) (error : ε) (failed work : α → α) (index : Nat) (row : α) :
    α × Except ε Unit :=
  if fails index then (failed row, .error error) else (work row, .ok ())

/-- A program over parts of the rows, run on rows that hold more. -/
def overRows (get : β → α) (put : β → α → β) (m : EStateM ε (List α) γ) : EStateM ε (List β) γ :=
  fun rows => match m (rows.map get) with
    | .ok c after => .ok c (List.zipWith put rows after)
    | .error e after => .error e (List.zipWith put rows after)

/-- A program whose failure is followed by `undo`, which may put another error in place
of the one it answers. -/
def onError {σ : Type} (m : EStateM ε σ γ) (undo : σ → σ × Option ε) : EStateM ε σ γ :=
  fun s => match m s with
    | .ok c t => .ok c t
    | .error e t => .error ((undo t).2.getD e) (undo t).1

section
variable {ι : Type} (step : Nat → α → α × Except ε Unit) (undo skip : α → α) (items : List ι)
variable (f g : ι → α) (back : ι → α → Prop) (clear : Nat → ι → Prop) (hit : Nat → ι → ε → Prop)

/-- What a pass does with rows that come from items: a step either makes `g x` of `f x`, or
fails and leaves what `back` says. -/
theorem sweepFrom_map (index : Nat)
    (work : ∀ i, ∀ x ∈ items, (step i (f x) = (g x, .ok ()) ∧ clear i x) ∨
      ∃ a e, step i (f x) = (a, .error e) ∧ back x a ∧ hit i x e)
    (undone : ∀ x ∈ items, back x (undo (g x))) (behind : ∀ x ∈ items, back x (skip (f x))) :
    match sweepFrom step undo skip index (items.map f) with
    | (after, .ok ()) => after = items.map g ∧
        ∀ i x, items[i]? = some x → clear (index + i) x
    | (after, .error e) => List.Forall₂ back items after ∧
        ∃ i x, items[i]? = some x ∧ hit (index + i) x e := by
  induction items generalizing index with
  | nil => exact ⟨rfl, by simp⟩
  | cons x items ih =>
    have hrest := ih (index + 1) (fun i y hy => work i y (mem_cons_of_mem _ hy))
      (fun y hy => undone y (mem_cons_of_mem _ hy))
      fun y hy => behind y (mem_cons_of_mem _ hy)
    rw [map_cons, sweepFrom]
    obtain ⟨hstep, hclear⟩ | ⟨a, e, hstep, hback, hhit⟩ := work index x mem_cons_self
    · simp only [hstep]
      generalize sweepFrom step undo skip (index + 1) (items.map f) = rest at hrest ⊢
      obtain ⟨after, result⟩ := rest
      cases result with
      | error e =>
        obtain ⟨hrows, i, y, hget, hhit⟩ := hrest
        refine ⟨.cons (undone x mem_cons_self) hrows, i + 1, y, by simpa using hget, ?_⟩
        rwa [show index + (i + 1) = index + 1 + i by omega]
      | ok _ =>
        obtain ⟨rfl, hclears⟩ := hrest
        refine ⟨rfl, fun i y hget => ?_⟩
        cases i with
        | zero =>
          cases hget
          exact hclear
        | succ i =>
          rw [show index + (i + 1) = index + 1 + i by omega]
          exact hclears i y (by simpa using hget)
    · simp only [hstep]
      refine ⟨.cons hback ?_, 0, x, rfl, hhit⟩
      rw [map_map, forall₂_map_right_iff, forall₂_same]
      exact fun y hy => behind y (mem_cons_of_mem _ hy)

protected theorem Ensures.sweep
    (work : ∀ i, ∀ x ∈ items, (step i (f x) = (g x, .ok ()) ∧ clear i x) ∨
      ∃ a e, step i (f x) = (a, .error e) ∧ back x a ∧ hit i x e)
    (undone : ∀ x ∈ items, back x (undo (g x))) (behind : ∀ x ∈ items, back x (skip (f x))) :
    Ensures (Eider.Lib.sweep step undo skip) (items.map f)
      (fun _ after => after = items.map g ∧ ∀ i x, items[i]? = some x → clear i x)
      (fun e after => List.Forall₂ back items after ∧ ∃ i x, items[i]? = some x ∧ hit i x e) := by
  have hrows := sweepFrom_map step undo skip items f g back clear hit 0 work undone behind
  simp only [Nat.zero_add] at hrows
  unfold Ensures Eider.Lib.sweep
  generalize sweepFrom step undo skip 0 (items.map f) = outcome at hrows ⊢
  obtain ⟨after, result⟩ := outcome
  cases result with
  | error e => exact hrows
  | ok _ => exact hrows

variable (fails : Nat → Bool)

/-- The two outcomes of a step that fails where an oracle says so. -/
theorem failAt_cases (error : ε) (failed work : α → α) (index : Nat) (row : α) :
    (failAt fails error failed work index row = (work row, .ok ()) ∧ fails index = false) ∨
    (failAt fails error failed work index row = (failed row, .error error) ∧
      fails index = true) := by
  unfold failAt
  cases fails index
  · exact .inl ⟨rfl, rfl⟩
  · exact .inr ⟨rfl, rfl⟩

/-- The rule of a pass that fails where an oracle says so. -/
theorem Ensures.sweep_failAt (error : ε) (failed work : α → α) (rows : List α) (back : α → α → Prop)
    (undone : ∀ row ∈ rows, back row (undo (work row)))
    (hfailed : ∀ row ∈ rows, back row (failed row)) (behind : ∀ row ∈ rows, back row (skip row)) :
    Ensures (Eider.Lib.sweep (failAt fails error failed work) undo skip) rows
      (fun _ after => after = rows.map work ∧ ∀ i < rows.length, fails i = false)
      (fun e after => List.Forall₂ back rows after ∧ e = error ∧
        ∃ i < rows.length, fails i = true) := by
  have hsweep := Ensures.sweep (failAt fails error failed work) undo skip rows id work back
    (fun i _ => fails i = false) (fun i _ e => fails i = true ∧ e = error)
    (by
      intro i row hrow
      refine (failAt_cases fails error failed work i row).imp id fun h => ?_
      exact ⟨_, _, h.1, hfailed row hrow, h.2, rfl⟩)
    undone behind
  rw [map_id] at hsweep
  refine hsweep.mono ?_ ?_
  · rintro _ after ⟨hafter, hclear⟩
    exact ⟨hafter, fun i hi => hclear i _ (getElem?_eq_getElem hi)⟩
  · rintro e after ⟨hrows, i, row, hget, hfails, herror⟩
    exact ⟨hrows, herror, i, (List.getElem?_eq_some_iff.mp hget).1, hfails⟩

/-- A pass that fails holds what its failed step made of a row. -/
theorem sweepFrom_failAt_failed (error : ε) (failed work : α → α) (e : ε)
    (rows : List α) (index : Nat)
    (h : (sweepFrom (failAt fails error failed work) undo skip index rows).2 = .error e) :
    ∃ row ∈ rows,
      failed row ∈ (sweepFrom (failAt fails error failed work) undo skip index rows).1 := by
  induction rows generalizing index with
  | nil => cases h
  | cons row rows ih =>
    have hrest := ih (index + 1)
    rw [sweepFrom] at h ⊢
    obtain ⟨hstep, -⟩ | ⟨hstep, -⟩ := failAt_cases fails error failed work index row
    · simp only [hstep] at h ⊢
      generalize sweepFrom (failAt fails error failed work) undo skip (index + 1) rows = rest
        at h hrest ⊢
      obtain ⟨after, result⟩ := rest
      cases result with
      | ok _ => cases h
      | error e' =>
        obtain ⟨row', hrow', hmem⟩ := hrest h
        exact ⟨row', mem_cons_of_mem _ hrow', mem_cons_of_mem _ hmem⟩
    · simp only [hstep]
      exact ⟨row, mem_cons_self, mem_cons_self⟩

protected theorem Ensures.onError {σ : Type} {m : EStateM ε σ γ} {undo' : σ → σ × Option ε} {s : σ}
    {P : γ → σ → Prop} {E E' : ε → σ → Prop} (h : Ensures m s P E)
    (back : ∀ e t, E e t → E' ((undo' t).2.getD e) (undo' t).1) :
    Ensures (Eider.Lib.onError m undo') s P E' := by
  unfold Ensures Eider.Lib.onError at *
  cases hm : m s with
  | ok a t =>
    rw [hm] at h
    exact h
  | error e t =>
    rw [hm] at h
    exact back e t h

theorem Ensures.overRows {get : β → α} {put : β → α → β} {m : EStateM ε (List α) γ}
    {rows : List β} {P : γ → List β → Prop} {E : ε → List β → Prop}
    (h : Ensures m (rows.map get) (fun c after => P c (List.zipWith put rows after))
      fun e after => E e (List.zipWith put rows after)) :
    Ensures (Eider.Lib.overRows get put m) rows P E := by
  unfold Ensures Eider.Lib.overRows at *
  cases hm : m (rows.map get) with
  | ok a t =>
    rw [hm] at h
    exact h
  | error e t =>
    rw [hm] at h
    exact h

/-- A relation of rows and their new parts, read on the rows that hold them. -/
theorem forall₂_zipWith (put : β → α → γ) {R : β → α → Prop} {rows : List β} {parts : List α}
    (h : List.Forall₂ R rows parts) :
    List.Forall₂ (fun row row' => ∃ part, R row part ∧ row' = put row part) rows
      (List.zipWith put rows parts) := by
  induction h with
  | nil => exact .nil
  | cons hhead _ ih => exact .cons ⟨_, hhead, rfl⟩ ih

theorem zipWith_put_map {get : β → α} {put : β → α → β} (f : α → α) (rows : List β) :
    List.zipWith put rows ((rows.map get).map f) = rows.map fun row => put row (f (get row)) := by
  induction rows with
  | nil => rfl
  | cons row rows ih => simp only [map_cons, zipWith_cons_cons, ih]

end

end Eider.Lib
