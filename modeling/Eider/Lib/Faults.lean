import Eider.Lib.Ensures
import Mathlib.Data.List.Basic

/-!
# Programs in which one call fails

`reach` is a call that may fail and leaves the state alone, `check` a check that ends the
program, and `orUndo` a program whose failure is answered by another one. `only failing` is the
oracle by which no call fails but the given one. Each has its rule for `Ensures`.
-/
namespace Eider.Lib.Faults

variable {ε σ α ι : Type}

/-- A call that may fail and leaves the state. -/
def reach (fails : Bool) (error : ε) : EStateM ε σ Unit :=
  if fails then throw error else pure ()

/-- A check that ends the program. -/
def check (result : Except ε Unit) : EStateM ε σ Unit :=
  match result with
  | .ok () => pure ()
  | .error e => throw e

/-- A program whose failure is followed by `undo`, which may fail itself. -/
def orUndo (m : EStateM ε σ α) (undo : EStateM ε σ Unit) : EStateM ε σ α :=
  tryCatch m fun e => do
    undo
    throw e

/-- The oracle of a single failing call. -/
def only [DecidableEq ι] (failing : Option ι) (call : ι) : Bool := decide (failing = some call)

theorem only_eq_true [DecidableEq ι] {failing : Option ι} {call : ι} :
    only failing call = true ↔ failing = some call := by
  exact decide_eq_true_iff

theorem only_eq_false [DecidableEq ι] {failing : Option ι} {call : ι} :
    only failing call = false ↔ failing ≠ some call := by
  exact decide_eq_false_iff_not

end Eider.Lib.Faults

namespace Eider.Lib.Ensures
variable {ε σ α : Type} {s : σ} {m : EStateM ε σ α} {undo : EStateM ε σ Unit}
variable {P : α → σ → Prop} {E E' : ε → σ → Prop}

theorem reach (fails : Bool) (error : ε) (s : σ) :
    Ensures (Faults.reach fails error) s (fun _ t => t = s ∧ fails = false)
      (fun _ t => t = s ∧ fails = true) := by
  cases fails
  · exact ⟨rfl, rfl⟩
  · exact ⟨rfl, rfl⟩

theorem reach_bind {β : Type} {fails : Bool} {error : ε} {f : Unit → EStateM ε σ β}
    {Q : β → σ → Prop} (failed : fails = true → E error s)
    (rest : fails = false → Ensures (f ()) s Q E) :
    Ensures (Faults.reach fails error >>= f) s Q E := by
  cases fails with
  | true => exact failed rfl
  | false => exact rest rfl

theorem check_bind {β : Type} {result : Except ε Unit} {f : Unit → EStateM ε σ β}
    {Q : β → σ → Prop} (rejected : ∀ e, result = .error e → E e s)
    (rest : result = .ok () → Ensures (f ()) s Q E) :
    Ensures (Faults.check result >>= f) s Q E := by
  cases result with
  | ok _ => exact rest rfl
  | error e => exact rejected e rfl

theorem orUndo (h : Ensures m s P E) (undone : ∀ e t, E e t → Ensures undo t (fun _ => E' e) E') :
    Ensures (Faults.orUndo m undo) s P E' := by
  refine h.tryCatch fun e t ht => (undone e t ht).bind fun _ t' ht' => ?_
  exact ht'

end Eider.Lib.Ensures
