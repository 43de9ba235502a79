import Eider.Lib.Stays

/-!
# Programs that hold a thing

A program over `Holding σ ρ` works on a state and on a thing that it borrows beside it.
`onState` runs a program on the state alone, `setHeld` replaces the thing. `lend` runs such a
program with a thing and gives the thing back together with the result: an error that `caught`
takes is part of the result, any other error goes on.
-/
namespace Eider.Lib.Lending

variable {ε δ σ ρ α : Type}

/-- A state, and a thing beside it. -/
structure Holding (σ ρ : Type) where
  state : σ
  held : ρ

/-- A program on the state alone. -/
def onState (m : EStateM ε σ α) : EStateM ε (Holding σ ρ) α := fun h =>
  match m h.state with
  | .ok a s => .ok a { h with state := s }
  | .error e s => .error e { h with state := s }

def setHeld (held : ρ) : EStateM ε (Holding σ ρ) PUnit := modify fun h => { h with held := held }

/-- Runs a program with what it borrows, and gives that back with the result. -/
def lend (caught : ε → Option δ) (held : ρ) (m : EStateM ε (Holding σ ρ) α) :
    EStateM ε σ (ρ × Except δ α) := fun s =>
  match m ⟨s, held⟩ with
  | .ok a h => .ok (h.held, .ok a) h.state
  | .error e h => match caught e with
    | some d => .ok (h.held, .error d) h.state
    | none => .error e h.state

end Eider.Lib.Lending

namespace Eider.Lib.Ensures
open Lib.Lending

variable {ε δ σ ρ α β : Type}

theorem onState {m : EStateM ε σ α} {h : Holding σ ρ} {P : α → σ → Prop} {E : ε → σ → Prop}
    (hm : Ensures m h.state P E) :
    Ensures (Lending.onState m) h (fun a t => P a t.state ∧ t.held = h.held)
      (fun e t => E e t.state ∧ t.held = h.held) := by
  unfold Ensures Lending.onState at *
  cases hrun : m h.state with
  | ok a s =>
    rw [hrun] at hm
    exact ⟨hm, rfl⟩
  | error e s =>
    rw [hrun] at hm
    exact ⟨hm, rfl⟩

end Eider.Lib.Ensures

namespace Eider.Lib.Lending

variable {ε δ σ ρ α β : Type} {P : σ → Prop} {R : ρ → Prop} {m : EStateM ε (Holding σ ρ) α}
variable {held : ρ}

/-- A state within `P`, and a thing within `R`. -/
def Beside (P : σ → Prop) (R : ρ → Prop) (h : Holding σ ρ) : Prop := P h.state ∧ R h.held

theorem onState_stays {m : EStateM ε σ α} (h : Stays P m) :
    Stays (Beside P R) (onState m : EStateM ε (Holding σ ρ) α) := by
  intro t ht
  refine ((h t.state ht.1).onState).mono (fun _ u hu => ⟨hu.1, ?_⟩) fun _ u hu => ⟨hu.1, ?_⟩
  · rw [hu.2]
    exact ht.2
  · rw [hu.2]
    exact ht.2

theorem setHeld_stays (h : R held) :
    Stays (Beside P R) (setHeld held : EStateM ε (Holding σ ρ) PUnit) :=
  .modify fun _ hs => ⟨hs.1, h⟩

theorem setHeld_bind {f : PUnit → EStateM ε (Holding σ ρ) β} (h : R held)
    (rest : Stays (Beside P R) (f ⟨⟩)) : Stays (Beside P R) (setHeld held >>= f) :=
  (setHeld_stays h).bind fun _ => rest

theorem lend_returns {caught : ε → Option δ} {s : σ}
    (h : Ensures m ⟨s, held⟩ (fun _ => Beside P R) fun _ => Beside P R) :
    Ensures (lend caught held m) s (fun result t => P t ∧ R result.1) fun _ => P := by
  unfold Ensures lend at *
  cases hrun : m ⟨s, held⟩ with
  | ok a t =>
    rw [hrun] at h
    exact h
  | error e t =>
    rw [hrun] at h
    dsimp only
    cases caught e with
    | some d => exact h
    | none => exact h.1

theorem lend_stays {caught : ε → Option δ}
    (hheld : R held) (h : Stays (Beside P R) m) : Stays P (lend caught held m) :=
  fun s hs => (lend_returns (h ⟨s, held⟩ ⟨hs, hheld⟩)).mono (fun _ _ ht => ht.1) fun _ _ ht => ht

end Eider.Lib.Lending
