import Eider.Lib.Ensures

/-!
# Programs that stay within a set of states

`Stays P m` says that the program `m` ends within `P` from every state of `P`, whether it
returns or fails. What a program does not write is kept this way: `P` fixes it. The rules
follow the program.
-/
namespace Eider.Lib

variable {ε σ α β γ : Type}

/-- From every state of `P` the program ends in `P`. -/
def Stays (P : σ → Prop) (m : EStateM ε σ α) : Prop :=
  ∀ s, P s → Ensures m s (fun _ => P) (fun _ => P)

namespace Stays
variable {P : σ → Prop} {m : EStateM ε σ α} {f : α → EStateM ε σ β}

theorem pure (a : α) : Stays P (Pure.pure a : EStateM ε σ α) := fun _ hs => hs

theorem throw (e : ε) : Stays P (MonadExcept.throw e : EStateM ε σ α) := fun _ hs => hs

theorem bind (h : Stays P m) (rest : ∀ a, Stays P (f a)) : Stays P (m >>= f) :=
  fun s hs => (h s hs).bind fun a t ht => rest a t ht

theorem get_bind {f : σ → EStateM ε σ β} (h : ∀ s, P s → Stays P (f s)) :
    Stays P (MonadState.get >>= f) :=
  fun s hs => Ensures.get_bind (h s hs s hs)

theorem set {t : σ} (h : P t) : Stays P (MonadStateOf.set t : EStateM ε σ PUnit) := fun _ _ => h

variable {f : PUnit → EStateM ε σ β}

theorem set_bind {t : σ} (h : P t) (rest : Stays P (f ⟨⟩)) :
    Stays P (MonadStateOf.set t >>= f) := bind (set h) fun _ => rest

theorem modify_bind {g : σ → σ} (h : ∀ s, P s → P (g s))
    (rest : Stays P (f ⟨⟩)) : Stays P (modify g >>= f) :=
  bind (fun s hs => h s hs) fun _ => rest

theorem modify {g : σ → σ} (h : ∀ s, P s → P (g s)) :
    Stays P (modify g : EStateM ε σ PUnit) := fun s hs => h s hs

theorem ite {c : Prop} [Decidable c] {m m' : EStateM ε σ α} (h : Stays P m) (h' : Stays P m') :
    Stays P (if c then m else m') := by
  split
  · exact h
  · exact h'

theorem forM {body : γ → EStateM ε σ PUnit} {xs : List γ} (h : ∀ x, Stays P (body x)) :
    Stays P (xs.forM body) := by
  induction xs with
  | nil => exact pure _
  | cons x rest ih => exact (h x).bind fun _ => ih

theorem mapM {body : γ → EStateM ε σ α} {xs : List γ} (h : ∀ x, Stays P (body x)) :
    Stays P (xs.mapM body) := by
  induction xs with
  | nil => exact pure _
  | cons x rest ih =>
    rw [List.mapM_cons]
    exact (h x).bind fun _ => ih.bind fun _ => pure _

theorem tryCatch {handle : ε → EStateM ε σ α} (h : Stays P m) (handled : ∀ e, Stays P (handle e)) :
    Stays P (MonadExcept.tryCatch m handle) :=
  fun s hs => (h s hs).tryCatch fun e t ht => handled e t ht

end Stays

end Eider.Lib
