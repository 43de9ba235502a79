import Mathlib.Logic.Basic

/-!
# Programs over a state that survives errors

`Ensures m s returns fails` says how a program `m` ends from the state `s`: with a value
and a state in `returns`, or with an error and a state in `fails`. The rules follow the
program: sequencing, reading and writing the state, loops over lists.
-/
namespace Eider.Lib

variable {ε σ α β : Type}

/-- From `s`, the program returns within `returns` or fails within `fails`. -/
def Ensures (m : EStateM ε σ α) (s : σ) (returns : α → σ → Prop) (fails : ε → σ → Prop) : Prop :=
  match m s with
  | .ok a t => returns a t
  | .error e t => fails e t

namespace Ensures
variable {m : EStateM ε σ α} {f : α → EStateM ε σ β} {s : σ}
variable {P P' : α → σ → Prop} {Q : β → σ → Prop} {E E' : ε → σ → Prop}

section
variable (h : Ensures m s P E)
include h

protected theorem mono (returns : ∀ a t, P a t → P' a t)
    (fails : ∀ e t, E e t → E' e t) : Ensures m s P' E' := by
  unfold Ensures at h ⊢
  split at h
  · exact returns _ _ h
  · exact fails _ _ h

/-- The postcondition of a value is weakened. -/
protected theorem imp (returns : ∀ a t, P a t → P' a t) : Ensures m s P' E :=
  h.mono returns fun _ _ he => he

instance [∀ a t, Decidable (P a t)] [∀ e t, Decidable (E e t)] : Decidable (Ensures m s P E) :=
  match h : m s with
  | .ok a t => decidable_of_iff (P a t) (by rw [Ensures, h])
  | .error e t => decidable_of_iff (E e t) (by rw [Ensures, h])

/-- Two readings of one program. -/
protected theorem and (h' : Ensures m s P' E') :
    Ensures m s (fun a t => P a t ∧ P' a t) (fun e t => E e t ∧ E' e t) := by
  unfold Ensures at *
  cases hm : m s with
  | ok a t =>
    rw [hm] at h h'
    exact ⟨h, h'⟩
  | error e t =>
    rw [hm] at h h'
    exact ⟨h, h'⟩

omit h in
/-- Every program ends somehow. -/
protected theorem trivial : Ensures m s (fun _ _ => True) (fun _ _ => True) := by
  unfold Ensures
  split <;> exact True.intro

omit h in
/-- A program that is known to return. -/
protected theorem of_ok {a : α} {t : σ} (h : m s = .ok a t) (hP : P a t) : Ensures m s P E := by
  unfold Ensures
  rw [h]
  exact hP

protected theorem bind (rest : ∀ a t, P a t → Ensures (f a) t Q E) : Ensures (m >>= f) s Q E := by
  unfold Ensures at h ⊢
  change match EStateM.bind m f s with
    | .ok a t => Q a t
    | .error e t => E e t
  unfold EStateM.bind
  split at h
  · rename_i a t heq
    rw [heq]
    exact rest a t h
  · rename_i e t heq
    rw [heq]
    exact h

theorem bind_run
    (rest : ∀ a t, m s = .ok a t → P a t → Ensures (f a) t Q E) : Ensures (m >>= f) s Q E := by
  have hrun : Ensures m s (fun a t => m s = .ok a t ∧ P a t) E := by
    unfold Ensures at h ⊢
    split at h
    · rename_i heq
      exact ⟨heq, h⟩
    · exact h
  exact hrun.bind fun a t ht => rest a t ht.1 ht.2

omit h in
/-- Sequencing where the first part fails within less. -/
protected theorem bind_mono (h : Ensures m s P E') (fails : ∀ e t, E' e t → E e t)
    (rest : ∀ a t, P a t → Ensures (f a) t Q E) : Ensures (m >>= f) s Q E :=
  (h.mono (fun _ _ h => h) fails).bind rest

omit h in
protected theorem pure {a : α} (h : P a s) : Ensures (Pure.pure a) s P E := h

omit h in
protected theorem throw {e : ε} (h : E e s) : Ensures (MonadExcept.throw e : EStateM ε σ α) s P E := h

/-- A handler takes over from where the program failed. -/
protected theorem tryCatch {handle : ε → EStateM ε σ α}
    (handled : ∀ e t, E e t → Ensures (handle e) t P E') :
    Ensures (MonadExcept.tryCatch m handle) s P E' := by
  unfold Ensures at h ⊢
  change match EStateM.tryCatch m handle s with
    | .ok a t => P a t
    | .error e t => E' e t
  unfold EStateM.tryCatch
  cases hm : m s with
  | ok a t =>
    rw [hm] at h
    exact h
  | error e t =>
    rw [hm] at h
    exact handled e t h

end

theorem get_bind {f : σ → EStateM ε σ β} (h : Ensures (f s) s Q E) :
    Ensures (MonadState.get >>= f) s Q E := h

variable {f : PUnit → EStateM ε σ β}

theorem set_bind {t : σ} (h : Ensures (f ⟨⟩) t Q E) :
    Ensures (MonadStateOf.set t >>= f) s Q E := h

theorem modify_bind {g : σ → σ} (h : Ensures (f ⟨⟩) (g s) Q E) :
    Ensures (modify g >>= f) s Q E := h

protected theorem modify {g : σ → σ} {P : PUnit → σ → Prop} (h : P ⟨⟩ (g s)) :
    Ensures (modify g : EStateM ε σ PUnit) s P E := h

protected theorem set {t : σ} {P : PUnit → σ → Prop} (h : P ⟨⟩ t) :
    Ensures (MonadStateOf.set t : EStateM ε σ PUnit) s P E := h

/-- A loop over a list, with what holds before the elements that are left. -/
protected theorem forM {γ : Type} {I : List γ → σ → Prop} {body : γ → EStateM ε σ PUnit} {xs : List γ}
    (step : ∀ x rest t, I (x :: rest) t → Ensures (body x) t (fun _ => I rest) E)
    (start : I xs s) : Ensures (xs.forM body) s (fun _ => I []) E := by
  induction xs generalizing s with
  | nil => exact start
  | cons x rest ih =>
    exact (step x rest s start).bind fun _ t ht => ih ht

end Ensures

end Eider.Lib
