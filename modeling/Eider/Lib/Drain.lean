import Mathlib.Data.List.Basic

/-!
# Machines that drain a buffer step by step

A `Machine` repeats a step while the step reports progress. Input arrives
through `feed`, which appends to the buffer inside the state. When every single
step commutes with feeding (`Commutes`), draining after each chunk and draining
once after the whole input end in the same state, fail alike, and emit the same
observations: `drainAll_eq`.

Outputs are compared through `atoms`, the letters an output list amounts to, so
that one output may be cut into several without changing what is observed.
-/
namespace Eider.Lib.Drain
open Prod

variable {σ ε ω ι κ : Type*}

/-- One step returns the next state, its outputs and whether it progressed. -/
structure Machine (σ ε ω : Type*) where
  step : σ → Except ε (σ × List ω × Bool)
  size : σ → Nat
  decreases : ∀ {s t : σ} {out : List ω}, step s = .ok (t, out, true) → size t < size s

namespace Machine

variable (M : Machine σ ε ω)

/-- Repeats the step at most `fuel` times. -/
def run : Nat → σ → Except ε (σ × List ω)
  | 0, s => .ok (s, [])
  | fuel + 1, s =>
    match M.step s with
    | .error e => .error e
    | .ok (t, out, false) => .ok (t, out)
    | .ok (t, out, true) => (run fuel t).map fun r => (r.1, out ++ r.2)

/-- Repeats the step until it reports no progress. -/
def drain (s : σ) : Except ε (σ × List ω) := M.run (M.size s + 1) s

variable {s : σ}

theorem run_eq_of_size_lt {fuel₁ fuel₂ : Nat} (h₁ : M.size s < fuel₁)
    (h₂ : M.size s < fuel₂) : M.run fuel₁ s = M.run fuel₂ s := by
  induction fuel₁ generalizing fuel₂ s with
  | zero => omega
  | succ n ih =>
    obtain ⟨m, rfl⟩ : ∃ m, fuel₂ = m + 1 := ⟨fuel₂ - 1, by omega⟩
    rw [run, run]
    cases hs : M.step s with
    | error e => rfl
    | ok r =>
      obtain ⟨t, out, b⟩ := r
      cases b with
      | false => rfl
      | true =>
        have hlt := M.decreases hs
        simp only
        rw [ih (by omega) (show M.size t < m by omega)]

/-- Prefixes the outputs of a result. -/
def emit (out : List ω) (r : Except ε (σ × List ω)) : Except ε (σ × List ω) :=
  r.map fun r => (r.1, out ++ r.2)

theorem drain_eq (s : σ) :
    M.drain s =
      match M.step s with
      | .error e => .error e
      | .ok (t, out, false) => .ok (t, out)
      | .ok (t, out, true) => emit out (M.drain t) := by
  rw [drain, run]
  cases hs : M.step s with
  | error e => rfl
  | ok r =>
    obtain ⟨t, out, b⟩ := r
    cases b with
    | false => rfl
    | true =>
      have hlt := M.decreases hs
      simp only [emit, drain]
      rw [M.run_eq_of_size_lt hlt (Nat.lt_succ_self _)]

variable (feed : σ → List ι → σ) (atoms : ω → List κ)

/-- What is observed of a result: the final state and the letters emitted. -/
def observe (r : Except ε (σ × List ω)) : Except ε (σ × List κ) :=
  r.map fun r => (r.1, r.2.flatMap atoms)

/-- In the states of an invariant, every step, progressing or not, may be taken
before or after more input. -/
structure Commutes (Inv : σ → Prop) : Prop where
  feed_inv : ∀ {s : σ} (input : List ι), Inv s → Inv (feed s input)
  step_inv : ∀ {s t : σ} {out : List ω} {b : Bool}, Inv s → M.step s = .ok (t, out, b) → Inv t
  error : ∀ {s : σ} {e : ε} (input : List ι), Inv s → M.step s = .error e →
    M.drain (feed s input) = .error e
  ok : ∀ {s t : σ} {out : List ω} {b : Bool} (input : List ι), Inv s →
    M.step s = .ok (t, out, b) →
    observe atoms (M.drain (feed s input)) = observe atoms (emit out (M.drain (feed t input)))

/-- Continues a result with more input. -/
def andThen (r : Except ε (σ × List ω)) (input : List ι) : Except ε (σ × List ω) :=
  match r with
  | .error e => .error e
  | .ok (s, out) => emit out (M.drain (feed s input))

theorem observe_emit (out : List ω) (r : Except ε (σ × List ω)) :
    observe atoms (emit out r) =
      (observe atoms r).map fun p => (p.1, out.flatMap atoms ++ p.2) := by
  cases r with
  | error e => rfl
  | ok p => simp [observe, emit, Except.map]

theorem emit_emit (out out' : List ω) (r : Except ε (σ × List ω)) :
    emit out (emit out' r) = emit (out ++ out') r := by
  cases r with
  | error e => rfl
  | ok p => simp [emit, Except.map]

theorem drain_of_error {e : ε} (h : M.step s = .error e) : M.drain s = .error e := by
  rw [M.drain_eq, h]

variable {out : List ω} {t : σ}

theorem drain_of_progress (h : M.step s = .ok (t, out, true)) :
    M.drain s = emit out (M.drain t) := by
  rw [M.drain_eq, h]

theorem drain_of_stop (h : M.step s = .ok (t, out, false)) : M.drain s = .ok (t, out) := by
  rw [M.drain_eq, h]

theorem drain_congr (h : M.step s = M.step t) : M.drain s = M.drain t := by
  rw [M.drain_eq s, M.drain_eq t, h]

/-- Draining does not see what the step does not see: states with one reading `f` drain to
states with one reading, with the same outputs and the same error. -/
theorem drain_reading {τ : Type*} {f : σ → τ} (step_reading : ∀ {s s' : σ}, f s = f s' →
      (M.step s).map (map f id) = (M.step s').map (map f id)) {s' : σ} (h : f s = f s') :
    (M.drain s).map (map f id) = (M.drain s').map (map f id) := by
  induction hn : M.size s using Nat.strongRecOn generalizing s s' with
  | ind n ih =>
    subst hn
    have hsteps := step_reading h
    rw [M.drain_eq s, M.drain_eq s']
    cases hleft : M.step s with
    | error e =>
      rw [hleft] at hsteps
      cases hright : M.step s' with
      | error e' =>
        rw [hright] at hsteps
        cases hsteps
        rfl
      | ok r =>
        rw [hright] at hsteps
        cases hsteps
    | ok r =>
      rw [hleft] at hsteps
      cases hright : M.step s' with
      | error e' =>
        rw [hright] at hsteps
        cases hsteps
      | ok r' =>
        rw [hright] at hsteps
        obtain ⟨t, out, b⟩ := r
        obtain ⟨t', out', b'⟩ := r'
        simp only [Except.map, Except.ok.injEq, map_apply, id_eq, Prod.mk.injEq] at hsteps
        obtain ⟨hread, rfl, rfl⟩ := hsteps
        cases b with
        | false => simp only [Except.map, map_apply, hread]
        | true =>
          have hrest := ih _ (M.decreases hleft) hread rfl
          have hemit : ∀ r : Except ε (σ × List ω), (emit out r).map (map f id) =
              (r.map (map f id)).map fun p => (p.1, out ++ p.2) := by
            intro r
            cases r with
            | error e => rfl
            | ok p => rfl
          exact (hemit _).trans ((congrArg _ hrest).trans (hemit _).symm)

/-- An induction over the steps of a draining that returns. -/
theorem drain_rec {R : σ → List ω → σ → Prop}
    (stop : ∀ {s t : σ} {out : List ω}, M.step s = .ok (t, out, false) → R s out t)
    (more : ∀ {s u t : σ} {out rest : List ω}, M.step s = .ok (u, out, true) → R u rest t →
      R s (out ++ rest) t) (h : M.drain s = .ok (t, out)) : R s out t := by
  induction hn : M.size s using Nat.strongRecOn generalizing s out with
  | ind n ih =>
    subst hn
    rw [M.drain_eq s] at h
    cases hstep : M.step s with
    | error e => rw [hstep] at h; cases h
    | ok r =>
      obtain ⟨u, out', b⟩ := r
      rw [hstep] at h
      cases b with
      | false =>
        obtain ⟨rfl, rfl⟩ := h
        exact stop hstep
      | true =>
        simp only [emit] at h
        cases hd : M.drain u with
        | error e => rw [hd] at h; cases h
        | ok q =>
          rw [hd] at h
          obtain ⟨rfl, rfl⟩ := h
          exact more hstep (ih _ (M.decreases hstep) hd rfl)

theorem drain_inv {Inv : σ → Prop}
    (step_inv : ∀ {s t : σ} {out : List ω} {b : Bool}, Inv s → M.step s = .ok (t, out, b) → Inv t) (hs : Inv s) (h : M.drain s = .ok (t, out)) : Inv t :=
  M.drain_rec (R := fun s _ t => Inv s → Inv t) (fun hstep hs => step_inv hs hstep)
    (fun hstep ih hs => ih (step_inv hs hstep)) h hs

theorem drain_outputs {P : ω → Prop}
    (step_outputs : ∀ {s t : σ} {out : List ω} {b : Bool}, M.step s = .ok (t, out, b) →
      ∀ w ∈ out, P w) (h : M.drain s = .ok (t, out)) : ∀ w ∈ out, P w :=
  M.drain_rec (R := fun _ out _ => ∀ w ∈ out, P w) step_outputs
    (fun hstep ih => List.forall_mem_append.mpr ⟨step_outputs hstep, ih⟩) h

/-- The states in which draining takes a step. -/
inductive Visits : σ → σ → Prop where
  | here (s : σ) : Visits s s
  | later {s t u : σ} {out : List ω} (progressed : M.step s = .ok (t, out, true))
      (rest : Visits t u) : Visits s u

/-- When every step's outputs satisfy `P` exactly if its state satisfies `Q`, the
outputs of draining do exactly if every visited state does. -/
theorem drain_outputs_iff {Inv : σ → Prop} {P : ω → Prop} {Q : σ → Prop}
    (step_inv : ∀ {s t : σ} {out : List ω} {b : Bool}, Inv s → M.step s = .ok (t, out, b) → Inv t)
    (step_outputs : ∀ {s t : σ} {out : List ω} {b : Bool}, Inv s → M.step s = .ok (t, out, b) →
      ((∀ w ∈ out, P w) ↔ Q s)) (hs : Inv s) (h : M.drain s = .ok (t, out)) :
    (∀ w ∈ out, P w) ↔ ∀ u, M.Visits s u → Q u := by
  refine M.drain_rec (R := fun s out _ => Inv s → ((∀ w ∈ out, P w) ↔ ∀ u, M.Visits s u → Q u))
    (fun hstep hs => ?_) (fun hstep ih hs => ?_) h hs
  · rw [step_outputs hs hstep]
    constructor
    · intro hq v hv
      cases hv with
      | here => exact hq
      | later progressed rest => rw [hstep] at progressed; cases progressed
    · exact fun hall => hall _ (.here _)
  · rw [List.forall_mem_append, step_outputs hs hstep, ih (step_inv hs hstep)]
    constructor
    · rintro ⟨hq, hall⟩ v hv
      cases hv with
      | here => exact hq
      | later progressed rest =>
        rw [hstep] at progressed
        cases progressed
        exact hall v rest
    · exact fun hall => ⟨hall _ (.here _), fun v hv => hall v (.later hstep hv)⟩

variable {feed atoms} {Inv : σ → Prop}

/-- Draining before more input arrives does not change what is observed. -/
theorem Commutes.drain_feed {M : Machine σ ε ω} (h : M.Commutes feed atoms Inv) (hs : Inv s)
    (input : List ι) :
    observe atoms (M.drain (feed s input)) =
      observe atoms (M.andThen feed (M.drain s) input) := by
  induction hn : M.size s using Nat.strongRecOn generalizing s with
  | ind n ih =>
    subst hn
    rw [M.drain_eq s]
    cases hstep : M.step s with
    | error e => simp only [andThen, h.error input hs hstep]
    | ok r =>
      obtain ⟨t, out, b⟩ := r
      rw [h.ok input hs hstep]
      cases b with
      | false => rfl
      | true =>
        -- the rest of the draining is covered by the induction hypothesis at `t`
        have hrest := ih _ (M.decreases hstep) (h.step_inv hs hstep) rfl
        rw [observe_emit, hrest]
        simp only
        cases M.drain t with
        | error e => rfl
        | ok p =>
          simp only [andThen, emit, Except.map]
          cases M.drain (feed p.1 input) with
          | error e => rfl
          | ok q => simp [observe, Except.map]

variable (feed)

/-- Draining after every chunk. -/
def drainAll (s : σ) : List (List ι) → Except ε (σ × List ω)
  | [] => .ok (s, [])
  | chunk :: rest =>
    match M.drain (feed s chunk) with
    | .error e => .error e
    | .ok (t, out) => emit out (drainAll t rest)

variable {feed}

/-- Cutting the input into chunks does not change what is observed, once the
machine has drained what it held before. -/
theorem Commutes.drainAll_eq {M : Machine σ ε ω} (h : M.Commutes feed atoms Inv)
    (feed_append : ∀ s a b, feed (feed s a) b = feed s (a ++ b)) (hs : Inv s)
    (chunks : List (List ι)) (first : List ι) :
    observe atoms (M.drainAll feed s (first :: chunks)) =
      observe atoms (M.drain (feed s (first ++ chunks.flatten))) := by
  induction chunks generalizing first with
  | nil =>
    simp only [drainAll, List.flatten_nil, List.append_nil]
    cases M.drain (feed s first) with
    | error e => rfl
    | ok r => simp [emit, Except.map]
  | cons chunk rest ih =>
    rw [List.flatten_cons, ← List.append_assoc, ← ih (first ++ chunk), drainAll, drainAll,
      ← feed_append]
    have hcut := h.drain_feed (h.feed_inv first hs) chunk
    cases hd : M.drain (feed s first) with
    | error e =>
      rw [hd] at hcut
      cases hd' : M.drain (feed (feed s first) chunk) with
      | error e' => rw [hd'] at hcut; simpa [observe, andThen, Except.map] using hcut.symm
      | ok r => rw [hd'] at hcut; cases hcut
    | ok r =>
      obtain ⟨t, out⟩ := r
      rw [hd] at hcut
      simp only [andThen] at hcut
      simp only [drainAll]
      cases hd' : M.drain (feed (feed s first) chunk) with
      | error e' =>
        rw [hd'] at hcut
        cases hd'' : M.drain (feed t chunk) with
        | error e'' => rw [hd''] at hcut; simpa [observe, emit, Except.map] using hcut.symm
        | ok q => rw [hd''] at hcut; cases hcut
      | ok p =>
        rw [hd'] at hcut
        cases hd'' : M.drain (feed t chunk) with
        | error e'' => rw [hd''] at hcut; cases hcut
        | ok q =>
          obtain ⟨v, out''⟩ := q
          rw [hd''] at hcut
          simp only [observe, emit, Except.map, Except.ok.injEq, Prod.mk.injEq] at hcut
          obtain ⟨rfl, hout⟩ := hcut
          simp only [emit_emit, observe_emit, hout]

end Machine

end Eider.Lib.Drain
