import Mathlib.Data.List.Basic

/-!
Greedy decoding and greedy speculation. A target is a function `argmax` of the tokens before.
A list of tokens follows a context if the target would have chosen each of them. The drafts
that the target repeats, up to the first that it does not, follow the context, and the
target's choice behind them is the next token of the greedy continuation.

Tokens go to a sink, a machine that may end at a token. Pouring tokens that follow the context
into the sink is the first part of the greedy stream.
-/
namespace Eider.Lib.Greedy
open List

variable {τ σ ρ : Type} (argmax : List τ → τ)

/-- Each token is the target's choice behind those before. -/
def Follows : List τ → List τ → Prop
  | _, [] => True
  | context, token :: tokens => token = argmax context ∧ Follows (context ++ [token]) tokens

/-- The target's choices behind the context and behind each draft. -/
def targets : List τ → List τ → List τ
  | context, [] => [argmax context]
  | context, draft :: drafts => argmax context :: targets (context ++ [draft]) drafts

theorem targets_eq_map (context drafts : List τ) :
    targets argmax context drafts =
      (List.range (drafts.length + 1)).map fun row => argmax (context ++ drafts.take row) := by
  induction drafts generalizing context with
  | nil => simp [targets]
  | cons draft drafts ih =>
    rw [targets, ih, length_cons, range_succ_eq_map (n := drafts.length + 1), map_cons, map_map]
    simp [Function.comp_def]

/-- How many drafts the target repeats before the first that it does not. -/
def accepted [DecidableEq τ] (drafts choices : List τ) : Nat :=
  ((drafts.zip choices).takeWhile fun pair => pair.1 = pair.2).length

section
variable [DecidableEq τ]

theorem accepted_cons (draft choice : τ) (drafts choices : List τ) :
    accepted (draft :: drafts) (choice :: choices) =
      if draft = choice then accepted drafts choices + 1 else 0 := by
  unfold accepted
  by_cases h : draft = choice <;> simp [h]

theorem accepted_le (drafts choices : List τ) : accepted drafts choices ≤ drafts.length := by
  have htake := (takeWhile_sublist (l := drafts.zip choices)
    fun pair => decide (pair.1 = pair.2)).length_le
  rw [length_zip] at htake
  unfold accepted
  omega

theorem follows_accepted (context drafts : List τ) :
    Follows argmax context (drafts.take (accepted drafts (targets argmax context drafts))) := by
  induction drafts generalizing context with
  | nil => simp [Follows]
  | cons draft drafts ih =>
    rw [targets, accepted_cons]
    split
    · rename_i h
      exact ⟨h, ih (context ++ [draft])⟩
    · trivial

theorem targets_accepted (context drafts : List τ) :
    (targets argmax context drafts)[accepted drafts (targets argmax context drafts)]? =
      some (argmax (context ++ drafts.take (accepted drafts (targets argmax context drafts)))) := by
  have hle := accepted_le drafts (targets argmax context drafts)
  generalize accepted drafts (targets argmax context drafts) = count at hle
  rw [targets_eq_map, getElem?_map, getElem?_range (by omega)]
  rfl

end

/-! ## Streams -/

section
variable (sink : σ → τ → σ × Option ρ)

/-- Tokens until one ends the sink: those that were taken, the sink behind them, and why. -/
def pour : List τ → σ → List τ × σ × Option ρ
  | [], s => ([], s, none)
  | token :: tokens, s =>
    match sink s token with
    | (s', some reason) => ([token], s', some reason)
    | (s', none) =>
      let rest := pour tokens s'
      (token :: rest.1, rest.2)

attribute [grind =] pour

/-- The greedy stream of at most `budget` tokens. -/
def stream : Nat → List τ → σ → List τ × σ × Option ρ
  | 0, _, s => ([], s, none)
  | budget + 1, context, s =>
    let token := argmax context
    match sink s token with
    | (s', some reason) => ([token], s', some reason)
    | (s', none) =>
      let rest := stream budget (context ++ [token]) s'
      (token :: rest.1, rest.2)

/-- A stream that goes on where the sink was left. -/
def continued (poured : List τ × σ × Option ρ) (rest : List τ × σ × Option ρ) :
    List τ × σ × Option ρ :=
  match poured.2.2 with
  | some _ => poured
  | none => (poured.1 ++ rest.1, rest.2)

theorem stream_follows (tokens : List τ) (budget : Nat) (context : List τ) (s : σ)
    (h : Follows argmax context tokens) :
    stream argmax sink (tokens.length + budget) context s =
      continued (pour sink tokens s)
        (stream argmax sink budget (context ++ tokens) (pour sink tokens s).2.1) := by
  induction tokens generalizing context s with
  | nil => simp [pour, continued]
  | cons token tokens ih =>
    obtain ⟨rfl, hrest⟩ := h
    rw [length_cons, Nat.add_right_comm, stream, pour]
    cases hsink : sink s (argmax context) with
    | mk s' reason =>
      cases reason with
      | some reason => simp [continued]
      | none =>
        simp only [ih _ s' hrest, append_assoc, singleton_append]
        unfold continued
        cases (pour sink tokens s').2.2 <;> simp

theorem pour_none (tokens : List τ) (s : σ) (h : (pour sink tokens s).2.2 = none) :
    (pour sink tokens s).1 = tokens := by
  induction tokens generalizing s with
  | nil => rfl
  | cons token tokens ih =>
    rw [pour] at h ⊢
    cases hsink : sink s token with
    | mk s' reason =>
      cases reason with
      | some reason => simp [hsink] at h
      | none =>
        simp only [hsink] at h ⊢
        rw [ih s' h]

theorem stream_add (budget more : Nat) (context : List τ) (s : σ)
    (h : (stream argmax sink budget context s).2.2 ≠ none) :
    stream argmax sink (budget + more) context s = stream argmax sink budget context s := by
  induction budget generalizing context s with
  | zero => exact absurd rfl h
  | succ budget ih =>
    rw [Nat.add_right_comm, stream]
    rw [stream] at h ⊢
    cases hsink : sink s (argmax context) with
    | mk s' reason =>
      cases reason with
      | some reason => rfl
      | none =>
        simp only [hsink] at h ⊢
        rw [ih _ s' h]

theorem stream_ends (left : σ → Nat)
    (hsink : ∀ s token s', 0 < left s → sink s token = (s', none) → 0 < left s' ∧ left s' < left s)
    (budget : Nat) (context : List τ) (s : σ) (hleft : 0 < left s ∧ left s ≤ budget) :
    (stream argmax sink budget context s).2.2 ≠ none := by
  induction budget generalizing context s with
  | zero => omega
  | succ budget ih =>
    rw [stream]
    cases hstep : sink s (argmax context) with
    | mk s' reason =>
      cases reason with
      | some reason => simp
      | none =>
        have hcloser := hsink s _ s' hleft.1 hstep
        exact ih (context ++ [argmax context]) s' (by omega)

theorem pour_cons_length (token : τ) (tokens : List τ) (s : σ) :
    0 < (pour sink (token :: tokens) s).1.length := by
  rw [pour]
  cases hsink : sink s token with
  | mk s' reason => cases reason <;> simp

end

end Eider.Lib.Greedy
