import Eider.Source.TokenAppend

/-!
Failing calls of `forward_one` and `prefill` of BitNet and Bonsai. The pass is answered with
`abort_append`; the commit is not, so that its reservation stays open.
-/
namespace Eider.Guarantees.TokenAppend
open Lib Lib.Faults
open Source (CudaError CacheEntry)
open Source.TokenAppend

variable {κ : Type}

/-- No reservation is open, and state and cache stand at one position. -/
structure Settled (s : Sequence κ) : Prop where
  pending : s.entry.pending = none
  position : s.entry.rows.length = s.position

/-- The call advances the sequence by `count` tokens or leaves it as it was, and settles it. -/
def Keeps (call : Appending κ Unit) (s : Sequence κ) (count : Nat) : Prop :=
  match call s with
  | .ok () after => Settled after ∧ after.position = s.position + count
  | .error _ after => Settled after ∧ after.position = s.position ∧ after.entry.rows = s.entry.rows

variable {family : Family} {device : Device κ} {failing : Option Call} {s : Sequence κ}

/-- The call advanced the sequence and its commit did not fail. -/
def Advances (failing : Option Call) (s : Sequence κ) (count : Nat) (after : Sequence κ) : Prop :=
  (Settled after ∧ after.position = s.position + count) ∧ failing ≠ some .commitAppend

/-- The call left the sequence as it was, or its commit failed. -/
def Leaves (failing : Option Call) (s after : Sequence κ) : Prop :=
  (after = s ∧ failing ≠ some .commitAppend) ∨
    (after.entry.pending ≠ none ∧ failing = some .commitAppend)

theorem Settled.checked_keeps_iff (hsettled : Settled s)
    (checks : Sequence κ → Except CudaError Unit) {body : Appending κ Unit} {count : Nat}
    (hbody : Ensures body s (fun _ => Advances failing s count) fun _ => Leaves failing s) :
    Keeps (do
        check (checks (← get))
        body) s count ↔ ¬ (checks s = .ok () ∧ failing = some .commitAppend) := by
  have hcall : Ensures (do
        check (checks (← get))
        body) s
      (fun _ after => (Settled after ∧ after.position = s.position + count) ∧
        ¬ (checks s = .ok () ∧ failing = some .commitAppend))
      fun _ after => (after = s ∧ ¬ (checks s = .ok () ∧ failing = some .commitAppend)) ∨
        (after.entry.pending ≠ none ∧ checks s = .ok () ∧ failing = some .commitAppend) := by
    apply Ensures.get_bind
    apply Ensures.check_bind
    · intro e hrejects
      exact .inl ⟨rfl, fun hlate => nomatch hrejects.symm.trans hlate.1⟩
    · intro haccepts
      refine hbody.mono ?_ ?_
      · rintro _ after ⟨hadvanced, hclear⟩
        exact ⟨hadvanced, fun hlate => hclear hlate.2⟩
      · rintro _ after (⟨rfl, hclear⟩ | ⟨hopen, hfails⟩)
        · exact .inl ⟨rfl, fun hlate => hclear hlate.2⟩
        · exact .inr ⟨hopen, haccepts, hfails⟩
  unfold Ensures at hcall
  unfold Keeps
  generalize (do
    check (checks (← get))
    body : Appending κ Unit) s = outcome at hcall ⊢
  cases outcome with
  | ok u after => exact ⟨fun _ => hcall.2, fun _ => hcall.1⟩
  | error e after =>
    obtain ⟨rfl, hright⟩ | ⟨hopen, hlate⟩ := hcall
    · exact ⟨fun _ => hright, fun _ => ⟨hsettled, rfl, rfl⟩⟩
    · exact ⟨fun hkeeps => absurd hkeeps.1.pending hopen, fun hnot => absurd hlate hnot⟩

/-- The sequence with its reservation. -/
def reserved (s : Sequence κ) : Sequence κ := s.mapEntry CacheEntry.reserve

/-- The sequence behind the layers. -/
def passed (device : Device κ) (s : Sequence κ) (tokens : List Nat) : Sequence κ :=
  (reserved s).mapEntry fun entry => entry.write (device.write entry.rows tokens)

theorem Settled.abort_reserved (h : Settled s) : (reserved s).mapEntry CacheEntry.abort = s := by
  obtain ⟨position, maxTokens, rows, pending⟩ := s
  obtain rfl : pending = none := h.pending
  rfl

theorem Settled.abort_passed (h : Settled s) (tokens : List Nat) :
    (passed device s tokens).mapEntry CacheEntry.abort = s := by
  obtain ⟨position, maxTokens, rows, pending⟩ := s
  obtain rfl : pending = none := h.pending
  rfl

/-- What a pass that fails leaves of a sequence. -/
def Stopped (device : Device κ) (failing : Option Call) (s : Sequence κ) (tokens : List Nat)
    (t : Sequence κ) : Prop :=
  (t = reserved s ∨ t = passed device s tokens) ∧ failing ≠ some .commitAppend

theorem append_ensures (device : Device κ) (tokens : List Nat) {pass : Appending κ Unit}
    (hsettled : Settled s)
    (hpass : Ensures pass (reserved s) (fun _ t => t = passed device s tokens)
      fun _ => Stopped device failing s tokens) :
    Ensures (append family (only failing) tokens pass) s
      (fun _ => Advances failing s tokens.length) (fun _ => Leaves failing s) := by
  apply Ensures.reach_bind
  · intro hfails
    refine .inl ⟨rfl, ?_⟩
    rw [only_eq_true.mp hfails]
    exact nofun
  · intro _
    apply Ensures.modify_bind
    refine (hpass.orUndo ?_).bind ?_
    · rintro e t ⟨rfl | rfl, hcause⟩
      · exact .inl ⟨hsettled.abort_reserved, hcause⟩
      · exact .inl ⟨hsettled.abort_passed tokens, hcause⟩
    · rintro _ _ rfl
      apply Ensures.reach_bind
      · intro hfails
        exact .inr ⟨nofun, only_eq_true.mp hfails⟩
      · intro hclear
        apply Ensures.modify
        refine ⟨⟨⟨rfl, ?_⟩, rfl⟩, only_eq_false.mp hclear⟩
        change (s.entry.rows ++ (device.write s.entry.rows tokens).take tokens.length).length =
            s.position + tokens.length
        rw [List.length_append, List.length_take, device.length_write, Nat.min_self,
          hsettled.position]

theorem ne_commit {call : Call} (hfails : only failing call = true) (h : call ≠ .commitAppend) :
    failing ≠ some .commitAppend := by
  rw [only_eq_true.mp hfails]
  exact fun heq => h (Option.some.inj heq)

theorem behind_ensures (call : Call) (error : CudaError) (tokens : List Nat)
    (h : call ≠ .commitAppend) :
    Ensures (reach (only failing call) error) (passed device s tokens)
      (fun _ t => t = passed device s tokens) (fun _ => Stopped device failing s tokens) := by
  refine (Ensures.reach _ _ _).mono ?_ ?_
  · rintro _ _ ⟨rfl, -⟩
    rfl
  · rintro _ _ ⟨rfl, hfails⟩
    exact ⟨.inr rfl, ne_commit hfails h⟩

theorem runLayers_ensures (tokens : List Nat) :
    Ensures (runLayers family device (only failing) tokens) (reserved s)
      (fun _ t => t = passed device s tokens) (fun _ => Stopped device failing s tokens) := by
  apply Ensures.modify_bind
  refine (Ensures.reach _ _ _).mono ?_ ?_
  · rintro _ _ ⟨rfl, -⟩
    rfl
  · rintro _ _ ⟨rfl, hfails⟩
    obtain ⟨index, -, hlayer⟩ := List.any_eq_true.mp hfails
    exact ⟨.inr rfl, ne_commit hlayer nofun⟩

/-- `forward_one` keeps the sequence unless the commit of an accepted token fails. -/
theorem forwardOne_keeps_iff (hsettled : Settled s) (token : Nat) :
    Keeps (forwardOne family device (only failing) token) s 1 ↔
      ¬ (checkToken family device s token = .ok () ∧ failing = some .commitAppend) := by
  refine hsettled.checked_keeps_iff (fun s => checkToken family device s token) ?_
  apply Ensures.reach_bind
  · intro hfails
    exact .inl ⟨rfl, ne_commit hfails nofun⟩
  · intro _
    refine append_ensures device [token] hsettled ?_
    refine (runLayers_ensures [token]).bind ?_
    rintro _ _ rfl
    refine (behind_ensures .finalNorm _ [token] nofun).bind ?_
    rintro _ _ rfl
    exact behind_ensures .synchronize _ [token] nofun

/-- `prefill` keeps the sequence unless the commit of an accepted prompt fails. -/
theorem prefill_keeps_iff (hsettled : Settled s) (workspaceRows : Nat) (tokens : List Nat) :
    Keeps (prefill family device (only failing) workspaceRows tokens) s tokens.length ↔
      ¬ (checkPrompt family device s tokens = .ok () ∧ failing = some .commitAppend) := by
  refine hsettled.checked_keeps_iff (fun s => checkPrompt family device s tokens) ?_
  apply Ensures.reach_bind
  · intro hfails
    exact .inl ⟨rfl, ne_commit (Bool.and_elim_right hfails) nofun⟩
  · intro _
    refine append_ensures device tokens hsettled ?_
    apply Ensures.reach_bind
    · intro hfails
      exact ⟨.inl rfl, ne_commit hfails nofun⟩
    · intro _
      refine (runLayers_ensures tokens).bind ?_
      rintro _ _ rfl
      refine (behind_ensures .finalNorm _ tokens nofun).bind ?_
      rintro _ _ rfl
      refine (behind_ensures .lastRow _ tokens nofun).bind ?_
      rintro _ _ rfl
      exact behind_ensures .synchronize _ tokens nofun

end Eider.Guarantees.TokenAppend
