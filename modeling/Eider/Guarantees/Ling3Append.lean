import Eider.Source.Ling3.Append

/-!
Failing calls of `decode_token` and `prefill` of Ling 3. Every failure behind `begin_append` is
answered with both aborts. `prefill` checks its tokens before it opens anything; `decode_token`
checks its token behind `begin_append`, so that the rollback of a rejected token may be the call
that fails.
-/
namespace Eider.Guarantees.Ling3Append
open Lib Lib.Faults List Ensures
open Source (CudaError CacheEntry copyLayers_all rejectIf rejectIf_ok)
open Source.Ling3

variable {n : Nat} {β κ : Type}

/-- No append of the sequence is open, and state and cache stand at one position. -/
structure Idle (s : Sequence n β κ) : Prop where
  appendPending : s.state.appendPending = false
  pending : s.entry.pending = none
  position : s.entry.rows.length = s.state.position

/-- The sequence is as it was, with nothing open. -/
structure Restored (before after : Sequence n β κ) : Prop where
  linearStates : after.state.linearStates = before.state.linearStates
  position : after.state.position = before.state.position
  rows : after.entry.rows = before.entry.rows
  idle : Idle after

/-- The call advances the sequence by `count` tokens or restores it. -/
def Keeps (call : Appending n β κ Unit) (s : Sequence n β κ) (count : Nat) : Prop :=
  match call s with
  | .ok () after => Idle after ∧ after.state.position = s.state.position + count
  | .error _ after => Restored s after

/-- A copy of the state's rollback fails. -/
def AbortFails (n : Nat) (failing : Option Call) : Prop :=
  ∃ copy < 2 * n, failing = some (.abortCopy copy)

/-- An append of the sequence that is open in both. -/
structure Opened (before after : Sequence n β κ) : Prop where
  rollbackLinearStates : after.state.rollbackLinearStates = before.state.linearStates
  rollbackPosition : after.state.rollbackPosition = before.state.position
  appendPending : after.state.appendPending = true
  capacity : after.state.capacity = before.state.capacity
  rows : after.entry.rows = before.entry.rows

/-- An open append whose state has moved by `moved` and whose cache holds `count` rows. -/
structure Written (s : Sequence n β κ) (moved count : Nat) (t : Sequence n β κ) : Prop where
  opened : Opened s t
  position : t.state.position = s.state.position + moved
  pending : (t.entry.pending.getD []).length = count

variable {device : Device n β κ} {failing : Option Call} {s t : Sequence n β κ} {rejected : Prop}

theorem Idle.restored (h : Idle s) : Restored s s := ⟨rfl, rfl, rfl, h⟩

theorem firstCopy_none {fails : Nat → Bool} (h : firstCopy n fails = none) :
    ∀ copy < 2 * n, fails copy = false := by
  intro copy hcopy
  have hnone := find?_eq_none.mp h copy (mem_range.mpr hcopy)
  exact Bool.eq_false_iff.mpr hnone

theorem firstCopy_some {fails : Nat → Bool} {copy : Nat} (h : firstCopy n fails = some copy) :
    copy < 2 * n ∧ fails copy = true :=
  ⟨mem_range.mp (mem_of_find?_eq_some h), find?_some h⟩

theorem Opened.rollback_ensures (h : Opened s t) (hidle : Idle s) :
    Ensures (rollback (only failing)) t (fun _ after => Restored s after ∧ ¬ AbortFails n failing)
      (fun _ after => after.state.appendPending = true ∧ AbortFails n failing) := by
  apply get_bind
  have hpending : ¬ ¬ t.state.appendPending = true := not_not_intro h.appendPending
  rw [ModelState.abortAppend, if_neg hpending]
  cases hfirst : firstCopy n fun copy => only failing (.abortCopy copy) with
  | some copies =>
    obtain ⟨hcopies, hfails⟩ := firstCopy_some hfirst
    exact ⟨h.appendPending, copies, hcopies, only_eq_true.mp hfails⟩
  | none =>
    refine ⟨⟨?_, h.rollbackPosition, h.rows, rfl, rfl, ?_⟩, ?_⟩
    · exact (copyLayers_all _ _ le_rfl).trans h.rollbackLinearStates
    · exact (congrArg length h.rows).trans (hidle.position.trans h.rollbackPosition.symm)
    · rintro ⟨copy, hcopy, hcall⟩
      exact only_eq_false.mp (firstCopy_none hfirst copy hcopy) hcall

/-- The call advanced the sequence, outside of `Late`. -/
def Advances (Late : Prop) (s : Sequence n β κ) (count : Nat) (after : Sequence n β κ) : Prop :=
  (Idle after ∧ after.state.position = s.state.position + count) ∧ ¬ Late

/-- The call restored the sequence, or `Late` left its append open. -/
def Leaves (Late : Prop) (s after : Sequence n β κ) : Prop :=
  (Restored s after ∧ ¬ Late) ∨ (after.state.appendPending = true ∧ Late)

theorem keeps_iff {call : Appending n β κ Unit} {count : Nat} {Late : Prop}
    (h : Ensures call s (fun _ => Advances Late s count) fun _ => Leaves Late s) :
    Keeps call s count ↔ ¬ Late := by
  unfold Ensures at h
  unfold Keeps
  generalize call s = outcome at h ⊢
  cases outcome with
  | ok u after => exact ⟨fun _ => h.2, fun _ => h.1⟩
  | error e after =>
    obtain ⟨hrestored, hright⟩ | ⟨hopen, hlate⟩ := h
    · exact ⟨fun _ => hright, fun _ => hrestored⟩
    · refine ⟨fun hkeeps => ?_, fun hnot => absurd hlate hnot⟩
      have hclosed := hkeeps.idle.appendPending
      rw [hopen] at hclosed
      cases hclosed

theorem not_abortFails {call : Call} (hfails : only failing call = true)
    (h : ∀ copy, call ≠ .abortCopy copy) : ¬ AbortFails n failing := by
  rintro ⟨copy, -, hcall⟩
  rw [only_eq_true.mp hfails] at hcall
  exact h copy (Option.some.inj hcall)

theorem Opened.undo {α : Type} {m : Appending n β κ α}
    {P : α → Sequence n β κ → Prop} (hidle : Idle s)
    (h : Ensures m t P fun _ after => Opened s after ∧ (rejected ∨ ¬ AbortFails n failing)) :
    Ensures (orUndo m (rollback (only failing))) t P
      fun _ => Leaves (rejected ∧ AbortFails n failing) s := by
  refine h.orUndo fun e after hafter => ?_
  refine (hafter.1.rollback_ensures hidle).mono ?_ ?_
  · rintro _ t' ⟨hrestored, hclear⟩
    exact .inl ⟨hrestored, fun hlate => hclear hlate.2⟩
  · rintro _ t' ⟨hopen, hfails⟩
    obtain hrejected | hclear := hafter.2
    · exact .inr ⟨hopen, hrejected, hfails⟩
    · exact absurd hfails hclear

theorem Written.commit {moved rest count : Nat} (h : Written s moved count t) (hidle : Idle s)
    (hcount : moved + rest = count) :
    let committed := t.mapEntry fun entry => entry.commit count
    let after := (committed.mapState fun state =>
      { state with position := state.position + rest }).mapState ModelState.commitAppend
    Idle after ∧ after.state.position = s.state.position + count := by
  have hposition : t.state.position + rest = s.state.position + count := by
    rw [h.position]
    omega
  refine ⟨⟨rfl, rfl, ?_⟩, hposition⟩
  change (t.entry.rows ++ (t.entry.pending.getD []).take count).length = t.state.position + rest
  rw [length_append, length_take, h.pending, h.opened.rows, Nat.min_self, hidle.position, hposition]

/-- The sequence behind `begin_append`. -/
def begun (s : Sequence n β κ) (fails : Nat → Bool) : Sequence n β κ :=
  { (s.mapEntry CacheEntry.reserve) with state := (s.state.beginAppend fails).1 }

theorem Idle.begin_cases (hidle : Idle s) (fails : Nat → Bool) :
    ((s.state.beginAppend fails).2 = .ok () ∧ Written s 0 0 (begun s fails)) ∨
      ((∃ e, (s.state.beginAppend fails).2 = .error e) ∧
        Restored s ((begun s fails).mapEntry CacheEntry.abort) ∧
        ∃ copy, fails copy = true) := by
  have hclosed : ¬ s.state.appendPending = true := by simp [hidle.appendPending]
  unfold begun
  rw [ModelState.beginAppend, if_neg hclosed]
  cases hfirst : firstCopy n fails with
  | some copies =>
    refine .inr ⟨⟨_, rfl⟩, ⟨rfl, rfl, rfl, hidle.appendPending, rfl, hidle.position⟩, copies, ?_⟩
    exact (firstCopy_some hfirst).2
  | none =>
    refine .inl ⟨rfl, ⟨?_, rfl, rfl, rfl, rfl⟩, rfl, rfl⟩
    exact copyLayers_all _ _ le_rfl

theorem Idle.begin_ensures (hidle : Idle s) :
    Ensures (orUndo (check (s.state.beginAppend fun copy => only failing (.beginAppend copy)).2)
        (modify fun s => s.mapEntry CacheEntry.abort))
      (begun s fun copy => only failing (.beginAppend copy)) (fun _ => Written s 0 0)
      fun _ => Leaves (rejected ∧ AbortFails n failing) s := by
  obtain ⟨hok, hwritten⟩ | ⟨⟨e, herror⟩, hrestored, copy, hfails⟩ :=
    hidle.begin_cases fun copy => only failing (.beginAppend copy)
  · rw [hok]
    exact hwritten
  · rw [herror]
    exact .inl ⟨hrestored, fun hlate => not_abortFails hfails nofun hlate.2⟩

theorem append_ensures (moved rest : Nat) (tokens : List Nat)
    {pass committed : Appending n β κ Unit} (hidle : Idle s) (hcount : moved + rest = tokens.length)
    (hpass : ∀ t, Written s 0 0 t →
      Ensures pass t (fun _ after => Written s moved tokens.length after ∧ ¬ rejected)
        fun _ after => Opened s after ∧ (rejected ∨ ¬ AbortFails n failing))
    (hcommitted : ∀ t, committed t = .ok () (t.mapState fun state =>
      { state with position := state.position + rest })) :
    Ensures (append (only failing) tokens pass committed) s
      (fun _ => Advances (rejected ∧ AbortFails n failing) s tokens.length)
      (fun _ => Leaves (rejected ∧ AbortFails n failing) s) := by
  apply Ensures.reach_bind
  · intro hfails
    exact .inl ⟨hidle.restored, fun hlate => not_abortFails hfails nofun hlate.2⟩
  · intro _
    apply modify_bind
    apply get_bind
    apply set_bind
    refine hidle.begin_ensures.bind ?_
    intro _ t hbegun
    refine (Opened.undo hidle (hpass t hbegun)).bind ?_
    rintro _ t' ⟨hwritten, haccepted⟩
    have hcommit : Ensures (reach (only failing .commitAppend) (cacheError "commit_append")) t'
        (fun _ after => Written s moved tokens.length after)
        fun _ after => Opened s after ∧ (rejected ∨ ¬ AbortFails n failing) := by
      refine (Ensures.reach _ _ _).mono ?_ ?_
      · rintro _ _ ⟨rfl, -⟩
        exact hwritten
      · rintro _ _ ⟨rfl, hfails⟩
        exact ⟨hwritten.opened, .inr (not_abortFails hfails nofun)⟩
    refine (Opened.undo hidle hcommit).bind ?_
    intro _ t'' hdone
    apply modify_bind
    refine (Ensures.of_ok (P := fun _ after => after = _) (hcommitted _) rfl).bind ?_
    rintro _ _ rfl
    apply Ensures.modify
    exact ⟨hdone.commit hidle hcount, fun hlate => haccepted hlate.1⟩

theorem Written.runLayers_ensures {moved count : Nat} (tokens : List Nat)
    (h : Written s moved count t) :
    Ensures (runLayers device (only failing) tokens) t
      (fun _ => Written s moved (count + tokens.length))
      fun _ after => Opened s after ∧ (rejected ∨ ¬ AbortFails n failing) := by
  unfold runLayers
  cases hfind : (range device.layers).find? fun index => only failing (.layer index) with
  | some index =>
    have hfails := find?_some hfind
    apply modify_bind
    apply Ensures.throw
    refine ⟨?_, .inr (not_abortFails hfails nofun)⟩
    obtain ⟨⟨hlinear, hrollback, hpending, hcapacity, hrows⟩, -, -⟩ := h
    exact ⟨hlinear, hrollback, hpending, hcapacity, hrows⟩
  | none =>
    apply Ensures.modify
    obtain ⟨⟨hlinear, hrollback, hpending, hcapacity, hrows⟩, hposition, hcount⟩ := h
    refine ⟨⟨hlinear, hrollback, hpending, hcapacity, hrows⟩, hposition, ?_⟩
    change (t.entry.pending.getD [] ++ device.write _ _ tokens).length = _
    rw [length_append, hcount, device.length_write]

theorem Written.reach_ensures {moved count : Nat} (call : Call)
    (error : CudaError) (h : Written s moved count t) (hcall : ∀ copy, call ≠ .abortCopy copy) :
    Ensures (reach (only failing call) error) t (fun _ => Written s moved count)
      fun _ after => Opened s after ∧ (rejected ∨ ¬ AbortFails n failing) := by
  refine (Ensures.reach _ _ _).mono ?_ ?_
  · rintro _ _ ⟨rfl, -⟩
    exact h
  · rintro _ _ ⟨rfl, hfails⟩
    exact ⟨h.opened, .inr (not_abortFails hfails hcall)⟩

/-- The check of `decode_token_reserved`. -/
def Rejected (device : Device n β κ) (s : Sequence n β κ) (token : Nat) : Prop :=
  device.vocab ≤ token ∨ s.state.capacity ≤ s.state.position

theorem Written.decodeTokenReserved_ensures (token : Nat) (h : Written s 0 0 t) :
    Ensures (decodeTokenReserved device (only failing) token) t
      (fun _ after => Written s 1 1 after ∧ ¬ Rejected device s token)
      fun _ after => Opened s after ∧ (Rejected device s token ∨ ¬ AbortFails n failing) := by
  have hcheck : (device.vocab ≤ token ∨ t.state.capacity ≤ t.state.position) ↔
      Rejected device s token := by
    rw [Rejected, h.opened.capacity, h.position, Nat.add_zero]
  apply get_bind
  apply Ensures.check_bind
  · intro e hrejects
    refine ⟨h.opened, .inl (hcheck.mp ?_)⟩
    by_contra haccepted
    rw [rejectIf, if_neg haccepted] at hrejects
    cases hrejects
  · intro haccepts
    have haccepted : ¬ Rejected device s token := fun hrejected =>
      rejectIf_ok haccepts (hcheck.mpr hrejected)
    refine (h.reach_ensures .inputs _ fun n h => by cases h).bind ?_
    intro _ t₁ h₁
    refine (h₁.runLayers_ensures [token]).bind ?_
    intro _ t₂ h₂
    refine (h₂.reach_ensures .head _ fun n h => by cases h).bind ?_
    intro _ t₃ h₃
    apply Ensures.modify
    obtain ⟨⟨hlinear, hrollback, hpending, hcapacity, hrows⟩, hposition, hcount⟩ := h₃
    refine ⟨⟨⟨hlinear, hrollback, hpending, hcapacity, hrows⟩, ?_, hcount⟩, haccepted⟩
    exact congrArg (· + 1) hposition

theorem decodeToken_keeps_iff (hidle : Idle s) (token : Nat) :
    Keeps (decodeToken device (only failing) token) s 1 ↔
      ¬ (Rejected device s token ∧ AbortFails n failing) := by
  apply keeps_iff
  refine append_ensures 1 0 [token] hidle rfl ?_ fun _ => rfl
  intro t hbegun
  exact (hbegun.decodeTokenReserved_ensures token).bind fun _ _ h => h

theorem prefillRows_ensures (hidle : Idle s) (tokens : List Nat) :
    Ensures (prefillRows device (only failing) tokens) s
      (fun _ => Advances (False ∧ AbortFails n failing) s tokens.length)
      (fun _ => Leaves (False ∧ AbortFails n failing) s) := by
  apply get_bind
  apply Ensures.check_bind
  · intro e _
    exact .inl ⟨hidle.restored, fun hlate => hlate.1⟩
  · intro _
    refine append_ensures 0 tokens.length tokens hidle (Nat.zero_add _) ?_ fun _ => rfl
    intro t hbegun
    refine (hbegun.reach_ensures .inputs _ nofun).bind ?_
    intro _ t₁ h₁
    refine (h₁.runLayers_ensures tokens).bind ?_
    intro _ t₂ h₂
    rw [Nat.zero_add] at h₂
    refine (h₂.reach_ensures .head _ nofun).bind ?_
    intro _ t₃ h₃
    refine (h₃.reach_ensures .copyLogits _ nofun).bind ?_
    intro _ t₄ h₄
    exact (h₄.reach_ensures .synchronize _ nofun).imp fun _ _ h => ⟨h, not_false⟩

theorem prefill_keeps (hidle : Idle s) (workspaceCapacity : Nat) (tokens : List Nat) :
    Keeps (prefill device (only failing) workspaceCapacity tokens) s tokens.length := by
  have hcall : Ensures (prefill device (only failing) workspaceCapacity tokens) s
      (fun _ => Advances (False ∧ AbortFails n failing) s tokens.length)
      (fun _ => Leaves (False ∧ AbortFails n failing) s) := by
    apply Ensures.check_bind
    · intro e _
      exact .inl ⟨hidle.restored, fun hlate => hlate.1⟩
    · intro _
      exact prefillRows_ensures hidle tokens
  exact (keeps_iff hcall).mpr fun hlate => hlate.1

end Eider.Guarantees.Ling3Append
