import Eider.Guarantees.BatchAtomicity

/-!
What the model calls do to the positions of their rows, whatever the cache holds. A call
that returns has moved each row by its tokens, a call that fails has moved none, and no
row is left inside an append. The exceptions are a commit that fails behind the first
row and the copy of the next frontier behind a verified commit.
-/
namespace Eider.Guarantees.BatchPositions
open Source Guarantees.BatchAtomicity List

variable {n : Nat} {β κ φ C R : Type}
variable {before row : BatchRow n β} {befores rows : List (BatchRow n β)}

/-- The sequence moved by `count` rows and is outside an append. -/
structure Moved (count : Nat) (before after : Sequence n β) : Prop where
  position : after.state.position = before.state.position + count
  idle : after.state.appendPending = false

theorem Moved.refl {s : Sequence n β} (h : s.state.appendPending = false) : Moved 0 s s := ⟨rfl, h⟩

/-- No row is inside an append. -/
def AllIdle (rows : List (BatchRow n β)) : Prop :=
  ∀ row ∈ rows, row.sequence.state.appendPending = false

theorem moved_of_same (h : SameRow before row)
    (hidle : before.sequence.state.appendPending = false) : Moved 0 before.sequence row.sequence :=
  ⟨h.state.position, h.state.appendPending.trans hidle⟩

theorem moved_of_commit (h : AppendingRow before row) :
    Moved before.tokens.length before.sequence row.commit.sequence := by
  constructor
  · have hposition := h.state.commit_position row.tokens.length
    simpa [BatchRow.commit, BatchRow.mapState, h.tokens] using hposition
  · rfl

theorem abort_idle (row : BatchRow n β) : row.abort.sequence.state.appendPending = false := by
  simp only [BatchRow.abort, BatchRow.mapState, SequenceState.abortAppend]
  split
  · rfl
  · rename_i h
    simpa using h

/-- Every row moved by its own tokens. -/
def AllAdvanced (befores rows : List (BatchRow n β)) : Prop :=
  List.Forall₂ (fun before row => Moved before.tokens.length before.sequence row.sequence)
    befores rows

/-- No row moved. -/
def AllKept (befores rows : List (BatchRow n β)) : Prop :=
  List.Forall₂ (fun before row => Moved 0 before.sequence row.sequence) befores rows

theorem allKept_of_same (hidle : AllIdle befores) (h : List.Forall₂ SameRow befores rows) :
    AllKept befores rows := by
  induction h with
  | nil => exact .nil
  | cons hrow _ ih =>
    exact .cons (moved_of_same hrow (hidle _ mem_cons_self))
      (ih fun before hmem => hidle before (mem_cons_of_mem _ hmem))

theorem AllKept.idle (h : AllKept befores rows) : AllIdle rows := by
  induction h with
  | nil => simp [AllIdle]
  | cons hrow _ ih => exact forall_mem_cons.mpr ⟨hrow.idle, ih⟩

theorem AllAdvanced.idle (h : AllAdvanced befores rows) : AllIdle rows := by
  induction h with
  | nil => simp [AllIdle]
  | cons hrow _ ih => exact forall_mem_cons.mpr ⟨hrow.idle, ih⟩

theorem commit_all (h : List.Forall₂ AppendingRow befores rows) :
    AllAdvanced befores (rows.map BatchRow.commit) := by
  induction h with
  | nil => exact .nil
  | cons hrow _ ih => exact .cons (moved_of_commit hrow) ih

section
variable (cache : SequenceCache C R κ) (device : Device n β κ φ) (failing : Option Call)
variable (check : List RowLimits → List Nat → Except CudaError Unit) {c : C}

theorem forwardRows_appending {reservations : List R}
    (h : List.Forall₂ AppendingRow befores rows) (hlength : reservations.length = befores.length) :
    List.Forall₂ AppendingRow befores (forwardRows cache device (rows.zip reservations) c).1 := by
  induction h generalizing reservations c with
  | nil => exact .nil
  | cons hrow _ ih =>
    cases reservations with
    | nil => simp at hlength
    | cons reservation reservations =>
      exact .cons (hrow.withLinear _) (ih (Nat.succ.inj hlength))

/-- The pass keeps every row inside its append, whether it fails or not. -/
theorem forward_appending {reservations : List R}
    (h : List.Forall₂ AppendingRow befores rows) (hlength : reservations.length = befores.length) :
    List.Forall₂ AppendingRow befores
      (forward cache device failing check rows reservations c).1.1 := by
  unfold forward
  split
  · exact h
  · split
    · exact forall₂_map_right_iff.mpr (h.imp fun _ _ hrow => hrow.withLinear _)
    · exact forwardRows_appending cache device h hlength

/-- What a batch call does to the positions of its rows. Only a commit that fails behind
the first row moves some rows and not others. -/
inductive BatchMoves (befores : List (BatchRow n β)) :
    (List (BatchRow n β) × C) × Except CudaError Unit → Prop
  | advanced {rows : List (BatchRow n β)} {c : C} (moved : AllAdvanced befores rows) :
      BatchMoves befores ((rows, c), .ok ())
  | kept {rows : List (BatchRow n β)} {c : C} {e : CudaError} (moved : AllKept befores rows) :
      BatchMoves befores ((rows, c), .error e)
  | torn {rows : List (BatchRow n β)} {c : C} {e : CudaError} (row : Nat)
      (call : failing = some (.commitAppend (row + 1))) (idle : AllIdle rows)
      (length : rows.length = befores.length) : BatchMoves befores ((rows, c), .error e)

variable {failing} in
/-- However a batch call ends, no row is left inside an append. -/
theorem BatchMoves.idle {result : Except CudaError Unit}
    (h : BatchMoves failing befores ((rows, c), result)) : AllIdle rows := by
  cases h with
  | advanced moved => exact moved.idle
  | kept moved => exact moved.idle
  | torn _ _ idle _ => exact idle

variable {failing} in
theorem BatchMoves.length {result : Except CudaError Unit}
    (h : BatchMoves failing befores ((rows, c), result)) : rows.length = befores.length := by
  cases h with
  | advanced moved => exact moved.length_eq.symm
  | kept moved => exact moved.length_eq.symm
  | torn _ _ _ length => exact length

theorem commitRows_moves {pairs : List (BatchRow n β × R)} (hidle : AllIdle befores)
    (h : List.Forall₂ AppendingRow befores (pairs.map Prod.fst)) :
    BatchMoves failing befores (commitRows cache failing 0 [] pairs c) := by
  by_cases hfails : ∃ count, count < pairs.length ∧ failing = some (.commitAppend count)
  · obtain ⟨count, hcount, hcall⟩ := hfails
    have hindex : failing = some (.commitAppend (0 + count)) := by rw [hcall, Nat.zero_add]
    obtain ⟨e, he⟩ := commitRows_error cache [] c hcount hindex
    rw [he]
    cases count with
    | zero =>
      have hsame := allKept_of_same hidle (abort_all hidle h)
      exact .kept (by simpa [Function.comp_def] using hsame)
    | succ row =>
      refine .torn row hcall ?_ ?_
      · intro after hafter
        simp only [nil_append, mem_append, mem_map] at hafter
        obtain ⟨pair, -, rfl⟩ | ⟨pair, -, rfl⟩ := hafter
        · rfl
        · exact abort_idle pair.1
      · simp only [h.length_eq, nil_append, length_append, length_map, length_take, length_drop]
        omega
  · have hnone : ∀ row, failing = some (.commitAppend row) →
        0 + pairs.length ≤ row ∨ row < 0 := by
      intro row hcall
      have hrow : ¬ row < pairs.length := fun hlt => hfails ⟨row, hlt, hcall⟩
      omega
    rw [commitRows_ok cache pairs [] c hnone]
    have hcommit := commit_all h
    exact .advanced (by simpa [Function.comp_def] using hcommit)

theorem appendBatch_moves (c : C) (hidle : AllIdle rows) :
    BatchMoves failing rows (appendBatch cache device failing check rows c) := by
  unfold appendBatch
  split
  · exact .kept (forall₂_same.mpr fun row hrow => .refl (hidle row hrow))
  · rename_i c₁ reservations hreserve
    obtain ⟨_, rfl, hreserved⟩ := reserveRows_ok cache hreserve
    have hlength : reservations.length = rows.length := by
      simpa using congrArg length hreserved.owners
    split
    · rename_i rows' e hbegin
      exact .kept (allKept_of_same hidle (beginRows_error (by rwa [nil_append]) .nil hbegin))
    · rename_i begun hbegin
      have hbegun : List.Forall₂ AppendingRow rows begun := by
        have hrows := beginRows_ok hidle .nil hbegin
        exact hrows.imp fun _ _ hrow => hrow.toAppendingRow
      have happending := forward_appending cache device failing check (c := c₁) hbegun hlength
      split
      · rename_i after c₂ e hforward
        rw [hforward] at happending
        exact .kept (allKept_of_same hidle (abort_all hidle happending))
      · rename_i after c₂ hforward
        rw [hforward] at happending
        apply commitRows_moves cache failing hidle
        have hfst : (after.zip reservations).map Prod.fst = after := by
          apply map_fst_zip
          rw [hlength, happending.length_eq]
        rw [hfst]
        exact happending

end

section
variable {γ : Type} (cache : SequenceCache C R κ) (device : Device n β κ φ) (modelId : Nat)
variable (failing : Option Call) (workspace : SpeculativeWorkspace) (onHost : Bool)
variable (selector : Option (LogitSelector γ φ))

/-- What a speculative append does to the position of its sequence. -/
inductive AppendMoves (drafted : List Nat) (before : Sequence n β) :
    (Sequence n β × C) × Except CudaError (SpeculativeVerification φ) → Prop
  | advanced {after : Sequence n β} {c : C} {v : SpeculativeVerification φ}
      (moved : Moved (v.accepted + 1) before after) (accepted : v.accepted ≤ drafted.length)
      (logits : v.committedLogits.length = v.accepted + 1) :
      AppendMoves drafted before ((after, c), .ok v)
  | kept {after : Sequence n β} {c : C} {e : CudaError} (moved : Moved 0 before after) :
      AppendMoves drafted before ((after, c), .error e)

variable {drafted : List Nat} {frontier : SpeculativeFrontier φ} {sequence : Sequence n β} {c : C}

theorem acceptedDrafts_le_targets (drafts targets : List Nat) :
    acceptedDrafts drafts targets ≤ targets.length := by
  fun_induction acceptedDrafts drafts targets with
  | case1 drafts target targets ih => simpa using ih
  | case2 => omega
  | case3 => omega

/-- A verified block has a logit for each committed token. -/
theorem verification_logits {logits : List (List φ)} {v : SpeculativeVerification φ}
    (h : verification device failing selector frontier drafted logits = .ok v) :
    v.committedLogits.length = v.accepted + 1 := by
  unfold verification at h
  split at h
  · cases h
  · obtain ⟨targets, -, h⟩ := bind_ok h
    have haccepted := acceptedDrafts_le_targets drafted (targets.map NextToken.id)
    simp only [pure, Except.pure, Except.ok.injEq] at h
    subst h
    rw [length_map] at haccepted
    simp [alignSpeculativeCommittedLogits, haccepted]

theorem forall₂_singleton {α δ : Type} {rel : α → δ → Prop} {a : α} {l : List δ}
    (h : List.Forall₂ rel [a] l) : ∃ b, l = [b] ∧ rel a b := by
  cases h with
  | cons hab hrest =>
    cases hrest
    exact ⟨_, rfl, hab⟩

theorem moved_of_abort (h : AppendingRow before row)
    (hidle : before.sequence.state.appendPending = false) :
    Moved 0 before.sequence row.abort.sequence :=
  moved_of_same (h.abort hidle) hidle

theorem commitSpeculative_moves {contents : Device.Contents n β κ} {reservation : R}
    (h : AppendingRow before row) (hidle : before.sequence.state.appendPending = false) :
    AppendMoves drafted before.sequence (commitSpeculative cache device failing selector drafted frontier
      contents row reservation c) := by
  unfold commitSpeculative
  split
  · exact .kept (moved_of_abort h hidle)
  · rename_i v hverified
    dsimp only
    split
    · exact .kept (moved_of_abort h hidle)
    · -- Restoring a snapshot keeps the row inside its append.
      have hrestored : AppendingRow before (if v.accepted < drafted.length then
          row.mapState fun s =>
            s.withLinear (device.feed contents (row.tokens.take (v.accepted + 1))).1
          else row) := by
        split
        · exact h.withLinear _
        · exact h
      split
      · exact .kept (moved_of_abort hrestored hidle)
      · exact .advanced ⟨hrestored.state.commit_position _, rfl⟩
          (verification_accepted_le device hverified)
          (verification_logits device failing selector hverified)

section
variable (hidle : sequence.state.appendPending = false)
include hidle

theorem runSpeculative_moves {reservation : R} :
    AppendMoves drafted sequence (runSpeculative cache device modelId failing workspace onHost selector
      drafted frontier sequence reservation c) := by
  have hrow : (speculativeRow drafted frontier sequence).sequence.state.appendPending = false :=
    hidle
  unfold runSpeculative
  split
  · rename_i state e hbegin
    have hsame := SequenceState.beginAppend_error (congrArg Prod.snd hbegin)
    rw [hbegin] at hsame
    exact .kept ⟨hsame.position, hsame.appendPending.trans hidle⟩
  · rename_i state hbegin
    have hbegun : AppendingRow (speculativeRow drafted frontier sequence)
        ⟨{ sequence with state := state }, frontier.token :: drafted⟩ := by
      have hrow := (begin_row hrow (congrArg Prod.snd hbegin)).toAppendingRow
      have hstate : (SequenceState.beginAppend
          (speculativeRow drafted frontier sequence).sequence.state (failingCopy failing 0)).1 =
          state := congrArg Prod.fst hbegin
      rwa [hstate] at hrow
    have happending := forward_appending cache device failing
      (checkPrefill device modelId workspace.verify onHost) (c := c)
      (.cons hbegun .nil) (rfl : [reservation].length = 1)
    dsimp only
    split
    · rename_i rows after e hforward
      rw [hforward] at happending
      obtain ⟨row, rfl, hrow'⟩ := forall₂_singleton happending
      exact .kept (moved_of_abort hrow' hrow)
    · rename_i rows after hforward
      rw [hforward] at happending
      obtain ⟨row, rfl, hrow'⟩ := forall₂_singleton happending
      exact commitSpeculative_moves cache device failing selector hrow' hrow

theorem speculativeAppend_moves :
    AppendMoves drafted sequence (speculativeAppend cache device modelId failing workspace onHost selector
      drafted frontier sequence c) := by
  unfold speculativeAppend
  split
  · exact .kept (.refl hidle)
  · exact runSpeculative_moves cache device modelId failing workspace onHost selector hidle

/-- What a speculative cycle does to the position of its sequence: it has committed one
token for each row. The copy of the next frontier may fail behind the commit. -/
inductive CycleMoves (before : Sequence n β) :
    (Sequence n β × C × SpeculativeFrontier φ) × Except CudaError (SpeculativeCycleOutcome φ) → Prop
  | advanced {after : Sequence n β} {c : C} {next : SpeculativeFrontier φ}
      {outcome : SpeculativeCycleOutcome φ} (moved : Moved outcome.committed.length before after)
      (tokens : outcome.committed.length = outcome.acceptedDrafts + 1)
      (logits : outcome.committedLogits.length = outcome.committed.length) :
      CycleMoves before ((after, c, next), .ok outcome)
  | kept {after : Sequence n β} {c : C} {next : SpeculativeFrontier φ} {e : CudaError}
      (moved : Moved 0 before after) : CycleMoves before ((after, c, next), .error e)
  | copied {after : Sequence n β} {c : C} {next : SpeculativeFrontier φ} {e : CudaError}
      (call : failing = some .copyFrontier) (idle : after.state.appendPending = false) :
      CycleMoves before ((after, c, next), .error e)

variable {failing} in
omit hidle in
/-- However a cycle ends, its sequence is outside an append. -/
theorem CycleMoves.idle {before after : Sequence n β} {next : SpeculativeFrontier φ}
    {result : Except CudaError (SpeculativeCycleOutcome φ)}
    (h : CycleMoves failing before ((after, c, next), result)) :
    after.state.appendPending = false := by
  cases h with
  | advanced moved _ _ => exact moved.idle
  | kept moved => exact moved.idle
  | copied _ idle => exact idle

omit hidle in
theorem length_committed {accepted : Nat} (h : accepted ≤ drafted.length) (token : Nat) :
    ((token :: drafted).take (accepted + 1)).length = accepted + 1 := by
  rw [length_take, length_cons]
  omega

theorem verifyExternalSpeculative_moves :
    CycleMoves failing sequence (verifyExternalSpeculative cache device modelId failing workspace
      onHost selector drafted frontier sequence c) := by
  have happend : AppendMoves drafted sequence (speculativeAppend cache device modelId failing
      workspace onHost selector drafted frontier sequence c) :=
    speculativeAppend_moves cache device modelId failing workspace onHost selector hidle
  unfold verifyExternalSpeculative
  split
  · exact .kept (.refl hidle)
  · split
    · rename_i after c' e hresult
      rw [hresult] at happend
      cases happend with
      | kept moved => exact .kept moved
    · rename_i after c' v hresult
      rw [hresult] at happend
      cases happend with
      | advanced moved accepted logits =>
        have htokens := length_committed accepted frontier.token
        split
        · split
          · exact .copied ‹_› moved.idle
          · exact .advanced (htokens.symm ▸ moved) htokens (logits.trans htokens.symm)
        · exact .advanced (htokens.symm ▸ moved) htokens (logits.trans htokens.symm)

theorem speculativeCycleArgmax_moves :
    CycleMoves failing sequence (speculativeCycleArgmax cache device modelId failing workspace
      drafted frontier sequence c) := by
  have happend : AppendMoves drafted sequence (speculativeAppend cache device modelId failing
      workspace true (none : Option (LogitSelector Unit φ)) drafted frontier sequence c) :=
    speculativeAppend_moves cache device modelId failing workspace true _ hidle
  unfold speculativeCycleArgmax
  split
  · exact .kept (.refl hidle)
  · split
    · exact .kept (.refl hidle)
    · split
      · exact .kept (.refl hidle)
      · split
        · rename_i after c' e hresult
          rw [hresult] at happend
          cases happend with
          | kept moved => exact .kept moved
        · rename_i after c' v hresult
          rw [hresult] at happend
          cases happend with
          | advanced moved accepted logits =>
            have htokens := length_committed accepted frontier.token
            exact .advanced (htokens.symm ▸ moved) htokens (logits.trans htokens.symm)

end

end

end Eider.Guarantees.BatchPositions
