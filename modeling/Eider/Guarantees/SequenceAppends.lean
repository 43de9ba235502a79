import Eider.Guarantees.TokenAppend
import Eider.Guarantees.Ling3Append
import Eider.Guarantees.FlintAppend

/-!
The appends of BitNet, Bonsai, Ling 3 and Flint: what a call that returns an error leaves of its
sequences, for every single call that may fail inside it.
-/
namespace Eider.Guarantees.SequenceAppends
open Lib Lib.Faults
open Source

/-- Every call keeps its sequences unless the commit of an accepted call of BitNet or Bonsai
fails, the rollback of a rejected token of Ling 3 fails, or a commit behind the first row of a
batch of Flint fails. A sequence that Flint marked invalid is never taken again. -/
theorem appends_keep_iff (κ β : Type) :
    (∀ (family : TokenAppend.Family) (device : TokenAppend.Device κ)
        (failing : Option TokenAppend.Call) (s : TokenAppend.Sequence κ),
      TokenAppend.Settled s →
      (∀ token,
        TokenAppend.Keeps (TokenAppend.forwardOne family device (only failing) token) s 1 ↔
          ¬ (TokenAppend.checkToken family device s token = .ok () ∧
            failing = some .commitAppend)) ∧
      (∀ workspaceRows tokens,
        TokenAppend.Keeps (TokenAppend.prefill family device (only failing) workspaceRows tokens)
            s tokens.length ↔
          ¬ (TokenAppend.checkPrompt family device s tokens = .ok () ∧
            failing = some .commitAppend))) ∧
    (∀ (n : Nat) (device : Ling3.Device n β κ) (failing : Option Ling3.Call)
        (s : Ling3.Sequence n β κ),
      Ling3Append.Idle s →
      (∀ token, Ling3Append.Keeps (Ling3.decodeToken device (only failing) token) s 1 ↔
        ¬ (Ling3Append.Rejected device s token ∧ Ling3Append.AbortFails n failing)) ∧
      (∀ workspaceCapacity tokens,
        Ling3Append.Keeps (Ling3.prefill device (only failing) workspaceCapacity tokens) s
          tokens.length)) ∧ (∀ (device : Flint.Append.Device κ) (w : Flint.Append.Workspace)
        (failing : Option Flint.Append.Call),
      (∀ s, FlintAppend.Idle s → ∀ tokens,
        FlintAppend.Keeps (Flint.Append.forward device w (only failing) tokens) s
          tokens.length) ∧
      (∀ requests : List (Flint.Append.Request κ),
        (∀ r ∈ requests, FlintAppend.Idle r.sequence) →
        (FlintAppend.BatchKeeps (Flint.Append.forwardDecodeBatch device w (only failing))
            requests ↔ ¬ FlintAppend.Late device w requests failing)) ∧
      (∀ s : Flint.Append.Sequence κ, s.valid = false → ∀ tokens,
        Ensures (Flint.Append.forward device w (only failing) tokens) s (fun _ _ => False)
          fun _ after => after = s) ∧
      (∀ requests : List (Flint.Append.Request κ), (∃ r ∈ requests, r.sequence.valid = false) →
        Ensures (Flint.Append.forwardDecodeBatch device w (only failing)) requests
          (fun _ _ => False) fun _ after => after = requests)) := by
  refine ⟨?_, ?_, ?_⟩
  · intro family device failing s hsettled
    exact ⟨TokenAppend.forwardOne_keeps_iff hsettled, TokenAppend.prefill_keeps_iff hsettled⟩
  · intro n device failing s hidle
    exact ⟨Ling3Append.decodeToken_keeps_iff hidle, Ling3Append.prefill_keeps hidle⟩
  · intro device w failing
    refine ⟨fun s hidle tokens => ?_, fun requests hidle => ?_, fun s hinvalid tokens => ?_,
      fun requests hinvalid => ?_⟩
    · exact FlintAppend.forwardImpl_keeps hidle (only failing) tokens true
    · exact FlintAppend.forwardDecodeBatch_keeps_iff hidle
    · exact FlintAppend.forwardImpl_invalid hinvalid (only failing) tokens true
    · exact FlintAppend.forwardDecodeBatch_invalid hinvalid (only failing)

/-! ## Sequences at position 1 -/

def tokenDevice : TokenAppend.Device Nat where
  vocab := 100
  maxContext := 16
  layers := 2
  write := tokenRows
  length_write := length_tokenRows

def tokenSequence : TokenAppend.Sequence Nat where
  position := 1
  maxTokens := 16
  entry := { rows := [3], pending := none }

def lingDevice : Ling3.Device 1 Nat Nat where
  vocab := 100
  layers := 2
  advance := fun states _ _ => states
  interrupted := fun _ states _ => states
  write := fun _ _ tokens => tokens
  length_write := fun _ _ _ => rfl

def lingSequence : Ling3.Sequence 1 Nat Nat where
  state :=
    { linearStates := fun _ => ⟨5, 6⟩
      rollbackLinearStates := fun _ => ⟨0, 0⟩
      rollbackPosition := 0
      appendPending := false
      position := 1
      capacity := 16 }
  entry := { rows := [3], pending := none }

def flintDevice : Flint.Append.Device Nat where
  modelId := 1
  vocab := 100
  layers := 2
  cacheIdentity := 7
  write := tokenRows
  length_write := length_tokenRows

def flintWorkspace : Flint.Append.Workspace where
  identity := 1
  modelId := 1
  capacity := 4
  maxContext := 16
  decodeGraph := none

def flintSequence (id : Nat) (valid : Bool) : Flint.Append.Sequence Nat where
  modelId := 1
  caches := [some 1, none]
  graph := none
  cacheId := some id
  cacheIdentity := some 7
  position := 1
  capacity := 16
  valid := valid
  logitsReady := true
  entry := { rows := [3], pending := none }

theorem flintSequence_idle (id : Nat) (valid : Bool) :
    FlintAppend.Idle (flintSequence id valid) where
  pending := rfl
  at_position := fun _ => ⟨rfl, rfl, rfl, by
    intro ring hring
    simpa [flintSequence] using hring⟩

theorem appends_keep_at_one :
    TokenAppend.Keeps (TokenAppend.forwardOne .bitnet tokenDevice (only (some (.layer 1))) 9)
      tokenSequence 1 ∧
    TokenAppend.Keeps (TokenAppend.prefill .bonsai tokenDevice (only (some (.layer 1))) 4 [9, 4])
      tokenSequence 2 ∧
    Ling3Append.Keeps (Ling3.decodeToken lingDevice (only (some .commitAppend)) 9)
      lingSequence 1 ∧
    Ling3Append.Keeps (Ling3.prefill lingDevice (only (some .commitAppend)) 4 [9, 4])
      lingSequence 2 ∧
    FlintAppend.Keeps
      (Flint.Append.forward flintDevice flintWorkspace (only (some (.commitAppend 0))) [9, 4])
      (flintSequence 0 true) 2 ∧
    FlintAppend.BatchKeeps
      (Flint.Append.forwardDecodeBatch flintDevice flintWorkspace (only (some (.commitAppend 0))))
      [⟨flintSequence 0 true, 9⟩, ⟨flintSequence 1 true, 4⟩] ∧
    Ensures (Flint.Append.forward flintDevice flintWorkspace (only none) [9])
      (flintSequence 0 false) (fun _ _ => False) (fun _ after => after = flintSequence 0 false) ∧
    Ensures (Flint.Append.forwardDecodeBatch flintDevice flintWorkspace (only none))
      [⟨flintSequence 1 true, 9⟩, ⟨flintSequence 0 false, 9⟩] (fun _ _ => False)
      (fun _ after => after = [⟨flintSequence 1 true, 9⟩, ⟨flintSequence 0 false, 9⟩]) := by
  have token := (appends_keep_iff Nat Nat).1
  have ling := (appends_keep_iff Nat Nat).2.1 1 lingDevice (some .commitAppend) lingSequence
    ⟨rfl, rfl, rfl⟩
  have flint := (appends_keep_iff Nat Nat).2.2 flintDevice flintWorkspace
  refine ⟨?_, ?_, ?_, ?_, ?_, ?_, ?_, ?_⟩
  · exact ((token .bitnet tokenDevice (some (.layer 1)) tokenSequence ⟨rfl, rfl⟩).1 9).mpr
      (by simp)
  · exact ((token .bonsai tokenDevice (some (.layer 1)) tokenSequence ⟨rfl, rfl⟩).2 4 [9, 4]).mpr
      (by simp)
  · refine (ling.1 9).mpr ?_
    simp [Ling3Append.AbortFails]
  · exact ling.2 4 [9, 4]
  · exact (flint (some (.commitAppend 0))).1 _ (flintSequence_idle 0 true) [9, 4]
  · refine ((flint (some (.commitAppend 0))).2.1 _ ?_).mpr ?_
    · rw [List.forall_mem_cons, List.forall_mem_singleton]
      exact ⟨flintSequence_idle 0 true, flintSequence_idle 1 true⟩
    · simp [FlintAppend.Late]
  · exact (flint none).2.2.1 _ rfl [9]
  · exact (flint none).2.2.2 _ ⟨_, List.mem_cons_of_mem _ List.mem_cons_self, rfl⟩

/-- The commit of BitNet's `forward_one` fails: its reservation stays open. -/
theorem unanswered_commit_leaves_reservation :
    ¬ ∀ failing : Option TokenAppend.Call, TokenAppend.Keeps
      (TokenAppend.forwardOne .bitnet tokenDevice (only failing) 9) tokenSequence 1 := by
  intro h
  have hkeeps := h (some .commitAppend)
  cases hkeeps.1.pending

end Eider.Guarantees.SequenceAppends
