import Eider.Lib.Faults
import Eider.Source.Batch

/-!
`decode_token` and `prefill` of Ling 3 (`ling3/model.rs`, lines 557 to 1023) and the append
transaction of a sequence state (`ling3/model.rs`, 1068 to 1106; `ling3/kda.rs`, 310 to 335).

`fails` says which calls fail. `abort_append` of the cache does not, and a commit that fails
leaves its reservation open. The buffers of the `n` KDA layers are values of a type `β`; a copy
is numbered by its layer and by the buffer of the layer, the convolution first.
-/
namespace Eider.Source.Ling3
open Lib Lib.Faults

/-- `Ling3ModelState`, without the layers that keep nothing. -/
structure ModelState (n : Nat) (β : Type) where
  linearStates : LinearStates n β
  rollbackLinearStates : LinearStates n β
  rollbackPosition : Nat
  appendPending : Bool
  position : Nat
  capacity : Nat

/-- The first of the `2 * n` copies that fails. -/
def firstCopy (n : Nat) (fails : Nat → Bool) : Option Nat := (List.range (2 * n)).find? fails

namespace ModelState
variable {n : Nat} {β : Type} (s : ModelState n β)

/-- `begin_append`; `fails` names the copies that fail. -/
def beginAppend (fails : Nat → Bool) : ModelState n β × Except CudaError Unit :=
  if s.appendPending then
    (s, .error (.format "Ling 3 recurrent transaction" "an append transaction is already pending"))
  else
    match firstCopy n fails with
    | some copies =>
      ({ s with rollbackLinearStates := copyLayers copies s.linearStates s.rollbackLinearStates },
        .error (.device "copy_prefix_from_device_on_stream"))
    | none =>
      ({ s with
          rollbackLinearStates := copyLayers (2 * n) s.linearStates s.rollbackLinearStates
          rollbackPosition := s.position
          appendPending := true }, .ok ())

/-- `commit_append`, on a state whose append is pending. -/
def commitAppend : ModelState n β := { s with appendPending := false }

def abortAppend (fails : Nat → Bool) : ModelState n β × Except CudaError Unit :=
  if ¬ s.appendPending then
    (s, .error (.format "Ling 3 recurrent transaction" "no append transaction is pending"))
  else
    match firstCopy n fails with
    | some copies =>
      ({ s with linearStates := copyLayers copies s.rollbackLinearStates s.linearStates },
        .error (.device "copy_prefix_from_device_on_stream"))
    | none =>
      ({ s with
          linearStates := copyLayers (2 * n) s.rollbackLinearStates s.linearStates
          position := s.rollbackPosition
          appendPending := false }, .ok ())

end ModelState

/-- `Ling3Sequence`, with its entry in the sequence cache. -/
structure Sequence (n : Nat) (β κ : Type) where
  state : ModelState n β
  entry : CacheEntry κ

/-- What the kernels compute: the buffers and the K/V rows behind some tokens, and the buffers
when a layer fails. -/
structure Device (n : Nat) (β κ : Type) where
  vocab : Nat
  layers : Nat
  advance : LinearStates n β → List κ → List Nat → LinearStates n β
  interrupted : Nat → LinearStates n β → List Nat → LinearStates n β
  write : LinearStates n β → List κ → List Nat → List κ
  length_write : ∀ states rows tokens, (write states rows tokens).length = tokens.length

/-- The calls that may fail. `inputs` stands for the copies and kernels before the layers, `head`
for the ones behind them. -/
inductive Call where
  | reserveAppend
  | beginAppend (copy : Nat)
  | inputs
  | layer (index : Nat)
  | head
  | copyLogits
  | synchronize
  | commitAppend
  | abortCopy (copy : Nat)
deriving DecidableEq, Repr

def cacheError (call : String) : CudaError := .format "Ling 3 sequence cache" call

variable {n : Nat} {β κ : Type}

namespace Sequence

def mapEntry (s : Sequence n β κ) (f : CacheEntry κ → CacheEntry κ) : Sequence n β κ :=
  { s with entry := f s.entry }

def mapState (s : Sequence n β κ) (f : ModelState n β → ModelState n β) : Sequence n β κ :=
  { s with state := f s.state }

/-- What the layers write behind the rows that are committed and those already written. -/
def pass (device : Device n β κ) (s : Sequence n β κ) (tokens : List Nat) : Sequence n β κ :=
  let written := s.entry.pending.getD []
  let rows := s.entry.rows ++ written
  { s.mapEntry fun entry => entry.write (written ++ device.write s.state.linearStates rows tokens)
    with state := { s.state with
      linearStates := device.advance s.state.linearStates rows tokens } }

/-- What the layers leave when one fails. -/
def interrupt (device : Device n β κ) (s : Sequence n β κ) (index : Nat) (tokens : List Nat) :
    Sequence n β κ :=
  s.mapState fun state => { state with
    linearStates := device.interrupted index state.linearStates tokens }

end Sequence

/-- A call that works on a sequence and keeps it when it fails. -/
abbrev Appending (n : Nat) (β κ : Type) := EStateM CudaError (Sequence n β κ)

section
variable (device : Device n β κ) (fails : Call → Bool)

/-- Both aborts behind an error; an error of the state's abort takes its place. -/
def rollback : Appending n β κ Unit := do
  let s ← get
  let aborted := s.state.abortAppend fun copy => fails (.abortCopy copy)
  set (({ s with state := aborted.1 } : Sequence n β κ).mapEntry CacheEntry.abort)
  check aborted.2

variable (tokens : List Nat)

/-- `reserve_append`, `begin_append`, the pass, `commit_append` of the cache, then of the
state. -/
def append (pass committed : Appending n β κ Unit) : Appending n β κ Unit := do
  reach (fails .reserveAppend) (cacheError "reserve_append")
  modify fun s => s.mapEntry CacheEntry.reserve
  let s ← get
  let begun := s.state.beginAppend fun copy => fails (.beginAppend copy)
  set ({ s with state := begun.1 } : Sequence n β κ)
  orUndo (check begun.2) (modify fun s => s.mapEntry CacheEntry.abort)
  orUndo pass (rollback fails)
  orUndo (reach (fails .commitAppend) (cacheError "commit_append")) (rollback fails)
  modify fun s => s.mapEntry fun entry => entry.commit tokens.length
  committed
  modify fun s => s.mapState ModelState.commitAppend

def runLayers : Appending n β κ Unit :=
  match (List.range device.layers).find? fun index => fails (.layer index) with
  | some index => do
    modify fun s => s.interrupt device index tokens
    throw (.device "run_layer")
  | none => modify fun s => s.pass device tokens

def decodeTokenReserved (token : Nat) : Appending n β κ Unit := do
  let s ← get
  check (rejectIf (device.vocab ≤ token ∨ s.state.capacity ≤ s.state.position)
    (.shape "Ling 3 decode token" s!"token<{device.vocab} and position<{s.state.capacity}"
      s!"token={token} position={s.state.position}"))
  reach (fails .inputs) (.device "copy_bf16_row_to_f32_into_on_stream")
  runLayers device fails [token]
  reach (fails .head) (.device "bf16_linear_logits_f32_into_on_stream")
  modify fun s => s.mapState fun state => { state with position := state.position + 1 }

/-- `prefill_sequential`. The tokens are checked behind the reservation. -/
def prefillSequential : Appending n β κ Unit := do
  check (rejectIf (tokens = []) (.shape "Ling 3 prefill" "at least one token" "0 tokens"))
  append fails tokens (tokens.forM (decodeTokenReserved device fails)) (pure ())

def decodeToken (token : Nat) : Appending n β κ Unit := prefillSequential device fails [token]

/-- The checks of `prefill_rows`. -/
def checkPrompt (s : Sequence n β κ) (tokens : List Nat) : Except CudaError Unit := do
  rejectIf (tokens = []) (.shape "Ling 3 prefill" "at least one token" "0 tokens")
  rejectIf (s.state.capacity < s.state.position + tokens.length)
    (.shape "Ling 3 prefill capacity" s!"position at most {s.state.capacity}"
      s!"{s.state.position} + {tokens.length}")
  let unknown := tokens.find? fun token => device.vocab ≤ token
  rejectIf (unknown ≠ none)
    (.shape "Ling 3 prefill token" s!"token below {device.vocab}" s!"{unknown.getD 0}")

/-- `prefill_rows`. The position moves behind the commit. -/
def prefillRows : Appending n β κ Unit := do
  check (checkPrompt device (← get) tokens)
  append fails tokens
    (do
      reach (fails .inputs) (.device "copy_prefix_from_host")
      runLayers device fails tokens
      reach (fails .head) (.device "bf16_linear_logits_f32_into_on_stream")
      reach (fails .copyLogits) (.device "copy_prefix_from_device_on_stream")
      reach (fails .synchronize) (.device "synchronize"))
    (modify fun s => s.mapState fun state =>
      { state with position := state.position + tokens.length })

/-- `prefill`, with a workspace for `workspaceCapacity` tokens. -/
def prefill (workspaceCapacity : Nat) (tokens : List Nat) : Appending n β κ Unit := do
  check (rejectIf (workspaceCapacity < tokens.length) (.shape "Ling 3 prefill workspace"
    s!"at most {workspaceCapacity} tokens" s!"{tokens.length}"))
  prefillRows device fails tokens

end

end Eider.Source.Ling3
