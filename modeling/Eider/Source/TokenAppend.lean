import Eider.Lib.Faults
import Eider.Source.Batch

/-!
`forward_one` and `prefill` of BitNet and Bonsai (`bitnet.rs`, lines 300 to 517; `bonsai.rs`, 365
to 552), which differ in the texts and the shape of their checks.

`fails` says which calls fail. `abort_append` of the cache does not, and a commit that fails
leaves its reservation open. The state is the sequence with its entry in the sequence cache; the
workspaces are scratch.
-/
namespace Eider.Source.TokenAppend
open Lib Lib.Faults

inductive Family where
  | bitnet
  | bonsai
deriving DecidableEq, Repr

/-- A sequence (`BitNetSequence`, `BonsaiSequence`), with its entry in the sequence cache. -/
structure Sequence (κ : Type) where
  position : Nat
  maxTokens : Nat
  entry : CacheEntry κ

/-- The model: its configuration, its layers, and the K/V rows that they write. -/
structure Device (κ : Type) where
  vocab : Nat
  maxContext : Nat
  layers : Nat
  write : List κ → List Nat → List κ
  length_write : ∀ rows tokens, (write rows tokens).length = tokens.length

/-- The calls that may fail. `inputs` stands for the copies of the tokens and the embedding,
`workspace` for the allocation of a prefill workspace. -/
inductive Call where
  | inputs
  | workspace
  | reserveAppend
  | layer (index : Nat)
  | finalNorm
  | lastRow
  | synchronize
  | commitAppend
deriving DecidableEq, Repr

/-- `bitnet_cache_error`, `bonsai_cache_error`. -/
def cacheError (family : Family) (call : String) : CudaError :=
  match family with
  | .bitnet => .format "BitNet sequence cache" call
  | .bonsai => .format "Bonsai sequence cache" call

/-- How `{:?}` writes the largest token. -/
def maxToken (tokens : List Nat) : String :=
  match tokens.max? with
  | some token => s!"Some({token})"
  | none => "None"

variable {κ : Type}

def Sequence.mapEntry (s : Sequence κ) (f : CacheEntry κ → CacheEntry κ) : Sequence κ :=
  { s with entry := f s.entry }

section
variable (family : Family) (device : Device κ)

/-- `BonsaiModel::validate_tokens`. -/
def validateTokens (startPosition : Nat) (tokens : List Nat) (maxPosition : Nat) :
    Except CudaError Unit :=
  rejectIf (tokens = [] ∨ (tokens.any fun token => device.vocab ≤ token) ∨
      maxPosition < startPosition + tokens.length)
    (.shape "Bonsai tokens"
      s!"non-empty tokens below {device.vocab} and final position at most {maxPosition}"
      s!"start={startPosition} tokens={tokens.length} max_token={maxToken tokens}")

/-- The check of `forward_one`. -/
def checkToken (s : Sequence κ) (token : Nat) : Except CudaError Unit :=
  match family with
  | .bitnet => rejectIf (device.vocab ≤ token ∨ s.maxTokens ≤ s.position)
      (.shape "BitNet decode token" s!"token < {device.vocab} and position < {s.maxTokens}"
        s!"token={token} position={s.position}")
  | .bonsai => validateTokens device s.position [token] s.maxTokens

/-- The checks of `prefill`. -/
def checkPrompt (s : Sequence κ) (tokens : List Nat) : Except CudaError Unit :=
  match family with
  | .bitnet => do
    rejectIf (tokens = []) (.shape "BitNet prefill" "at least one token" "zero tokens")
    rejectIf ((tokens.any fun token => device.vocab ≤ token) ∨
        s.maxTokens < s.position + tokens.length)
      (.shape "BitNet prefill" s!"tokens < {device.vocab} and final position <= {device.maxContext}"
        s!"start={s.position} tokens={tokens.length} max_token={maxToken tokens}")
  | .bonsai => validateTokens device s.position tokens s.maxTokens

end

/-- A call that works on a sequence and keeps it when it fails. -/
abbrev Appending (κ : Type) := EStateM CudaError (Sequence κ)

section
variable (family : Family) (device : Device κ) (fails : Call → Bool)

/-- `reserve_append`, the pass, and `commit_append`. A pass that fails is taken back. -/
def append (tokens : List Nat) (pass : Appending κ Unit) : Appending κ Unit := do
  reach (fails .reserveAppend) (cacheError family "reserve_append")
  modify fun s => s.mapEntry CacheEntry.reserve
  orUndo pass (modify fun s => s.mapEntry CacheEntry.abort)
  reach (fails .commitAppend) (cacheError family "commit_append")
  modify fun s => { s.mapEntry fun entry => entry.commit tokens.length with
    position := s.position + tokens.length }

/-- The layers. What they wrote before one fails stays in the reserved rows. -/
def runLayers (tokens : List Nat) : Appending κ Unit := do
  modify fun s => s.mapEntry fun entry => entry.write (device.write entry.rows tokens)
  reach ((List.range device.layers).any fun index => fails (.layer index))
    (cacheError family "run_layer")

/-- `forward_one`. The copies stand before the reservation. -/
def forwardOne (token : Nat) : Appending κ Unit := do
  check (checkToken family device (← get) token)
  reach (fails .inputs) (.device "copy_from_host")
  append family fails [token] do
    runLayers family device fails [token]
    reach (fails .finalNorm) (.device "rms_norm_f32_into_on_stream")
    reach (fails .synchronize) (.device "synchronize")

/-- `prefill`, with a workspace for `workspaceRows` rows. -/
def prefill (workspaceRows : Nat) (tokens : List Nat) : Appending κ Unit := do
  check (checkPrompt family device (← get) tokens)
  reach (workspaceRows ≠ tokens.length && fails .workspace) (.device "prefill workspace")
  append family fails tokens do
    reach (fails .inputs) (.device "copy_from_host")
    runLayers family device fails tokens
    reach (fails .finalNorm) (.device "rms_norm_f32_into_on_stream")
    reach (fails .lastRow) (.device "copy_row_f32_into_on_stream")
    reach (fails .synchronize) (.device "synchronize")

end

end Eider.Source.TokenAppend
