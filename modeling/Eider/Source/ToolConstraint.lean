import Eider.Source.Sequence

/-!
The lazy tool grammar of one response (`eider-runtime/src/tool_grammar.rs`, lines 69
to 199). It waits for one of its triggers in the text of the committed tokens, hands
the tokens from the trigger on to the constraint, and masks from there on.

The constraint is `llguidance::Constraint`, so it is a parameter: `Constraint` names
the calls. A deep clone is the value itself.
-/
namespace Eider.Source
open Lib.Search

/-- The calls of `llguidance::Constraint`. A mask is its words; the texts are those
of the errors. -/
structure Constraint (K : Type) where
  /-- `tok_trie().decode(&[token])`. -/
  decode : K → Nat → List UInt8
  hasPendingStop : K → Bool
  startWithoutPrompt : K → K
  forceTokens : K → List Nat → K × Except String Unit
  /-- `compute_mask`, with the `sample_mask` of its result. -/
  computeMask : K → K × Except String (Option (List UInt32))
  /-- `step_result().sample_mask`. -/
  stepMask : K → Option (List UInt32)
  commitToken : K → Nat → K × Except String Unit

/-- `QwenXmlToolGrammar`. -/
structure ToolGrammar (K : Type) where
  constraint : K
  maskWords : Nat
  triggers : List (List UInt8)
  triggerBuffer : List UInt8
  pendingTokens : List (Nat × List UInt8)
  active : Bool
  maskPending : Bool

/-- `token_allowed`, and `is_allowed` of a mask. -/
def tokenAllowed (mask : List UInt32) (token : Nat) : Bool :=
  match mask[token / 32]? with
  | some word => word &&& (1 <<< UInt32.ofNat (token % 32)) ≠ 0
  | none => false

def findBytes (haystack needle : List UInt8) : Option Nat :=
  if needle.isEmpty then none else find needle haystack

namespace ToolGrammar
variable {K : Type} (calls : Constraint K) (g : ToolGrammar K)

def isComplete : Bool := g.active && calls.hasPendingStop g.constraint

def mask : ToolGrammar K × Except CudaError (Option (List UInt32)) :=
  if !g.active || g.isComplete calls then (g, .ok none)
  else
    let computed := calls.computeMask g.constraint
    let g := { g with constraint := computed.1 }
    match computed.2 with
    | .error e => (g, .error (.format "Qwen tool grammar mask" e))
    | .ok none => (g, .error (.format "Qwen tool grammar mask"
        "grammar stopped before the tool call was emitted"))
    | .ok (some words) =>
      if words.length < g.maskWords then
        (g, .error (.shape "Qwen tool grammar mask" s!"at least {g.maskWords} words"
          s!"{words.length} words"))
      else ({ g with maskPending := true }, .ok (some (words.take g.maskWords)))

/-- The first pending token whose piece ends behind `start`. -/
def firstTriggerToken (start : Nat) : Nat → Nat → List (Nat × List UInt8) → Option Nat
  | _, _, [] => none
  | index, done, (_, piece) :: rest =>
    if start < done + piece.length then some index
    else firstTriggerToken start (index + 1) (done + piece.length) rest

/-- The `while` loop that drops old pieces; at least one pending token stays. -/
def trimPending (keep : Nat) : List UInt8 → List (Nat × List UInt8) →
    List UInt8 × List (Nat × List UInt8)
  | buffer, (token, piece) :: next :: rest =>
    if keep < buffer.length then trimPending keep (buffer.drop piece.length) (next :: rest)
    else (buffer, (token, piece) :: next :: rest)
  | buffer, pending => (buffer, pending)

variable (token : Nat)

/-- `commit` before a trigger has been seen. -/
def commitInactive : ToolGrammar K × Except CudaError Unit :=
  let piece := calls.decode g.constraint token
  let pending := g.pendingTokens ++ [(token, piece)]
  let buffer := g.triggerBuffer ++ piece
  match (g.triggers.filterMap (findBytes buffer)).min? with
  | some start =>
    let first := (firstTriggerToken start 0 0 pending).getD 0
    let forced := calls.forceTokens (calls.startWithoutPrompt g.constraint)
      ((pending.drop first).map Prod.fst)
    match forced.2 with
    | .error e =>
      ({ g with constraint := forced.1, pendingTokens := pending, triggerBuffer := buffer },
        .error (.format "Qwen tool grammar trigger" e))
    | .ok () =>
      ({ g with constraint := forced.1, pendingTokens := [], triggerBuffer := [], active := true },
        .ok ())
  | none =>
    let longest := ((g.triggers.map List.length).max?).getD 0
    let trimmed := trimPending (longest + 32) buffer pending
    ({ g with triggerBuffer := trimmed.1, pendingTokens := trimmed.2 }, .ok ())

/-- `commit` of a token under the grammar, with the mask computed. -/
def commitMasked : ToolGrammar K × Except CudaError Unit :=
  if (calls.stepMask g.constraint).any fun mask => tokenAllowed mask token then
    let committed := calls.commitToken g.constraint token
    match committed.2 with
    | .error e => ({ g with constraint := committed.1 },
        .error (.format "Qwen tool grammar token" e))
    | .ok () => ({ g with constraint := committed.1, maskPending := false }, .ok ())
  else (g, .error (.format "Qwen tool grammar token" s!"target committed disallowed token {token}"))

def commit : ToolGrammar K × Except CudaError Unit :=
  if !g.active then g.commitInactive calls token
  else if g.isComplete calls then
    (g, .error (.format "Qwen tool grammar token" s!"token {token} followed a complete tool call"))
  else if g.maskPending then g.commitMasked calls token
  else
    match g.mask calls with
    | (g, .error e) => (g, .error e)
    | (g, .ok _) => g.commitMasked calls token

theorem mask_maskWords : (g.mask calls).1.maskWords = g.maskWords := by
  unfold mask
  dsimp only
  split
  · rfl
  · split
    · rfl
    · rfl
    · split <;> rfl

theorem length_of_mask {g : ToolGrammar K} {words : List UInt32}
    (h : (g.mask calls).2 = .ok (some words)) : words.length = g.maskWords := by
  unfold mask at h
  dsimp only at h
  split at h
  · cases h
  · split at h
    · cases h
    · cases h
    · split at h
      · cases h
      · rename_i hlength
        cases h
        rw [List.length_take]
        omega

theorem commitInactive_maskWords : (g.commitInactive calls token).1.maskWords = g.maskWords := by
  unfold commitInactive
  dsimp only
  split
  · split <;> rfl
  · rfl

theorem commitMasked_maskWords : (g.commitMasked calls token).1.maskWords = g.maskWords := by
  unfold commitMasked
  dsimp only
  split
  · split <;> rfl
  · rfl

theorem commit_maskWords : (g.commit calls token).1.maskWords = g.maskWords := by
  have hmasked := mask_maskWords calls g
  unfold commit
  split
  · exact commitInactive_maskWords calls g token
  · split
    · rfl
    · split
      · exact commitMasked_maskWords calls g token
      · split
        · rename_i g' e heq
          rwa [heq] at hmasked
        · rename_i g' mask heq
          rw [heq] at hmasked
          rw [commitMasked_maskWords, hmasked]

end ToolGrammar

end Eider.Source
