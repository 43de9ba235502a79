import Eider.Source.Scheduler.State

/-!
The checks of a decision request and the answers of its branches
(`eider-runtime/src/decision.rs`, lines 18 to 30, 58 to 92, 134 to 256, 436 to 501 and
741 to 782).

The questions stand beside the request, since only the answers read more than their
option keys. Arithmetic on logits is a parameter.
-/
namespace Eider.Source
open Source.Qwen36 (DecisionBranch DecisionBranchLogits DecisionRequest)

def decisionPromptFormat : String := "eider-decision-v1"

def maxDecisionQuestions : Nat := 64

def maxDecisionAnswers : Nat := 64

/-- `DecisionPromptQuestion`, as far as its answer goes. -/
inductive DecisionPromptQuestion where
  | noul
  | choice (options : List String)
  | score (levels : List String)
deriving DecidableEq, Repr

def DecisionPromptQuestion.optionKeys : DecisionPromptQuestion → List String
  | .noul => ["true", "false"]
  | .choice options => options
  | .score levels => (List.range levels.length).map toString

structure DecisionPromptError where
  message : String
deriving DecidableEq, Repr

variable (question : DecisionBranch → DecisionPromptQuestion)

def validateBranch (prefixTokens labels : List Nat)
    (vocab context : Nat) (ids : List String) (branch : DecisionBranch) :
    Except DecisionPromptError Unit :=
  let count := branch.labelTokenIds.length
  if branch.questionId = "" ∨ branch.questionId ∈ ids then
    .error ⟨"decision question IDs must be non-empty and distinct"⟩
  else if count < 2 ∨ maxDecisionAnswers < count ∨ labels.length < count ∨
      branch.labelTokenIds ≠ labels.take count ∨
      branch.optionKeys ≠ (question branch).optionKeys ∨ branch.optionKeys.length ≠ count then
    .error ⟨"decision options must match the fixed label prefix"⟩
  else if branch.suffixTokens = [] ∨ branch.suffixTokens.any (fun token => decide (vocab ≤ token)) ∨
      2 ^ 64 ≤ prefixTokens.length + branch.suffixTokens.length ∨
      context < prefixTokens.length + branch.suffixTokens.length then
    .error ⟨"invalid decision suffix tokens or context capacity"⟩
  else .ok ()

/-- The loop over the branches, with the identities before them. -/
def validateBranches (prefixTokens labels : List Nat) (vocab context : Nat) :
    List String → List DecisionBranch → Except DecisionPromptError Unit
  | _, [] => .ok ()
  | ids, branch :: rest => do
    validateBranch question prefixTokens labels vocab context ids branch
    validateBranches prefixTokens labels vocab context (branch.questionId :: ids) rest

variable (r : DecisionRequest)

/-- `DecisionRequest::validate`. -/
def validateDecision (labels : List Nat) (vocab context : Nat) : Except DecisionPromptError Unit :=
  if r.promptFormat ≠ decisionPromptFormat then .error ⟨"unsupported decision prompt format"⟩
  else if r.labelTokenIds ≠ labels then
    .error ⟨"decision labels differ from the loaded label head"⟩
  else if r.prefixTokens = [] ∨ r.prefixTokens.any (fun token => decide (vocab ≤ token)) ∨
      r.branches = [] ∨ maxDecisionQuestions < r.branches.length then
    .error ⟨"decision requires a valid prefix and 1..=64 questions"⟩
  else validateBranches question r.prefixTokens labels vocab context [] r.branches

def suffixLengths (branches : List DecisionBranch) : List Nat :=
  branches.map fun branch => branch.suffixTokens.length

def logicalInputTokens : Nat :=
  r.prefixTokens.length + (suffixLengths r.branches).sum

def longestBranchTokens : Nat :=
  r.prefixTokens.length + (suffixLengths r.branches).foldl max 0

/-! ## Answers -/

inductive DecisionAnswer (φ : Type) where
  | noul (probability : φ)
  | choice (choice : String) (probabilities : List (String × φ)) (concentration : φ)
  | score (score : φ) (legend : List String) (probabilities : List φ) (concentration : φ)
deriving DecidableEq, Repr

/-- The arithmetic of the answers. -/
structure AnswerFloats (φ : Type) where
  zero : φ
  isFinite : φ → Bool
  isPositive : φ → Bool
  /-- The normalized exponentials behind a temperature, unless their sum is not finite
  and positive. -/
  normalize : List φ → φ → Option (List φ)
  argmax : List φ → Nat
  /-- The mean of the indices, weighted by the probabilities. -/
  expectation : List φ → φ
  /-- `normalized_concentration`. -/
  concentration : List φ → φ

section
variable {φ : Type} (float : AnswerFloats φ)

def stableSoftmax (logits : List φ) (temperature : φ) : Except DecisionPromptError (List φ) :=
  if logits = [] ∨ logits.any (fun value => !float.isFinite value) then
    .error ⟨"decision logits must be non-empty and finite"⟩
  else
    match float.normalize logits temperature with
    | none => .error ⟨"decision softmax produced an invalid normalization"⟩
    | some probabilities => .ok probabilities

/-- `logits_by_id`: a later entry replaces an earlier one. -/
def logitsById (branchLogits : List (DecisionBranchLogits φ)) (id : String) : Option (List φ) :=
  (branchLogits.reverse.find? fun entry => entry.questionId == id).map DecisionBranchLogits.logits

/-- The answer to a question from its probabilities. -/
def answerOf (branch : DecisionBranch) (probabilities : List φ) :
    DecisionPromptQuestion → DecisionAnswer φ
  | .noul => .noul (probabilities.headD float.zero)
  | .choice _ => .choice (branch.optionKeys.getD (float.argmax probabilities) "")
      (branch.optionKeys.zip probabilities) (float.concentration probabilities)
  | .score levels => .score (float.expectation probabilities) levels probabilities
      (float.concentration probabilities)

variable (question : DecisionBranch → DecisionPromptQuestion)

def answerBranch
    (branchLogits : List (DecisionBranchLogits φ)) (temperature : φ) (branch : DecisionBranch) :
    Except DecisionPromptError (String × DecisionAnswer φ) :=
  match logitsById branchLogits branch.questionId with
  | none => .error ⟨s!"decision branch {reprStr branch.questionId} has no logits"⟩
  | some logits =>
    if logits.length ≠ branch.optionKeys.length then
      .error ⟨s!"decision branch {reprStr branch.questionId} returned {logits.length} logits "
        ++ s!"for {branch.optionKeys.length} options"⟩
    else
      match stableSoftmax float logits temperature with
      | .error e => .error e
      | .ok probabilities =>
        .ok (branch.questionId, answerOf float branch probabilities (question branch))

def answersFromLogits (r : DecisionRequest)
    (branchLogits : List (DecisionBranchLogits φ)) (temperature : φ) :
    Except DecisionPromptError (List (String × DecisionAnswer φ)) :=
  if !float.isFinite temperature ∨ !float.isPositive temperature then
    .error ⟨"decision temperature must be finite and greater than zero"⟩
  else r.branches.mapM (answerBranch float question branchLogits temperature)

end

end Eider.Source
