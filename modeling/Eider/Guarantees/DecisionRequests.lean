import Eider.Source.DecisionRequest

/-!
What `validate` says of a decision request
(`eider-runtime/src/decision.rs`, lines 134 to 256).

An accepted request has a prefix and questions with distinct identities; each question has
a suffix, room in the context, and as many options as it takes labels from the head.
-/
namespace Eider.Guarantees.DecisionRequests
open Lib List
open Source
open Source.Qwen36 (DecisionBranch DecisionRequest)

variable {question : DecisionBranch → DecisionPromptQuestion} {labels prefixTokens : List Nat}
  {vocab context : Nat}

/-- A branch that passes its checks. -/
structure ValidBranch (question : DecisionBranch → DecisionPromptQuestion)
    (prefixTokens labels : List Nat) (vocab context : Nat) (branch : DecisionBranch) : Prop where
  named : branch.questionId ≠ ""
  options : 2 ≤ branch.labelTokenIds.length ∧ branch.labelTokenIds.length ≤ maxDecisionAnswers
  head : branch.labelTokenIds = labels.take branch.labelTokenIds.length
  enough : branch.labelTokenIds.length ≤ labels.length
  keys : branch.optionKeys = (question branch).optionKeys
  keyCount : branch.optionKeys.length = branch.labelTokenIds.length
  suffix : branch.suffixTokens ≠ []
  known : ∀ token ∈ branch.suffixTokens, token < vocab
  room : prefixTokens.length + branch.suffixTokens.length ≤ context
  bounded : prefixTokens.length + branch.suffixTokens.length < 2 ^ 64

/-- A request that passes its checks. -/
structure ValidRequest (question : DecisionBranch → DecisionPromptQuestion) (labels : List Nat)
    (vocab context : Nat) (r : DecisionRequest) : Prop where
  prefixTokens : r.prefixTokens ≠ []
  known : ∀ token ∈ r.prefixTokens, token < vocab
  branches : r.branches ≠ []
  count : r.branches.length ≤ maxDecisionQuestions
  distinct : (r.branches.map DecisionBranch.questionId).Nodup
  branch : ∀ q ∈ r.branches, ValidBranch question r.prefixTokens labels vocab context q

theorem validateBranch_ok {ids : List String} {branch : DecisionBranch}
    (h : validateBranch question prefixTokens labels vocab context ids branch = .ok ()) :
    branch.questionId ∉ ids ∧ ValidBranch question prefixTokens labels vocab context branch := by
  rw [validateBranch] at h
  split at h
  · cases h
  · rename_i hid
    split at h
    · cases h
    · rename_i hoptions
      split at h
      · cases h
      · rename_i hsuffix
        simp only [not_or, Nat.not_lt, not_not] at hid hoptions hsuffix
        obtain ⟨hmin, hmax, henough, hhead, hkeys, hcount⟩ := hoptions
        obtain ⟨hsome, hknown, hbounded, hroom⟩ := hsuffix
        refine ⟨hid.2, hid.1, ⟨hmin, hmax⟩, hhead, henough, hkeys, hcount, hsome, ?_, hroom,
          Nat.not_le.mp hbounded⟩
        intro token htoken
        by_contra hlarge
        exact hknown (any_eq_true.mpr ⟨token, htoken, decide_eq_true (Nat.not_lt.mp hlarge)⟩)

/-- The loop keeps the identities before it apart from those behind it. -/
theorem validateBranches_ok {ids : List String} {branches : List DecisionBranch}
    (h : validateBranches question prefixTokens labels vocab context ids branches = .ok ()) :
    (∀ branch ∈ branches, branch.questionId ∉ ids ∧
      ValidBranch question prefixTokens labels vocab context branch) ∧
      (branches.map DecisionBranch.questionId).Nodup := by
  induction branches generalizing ids with
  | nil => exact ⟨nofun, nodup_nil⟩
  | cons branch rest ih =>
    rw [validateBranches] at h
    cases hbranch : validateBranch question prefixTokens labels vocab context ids branch with
    | error e =>
      rw [hbranch] at h
      cases h
    | ok _ =>
      rw [hbranch] at h
      obtain ⟨hall, hnodup⟩ := ih h
      refine ⟨fun other hother => ?_, ?_⟩
      · rcases mem_cons.mp hother with rfl | hrest
        · exact validateBranch_ok hbranch
        · exact ⟨fun hid => (hall other hrest).1 (mem_cons_of_mem _ hid), (hall other hrest).2⟩
      · rw [map_cons, nodup_cons]
        refine ⟨fun hmem => ?_, hnodup⟩
        obtain ⟨other, hother, hsame⟩ := mem_map.mp hmem
        exact (hall other hother).1 (hsame ▸ mem_cons_self)

theorem validateDecision_ok {r : DecisionRequest}
    (h : validateDecision question r labels vocab context = .ok ()) :
    ValidRequest question labels vocab context r := by
  rw [validateDecision] at h
  split at h
  · cases h
  · split at h
    · cases h
    · split at h
      · cases h
      · rename_i hrequest
        simp only [not_or, Nat.not_lt] at hrequest
        obtain ⟨hlead, hknown, hbranches, hcount⟩ := hrequest
        obtain ⟨hall, hnodup⟩ := validateBranches_ok h
        refine ⟨hlead, fun token htoken => ?_, hbranches, hcount, hnodup,
          fun q hq => (hall q hq).2⟩
        by_contra hlarge
        exact hknown (any_eq_true.mpr ⟨token, htoken, decide_eq_true (Nat.not_lt.mp hlarge)⟩)

theorem ValidRequest.longest {r : DecisionRequest}
    (h : ValidRequest question labels vocab context r) : longestBranchTokens r ≤ context := by
  obtain ⟨first, hfirst⟩ := exists_mem_of_ne_nil _ h.branches
  rw [longestBranchTokens]
  rcases (Search.le_foldl_max (suffixLengths r.branches) 0).2.2 with hzero | hmem
  · have := (h.branch first hfirst).room
    omega
  · obtain ⟨branch, hbranch, hlength⟩ := mem_map.mp hmem
    have := (h.branch branch hbranch).room
    omega

end Eider.Guarantees.DecisionRequests
