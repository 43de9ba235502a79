import Eider.Guarantees.SamplerLaw

/-!
# Verification of a sparse draft

A draft drawn from its proposal and verified against the target comes out with the target's
probabilities, and where the proposal's probabilities sum to one no verification fails.
-/
namespace Eider.Guarantees.DraftVerification
open Lib Lib.Draw Source Source.Sampling Guarantees.SamplerLaw List

variable {exp : ℝ → ℝ} {config : SamplingConfig ℝ} {logits : List (Option ℝ)} {history : List Nat}
  {ids : List Nat} {probabilities : List ℝ} {draft : Nat}

/-- The probability that a program returns a token. -/
noncomputable def probability {α : Type} (m : Sampled ℝ α) (id : α → Nat) (token : Nat) : ℝ :=
  value m fun result => if id result = token then 1 else 0

/-! ## The law of a drafted token -/

theorem probability_throw {α : Type} (e : CudaError) (id : α → Nat) (token : Nat) :
    probability (throw e : Sampled ℝ α) id token = 0 := rfl

theorem both_fail (ids : List Nat) (probabilities : List ℝ) {e : CudaError}
    (h : weightedCandidates exp logits config history = .error e) (token : Nat) :
    probability (sampleNextToken exp logits config history) Candidate.id token = 0 ∧
      ∀ draft, probability (verifySparseDraft exp logits config history draft ids probabilities)
        (fun result => result.1.id) token = 0 := by
  constructor
  · unfold sampleNextToken
    rw [h]
    exact probability_throw e _ token
  · intro draft
    unfold verifySparseDraft
    rw [h]
    split
    · exact probability_throw _ _ token
    · split
      · exact probability_throw _ _ token
      · dsimp only
        split
        · exact probability_throw _ _ token
        · exact probability_throw e _ token

variable {weighted : List (Candidate ℝ × ℝ)}

theorem valid_of_weightedCandidates
    (h : weightedCandidates exp logits config history = .ok weighted) :
    config.validate = .ok () ∧ ∃ logit, some logit ∈ logits := by
  unfold weightedCandidates at h
  cases hvalid : config.validate with
  | error e =>
    rw [hvalid] at h
    cases h
  | ok =>
    rw [hvalid] at h
    refine ⟨rfl, ?_⟩
    cases hbest : minBy candidateOrder (candidates logits config history) with
    | none =>
      simp only [hbest] at h
      cases h
    | some best =>
      obtain ⟨entry, hentry, hsome⟩ := mem_filterMap.mp (minBy_mem hbest)
      obtain ⟨logit, hlogit, -⟩ := Option.map_eq_some_iff.mp hsome
      have hget := (mem_zipIdx_iff_getElem? (x := entry) (l := logits)).mp hentry
      rw [hlogit] at hget
      exact ⟨logit, mem_of_getElem? hget⟩

/-- A draft from the proposal, verified, is each token with the plain sampler's
probability. -/
theorem drafted_token_law (hexp : ∀ x, 0 < exp x)
    (hproposal : SparseProposal logits.length ids probabilities) (token : Nat) :
    (mean (ids.zip probabilities) fun draft =>
      probability (verifySparseDraft exp logits config history draft ids probabilities)
        (fun result => result.1.id) token) =
      probability (sampleNextToken exp logits config history) Candidate.id token := by
  cases hok : weightedCandidates exp logits config history with
  | error e =>
    obtain ⟨hplain, hverified⟩ := both_fail ids probabilities hok token
    simp only [hverified, hplain]
    simp [mean]
  | ok target =>
    obtain ⟨hvalid, hfinite⟩ := valid_of_weightedCandidates hok
    obtain ⟨weighted, hok', hweighted, -, hlaw⟩ := sampleNextToken_law history hexp hvalid hfinite
    obtain rfl : target = weighted := by
      rw [hok] at hok'
      exact Except.ok.inj hok'
    have hsum : ∑ token ∈ Finset.range logits.length, chance target token =
        ∑ token ∈ Finset.range logits.length, mass (ids.zip probabilities) token :=
      hweighted.sum_chance.trans hproposal.sum_mass.symm
    -- Only drafts of positive probability count, and each of them has the law of one
    -- verification.
    have hdrafts : ∀ draft, mass (ids.zip probabilities) draft *
        probability (verifySparseDraft exp logits config history draft ids probabilities)
          (fun result => result.1.id) token =
        mass (ids.zip probabilities) draft *
          (Speculation.accept (chance target draft) (mass (ids.zip probabilities) draft) *
              (if draft = token then 1 else 0) +
            (1 - Speculation.accept (chance target draft) (mass (ids.zip probabilities) draft)) *
              ((∑ token ∈ Finset.range logits.length, excess target ids probabilities token)⁻¹ *
                ∑ other ∈ Finset.range logits.length,
                  excess target ids probabilities other * (if other = token then 1 else 0))) := by
      intro draft
      rcases (hproposal.mass_nonneg draft).eq_or_lt with hzero | hpos
      · rw [← hzero, zero_mul, zero_mul]
      · rw [probability]
        rw [(verifySparseDraft_law hok hweighted hproposal hpos).2 fun id _ =>
          if id = token then (1 : ℝ) else 0]
    rw [hproposal.mean_eq, Finset.sum_congr rfl fun draft _ => hdrafts draft, probability,
      hlaw fun id => if id = token then 1 else 0]
    exact Speculation.sum_speculation (fun i _ => hweighted.chance_nonneg i) hsum _

/-- The verification of a draft keeps the target distribution, and it fails for no draft that
the proposal can draw. -/
theorem verified_draft_law (config : SamplingConfig ℝ) (history : List Nat) (hexp : ∀ x, 0 < exp x)
    (hproposal : SparseProposal logits.length ids probabilities) :
    (∀ token, (mean (ids.zip probabilities) fun draft =>
      probability (verifySparseDraft exp logits config history draft ids probabilities)
        (fun result => result.1.id) token) =
      probability (sampleNextToken exp logits config history) Candidate.id token) ∧
    (config.validate = .ok () → (∃ logit, some logit ∈ logits) →
      ∀ draft, 0 < mass (ids.zip probabilities) draft →
        Yields (verifySparseDraft exp logits config history draft ids probabilities)
          fun result => result.1.id < logits.length) := by
  refine ⟨drafted_token_law hexp hproposal, ?_⟩
  intro hvalid hfinite draft hdraft
  obtain ⟨target, hok, hweighted, -⟩ := weightedCandidates_ok history hexp hvalid hfinite
  exact (verifySparseDraft_law hok hweighted hproposal hdraft).1.mono fun _ h => h.1

/-- Two tokens, proposed with probability a half each. -/
theorem even_proposal_law : (mean ([0, 1].zip [1 / 2, 1 / 2]) fun draft =>
      probability (verifySparseDraft Real.exp [some 0, some 1] ⟨1, 0, 1, 0, 0⟩ [] draft [0, 1]
        [1 / 2, 1 / 2]) (fun result => result.1.id) 1) =
      probability (sampleNextToken Real.exp [some 0, some 1] ⟨1, 0, 1, 0, 0⟩ []) Candidate.id 1 ∧
    Yields (verifySparseDraft Real.exp [some 0, some 1] ⟨1, 0, 1, 0, 0⟩ [] 0 [0, 1]
      [1 / 2, 1 / 2]) fun result => result.1.id < [some (0 : ℝ), some 1].length := by
  have hproposal : SparseProposal [some (0 : ℝ), some 1].length [0, 1] [1 / 2, 1 / 2] := {
    nonempty := by simp
    length := rfl
    nodup := by simp
    bound := by simp
    nonneg := by norm_num
    sum := by norm_num
  }
  have hlaw := verified_draft_law ⟨1, 0, 1, 0, 0⟩ [] Real.exp_pos hproposal
  refine ⟨hlaw.1 1, hlaw.2 ?_ ⟨0, by simp⟩ 0 ?_⟩
  · norm_num [SamplingConfig.validate, validatePenalty]
  · norm_num [mass]

end Eider.Guarantees.DraftVerification
