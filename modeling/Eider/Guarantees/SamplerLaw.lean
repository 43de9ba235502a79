import Eider.Lib.Speculation
import Eider.Source.Sampling

/-!
# The law of the sampler

With uniform draws, the sampler returns each candidate with its share of the weights, and the
verification of a draft that was drawn from its proposal returns it with the same share.
-/
namespace Eider.Guarantees.SamplerLaw
open Lib Lib.Draw Lib.Speculation Source Source.Sampling List

variable {exp : ℝ → ℝ} {config : SamplingConfig ℝ} {logits : List (Option ℝ)} {history : List Nat}
variable {weighted : List (Candidate ℝ × ℝ)} {draft : Nat}

/-! ## Candidates -/

/-- Weighted candidates of a vocabulary. -/
structure Weighted (vocab : Nat) (weighted : List (Candidate ℝ × ℝ)) : Prop where
  nonempty : weighted ≠ []
  pos : ∀ entry ∈ weighted, 0 < entry.2
  nodup : (weighted.map fun entry => entry.1.id).Nodup
  bound : ∀ entry ∈ weighted, entry.1.id < vocab

theorem candidates_sublist (entries : List (Option ℝ)) (first : Nat) :
    (((entries.zipIdx first).filterMap fun entry => entry.1.map fun logit =>
      (⟨entry.2, logit, adjustedLogit entry.2 logit config history⟩ : Candidate ℝ)).map
        Candidate.id).Sublist (List.range' first entries.length) := by
  induction entries generalizing first with
  | nil => simp
  | cons logit rest ih =>
    cases logit with
    | none => exact (ih (first + 1)).cons first
    | some logit => exact (ih (first + 1)).cons_cons first

theorem candidates_nodup : ((candidates logits config history).map Candidate.id).Nodup :=
  (candidates_sublist logits 0).nodup nodup_range'

theorem candidates_bound {candidate : Candidate ℝ}
    (h : candidate ∈ candidates logits config history) : candidate.id < logits.length := by
  have hmem := (candidates_sublist logits 0).subset (mem_map_of_mem h)
  simpa using (mem_range'_1.mp hmem).2

theorem candidates_ne_nil {logit : ℝ} (h : some logit ∈ logits) :
    candidates logits config history ≠ [] := by
  obtain ⟨id, hid⟩ := mem_iff_getElem?.mp h
  have hmem : (some logit, id) ∈ logits.zipIdx := by
    rw [mem_zipIdx_iff_getElem?]
    exact hid
  exact ne_nil_of_mem (mem_filterMap.mpr ⟨_, hmem, rfl⟩)

theorem foldl_min_mem {α : Type} (order : α → α → Ordering) (rest : List α) (first : α) :
    rest.foldl (fun best x => if order best x = .gt then x else best) first ∈ first :: rest := by
  induction rest generalizing first with
  | nil => exact mem_cons_self
  | cons x rest ih =>
    rw [foldl_cons]
    have hmem := ih (if order first x = .gt then x else first)
    rcases mem_cons.mp hmem with heq | hrest
    · rw [heq]
      split
      · exact mem_cons_of_mem _ mem_cons_self
      · exact mem_cons_self
    · exact mem_cons_of_mem _ (mem_cons_of_mem _ hrest)

theorem minBy_mem {α : Type} {order : α → α → Ordering} {l : List α} {best : α}
    (h : minBy order l = some best) : best ∈ l := by
  cases l with
  | nil => cases h
  | cons first rest =>
    cases h
    exact foldl_min_mem order rest first

theorem retainTopK_sublist (config : SamplingConfig ℝ) (l : List (Candidate ℝ)) :
    ∃ sorted, sorted.Perm l ∧ (retainTopK config l).Sublist sorted := by
  refine ⟨_, mergeSort_perm l fun left right => (candidateOrder left right).isLE, ?_⟩
  unfold retainTopK
  split
  · exact take_sublist _ _
  · exact List.Sublist.refl _

theorem retainTopK_ne_nil {l : List (Candidate ℝ)} (h : l ≠ []) : retainTopK config l ≠ [] := by
  have hsorted : 0 < (l.mergeSort fun left right => (candidateOrder left right).isLE).length := by
    rw [length_mergeSort]
    exact length_pos_iff.mpr h
  apply length_pos_iff.mp
  unfold retainTopK
  split
  · rename_i htake
    simp only [gt_iff_lt, Bool.and_eq_true, decide_eq_true_eq] at htake
    rw [length_take]
    omega
  · exact hsorted

theorem retainTopP_ne_nil {topP : ℝ} (h : weighted ≠ []) : retainTopP topP weighted ≠ [] := by
  have hpos := length_pos_iff.mpr h
  apply length_pos_iff.mp
  unfold retainTopP
  rw [length_take]
  omega

variable {vocab : Nat}

theorem softmax_weighted (hexp : ∀ x, 0 < exp x) {l : List (Candidate ℝ)} (hne : l ≠ [])
    (hnodup : (l.map Candidate.id).Nodup) (hbound : ∀ c ∈ l, c.id < vocab) :
    Weighted vocab (softmax exp config.temperature l) where
  nonempty := by
    unfold softmax
    simpa using hne
  pos := by
    intro entry hentry
    obtain ⟨c, -, rfl⟩ := mem_map.mp hentry
    exact hexp _
  nodup := by
    simpa [softmax, Function.comp_def] using hnodup
  bound := by
    intro entry hentry
    obtain ⟨c, hc, rfl⟩ := mem_map.mp hentry
    exact hbound c hc

theorem Weighted.total_pos (h : Weighted vocab weighted) : 0 < total weighted := by
  obtain ⟨first, rest, rfl⟩ := exists_cons_of_ne_nil h.nonempty
  have hrest : 0 ≤ total rest := total_nonneg fun x hx => (h.pos x (mem_cons_of_mem _ hx)).le
  have hfirst := h.pos first mem_cons_self
  have hsum : total (first :: rest) = first.2 + total rest := by simp [total]
  linarith

theorem Weighted.retain {topP scale : ℝ} (h : Weighted vocab weighted) (hscale : 0 < scale) :
    Weighted vocab (retainTopP topP (weighted.map fun entry => (entry.1, entry.2 / scale))) where
  nonempty := retainTopP_ne_nil (by simpa using h.nonempty)
  pos := by
    intro entry hentry
    obtain ⟨x, hx, rfl⟩ := mem_map.mp (mem_of_mem_take hentry)
    exact div_pos (h.pos x hx) hscale
  nodup := by
    refine List.Nodup.sublist (((take_sublist _ _).map _)) ?_
    simpa [Function.comp_def] using h.nodup
  bound := by
    intro entry hentry
    obtain ⟨x, hx, rfl⟩ := mem_map.mp (mem_of_mem_take hentry)
    exact h.bound x hx

theorem weightedCandidates_ok (history : List Nat) (hexp : ∀ x, 0 < exp x)
    (hvalid : config.validate = .ok ()) (hfinite : ∃ logit, some logit ∈ logits) :
    ∃ weighted, weightedCandidates exp logits config history = .ok weighted ∧
      Weighted logits.length weighted ∧
      (config.greedy = true → ∃ best, weighted = [(best, 1)]) := by
  obtain ⟨logit, hlogit⟩ := hfinite
  have hne : candidates logits config history ≠ [] := candidates_ne_nil hlogit
  unfold weightedCandidates
  rw [hvalid]
  dsimp only
  cases hbest : minBy candidateOrder (candidates logits config history) with
  | none =>
    obtain ⟨first, rest, hcons⟩ := exists_cons_of_ne_nil hne
    rw [hcons] at hbest
    cases hbest
  | some best =>
    dsimp only
    by_cases hgreedy : config.greedy = true
    · rw [if_pos hgreedy]
      refine ⟨_, rfl, ?_, fun _ => ⟨best, rfl⟩⟩
      exact {
        nonempty := by simp
        pos := by simp
        nodup := by simp
        bound := by simpa using candidates_bound (minBy_mem hbest)
      }
    · rw [if_neg hgreedy]
      obtain ⟨sorted, hperm, hsub⟩ := retainTopK_sublist config (candidates logits config history)
      have hsoft : Weighted logits.length
          (softmax exp config.temperature (retainTopK config (candidates logits config history))) :=
        softmax_weighted hexp (retainTopK_ne_nil hne)
          ((hsub.map Candidate.id).nodup ((hperm.map Candidate.id).nodup_iff.mpr candidates_nodup))
          (fun c hc => candidates_bound (hperm.subset (hsub.subset hc)))
      have htotal : 0 < ((softmax exp config.temperature
        (retainTopK config (candidates logits config history))).map Prod.snd).sum := hsoft.total_pos
      rw [if_neg (not_le.mpr htotal)]
      exact ⟨_, rfl, hsoft.retain htotal, fun h => absurd h hgreedy⟩

/-! ## Sampling -/

theorem exists_pos_of_total_pos (h : 0 < total weighted) : ∃ entry ∈ weighted, 0 < entry.2 := by
  induction weighted with
  | nil => simp [total] at h
  | cons entry rest ih =>
    by_cases hentry : 0 < entry.2
    · exact ⟨entry, mem_cons_self, hentry⟩
    · have hsum : total (entry :: rest) = entry.2 + total rest := by simp [total]
      obtain ⟨x, hx, hpos⟩ := ih (by linarith)
      exact ⟨x, mem_cons_of_mem _ hx, hpos⟩

theorem sampleWeighted_expect (hnonneg : ∀ entry ∈ weighted, 0 ≤ entry.2)
    (hpos : 0 < total weighted) (g : Except CudaError (Candidate ℝ) → ℝ) :
    (sampleWeighted weighted).run.expect g =
      (total weighted)⁻¹ * mean weighted fun candidate => g (.ok candidate) := by
  have hretained : ¬ (weighted.map Prod.snd).sum ≤ 0 := not_le.mpr hpos
  unfold sampleWeighted
  rw [if_neg hretained]
  cases hfallback : weighted.reverse.find? fun entry => 0 < entry.2 with
  | none =>
    obtain ⟨entry, hentry, hentryPos⟩ := exists_pos_of_total_pos hpos
    have hnone := find?_eq_none.mp hfallback entry (mem_reverse.mpr hentry)
    exact absurd hentryPos (by simpa using hnone)
  | some fallback =>
    exact expect_pick hnonneg hpos fallback.1
      (fun candidate => (.done (.ok candidate) : Draw ℝ (Except CudaError (Candidate ℝ)))) g

theorem sampleWeighted_yields (hnonneg : ∀ entry ∈ weighted, 0 ≤ entry.2)
    (hpos : 0 < total weighted) {P : Candidate ℝ → Prop} (hP : ∀ entry ∈ weighted, P entry.1) :
    Yields (sampleWeighted weighted) P := by
  refine ⟨weighted.map fun entry => (entry.1, (total weighted)⁻¹ * entry.2), ?_, fun g => ?_⟩
  · intro x hx
    obtain ⟨entry, hentry, rfl⟩ := mem_map.mp hx
    exact hP entry hentry
  · rw [sampleWeighted_expect hnonneg hpos, mean_scale]

section
variable (weighted : List (Candidate ℝ × ℝ))

/-- The target's tokens with their weights. -/
def byToken : List (Nat × ℝ) :=
  weighted.map fun entry => (entry.1.id, entry.2)

/-- The probability of a token under the weights. -/
noncomputable def chance (token : Nat) : ℝ := mass (byToken weighted) token / total weighted

end

theorem mean_byToken (hbound : ∀ entry ∈ weighted, entry.1.id < vocab) (g : Nat → ℝ) :
    (mean weighted fun candidate => g candidate.id) =
      ∑ token ∈ Finset.range vocab, mass (byToken weighted) token * g token := by
  rw [← mean_map Candidate.id weighted g]
  refine mean_eq_sum ?_ g
  intro x hx
  obtain ⟨entry, hentry, rfl⟩ := mem_map.mp hx
  exact Finset.mem_range.mpr (hbound entry hentry)

theorem mean_chance (hbound : ∀ entry ∈ weighted, entry.1.id < vocab) (g : Nat → ℝ) :
    ((total weighted)⁻¹ * mean weighted fun candidate => g candidate.id) =
      ∑ token ∈ Finset.range vocab, chance weighted token * g token := by
  rw [mean_byToken hbound, Finset.mul_sum]
  refine Finset.sum_congr rfl fun token _ => ?_
  unfold chance
  ring

theorem Weighted.chance_nonneg (h : Weighted vocab weighted) (token : Nat) :
    0 ≤ chance weighted token := by
  refine div_nonneg (mass_nonneg ?_ token) h.total_pos.le
  intro x hx
  obtain ⟨entry, hentry, rfl⟩ := mem_map.mp hx
  exact (h.pos entry hentry).le

theorem Weighted.sum_chance (h : Weighted vocab weighted) :
    ∑ token ∈ Finset.range vocab, chance weighted token = 1 := by
  have hmean := mean_chance h.bound fun _ => 1
  simp only [mul_one] at hmean
  rw [← hmean]
  have htotal : (mean weighted fun _ => 1) = total weighted := by simp [mean, total]
  rw [htotal, inv_mul_cancel₀ h.total_pos.ne']

theorem sampleNextToken_law (history : List Nat) (hexp : ∀ x, 0 < exp x)
    (hvalid : config.validate = .ok ()) (hfinite : ∃ logit, some logit ∈ logits) :
    ∃ weighted, weightedCandidates exp logits config history = .ok weighted ∧
      Weighted logits.length weighted ∧
      Yields (sampleNextToken exp logits config history) (fun token => token.id < logits.length) ∧
      ∀ g : Nat → ℝ, value (sampleNextToken exp logits config history) (fun token => g token.id) =
        ∑ token ∈ Finset.range logits.length, chance weighted token * g token := by
  obtain ⟨weighted, hok, hweighted, hgreedy⟩ := weightedCandidates_ok history hexp hvalid hfinite
  refine ⟨weighted, hok, hweighted, ?_⟩
  have hnonneg : ∀ entry ∈ weighted, 0 ≤ entry.2 :=
    fun entry hentry => (hweighted.pos entry hentry).le
  unfold sampleNextToken
  rw [hok]
  by_cases h : config.greedy = true
  · obtain ⟨best, rfl⟩ := hgreedy h
    rw [h]
    refine ⟨yields_pure (hweighted.bound _ mem_cons_self), fun g => ?_⟩
    rw [← mean_chance hweighted.bound]
    simp [mean, total]
  · rw [Bool.not_eq_true] at h
    rw [h]
    refine ⟨sampleWeighted_yields hnonneg hweighted.total_pos hweighted.bound, fun g => ?_⟩
    rw [← mean_chance hweighted.bound]
    exact sampleWeighted_expect hnonneg hweighted.total_pos _

/-! ## The argmax path -/

theorem adjustedLogit_fast (h : config.usesFastArgmax = true) (history : List Nat) (token : Nat)
    (logit : ℝ) : adjustedLogit token logit config history = logit := by
  simp only [SamplingConfig.usesFastArgmax, Bool.and_eq_true, decide_eq_true_eq] at h
  simp [adjustedLogit, h.1.2, h.2]

/-- A later candidate comes first only by a greater logit. -/
theorem candidateOrder_gt {best x : Candidate ℝ} (hid : best.id < x.id) :
    candidateOrder best x = .gt ↔ x.adjustedLogit > best.adjustedLogit := by
  have hcompare : compare best.id x.id = .lt := Nat.compare_eq_lt.mpr hid
  unfold candidateOrder
  rw [hcompare]
  rcases lt_trichotomy x.adjustedLogit best.adjustedLogit with h | h | h
  · rw [compare_lt_iff_lt.mpr h]
    simp [h.le]
  · rw [h, compare_eq_iff_eq.mpr rfl]
    simp
  · rw [compare_gt_iff_gt.mpr h]
    simp [h]

/-- The candidates of a row's entries. -/
noncomputable def entryCandidates (config : SamplingConfig ℝ) (history : List Nat)
    (entries : List (Option ℝ × Nat)) : List (Candidate ℝ) :=
  entries.filterMap fun entry => entry.1.map fun logit =>
    ⟨entry.2, logit, adjustedLogit entry.2 logit config history⟩

theorem foldl_argmaxStep (hfast : config.usesFastArgmax = true) (row : List (Option ℝ))
    (first : Nat) (best : Candidate ℝ) (hid : best.id < first)
    (hbest : best.adjustedLogit = best.logit) :
    (row.zipIdx first).foldl argmaxStep (some (best.logit, best.id)) =
      let winner := (entryCandidates config history (row.zipIdx first)).foldl
        (fun best x => if candidateOrder best x = .gt then x else best) best
      some (winner.logit, winner.id) := by
  induction row generalizing first best with
  | nil => rfl
  | cons logit row ih =>
    rw [zipIdx_cons, foldl_cons, entryCandidates, filterMap_cons]
    cases logit with
    | none => exact ih (first + 1) best (by omega) hbest
    | some logit =>
      have hadjusted := adjustedLogit_fast hfast history first logit
      have horder : candidateOrder best ⟨first, logit, adjustedLogit first logit config history⟩ =
          .gt ↔ logit > best.logit := by
        rw [candidateOrder_gt hid, hadjusted, hbest]
      dsimp only [Option.map_some, argmaxStep]
      rw [foldl_cons]
      by_cases hgt : logit > best.logit
      · rw [if_pos hgt, if_pos (horder.mpr hgt)]
        exact ih (first + 1) ⟨first, logit, adjustedLogit first logit config history⟩
          (Nat.lt_succ_self first) hadjusted
      · rw [if_neg hgt, if_neg (fun h => hgt (horder.mp h))]
        exact ih (first + 1) best (by omega) hbest

theorem argmaxStep_minBy (hfast : config.usesFastArgmax = true) (row : List (Option ℝ))
    (first : Nat) :
    (row.zipIdx first).foldl argmaxStep none =
      (minBy candidateOrder (entryCandidates config history (row.zipIdx first))).map
        fun winner => (winner.logit, winner.id) := by
  induction row generalizing first with
  | nil => rfl
  | cons logit row ih =>
    cases logit with
    | none => exact ih (first + 1)
    | some logit =>
      exact foldl_argmaxStep hfast row (first + 1)
        ⟨first, logit, adjustedLogit first logit config history⟩ (Nat.lt_succ_self first)
        (adjustedLogit_fast hfast history first logit)

/-- Without penalties the greedy sampler returns the argmax of the row. -/
theorem sampleNextToken_argmax (history : List Nat) (hvalid : config.validate = .ok ())
    (hfast : config.usesFastArgmax = true) (hfinite : ∃ logit, some logit ∈ logits) :
    ∃ token, sampleNextToken exp logits config history = pure token ∧
      token.id = argmaxF32 logits := by
  obtain ⟨logit, hlogit⟩ := hfinite
  have hgreedy : config.greedy = true := by
    simp only [SamplingConfig.usesFastArgmax, Bool.and_eq_true] at hfast
    exact hfast.1.1
  have hargmax : argmaxF32 logits = ((minBy candidateOrder (candidates logits config history)).map
      fun winner => (winner.logit, winner.id)).elim 0 Prod.snd :=
    congrArg (fun best : Option (ℝ × Nat) => best.elim 0 Prod.snd)
      (argmaxStep_minBy hfast logits 0)
  cases hbest : minBy candidateOrder (candidates logits config history) with
  | none =>
    have hne : candidates logits config history ≠ [] := candidates_ne_nil hlogit
    obtain ⟨first, rest, hcons⟩ := exists_cons_of_ne_nil hne
    rw [hcons] at hbest
    cases hbest
  | some best =>
    rw [hbest] at hargmax
    refine ⟨best, ?_, hargmax.symm⟩
    unfold sampleNextToken weightedCandidates
    rw [hvalid]
    dsimp only
    rw [hbest]
    dsimp only
    rw [if_pos hgreedy, hgreedy]

/-! ## Verification of a draft -/

/-- A sparse proposal over a vocabulary. -/
structure SparseProposal (vocab : Nat) (ids : List Nat) (probabilities : List ℝ) : Prop where
  nonempty : ids ≠ []
  length : ids.length = probabilities.length
  nodup : ids.Nodup
  bound : ∀ id ∈ ids, id < vocab
  nonneg : ∀ p ∈ probabilities, 0 ≤ p
  sum : probabilities.sum = 1

section
variable {vocab : Nat} {ids : List Nat} {probabilities : List ℝ} {target : List (Candidate ℝ × ℝ)}

section
variable (h : SparseProposal vocab ids probabilities)
include h

theorem SparseProposal.valid : invalidProposal vocab ids probabilities = false := by
  have hle : ∀ p ∈ probabilities, p ≤ 1 := by
    intro p hp
    rw [← h.sum]
    exact single_le_sum h.nonneg p hp
  have hempty : ids.isEmpty = false := by simpa using h.nonempty
  have hbound : ids.any (vocab ≤ ·) = false := by
    simpa using h.bound
  have hrange : probabilities.any (fun p => p < 0 || 1 < p) = false := by
    simp only [any_eq_false, Bool.or_eq_true, decide_eq_true_eq, not_or, not_lt]
    exact fun p hp => ⟨h.nonneg p hp, hle p hp⟩
  unfold invalidProposal
  simp [hempty, h.length, hbound, h.nodup, hrange, h.sum]

theorem SparseProposal.fst_zip : (ids.zip probabilities).map Prod.fst = ids :=
  map_fst_zip h.length.le

/-- The probability that the check looks up is the weight of the token. -/
theorem SparseProposal.probability_eq (token : Nat) :
    proposalProbability ids probabilities token = mass (ids.zip probabilities) token := by
  unfold proposalProbability
  cases hindex : ids.idxOf? token with
  | none =>
    rw [idxOf?_eq_none_iff] at hindex
    refine (mass_eq_zero ?_).symm
    intro x hx heq
    exact hindex (heq ▸ (of_mem_zip hx).1)
  | some index =>
    obtain ⟨hlt, hget, -⟩ := idxOf?_eq_some_iff.mp hindex
    have hltProbability : index < probabilities.length := by
      rw [← h.length]
      exact hlt
    have hmem : (token, probabilities[index]) ∈ ids.zip probabilities := by
      rw [← hget]
      exact mem_iff_getElem.mpr ⟨index, by rw [length_zip]; omega, by simp⟩
    rw [mass_eq_of_mem (by rw [h.fst_zip]; exact h.nodup) hmem]
    simp [hltProbability]

theorem SparseProposal.mass_nonneg (token : Nat) : 0 ≤ mass (ids.zip probabilities) token :=
  Draw.mass_nonneg (fun x hx => h.nonneg x.2 (of_mem_zip hx).2) token

theorem SparseProposal.mean_eq (g : Nat → ℝ) :
    mean (ids.zip probabilities) g =
      ∑ token ∈ Finset.range vocab, mass (ids.zip probabilities) token * g token :=
  mean_eq_sum (fun x hx => Finset.mem_range.mpr (h.bound x.1 (of_mem_zip hx).1)) g

theorem SparseProposal.sum_mass :
    ∑ token ∈ Finset.range vocab, mass (ids.zip probabilities) token = 1 := by
  have hmean := h.mean_eq fun _ => 1
  simp only [mul_one] at hmean
  have hsnd : (ids.zip probabilities).map Prod.snd = probabilities := map_snd_zip h.length.ge
  have htotal : (mean (ids.zip probabilities) fun _ => 1) = probabilities.sum := by
    simp [mean, hsnd]
  rw [← hmean, htotal, h.sum]

end

theorem Weighted.byToken_nodup (h : Weighted vocab target) :
    ((byToken target).map Prod.fst).Nodup := by
  have hnodup := h.nodup
  simpa [byToken, Function.comp_def] using hnodup

theorem Weighted.chance_entry (h : Weighted vocab target) {entry : Candidate ℝ × ℝ}
    (hentry : entry ∈ target) : chance target entry.1.id = entry.2 / total target := by
  have hmem : (entry.1.id, entry.2) ∈ byToken target := mem_map.mpr ⟨entry, hentry, rfl⟩
  rw [chance, mass_eq_of_mem h.byToken_nodup hmem]

theorem chance_eq_zero {token : Nat} (h : ∀ entry ∈ target, entry.1.id ≠ token) :
    chance target token = 0 := by
  rw [chance, mass_eq_zero, zero_div]
  intro x hx
  obtain ⟨entry, hentry, rfl⟩ := mem_map.mp hx
  exact h entry hentry

/-- What the target has in excess of the proposal. -/
noncomputable def excess (target : List (Candidate ℝ × ℝ)) (ids : List Nat)
    (probabilities : List ℝ) (token : Nat) : ℝ :=
  max (chance target token - mass (ids.zip probabilities) token) 0

section
variable (hweighted : Weighted vocab target)
include hweighted

section
variable (hproposal : SparseProposal vocab ids probabilities)
include hproposal

theorem residual_mass (token : Nat) :
    mass (byToken (residualWeights ids probabilities (total target) target)) token =
      excess target ids probabilities token := by
  have htokens : (byToken (residualWeights ids probabilities (total target) target)).map Prod.fst =
      (byToken target).map Prod.fst := by
    simp [byToken, residualWeights, Function.comp_def]
  unfold excess
  by_cases h : ∃ entry ∈ target, entry.1.id = token
  · obtain ⟨entry, hentry, rfl⟩ := h
    refine mass_eq_of_mem (by rw [htokens]; exact hweighted.byToken_nodup) ?_
    refine mem_map.mpr ⟨(entry.1, max (entry.2 / total target -
      proposalProbability ids probabilities entry.1.id) 0), ?_, ?_⟩
    · exact mem_map.mpr ⟨entry, hentry, rfl⟩
    · rw [hweighted.chance_entry hentry, hproposal.probability_eq]
  · push Not at h
    rw [chance_eq_zero h, mass_eq_zero, zero_sub, max_eq_right]
    · exact neg_nonpos.mpr (hproposal.mass_nonneg token)
    · intro x hx
      obtain ⟨entry, hentry, rfl⟩ := mem_map.mp hx
      obtain ⟨source, hsource, rfl⟩ := mem_map.mp hentry
      exact h source hsource

omit hproposal in
omit hweighted in
theorem residual_nonneg (ids : List Nat) (probabilities : List ℝ)
    (target : List (Candidate ℝ × ℝ)) :
    ∀ entry ∈ residualWeights ids probabilities (total target) target, 0 ≤ entry.2 := by
  intro entry hentry
  obtain ⟨x, -, rfl⟩ := mem_map.mp hentry
  exact le_max_right _ _

omit hproposal in
theorem residual_bound (ids : List Nat) (probabilities : List ℝ) :
    ∀ entry ∈ residualWeights ids probabilities (total target) target, entry.1.id < vocab := by
  intro entry hentry
  obtain ⟨x, hx, rfl⟩ := mem_map.mp hentry
  exact hweighted.bound x hx

theorem residual_mean (g : Nat → ℝ) :
    (mean (residualWeights ids probabilities (total target) target) fun candidate =>
      g candidate.id) =
      ∑ token ∈ Finset.range vocab, excess target ids probabilities token * g token := by
  rw [mean_byToken (residual_bound hweighted ids probabilities)]
  exact Finset.sum_congr rfl fun token _ => by rw [residual_mass hweighted hproposal]

theorem residual_total :
    total (residualWeights ids probabilities (total target) target) =
      ∑ token ∈ Finset.range vocab, excess target ids probabilities token := by
  have hmean := residual_mean hweighted hproposal fun _ => 1
  simp only [mul_one] at hmean
  rw [← hmean]
  simp [mean, total]

omit hproposal in
omit hweighted in
theorem Weighted.find_chance (h : Weighted vocab target) (draft : Nat) :
    ((target.find? fun entry => entry.1.id = draft).map fun entry =>
      entry.2 / total target).getD 0 = chance target draft := by
  cases hfind : target.find? fun entry => entry.1.id = draft with
  | none =>
    refine (chance_eq_zero fun entry hentry heq => ?_).symm
    exact absurd heq (by simpa using find?_eq_none.mp hfind entry hentry)
  | some entry =>
    have hid : entry.1.id = draft := by simpa using find?_some hfind
    rw [← hid, h.chance_entry (mem_of_find?_eq_some hfind)]
    rfl

omit hproposal in
theorem accept_law (hpositive : 0 < chance target draft) :
    Yields (acceptDraft (target.find? fun entry => entry.1.id = draft))
      (fun result => result.1.id < vocab ∧ (result.2 = true → result.1.id = draft)) ∧
    ∀ g : Nat → Bool → ℝ, value (acceptDraft (target.find? fun entry => entry.1.id = draft))
      (fun result => g result.1.id result.2) = g draft true := by
  cases hfind : target.find? fun entry => entry.1.id = draft with
  | none =>
    have hzero := hweighted.find_chance draft
    rw [hfind] at hzero
    simp only [Option.map_none, Option.getD_none] at hzero
    linarith
  | some entry =>
    have hid : entry.1.id = draft := by simpa using find?_some hfind
    refine ⟨yields_pure ⟨hweighted.bound entry (mem_of_find?_eq_some hfind), fun _ => hid⟩,
      fun g => ?_⟩
    rw [acceptDraft, value_pure, hid]

theorem reject_law (hless : chance target draft < mass (ids.zip probabilities) draft) :
    Yields (rejectDraft (residualWeights ids probabilities (total target) target))
      (fun result => result.1.id < vocab ∧ (result.2 = true → result.1.id = draft)) ∧
    ∀ g : Nat → Bool → ℝ,
      value (rejectDraft (residualWeights ids probabilities (total target) target))
        (fun result => g result.1.id result.2) =
      (∑ token ∈ Finset.range vocab, excess target ids probabilities token)⁻¹ *
        ∑ token ∈ Finset.range vocab, excess target ids probabilities token * g token false := by
  have hmem : draft ∈ Finset.range vocab := by
    by_contra hnot
    refine absurd hless (not_lt.mpr ?_)
    rw [mass_eq_zero]
    · exact hweighted.chance_nonneg draft
    · intro x hx heq
      exact hnot (Finset.mem_range.mpr (heq ▸ hproposal.bound x.1 (of_mem_zip hx).1))
  have hpos : 0 < total (residualWeights ids probabilities (total target) target) := by
    rw [residual_total hweighted hproposal]
    exact excess_pos (hweighted.sum_chance.trans hproposal.sum_mass.symm) hmem hless
  have hnonneg := residual_nonneg ids probabilities target
  have hyields : Yields (sampleWeighted (residualWeights ids probabilities (total target) target))
      (fun token => token.id < vocab) :=
    sampleWeighted_yields hnonneg hpos (residual_bound hweighted ids probabilities)
  constructor
  · refine hyields.bind fun token htoken => ?_
    exact yields_pure ⟨htoken, fun h => absurd h Bool.false_ne_true⟩
  · intro g
    rw [rejectDraft, value_bind]
    refine (sampleWeighted_expect hnonneg hpos _).trans ?_
    rw [residual_total hweighted hproposal, ← residual_mean hweighted hproposal]
    rfl

end

end

/-- The law of the verification of a draft that its proposal can draw. -/
theorem verifySparseDraft_law (hok : weightedCandidates exp logits config history = .ok target)
    (hweighted : Weighted logits.length target)
    (hproposal : SparseProposal logits.length ids probabilities)
    (hdraft : 0 < mass (ids.zip probabilities) draft) :
    Yields (verifySparseDraft exp logits config history draft ids probabilities)
      (fun result => result.1.id < logits.length ∧ (result.2 = true → result.1.id = draft)) ∧
    ∀ g : Nat → Bool → ℝ,
      value (verifySparseDraft exp logits config history draft ids probabilities)
        (fun result => g result.1.id result.2) =
      accept (chance target draft) (mass (ids.zip probabilities) draft) * g draft true +
        (1 - accept (chance target draft) (mass (ids.zip probabilities) draft)) *
          ((∑ token ∈ Finset.range logits.length, excess target ids probabilities token)⁻¹ *
            ∑ token ∈ Finset.range logits.length,
              excess target ids probabilities token * g token false) := by
  have hq := hproposal.probability_eq draft
  unfold proposalProbability at hq
  cases hindex : ids.idxOf? draft with
  | none =>
    rw [hindex] at hq
    simp only [Option.map_none, Option.getD_none] at hq
    linarith
  | some index =>
    rw [hindex] at hq
    simp only [Option.map_some, Option.getD_some] at hq
    have hp := hweighted.find_chance draft
    unfold verifySparseDraft
    rw [hproposal.valid, if_neg Bool.false_ne_true, hindex]
    dsimp only
    rw [hq, if_neg (not_le.mpr hdraft), hok]
    dsimp only
    rw [show (target.map Prod.snd).sum = total target from rfl, hp]
    by_cases hge : chance target draft ≥ mass (ids.zip probabilities) draft
    · obtain ⟨hyields, hvalue⟩ := accept_law hweighted (hdraft.trans_le hge)
      rw [if_pos hge]
      refine ⟨hyields, fun g => ?_⟩
      rw [hvalue, Speculation.accept, if_pos hge]
      ring
    · have hless := not_le.mp hge
      obtain ⟨hyields, hvalue⟩ := reject_law hweighted hproposal hless
      have hnonneg : 0 ≤ chance target draft / mass (ids.zip probabilities) draft :=
        div_nonneg (hweighted.chance_nonneg draft) hdraft.le
      have hle : chance target draft / mass (ids.zip probabilities) draft ≤ 1 :=
        div_le_one_of_le₀ hless.le hdraft.le
      rw [if_neg hge]
      constructor
      · refine yields_coin hnonneg hle (fun hne => (accept_law hweighted ?_).1) hyields
        exact lt_of_le_of_ne (hweighted.chance_nonneg draft) fun heq => hne (by rw [← heq, zero_div])
      · intro g
        rw [value_coin hnonneg hle, hvalue, Speculation.accept, if_neg hge]
        by_cases hzero : chance target draft = 0
        · rw [hzero, zero_div, zero_mul, zero_mul]
        · rw [(accept_law hweighted
            (lt_of_le_of_ne (hweighted.chance_nonneg draft) (Ne.symm hzero))).2]

end

end Eider.Guarantees.SamplerLaw
