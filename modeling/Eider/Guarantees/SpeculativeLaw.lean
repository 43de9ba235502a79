import Mathlib.Analysis.Complex.Exponential
import Eider.Guarantees.SamplerLaw
import Eider.Source.Nemotron3.Proposal

/-!
# Cycles with drafts have the law of the plain sampler

A cycle walks the candidate lattice, verifies the drafts row by row and emits the accepted ones
and one more token. A function of the emitted tokens is fair if its value is the expectation
over the next token that the plain sampler would give; the expectation of a fair function over
a whole cycle is its value before the cycle.
-/
namespace Eider.Guarantees.SpeculativeLaw
open Lib Lib.Draw Lib.Speculation Source Source.Sampling List
open Source.Nemotron3 Guarantees.SamplerLaw

variable {best : Nat} {weighted : List (Candidate ℝ × ℝ)} {f : List Nat → ℝ}

/-- A target: logits behind every token sequence, with a finite one among them. -/
structure Target (vocab : Nat) where
  logits : List Nat → List (Option ℝ)
  length : ∀ history, (logits history).length = vocab
  finite : ∀ history, ∃ logit, some logit ∈ logits history

/-- What `walk` and `verify_sparse_draft` check of a lattice. -/
structure ValidLattice (vocab : Nat) (lattice : CandidateLattice ℝ) : Prop where
  some_draft : 1 ≤ lattice.drafts
  drafts_le : lattice.drafts ≤ 7
  ids_length : lattice.ids.length = lattice.drafts * 8
  scores_length : lattice.scores.length = lattice.drafts * 64
  scores_finite : none ∉ lattice.scores
  nodup : ∀ step < lattice.drafts, ((lattice.ids.drop (step * 8)).take 8).Nodup
  bound : ∀ id ∈ lattice.ids, id < vocab

variable {exp : ℝ → ℝ} {config : SamplingConfig ℝ} {vocab : Nat}

/-! ## One slot of the walk -/

theorem bestCandidate_lt (row : List ℝ) (ids : List Nat) : bestCandidate row ids < 8 := by
  unfold bestCandidate
  cases hmin : minBy (fun a b => (compare (row.getD b 0) (row.getD a 0)).then
      (compare (ids.getD a 0) (ids.getD b 0))) (range 8) with
  | none => exact Nat.zero_lt_succ 7
  | some best => exact mem_range.mp (minBy_mem hmin)

theorem pickCumulative_eq (draw : ℝ) (probabilities : List ℝ) (index : Nat) (cumulative : ℝ)
    (last : Nat) : pickCumulative draw probabilities index cumulative last =
      pick ((List.range' index probabilities.length).zip probabilities) last (draw - cumulative) := by
  induction probabilities generalizing index cumulative with
  | nil => rfl
  | cons p rest ih =>
    rw [pickCumulative, ih, length_cons, range'_succ, zip_cons_cons, pick]
    have hlt : draw < cumulative + p ↔ draw - cumulative < p := by
      constructor <;> intro h <;> linarith
    by_cases h : draw < cumulative + p
    · rw [if_pos h, if_pos (hlt.mp h)]
    · rw [if_neg h, if_neg (fun h' => h (hlt.mpr h')), sub_add_eq_sub_sub]

theorem selectIndex_eq (probabilities : List ℝ) : ∃ last, ∀ draw,
    selectIndex probabilities draw =
      pick ((List.range probabilities.length).zip probabilities) last draw := by
  refine ⟨((range probabilities.length).reverse.find? fun i =>
    0 < probabilities.getD i 0).getD 0, fun draw => ?_⟩
  unfold selectIndex
  rw [pickCumulative_eq, sub_zero, range_eq_range']

/-- The weights of a slot, by index. -/
noncomputable def slotLaw (config : SamplingConfig ℝ) (probabilities : List ℝ) (best : Nat) :
    List (Nat × ℝ) :=
  if config.greedy then [(best, 1)] else (List.range probabilities.length).zip probabilities

theorem mean_oneHot (ids : List Nat) (best : Nat) (h : best < ids.length) (g : Nat → ℝ) :
    mean (ids.zip ((List.replicate ids.length (0 : ℝ)).set best 1)) g = g (ids.getD best 0) := by
  have hzero : ∀ rest : List Nat, mean (rest.zip (replicate rest.length (0 : ℝ))) g = 0 := by
    intro rest
    induction rest with
    | nil => rfl
    | cons id rest ih =>
      rw [length_cons, replicate_succ, zip_cons_cons]
      simpa [mean] using ih
  induction ids generalizing best with
  | nil => exact absurd h (Nat.not_lt_zero _)
  | cons id rest ih =>
    rw [length_cons, replicate_succ]
    cases best with
    | zero =>
      have hrest := hzero rest
      simp only [mean] at hrest
      simp [mean, hrest]
    | succ best =>
      rw [length_cons, Nat.add_lt_add_iff_right] at h
      rw [set_cons_succ, zip_cons_cons, getD_cons_succ, ← ih best h]
      simp [mean]

section
variable {row : List ℝ} {ids : List Nat}

theorem slotProbabilities_length (hrow : row.length = 8) (best : Nat) :
    (slotProbabilities exp config row best).length = 8 := by
  unfold slotProbabilities
  split <;> simp [hrow]

theorem softmaxRow (hexp : ∀ x, 0 < exp x) (hrow : row.length = 8)
    (hgreedy : ¬ config.greedy = true) (best : Nat) :
    (∀ p ∈ slotProbabilities exp config row best, 0 < p) ∧
    (slotProbabilities exp config row best).sum = 1 := by
  unfold slotProbabilities
  rw [if_neg hgreedy]
  generalize hweights : (row.map fun score =>
    exp ((score - row.getD best 0) / config.temperature)) = weights
  have hpos : ∀ weight ∈ weights, 0 < weight := by
    intro weight hweight
    rw [← hweights] at hweight
    obtain ⟨score, -, rfl⟩ := mem_map.mp hweight
    exact hexp _
  have hne : weights ≠ [] := by
    intro hnil
    rw [hnil, map_eq_nil_iff] at hweights
    rw [hweights] at hrow
    exact absurd hrow (by decide)
  have hsum : 0 < weights.sum := sum_pos weights hpos hne
  constructor
  · intro p hp
    obtain ⟨weight, hweight, rfl⟩ := mem_map.mp hp
    exact div_pos (hpos weight hweight) hsum
  · have hscale : (weights.map (· / weights.sum)).sum = weights.sum / weights.sum := by
      simp only [div_eq_mul_inv]
      rw [sum_map_mul_right, map_id']
    rw [hscale, div_self hsum.ne']

theorem sum_oneHot (n best : Nat) (h : best < n) :
    ((List.replicate n (0 : ℝ)).set best 1).sum = 1 := by
  have hmean := mean_oneHot (replicate n 0) best (by simpa using h) fun _ => 1
  have hsnd : ((replicate n 0).zip ((replicate n (0 : ℝ)).set best 1)).map Prod.snd =
      (replicate n (0 : ℝ)).set best 1 := map_snd_zip (by simp)
  simpa [mean, hsnd] using hmean

theorem slot_proposal (hexp : ∀ x, 0 < exp x) (hrow : row.length = 8) (hids : ids.length = 8)
    (hnodup : ids.Nodup) (hbound : ∀ id ∈ ids, id < vocab) (hbest : best < 8) :
    SparseProposal vocab ids (slotProbabilities exp config row best) where
  nonempty := by
    intro hnil
    rw [hnil] at hids
    exact absurd hids (by decide)
  length := by rw [hids, slotProbabilities_length hrow]
  nodup := hnodup
  bound := hbound
  nonneg := by
    intro p hp
    by_cases hgreedy : config.greedy = true
    · rw [slotProbabilities, if_pos hgreedy] at hp
      rcases mem_or_eq_of_mem_set hp with hzero | hone
      · rw [eq_of_mem_replicate hzero]
      · rw [hone]
        exact zero_le_one
    · exact ((softmaxRow hexp hrow hgreedy best).1 p hp).le
  sum := by
    by_cases hgreedy : config.greedy = true
    · rw [slotProbabilities, if_pos hgreedy]
      exact sum_oneHot 8 best hbest
    · exact (softmaxRow hexp hrow hgreedy best).2

/-- A slot's draw chooses an index by the slot's weights. -/
theorem slot_expect {β : Type} (hexp : ∀ x, 0 < exp x) (hrow : row.length = 8) (best : Nat)
    (next : Nat → Sampled ℝ β) (g : Except CudaError β → ℝ) :
    (if config.greedy then next best
      else ExceptT.mk (.draw fun draw =>
        (next (selectIndex (slotProbabilities exp config row best) draw)).run)).run.expect g =
      mean (slotLaw config (slotProbabilities exp config row best) best)
        fun index => (next index).run.expect g := by
  unfold slotLaw
  by_cases hgreedy : config.greedy = true
  · rw [if_pos hgreedy, if_pos hgreedy]
    simp [mean]
  · rw [if_neg hgreedy, if_neg hgreedy]
    obtain ⟨hpos, hsum⟩ := softmaxRow hexp hrow hgreedy best
    generalize slotProbabilities exp config row best = probabilities at hpos hsum ⊢
    obtain ⟨last, hselect⟩ := selectIndex_eq probabilities
    have hnonneg : ∀ x ∈ (range probabilities.length).zip probabilities, 0 ≤ x.2 :=
      fun x hx => (hpos x.2 (of_mem_zip hx).2).le
    have htotal : total ((range probabilities.length).zip probabilities) = 1 := by
      unfold total
      rw [map_snd_zip (by simp), hsum]
    have hexpect := expect_pick hnonneg (by rw [htotal]; exact zero_lt_one) last
      (fun index => (next index).run) g
    rw [htotal, inv_one, one_mul] at hexpect
    simp only [mul_one] at hexpect
    rw [← hexpect]
    simp only [hselect]
    rfl

theorem slot_mean (hrow : row.length = 8) (hids : ids.length = 8) (hbest : best < 8) (g : Nat → ℝ) :
    (mean (slotLaw config (slotProbabilities exp config row best) best)
      fun index => g (ids.getD index 0)) =
      mean (ids.zip (slotProbabilities exp config row best)) g := by
  unfold slotLaw
  by_cases hgreedy : config.greedy = true
  · rw [if_pos hgreedy, slotProbabilities, if_pos hgreedy, ← hids, mean_oneHot ids best (by omega)]
    simp [mean]
  · rw [if_neg hgreedy, ← mean_map (fun index => ids.getD index 0)]
    congr 1
    have htokens : (range (slotProbabilities exp config row best).length).map
        (fun index => ids.getD index 0) = ids := by
      rw [slotProbabilities_length hrow, ← hids]
      exact ext_getElem (by simp) fun i _ hi => by simp [hi]
    have hzip : ids.zip (slotProbabilities exp config row best) =
        ((range (slotProbabilities exp config row best).length).zip
          (slotProbabilities exp config row best)).map
          (Prod.map (fun index => ids.getD index 0) id) := by
      rw [← zip_map_left, htokens]
    rw [hzip]
    rfl

theorem mass_slot {probabilities : List ℝ} (hlength : ids.length = probabilities.length)
    (hnodup : ids.Nodup) {index : Nat} (hindex : index < ids.length) :
    mass (ids.zip probabilities) (ids.getD index 0) = probabilities.getD index 0 := by
  have hmem : (ids.getD index 0, probabilities.getD index 0) ∈ ids.zip probabilities := by
    refine mem_iff_getElem.mpr ⟨index, by rw [length_zip]; omega, ?_⟩
    simp [hindex, hlength ▸ hindex]
  refine mass_eq_of_mem ?_ hmem
  rw [map_fst_zip hlength.le]
  exact hnodup

theorem slot_draws (hexp : ∀ x, 0 < exp x) (hrow : row.length = 8) (hids : ids.length = 8)
    (hnodup : ids.Nodup) (hbest : best < 8) :
    ∀ x ∈ slotLaw config (slotProbabilities exp config row best) best, x.1 < 8 ∧
      0 < mass (ids.zip (slotProbabilities exp config row best)) (ids.getD x.1 0) := by
  have hlength : ids.length = (slotProbabilities exp config row best).length := by
    rw [slotProbabilities_length hrow, hids]
  intro x hx
  unfold slotLaw at hx
  split at hx
  · rename_i hgreedy
    obtain rfl := mem_singleton.mp hx
    refine ⟨hbest, ?_⟩
    rw [mass_slot hlength hnodup (by omega), slotProbabilities, if_pos hgreedy]
    simp [hbest]
  · rename_i hgreedy
    have hindex : x.1 < 8 := by
      have hmem := mem_range.mp (of_mem_zip hx).1
      rw [slotProbabilities_length hrow] at hmem
      exact hmem
    refine ⟨hindex, ?_⟩
    have hlt : x.1 < (slotProbabilities exp config row best).length := by omega
    rw [mass_slot hlength hnodup (by omega), getD_eq_getElem?_getD,
      getElem?_eq_getElem hlt]
    exact (softmaxRow hexp hrow hgreedy best).1 _ (getElem_mem _)

end

/-! ## The walk -/

/-- A proposed token that its own slot can draw. -/
def Drawn (vocab : Nat) (proposed : ProposedToken ℝ) : Prop :=
  SparseProposal vocab proposed.candidates proposed.probabilities ∧
    0 < mass (proposed.candidates.zip proposed.probabilities) proposed.token

/-- The arrays of a valid lattice, from a step on. -/
structure LatticeFrom (vocab : Nat) (ids : List Nat) (scores : List ℝ) (step remaining : Nat) :
    Prop where
  ids_length : ids.length = (step + remaining) * 8
  scores_length : scores.length = (step + remaining) * 64
  nodup : ∀ index < step + remaining, ((ids.drop (index * 8)).take 8).Nodup
  bound : ∀ id ∈ ids, id < vocab

section
variable {ids : List Nat} {scores : List ℝ} {step remaining predecessor : Nat}

/-- The candidates of a step. -/
abbrev slotIds (ids : List Nat) (step : Nat) : List Nat := (ids.drop (step * 8)).take 8

/-- The scores of a step behind a predecessor. -/
abbrev slotRow (scores : List ℝ) (step predecessor : Nat) : List ℝ :=
  (scores.drop ((step * 8 + predecessor) * 8)).take 8

/-- The candidate of a step that the greedy walk takes. -/
noncomputable abbrev slotBest (ids : List Nat) (scores : List ℝ) (step predecessor : Nat) : Nat :=
  bestCandidate (slotRow scores step predecessor) (slotIds ids step)

/-- The conditional probabilities of a step. -/
noncomputable abbrev slotChances (exp : ℝ → ℝ) (config : SamplingConfig ℝ) (ids : List Nat)
    (scores : List ℝ) (step predecessor : Nat) : List ℝ :=
  slotProbabilities exp config (slotRow scores step predecessor)
    (slotBest ids scores step predecessor)

section
variable (h : LatticeFrom vocab ids scores step (remaining + 1))
include h

theorem LatticeFrom.next : LatticeFrom vocab ids scores (step + 1) remaining where
  ids_length := by rw [h.ids_length]; omega
  scores_length := by rw [h.scores_length]; omega
  nodup := fun index hindex => h.nodup index (by omega)
  bound := h.bound

theorem LatticeFrom.slot_length : (slotIds ids step).length = 8 := by
  rw [length_take, length_drop, h.ids_length]
  omega

theorem LatticeFrom.row_length
    (hpredecessor : predecessor < 8) : (slotRow scores step predecessor).length = 8 := by
  rw [length_take, length_drop, h.scores_length]
  omega

omit h in
theorem LatticeFrom.slot_bound (h : LatticeFrom vocab ids scores step remaining) :
    ∀ id ∈ slotIds ids step, id < vocab :=
  fun id hid => h.bound id (mem_of_mem_drop (mem_of_mem_take hid))

theorem LatticeFrom.slot
    (hexp : ∀ x, 0 < exp x) (config : SamplingConfig ℝ) (hpredecessor : predecessor < 8) :
    SparseProposal vocab (slotIds ids step) (slotChances exp config ids scores step predecessor) :=
  slot_proposal hexp (h.row_length hpredecessor) h.slot_length (h.nodup step (by omega))
    h.slot_bound (bestCandidate_lt _ _)

theorem LatticeFrom.draws
    (hexp : ∀ x, 0 < exp x) (config : SamplingConfig ℝ) (hpredecessor : predecessor < 8) :
    ∀ x ∈ slotLaw config (slotChances exp config ids scores step predecessor)
        (slotBest ids scores step predecessor), x.1 < 8 ∧
      0 < mass ((slotIds ids step).zip (slotChances exp config ids scores step predecessor))
        ((slotIds ids step).getD x.1 0) :=
  slot_draws hexp (h.row_length hpredecessor) h.slot_length (h.nodup step (by omega))
    (bestCandidate_lt _ _)

/-- The walk behind the choice of a step. -/
noncomputable def walkNext (exp : ℝ → ℝ) (config : SamplingConfig ℝ) (ids : List Nat)
    (scores : List ℝ) (remaining step predecessor selected : Nat) :
    Sampled ℝ (List (ProposedToken ℝ)) := do
  let rest ← walkFrom exp config ids scores remaining (step + 1) selected
  pure (⟨(slotIds ids step).getD selected 0, slotIds ids step,
    slotChances exp config ids scores step predecessor⟩ :: rest)

theorem LatticeFrom.walk_expect
    (hexp : ∀ x, 0 < exp x) (config : SamplingConfig ℝ) (hpredecessor : predecessor < 8)
    (g : Except CudaError (List (ProposedToken ℝ)) → ℝ) :
    (walkFrom exp config ids scores (remaining + 1) step predecessor).run.expect g =
      mean (slotLaw config (slotChances exp config ids scores step predecessor)
        (slotBest ids scores step predecessor))
        fun index => (walkNext exp config ids scores remaining step predecessor index).run.expect g := by
  unfold walkFrom
  rw [if_neg (not_not.mpr (h.nodup step (by omega)))]
  exact slot_expect hexp (h.row_length hpredecessor) (slotBest ids scores step predecessor)
    (walkNext exp config ids scores remaining step predecessor) g

end

theorem walkFrom_yields (hexp : ∀ x, 0 < exp x) (config : SamplingConfig ℝ)
    (h : LatticeFrom vocab ids scores step remaining) (hpredecessor : predecessor < 8) :
    Yields (walkFrom exp config ids scores remaining step predecessor)
      (fun steps => steps.length = remaining ∧ ∀ proposed ∈ steps, Drawn vocab proposed) := by
  induction remaining generalizing step predecessor with
  | zero => exact yields_pure ⟨rfl, fun _ hmem => by cases hmem⟩
  | succ remaining ih =>
    refine yields_mix _ _ ?_ (h.walk_expect hexp config hpredecessor)
    intro x hx
    obtain ⟨hindex, hdrawn⟩ := h.draws hexp config hpredecessor x hx
    refine (ih h.next hindex).bind fun rest hrest => ?_
    refine yields_pure ⟨by rw [length_cons, hrest.1], ?_⟩
    intro proposed hproposed
    rcases mem_cons.mp hproposed with rfl | hmem
    · exact ⟨h.slot hexp config hpredecessor, hdrawn⟩
    · exact hrest.2 proposed hmem

end

/-! ## The verification block -/

theorem drop_flatten {α : Type} {rows : List (List α)} {width : Nat}
    (h : ∀ row ∈ rows, row.length = width) (index : Nat) :
    rows.flatten.drop (index * width) = (rows.drop index).flatten := by
  induction index generalizing rows with
  | zero => simp
  | succ index ih =>
    cases rows with
    | nil => simp
    | cons row rows =>
      have hrow : row.length = width := h row mem_cons_self
      rw [flatten_cons, drop_succ_cons, ← ih fun r hr => h r (mem_cons_of_mem _ hr),
        Nat.add_mul, Nat.one_mul, Nat.add_comm, ← hrow, drop_length_add_append]

/-- The rows of a verification block. -/
def blockRows (target : Target vocab) (history : List Nat) (count : Nat) (drafted : List Nat) :
    List (List (Option ℝ)) :=
  (List.range count).map fun i => target.logits (history ++ drafted.take i)

section
variable {target : Target vocab} {history : List Nat} {proposed : ProposedToken ℝ}

theorem blockRows_drop (count index : Nat) (drafted : List Nat) (h : index < count) :
    (blockRows target history count drafted).drop index =
      target.logits (history ++ drafted.take index) ::
        (blockRows target history count drafted).drop (index + 1) := by
  have hlt : index < (blockRows target history count drafted).length := by
    simpa [blockRows] using h
  rw [drop_eq_getElem_cons hlt]
  simp [blockRows]

theorem blockRows_length (count : Nat) (drafted : List Nat) :
    ∀ row ∈ blockRows target history count drafted, row.length = vocab := by
  intro row hrow
  obtain ⟨i, -, rfl⟩ := mem_map.mp hrow
  exact target.length _

theorem blockRows_take (target : Target vocab) (history : List Nat) (count index : Nat)
    (drafted : List Nat) (h : index < count) :
    ((blockRows target history count drafted).flatten.drop (index * vocab)).take vocab =
      target.logits (history ++ drafted.take index) := by
  rw [drop_flatten (blockRows_length count drafted), blockRows_drop count index drafted h,
    flatten_cons, take_left' (target.length _)]

theorem blockRows_last (index : Nat) (drafted : List Nat) :
    (blockRows target history (index + 1) drafted).flatten.drop (index * vocab) =
      target.logits (history ++ drafted.take index) := by
  have hnone : (blockRows target history (index + 1) drafted).drop (index + 1) = [] :=
    drop_eq_nil_of_le (by simp [blockRows])
  rw [drop_flatten (blockRows_length (index + 1) drafted),
    blockRows_drop (index + 1) index drafted (Nat.lt_succ_self index), hnone,
    flatten_singleton]

/-- The verification of one drawn token: it is accepted and the rest is verified behind it, or
another token ends the block. -/
theorem verifyFrom_cons {rows : List (Option ℝ)} {step : Nat} {before : List Nat}
    (hrow : (rows.drop (step * vocab)).take vocab = target.logits before)
    (hok : weightedCandidates exp (target.logits before) config before = .ok weighted)
    (hweighted : Weighted vocab weighted)
    (hdrawn : Drawn vocab proposed) (rest : List (ProposedToken ℝ)) (g : Nat × Nat → ℝ) :
    value (verifyFrom exp config rows vocab (proposed :: rest) step before) g =
      accept (chance weighted proposed.token)
          (mass (proposed.candidates.zip proposed.probabilities) proposed.token) *
        value (verifyFrom exp config rows vocab rest (step + 1) (before ++ [proposed.token])) g +
      (1 - accept (chance weighted proposed.token)
          (mass (proposed.candidates.zip proposed.probabilities) proposed.token)) *
        ((∑ token ∈ Finset.range vocab,
            excess weighted proposed.candidates proposed.probabilities token)⁻¹ *
          ∑ token ∈ Finset.range vocab,
            excess weighted proposed.candidates proposed.probabilities token * g (step, token)) := by
  have hlength := target.length before
  have hlaw := (verifySparseDraft_law hok (by rw [hlength]; exact hweighted)
    (by rw [hlength]; exact hdrawn.1) hdrawn.2).2 fun token accepted =>
      if accepted then value (verifyFrom exp config rows vocab rest (step + 1) (before ++ [token])) g
      else g (step, token)
  rw [hlength] at hlaw
  simp only [if_true, Bool.false_eq_true, if_false] at hlaw
  rw [← hlaw, verifyFrom, value_bind, hrow]
  congr 1
  funext result
  obtain ⟨token, accepted⟩ := result
  cases accepted with
  | true => rfl
  | false => rfl

/-- The function's value is the expectation over the next token of the plain sampler. -/
def Fair (exp : ℝ → ℝ) (config : SamplingConfig ℝ) (target : Target vocab) (history : List Nat)
    (f : List Nat → ℝ) : Prop :=
  ∀ emitted, value (sampleNextToken exp (target.logits (history ++ emitted)) config
    (history ++ emitted)) (fun token => f (emitted ++ [token.id])) = f emitted

/-- The expectation of a function of the next token over a draft and its verification. -/
theorem draft_law {ids : List Nat} {probabilities : List ℝ} (hweighted : Weighted vocab weighted)
    (hproposal : SparseProposal vocab ids probabilities) (g : Nat → ℝ) :
    (mean (ids.zip probabilities) fun draft =>
      accept (chance weighted draft) (mass (ids.zip probabilities) draft) * g draft +
        (1 - accept (chance weighted draft) (mass (ids.zip probabilities) draft)) *
          ((∑ token ∈ Finset.range vocab, excess weighted ids probabilities token)⁻¹ *
            ∑ token ∈ Finset.range vocab, excess weighted ids probabilities token * g token)) =
      ∑ token ∈ Finset.range vocab, chance weighted token * g token := by
  rw [hproposal.mean_eq]
  exact sum_speculation (fun token _ => hweighted.chance_nonneg token)
    (hweighted.sum_chance.trans hproposal.sum_mass.symm) g

/-- What a block emits behind the accepted drafts. -/
def emittedBy (drafted : List Nat) (result : Nat × Nat) : List Nat :=
  drafted.take result.1 ++ [result.2]

theorem verify_block {accepted : List Nat} {step count : Nat} (haccepted : accepted.length = step)
    (hcount : step < count)
    (hok : weightedCandidates exp (target.logits (history ++ accepted)) config
      (history ++ accepted) = .ok weighted) (hweighted : Weighted vocab weighted) (hdrawn : Drawn vocab proposed) (rest : List (ProposedToken ℝ))
    (f : List Nat → ℝ) :
    value (verifyFrom exp config (blockRows target history count
        (accepted ++ (proposed :: rest).map ProposedToken.token)).flatten vocab (proposed :: rest)
        step (history ++ accepted))
      (fun result => f (emittedBy (accepted ++ (proposed :: rest).map ProposedToken.token) result)) =
    accept (chance weighted proposed.token)
        (mass (proposed.candidates.zip proposed.probabilities) proposed.token) *
      value (verifyFrom exp config (blockRows target history count
          (accepted ++ [proposed.token] ++ rest.map ProposedToken.token)).flatten vocab rest
          (step + 1) (history ++ (accepted ++ [proposed.token])))
        (fun result => f (emittedBy
          (accepted ++ [proposed.token] ++ rest.map ProposedToken.token) result)) +
    (1 - accept (chance weighted proposed.token)
        (mass (proposed.candidates.zip proposed.probabilities) proposed.token)) *
      ((∑ token ∈ Finset.range vocab,
          excess weighted proposed.candidates proposed.probabilities token)⁻¹ *
        ∑ token ∈ Finset.range vocab,
          excess weighted proposed.candidates proposed.probabilities token *
            f (accepted ++ [token])) := by
  have htokens : accepted ++ (proposed :: rest).map ProposedToken.token =
      accepted ++ [proposed.token] ++ rest.map ProposedToken.token := by simp
  have htake : (accepted ++ [proposed.token] ++ rest.map ProposedToken.token).take step =
      accepted := by
    rw [append_assoc, take_left' haccepted]
  have hrow := blockRows_take target history count step
    (accepted ++ [proposed.token] ++ rest.map ProposedToken.token) hcount
  rw [htake] at hrow
  rw [htokens, verifyFrom_cons hrow hok hweighted hdrawn, ← append_assoc history]
  simp only [emittedBy, htake]

/-- The walk and the verification from a step on, behind the drafts accepted so far: the
expectation of a fair function is its value there. -/
theorem block_fair (hexp : ∀ x, 0 < exp x) (hvalid : config.validate = .ok ())
    (hfair : Fair exp config target history f) {ids : List Nat} {scores : List ℝ}
    {step remaining predecessor : Nat} (h : LatticeFrom vocab ids scores step remaining)
    (hpredecessor : predecessor < 8) (accepted : List Nat) (haccepted : accepted.length = step) :
    value (walkFrom exp config ids scores remaining step predecessor) (fun steps =>
      value (verifyFrom exp config (blockRows target history (step + remaining + 1)
          (accepted ++ steps.map ProposedToken.token)).flatten vocab steps step
          (history ++ accepted))
        (fun result => f (emittedBy (accepted ++ steps.map ProposedToken.token) result))) =
      f accepted := by
  induction remaining generalizing step predecessor accepted with
  | zero =>
    have htake : accepted.take step = accepted := take_of_length_le haccepted.le
    rw [walkFrom, value_pure, map_nil, append_nil, verifyFrom, value_bind,
      Nat.add_zero, blockRows_last, htake, ← hfair accepted]
    congr 1
    funext token
    rw [value_pure, emittedBy, htake]
  | succ remaining ih =>
    obtain ⟨weighted, hok, hweighted, -, hplain⟩ := sampleNextToken_law (history ++ accepted)
      hexp hvalid (target.finite (history ++ accepted))
    rw [target.length] at hweighted hplain
    have hslot := h.slot hexp config hpredecessor
    rw [← hfair accepted, hplain fun token => f (accepted ++ [token]),
      ← draft_law hweighted hslot, ← slot_mean (h.row_length hpredecessor) h.slot_length
        (bestCandidate_lt _ _)]
    refine (h.walk_expect hexp config hpredecessor _).trans (mean_congr fun x hx => ?_)
    obtain ⟨hindex, hdrawn⟩ := h.draws hexp config hpredecessor x hx
    have hwalk := walkFrom_yields hexp config h.next hindex
    have hnext := ih h.next hindex (accepted ++ [(slotIds ids step).getD x.1 0])
      (by rw [length_append, haccepted, length_singleton])
    rw [show step + 1 + remaining + 1 = step + (remaining + 1) + 1 by omega] at hnext
    change value (walkNext exp config ids scores remaining step predecessor x.1) _ = _
    rw [walkNext, value_bind]
    simp only [value_pure]
    -- Whatever the rest of the walk is, the draft is accepted or replaced with the same chances.
    have hproposed : Drawn vocab ⟨(slotIds ids step).getD x.1 0, slotIds ids step,
        slotChances exp config ids scores step predecessor⟩ := ⟨hslot, hdrawn⟩
    have hblock := fun rest => verify_block haccepted
      (show step < step + (remaining + 1) + 1 by omega) hok hweighted hproposed rest f
    simp only [hblock]
    rw [hwalk.value_linear, hwalk.value_const, hnext]

theorem verifyFrom_yields (hexp : ∀ x, 0 < exp x) (hvalid : config.validate = .ok ())
    {rows : List (List (Option ℝ))}
    (hrows : ∀ row ∈ rows, row.length = vocab ∧ ∃ logit, some logit ∈ row)
    (steps : List (ProposedToken ℝ)) (hdrawn : ∀ proposed ∈ steps, Drawn vocab proposed)
    (step : Nat) (before : List Nat) (hlength : rows.length = step + steps.length + 1) :
    Yields (verifyFrom exp config rows.flatten vocab steps step before) (fun _ => True) := by
  have hwidth : ∀ row ∈ rows, row.length = vocab := fun row hrow => (hrows row hrow).1
  induction steps generalizing step before with
  | nil =>
    rw [length_nil, Nat.add_zero] at hlength
    have hstep : step < rows.length := by omega
    have hlast : rows.flatten.drop (step * vocab) = rows[step] := by
      rw [drop_flatten hwidth, drop_eq_getElem_cons hstep,
        drop_eq_nil_of_le (by omega), flatten_singleton]
    obtain ⟨-, -, -, hyields, -⟩ := sampleNextToken_law before hexp hvalid
      (hrows rows[step] (getElem_mem hstep)).2
    rw [verifyFrom, hlast]
    exact hyields.bind fun _ _ => yields_pure trivial
  | cons proposed rest ih =>
    rw [length_cons] at hlength
    have hstep : step < rows.length := by omega
    obtain ⟨hrowLength, hfinite⟩ := hrows rows[step] (getElem_mem hstep)
    have hrow : (rows.flatten.drop (step * vocab)).take vocab = rows[step] := by
      rw [drop_flatten hwidth, drop_eq_getElem_cons hstep, flatten_cons, take_left' hrowLength]
    obtain ⟨weighted, hok, hweighted, -⟩ := weightedCandidates_ok before hexp hvalid hfinite
    obtain ⟨hproposal, hpositive⟩ := hdrawn proposed mem_cons_self
    obtain ⟨hyields, -⟩ := verifySparseDraft_law hok hweighted
      (by rw [hrowLength]; exact hproposal) hpositive
    rw [verifyFrom, hrow]
    refine hyields.bind fun result _ => ?_
    obtain ⟨token, accepted⟩ := result
    cases accepted with
    | true =>
      exact ih (fun p hp => hdrawn p (mem_cons_of_mem _ hp)) (step + 1) _ (by omega)
    | false => exact yields_pure trivial

end

/-! ## One cycle -/

theorem mapM_id_of_finite {scores : List (Option ℝ)} (h : none ∉ scores) :
    ∃ values, scores.mapM id = some values ∧ values.length = scores.length := by
  induction scores with
  | nil => exact ⟨[], rfl, rfl⟩
  | cons score scores ih =>
    cases score with
    | none => exact absurd mem_cons_self h
    | some score =>
      obtain ⟨values, hvalues, hlength⟩ := ih fun hmem => h (mem_cons_of_mem _ hmem)
      refine ⟨score :: values, ?_, by rw [length_cons, hlength, length_cons]⟩
      rw [mapM_cons, hvalues]
      rfl

theorem ValidLattice.walk_eq {lattice : CandidateLattice ℝ} (h : ValidLattice vocab lattice)
    (exp : ℝ → ℝ) (config : SamplingConfig ℝ) (anchor : Nat) :
    ∃ scores, LatticeFrom vocab lattice.ids scores 0 lattice.drafts ∧
      walk exp config anchor lattice.drafts lattice.ids lattice.scores = (do
        let steps ← walkFrom exp config lattice.ids scores lattice.drafts 0 0
        pure ⟨anchor, steps⟩) := by
  obtain ⟨scores, hscores, hlength⟩ := mapM_id_of_finite h.scores_finite
  have hfirst := h.some_draft
  have hlast := h.drafts_le
  refine ⟨scores, ⟨?_, ?_, ?_, h.bound⟩, ?_⟩
  · rw [h.ids_length, Nat.zero_add]
  · rw [hlength, h.scores_length, Nat.zero_add]
  · intro index hindex
    exact h.nodup index (by omega)
  · unfold walk
    rw [hscores]
    dsimp only
    rw [if_neg]
    simp only [Bool.or_eq_true, decide_eq_true_eq]
    have hids := h.ids_length
    have hscoresLength := h.scores_length
    omega

section
variable {target : Target vocab} {history : List Nat} {anchor : Nat}
variable {lattice : CandidateLattice ℝ}

theorem Target.vocab_pos (target : Target vocab) : 0 < vocab := by
  obtain ⟨logit, hlogit⟩ := target.finite []
  rw [← target.length []]
  exact length_pos_of_mem hlogit

/-- The check passes, and a cycle walks, verifies and emits. -/
theorem cycle_eq (h : ValidLattice vocab lattice) (hanchor : history.getLast? = some anchor)
    (exp : ℝ → ℝ) (config : SamplingConfig ℝ) (target : Target vocab) :
    ∃ scores, LatticeFrom vocab lattice.ids scores 0 lattice.drafts ∧
      lilicorrCycle exp target.logits vocab config anchor lattice history = (do
        let proposal ← (do
          let steps ← walkFrom exp config lattice.ids scores lattice.drafts 0 0
          pure ⟨anchor, steps⟩ : Sampled ℝ (LiLiCorrProposal ℝ))
        let result ← acceptProposal exp target.logits vocab config proposal history
        pure (emittedBy proposal.drafted result)) := by
  obtain ⟨scores, hlattice, hwalk⟩ := h.walk_eq exp config anchor
  refine ⟨scores, hlattice, ?_⟩
  have hfirst := h.some_draft
  have hlast := h.drafts_le
  unfold lilicorrCycle
  rw [if_neg, hwalk]
  · rfl
  · simp only [Bool.or_eq_true, decide_eq_true_eq, hanchor, ne_eq, not_true_eq_false, or_false]
    omega

theorem blockRows_finite (target : Target vocab) (history : List Nat) (count : Nat)
    (drafted : List Nat) : ∀ row ∈ blockRows target history count drafted,
      row.length = vocab ∧ ∃ logit, some logit ∈ row := by
  intro row hrow
  obtain ⟨i, -, rfl⟩ := mem_map.mp hrow
  exact ⟨target.length _, target.finite _⟩

theorem acceptProposal_slow (hslow : ¬ config.usesFastArgmax = true)
    (proposal : LiLiCorrProposal ℝ) :
    acceptProposal exp target.logits vocab config proposal history =
      verifyFrom exp config (blockRows target history (proposal.steps.length + 1)
        proposal.drafted).flatten vocab proposal.steps 0 history := by
  have hlength : (blockRows target history (proposal.steps.length + 1)
      proposal.drafted).flatten.length = (proposal.steps.length + 1) * vocab := by
    rw [length_flatten]
    have hwidths : (blockRows target history (proposal.steps.length + 1) proposal.drafted).map
        length = replicate (proposal.steps.length + 1) vocab := by
      refine eq_replicate_iff.mpr ⟨by simp [blockRows], ?_⟩
      intro width hwidth
      obtain ⟨row, hrow, rfl⟩ := mem_map.mp hwidth
      exact blockRows_length _ _ row hrow
    rw [hwidths, sum_replicate, smul_eq_mul]
  have hpos := target.vocab_pos
  unfold acceptProposal
  rw [if_neg hslow, verify, if_neg]
  · rfl
  · change ¬ ((decide (vocab = 0) || decide ((proposal.steps.length + 1) * vocab ≠
      (blockRows target history (proposal.steps.length + 1) proposal.drafted).flatten.length)) = true)
    rw [hlength]
    simp
    omega

theorem acceptArgmax_spec (drafted : List Nat) (best : Nat → Nat) :
    ∃ accepted ≤ drafted.length,
      acceptArgmax drafted ((List.range (drafted.length + 1)).map best) =
        (accepted, best accepted) ∧
      ∀ n (h : n < drafted.length), n < accepted → drafted[n] = best n := by
  generalize hzip : drafted.zip ((range (drafted.length + 1)).map best) = pairs
  have hlength : pairs.length = drafted.length := by
    rw [← hzip, length_zip, length_map, length_range]
    omega
  have hle : (pairs.takeWhile fun pair => pair.1 = pair.2).length ≤ drafted.length := by
    rw [← hlength]
    exact (List.takeWhile_prefix _).length_le
  refine ⟨_, hle, ?_, ?_⟩
  · have hlt : (pairs.takeWhile fun pair => pair.1 = pair.2).length < drafted.length + 1 := by omega
    unfold acceptArgmax
    rw [hzip]
    simp [hlt]
  · intro n hn haccepted
    have hmem := getElem_mem haccepted
    have hequal := all_eq_true.mp all_takeWhile _ hmem
    rw [(List.takeWhile_prefix _).getElem haccepted] at hequal
    simpa [← hzip] using hequal

theorem acceptArgmax_fair {best : Nat → Nat} {drafted : List Nat}
    (hbest : ∀ i, f (drafted.take i ++ [best i]) = f (drafted.take i)) :
    f (emittedBy drafted (acceptArgmax drafted ((List.range (drafted.length + 1)).map best))) =
      f [] := by
  obtain ⟨accepted, hle, haccept, hagree⟩ := acceptArgmax_spec drafted best
  have hprefix : ∀ n ≤ accepted, f (drafted.take n) = f [] := by
    intro n
    induction n with
    | zero =>
      intro _
      rw [take_zero]
    | succ n ih =>
      intro hn
      have hlt : n < drafted.length := by omega
      rw [take_succ_eq_append_getElem hlt, hagree n hlt (by omega), hbest, ih (by omega)]
  rw [haccept, emittedBy, hbest, hprefix accepted (Nat.le_refl _)]

/-- A fair function does not see the token that the greedy sampler takes. -/
theorem Fair.argmax (hfair : Fair exp config target history f) (hvalid : config.validate = .ok ())
    (hfast : config.usesFastArgmax = true) (emitted : List Nat) :
    f (emitted ++ [argmaxF32 (target.logits (history ++ emitted))]) = f emitted := by
  obtain ⟨token, hsample, hid⟩ := sampleNextToken_argmax (history ++ emitted) hvalid hfast
    (target.finite (history ++ emitted))
  have hvalue := hfair emitted
  rw [hsample, value_pure, hid] at hvalue
  exact hvalue

/-- The expectation of a fair function over a cycle is its value before the cycle. -/
theorem cycle_fair (hexp : ∀ x, 0 < exp x) (hvalid : config.validate = .ok ())
    (h : ValidLattice vocab lattice) (hanchor : history.getLast? = some anchor)
    (hfair : Fair exp config target history f) :
    value (lilicorrCycle exp target.logits vocab config anchor lattice history) f = f [] := by
  obtain ⟨scores, hlattice, hcycle⟩ := cycle_eq h hanchor exp config target
  have hwalk := walkFrom_yields hexp config hlattice (Nat.zero_lt_succ 7)
  rw [hcycle, value_bind, value_bind]
  simp only [value_pure, value_bind]
  by_cases hfast : config.usesFastArgmax = true
  · rw [← hwalk.value_const (f [])]
    refine hwalk.value_congr fun steps _ => ?_
    unfold acceptProposal
    rw [if_pos hfast, value_pure, map_map]
    have hdrafted : (⟨anchor, steps⟩ : LiLiCorrProposal ℝ).drafted.length = steps.length :=
      length_map _
    rw [← hdrafted]
    exact acceptArgmax_fair fun i => hfair.argmax hvalid hfast _
  · have hblock := block_fair hexp hvalid hfair hlattice (Nat.zero_lt_succ 7) [] rfl
    rw [← hblock]
    refine hwalk.value_congr fun steps hsteps => ?_
    rw [acceptProposal_slow hfast, hsteps.1, Nat.zero_add, nil_append, append_nil]
    rfl

/-- A cycle on a valid lattice does not fail, and it emits a token. -/
theorem cycle_yields (hexp : ∀ x, 0 < exp x) (hvalid : config.validate = .ok ())
    (h : ValidLattice vocab lattice) (hanchor : history.getLast? = some anchor) :
    Yields (lilicorrCycle exp target.logits vocab config anchor lattice history)
      (fun block => block ≠ []) := by
  obtain ⟨scores, hlattice, hcycle⟩ := cycle_eq h hanchor exp config target
  have hwalk := walkFrom_yields hexp config hlattice (Nat.zero_lt_succ 7)
  have hproposal : Yields (do
      let steps ← walkFrom exp config lattice.ids scores lattice.drafts 0 0
      pure ⟨anchor, steps⟩ : Sampled ℝ (LiLiCorrProposal ℝ))
      (fun proposal => ∀ proposed ∈ proposal.steps, Drawn vocab proposed) :=
    hwalk.bind fun steps hsteps => yields_pure hsteps.2
  rw [hcycle]
  refine hproposal.bind fun proposal hdrawn => ?_
  have haccept : Yields (acceptProposal exp target.logits vocab config proposal history)
      (fun _ => True) := by
    by_cases hfast : config.usesFastArgmax = true
    · unfold acceptProposal
      rw [if_pos hfast]
      exact yields_pure trivial
    · rw [acceptProposal_slow hfast]
      exact verifyFrom_yields hexp hvalid (blockRows_finite target history _ _) proposal.steps
        hdrawn 0 history (by simp [blockRows])
  refine haccept.bind fun result _ => yields_pure ?_
  simp [emittedBy]

end

/-! ## Cycles one after the other -/

section
variable {target : Target vocab} {propose : List (List Nat) → CandidateLattice ℝ}
variable {history : List Nat}

theorem sampleTokens_yields (hexp : ∀ x, 0 < exp x) (hvalid : config.validate = .ok ())
    (count : Nat) (history : List Nat) :
    Yields (sampleTokens exp target.logits config count history) (fun _ => True) := by
  induction count generalizing history with
  | zero => exact yields_pure trivial
  | succ count ih =>
    obtain ⟨-, -, -, hyields, -⟩ := sampleNextToken_law history hexp hvalid (target.finite history)
    refine hyields.bind fun token _ => ?_
    exact (ih (history ++ [token.id])).bind fun _ _ => yields_pure trivial

theorem getLast?_getLastD (h : history ≠ []) : history.getLast? = some (history.getLastD 0) := by
  rw [getLast?_eq_some_getLast h, getLastD_eq_getLast?, getLast?_eq_some_getLast h]
  rfl

theorem lilicorrCycles_yields (hexp : ∀ x, 0 < exp x) (hvalid : config.validate = .ok ())
    (hpropose : ∀ blocks, ValidLattice vocab (propose blocks)) (cycles : Nat)
    (blocks : List (List Nat)) (hhistory : history ≠ []) :
    Yields (lilicorrCycles exp target.logits vocab config propose cycles blocks history)
      (fun _ => True) := by
  induction cycles generalizing blocks history with
  | zero => exact yields_pure trivial
  | succ cycles ih =>
    have hcycle : Yields (lilicorrCycle exp target.logits vocab config (history.getLastD 0)
        (propose blocks) history) (fun block => block ≠ []) :=
      cycle_yields hexp hvalid (hpropose blocks) (getLast?_getLastD hhistory)
    refine hcycle.bind fun block _ => ?_
    exact (ih (blocks ++ [block]) (append_ne_nil_of_left_ne_nil hhistory block)).bind
      fun _ _ => yields_pure trivial

/-- The rest of `count` plain tokens behind those already emitted. -/
noncomputable def remainingValue (exp : ℝ → ℝ) (config : SamplingConfig ℝ) (target : Target vocab)
    (history : List Nat) (count : Nat) (f : List Nat → ℝ) (emitted : List Nat) : ℝ :=
  value (sampleTokens exp target.logits config (count - emitted.length) (history ++ emitted))
    fun rest => f (emitted.take count ++ rest)

theorem remainingValue_fair (hexp : ∀ x, 0 < exp x) (hvalid : config.validate = .ok ())
    (target : Target vocab) (history : List Nat) (count : Nat) (f : List Nat → ℝ) :
    Fair exp config target history (remainingValue exp config target history count f) := by
  intro emitted
  by_cases hmore : emitted.length < count
  · obtain ⟨left, hleft⟩ := Nat.exists_eq_succ_of_ne_zero (show count - emitted.length ≠ 0 by omega)
    have htake : emitted.take count = emitted := take_of_length_le hmore.le
    unfold remainingValue
    rw [hleft, sampleTokens, value_bind, htake]
    congr 1
    funext token
    have hnext : count - (emitted ++ [token.id]).length = left := by
      rw [length_append, length_singleton]
      omega
    have htakeNext : (emitted ++ [token.id]).take count = emitted ++ [token.id] :=
      take_of_length_le (by rw [length_append, length_singleton]; omega)
    rw [hnext, htakeNext, value_bind, ← append_assoc]
    simp only [value_pure, append_assoc, singleton_append]
  · obtain ⟨-, -, -, hyields, -⟩ := sampleNextToken_law (history ++ emitted) hexp hvalid
      (target.finite (history ++ emitted))
    have hnone : ∀ more, remainingValue exp config target history count f (emitted ++ more) =
        f (emitted.take count) := by
      intro more
      unfold remainingValue
      rw [Nat.sub_eq_zero_of_le (by rw [length_append]; omega), sampleTokens, value_pure,
        append_nil, take_append_of_le_length (by omega)]
    have hhere := hnone []
    rw [append_nil] at hhere
    simp only [hnone]
    rw [hhere, hyields.value_const]

/-- The first tokens of enough cycles have the law of the plain sampler. -/
theorem lilicorrCycles_value (hexp : ∀ x, 0 < exp x) (hvalid : config.validate = .ok ())
    (hpropose : ∀ blocks, ValidLattice vocab (propose blocks)) {count cycles : Nat}
    (henough : count ≤ cycles) (blocks : List (List Nat))
    (hhistory : history ≠ []) (f : List Nat → ℝ) :
    (value (lilicorrCycles exp target.logits vocab config propose cycles blocks history)
      fun emitted => f (emitted.take count)) =
      value (sampleTokens exp target.logits config count history) f := by
  induction cycles generalizing count blocks history f with
  | zero =>
    obtain rfl : count = 0 := by omega
    rfl
  | succ cycles ih =>
    have hcycle : Yields (lilicorrCycle exp target.logits vocab config (history.getLastD 0)
        (propose blocks) history) (fun block => block ≠ []) :=
      cycle_yields hexp hvalid (hpropose blocks) (getLast?_getLastD hhistory)
    have hfair := cycle_fair hexp hvalid (hpropose blocks) (getLast?_getLastD hhistory)
      (remainingValue_fair hexp hvalid target history count f)
    have hstart : remainingValue exp config target history count f [] =
        value (sampleTokens exp target.logits config count history) f := by
      unfold remainingValue
      rw [take_nil, append_nil, length_nil, Nat.sub_zero]
      rfl
    rw [← hstart, ← hfair, lilicorrCycles, value_bind]
    refine hcycle.value_congr fun block hblock => ?_
    have hlength := length_pos_iff.mpr hblock
    rw [value_bind]
    simp only [value_pure, take_append]
    exact ih (by omega) (blocks ++ [block]) (append_ne_nil_of_left_ne_nil hhistory block)
      fun rest => f (block.take count ++ rest)

/-- The tokens that cycles emit are distributed as those of the plain sampler: the expectation
of every function of the first `count` tokens, or of a failure, is the same. -/
theorem lilicorrCycles_law (hexp : ∀ x, 0 < exp x) (hvalid : config.validate = .ok ())
    (target : Target vocab) (hpropose : ∀ blocks, ValidLattice vocab (propose blocks))
    {history : List Nat} (hhistory : history ≠ []) {count cycles : Nat} (henough : count ≤ cycles)
    (g : Except CudaError (List Nat) → ℝ) :
    ((lilicorrCycles exp target.logits vocab config propose cycles [] history).run.expect
      fun emitted => g (emitted.map (List.take count))) =
      (sampleTokens exp target.logits config count history).run.expect g := by
  have hcycles : Yields (lilicorrCycles exp target.logits vocab config propose cycles [] history)
      (fun _ => True) := lilicorrCycles_yields hexp hvalid hpropose cycles [] hhistory
  have hplain : Yields (sampleTokens exp target.logits config count history) (fun _ => True) :=
    sampleTokens_yields hexp hvalid count history
  rw [hcycles.expect_eq, hplain.expect_eq]
  exact lilicorrCycles_value hexp hvalid hpropose henough [] hhistory fun tokens => g (.ok tokens)

end

/-- Eight tokens that are equally likely. -/
def evenTarget : Target 8 where
  logits := fun _ => List.replicate 8 (some 0)
  length := fun _ => rfl
  finite := fun _ => ⟨0, List.mem_cons_self⟩

/-- One draft, from equal scores. -/
def evenLattice : CandidateLattice ℝ := ⟨1, List.range 8, List.replicate 64 (some 0)⟩

def evenConfig : SamplingConfig ℝ := ⟨1, 0, 1, 0, 0⟩

theorem lilicorrCycles_law_even :
    ((lilicorrCycles Real.exp evenTarget.logits 8 evenConfig (fun _ => evenLattice) 3 []
      [0]).run.expect fun emitted =>
        if (emitted.map (List.take 2)).toOption = some [4, 2] then 1 else 0) =
      (sampleTokens Real.exp evenTarget.logits evenConfig 2 [0]).run.expect fun tokens =>
        if tokens.toOption = some [4, 2] then 1 else 0 := by
  have hlattice : ValidLattice 8 evenLattice := {
    some_draft := Nat.le_refl 1
    drafts_le := by decide
    ids_length := rfl
    scores_length := rfl
    scores_finite := fun hmem => absurd (eq_of_mem_replicate hmem) (by simp)
    nodup := by
      intro step hstep
      obtain rfl : step = 0 := Nat.lt_one_iff.mp hstep
      decide
    bound := fun id hid => mem_range.mp hid
  }
  have hvalid : evenConfig.validate = .ok () := by
    norm_num [evenConfig, SamplingConfig.validate, validatePenalty]
  exact lilicorrCycles_law Real.exp_pos hvalid evenTarget (fun _ => hlattice) (by simp) (by decide)
    fun tokens => if tokens.toOption = some [4, 2] then 1 else 0

end Eider.Guarantees.SpeculativeLaw
