import Eider.Source.Sampling

/-!
The LiLiCorr proposal (`infer/src/nemotron3/lilicorr/proposal.rs`), the acceptance of
`lilicorr_cycle` (`nemotron3/model.rs`, lines 241 to 339) and the tokens that a cycle emits.

The target is a function from a token sequence to the logits behind it: row `j` of the
verification block is computed behind the history and the first `j` drafts. The device's
candidate lattice is the two arrays that `select` copies.
-/
namespace Eider.Source.Nemotron3
open Source.Sampling

variable {K : Type} [Field K] [LinearOrder K] (exp : K → K)

/-- A proposed token with its slot's candidates and their conditional probabilities. -/
structure ProposedToken (K : Type) where
  token : Nat
  candidates : List Nat
  probabilities : List K

/-- `LiLiCorrProposal`: the anchor and the proposed tokens. -/
structure LiLiCorrProposal (K : Type) where
  anchor : Nat
  steps : List (ProposedToken K)

/-- `tokens` without the anchor. -/
def LiLiCorrProposal.drafted (proposal : LiLiCorrProposal K) : List Nat :=
  proposal.steps.map ProposedToken.token

def invalid (detail : String) : CudaError := .format "LiLiCorr proposal" detail

/-- The best candidate of a row: the greatest score, and the least token among equal ones. -/
def bestCandidate (row : List K) (candidateIds : List Nat) : Nat :=
  (minBy (fun a b => (compare (row.getD b 0) (row.getD a 0)).then
    (compare (candidateIds.getD a 0) (candidateIds.getD b 0))) (List.range 8)).getD 0

variable (target : List Nat → List (Option K)) (config : SamplingConfig K)

/-- The conditional probabilities of a slot. -/
def slotProbabilities (row : List K) (best : Nat) : List K :=
  if config.greedy then (List.replicate 8 0).set best 1
  else
    let weights := row.map fun score => exp ((score - row.getD best 0) / config.temperature)
    weights.map (· / weights.sum)

/-- The loop that adds up the probabilities until they pass the draw. -/
def pickCumulative (draw : K) : List K → Nat → K → Nat → Nat
  | [], _, _, last => last
  | p :: rest, index, cumulative, last =>
    if draw < cumulative + p then index
    else pickCumulative draw rest (index + 1) (cumulative + p) last

/-- The index that a draw selects; the last positive one stands by. -/
def selectIndex (probabilities : List K) (draw : K) : Nat :=
  let last := ((List.range probabilities.length).reverse.find? fun i =>
    0 < probabilities.getD i 0).getD 0
  pickCumulative draw probabilities 0 0 last

/-- The loop of `walk`. -/
def walkFrom (ids : List Nat) (scores : List K) :
    Nat → Nat → Nat → Sampled K (List (ProposedToken K))
  | 0, _, _ => pure []
  | remaining + 1, step, predecessor =>
    let candidateIds := (ids.drop (step * 8)).take 8
    if ¬ candidateIds.Nodup then throw (invalid "duplicate candidate IDs in a slot")
    else
      let row := (scores.drop ((step * 8 + predecessor) * 8)).take 8
      let best := bestCandidate row candidateIds
      let probabilities := slotProbabilities exp config row best
      let continueFrom := fun selected : Nat => do
        let rest ← walkFrom ids scores remaining (step + 1) selected
        pure (⟨candidateIds.getD selected 0, candidateIds, probabilities⟩ :: rest)
      if config.greedy then continueFrom best
      else ExceptT.mk (.draw fun draw => (continueFrom (selectIndex probabilities draw)).run)

def walk (anchor drafts : Nat) (ids : List Nat)
    (scores : List (Option K)) : Sampled K (LiLiCorrProposal K) :=
  match scores.mapM id with
  | none => throw (invalid "invalid candidate lattice")
  | some scores =>
    if drafts < 1 || 7 < drafts || ids.length ≠ drafts * 8 || scores.length ≠ drafts * 64 then
      throw (invalid "invalid candidate lattice")
    else do
      let steps ← walkFrom exp config ids scores drafts 0 0
      pure ⟨anchor, steps⟩

/-- The loop of `verify`: the number of accepted drafts and the token behind them. -/
def verifyFrom (logits : List (Option K)) (vocab : Nat) :
    List (ProposedToken K) → Nat → List Nat → Sampled K (Nat × Nat)
  | [], step, history => do
    let bonus ← sampleNextToken exp (logits.drop (step * vocab)) config history
    pure (step, bonus.id)
  | proposed :: rest, step, history => do
    let (token, accepted) ← verifySparseDraft exp ((logits.drop (step * vocab)).take vocab) config
      history proposed.token proposed.candidates proposed.probabilities
    if accepted then verifyFrom logits vocab rest (step + 1) (history ++ [token.id])
    else pure (step, token.id)

def verify (proposal : LiLiCorrProposal K) (logits : List (Option K))
    (vocab : Nat) (history : List Nat) : Sampled K (Nat × Nat) :=
  if vocab = 0 || (proposal.steps.length + 1) * vocab ≠ logits.length then
    throw (invalid "verification logits do not match the proposal")
  else verifyFrom exp config logits vocab proposal.steps 0 history

/-- The accepted drafts of the argmax path: those that agree with the target's best tokens. -/
def acceptArgmax (drafted best : List Nat) : Nat × Nat :=
  let accepted := ((drafted.zip best).takeWhile fun pair => pair.1 = pair.2).length
  (accepted, best.getD accepted 0)

/-- A candidate lattice as the device has computed it. -/
structure CandidateLattice (K : Type) where
  drafts : Nat
  ids : List Nat
  scores : List (Option K)

/-- The acceptance that `lilicorr_cycle` hands to `verify_speculative_by`: the target's rows are
computed behind the anchor and behind each draft. -/
def acceptProposal (vocab : Nat) (config : SamplingConfig K)
    (proposal : LiLiCorrProposal K) (history : List Nat) : Sampled K (Nat × Nat) :=
  let rows := (List.range (proposal.steps.length + 1)).map fun j =>
    target (history ++ proposal.drafted.take j)
  if config.usesFastArgmax then pure (acceptArgmax proposal.drafted (rows.map argmaxF32))
  else verify exp config proposal rows.flatten vocab history

/-- `lilicorr_cycle` and `emitted_tokens`: the accepted drafts and the token behind them. -/
def lilicorrCycle (vocab : Nat) (config : SamplingConfig K)
    (anchor : Nat) (lattice : CandidateLattice K) (history : List Nat) : Sampled K (List Nat) :=
  if lattice.drafts < 1 || 7 < lattice.drafts || history.getLast? ≠ some anchor then
    throw (.format "LiLiCorr cycle"
      "anchor, verification shape, or context position is inconsistent")
  else do
    let proposal ← walk exp config anchor lattice.drafts lattice.ids lattice.scores
    let result ← acceptProposal exp target vocab config proposal history
    pure (proposal.drafted.take result.1 ++ [result.2])

/-- Cycles one after the other, each on a lattice that may depend on the blocks emitted before
it: all their tokens. The anchor is the last token of the history (`generate_lilicorr`). -/
def lilicorrCycles (vocab : Nat) (config : SamplingConfig K)
    (propose : List (List Nat) → CandidateLattice K) :
    Nat → List (List Nat) → List Nat → Sampled K (List Nat)
  | 0, _, _ => pure []
  | cycles + 1, blocks, history => do
    let block ← lilicorrCycle exp target vocab config (history.getLastD 0) (propose blocks) history
    let rest ← lilicorrCycles vocab config propose cycles (blocks ++ [block])
      (history ++ block)
    pure (block ++ rest)

/-- Tokens sampled one at a time (`generate_one`, with the host sampler). -/
def sampleTokens :
    Nat → List Nat → Sampled K (List Nat)
  | 0, _ => pure []
  | count + 1, history => do
    let token ← sampleNextToken exp (target history) config history
    let rest ← sampleTokens count (history ++ [token.id])
    pure (token.id :: rest)

end Eider.Source.Nemotron3
