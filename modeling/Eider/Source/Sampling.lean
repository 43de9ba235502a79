import Mathlib.Algebra.Order.Field.Basic
import Eider.Lib.Draws
import Eider.Source.Sequence

/-!
The request sampler (`eider-runtime/src/sampling.rs`) over exact numbers: `K` is an ordered
field, `exp` stands for the exponential function, and a logit that is not finite is `none`.
A sampler's random numbers are the draws of a `Draw` program, and the seed is left out.
The history is the list of its tokens, which determines the occurrence counts.
-/
namespace Eider.Source.Sampling
open Lib

variable {K : Type} [Field K] [LinearOrder K]

/-- A fallible computation with random draws. -/
abbrev Sampled (K α : Type) := ExceptT CudaError (Draw K) α

structure SamplingConfig (K : Type) where
  temperature : K
  topK : Nat
  topP : K
  presencePenalty : K
  frequencyPenalty : K

def validatePenalty (label : String) (value : K) : Except CudaError Unit :=
  if value < -2 || value > 2 then
    .error (.format label "expected a finite value between -2 and 2")
  else .ok ()

namespace SamplingConfig

variable (config : SamplingConfig K)

def validate : Except CudaError Unit :=
  if config.temperature < 0 then
    .error (.format "temperature" "expected a finite non-negative value")
  else if config.topP ≤ 0 || config.topP > 1 then
    .error (.format "top-p" "expected 0 < top-p <= 1")
  else
    match validatePenalty "presence-penalty" config.presencePenalty with
    | .error e => .error e
    | .ok () => validatePenalty "frequency-penalty" config.frequencyPenalty

/-- `temperature == 0.0 || top_k == 1`. -/
def greedy : Bool := config.temperature = 0 || config.topK = 1

def usesFastArgmax : Bool :=
  config.greedy && config.presencePenalty = 0 && config.frequencyPenalty = 0

end SamplingConfig

/-- `Candidate`, and `SampledToken`, which has the same fields. -/
structure Candidate (K : Type) where
  id : Nat
  logit : K
  adjustedLogit : K

def candidateOrder (left right : Candidate K) : Ordering :=
  (compare right.adjustedLogit left.adjustedLogit).then (compare left.id right.id)

def adjustedLogit (token : Nat) (logit : K) (config : SamplingConfig K) (history : List Nat) : K :=
  let count := history.count token
  logit - (if count > 0 then config.presencePenalty else 0) - config.frequencyPenalty * count

/-- `Iterator::min_by`: the first least element. -/
def minBy {α : Type} (order : α → α → Ordering) : List α → Option α
  | [] => none
  | first :: rest =>
    some (rest.foldl (fun best x => if order best x = .gt then x else best) first)

/-- The finite logits as candidates. -/
def candidates (logits : List (Option K)) (config : SamplingConfig K) (history : List Nat) :
    List (Candidate K) :=
  logits.zipIdx.filterMap fun entry => entry.1.map fun logit =>
    ⟨entry.2, logit, adjustedLogit entry.2 logit config history⟩

/-- The candidates that top-k retains, in order: `select_nth_unstable_by` and `truncate` leave
the first ones of the order, and `sort_by` sorts them. -/
def retainTopK (config : SamplingConfig K) (candidates : List (Candidate K)) : List (Candidate K) :=
  let sorted := candidates.mergeSort fun left right => (candidateOrder left right).isLE
  if config.topK > 0 && config.topK < candidates.length then sorted.take config.topK else sorted

/-- The first position where the sum of the probabilities reaches top-p. -/
def cutoffFrom (topP : K) : K → List K → Option Nat
  | _, [] => none
  | sum, probability :: rest =>
    if sum + probability ≥ topP then some 0
    else (cutoffFrom topP (sum + probability) rest).map (· + 1)

/-- The rows that nucleus sampling retains. -/
def retainTopP (topP : K) (weighted : List (Candidate K × K)) : List (Candidate K × K) :=
  let cutoff := ((cutoffFrom topP 0 (weighted.map Prod.snd)).map (· + 1)).getD weighted.length
  weighted.take (max cutoff 1)

/-- The softmax of sorted candidates, relative to the first. -/
def softmax (exp : K → K) (temperature : K) (candidates : List (Candidate K)) :
    List (Candidate K × K) :=
  let max := (candidates.head?.map Candidate.adjustedLogit).getD 0
  candidates.map fun candidate => (candidate, exp ((candidate.adjustedLogit - max) / temperature))

section
variable (exp : K → K) (logits : List (Option K)) (config : SamplingConfig K) (history : List Nat)

def weightedCandidates : Except CudaError (List (Candidate K × K)) :=
  match config.validate with
  | .error e => .error e
  | .ok () =>
    let candidates := candidates logits config history
    match minBy candidateOrder candidates with
    | none => .error (.format "sampling logits" "no finite logits")
    | some best =>
      if config.greedy then .ok [(best, 1)]
      else
        let weighted := softmax exp config.temperature (retainTopK config candidates)
        let total := (weighted.map Prod.snd).sum
        if total ≤ 0 then .error (.format "sampling probabilities" "invalid probability mass")
        else .ok (retainTopP config.topP (weighted.map fun entry => (entry.1, entry.2 / total)))

/-- `sample_weighted`. The loop subtracts the weights that it passes from the draw. -/
def sampleWeighted (weighted : List (Candidate K × K)) : Sampled K (Candidate K) :=
  let retained := (weighted.map Prod.snd).sum
  if retained ≤ 0 then
    throw (.format "sampling probabilities" "no positive residual probability mass")
  else
    match weighted.reverse.find? fun entry => 0 < entry.2 with
    | none => throw (.device "positive retained mass")
    | some fallback =>
      ExceptT.mk (.draw fun draw => .done (.ok (Draw.pick weighted fallback.1 (draw * retained))))

def sampleNextToken : Sampled K (Candidate K) :=
  match weightedCandidates exp logits config history with
  | .error e => throw e
  | .ok weighted =>
    match config.greedy, weighted with
    | true, best :: _ => pure best.1
    | _, _ => sampleWeighted weighted

/-- The probability that a sparse proposal gives to a token. -/
def proposalProbability (candidateIds : List Nat) (proposalProbabilities : List K) (id : Nat) : K :=
  ((candidateIds.idxOf? id).map fun index => proposalProbabilities.getD index 0).getD 0

/-- The check of a sparse proposal. -/
def invalidProposal (vocab : Nat) (candidateIds : List Nat) (proposalProbabilities : List K) :
    Bool :=
  candidateIds.isEmpty || candidateIds.length ≠ proposalProbabilities.length ||
    (candidateIds.any (vocab ≤ ·) || ¬ candidateIds.Nodup) ||
    proposalProbabilities.any (fun p => p < 0 || 1 < p) ||
    1 / 10000 < |proposalProbabilities.sum - 1|

/-- `max(p - q, 0)` for every candidate of the target. -/
def residualWeights (candidateIds : List Nat) (proposalProbabilities : List K) (total : K)
    (target : List (Candidate K × K)) : List (Candidate K × K) :=
  target.map fun entry => (entry.1,
    max (entry.2 / total - proposalProbability candidateIds proposalProbabilities entry.1.id) 0)

/-- An accepted draft is the target's candidate. -/
def acceptDraft (targetDraft : Option (Candidate K × K)) : Sampled K (Candidate K × Bool) :=
  match targetDraft with
  | some entry => pure (entry.1, true)
  | none => throw (.device "positive accepted probability")

/-- A rejected draft is replaced by a sample from the residual weights. -/
def rejectDraft (residual : List (Candidate K × K)) : Sampled K (Candidate K × Bool) := do
  let token ← sampleWeighted residual
  pure (token, false)

def verifySparseDraft (draft : Nat) (candidateIds : List Nat) (proposalProbabilities : List K) :
    Sampled K (Candidate K × Bool) :=
  if invalidProposal logits.length candidateIds proposalProbabilities then
    throw (.format "speculative proposal"
      "expected unique vocabulary IDs and normalized probabilities")
  else
    match candidateIds.idxOf? draft with
    | none => throw (.format "speculative proposal"
        "draft token is absent from its proposal distribution")
    | some index =>
      let q := proposalProbabilities.getD index 0
      if q ≤ 0 then
        throw (.format "speculative proposal" "draft token has zero proposal probability")
      else
        match weightedCandidates exp logits config history with
        | .error e => throw e
        | .ok target =>
          let total := (target.map Prod.snd).sum
          let targetDraft := target.find? fun entry => entry.1.id = draft
          let p := (targetDraft.map fun entry => entry.2 / total).getD 0
          let accept := acceptDraft targetDraft
          let reject := rejectDraft
            (residualWeights candidateIds proposalProbabilities total target)
          if p ≥ q then accept
          else ExceptT.mk (.draw fun draw => if draw < p / q then accept.run else reject.run)

end

/-- The comparison of the argmax kernel: a greater logit takes the place of the best. -/
def argmaxStep (best : Option (K × Nat)) (entry : Option K × Nat) : Option (K × Nat) :=
  match entry.1, best with
  | some logit, some (value, _) => if logit > value then some (logit, entry.2) else best
  | some logit, none => some (logit, entry.2)
  | none, _ => best

/-- `argmax_f32` on one row: the greatest logit, and the least index among equal ones. -/
def argmaxF32 (row : List (Option K)) : Nat :=
  (row.zipIdx.foldl argmaxStep none).elim 0 Prod.snd

end Eider.Source.Sampling
