import Eider.Source.Scheduler.Decision

/-!
The public calls of the Qwen3.6 scheduler (`infer/src/execution/scheduler.rs`, lines 315
to 585, 2150 to 2213 and 2302 to 2333) and its runs.

A run starts at a new scheduler and makes any calls in any order. A call that returns an
error leaves the scheduler as far as it has come; a call that panics ends the run.
-/
namespace Eider.Source.Qwen36
open Lib.ByteReader

variable {n : Nat} {β κ φ C R K : Type}

def maxSpeculativeDrafts : Nat := 7

def validateSpeculativeDrafts (c : SchedulerConfig) : Except CudaError Unit :=
  rejectIf (maxSpeculativeDrafts < c.speculativeDrafts)
    (.shape "scheduler speculative drafts" s!"at most {maxSpeculativeDrafts} drafts"
      s!"{c.speculativeDrafts} drafts")

/-- `Qwen36Scheduler::new`, over a new cache. -/
def Scheduler.new (config : SchedulerConfig) (cache : C) :
    Except CudaError (Scheduler n β φ C K) := do
  config.validate
  validateSpeculativeDrafts config
  return {
    config := config
    requests := .empty
    waiting := []
    prefilling := []
    decoding := []
    decisions := .empty
    decisionQueue := []
    nextId := 0
    sequences := .empty
    nextSequenceId := 0
    cache := cache
    workspaces := ⟨false, false, false, false⟩
    decisionReadout := none
    tick := .empty
  }

def nextRequestId (label : String) : Scheduling n β φ C K Nat := do
  let s ← get
  if s.nextId + 1 < 2 ^ 64 then
    set { s with nextId := s.nextId + 1 }
    return s.nextId
  else raise (.format label "request ID space exhausted")

variable (model : TextModel n β κ φ C R K) (config : SchedulerConfig)

/-- The checks of `add_request_with_grammar`. -/
def checkRequest (promptTokens : List Nat) (request : RequestConfig) : Except CudaError Unit := do
  let vocab := model.device.vocab
  let maxTokens := promptTokens.length + request.maxNewTokens
  rejectIf (request.sampling.valid = false) (.format "sampling" "invalid sampling parameters")
  rejectIf (promptTokens = []) (.format "Qwen3.6 scheduler prompt"
    "prompt must contain at least one token")
  rejectIf (unknownToken model.device promptTokens ≠ none) (.shape "Qwen3.6 scheduler prompt token"
    s!"token < {vocab}" (toString ((unknownToken model.device promptTokens).getD 0)))
  rejectIf (2 ^ 64 ≤ maxTokens) (.shape "Qwen3.6 scheduler request capacity"
    "prompt + completion length without overflow" s!"{promptTokens.length} + {request.maxNewTokens}")
  rejectIf (config.maxContextTokens < maxTokens) (.shape "Qwen3.6 scheduler request capacity"
    s!"at most {config.maxContextTokens} tokens" s!"{maxTokens}")

/-- The request that `add_request_with_grammar` makes. A request for no tokens is finished
at once. -/
def newRequest (id : Nat) (promptTokens : List Nat) (config : RequestConfig)
    (toolGrammar : Option (ToolGrammar K)) : Request K φ where
  id := id
  lifecycle := if config.maxNewTokens = 0 then .finished else .waiting
  config := config
  promptTokens := promptTokens
  promptPosition := 0
  prefixTarget := retainedPromptPrefixTokens promptTokens.length kvPageTokens
  prefixRetained := false
  sequenceId := none
  toolGrammar := toolGrammar
  lastToken := none
  generatedTokens := []
  finishReason := if config.maxNewTokens = 0 then some .length else none
  mtpState := false
  dflash2State := false
  specFrontier := none
  specReady := false
  specStarted := false

/-- `add_request_with_grammar`. -/
def addRequest (promptTokens : List Nat)
    (config : RequestConfig) (toolGrammar : Option (ToolGrammar K)) :
    Scheduling n β φ C K Nat := do
  attempt (checkRequest model (← get).config promptTokens config)
  let id ← nextRequestId "Qwen3.6 scheduler request ID"
  putRequest (newRequest id promptTokens config toolGrammar)
  if config.maxNewTokens = 0 then return id
  else
    modify fun s => { s with waiting := s.waiting ++ [id] }
    return id

def decisionPromptFormat : String := "eider-decision-v1"

def checkDecisionTokens (label : String) (tokens : List Nat) :
    Except CudaError Unit := do
  rejectIf (tokens = []) (.format label "token sequence must not be empty")
  rejectIf (unknownToken model.device tokens ≠ none) (.shape label
    s!"token < {model.device.vocab}" (toString ((unknownToken model.device tokens).getD 0)))

/-- The checks of `add_decision` on one branch. The label head has 64 tokens there, and a
branch with more labels is a slice out of range. -/
def checkDecisionBranch {σ : Type}
    (request : DecisionRequest) (branch : DecisionBranch) : EStateM (Fault CudaError) σ Unit := do
  let labels := branch.labelTokenIds.length
  let tokens := request.prefixTokens.length + branch.suffixTokens.length
  attempt (checkDecisionTokens model "Qwen3.6 decision suffix" branch.suffixTokens)
  attempt (checkDecisionTokens model "Qwen3.6 decision labels" branch.labelTokenIds)
  attempt (rejectIf (labels ≠ branch.optionKeys.length) (.shape "Qwen3.6 decision labels"
    s!"{branch.optionKeys.length} option labels" s!"{labels}"))
  if request.labelTokenIds.length < labels then throw (.panicked "range end index out of range")
  attempt (rejectIf (request.labelTokenIds.take labels ≠ branch.labelTokenIds)
    (.format "Qwen3.6 decision labels" "branch labels are not a prefix of the fixed label head"))
  attempt (rejectIf (2 ^ 64 ≤ tokens) (.shape "Qwen3.6 decision branch length"
    "prefix + suffix without overflow"
    s!"{request.prefixTokens.length} + {branch.suffixTokens.length}"))
  attempt (rejectIf (config.maxContextTokens < tokens) (.shape "Qwen3.6 decision branch length"
    s!"at most {config.maxContextTokens} tokens" s!"{tokens}"))

def checkDecision (readout : Option (List Nat))
    (request : DecisionRequest) : Except CudaError Unit := do
  let labels := request.labelTokenIds.length
  match readout with
  | none => throw (.format "Qwen3.6 decision readout"
      "fixed label head was not prepared at model load")
  | some tokenIds =>
    rejectIf (tokenIds ≠ request.labelTokenIds) (.format "Qwen3.6 decision label head"
      "request labels differ from the loaded fixed label head")
  rejectIf (request.promptFormat ≠ decisionPromptFormat) (.format "Qwen3.6 decision prompt"
    s!"unsupported prompt format {request.promptFormat}")
  rejectIf (request.prefixTokens = [] ∨ request.branches = []) (.format "Qwen3.6 decision request"
    "prefix and branches must not be empty")
  checkDecisionTokens model "Qwen3.6 decision prefix" request.prefixTokens
  checkDecisionTokens model "Qwen3.6 decision label head" request.labelTokenIds
  rejectIf (labels ≠ 64) (.shape "Qwen3.6 decision label head" "64 token IDs" s!"{labels}")

def addDecision (request : DecisionRequest) :
    Scheduling n β φ C K Nat := do
  let s ← get
  attempt (checkDecision model s.decisionReadout request)
  request.branches.forM (checkDecisionBranch model s.config request)
  let id ← nextRequestId "Qwen3.6 request ID"
  modify fun s => { s with
    decisions := s.decisions.insert id {
      id := id
      request := request
      parentSequenceId := none
      parentPosition := 0
      alignedPrefix := none
      alignedPrefixEntry := none
      nextBranch := 0
      activeBranches := []
      logits := []
    }
    decisionQueue := s.decisionQueue ++ [id] }
  return id

def prepareDecisionReadout (tokenIds : List Nat) :
    Scheduling n β φ C K Unit := do
  let s ← get
  if s.decisionReadout.isSome then
    raise (.format "Qwen3.6 decision readout" "decision readout is already prepared")
  else
    attempt (rejectIf (tokenIds.length ≠ 64 ∨ unknownToken model.device tokenIds ≠ none ∨
        ¬ tokenIds.Nodup)
      (.shape "Qwen3.6 decision label head" "64 distinct vocabulary token IDs"
        s!"{tokenIds.length} token IDs"))
    set { s with decisionReadout := some tokenIds }

def tick (input : TickInput φ) : Scheduling n β φ C K Unit := do
  modify fun s => { s with tick := .empty }
  admitWaiting model input
  runDecodePhase model input
  runPrefillPhase model input
  runDecisionPhase model input

/-- The release of a cancelled request's sequence, whose errors are only logged. -/
def releaseCancelled (sequenceId : Nat) :
    Scheduling n β φ C K Unit := do
  let s ← get
  match s.sequences.get sequenceId with
  | none => pure ()
  | some sequence =>
    set { s with
      sequences := s.sequences.erase sequenceId
      cache := (model.prefixes.finish s.cache sequence.cacheId).1 }

def cancelRequest (id : Nat) : Scheduling n β φ C K Unit := do
  let s ← get
  match s.decisions.get id with
  | some group =>
    set { s with
      decisions := s.decisions.erase id
      decisionQueue := s.decisionQueue.filter fun queued => queued ≠ id }
    releaseDecisionGroup model group
  | none =>
    match s.requests.get id with
    | none => pure ()
    | some request =>
      if request.lifecycle = .finished then pure ()
      else
        set { s with
          waiting := s.waiting.filter fun queued => queued ≠ id
          prefilling := s.prefilling.filter fun queued => queued ≠ id
          decoding := s.decoding.filter fun queued => queued ≠ id
          requests := s.requests.erase id }
        match request.sequenceId with
        | none => pure ()
        | some sequenceId => releaseCancelled model sequenceId

def removeFinished (id : Nat) : Scheduling n β φ C K Unit :=
  modify fun s => match s.requests.get id with
    | some request =>
      if request.lifecycle = .finished then { s with requests := s.requests.erase id } else s
    | none => s

inductive Action (K φ : Type) where
  | addRequest (promptTokens : List Nat) (config : RequestConfig)
      (toolGrammar : Option (ToolGrammar K))
  | addDecision (request : DecisionRequest)
  | prepareDecisionReadout (tokenIds : List Nat)
  | tick (input : TickInput φ)
  | cancelRequest (id : Nat)
  | removeFinished (id : Nat)

def Action.call :
    Action K φ → Scheduling n β φ C K Unit
  | .addRequest promptTokens config toolGrammar => do
    let _ ← Qwen36.addRequest model promptTokens config toolGrammar
  | .addDecision request => do
    let _ ← Qwen36.addDecision model request
  | .prepareDecisionReadout tokenIds => Qwen36.prepareDecisionReadout model tokenIds
  | .tick input => Qwen36.tick model input
  | .cancelRequest id => Qwen36.cancelRequest model id
  | .removeFinished id => Qwen36.removeFinished id

def step (s : Scheduler n β φ C K) (action : Action K φ) : Option (Scheduler n β φ C K) :=
  match action.call model s with
  | .ok _ s => some s
  | .error (.failed _) s => some s
  | .error (.panicked _) _ => none

end Eider.Source.Qwen36
