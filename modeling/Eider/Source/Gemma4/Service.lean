import Eider.Source.Gemma4.Chat
import Eider.Source.Gemma4.Decision

/-!
The calls of the Gemma 4 service (`infer/src/execution/gemma4_serving.rs`, lines 130 to 465 and
860 to 896) and its runs.

A run starts at a new service and makes any calls in any order. A call that returns an error
leaves the service as far as it has come; a call that panics ends the run.
-/
namespace Eider.Source.Gemma4
open Lib.ByteReader
open Source.Qwen36 (SchedulerConfig RequestConfig DecisionBranch DecisionRequest raise
  attempt expect kvPageTokens retainedPromptPrefixTokens)

variable {φ : Type}

/-! ## Construction -/

section
variable (model : Model)

/-- The checks of `new_decision_readout`. -/
def checkReadout (tokenIds : List Nat) (capacity : Nat) : Except CudaError Unit :=
  rejectIf (tokenIds.length ≠ 64 ∨ capacity = 0 ∨ (tokenIds.any fun token => model.vocab ≤ token) ∨
      ¬ tokenIds.Nodup)
    (.shape "Gemma 4 decision label head" "64 distinct vocabulary token IDs and positive capacity"
      s!"{tokenIds.length} token IDs, capacity {capacity}")

/-- The checks of the warm-up, whose sequence is as long as one batch. -/
def checkWarmup (config : SchedulerConfig) : Except CudaError Unit := do
  let sequence ← newSequenceState model config.prefillTokenCapacity
  AppendBatch.checkRows .gemma4 model.device (prefillWorkspace config)
    [⟨List.replicate config.prefillTokenCapacity 0, sequence⟩]

/-- `new_with_cache_config`, as far as it depends on the configuration. `validate` has seen that
no capacity is zero. The warm-up has finished its sequence, whose id is given out. -/
def ChatService.new (labelTokenIds : List Nat) (config : SchedulerConfig)
    (maxRetainedBytes : Nat) : Except CudaError (ChatService φ) := do
  config.validate
  checkReadout model labelTokenIds config.decisionBranchCapacity
  let _ ← newSequenceState model config.maxContextTokens
  checkWarmup model config
  return {
    config := config
    nextId := 1
    waiting := []
    requests := .empty
    labelTokenIds := labelTokenIds
    decisionQueue := []
    decisions := .empty
    sequences := .empty
    nextSequenceId := 0
    maxPrefixEntries := if maxRetainedBytes = 0 then some 0 else none
    sequenceCache := ⟨.empty, 1⟩
    tick := .empty
  }

end

/-! ## Requests -/

def nextRequestId : Serving φ Nat := do
  let s ← get
  if s.nextId + 1 < 2 ^ 64 then
    set { s with nextId := s.nextId + 1 }
    return s.nextId
  else raise (.format "Gemma 4 request ID" "request ID space exhausted")

def checkRequest (config : SchedulerConfig) (prompt : List Nat) (generation : RequestConfig) :
    Except CudaError Unit := do
  let total := prompt.length + generation.maxNewTokens
  rejectIf (prompt = []) (.format "Gemma 4 chat prompt" "prompt tokenized to zero tokens")
  rejectIf (2 ^ 64 ≤ total) (.shape "Gemma 4 request capacity"
    "prompt + completion without overflow" s!"{prompt.length} + {generation.maxNewTokens}")
  rejectIf (config.maxContextTokens < total) (.shape "Gemma 4 request capacity"
    s!"at most {config.maxContextTokens} tokens" s!"{total} tokens")

def newRequest (id : Nat) (prompt : List Nat) (generation : RequestConfig) : ActiveRequest where
  id := id
  prompt := prompt
  promptPosition := 0
  prefixTarget := retainedPromptPrefixTokens prompt.length kvPageTokens
  prefixRetained := false
  generation := generation
  generatedTokens := 0
  lastToken := none
  promptLogitsReady := false
  sequenceId := none
  history := prompt
  usage := ⟨prompt.length, 0, 0, 0⟩

/-- `add_request`, with the id it returns. `rendered` is the prompt in tokens of the
vocabulary, or the error of the stop sequences or of the template. A sampler or a codec that
cannot be built, `built = false`, is found behind the new id. -/
def addRequest {vocab : Nat} (rendered : Except CudaError (List (Fin vocab)))
    (generation : RequestConfig) (built : Bool) : Serving φ Nat := do
  attempt (rejectIf (generation.sampling.valid = false)
    (.format "sampling" "invalid sampling parameters"))
  let prompt := (← attempt rendered).map Fin.val
  attempt (checkRequest (← get).config prompt generation)
  let id ← nextRequestId
  if built then
    modify fun s => { s with
      requests := s.requests.insert id (newRequest id prompt generation)
      waiting := s.waiting ++ [id] }
    return id
  else raise (.device "ChatOutputCodec::new")

/-- `validate_tokens` of `add_decision`. -/
def validateTokens (vocab : Nat) (label : String) (tokens : List Nat) : Except CudaError Unit := do
  let unknown := tokens.find? fun token => vocab ≤ token
  rejectIf (tokens = []) (.format label "token sequence must not be empty")
  rejectIf (unknown ≠ none) (.shape label s!"token < {vocab}" s!"{unknown.getD 0}")

def checkDecisionBranch (vocab : Nat) (config : SchedulerConfig) (request : DecisionRequest)
    (branch : DecisionBranch) : Except CudaError Unit := do
  let labels := branch.labelTokenIds
  let tokens := request.prefixTokens.length + branch.suffixTokens.length
  validateTokens vocab "Gemma 4 decision suffix" branch.suffixTokens
  validateTokens vocab "Gemma 4 decision labels" labels
  rejectIf (request.labelTokenIds.length < labels.length ∨
      labels.length ≠ branch.optionKeys.length ∨
      request.labelTokenIds.take labels.length ≠ labels)
    (.format "Gemma 4 decision labels" "branch options and fixed label prefix do not match")
  rejectIf (2 ^ 64 ≤ tokens) (.shape "Gemma 4 decision branch length"
    "prefix + suffix without overflow" "overflow")
  rejectIf (config.maxContextTokens < tokens) (.shape "Gemma 4 decision branch length"
    s!"at most {config.maxContextTokens} tokens" s!"{tokens}")

def checkDecision (model : Model) (s : ChatService φ) (request : DecisionRequest) :
    Except CudaError Unit := do
  let active := s.config.maxActiveSequences
  rejectIf (active < 2 ∧ decisionTreeFits model s.config request = false)
    (.shape "Gemma 4 decision capacity" ("a request that fits tree prefill or at least two "
      ++ "active sequences for the cache fallback") s!"{active}")
  rejectIf (request.promptFormat ≠ Qwen36.decisionPromptFormat) (.format "Gemma 4 decision prompt"
    s!"unsupported prompt format {request.promptFormat}")
  rejectIf (request.labelTokenIds ≠ s.labelTokenIds) (.format "Gemma 4 decision label head"
    "request labels differ from the loaded fixed label head")
  rejectIf (request.prefixTokens = [] ∨ request.branches = [])
    (.format "Gemma 4 decision request" "prefix and branches must not be empty")
  validateTokens model.vocab "Gemma 4 decision prefix" request.prefixTokens
  request.branches.forM (checkDecisionBranch model.vocab s.config request)

def newGroup (id : Nat) (request : DecisionRequest) : DecisionGroup φ where
  id := id
  request := request
  parentSequenceId := none
  parentPosition := 0
  nextBranch := 0
  activeBranches := []
  logits := []

/-- `add_decision`, with the id it returns. -/
def addDecision (model : Model) (request : DecisionRequest) : Serving φ Nat := do
  attempt (checkDecision model (← get) request)
  let id ← nextRequestId
  modify fun s => { s with
    decisions := s.decisions.insert id (newGroup id request)
    decisionQueue := s.decisionQueue ++ [id] }
  return id

/-- `cancel_request`. The errors of the release are only logged. -/
def cancelRequest (id : Nat) : Serving φ Unit := do
  let s ← get
  match s.decisions.get id with
  | some group =>
    set { s with
      decisions := s.decisions.erase id
      decisionQueue := s.decisionQueue.filter fun queued => queued ≠ id }
    releaseDecisionGroup (fun _ => false) group
  | none =>
    match s.requests.get id with
    | none => pure ()
    | some request =>
      set { s with
        requests := s.requests.erase id
        waiting := s.waiting.filter fun waiting => waiting ≠ id }
      match request.sequenceId with
      | none => pure ()
      | some sid => logged (releaseDecisionSequence (fun _ => false) sid)

/-! ## Ticks -/

section
variable (model : Model) (input : TickInput model.vocab φ)

/-- The chat phases of `tick_with_lifecycle`. -/
def runChatPhases : Serving φ Unit := do
  admitRequests model input
  let terminal ← decodeLoop model input (decodeIds (← get)) .empty
  prefill model input (prefillIds (← get))
  let terminal := withEmptyRequests (← get) terminal
  terminal.entries.forM fun entry => finishRequest model input entry.1 entry.2

/-- `tick_with_lifecycle`. -/
def tick : Serving φ Unit := do
  modify fun s => { s with tick := .empty }
  runChatPhases model input
  runDecisionPhase model input

end

/-! ## Runs -/

inductive Action (vocab : Nat) (φ : Type) where
  | addRequest (rendered : Except CudaError (List (Fin vocab))) (generation : RequestConfig)
      (built : Bool)
  | addDecision (request : DecisionRequest)
  | tick (input : TickInput vocab φ)
  | cancelRequest (id : Nat)

def Action.call (model : Model) : Action model.vocab φ → Serving φ (Option Nat)
  | .addRequest rendered generation built =>
    some <$> Gemma4.addRequest rendered generation built
  | .addDecision request => some <$> Gemma4.addDecision model request
  | .tick input => do
    Gemma4.tick model input
    return none
  | .cancelRequest id => do
    Gemma4.cancelRequest id
    return none

/-- One step of a run, with the ids that were returned so far; a panic ends the run. -/
def step (model : Model) (x : ChatService φ × List Nat) (action : Action model.vocab φ) :
    Option (ChatService φ × List Nat) :=
  match action.call model x.1 with
  | .ok returned s => some (s, x.2 ++ returned.toList)
  | .error (.failed _) s => some (s, x.2)
  | .error (.panicked _) _ => none

end Eider.Source.Gemma4
