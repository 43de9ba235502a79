import Eider.Source.DecisionRequest
import Eider.Source.Dory.Decision
import Mathlib.Data.Nat.Log

/-!
Decision groups of the Dory service (`infer/src/execution/dory_serving/decision.rs`, lines
10 to 310).

A group is advanced one call on its sequence at a time. `none` stands for a panic: an
index out of range, or a budget that goes below zero. Timings and byte counts are left
out, and so are the requests of the chat side, which share only the workspace and the
prefix cache.
-/
namespace Eider.Source.Dory
open Lib
open Source.Qwen36 (DecisionBranch DecisionBranchLogits DecisionRequest SchedulerConfig)

structure DecisionGroup (R H φ : Type) where
  request : DecisionRequest
  sequence : Option (DoryDecisionSequence R H)
  prefixDone : Bool
  prefixRetained : Bool
  nextBranch : Nat
  suffixPosition : Nat
  logits : List (DecisionBranchLogits φ)

/-- The parts of `DoryChatService` that decisions use. -/
structure DoryService (R H φ : Type) where
  config : SchedulerConfig
  prefill : DoryPrefillWorkspace
  prefixes : DoryPrefixCache R
  idleDecision : Option (DoryDecisionSequence R H)
  decisions : BTreeMap Nat (DecisionGroup R H φ)
  decisionReady : List Nat

structure DecisionCompletion (φ : Type) where
  answers : List (String × DecisionAnswer φ)
  branchLogits : List (DecisionBranchLogits φ)
  inputTokens : Nat
  outputTokens : Nat

/-- The errors of the service. -/
def servingError (detail : String) : CudaError := .format "Dory serving" detail

/-- The group that `queue_decision` makes of a request. -/
def queuedGroup {R H φ : Type} (request : DecisionRequest) : DecisionGroup R H φ where
  request := request
  sequence := none
  prefixDone := false
  prefixRetained := false
  nextBranch := 0
  suffixPosition := 0
  logits := []

section
variable {R H φ : Type} (m : Checkpoint R H φ) (flash : Bool)

/-! ## Admission -/

def nextPowerOfTwo (n : Nat) : Nat := 2 ^ Nat.clog 2 n

def nextMultipleOf (n k : Nat) : Nat := divCeil n k * k

/-- The capacity of a new sequence: one that is kept for later requests is rounded up. -/
def decisionCapacity (config : SchedulerConfig) (required : Nat) : Nat :=
  if config.maxActiveSequences = 1 then
    min (if required < 8192 then nextPowerOfTwo required else nextMultipleOf required 8192)
      config.maxContextTokens
  else required

/-- The sequence of a group: the idle one if it supports the request, or a new one. -/
def takeSequence (config : SchedulerConfig) (idle : Option (DoryDecisionSequence R H))
    (required : Nat) : Except CudaError (DoryDecisionSequence R H) :=
  let packedRows := config.prefillTokenCapacity
  let branches := min config.decisionBranchCapacity 64
  match idle.filter fun s => s.supports flash required packedRows branches with
  | some s => .ok s
  | none => newDecisionSequence m flash (decisionCapacity config required) packedRows branches

/-- `admit_decision_sequence`, without the queue. -/
def admitDecisionSequence (input : TurnInput R) (s : DoryService R H φ)
    (group : DecisionGroup R H φ) :
    Except CudaError Unit × DoryService R H φ × DecisionGroup R H φ :=
  let taken := takeSequence m flash s.config s.idleDecision (longestBranchTokens group.request)
  let s := { s with idleDecision := none }
  match taken with
  | .error e => (.error e, s, group)
  | .ok sequence =>
    match sequence.prepare input group.request.prefixTokens s.prefixes.enabled with
    | (.error e, _) => (.error e, s, group)
    | (.ok true, sequence) =>
      (.ok (), s, { group with sequence := some sequence, prefixDone := true, prefixRetained := true })
    | (.ok false, sequence) =>
      match restoreMatch m.toDoryModel input.restore s.prefixes sequence.state
          group.request.prefixTokens true with
      | (.error e, prefixes, _) => (.error e, { s with prefixes := prefixes }, group)
      | (.ok 0, prefixes, state) =>
        (.ok (), { s with prefixes := prefixes }, { group with
          sequence := some { sequence with state := state }
          prefixDone := false
          prefixRetained := false })
      | (.ok (_ + 1), prefixes, state) =>
        let s := { s with prefixes := prefixes }
        match DoryDecisionSequence.sealPrefix { sequence with state := state } with
        | (.error e, _) => (.error e, s, group)
        | (.ok (), sequence) =>
          (.ok (), s, { group with
            sequence := some (sequence.retainPrefix group.request.prefixTokens)
            prefixDone := true
            prefixRetained := true })

/-! ## A turn -/

def finishDecision (float : AnswerFloats φ) (one : φ)
    (question : DecisionBranch → DecisionPromptQuestion) (group : DecisionGroup R H φ) :
    Except CudaError (DecisionCompletion φ) × DecisionGroup R H φ :=
  match answersFromLogits float question group.request group.logits one with
  | .error e => (.error (servingError e.message), group)
  | .ok answers =>
    (.ok ⟨answers, group.logits, logicalInputTokens group.request, group.request.branches.length⟩,
      { group with logits := [] })

/-- The suffixes that `take_while` keeps behind a number of rows. -/
def fittingSuffixes (budget : Nat) : Nat → List DecisionBranch → List (List Nat)
  | _, [] => []
  | rows, branch :: rest =>
    let rows := rows + branch.suffixTokens.length
    if rows ≤ budget then branch.suffixTokens :: fittingSuffixes budget rows rest else []

/-- The prefix that a wave includes, and its suffixes. -/
def selectWave (config : SchedulerConfig) (group : DecisionGroup R H φ) (budget : Nat) :
    List Nat × List (List Nat) :=
  let prefixTokens := if group.prefixDone then [] else group.request.prefixTokens
  let branchCapacity := if flash then min config.decisionBranchCapacity 64 else 1
  (prefixTokens, fittingSuffixes budget prefixTokens.length
    ((group.request.branches.drop group.nextBranch).take branchCapacity))

/-- The logits of the next branches, one row for each. -/
def pushLogits (group : DecisionGroup R H φ) : List (List φ) → Option (DecisionGroup R H φ)
  | [] => some group
  | row :: rest => do
    let branch ← group.request.branches[group.nextBranch]?
    if row.length < branch.labelTokenIds.length then none
    else pushLogits { group with
      logits := group.logits ++ [⟨branch.questionId, row.take branch.labelTokenIds.length⟩]
      nextBranch := group.nextBranch + 1 } rest

/-- What one turn of a group leaves. -/
structure Turned (R H φ : Type) where
  result : Except CudaError (Option (DecisionCompletion φ))
  service : DoryService R H φ
  group : DecisionGroup R H φ
  budget : Nat

/-- The end of a turn in which branches were read. -/
def settle (float : AnswerFloats φ) (one : φ) (question : DecisionBranch → DecisionPromptQuestion)
    (s : DoryService R H φ) (group : DecisionGroup R H φ) (budget : Nat) : Turned R H φ :=
  if group.nextBranch = group.request.branches.length then
    let (completion, group) := finishDecision float one question group
    ⟨completion.map some, s, group, budget⟩
  else ⟨.ok none, s, group, budget⟩

/-- `prefixes.retain` and `retain_prefix` behind a prefix. -/
def retainGroup (input : TurnInput R) (s : DoryService R H φ) (group : DecisionGroup R H φ)
    (sequence : DoryDecisionSequence R H) :
    Except CudaError Unit × DoryService R H φ × DecisionGroup R H φ :=
  match retain m.toDoryModel input.retain s.prefixes sequence.state group.request.prefixTokens with
  | (.error e, prefixes) =>
    (.error e, { s with prefixes := prefixes }, { group with sequence := some sequence })
  | (.ok (), prefixes) =>
    (.ok (), { s with prefixes := prefixes }, { group with
      sequence := some (sequence.retainPrefix group.request.prefixTokens)
      prefixRetained := true })

variable (float : AnswerFloats φ) (one : φ) (question : DecisionBranch → DecisionPromptQuestion)

def turnWave (input : TurnInput R) (s : DoryService R H φ) (group : DecisionGroup R H φ)
    (sequence : DoryDecisionSequence R H) (budget : Nat) (wave : List Nat × List (List Nat)) :
    Option (Turned R H φ) := do
  let rows := wave.1.length + (wave.2.map List.length).sum
  match ← sequence.prefillBranches m flash input s.prefill wave.1 wave.2 with
  | (.error e, w, sequence) =>
    some ⟨.error e, { s with prefill := w }, { group with sequence := some sequence }, budget⟩
  | (.ok outputs, w, sequence) =>
    if budget < rows then none
    else
      let s := { s with prefill := w }
      let group := { group with sequence := some sequence, prefixDone := true }
      let (retained, s, group) :=
        if !group.prefixRetained && s.prefixes.enabled then retainGroup m input s group sequence
        else (.ok (), s, group)
      match retained with
      | .error e => some ⟨.error e, s, group, budget - rows⟩
      | .ok () =>
        let group ← pushLogits group outputs
        some (settle float one question s group (budget - rows))

def turnPrefix (input : TurnInput R) (s : DoryService R H φ) (group : DecisionGroup R H φ)
    (sequence : DoryDecisionSequence R H) (budget : Nat) : Option (Turned R H φ) :=
  let tokens := group.request.prefixTokens
  let start := sequence.state.position
  let stop := min tokens.length (start + budget)
  if stop < start then none
  else
    match sequence.prefill m flash input s.prefill ((tokens.take stop).drop start) with
    | (.error e, w, sequence) =>
      some ⟨.error e, { s with prefill := w }, { group with sequence := some sequence }, budget⟩
    | (.ok (), w, sequence) =>
      let s := { s with prefill := w }
      let left := budget - (stop - start)
      if stop = tokens.length then
        match sequence.sealPrefix with
        | (.error e, sequence) =>
          some ⟨.error e, s, { group with sequence := some sequence }, left⟩
        | (.ok (), sequence) =>
          let group := { group with sequence := some sequence, prefixDone := true }
          if s.prefixes.enabled then
            match retainGroup m input s group sequence with
            | (.error e, s, group) => some ⟨.error e, s, group, left⟩
            | (.ok (), s, group) => some ⟨.ok none, s, group, left⟩
          else some ⟨.ok none, s, group, left⟩
      else some ⟨.ok none, s, { group with sequence := some sequence }, left⟩

def turnSuffix (input : TurnInput R) (s : DoryService R H φ) (group : DecisionGroup R H φ)
    (sequence : DoryDecisionSequence R H) (budget : Nat) : Option (Turned R H φ) := do
  let branch ← group.request.branches[group.nextBranch]?
  let tokens := branch.suffixTokens
  let start := group.suffixPosition
  let stop := min tokens.length (start + budget)
  if stop < start then none
  else
    match sequence.prefill m flash input s.prefill ((tokens.take stop).drop start) with
    | (.error e, w, sequence) =>
      some ⟨.error e, { s with prefill := w }, { group with sequence := some sequence }, budget⟩
    | (.ok (), w, sequence) =>
      let s := { s with prefill := w }
      let group := { group with sequence := some sequence, suffixPosition := stop }
      let left := budget - (stop - start)
      if stop < tokens.length then some ⟨.ok none, s, group, left⟩
      else
        match sequence.selectedLogits m input with
        | .error e => some ⟨.error e, s, group, left⟩
        | .ok row =>
          if row.length < branch.labelTokenIds.length then none else
          let group := { group with
            logits := group.logits ++ [⟨branch.questionId, row.take branch.labelTokenIds.length⟩]
            nextBranch := group.nextBranch + 1
            suffixPosition := 0 }
          if group.nextBranch < group.request.branches.length then
            match sequence.rewindToPrefix with
            | (.error e, sequence) =>
              some ⟨.error e, s, { group with sequence := some sequence }, left⟩
            | (.ok (), sequence) =>
              some ⟨.ok none, s, { group with sequence := some sequence }, left⟩
          else
            let (completion, group) := finishDecision float one question group
            some ⟨completion.map some, s, group, left⟩

/-- Whether a turn may pack branches: no suffix is under way, and the prefix is complete
or not begun. -/
def mayPack (group : DecisionGroup R H φ) (sequence : DoryDecisionSequence R H) : Bool :=
  group.suffixPosition == 0 && (group.prefixDone || sequence.state.position == 0)

/-- The wave that a turn of a group packs, if it packs one. -/
def packedWave (s : DoryService R H φ) (group : DecisionGroup R H φ)
    (sequence : DoryDecisionSequence R H) (budget : Nat) : Option (List Nat × List (List Nat)) :=
  let wave := selectWave flash s.config group budget
  if mayPack group sequence && !wave.2.isEmpty && (flash || !wave.1.isEmpty) then some wave
  else none

def advanceDecision (input : TurnInput R) (s : DoryService R H φ) (group : DecisionGroup R H φ)
    (budget : Nat) : Option (Turned R H φ) := do
  let sequence ← group.sequence
  match packedWave flash s group sequence budget with
  | some wave => turnWave m flash float one question input s group sequence budget wave
  | none =>
    if !group.prefixDone then turnPrefix m flash input s group sequence budget
    else turnSuffix m flash float one question input s group sequence budget

/-- What a tick of decisions reports. -/
structure DecisionTick (φ : Type) where
  finished : List (Nat × DecisionCompletion φ)
  failed : List (Nat × CudaError)

/-- What is left of a tick of decisions. -/
structure Tick (R H φ : Type) where
  result : Except CudaError Unit
  service : DoryService R H φ
  tokens : Nat
  sequences : Nat
  report : DecisionTick φ

/-- One pass of the loop of `run_decisions`; `none` stands for a panic. -/
def runTurn (input : TurnInput R) (s : DoryService R H φ) (tokens sequences : Nat)
    (tick : DecisionTick φ) : Option (Tick R H φ) :=
  match s.decisionReady with
  | [] => none
  | id :: rest => do
    let group ← s.decisions.get id
    let s := { s with decisionReady := rest, decisions := s.decisions.erase id }
    if sequences = 0 then none
    else
      let turned ← advanceDecision m flash float one question input s group tokens
      let s := turned.service
      match input.synchronize with
      | .error e => some ⟨.error e, s, turned.budget, sequences - 1, tick⟩
      | .ok () =>
        match turned.result with
        | .ok (some completion) =>
          let s := if s.config.maxActiveSequences = 1 then
            { s with idleDecision := turned.group.sequence } else s
          some ⟨.ok (), s, turned.budget, sequences - 1,
            { tick with finished := tick.finished ++ [(id, completion)] }⟩
        | .ok none =>
          let s := { s with
            decisions := s.decisions.insert id turned.group
            decisionReady := s.decisionReady ++ [id] }
          some ⟨.ok (), s, turned.budget, sequences - 1, tick⟩
        | .error e =>
          some ⟨.ok (), s, turned.budget, sequences - 1,
            { tick with failed := tick.failed ++ [(id, e)] }⟩

/-- The loop of `run_decisions`, once for each of the `ready` groups; a failed
synchronization behind a turn ends it. -/
def runDecisions (inputs : Nat → TurnInput R) :
    Nat → DoryService R H φ → Nat → Nat → DecisionTick φ → Option (Tick R H φ)
  | 0, s, tokens, sequences, tick => some ⟨.ok (), s, tokens, sequences, tick⟩
  | ready + 1, s, tokens, sequences, tick =>
    if tokens = 0 then some ⟨.ok (), s, tokens, sequences, tick⟩
    else do
      let t ← runTurn m flash float one question (inputs ready) s tokens sequences tick
      match t.result with
      | .error e => some { t with result := .error e }
      | .ok () => runDecisions inputs ready t.service t.tokens t.sequences t.report

/-! ## The service -/

/-- What happens to the decisions of a service. Chat requests change the workspace and
the prefix cache between turns. -/
inductive Event (R : Type) where
  | queue (id : Nat) (request : DecisionRequest)
  | admission (id : Nat) (input : TurnInput R)
  | turn (input : TurnInput R) (tokens sequences : Nat)
  | cancel (id : Nat)
  | chat (prefill : DoryPrefillWorkspace) (prefixes : DoryPrefixCache R)

/-- `queue_decision`, the admission in `run_tick`, one turn, and `cancel_request`. -/
def step (labels : List Nat) (vocab : Nat) (s : DoryService R H φ) :
    Event R → Option (DoryService R H φ)
  | .queue id request =>
    match validateDecision question request labels vocab s.config.maxContextTokens with
    | .error _ => some s
    | .ok () => some { s with decisions := s.decisions.insert id (queuedGroup request) }
  | .admission id input => do
    let group ← s.decisions.get id
    match admitDecisionSequence m flash input s group with
    | (.error _, s, _) =>
      match input.synchronize with
      | .error _ => some s
      | .ok () => some { s with decisions := s.decisions.erase id }
    | (.ok (), s, group) => some { s with
        decisions := s.decisions.insert id group
        decisionReady := s.decisionReady ++ [id] }
  | .turn input tokens sequences =>
    (runTurn m flash float one question input s tokens sequences ⟨[], []⟩).map Tick.service
  | .cancel id =>
    match s.decisions.get id with
    | none => some s
    | some group => some { s with
        decisions := s.decisions.erase id
        decisionReady := s.decisionReady.filter (· ≠ id)
        idleDecision := if s.config.maxActiveSequences = 1 ∧ group.sequence.isSome then
          group.sequence else s.idleDecision }
  | .chat prefill prefixes => some { s with prefill := prefill, prefixes := prefixes }

/-! ## The ids -/

/-- A service with the ids that it gives out and those that wait for their admission. Chat
requests take ids and wait like decisions do. -/
structure DoryEngine (R H φ : Type) where
  service : DoryService R H φ
  nextId : Nat
  waiting : List Nat

/-- A new id for a request that `service` has taken; the ids may be exhausted. -/
def DoryEngine.issue {R H φ : Type} (e : DoryEngine R H φ) (service : DoryService R H φ) :
    DoryEngine R H φ :=
  if 2 ^ 64 ≤ e.nextId + 1 then e else ⟨service, e.nextId + 1, e.waiting ++ [e.nextId]⟩

/-- What is asked of the service, and the parts of `run_tick`. -/
inductive EngineCall (R : Type) where
  | addDecision (request : DecisionRequest)
  | addRequest
  | admission (input : TurnInput R)
  | decisions (inputs : Nat → TurnInput R) (tokens sequences : Nat)
  | chat (prefill : DoryPrefillWorkspace) (prefixes : DoryPrefixCache R)
  | cancelRequest (id : Nat)

/-- The admission is one pass of its loop; its bound on the sequences is left out, as it
counts those of chat requests. -/
def DoryEngine.call (labels : List Nat) (vocab : Nat) (e : DoryEngine R H φ) :
    EngineCall R → Option (DoryEngine R H φ)
  | .addDecision request =>
    match validateDecision question request labels vocab e.service.config.maxContextTokens with
    | .error _ => some e
    | .ok () =>
      (step m flash float one question labels vocab e.service (.queue e.nextId request)).map e.issue
  | .addRequest => some (e.issue e.service)
  | .admission input =>
    match e.waiting with
    | [] => some e
    | id :: rest =>
      if (e.service.decisions.get id).isSome then
        (step m flash float one question labels vocab e.service (.admission id input)).map
          fun service => { e with service := service, waiting := rest }
      else some { e with waiting := rest }
  | .decisions inputs tokens sequences =>
    (runDecisions m flash float one question inputs (min e.service.decisionReady.length sequences)
      e.service tokens sequences ⟨[], []⟩).map fun t => { e with service := t.service }
  | .chat prefill prefixes =>
    (step m flash float one question labels vocab e.service (.chat prefill prefixes)).map
      fun service => { e with service := service }
  | .cancelRequest id =>
    (step m flash float one question labels vocab e.service (.cancel id)).map
      fun service => { e with service := service, waiting := e.waiting.filter (· ≠ id) }

end

end Eider.Source.Dory
