import Eider.Source.Gemma4.State

/-!
The decision phase of a Gemma 4 tick (`infer/src/execution/gemma4_serving.rs`, lines 466 to 860)
with the sequences and readouts it calls (`gemma4/sequence.rs`, 79 to 190; `gemma4/batch.rs`,
79 to 125 and 732 to 870).

One group advances in a tick, by one of its stages. A request that fits one tree prefill is
answered at once. The batch selection is that of the Qwen3.6 scheduler.
-/
namespace Eider.Source.Gemma4
open Lib.ByteReader Lib.Faults Lib.Lending
open Source.Qwen36 (SchedulerConfig DecisionBranch DecisionRequest DecisionBranchLogits
  ActiveBranch raise attempt expect suffixChunks advanceSuffixes suffixRows readyBranches
  swapRemove readyRows readyLogits)

variable {φ : Type}

/-- A call of the service that works on a decision group. -/
abbrev Deciding (φ : Type) := EStateM (Fault CudaError) (Holding (ChatService φ) (DecisionGroup φ))

/-- The errors that a phase answers itself. -/
def returned : Fault CudaError → Option CudaError
  | .failed e => some e
  | .panicked _ => none

/-- A call whose error is only logged. -/
def logged (call : Serving φ Unit) : Serving φ Unit := do
  let _ ← lend returned () (onState call)

/-- `release_decision_sequence`; `fails` says which sequences cannot be finished. -/
def releaseDecisionSequence (fails : Nat → Bool) (sid : Nat) : Serving φ Unit := do
  let sequence ← releaseSequence sid
  finishSequence (fails sid) sequence

/-- `release_decision_group`. Its error is only logged, so it is left out. -/
def releaseDecisionGroup (fails : Nat → Bool) (group : DecisionGroup φ) : Serving φ Unit :=
  group.sequences.forM fun sid => logged (releaseDecisionSequence fails sid)

section
variable (model : Model) (input : TickInput model.vocab φ)

/-! ## The tree -/

def treeTokens (request : DecisionRequest) : Nat :=
  request.prefixTokens.length + (request.branches.map fun branch => branch.suffixTokens.length).sum

def decisionTreeFits (config : SchedulerConfig) (request : DecisionRequest) : Bool :=
  treeTokens request < 2 ^ 64 && request.prefixTokens ≠ [] && request.branches ≠ [] &&
    request.branches.all (fun branch => branch.suffixTokens ≠ []) &&
    treeTokens request ≤ config.prefillTokenCapacity &&
    request.branches.all (fun branch =>
      request.prefixTokens.length + branch.suffixTokens.length ≤ config.maxContextTokens) &&
    request.branches.length ≤ config.decisionBranchCapacity &&
    model.treeRowsFit (treeTokens request)

/-- The checks of `decision_tree_selected_logits`. -/
def checkTree (config : SchedulerConfig) (request : DecisionRequest) : Except CudaError Unit := do
  let branches := request.branches
  let tokens := treeTokens request
  let longest := (branches.map fun branch =>
    request.prefixTokens.length + branch.suffixTokens.length).max?.getD 0
  rejectIf (request.prefixTokens = [] ∨ branches = [] ∨
      branches.any (fun branch => branch.suffixTokens = []))
    (.shape "Gemma 4 decision tree" "a non-empty prefix and non-empty branches"
      s!"prefix={request.prefixTokens.length} branches={branches.length}")
  rejectIf (2 ^ 64 ≤ tokens) (.shape "Gemma 4 decision tree token count"
    "prefix + branches without overflow" "overflow")
  rejectIf (config.prefillTokenCapacity < tokens ∨ config.maxContextTokens < longest ∨
      config.decisionBranchCapacity < branches.length)
    (.shape "Gemma 4 decision tree capacity"
      (s!"tokens <= {config.prefillTokenCapacity}, logical branch <= {config.maxContextTokens}, "
        ++ s!"branches <= {config.decisionBranchCapacity}")
      s!"tokens={tokens} logical_branch={longest} branches={branches.length}")
  rejectIf ((request.prefixTokens ++ branches.flatMap DecisionBranch.suffixTokens).any fun token =>
      model.vocab ≤ token)
    (.shape "Gemma 4 decision tree token" s!"token < {model.vocab}" "out-of-range token")

/-- The logits of the branches, one row of the label head for each. -/
def branchLogits (branches : List DecisionBranch) (rows : List (List φ)) :
    List (DecisionBranchLogits φ) :=
  List.zipWith (fun branch row => ⟨branch.questionId, row.take branch.labelTokenIds.length⟩)
    branches rows

/-- The logits are taken out of the group and answered. -/
def answer (label : String) : Deciding φ (List (DecisionBranchLogits φ)) := do
  let group := (← get).held
  setHeld { group with logits := [] }
  reach input .answers (.format label "answers_from_logits")
  return group.logits

/-- A request that fits one tree prefill. -/
def readTree : Deciding φ (List (DecisionBranchLogits φ)) := do
  let h ← get
  attempt (checkTree model h.state.config h.held.request)
  reach input .decisionTree (.device "decision_tree_selected_logits")
  setHeld { h.held with
    logits := h.held.logits ++ branchLogits h.held.request.branches input.treeLogits }
  answer model input "Gemma 4 decision tree answers"

/-! ## Sequences -/

def admitDecision (maxTokens : Nat) : Serving φ ExecutionSequence := do
  let state ← attempt (newSequenceState model maxTokens)
  reach input .parentState (.device "new_decision_sequence_state")
  reach input .parentPageTable (.device "Sm12xPageTable::new")
  reach input .parentAdmission (cacheError "admit")
  if input.parentBlocks then
    raise (.format "Gemma 4 decision admission" "configured cache has insufficient capacity")
  else
    let cacheId := (← get).sequenceCache.nextId
    modify fun s => { s with sequenceCache := s.sequenceCache.enter input.chargedBytes }
    return ⟨cacheId, state⟩

/-- `Gemma4Sequence::branch_decision`, for the branch at a place. -/
def branchDecision (index : Nat) (source : ExecutionSequence) (maxTokens : Nat) :
    Serving φ (Option ExecutionSequence) := do
  let state ← attempt (newSequenceState model maxTokens)
  reach input (.branchState index) (.device "new_decision_sequence_state")
  reach input (.branchPageTable index) (.device "Sm12xPageTable::new")
  reach input (.branch index) (cacheError "branch")
  if input.branchBlocks index then return none
  else
    let cacheId := (← get).sequenceCache.nextId
    modify fun s => { s with sequenceCache := s.sequenceCache.enter input.chargedBytes }
    return some ⟨cacheId, { state with
      position := source.sequence.position
      entry := { rows := source.sequence.entry.rows, pending := none } }⟩

/-- A batch of prefill rows over leased sequences. -/
def prefillRows (rows : List (Nat × List Nat)) : Deciding φ Unit := do
  let workspace := prefillWorkspace (← get).state.config
  onState (callModel (rows.map Prod.fst) (rows.map Prod.snd)
    (AppendBatch.prefillBatch .gemma4 model.device (only input.decisionCall) workspace))

/-! ## The stages -/

/-- The first stage: a parent sequence, as soon as a slot is free. -/
def admitParent : Deciding φ Unit := do
  let h ← get
  if h.state.sequences.size < h.state.config.maxActiveSequences then
    let sequence ← onState (admitDecision model input h.held.request.prefixTokens.length)
    let sid ← onState (insertSequence sequence)
    setHeld { h.held with parentSequenceId := some sid }
  else pure ()

/-- The second stage: one chunk of the shared prefix. -/
def prefillParent : Deciding φ Unit := do
  let h ← get
  let prefixTokens := h.held.request.prefixTokens
  let start := h.held.parentPosition
  let chunk := min (prefixTokens.length - start) h.state.config.prefillTokenCapacity
  let parent ← expect h.held.parentSequenceId "admitted decision has a parent sequence"
  prefillRows model input [(parent, (prefixTokens.drop start).take chunk)]
  reach input .synchronizeDecision (.device "synchronize")
  setHeld { h.held with parentPosition := start + chunk }
  onState (report fun tick =>
    { tick with prefilled := tick.prefilled ++ [(h.held.id, start + chunk)] })

/-- The branch loop: how many branches it admits of `wave` at most. -/
def admitBranches : Nat → Deciding φ Nat
  | 0 => pure 0
  | wave + 1 => do
    let group := (← get).held
    match group.request.branches[group.nextBranch]? with
    | none => pure 0
    | some branch =>
      let maxTokens := group.request.prefixTokens.length + branch.suffixTokens.length
      let parentId ← expect group.parentSequenceId "prefilled decision has a parent sequence"
      let leased ← attempt (leaseMany (← get).state.sequences [parentId])
      let parent ← expect leased.head? "leased sequence"
      match ← onState (branchDecision model input group.nextBranch parent maxTokens) with
      | none => pure 0
      | some sequence =>
        let sid ← onState (insertSequence sequence)
        setHeld { group with
          activeBranches := group.activeBranches ++ [⟨branch, sid, 0⟩]
          nextBranch := group.nextBranch + 1 }
        let admitted ← admitBranches wave
        return admitted + 1

/-- The third stage: a wave of branches. The result says whether one was admitted. -/
def forkBranches : Deciding φ Bool := do
  let s := (← get).state
  let available := s.config.maxActiveSequences - s.sequences.size
  let admitted ← admitBranches model input (min available s.config.decisionBranchCapacity)
  if admitted = 0 then return false
  else
    reach input .synchronizeBranches (.device "synchronize")
    return true

/-- The fourth stage: chunks of the suffixes, without their last tokens. -/
def prefillSuffixes (chunks : List (Nat × Nat)) : Deciding φ Unit := do
  let branches := (← get).held.activeBranches
  prefillRows model input (suffixRows branches chunks)
  reach input .synchronizeDecision (.device "synchronize")
  let group := (← get).held
  setHeld { group with activeBranches := advanceSuffixes group.activeBranches chunks }

/-- The loop of `stage_sequence` over the rows of a batch. -/
def stageRows (capacity rows : Nat) : Deciding φ Unit :=
  (List.range rows).forM fun row => do
    attempt (rejectIf (capacity ≤ row) (.shape "Gemma 4 decision readout row"
      s!"row < {capacity}" s!"{row}"))
    reach input (.stageSequence row) (.device "copy_range_from_device_on_stream")

/-- The release loop over the ready places, from the last one back. -/
def releaseReady : List Nat → Deciding φ Unit
  | [] => pure ()
  | index :: rest => do
    let group := (← get).held
    let branch ← expect group.activeBranches[index]? "swap_remove index"
    setHeld { group with activeBranches := swapRemove group.activeBranches index }
    onState (releaseDecisionSequence input.finishFails branch.sequenceId)
    releaseReady rest

/-- The fifth stage: the last suffix tokens, and the label logits behind them. -/
def readBranches (ready : List Nat) : Deciding φ Unit := do
  let h ← get
  let capacity := h.state.config.decisionBranchCapacity
  prefillRows model input ((readyRows h.held.activeBranches ready).map fun row => (row.1, [row.2]))
  stageRows model input capacity ready.length
  attempt (rejectIf (ready.length = 0 ∨ capacity < ready.length)
    (.shape "Gemma 4 decision readout rows" s!"1..={capacity}" s!"{ready.length}"))
  reach input .selectedLogits (.device "selected_logits")
  setHeld { h.held with
    logits := h.held.logits ++ readyLogits h.held.activeBranches ready input.labelLogits }
  releaseReady model input ready.reverse

/-- The last stage: the parent is released and the logits are the completion. -/
def completeDecision : Deciding φ (List (DecisionBranchLogits φ)) := do
  let group := (← get).held
  match group.parentSequenceId with
  | none => pure ()
  | some parent =>
    setHeld { group with parentSequenceId := none }
    onState (releaseDecisionSequence input.finishFails parent)
  answer model input "Gemma 4 decision answers"

def advanceBranches : Deciding φ (Option (List (DecisionBranchLogits φ))) := do
  if ← forkBranches model input then return none
  else
    let h ← get
    let config := h.state.config
    let branches := h.held.activeBranches
    let chunks := suffixChunks 0 config.prefillSequenceCapacity config.prefillTokenCapacity branches
    let ready := readyBranches
      (min config.decisionBranchCapacity config.prefillSequenceCapacity) branches
    if !chunks.isEmpty then
      prefillSuffixes model input chunks
      return none
    else if !ready.isEmpty then
      readBranches model input ready
      return none
    else if h.held.nextBranch ≠ h.held.request.branches.length ∨ branches ≠ [] then
      return none
    else
      let logits ← completeDecision model input
      return some logits

def advanceDecisionGroup : Deciding φ (Option (List (DecisionBranchLogits φ))) := do
  let h ← get
  if h.held.parentSequenceId = none then
    if decisionTreeFits model h.state.config h.held.request then
      let logits ← readTree model input
      return some logits
    else
      admitParent model input
      return none
  else if h.held.parentPosition < h.held.request.prefixTokens.length then
    prefillParent model input
    return none
  else advanceBranches model input

def runDecisionPhase : Serving φ Unit := do
  match (← get).decisionQueue with
  | [] => pure ()
  | id :: rest =>
    modify fun s => { s with decisionQueue := rest }
    let group ← expect ((← get).decisions.get id) "queued decision group is retained"
    modify fun s => { s with decisions := s.decisions.erase id }
    match ← lend returned group (advanceDecisionGroup model input) with
    | (_, .ok (some completion)) =>
      report fun tick =>
        { tick with decisionsFinished := tick.decisionsFinished ++ [(id, completion)] }
    | (group, .ok none) =>
      modify fun s => { s with
        decisions := s.decisions.insert id group
        decisionQueue := s.decisionQueue ++ [id] }
    | (group, .error e) =>
      releaseDecisionGroup input.finishFails group
      report fun tick => { tick with decisionsFailed := tick.decisionsFailed ++ [(id, e)] }

end

end Eider.Source.Gemma4
