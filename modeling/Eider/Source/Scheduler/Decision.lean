import Eider.Source.Scheduler.Prefill

/-!
The decision phase of the Qwen3.6 scheduler (`infer/src/execution/scheduler.rs`, lines
1688 to 2148). A decision group prefills its shared prefix into a parent sequence, forks
one branch sequence for each question, prefills the suffixes and reads the label logits
behind their last tokens.

A group advances by one of its stages in a tick. The stages are separate definitions;
each one that applies ends the turn.
-/
namespace Eider.Source.Qwen36
open Lib.ByteReader

variable {n : Nat} {β κ φ C R K α : Type}

/-- A scheduler call that works on a decision group. -/
abbrev Deciding (n : Nat) (β φ C K : Type) := Submitting n β φ C K (DecisionGroup φ)

variable (model : TextModel n β κ φ C R K) (input : TickInput φ)

/-- `Qwen36Sequence::admit`. -/
def admitSequence (maxTokens : Nat) :
    Scheduling n β φ C K (Sequence n β) := do
  let state ← attempt (newSequenceState model maxTokens)
  reach input .parentState "new_sequence_state"
  let admitted := model.prefixes.admission (← get).cache none maxTokens
  modify fun s => { s with cache := admitted.1 }
  match ← attempt admitted.2 with
  | .wouldBlock => raise (.format "Qwen3.6 sequence admission"
      "configured cache has insufficient capacity")
  | .admitted cacheId _ _ =>
    reach input .parentSynchronize "synchronize"
    return ⟨cacheId, state⟩

def releaseDecisionSequence (id : Nat) :
    Scheduling n β φ C K Unit := do
  let sequence ← releaseSequence id
  finishSequence model sequence

def releaseDecisionPrefix : Deciding n β φ C K Unit := do
  let group := (← get).held
  match group.alignedPrefixEntry with
  | none => pure ()
  | some entry =>
    setHeld { group with alignedPrefixEntry := none }
    let parent ← expect group.parentSequenceId "retained decision prefix has a live parent"
    let _ ← attempt (leaseMany (← get).scheduler.sequences [parent])
    let evicted := model.prefixes.evictPrefix (← get).scheduler.cache entry
    onScheduler (modify fun s => { s with cache := evicted.1 })
    attempt evicted.2

/-- The first stage: a parent sequence, as soon as a slot is free. -/
def admitParent :
    Deciding n β φ C K Unit := do
  let h ← get
  if h.scheduler.sequences.size < h.scheduler.config.maxActiveSequences then
    let sequence ← onScheduler (admitSequence model input h.held.request.prefixTokens.length)
    let sequenceId ← onScheduler (insertSequence sequence)
    setHeld { h.held with parentSequenceId := some sequenceId }
    onScheduler (report fun tick => { tick with admitted := tick.admitted ++ [(h.held.id, 0)] })
  else pure ()

/-- A batch of prefill rows over leased sequences. -/
def prefillRows (rows : List (Nat × List Nat)) : Deciding n β φ C K Unit := do
  let leased ← attempt (leaseMany (← get).scheduler.sequences (rows.map Prod.fst))
  let config := (← get).scheduler.config
  let ((after, cache), result) := prefillBatch model.cache model.device model.modelId
    input.decisionCall (prefillWorkspace model config)
    ((rows.zip leased).map fun row => ⟨row.2, row.1.2⟩) (← get).scheduler.cache
  setExecution (rows.map Prod.fst) (after.map BatchRow.sequence) cache
  attempt result

/-- The second stage: one chunk of the shared prefix. -/
def prefillParent :
    Deciding n β φ C K Unit := do
  let h ← get
  let prefixTokens := h.held.request.prefixTokens
  let start := h.held.parentPosition
  let chunk := min (prefixTokens.length - start) h.scheduler.config.prefillTokenCapacity
  let parent ← expect h.held.parentSequenceId "admitted decision has a parent sequence"
  prefillRows model input [(parent, (prefixTokens.drop start).take chunk)]
  setHeld { h.held with parentPosition := start + chunk }
  onScheduler (report fun tick =>
    { tick with prefilled := tick.prefilled ++ [(h.held.id, chunk, start + chunk)] })

/-- The third stage: a prefix that fills its pages is retained, and the branches are
restored from it. -/
def retainParent :
    Deciding n β φ C K Unit := do
  let group := (← get).held
  let parentId ← expect group.parentSequenceId "prefilled decision has a parent sequence"
  let leased ← attempt (leaseMany (← get).scheduler.sequences [parentId])
  let parent ← expect leased.head? "leased sequence"
  let snapshot ← attempt (snapshotSequence model.modelId parent.state)
  reach input (.snapshot group.id) "snapshot_sequence"
  let retained := model.prefixes.retainPrefix (← get).scheduler.cache parent.cacheId
    group.request.prefixTokens snapshot
  onScheduler (modify fun s => { s with cache := retained.1 })
  let outcome ← attempt retained.2
  reach input .retainSynchronize "synchronize"
  let entry := match outcome with
    | .inserted entry => some entry
    | .duplicate _ => none
  let looked := model.prefixes.lookupPrefix (← get).scheduler.cache
    (group.request.prefixTokens ++ [0])
  onScheduler (modify fun s => { s with cache := looked.1 })
  setHeld { group with alignedPrefixEntry := entry, alignedPrefix := looked.2 }
  match looked.2 with
  | none => raise (.format "Qwen3.6 aligned decision fork" "retained parent prefix was not found")
  | some _ => pure ()

/-- The restore closure of `admit_aligned_decision_branch`. -/
def restoreAligned
    (snapshot : Option (SequenceSnapshot n β)) (position : Nat) (state : SequenceState n β) :
    Except CudaError (SequenceState n β) :=
  match snapshot with
  | none => .error (.format "Qwen3.6 aligned decision fork"
      "retained prefix has no recurrent snapshot")
  | some snapshot => do
    let restored ← restoreSequenceSnapshot model.modelId snapshot state
    rejectIf (restored.position ≠ position) (.format "Qwen3.6 aligned decision fork"
      s!"snapshot restored position {restored.position} instead of {position}")
    return restored

def admitAlignedDecisionBranch (index : Nat) (matched : PrefixMatch) (maxTokens : Nat) :
    Scheduling n β φ C K (Option (Sequence n β)) := do
  let state ← attempt (newSequenceState model maxTokens)
  reach input (.branchState index) "new_sequence_state"
  let admitted := model.prefixes.admission (← get).cache (some matched) maxTokens
  modify fun s => { s with cache := admitted.1 }
  match ← attempt admitted.2 with
  | .wouldBlock => return none
  | .admitted cacheId snapshot position =>
    match restoreAligned model snapshot position state with
    | .error e =>
      modify fun s => { s with cache := model.prefixes.withdraw s.cache cacheId }
      raise e
    | .ok state => return some ⟨cacheId, state⟩

/-- `Qwen36Sequence::branch`. -/
def branchSequence (index : Nat)
    (source : Sequence n β) (maxTokens : Nat) : Scheduling n β φ C K (Option (Sequence n β)) := do
  let state ← attempt (newSequenceState model maxTokens)
  reach input (.branchState index) "new_sequence_state"
  let branched := model.prefixes.branch (← get).cache source.cacheId maxTokens
  modify fun s => { s with cache := branched.1 }
  match ← attempt branched.2 with
  | none => return none
  | some cacheId =>
    match forkSequenceState model.modelId source.state state with
    | .error e =>
      modify fun s => { s with cache := (model.prefixes.finish s.cache cacheId).1 }
      raise e
    | .ok state =>
      if input.fails (.branchFork index) then
        modify fun s => { s with cache := (model.prefixes.finish s.cache cacheId).1 }
        raise (.device "fork_sequence_state_on_stream")
      else return some ⟨cacheId, state⟩

/-- The sequence of the next branch: restored from the retained prefix, or forked from
the parent. -/
def nextBranchSequence (branch : DecisionBranch) : Deciding n β φ C K (Option (Sequence n β)) := do
  let group := (← get).held
  let maxTokens := group.request.prefixTokens.length + branch.suffixTokens.length
  match group.alignedPrefix with
  | some matched =>
    onScheduler (admitAlignedDecisionBranch model input group.nextBranch matched maxTokens)
  | none =>
    let parentId ← expect group.parentSequenceId "prefilled decision has a parent sequence"
    let leased ← attempt (leaseMany (← get).scheduler.sequences [parentId])
    let parent ← expect leased.head? "leased sequence"
    onScheduler (branchSequence model input group.nextBranch parent maxTokens)

/-- The branch loop: how many branches it admits of `wave` at most. -/
def admitBranches :
    Nat → Deciding n β φ C K Nat
  | 0 => pure 0
  | wave + 1 => do
    let group := (← get).held
    match group.request.branches[group.nextBranch]? with
    | none => pure 0
    | some branch =>
      match ← nextBranchSequence model input branch with
      | none => pure 0
      | some sequence =>
        let sequenceId ← onScheduler (insertSequence sequence)
        let group := (← get).held
        setHeld { group with
          activeBranches := group.activeBranches ++ [⟨branch, sequenceId, 0⟩]
          nextBranch := group.nextBranch + 1 }
        let admitted ← admitBranches wave
        return admitted + 1

/-- The fourth stage: a wave of branches. The result says whether one was admitted. -/
def forkBranches :
    Deciding n β φ C K Bool := do
  let s := (← get).scheduler
  let available := s.config.maxActiveSequences - s.sequences.size
  let admitted ← admitBranches model input (min available s.config.decisionBranchCapacity)
  if admitted = 0 then return false
  else
    reach input .branchSynchronize "synchronize"
    return true

/-- The suffix rows of the fifth stage: places and chunks, within the rows and tokens
left. -/
def suffixChunks : Nat → Nat → Nat → List ActiveBranch → List (Nat × Nat)
  | _, _, _, [] => []
  | index, rows, tokenBudget, branch :: rest =>
    if rows = 0 ∨ tokenBudget = 0 then []
    else
      let remaining := branch.branch.suffixTokens.length - 1 - branch.suffixPosition
      if remaining = 0 then suffixChunks (index + 1) rows tokenBudget rest
      else
        let chunk := min remaining tokenBudget
        (index, chunk) :: suffixChunks (index + 1) (rows - 1) (tokenBudget - chunk) rest

variable (branches : List ActiveBranch) (chunks : List (Nat × Nat))

def advanceSuffixes : List ActiveBranch :=
  branches.zipIdx.map fun entry =>
    match chunks.lookup entry.2 with
    | some chunk => { entry.1 with suffixPosition := entry.1.suffixPosition + chunk }
    | none => entry.1

def suffixRows : List (Nat × List Nat) :=
  chunks.filterMap fun entry => branches[entry.1]?.map fun branch =>
    (branch.sequenceId, (branch.branch.suffixTokens.drop branch.suffixPosition).take entry.2)

/-- The fifth stage: chunks of the suffixes, without their last tokens. -/
def prefillSuffixes : Deciding n β φ C K Unit := do
  let branches := (← get).held.activeBranches
  prefillRows model input (suffixRows branches chunks)
  let group := (← get).held
  setHeld { group with activeBranches := advanceSuffixes group.activeBranches chunks }

/-- The places of the branches that have one suffix token left. -/
def readyBranches (capacity : Nat) (branches : List ActiveBranch) : List Nat :=
  ((branches.zipIdx.filter fun entry =>
    entry.1.suffixPosition + 1 = entry.1.branch.suffixTokens.length).take capacity).map Prod.snd

/-- `swap_remove`: the last element takes the place of the removed one. -/
def swapRemove (index : Nat) : List ActiveBranch :=
  match branches.getLast? with
  | none => []
  | some last => (branches.set index last).dropLast

/-- The release loop over the ready places, from the last one back. -/
def releaseReady : List Nat → Deciding n β φ C K Unit
  | [] => pure ()
  | index :: rest => do
    let group := (← get).held
    let branch ← expect group.activeBranches[index]? "swap_remove index"
    setHeld { group with activeBranches := swapRemove group.activeBranches index }
    onScheduler (releaseDecisionSequence model branch.sequenceId)
    releaseReady rest

/-- The rows of the ready branches: their sequences and last suffix tokens. -/
def readyRows (ready : List Nat) : List (Nat × Nat) :=
  ready.filterMap fun index => branches[index]?.map fun branch =>
    (branch.sequenceId, branch.branch.suffixTokens.getD branch.suffixPosition 0)

/-- The logits of the ready branches, one row of the label head for each. -/
def readyLogits (ready : List Nat) (rows : List (List φ)) : List (DecisionBranchLogits φ) :=
  (ready.zip rows).filterMap fun entry => branches[entry.1]?.map fun branch =>
    ⟨branch.branch.questionId, entry.2.take branch.branch.labelTokenIds.length⟩

/-- The sixth stage: the last suffix tokens are decoded and their label logits read. -/
def readBranches (ready : List Nat) :
    Deciding n β φ C K Unit := do
  let h ← get
  let workspace ← expect (decodeWorkspace model h.scheduler.config ready.length)
    "decode capacity classes cover decision waves"
  let rows := readyRows h.held.activeBranches ready
  let leased ← attempt (leaseMany h.scheduler.sequences (rows.map Prod.fst))
  let ((after, cache), result) := executeDecodeBatch model.cache model.device model.modelId
    input.decisionCall workspace ((rows.zip leased).map fun row => ⟨row.1.2, row.2⟩)
    h.scheduler.cache
  setExecution (rows.map Prod.fst) (after.map BatchRow.sequence) cache
  attempt result
  let _ ← expect h.scheduler.decisionReadout "decision requests require a prepared label head"
  reach input .selectedLogits "selected_logits"
  let labels := after.map fun row =>
    model.readout row.sequence.state.linearStates (contentsOf model.cache row cache).2
  setHeld { h.held with
    logits := h.held.logits ++ readyLogits h.held.activeBranches ready labels }
  releaseReady model ready.reverse

/-- The parent sequence of a finished group is released. -/
def releaseParent : Deciding n β φ C K Unit := do
  let group := (← get).held
  match group.parentSequenceId with
  | none => pure ()
  | some parent =>
    setHeld { group with parentSequenceId := none }
    onScheduler (releaseDecisionSequence model parent)

/-- The last stage: the parent is released and the logits are the completion. -/
def completeDecision :
    Deciding n β φ C K (List (DecisionBranchLogits φ)) := do
  releaseDecisionPrefix model
  releaseParent model
  let group := (← get).held
  setHeld { group with logits := [] }
  reach input .answers "answers_from_logits"
  return group.logits

def advanceBranches :
    Deciding n β φ C K (Option (List (DecisionBranchLogits φ))) := do
  if ← forkBranches model input then return none
  else
    let h ← get
    let chunks := suffixChunks 0 h.scheduler.config.prefillSequenceCapacity
      h.scheduler.config.prefillTokenCapacity h.held.activeBranches
    let ready := readyBranches h.scheduler.config.decisionBranchCapacity h.held.activeBranches
    if !chunks.isEmpty then
      prefillSuffixes model input chunks
      return none
    else if !ready.isEmpty then
      readBranches model input ready
      return none
    else if h.held.nextBranch ≠ h.held.request.branches.length ∨ h.held.activeBranches ≠ [] then
      return none
    else
      let logits ← completeDecision model input
      return some logits

def advanceDecisionGroup :
    Deciding n β φ C K (Option (List (DecisionBranchLogits φ))) := do
  let group := (← get).held
  if group.parentSequenceId = none then
    admitParent model input
    return none
  else if group.parentPosition < group.request.prefixTokens.length then
    prefillParent model input
    return none
  else if group.parentPosition % kvPageTokens = 0 ∧ group.alignedPrefix = none then
    retainParent model input
    return none
  else advanceBranches model input

/-- The branch loop of `release_decision_group`, which goes on behind an error. -/
def releaseBranches :
    List ActiveBranch → Scheduling n β φ C K Unit
  | [] => pure ()
  | branch :: rest => do
    let _ ← lend () (onScheduler (releaseDecisionSequence model branch.sequenceId))
    releaseBranches rest

/-- `release_decision_group`. Its error is only logged, so it is left out. -/
def releaseDecisionGroup (group : DecisionGroup φ) :
    Scheduling n β φ C K Unit := do
  releaseBranches model group.activeBranches
  let released ← lend { group with activeBranches := [] } (releaseDecisionPrefix model)
  match released.1.parentSequenceId with
  | none => pure ()
  | some parent =>
    let _ ← lend () (onScheduler (releaseDecisionSequence model parent))

def runDecisionPhase :
    Scheduling n β φ C K Unit := do
  match (← get).decisionQueue with
  | [] => pure ()
  | id :: rest =>
    modify fun s => { s with decisionQueue := rest }
    let group ← expect ((← get).decisions.get id) "queued decision group is retained"
    modify fun s => { s with decisions := s.decisions.erase id }
    match ← lend group (advanceDecisionGroup model input) with
    | (_, .ok (some completion)) =>
      report fun tick =>
        { tick with decisionsFinished := tick.decisionsFinished ++ [(id, completion)] }
    | (group, .ok none) =>
      modify fun s => { s with
        decisions := s.decisions.insert id group
        decisionQueue := s.decisionQueue ++ [id] }
    | (group, .error e) =>
      releaseDecisionGroup model group
      report fun tick => { tick with decisionsFailed := tick.decisionsFailed ++ [(id, e)] }

end Eider.Source.Qwen36
