import Eider.Source.Scheduler.State

/-!
The decode phase of the Qwen3.6 scheduler (`infer/src/execution/scheduler.rs`, lines
753 to 1360) with the argmax helpers it uses on the host (lines 2369 to 2418).

The phase takes requests out of the map, submits them to the model, and puts them back
behind their samples. A submission holds the requests beside the scheduler, because an
error hands them back as far as they have been changed.
-/
namespace Eider.Source.Qwen36
open Lib.ByteReader Prod

variable {n : Nat} {β κ φ C R K ρ α : Type}

/-- A scheduler and what a phase holds beside it. -/
structure Holding (n : Nat) (β φ C K ρ : Type) where
  scheduler : Scheduler n β φ C K
  held : ρ

/-- A call that borrows what the phase holds. -/
abbrev Submitting (n : Nat) (β φ C K ρ : Type) :=
  EStateM (Fault CudaError) (Holding n β φ C K ρ)

/-- Runs a call with what it borrows, and gives that back with the result. -/
def lend (held : ρ) (call : Submitting n β φ C K ρ α) :
    Scheduling n β φ C K (ρ × Except CudaError α) := fun s =>
  match call ⟨s, held⟩ with
  | .ok a after => .ok (after.held, .ok a) after.scheduler
  | .error (.failed e) after => .ok (after.held, .error e) after.scheduler
  | .error (.panicked message) after => .error (.panicked message) after.scheduler

/-- A scheduler call inside a submission. -/
def onScheduler (call : Scheduling n β φ C K α) : Submitting n β φ C K ρ α := fun h =>
  match call h.scheduler with
  | .ok a s => .ok a { h with scheduler := s }
  | .error e s => .error e { h with scheduler := s }

def setHeld (held : ρ) : Submitting n β φ C K ρ Unit := modify fun h => { h with held := held }

def setWorkspaces (workspaces : Workspaces) : Submitting n β φ C K ρ Unit :=
  modify fun h => { h with scheduler := { h.scheduler with workspaces := workspaces } }

/-- What a model call leaves: the leased sequences and the cache. -/
def setExecution (ids : List Nat) (entries : List (Sequence n β)) (cache : C) :
    Submitting n β φ C K ρ Unit :=
  modify fun h => { h with scheduler := { h.scheduler with
    sequences := endLease h.scheduler.sequences ids entries
    cache := cache } }

/-- A workspace that is allocated on first use. -/
def allocate (input : TickInput φ) (present : Bool) (site : Site) (call : String)
    (workspaces : Workspaces → Workspaces) : Submitting n β φ C K ρ Unit :=
  if present then pure ()
  else do
    reach input site call
    setWorkspaces (workspaces (← get).scheduler.workspaces)

variable (model : TextModel n β κ φ C R K) (config : SchedulerConfig)

/-- `decode_workspaces.iter_mut().find(..)` for a number of rows. -/
def decodeWorkspace (rows : Nat) : Option DecodeWorkspace :=
  ((decodeCapacityClasses (max config.decodeCapacity config.decisionBranchCapacity)).find?
    fun capacity => rows ≤ capacity).map fun capacity =>
      ⟨model.modelId, capacity, config.maxContextTokens⟩

/-- The prefill workspace of `Qwen36ExecutionState::new`. -/
def prefillWorkspace : PrefillWorkspace :=
  ⟨model.modelId, config.prefillSequenceCapacity, config.prefillTokenCapacity,
    config.maxContextTokens⟩

/-- `new_speculative_verification_workspace`; the drafter's scratch is only there
without a companion. -/
def speculativeWorkspace : SpeculativeWorkspace where
  drafts := config.speculativeDrafts
  verify := ⟨model.modelId, 1, config.speculativeDrafts + 1, config.maxContextTokens⟩
  mtp := !model.dflash2Enabled

/-! ## Argmax on the host -/

/-- The maximum of the logits that `allowed` admits; the lowest id wins a tie. -/
def argmaxFrom (allowed : Nat → Bool) :
    Option (SampledToken φ) → Nat → List φ → Option (SampledToken φ)
  | best, _, [] => best
  | best, id, logit :: rest =>
    let better := match best with
      | none => true
      | some best => model.exceeds logit best.logit
    if model.isFinite logit && allowed id && better then
      argmaxFrom allowed (some ⟨id, logit⟩) (id + 1) rest
    else argmaxFrom allowed best (id + 1) rest

def argmaxLogits (logits : List φ) : Except CudaError (SampledToken φ) :=
  match argmaxFrom model (fun _ => true) none 0 logits with
  | some sampled => .ok sampled
  | none => .error (.format "Qwen3.6 scheduler logits" "no finite logits")

def argmaxLogitsAllowed (logits : List φ)
    (allowed : List UInt32) : Except CudaError (SampledToken φ) :=
  match argmaxFrom model (tokenAllowed allowed) none 0 logits with
  | some sampled => .ok sampled
  | none => .error (.format "Qwen tool grammar logits" "grammar allowed no finite logits")

/-! ## Speculative cycles -/

variable (r : Request K φ) (input : TickInput φ)

def specEligible : Bool :=
  (r.dflash2State || model.mtpWeights) && config.speculativeDrafts > 0 && r.specReady &&
    r.specFrontier.isSome && (r.dflash2State || r.mtpState) &&
    (r.toolGrammar.isNone || r.dflash2State) && r.config.sampling.usesFastArgmax &&
    r.activeSpeculativeDrafts config.speculativeDrafts > 0

/-- The drafts that the drafter proposes. -/
def proposals (drafts : Nat) : List Nat :=
  (List.range drafts).map input.proposal

/-- Whether a drafted block has to be verified under the grammar: it is active, or
becomes active inside the block. -/
def probeActive (calls : Constraint K) : ToolGrammar K → List Nat → Except CudaError Bool
  | probe, [] => .ok probe.active
  | probe, proposal :: rest =>
    if probe.active then .ok true
    else
      match probe.commit calls proposal with
      | (_, .error e) => .error e
      | (probe, .ok ()) => probeActive calls probe rest

/-- The selector of a constrained verification; its state is the grammar preview. -/
def grammarSelector (preview : ToolGrammar K) : LogitSelector (ToolGrammar K) φ where
  state := preview
  select grammar logits :=
    if grammar.isComplete model.constraint then .ok (none, grammar)
    else do
      let masked := grammar.mask model.constraint
      let selected ← match ← masked.2 with
        | some mask => argmaxLogitsAllowed model logits mask
        | none => argmaxLogits model logits
      let committed := masked.1.commit model.constraint selected.id
      committed.2
      return (some ⟨selected.id, selected.logit⟩, committed.1)

/-- What a cycle leaves: the sequence, the cache and the frontier. -/
abbrev CycleState (n : Nat) (β φ C : Type) := Sequence n β × C × SpeculativeFrontier φ

/-- The closure of a DFlash2 cycle up to the accepted context. -/
def externalCycle (config : SchedulerConfig) (drafts : Nat) (preview : Option (ToolGrammar K))
    (frontier : SpeculativeFrontier φ) (sequence : Sequence n β) (cache : C) :
    CycleState n β φ C × Except CudaError (SpeculativeCycleOutcome φ) :=
  let before := (sequence, cache, frontier)
  let drafted := proposals input drafts
  if input.fails .propose then (before, .error (.device "dflash2_propose"))
  else if preview.isSome && input.fails .copyProposals then
    (before, .error (.device "copy_prefix_to_host"))
  else
    match preview with
    | none =>
      verifyExternalSpeculative model.cache model.device model.modelId input.decodeCall
        (speculativeWorkspace model config) false (none : Option (LogitSelector Unit φ)) drafted
        frontier sequence cache
    | some grammar =>
      match probeActive model.constraint grammar drafted with
      | .error e => (before, .error e)
      | .ok true =>
        verifyExternalSpeculative model.cache model.device model.modelId input.decodeCall
          (speculativeWorkspace model config) true (some (grammarSelector model grammar)) drafted
          frontier sequence cache
      | .ok false =>
        verifyExternalSpeculative model.cache model.device model.modelId input.decodeCall
          (speculativeWorkspace model config) false (none : Option (LogitSelector Unit φ)) drafted
          frontier sequence cache

/-- The grammar that a cycle looks at: it has consumed the frontier once the frontier
is a token that was not yet emitted. -/
def grammarPreview (frontier : SpeculativeFrontier φ) : Except CudaError (Option (ToolGrammar K)) :=
  match r.toolGrammar with
  | none => .ok none
  | some grammar =>
    if r.specStarted then
      match grammar.commit model.constraint frontier.token with
      | (_, .error e) => .error e
      | (grammar, .ok ()) => .ok (some grammar)
    else .ok (some grammar)

/-- The samples of a cycle. The first cycle skips the frontier, which an ordinary tick
has emitted. -/
def cycleSamples (outcome : SpeculativeCycleOutcome φ) (skip : Nat) : List (SampledToken φ) :=
  ((outcome.committed.drop skip).zip (outcome.committedLogits.drop skip)).map fun token =>
    ⟨token.1, token.2⟩

/-- The cycle of the drafter that the request has. -/
def speculativeCycle
    (config : SchedulerConfig) (request : Request K φ) (preview : Option (ToolGrammar K))
    (frontier : SpeculativeFrontier φ) (sequence : Sequence n β) (cache : C) :
    CycleState n β φ C × Except CudaError (SpeculativeCycleOutcome φ) :=
  let drafts := request.activeSpeculativeDrafts config.speculativeDrafts
  if request.dflash2State then
    externalCycle model input config drafts preview frontier sequence cache
  else
    speculativeCycleArgmax model.cache model.device model.modelId input.decodeCall
      (speculativeWorkspace model config) (proposals input drafts) frontier sequence cache

/-- The workspace of the companion drafter. -/
def allocateDflash2 (needed : Bool) : Submitting n β φ C K ρ Unit := do
  if needed then
    allocate input (← get).scheduler.workspaces.dflash2 .decodeDflash2Workspace
      "new_dflash2_workspace" fun w => { w with dflash2 := true }

variable (request : Request K φ)

/-- `execute_speculative` behind the lease: the cycle and what it leaves in the request. -/
def runCycle (frontier : SpeculativeFrontier φ) (sequenceId : Nat) (sequence : Sequence n β)
    (preview : Option (ToolGrammar K)) :
    Submitting n β φ C K (Request K φ) (List (SampledToken φ) × Nat) := do
  allocateDflash2 input request.dflash2State
  let s := (← get).scheduler
  let (after, outcome) :=
    speculativeCycle model input s.config request preview frontier sequence s.cache
  setExecution [sequenceId] [after.1] after.2.1
  -- A drafter whose cycle or append failed is not used again.
  let disabled := !outcome.isOk || input.fails .appendSpeculative
  let request := { request with
    specFrontier := some after.2.2
    dflash2State := request.dflash2State && !disabled }
  setHeld request
  let outcome ← attempt outcome
  let skip := if request.specStarted then 0 else 1
  setHeld { request with
    mtpState := request.mtpState && outcome.speculationReady
    specReady := request.specReady || !outcome.speculationReady
    specStarted := true }
  return (cycleSamples outcome skip, outcome.acceptedDrafts)

def executeSpeculative :
    Submitting n β φ C K (Request K φ) (List (SampledToken φ) × Nat) := do
  allocate input (← get).scheduler.workspaces.speculative .newSpeculativeWorkspace
    "new_speculative_cycle_workspace" fun w => { w with speculative := true }
  let request := (← get).held
  let frontier ← expect request.specFrontier "speculative request has a frontier"
  setHeld { request with specFrontier := none }
  let sequenceId ← expect request.sequenceId "speculative request has a sequence ID"
  let leased ← attempt (leaseMany (← get).scheduler.sequences [sequenceId])
  let sequence ← expect leased.head? "leased sequence"
  let preview ← attempt (grammarPreview model request frontier)
  if preview.any (·.isComplete model.constraint) then
    setHeld { request with specStarted := true }
    return ([⟨frontier.token, frontier.logit⟩], 0)
  else runCycle model input request frontier sequenceId sequence preview

/-! ## Ordinary decode -/

/-- The input token and the mask of one row. A mask is computed in place, except that a
request with an unemitted frontier previews it on a clone. -/
def prepareRow : Request K φ × Except (Fault CudaError) (Nat × Option (List UInt32)) :=
  match r.decodeInputToken with
  | .error e => (r, .error (.failed e))
  | .ok token =>
    match r.toolGrammar with
    | none => (r, .ok (token, none))
    | some grammar =>
      if r.specReady && r.specStarted then
        match r.specFrontier with
        | none => (r, .error (.panicked "ready speculative request has a frontier"))
        | some frontier =>
          match grammar.commit model.constraint frontier.token with
          | (_, .error e) => (r, .error (.failed e))
          | (preview, .ok ()) =>
            match (preview.mask model.constraint).2 with
            | .error e => (r, .error (.failed e))
            | .ok mask => (r, .ok (token, mask))
      else
        let masked := grammar.mask model.constraint
        let r := { r with toolGrammar := some masked.1 }
        match masked.2 with
        | .error e => (r, .error (.failed e))
        | .ok mask => (r, .ok (token, mask))

def prepareRows : List (Request K φ) →
    List (Request K φ) × Except (Fault CudaError) (List (Nat × Option (List UInt32)))
  | [] => ([], .ok [])
  | r :: rest =>
    match prepareRow model r with
    | (r, .error e) => (r :: rest, .error e)
    | (r, .ok row) =>
      match prepareRows rest with
      | (rest, .error e) => (r :: rest, .error e)
      | (rest, .ok rows) => (r :: rest, .ok (row :: rows))

/-- The mask kernel on one row; a row without a mask keeps every logit. -/
def maskRow (mask : Option (List UInt32)) (logits : List φ) : List φ :=
  match mask with
  | none => logits
  | some mask => logits.zipIdx.map fun logit =>
      if tokenAllowed mask logit.2 then logit.1 else model.negativeInfinity

def vocabWords : Nat := (model.device.vocab + 31) / 32

/-- The masks of a batch, packed and applied. -/
def maskDecoded (masks : List (Option (List UInt32))) (logits : List (List φ)) :
    Except CudaError (List (List φ)) :=
  if masks.any Option.isSome then do
    let words := vocabWords model
    match (masks.filterMap id).find? fun mask => mask.length ≠ words with
    | some mask => throw (.shape "Qwen tool grammar mask" s!"{words} words" s!"{mask.length} words")
    | none =>
      rejectIf (input.fails .maskLogits = true) (.device "mask_logits")
      return (masks.zip logits).map fun row => maskRow model row.1 row.2
  else .ok logits

/-- `sampler.sample` and `argmax_logits` on the host, row by row. -/
def sampleHostRows :
    Nat → List (Request K φ × List φ) → Except CudaError (List (SampledToken φ))
  | _, [] => .ok []
  | row, (r, logits) :: rest => do
    let sampled ← if r.config.sampling.usesFastArgmax then argmaxLogits model logits
      else do
        rejectIf (input.fails (.sample row) = true) (.device "sample")
        pure (input.sampled row)
    return sampled :: (← sampleHostRows (row + 1) rest)

/-- `device_token_counts` is kept for these requests. -/
def keepsTokenCounts : Bool :=
  r.config.sampling.supportsGpuSampling && r.config.sampling.usesHistoryPenalties

variable (selected : List (Request K φ))

def sampleDecoded (logits : List (List φ)) : Except CudaError (List (SampledToken φ)) :=
  if selected.all fun r => r.config.sampling.usesFastArgmax then do
    rejectIf (input.fails .readTop1 = true) (.device "top1")
    return logits.map fun row => ⟨(model.device.top1 row).id, (model.device.top1 row).value⟩
  else if selected.all fun r => r.config.sampling.supportsGpuSampling then do
    rejectIf (input.fails .sampleTopkTopp = true) (.device "sample_topk_topp")
    return (List.range selected.length).map input.sampled
  else do
    rejectIf (input.fails .copyLogits = true) (.device "copy_logits")
    let samples ← sampleHostRows model input 0 (selected.zip logits)
    rejectIf (selected.zipIdx.any fun r => keepsTokenCounts r.1 && input.fails (.copyCounts r.2))
      (.device "copy_from_host")
    return samples

def tracksFrontier : Bool :=
  r.specFrontier.isSome && (r.dflash2State || r.mtpState || r.specReady) &&
    r.config.sampling.usesFastArgmax

def ordinaryDecodeEmission (emitFrontier : Bool) (frontier targetSample : SampledToken φ) :
    SampledToken φ := if emitFrontier then frontier else targetSample

/-- The frontier of a tracked row moves to the new sample. An old frontier that was not
emitted is emitted in its place. -/
def trackFrontier (row : Nat) (r : Request K φ)
    (sample : SampledToken φ) : Request K φ × SampledToken φ :=
  match r.specFrontier with
  | none => (r, sample)
  | some frontier =>
    if tracksFrontier r then
      ({ r with
          specFrontier := some ⟨sample.id, sample.logit⟩
          mtpState := r.mtpState && !input.fails (.mtpAppend row)
          specReady := true },
        ordinaryDecodeEmission (r.specReady && r.specStarted) ⟨frontier.token, frontier.logit⟩
          sample)
    else (r, sample)

def trackFrontiers (samples : List (SampledToken φ)) : List (Request K φ × SampledToken φ) :=
  (selected.zip samples).zipIdx.map fun entry =>
    trackFrontier input entry.2 entry.1.1 entry.1.2

/-- `dflash2_append_decode` on each row; a failure ends the drafter of that request. -/
def appendDflash2 : List (Request K φ) :=
  selected.zipIdx.map fun entry =>
    { entry.1 with dflash2State := entry.1.dflash2State && !input.fails (.dflash2Append entry.2) }

/-- The workspaces that the drafters of a batch need. -/
def allocateDrafters : Submitting n β φ C K (List (Request K φ)) Unit := do
  let selected := (← get).held
  if selected.any fun r => tracksFrontier r && r.mtpState then
    allocate input (← get).scheduler.workspaces.mtp .newMtpWorkspace "new_mtp_draft_workspace"
      fun w => { w with mtp := true }
  allocateDflash2 input (selected.any fun r => r.dflash2State)

/-- `execute_decode` before the model call: the workspaces, the leased sequences and the
rows. -/
def submitDecode :
    Submitting n β φ C K (List (Request K φ))
      (DecodeWorkspace × List Nat × List (DecodeRow n β) × List (Option (List UInt32))) := do
  allocateDrafters input
  let selected := (← get).held
  let workspace ← expect (decodeWorkspace model (← get).scheduler.config selected.length)
    "decode capacity classes cover the configured maximum"
  let ids ← attempt (selected.mapM fun r => match r.sequenceId with
    | some id => .ok id
    | none => .error (.format "Qwen3.6 scheduled decode"
        s!"request {r.id} has no admitted sequence"))
  let leased ← attempt (leaseMany (← get).scheduler.sequences ids)
  let prepared := prepareRows model selected
  setHeld prepared.1
  match prepared.2 with
  | .error fault => throw fault
  | .ok rows =>
    return (workspace, ids, (rows.zip leased).map fun row => ⟨row.1.1, row.2⟩,
      rows.map snd)

/-- `execute_decode` behind the model call: masks, samples, frontiers and drafters. -/
def readDecoded (masks : List (Option (List UInt32))) (logits : List (List φ)) :
    Submitting n β φ C K (List (Request K φ)) (List (SampledToken φ)) := do
  let selected := (← get).held
  let logits ← attempt (maskDecoded model input masks logits)
  let samples ← attempt (sampleDecoded model input selected logits)
  let tracked := trackFrontiers input selected samples
  setHeld (tracked.map fst)
  if selected.zip (tracked.map fst) |>.any fun r => tracksFrontier r.1 && r.2.mtpState then
    reach input .hiddenSynchronize "synchronize"
  if selected.any fun r => r.dflash2State then
    setHeld (appendDflash2 input (tracked.map fst))
    reach input .dflash2Synchronize "synchronize"
  return tracked.map snd

def executeDecode :
    Submitting n β φ C K (List (Request K φ)) (List (SampledToken φ)) := do
  let (workspace, ids, rows, masks) ← submitDecode model input
  let ((rows, cache), result) := executeDecodeBatch model.cache model.device model.modelId
    input.decodeCall workspace rows (← get).scheduler.cache
  setExecution ids (rows.map BatchRow.sequence) cache
  attempt result
  readDecoded model input masks
    (rows.map fun row => model.device.logitsOf (contentsOf model.cache row cache))

/-! ## The phase -/

/-- The `while` loop over the decoding queue, for the rows left. -/
def selectDecoding : Nat → Scheduling n β φ C K (List (Request K φ))
  | 0 => pure []
  | rows + 1 => do
    match (← get).decoding with
    | [] => pure []
    | id :: rest =>
      modify fun s => { s with decoding := rest }
      let request ← takeRequest id "decoding request is retained"
      let selected ← selectDecoding rows
      return request :: selected

/-- The scan of the prefilling queue for requests with one prompt token left. -/
def scanPrefilling : Nat → List (Request K φ) → Scheduling n β φ C K (List (Request K φ))
  | 0, selected => pure selected
  | scan + 1, selected => do
    let s ← get
    match s.prefilling with
    | [] => pure selected
    | id :: rest =>
      if selected.length < s.config.decodeCapacity then
        let request ← expect (s.requests.get id) "prefilling request is retained"
        if request.remainingPromptTokens = 1 then
          set { s with prefilling := rest }
          let request ← takeRequest id "prefilling request is retained"
          scanPrefilling scan (selected ++ [request])
        else
          set { s with prefilling := rest ++ [id] }
          scanPrefilling scan selected
      else
        set { s with prefilling := rest ++ [id] }
        scanPrefilling scan selected

/-- One step of `requeue_selected`. -/
def requeueRequest : Scheduling n β φ C K Unit := do
  modify fun s =>
    if request.lifecycle = .decoding then { s with decoding := request.id :: s.decoding }
    else { s with prefilling := request.id :: s.prefilling }
  putRequest request

def requeueSelected : Scheduling n β φ C K Unit :=
  selected.reverse.forM requeueRequest

/-- The samples of one request, each committed to its grammar; the rest is dropped when
the request finishes. -/
def applySamples :
    List (SampledToken φ) → Request K φ → Scheduling n β φ C K (Request K φ)
  | [], request => pure request
  | sample :: rest, request => do
    let committed := request.toolGrammar.map (·.commit model.constraint sample.id)
    attempt (match committed with
      | some committed => committed.2
      | none => .ok ())
    let request := { request with toolGrammar := committed.map fst }
    let complete := request.toolGrammar.any (·.isComplete model.constraint)
    let (request, token) := request.applySample sample complete
    report fun tick => { tick with generated := tick.generated ++ [token] }
    if request.lifecycle = .finished then pure request else applySamples rest request

/-- The end of a request's turn: it is released or queued again. -/
def settleRequest :
    Scheduling n β φ C K Unit := do
  if request.lifecycle = .finished then
    let sequenceId ← expect request.sequenceId "finished admitted request has a sequence ID"
    let sequence ← releaseSequence sequenceId
    finishSequence model sequence
    report fun tick => { tick with finished := tick.finished ++ [request.id] }
    putRequest { request with sequenceId := none }
  else
    modify fun s => { s with decoding := s.decoding ++ [request.id] }
    putRequest request

/-- The last loop of `run_decode_phase`. -/
def settleRequests :
    List (Request K φ × List (SampledToken φ)) → Scheduling n β φ C K Unit
  | [] => pure ()
  | (request, samples) :: rest => do
    let request ← applySamples model samples request
    settleRequest model request
    settleRequests rest

/-- What the phase does with the requests it has selected. -/
def decodeSelected : Scheduling n β φ C K Unit := do
  let config := (← get).config
  match selected with
  | [] => pure ()
  | [request] =>
    if specEligible model config request then
      match ← lend request (executeSpeculative model input) with
      | (request, .error e) => do
        requeueSelected [request]
        raise e
      | (request, .ok (samples, accepted)) => do
        report fun tick => { tick with speculative := tick.speculative ++ [(request.id, accepted)] }
        settleRequests model [(request, samples)]
    else
      match ← lend [request] (executeDecode model input) with
      | (selected, .error e) => do
        requeueSelected selected
        raise e
      | (selected, .ok samples) =>
        settleRequests model (selected.zip (samples.map fun sample => [sample]))
  | selected =>
    match ← lend selected (executeDecode model input) with
    | (selected, .error e) => do
      requeueSelected selected
      raise e
    | (selected, .ok samples) =>
      settleRequests model (selected.zip (samples.map fun sample => [sample]))

def runDecodePhase :
    Scheduling n β φ C K Unit := do
  let decoding ← selectDecoding (← get).config.decodeCapacity
  let selected ← scanPrefilling (← get).prefilling.length decoding
  report fun tick => { tick with scheduled := tick.scheduled ++ selected.map Request.id }
  decodeSelected model input selected

end Eider.Source.Qwen36
