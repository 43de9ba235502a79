import Eider.Source.Scheduler.Decode

/-!
Admission and prefill of the Qwen3.6 scheduler (`infer/src/execution/scheduler.rs`,
lines 587 to 751 and 1362 to 1686).

An admission that fails behind the queue leaves the request in the map but in no queue.
A prefill that fails outside the model call loses the requests it had selected.
-/
namespace Eider.Source.Qwen36
open Lib.ByteReader

variable {n : Nat} {β κ φ C R K : Type}

/-! ## Admission -/

/-- `requests.get_mut(&id)`, for a request that stays in the map. -/
def updateRequest (id : Nat) (f : Request K φ → Request K φ) : Scheduling n β φ C K Unit :=
  modify fun s => match s.requests.get id with
    | some request => { s with requests := s.requests.insert id (f request) }
    | none => s

variable (model : TextModel n β κ φ C R K) (input : TickInput φ)

/-- The restore closure of `admit_waiting`. -/
def restoreAdmitted (id : Nat)
    (snapshot : Option (SequenceSnapshot n β)) (position : Nat) (state : SequenceState n β) :
    Except CudaError (SequenceState n β) :=
  match snapshot with
  | some snapshot => do
    let restored ← restoreSequenceSnapshot model.modelId snapshot state
    rejectIf (input.fails (.restoreSnapshot id) = true) (.device "restore_sequence_snapshot")
    return restored
  | none =>
    if position ≠ 0 then .error (.format "Qwen3.6 sequence-cache restore"
      "nonzero prefix has no recurrent snapshot")
    else .ok state

/-- The speculative state of an admitted request: the drafter that the model has, and a
frontier for it. A failure leaves the request without speculation. -/
def withSpeculation
    (config : SchedulerConfig) (cachedPromptTokens : Nat) (r : Request K φ) : Request K φ :=
  if (model.dflash2Enabled || model.mtpWeights) && config.speculativeDrafts > 0 &&
      r.config.sampling.usesFastArgmax && !input.fails (.speculativeState r.id) then
    let dflash2State := model.dflash2Enabled &&
      (cachedPromptTokens = 0 || input.retainedDrafter r.id)
    let mtpState := !model.dflash2Enabled && cachedPromptTokens = 0
    if dflash2State || mtpState then
      { r with dflash2State := dflash2State, mtpState := mtpState, specFrontier := some ⟨0, model.zeroLogit⟩ }
    else r
  else r

/-- The end of an admission: the restored sequence enters the pool and the request the
prefilling queue. -/
def installRequest (id cacheId : Nat) (state : SequenceState n β) : Scheduling n β φ C K Unit := do
  let cached := state.position
  updateRequest id fun r => { r with
    promptPosition := cached
    prefixRetained := cached = r.prefixTarget && cached ≠ 0 }
  reach input (.insertSequence id) "insert"
  let sequenceId ← insertSequence ⟨cacheId, state⟩
  let config := (← get).config
  updateRequest id fun r =>
    withSpeculation model input config cached { r with sequenceId := some sequenceId }
  reach input (.admissionSynchronize id) "synchronize"
  updateRequest id fun r => { r with lifecycle := .prefilling }
  modify fun s => { s with
    prefilling := s.prefilling ++ [id]
    tick := { s.tick with admitted := s.tick.admitted ++ [(id, cached)] } }

/-- The body of the admission loop; the result says whether the loop goes on. -/
def admitRequest (id : Nat) :
    Scheduling n β φ C K Bool := do
  let request ← expect ((← get).requests.get id) "waiting request is retained"
  let looked := model.prefixes.lookupPrefix (← get).cache request.promptTokens
  modify fun s => { s with cache := looked.1 }
  let maxTokens := max request.maxTokens 1
  let state ← attempt (newSequenceState model maxTokens)
  reach input (.newSequenceState id) "new_sequence_state"
  reach input (.newPageTable id) "Sm12xPageTable::new"
  reachWhen (keepsTokenCounts request) input (.deviceTokenCounts id) "DeviceBuffer::from_host"
  let admitted := model.prefixes.admission (← get).cache looked.2 maxTokens
  modify fun s => { s with cache := admitted.1 }
  match ← attempt admitted.2 with
  | .wouldBlock =>
    modify fun s => { s with waiting := id :: s.waiting }
    return false
  | .admitted cacheId snapshot position =>
    match restoreAdmitted model input id snapshot position state with
    | .error e =>
      modify fun s => { s with cache := model.prefixes.withdraw s.cache cacheId }
      raise e
    | .ok state =>
      installRequest model input id cacheId state
      return true

/-- The loop of `admit_waiting`. Each turn takes one request from the queue, so the
length of the queue bounds the turns. -/
def admitLoop :
    Nat → Scheduling n β φ C K Unit
  | 0 => pure ()
  | turns + 1 => do
    let s ← get
    if s.sequences.size < s.config.maxActiveSequences then
      match s.waiting with
      | [] => pure ()
      | id :: rest =>
        set { s with waiting := rest }
        if ← admitRequest model input id then admitLoop turns else pure ()
    else pure ()

def admitWaiting :
    Scheduling n β φ C K Unit := do
  admitLoop model input (← get).waiting.length

/-! ## Prefill -/

/-- `retain_request_checkpoint`. What it keeps for the drafter decides only what a later
admission finds. Every failure is logged and ends the attempt. -/
def retainRequestCheckpoint (r : Request K φ) : Scheduling n β φ C K (Request K φ) := do
  if r.prefixRetained || r.prefixTarget = 0 then return r
  else if model.prefixes.maxPrefixEntries = some 0 then return { r with prefixRetained := true }
  else
    match r.sequenceId with
    | none => return r
    | some sequenceId =>
      let s ← get
      match s.sequences.get sequenceId with
      | none => return { r with prefixRetained := true }
      | some sequence =>
        if sequence.state.position ≠ r.prefixTarget then return r
        else if model.prefixes.containsPrefix s.cache r.promptTokens r.prefixTarget then
          return { r with prefixRetained := true }
        else
          match snapshotSequence model.modelId sequence.state with
          | .error _ => return { r with prefixRetained := true }
          | .ok snapshot =>
            if input.fails (.snapshot r.id) then return { r with prefixRetained := true }
            else
              set { s with cache :=
                (model.prefixes.retainPrefix s.cache sequence.cacheId r.promptTokens snapshot).1 }
              return { r with prefixRetained := true }

/-- How many requests of the queue a prefill selects, for the rows left. -/
def eligiblePrefills : List Nat → Nat → Scheduling n β φ C K Nat
  | [], _ => pure 0
  | _, 0 => pure 0
  | id :: rest, rows + 1 => do
    let request ← expect ((← get).requests.get id) "prefilling request is retained"
    if request.prefillableTokens > 0 then
      let eligible ← eligiblePrefills rest rows
      return eligible + 1
    else eligiblePrefills rest (rows + 1)

/-- `token_budget.div_ceil(slots_remaining)`. -/
def fairShare (tokenBudget slotsRemaining : Nat) : Nat :=
  (tokenBudget + slotsRemaining - 1) / slotsRemaining

/-- The selection loop of `run_prefill_phase`: `scan` turns, `slots` requests and
`tokenBudget` tokens are left. -/
def selectPrefill : Nat → Nat → Nat → Scheduling n β φ C K (List (Request K φ × Nat))
  | 0, _, _ => pure []
  | scan + 1, slots, tokenBudget =>
    if slots = 0 ∨ tokenBudget = 0 then pure []
    else do
      match (← get).prefilling with
      | [] => throw (.panicked "prefilling scan has a request")
      | id :: rest =>
        let request ← expect ((← get).requests.get id) "prefilling request is retained"
        if request.prefillableTokens = 0 then
          modify fun s => { s with prefilling := rest ++ [id] }
          selectPrefill scan slots tokenBudget
        else
          let chunk := prefillChunkTokens request.prefillableTokens (fairShare tokenBudget slots)
            request.promptPosition request.prefixTarget request.prefixRetained
          modify fun s => { s with prefilling := rest }
          let request ← takeRequest id "prefilling request is retained"
          let selected ← selectPrefill scan (slots - 1) (tokenBudget - chunk)
          return (request, chunk) :: selected

/-- The end of speculation for a request whose drafter could not follow the prompt. -/
def withoutFrontier (r : Request K φ) : Request K φ :=
  { r with specFrontier := none, specReady := false }

/-- Whether a request has an MTP drafter to warm up. -/
def needsMtpWarmup (selected : List (Request K φ)) : Bool :=
  selected.any fun r => r.mtpState && r.specFrontier.isSome

/-- The warmup allocation: if it fails, the selected requests go on without their MTP
states. -/
def warmupMtp (selected : List (Request K φ)) :
    Scheduling n β φ C K (List (Request K φ)) := do
  if needsMtpWarmup selected then
    let s ← get
    let mtp := s.workspaces.mtp || !input.fails .warmupWorkspace
    let mtpHidden := s.workspaces.mtpHidden || mtp && !input.fails .warmupHidden
    set { s with workspaces := { s.workspaces with mtp := mtp, mtpHidden := mtpHidden } }
    if mtp && mtpHidden then return selected
    else return selected.map fun r => withoutFrontier { r with mtpState := false }
  else return selected

/-- The companion drafter of one request follows its chunk. -/
def followDflash2 (row : Nat) (r : Request K φ) : Request K φ :=
  if r.dflash2State && input.fails (.dflash2Prefill row) then
    withoutFrontier { r with dflash2State := false }
  else r

/-- The MTP drafter of one request follows its chunk. -/
def followMtp (row : Nat) (r : Request K φ) : Request K φ :=
  if r.mtpState && r.specFrontier.isSome && input.fails (.mtpWarmup row) then
    withoutFrontier { r with mtpState := false }
  else r

/-- The drafters of one request follow its chunk. -/
def warmupRequest (row : Nat) (r : Request K φ) : Request K φ :=
  followMtp input row (followDflash2 input row r)

/-- The last loop of `run_prefill_phase`. -/
def settlePrefills :
    List (Request K φ × Nat) → Scheduling n β φ C K Unit
  | [] => pure ()
  | (request, chunk) :: rest => do
    let request ← retainRequestCheckpoint model input
      { request with promptPosition := request.promptPosition + chunk }
    modify fun s => { s with
      prefilling := s.prefilling ++ [request.id]
      tick := { s.tick with prefilled :=
        s.tick.prefilled ++ [(request.id, chunk, request.promptPosition)] } }
    putRequest request
    settlePrefills rest

/-- One step of the requeue loop of `run_prefill_phase`. -/
def requeuePrefill (request : Request K φ) : Scheduling n β φ C K Unit := do
  modify fun s => { s with prefilling := request.id :: s.prefilling }
  putRequest request

def chunkTokens (r : Request K φ) (chunk : Nat) : List Nat :=
  (r.promptTokens.drop r.promptPosition).take chunk

/-- The workspace of the companion drafter, when a selected request needs it. -/
def allocatePrefillDflash2 (needed : Bool) : Scheduling n β φ C K Unit := do
  if needed && !(← get).workspaces.dflash2 then
    reach input .prefillDflash2Workspace "new_dflash2_workspace"
    modify fun s => { s with workspaces := { s.workspaces with dflash2 := true } }

/-- What the phase does behind the model call: an error hands the selected requests back,
otherwise their drafters follow. -/
def finishPrefill (warmup : Bool)
    (selected : List (Request K φ)) (chunks : List Nat) (result : Except CudaError Unit) :
    Scheduling n β φ C K Unit := do
  match result with
  | .error e => do
    selected.reverse.forM requeuePrefill
    raise e
  | .ok () =>
    let selected := selected.zipIdx.map fun entry => warmupRequest input entry.2 entry.1
    reachWhen warmup input .prefillSynchronize "synchronize"
    settlePrefills model input (selected.zip chunks)

/-- What the phase does with the requests it has selected. -/
def prefillSelected
    (chosen : List (Request K φ)) (chunks : List Nat) : Scheduling n β φ C K Unit := do
  let selected ← warmupMtp input chosen
  let mtpWarmup := needsMtpWarmup chosen && needsMtpWarmup selected
  let dflash2Warmup := selected.any fun r => r.dflash2State
  allocatePrefillDflash2 input dflash2Warmup
  let ids ← attempt (selected.mapM fun r => match r.sequenceId with
    | some id => .ok id
    | none => .error (.format "Qwen3.6 scheduled prefill"
        s!"request {r.id} has no admitted sequence"))
  let leased ← attempt (leaseMany (← get).sequences ids)
  let rows : List (BatchRow n β) := ((selected.zip chunks).zip leased).map fun row =>
    ⟨row.2, chunkTokens row.1.1 row.1.2⟩
  let s ← get
  let ((rows, cache), result) := prefillBatch model.cache model.device model.modelId
    input.prefillCall (prefillWorkspace model s.config) rows s.cache
  set { s with
    sequences := endLease s.sequences ids (rows.map BatchRow.sequence)
    cache := cache }
  finishPrefill model input (mtpWarmup || dflash2Warmup) selected chunks result

def runPrefillPhase :
    Scheduling n β φ C K Unit := do
  let s ← get
  let eligible ← eligiblePrefills s.prefilling s.config.prefillSequenceCapacity
  let chosen ← selectPrefill s.prefilling.length eligible s.config.prefillTokenCapacity
  if chosen.isEmpty then pure ()
  else
    report fun tick =>
      { tick with scheduled := tick.scheduled ++ chosen.map fun entry => entry.1.id }
    prefillSelected model input (chosen.map Prod.fst) (chosen.map Prod.snd)

end Eider.Source.Qwen36
