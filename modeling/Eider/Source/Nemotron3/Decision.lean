import Eider.Source.DecisionRequest

/-!
Decision groups of the Nemotron 3 service
(`infer/src/execution/nemotron3_serving/decision.rs`, lines 10 to 340).

A sequence is the list of chunks that it was fed, those of its parent ahead of its own, and
`fed` records what `forward_block` is called with. The calls that go outside, to the device,
the workspaces and the pages of the cache, fail as an oracle says; times and byte counts are
left out. A panic ends the service.
-/
namespace Eider.Source.Nemotron3
open Lib Lib.ByteReader
open Source.Qwen36 (raise attempt expect DecisionBranch DecisionBranchLogits DecisionRequest
  SchedulerConfig)

structure Nemotron3Sequence where
  capacity : Nat
  chunks : List (List Nat)
deriving DecidableEq, Repr

def Nemotron3Sequence.position (s : Nemotron3Sequence) : Nat := s.chunks.flatten.length

structure Branch where
  index : Nat
  position : Nat
  sequence : Nemotron3Sequence
deriving DecidableEq, Repr

/-- `Execution`, without the cache that holds its pages. -/
structure Execution where
  parent : Option Nemotron3Sequence
  branches : List Branch
deriving DecidableEq, Repr

structure DecisionGroup (φ : Type) where
  request : DecisionRequest
  execution : Option Execution
  nextBranch : Nat
  logits : List (Option (DecisionBranchLogits φ))

structure DecisionCompletion (φ : Type) where
  answers : List (String × DecisionAnswer φ)
  branchLogits : List (DecisionBranchLogits φ)
  inputTokens : Nat
  outputTokens : Nat

/-- The sequence that a chunk is fed to. -/
inductive Target where
  | parent
  | branch (index : Nat)
deriving DecidableEq, Repr

/-- The calls of a turn that may fail. -/
inductive DecisionCall where
  | prefixWorkspace
  | prefixForward
  | prefixSynchronize
  | fork (index : Nat)
  | forkSynchronize
  | workspace
  | forward
  | synchronize
  | readout (index : Nat)
  | finish (index : Nat)
deriving DecidableEq, Repr

/-- A turn of a group: the group, what is left of the budget, and what was fed. -/
structure TurnState (φ : Type) where
  group : DecisionGroup φ
  budget : Nat
  fed : List (Target × List Nat)

abbrev Turn (φ : Type) := EStateM (Fault CudaError) (TurnState φ)

/-- What a turn uses from outside: the labels of the loaded head with the logits that it
gives a sequence, and the arithmetic of the answers. -/
structure DecisionModel (φ : Type) where
  labels : List Nat
  head : List (List Nat) → Fin labels.length → φ
  float : AnswerFloats φ
  one : φ
  question : DecisionBranch → DecisionPromptQuestion

def DecisionModel.logits {φ : Type} (m : DecisionModel φ) (chunks : List (List Nat)) : List φ :=
  List.ofFn (m.head chunks)

def decisionError (detail : String) : CudaError := .format "Nemotron decision" detail

section
variable {φ : Type}

def panics (message : String) : Turn φ α := throw (.panicked message)

def setExecution (e : Execution) : Turn φ Unit :=
  modify fun s => { s with group := { s.group with execution := some e } }

/-- `*budget -= count`. -/
def spend (count : Nat) : Turn φ Unit := do
  let s ← get
  if s.budget < count then panics "attempt to subtract with overflow"
  else set { s with budget := s.budget - count }

/-- The checks of `forward_block`, with those of the pages that it reserves. -/
def checkBlock (sequences : List Nemotron3Sequence) (chunks : List (List Nat)) :
    Except CudaError Unit :=
  if sequences = [] ∨ chunks.length ≠ sequences.length then
    .error (.shape "Nemotron 3 block sequences" "matching non-empty sequence and token-chunk slices"
      s!"sequences={sequences.length} token_chunks={chunks.length}")
  else if chunks.any List.isEmpty then
    .error (.shape "Nemotron 3 block tokens" "one or more tokens per sequence"
      (",".intercalate (chunks.map fun chunk => toString chunk.length)))
  else if (sequences.zip chunks).any fun (s, chunk) =>
      decide (s.capacity < s.position + chunk.length) then
    .error (.format "Nemotron 3 sequence cache" "position exceeds the admitted capacity")
  else .ok ()

def Nemotron3Sequence.feed (s : Nemotron3Sequence) (chunk : List Nat) : Nemotron3Sequence :=
  { s with chunks := s.chunks ++ [chunk] }

/-- Records what `forward_block` is called with. -/
def recordFed (fed : List (Target × List Nat)) : Turn φ Unit :=
  modify fun s => { s with fed := s.fed ++ fed }

/-! ## The shared prefix -/

variable (calls : DecisionCall → Except CudaError Unit)

/-- The prefix part of `advance_decision`; whether the turn goes on. -/
def advancePrefix : Turn φ Bool := do
  let s ← get
  let e ← expect s.group.execution "admitted decision"
  let parent ← expect e.parent "shared prefix"
  let tokens := s.group.request.prefixTokens
  let start := parent.position
  if start < tokens.length then
    let stop := min tokens.length (start + s.budget)
    let chunk := (tokens.take stop).drop start
    attempt (calls .prefixWorkspace)
    attempt (checkBlock [parent] [chunk])
    attempt (calls .prefixForward)
    recordFed [(.parent, chunk)]
    setExecution { e with parent := some (parent.feed chunk) }
    attempt (calls .prefixSynchronize)
    spend (stop - start)
    let left := (← get).budget
    return left ≠ 0 && stop == tokens.length
  else return true

/-! ## Branches -/

/-- The loop that forks branches. -/
def forkBranches : Nat → Turn φ Unit
  | 0 => pure ()
  | count + 1 => do
    let s ← get
    let e ← expect s.group.execution "admitted decision"
    let parent ← expect e.parent "shared prefix"
    let index := s.group.nextBranch
    let branch ← expect s.group.request.branches[index]? "index out of bounds"
    let capacity := s.group.request.prefixTokens.length + branch.suffixTokens.length
    attempt (calls (.fork index))
    let forked : Branch := ⟨index, 0, ⟨capacity, parent.chunks⟩⟩
    set { s with group := { s.group with
      execution := some { e with branches := e.branches ++ [forked] }
      nextBranch := index + 1 } }
    forkBranches count

/-- The fork of a new wave, when no branch is live. -/
def forkWave (config : SchedulerConfig) (calls : DecisionCall → Except CudaError Unit) :
    Turn φ Unit := do
  let s ← get
  let e ← expect s.group.execution "admitted decision"
  if e.branches = [] then
    if s.group.request.branches.length < s.group.nextBranch then
      panics "attempt to subtract with overflow"
    else
      forkBranches calls (min (min config.decisionBranchCapacity s.budget)
        (s.group.request.branches.length - s.group.nextBranch))
      attempt (calls .forkSynchronize)
  else pure ()

/-- The tokens of its suffix that a branch has not been fed. -/
def suffixLeft (request : DecisionRequest) (b : Branch) : Option (List Nat) := do
  let branch ← request.branches[b.index]?
  if b.position ≤ branch.suffixTokens.length then some (branch.suffixTokens.drop b.position)
  else none

/-- The counts that the division of a budget gives to branches with tokens left, with the
rest of the budget; `none` is an underflow. -/
def shareBudget : Nat → List Nat → Option (List Nat × Nat)
  | budget, [] => some ([], budget)
  | budget, remaining :: rest => do
    let count := min remaining (budget / (rest.length + 1))
    if budget < count then none
    else
      let (counts, left) ← shareBudget (budget - count) rest
      some (count :: counts, left)

/-- The chunks of a turn, with the rest of the budget. Behind a division that leaves a
chunk short, the first branch is fed alone. -/
def planChunks (suffixes : List (List Nat)) (budget : Nat) : Option (List (List Nat) × Nat) := do
  let branchCount := min suffixes.length budget
  let taken := suffixes.take branchCount
  let (counts, left) ← shareBudget budget (taken.map List.length)
  if 1 < branchCount ∧ counts.any (fun count => decide (count < 32)) then
    let first ← suffixes.head?
    let count := min first.length budget
    some ([first.take count], budget - count)
  else some (taken.zipWith (fun suffix count => suffix.take count) counts, left)

def Branch.feed (b : Branch) (chunk : List Nat) : Branch :=
  { b with position := b.position + chunk.length, sequence := b.sequence.feed chunk }

/-- The forward pass over the first branches. -/
def feedBranches : Turn φ Unit := do
  let s ← get
  let e ← expect s.group.execution "admitted decision"
  let suffixes ← expect (e.branches.mapM (suffixLeft s.group.request)) "index out of bounds"
  let (chunks, left) ← expect (planChunks suffixes s.budget) "attempt to subtract with overflow"
  set { s with budget := left }
  attempt (calls .workspace)
  let fed := e.branches.take chunks.length
  attempt (checkBlock (fed.map Branch.sequence) chunks)
  attempt (calls .forward)
  recordFed (fed.zipWith (fun b chunk => (.branch b.index, chunk)) chunks)
  setExecution { e with
    branches := fed.zipWith Branch.feed chunks ++ e.branches.drop chunks.length }
  attempt (calls .synchronize)

variable (model : DecisionModel φ) (calls : DecisionCall → Except CudaError Unit)

def selectedLogits (b : Branch) : Except CudaError (List φ) :=
  if b.sequence.position = 0 then .error (decisionError "readout requires a non-empty sequence")
  else
    match calls (.readout b.index) with
    | .error e => .error e
    | .ok () => .ok (model.logits b.sequence.chunks)

/-- `group.logits[index] = Some(row)`. -/
def setLogits (index : Nat) (row : DecisionBranchLogits φ) : Turn φ Unit := do
  let s ← get
  if s.group.logits.length ≤ index then panics "index out of bounds"
  else set { s with group := { s.group with logits := s.group.logits.set index (some row) } }

def setBranches (branches : List Branch) : Turn φ Unit := do
  let e ← expect (← get).group.execution "admitted decision"
  setExecution { e with branches := branches }

/-- The loop over the slots, with the branches that stay ahead of it. -/
def settleBranches :
    List Branch → List Branch → Turn φ Unit
  | _, [] => pure ()
  | kept, b :: rest => do
    let request := (← get).group.request
    let question ← expect request.branches[b.index]? "index out of bounds"
    if b.position < question.suffixTokens.length then
      settleBranches (kept ++ [b]) rest
    else
      let row ← attempt (selectedLogits model calls b)
      if row.length < question.labelTokenIds.length then panics "range end index out of range"
      else
        setLogits b.index ⟨question.questionId, row.take question.labelTokenIds.length⟩
        setBranches (kept ++ rest)
        attempt (calls (.finish b.index))
        settleBranches kept rest

/-- The completion of a group whose branches are all read. -/
def completeDecision : Turn φ (DecisionCompletion φ) := do
  let group := (← get).group
  let logits ← expect (group.logits.mapM fun row => row) "completed branch"
  modify fun s => { s with group := { group with logits := group.logits.map fun _ => none } }
  match answersFromLogits model.float model.question group.request logits model.one with
  | .error e => raise (decisionError e.message)
  | .ok answers => return ⟨answers, logits, logicalInputTokens group.request,
      group.request.branches.length⟩

def advanceDecision (config : SchedulerConfig)
    (calls : DecisionCall → Except CudaError Unit) : Turn φ (Option (DecisionCompletion φ)) := do
  if ← advancePrefix calls then
    forkWave config calls
    feedBranches calls
    let e ← expect (← get).group.execution "admitted decision"
    settleBranches model calls [] e.branches
    let s ← get
    let e ← expect s.group.execution "admitted decision"
    if s.group.nextBranch ≠ s.group.request.branches.length || !e.branches.isEmpty then return none
    else return some (← completeDecision model)
  else return none

end

/-! ## The service -/

section
variable {φ : Type}

/-- The group that `queue_decision` makes of a request. -/
def queuedGroup (request : DecisionRequest) : DecisionGroup φ where
  request := request
  execution := none
  nextBranch := 0
  logits := request.branches.map fun _ => none

/-- `admit_decision`: the cache and the parent sequence. -/
def admitDecision (group : DecisionGroup φ) : DecisionGroup φ :=
  { group with execution := some ⟨some ⟨longestBranchTokens group.request, []⟩, []⟩ }

/-- A turn that went through: what it was granted, what it left, and how many tokens it fed. -/
structure TurnRecord where
  id : Nat
  granted : Nat
  left : Nat
  fed : Nat
deriving DecidableEq, Repr

/-- The parts of `Nemotron3ChatService` that decisions use. `finished`, `failed` and
`cancelled` gather what is reported; `accepted`, `fed` and `turns` record what the groups
were queued with, what they were fed, and their turns. -/
structure DecisionService (φ : Type) where
  nextId : Nat
  decisions : BTreeMap Nat (DecisionGroup φ)
  waiting : List Nat
  decisionReady : List Nat
  finished : List (Nat × DecisionCompletion φ)
  failed : List (Nat × CudaError)
  cancelled : List Nat
  accepted : BTreeMap Nat DecisionRequest
  fed : BTreeMap Nat (List (Target × List Nat))
  turns : List TurnRecord

def DecisionService.empty : DecisionService φ where
  nextId := 1
  decisions := .empty
  waiting := []
  decisionReady := []
  finished := []
  failed := []
  cancelled := []
  accepted := .empty
  fed := .empty
  turns := []

def DecisionService.log (s : DecisionService φ) (id : Nat) : List (Target × List Nat) :=
  (s.fed.get id).getD []

/-- The calls of a tick that may fail, for each group: those of its turn, and the
synchronization and the release behind it. -/
structure TickCalls where
  turn : Nat → DecisionCall → Except CudaError Unit
  synchronize : Nat → Except CudaError Unit
  release : Nat → Except CudaError Unit

variable (model : DecisionModel φ)

def queueDecision (vocab context : Nat) (s : DecisionService φ)
    (request : DecisionRequest) : Except CudaError (DecisionService φ) :=
  match validateDecision model.question request model.labels vocab context with
  | .error e => .error (decisionError e.message)
  | .ok () =>
    if 2 ^ 64 ≤ s.nextId + 1 then .error (decisionError "request IDs exhausted")
    else .ok { s with
      nextId := s.nextId + 1
      decisions := s.decisions.insert s.nextId (queuedGroup request)
      waiting := s.waiting ++ [s.nextId]
      accepted := s.accepted.insert s.nextId request }

/-- `admit_decision` of the request that waits first. -/
def admitFirst (outcome synchronized : Except CudaError Unit) (s : DecisionService φ) :
    Except (Fault CudaError) (DecisionService φ) :=
  match s.waiting with
  | [] => .ok s
  | id :: waiting =>
    match s.decisions.get id with
    | none => .error (.panicked "queued decision")
    | some group =>
      match outcome with
      | .ok () => .ok { s with
          waiting := waiting
          decisions := s.decisions.insert id (admitDecision group)
          decisionReady := s.decisionReady ++ [id] }
      | .error e =>
        match synchronized with
        | .error e => .error (.failed e)
        | .ok () => .ok { s with
            waiting := waiting
            decisions := s.decisions.erase id
            failed := s.failed ++ [(id, e)] }

/-- What `run_decisions` does with a group behind its turn. -/
def settleTurn (calls : TickCalls) (id granted : Nat) (s : DecisionService φ) :
    EStateM.Result (Fault CudaError) (TurnState φ) (Option (DecisionCompletion φ)) →
    Except (Fault CudaError) (DecisionService φ × Nat)
  | .error (.panicked message) _ => .error (.panicked message)
  | .error (.failed e) t =>
    match calls.synchronize id, calls.release id with
    | .error e, _ | _, .error e => .error (.failed e)
    | .ok (), .ok () => .ok ({ s with
        fed := s.fed.insert id t.fed
        failed := s.failed ++ [(id, e)] }, t.budget)
  | .ok result t =>
    let fed := (t.fed.map fun entry => entry.2.length).sum -
      ((s.log id).map fun entry => entry.2.length).sum
    let s : DecisionService φ := { s with
      fed := s.fed.insert id t.fed
      turns := s.turns ++ [⟨id, granted, t.budget, fed⟩] }
    match calls.synchronize id, result with
    | .error e, _ => .error (.failed e)
    | .ok (), none => .ok ({ s with
        decisions := s.decisions.insert id t.group
        decisionReady := s.decisionReady ++ [id] }, t.budget)
    | .ok (), some completion =>
      match calls.release id with
      | .error e => .error (.failed e)
      | .ok () => .ok ({ s with finished := s.finished ++ [(id, completion)] }, t.budget)

variable (config : SchedulerConfig) (vocab context : Nat) (s : DecisionService φ)
variable (calls : TickCalls)

/-- The loop of `run_decisions`. -/
def runTurns :
    Nat → Nat → DecisionService φ → Except (Fault CudaError) (DecisionService φ)
  | 0, _, s => .ok s
  | count + 1, budget, s =>
    if budget = 0 then .ok s
    else
      match s.decisionReady with
      | [] => .error (.panicked "ready decision")
      | id :: ready =>
        match s.decisions.get id with
        | none => .error (.panicked "active decision")
        | some group => do
          let taken := { s with decisionReady := ready, decisions := s.decisions.erase id }
          let (s, budget) ← settleTurn calls id budget taken
            ((advanceDecision model config (calls.turn id)).run ⟨group, budget, s.log id⟩)
          runTurns count budget s

def runDecisions (chatRows chatSequences : Nat) (s : DecisionService φ) :
    Except (Fault CudaError) (DecisionService φ) :=
  runTurns model config calls
    (min s.decisionReady.length (config.prefillSequenceCapacity - chatSequences))
    (config.prefillTokenCapacity - chatRows) s

/-- The decision part of `cancel`. -/
def cancelDecision (id : Nat) (s : DecisionService φ) : DecisionService φ :=
  match s.decisions.get id with
  | none => s
  | some _ => { s with
      decisions := s.decisions.erase id
      waiting := s.waiting.filter fun waiting => waiting ≠ id
      decisionReady := s.decisionReady.filter fun ready => ready ≠ id
      cancelled := s.cancelled ++ [id] }

/-- What happens to the service. A chat request takes an identity of its own. -/
inductive ServiceEvent where
  | chat
  | queue (request : DecisionRequest)
  | admission (outcome synchronized : Except CudaError Unit)
  | tick (calls : TickCalls) (chatRows chatSequences : Nat)
  | cancel (id : Nat)

/-- The service behind an event; a rejected request leaves it as it was. -/
def serve : ServiceEvent → Except (Fault CudaError) (DecisionService φ)
  | .chat => .ok { s with nextId := s.nextId + 1 }
  | .queue request =>
    match queueDecision model vocab context s request with
    | .error _ => .ok s
    | .ok s => .ok s
  | .admission outcome synchronized => admitFirst outcome synchronized s
  | .tick calls chatRows chatSequences => runDecisions model config calls chatRows chatSequences s
  | .cancel id => .ok (cancelDecision id s)

/-- A step of the service; it ends with a fault. -/
def serviceStep (event : ServiceEvent) : Option (DecisionService φ) :=
  (serve model config vocab context s event).toOption

end

end Eider.Source.Nemotron3
