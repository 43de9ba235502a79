import Eider.Source.Dory.BranchPlan

/-!
Decision sequences of Dory (`infer/src/dory/decision.rs`, lines 13 to 38, 79 to 102,
119 to 370, and `prefill_hidden` and `forward` of `infer/src/dory/mod.rs`, 424 to 718).

A packed wave runs its segments one after the other and each segment token by token:
a layer reads only rows of earlier positions of its segment, so the order in which the
device goes through layers and rows does not show. The kernels' other checks concern
widths that the loader fixed.
-/
namespace Eider.Source.Dory

/-- A loaded checkpoint with the label head: the hidden vector of a token at a position
from the rows that attention reads there, and the selected logits of a hidden vector. -/
structure Checkpoint (R H φ : Type) extends DoryModel R where
  config : DoryConfig
  hidden : Nat → Nat → List (List R) → H
  initialHidden : H
  headIdentity : Nat
  selected : H → List φ

/-- What one turn asks of the device and of the counters outside. -/
structure TurnInput (R : Type) where
  synchronize : Except CudaError Unit
  alloc : Nat → Except CudaError Unit
  fromHost : Nat → Except CudaError Unit
  identity : Nat
  hiddenAddress : Nat
  run : DeviceRun R
  readout : Except CudaError Unit
  restore : DeviceRun R
  retain : RetainRun

structure DecisionExecution where
  graph : Bool
  plan : Option DoryBranchPlan
  prefixLen : Nat
  lengths : List Nat
  includePrefix : Bool
  warmed : Bool

/-- `DoryDecisionSequence`; the hidden vector belongs to its state. -/
structure DoryDecisionSequence (R H : Type) where
  executions : List DecisionExecution
  binding : Option (Nat × Nat × Nat)
  state : DorySequence R
  hidden : H
  prefixPosition : Option Nat
  logicalCapacity : Nat
  retainedPrefix : List Nat

def branchScratch (supported : Bool) (packedRows branches : Nat) : Nat :=
  if supported then packedRows + 128 * branches else 0

section
variable {R H φ : Type} (m : Checkpoint R H φ) (flash : Bool)

def newDecisionSequence (capacity packedRows branches : Nat) :
    Except CudaError (DoryDecisionSequence R H) :=
  if capacity = 0 ∨ m.config.maxPositionEmbeddings < capacity ∨ 65535 < packedRows ∨
      64 < branches then
    .error (invalid "decision capacity exceeds model or batch limits")
  else .ok {
    executions := []
    binding := none
    state := ⟨fun _ _ => m.zero, capacity + branchScratch flash packedRows branches, 0, true⟩
    hidden := m.initialHidden
    prefixPosition := none
    logicalCapacity := capacity
    retainedPrefix := [] }

/-! ## The backbone -/

/-- The hidden vector of a token at a position, read through a page table. -/
def hiddenAt (address : Nat → Nat) (rows : Nat → Nat → R) (position index token : Nat) : H :=
  m.hidden position token
    (m.windows.mapIdx fun layer window => visible window index fun q => rows layer (address q))

/-- The rows behind one more token: its query has an index in its segment, and its key
and value are written to a physical row. -/
def appendAt (address : Nat → Nat) (rows : Nat → Nat → R)
    (position index destination token : Nat) : Nat → Nat → R := fun layer p =>
  if p = destination then
    m.backbone position token
      (m.windows.mapIdx fun l window => visible window index fun q => rows l (address q)) layer
  else rows layer p

variable (plan : DoryBranchPlan)

/-- The packed rows of a segment from one on: the rows and the last hidden vector. -/
def segmentForward (segment first start : Nat) :
    Nat → List Nat → (Nat → Nat → R) → H → (Nat → Nat → R) × H
  | _, [], rows, last => (rows, last)
  | i, token :: rest, rows, _ =>
    let position := plan.positions.getD (first + i) 0
    let last := hiddenAt m (plan.address segment) rows position (start + i) token
    let rows := appendAt m (plan.address segment) rows position (start + i)
      (plan.destinations.getD (first + i) 0) token
    segmentForward segment first start (i + 1) rest rows last

/-- A segment: its first packed row, and the keys ahead of its queries. -/
def runSegment (segment : Nat) (tokens : List Nat) (rows : Nat → Nat → R) : (Nat → Nat → R) × H :=
  let first := plan.offsets.getD segment 0
  let start := plan.lengths.getD segment 0 - (plan.offsets.getD (segment + 1) 0 - first)
  segmentForward m plan segment first start 0 tokens rows m.initialHidden

/-- `branch_tail`: the partial page of the prefix is copied to the page that a branch
reads in its place. -/
def cloneTail (segment : Nat) (rows : Nat → Nat → R) : Nat → Nat → R :=
  let tail := plan.prefixLen % 64
  let base := plan.pages.getD (segment * plan.stride + plan.prefixLen / 64) 0 * 64
  fun layer p =>
    if base ≤ p ∧ p < base + tail then rows layer (plan.prefixLen - tail + (p - base))
    else rows layer p

/-- The branches of a wave from a segment on, with their hidden vectors. -/
def runBranches : Nat → List (List Nat) → (Nat → Nat → R) → (Nat → Nat → R) × List H
  | _, [], rows => (rows, [])
  | segment, suffix :: rest, rows =>
    let (rows, last) := runSegment m plan segment suffix rows
    let (rows, hidden) := runBranches (segment + 1) rest rows
    (rows, last :: hidden)

def packedForward (prefixTokens : List Nat) (suffixes : List (List Nat))
    (rows : Nat → Nat → R) : (Nat → Nat → R) × List H :=
  let firstSuffix := if 0 < plan.prefixRows then 1 else 0
  let rows := if 0 < plan.prefixRows then (runSegment m plan 0 prefixTokens rows).1 else rows
  let rows := (List.range suffixes.length).foldl
    (fun rows branch => cloneTail plan (branch + firstSuffix) rows) rows
  runBranches m plan firstSuffix suffixes rows

/-- The last hidden vector of a chunk. -/
def chunkHidden (rows : Nat → Nat → R) (position : Nat) (tokens : List Nat) (last : H) : H :=
  match tokens.getLast? with
  | none => last
  | some token =>
    let index := position + tokens.length - 1
    hiddenAt m id (forward m.toDoryModel rows position tokens) index index token

/-! ## Checks of the attention calls -/

variable (w : DoryPrefillWorkspace)

/-- The buffers that `layers_forward` hands to `dory_attention`. -/
def attentionBuffers (capacity : Nat) : AttentionBuffers :=
  let c := m.config
  { query := w.capacity * (c.numAttentionHeads * 256)
    key := w.capacity * (c.numKeyValueHeads * 256)
    value := w.capacity * (c.numKeyValueHeads * 256)
    cacheKey := capacity * c.numKeyValueHeads * 256
    cacheValue := capacity * c.numKeyValueHeads * 256
    scratch := w.scratch
    output := w.capacity * max c.intermediateSize (c.numAttentionHeads * 256)
    position := 1 }

/-- The attention calls of a chunk, one for each layer that has attention. -/
def attend (s : DorySequence R) (rows capacity : Nat) : Except CudaError Unit :=
  m.windows.forM fun window =>
    doryAttention flash (attentionBuffers m w s.capacity) rows m.config.numAttentionHeads
      m.config.numKeyValueHeads capacity window (.ok ())

/-- `DoryBranchPlan::attention`. -/
def planAttention (b : AttentionBuffers) (qheads kvheads window : Nat) : Except CudaError Unit :=
  let qn := saturatingMul (saturatingMul plan.rows qheads) 256
  let kn := saturatingMul (saturatingMul plan.rows kvheads) 256
  let cn := saturatingMul (saturatingMul plan.capacity kvheads) 256
  if kvheads = 0 ∨ qheads = 0 ∨ qheads % kvheads ≠ 0 ∨ 2 ^ 32 - 1 < cn ∨ 2 ^ 32 - 1 < qn ∨
      2 ^ 31 - 1 < window ∨ b.query < qn ∨ b.key < kn ∨ b.value < kn ∨ b.output < qn ∨
      b.cacheKey < cn ∨ b.cacheValue < cn ∨ b.scratch < plan.rows * qheads then
    .error (invalidKernel "branch attention buffers")
  else .ok ()

/-- The attention calls of a packed wave. -/
def attendPacked (s : DorySequence R) : Except CudaError Unit :=
  m.windows.forM fun window =>
    planAttention plan (attentionBuffers m w s.capacity) m.config.numAttentionHeads
      m.config.numKeyValueHeads window

/-! ## Calls on a sequence -/

/-- A call on a sequence, with the workspace. -/
abbrev Call (R H α : Type) :=
  Except CudaError α × DoryPrefillWorkspace × DoryDecisionSequence R H

/-- `prefill_hidden`. -/
def prefillSequence (input : TurnInput R) (w : DoryPrefillWorkspace)
    (s : DoryDecisionSequence R H) (tokens : List Nat) : Call R H Unit :=
  if !check m.toDoryModel s.state tokens then
    (.error (invalid "invalid sequence, token, or context capacity"), w, s)
  else if w.capacity < tokens.length then
    (.error (invalid "prompt chunk exceeds workspace"), w, s)
  else
    match input.synchronize with
    | .error e => (.error e, w, s)
    | .ok () =>
      let context := s.state.position + tokens.length
      match w.reserveAttention flash input.alloc input.identity m.config context with
      | (.error e, w) => (.error e, w, s)
      | (.ok (), w) =>
        let failed := { s with state := { s.state with valid := false } }
        match attend m flash w s.state tokens.length context with
        | .error e => (.error e, w, failed)
        | .ok () =>
          match input.run with
          | .refused e => (.error e, w, s)
          | .broken e rows => (.error e, w, { s with state := { s.state with
              rows := rows
              valid := false } })
          | .done => (.ok (), w, { s with
              hidden := chunkHidden m s.state.rows s.state.position tokens s.hidden
              state := { s.state with
                rows := forward m.toDoryModel s.state.rows s.state.position tokens
                position := context
                valid := true } })

namespace DoryDecisionSequence

variable (input : TurnInput R) (w : DoryPrefillWorkspace) (s : DoryDecisionSequence R H)

def supports (capacity packedRows branches : Nat) : Bool :=
  decide (capacity ≤ s.logicalCapacity) &&
    decide (capacity + branchScratch flash packedRows branches ≤ s.state.capacity)

variable (tokens : List Nat)

/-- `prepare`; `reset` synchronizes. -/
def prepare (retain : Bool) : Except CudaError Bool × DoryDecisionSequence R H :=
  if retain && s.state.valid && s.retainedPrefix == tokens then
    (.ok true, { s with
      state := { s.state with position := tokens.length }
      prefixPosition := some tokens.length })
  else
    match input.synchronize with
    | .error e => (.error e, s)
    | .ok () => (.ok false, { s with
        state := s.state.reset
        prefixPosition := none
        retainedPrefix := [] })

def retainPrefix : DoryDecisionSequence R H :=
  { s with retainedPrefix := tokens }

def prefill : Call R H Unit :=
  if 2 ^ 64 ≤ s.state.position + tokens.length ∨
      s.logicalCapacity < s.state.position + tokens.length then
    (.error (invalid "decision prefix or suffix exceeds logical capacity"), w, s)
  else prefillSequence m flash input w s tokens

def sealPrefix : Except CudaError Unit × DoryDecisionSequence R H :=
  if !s.state.valid || s.state.position == 0 || s.prefixPosition.isSome then
    (.error (invalid "invalid decision prefix"), s)
  else (.ok (), { s with prefixPosition := some s.state.position })

def rewindToPrefix : Except CudaError Unit × DoryDecisionSequence R H :=
  if !s.state.valid then (.error (invalid "invalid decision branch state"), s)
  else
    match s.prefixPosition with
    | none => (.error (invalid "decision prefix is not sealed"), s)
    | some position => (.ok (), { s with state := { s.state with position := position } })

/-- `DoryDecisionReadout::selected_logits`. -/
def selectedLogits : Except CudaError (List φ) :=
  if !s.state.valid || s.state.position == 0 then
    .error (invalid "decision readout requires valid hidden state from this model")
  else do
    input.readout
    return m.selected s.hidden

/-- The executions that a new binding leaves. -/
def rebind (binding : Nat × Nat × Nat) : DoryDecisionSequence R H :=
  if s.binding = some binding then s
  else { s with executions := [], binding := some binding }

/-- The plan of a wave; none for one suffix behind its own prefix. The outer `none` is an
index out of range. -/
def planWave (prefixLen : Nat) (lengths : List Nat) (includePrefix : Bool) :
    Option (Except CudaError (Option DoryBranchPlan)) :=
  if includePrefix && lengths.length == 1 then some (.ok none)
  else
    match DoryBranchPlan.new flash input.fromHost prefixLen lengths includePrefix with
    | none => none
    | some (.error e) => some (.error e)
    | some (.ok plan) =>
      if s.state.capacity < plan.capacity then
        some (.error (invalid "decision wave exceeds cache scratch"))
      else some (.ok (some plan))

/-- The execution of a wave: an earlier one of the same geometry, or a new one for which
the oldest of eight goes. -/
def takeExecution (prefixLen : Nat) (lengths : List Nat) (includePrefix : Bool) :
    Option (Except CudaError DecisionExecution × DoryDecisionSequence R H) :=
  match s.executions.findIdx? fun e =>
      e.prefixLen == prefixLen && e.lengths == lengths && e.includePrefix == includePrefix with
  | some index =>
    s.executions[index]?.map fun execution =>
      (.ok execution, { s with executions := s.executions.eraseIdx index })
  | none =>
    let s := if s.executions.length = 8 then { s with executions := s.executions.drop 1 } else s
    match planWave flash input s prefixLen lengths includePrefix with
    | none => none
    | some (.error e) => some (.error e, s)
    | some (.ok plan) => some (.ok ⟨false, plan, prefixLen, lengths, includePrefix, false⟩, s)

/-- The rows, the hidden vector of the state and the logits of each suffix behind an
execution. -/
def runExecution (plan : Option DoryBranchPlan)
    (prefixTokens : List Nat) (suffixes : List (List Nat)) : (Nat → Nat → R) × H × List (List φ) :=
  match plan with
  | some plan =>
    let (rows, hidden) := packedForward m plan prefixTokens suffixes s.state.rows
    (rows, s.hidden, hidden.map m.selected)
  | none =>
    let tokens := prefixTokens ++ suffixes.flatten
    let last := chunkHidden m s.state.rows 0 tokens s.hidden
    (forward m.toDoryModel s.state.rows 0 tokens, last, [m.selected last])

/-- The attention calls of an execution. -/
def attendExecution (plan : Option DoryBranchPlan) (rows : Nat) : Except CudaError Unit :=
  match plan with
  | some plan => attendPacked m plan w s.state
  | none => attend m flash w s.state rows rows

/-- The checks that `prefill_branches` begins with. -/
def validWave (prefixTokens : List Nat) (suffixes : List (List Nat)) (prefixLen : Nat) : Bool :=
  s.state.valid && (!prefixTokens.isEmpty || s.state.position == prefixLen) &&
    prefixTokens.all (fun id => decide (id < m.vocabSize)) && !suffixes.isEmpty &&
    suffixes.all fun tokens => !tokens.isEmpty &&
      decide (prefixLen + tokens.length ≤ s.logicalCapacity) &&
      tokens.all fun id => decide (id < m.vocabSize)

/-- `prefill_branches`; `none` is an index out of range. -/
def prefillBranches (prefixTokens : List Nat) (suffixes : List (List Nat)) :
    Option (Call R H (List (List φ))) :=
  let includePrefix := !prefixTokens.isEmpty
  let sealedPrefix : Except CudaError Nat :=
    if includePrefix then
      if s.state.position ≠ 0 ∨ s.prefixPosition.isSome then
        .error (invalid "combined decisions require an empty sequence")
      else .ok prefixTokens.length
    else
      match s.prefixPosition with
      | none => .error (invalid "decision prefix is not sealed")
      | some position => .ok position
  match sealedPrefix with
  | .error e => some (.error e, w, s)
  | .ok prefixLen =>
    let lengths := suffixes.map List.length
    let rows := prefixTokens.length + lengths.sum
    if !validWave m s prefixTokens suffixes prefixLen then
      some (.error (invalid "invalid packed decision suffixes"), w, s)
    else if w.capacity < rows then
      some (.error (invalid "decision wave exceeds prefill workspace"), w, s)
    else
      match input.synchronize with
      | .error e => some (.error e, w, s)
      | .ok () =>
        match w.reserveAttention flash input.alloc input.identity m.config
            (prefixLen + lengths.foldl max 0) with
        | (.error e, w) => some (.error e, w, s)
        | (.ok (), w) =>
          let s := s.rebind (w.identity, input.hiddenAddress, m.headIdentity)
          match takeExecution flash input s prefixLen lengths includePrefix with
          | none => none
          | some (.error e, s) => some (.error e, w, s)
          | some (.ok execution, s) =>
            let failed := { s with state := { s.state with valid := false } }
            match attendExecution m flash w s execution.plan rows with
            | .error e => some (.error e, w, failed)
            | .ok () =>
              match input.run with
              | .refused e => some (.error e, w, s)
              | .broken e broken => some (.error e, w, { s with state := { s.state with
                  rows := broken
                  valid := false } })
              | .done =>
                let (after, hidden, logits) := runExecution m s execution.plan prefixTokens suffixes
                -- an execution that ran before is captured, and a captured one is replayed
                let execution := { execution with
                  graph := execution.graph || execution.warmed
                  warmed := true }
                some (.ok logits, w, { s with
                  executions := s.executions ++ [execution]
                  hidden := hidden
                  prefixPosition := some prefixLen
                  state := { s.state with
                    rows := after
                    position := prefixLen
                    valid := true } })

end DoryDecisionSequence

end

end Eider.Source.Dory
