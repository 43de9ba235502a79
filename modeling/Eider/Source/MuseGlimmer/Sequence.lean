import Eider.Lib.Greedy
import Eider.Source.Scheduler.State

/-!
One Muse Glimmer sequence: appends of prompt and generated tokens, and the DFlash cycle
(`infer/src/muse_glimmer.rs`, lines 1237 to 1500, `muse_glimmer/batch.rs`, lines 283 to 733,
`muse_glimmer/dflash.rs`, lines 199 to 290 and 580 to 960).

The vocabulary is the type `τ`. Rows of keys and values are named by the token they are
made of, and logits by the token prefix they belong to, so that the target is a function
`argmax` of a prefix. A row of the target looks at the rows of the page cache below the
position of the state. Of the drafter only the lengths of its layer caches are kept: the
blocks it proposes come from outside.

Every fallible call has a site, and the call at the site `fault` fails. A call that fails
while rows are injected into the drafter has appended to the layers before. What an append
has reserved stays reserved until it is committed or aborted.
-/
namespace Eider.Source.MuseGlimmer
open Lib Lib.ByteReader
open Source.Qwen36 (raise attempt expect)

/-- The calls of a tick that can fail for one request. `append` counts the appends of a
request in one tick. -/
inductive Site where
  | newSequenceState
  | newPageTable
  | admission
  | synchronizeAdmission
  | reserve (append : Nat)
  | target (append : Nat)
  | inject (append layer : Nat)
  | commit (append : Nat)
  | head (append : Nat)
  | argmax
  | sample
  | snapshotTails
  | draft (layer : Nat)
  | readback
  | restoreTails
  | pushToken (index : Nat)
  | finishOutput
  | finishSequence
deriving DecidableEq, Repr

/-- `MuseGlimmerSequence`, with its entry in the page cache. `hidden` and `logits` are the
prefixes behind the last hidden state and the output of the head, `rows` those behind the
rows of the verification workspace. -/
structure Sequence (τ : Type) where
  maxTokens : Nat
  position : Nat
  cache : CacheEntry τ
  drafter : List Nat
  hidden : List τ
  logits : List τ
  rows : List (List τ)
  batchLogitsRow : Option Nat

/-- A call on a sequence. -/
abbrev Sequencing (τ : Type) := EStateM (Fault CudaError) (Sequence τ)

/-- Fifteen proposed tokens. -/
structure DraftBlock (τ : Type) where
  tokens : List τ
  length_tokens : tokens.length = 15

/-- `MuseGlimmerDFlashCycle`. -/
structure DFlashCycle (τ : Type) where
  tokens : List τ
  nextToken : τ
  acceptedDrafts : Nat
  draftedTokens : Nat
  targetPosition : Nat
  dflashPosition : Nat
deriving DecidableEq, Repr

def blockSize : Nat := 16

/-- A call that fails at its site. -/
def reach {σ : Type} (fault : Option Site) (site : Site) (call : String) :
    EStateM (Fault CudaError) σ Unit :=
  if fault = some site then raise (.device call) else pure ()

/-- A call that is made only when it is needed. -/
def reachWhen {σ : Type} (needed : Bool) (fault : Option Site) (site : Site) (call : String) :
    EStateM (Fault CudaError) σ Unit :=
  if needed then reach fault site call else pure ()

section
variable {τ : Type} (fault : Option Site)

/-! ## The drafter's caches -/

/-- A loop over the layers that appends `rows` to each cache; the caches behind it. -/
def appendLayers (check : (layer length : Nat) → Except CudaError Unit) (rows : Nat) :
    Nat → List Nat → List Nat × Except CudaError Unit
  | _, [] => ([], .ok ())
  | layer, length :: rest =>
    match check layer length with
    | .error e => (length :: rest, .error e)
    | .ok () =>
      let appended := appendLayers check rows (layer + 1) rest
      ((length + rows) :: appended.1, appended.2)

/-- The checks of `append_rows_at_offset_on_stream` on one cache. -/
def checkAppend (rows maxTokens length : Nat) : Except CudaError Unit :=
  rejectIf (rows = 0 ∨ maxTokens < length + rows)
    (.shape "SM12x KV row append" s!"non-empty rows through cache capacity {maxTokens}"
      s!"rows={rows} cache_end={length + rows}")

/-- The caches behind a loop, kept also when it failed. -/
def onDrafter (loop : Sequence τ → List Nat × Except CudaError Unit) : Sequencing τ Unit := do
  let appended := loop (← get)
  modify fun s => { s with drafter := appended.1 }
  attempt appended.2

def injectFeatures (append rows startPosition : Nat) : Sequencing τ Unit := do
  attempt (rejectIf (rows = 0 ∨ blockSize < rows) (.shape "DFlash feature injection rows"
    s!"1..={blockSize}" s!"{rows}"))
  onDrafter fun s => appendLayers (fun layer length => do
    rejectIf (length ≠ startPosition)
      (.shape "DFlash injected cache position" s!"{startPosition}" s!"{length}")
    rejectIf (fault = some (.inject append layer)) (.device "DFlash feature injection")
    checkAppend rows s.maxTokens length) rows 0 s.drafter

/-- The loop of `truncate`; the caches behind it. -/
def truncateLayers (length : Nat) : List Nat → List Nat × Except CudaError Unit
  | [] => ([], .ok ())
  | cached :: rest =>
    if cached < length then
      (cached :: rest, .error (.shape "SM12x KV cache truncate" s!"at most {cached} rows"
        s!"{length} rows"))
    else
      let truncated := truncateLayers length rest
      (length :: truncated.1, truncated.2)

def truncateDrafter (length : Nat) : Sequencing τ Unit :=
  onDrafter fun s => truncateLayers length s.drafter

/-- `draft`, as far as the caches go: a block of rows is appended and taken back. -/
def draftRows (startPosition : Nat) : Sequencing τ Unit := do
  onDrafter fun s => appendLayers (fun layer length => do
    rejectIf (fault = some (.draft layer)) (.device "DFlash draft")
    checkAppend blockSize s.maxTokens length) blockSize 0 s.drafter
  truncateDrafter startPosition

/-- `DFlashSequenceState::position`. -/
def dflashPosition : Sequencing τ Nat := do
  let s ← get
  match s.drafter with
  | [] => raise (.format "DFlash sequence position" "sequence has no layer caches")
  | position :: _ =>
    attempt (rejectIf (s.drafter.any fun length => length ≠ position)
      (.shape "DFlash sequence position" s!"all layer caches at position {position}"
        s!"{s.drafter}"))
    return position

/-! ## Appends -/

variable (append : Nat)

def reserveAppend : Sequencing τ Unit := do
  reach fault (.reserve append) "SequenceCache::reserve_append"
  modify fun s => { s with cache := s.cache.reserve }

/-- `commit_append`; if it fails, the append stays reserved. -/
def commitAppend (append rows : Nat) : Sequencing τ Unit := do
  reach fault (.commit append) "SequenceCache::commit_append"
  modify fun s => { s with cache := s.cache.commit rows }

/-- A pass over reserved rows whose error aborts the append. -/
def orAbort (pass : Sequencing τ Unit) : Sequencing τ Unit := fun s =>
  match pass s with
  | .ok () s => .ok () s
  | .error e s => .error e { s with cache := s.cache.abort }

/-- The token prefix that a new row looks at. -/
def Sequence.context (s : Sequence τ) : List τ := s.cache.rows.take s.position

def runDflashTargetRows (tokens : List τ) (outputLogits : Bool) :
    Sequencing τ Unit := do
  let s ← get
  let startPosition := s.position
  attempt (rejectIf (tokens.length = 0 ∨ blockSize < tokens.length ∨
      s.maxTokens < startPosition + tokens.length)
    (.shape "Muse DFlash target rows" s!"1..={blockSize} valid tokens through capacity {s.maxTokens}"
      s!"position={startPosition} tokens={tokens.length}"))
  reach fault (.target append) "Muse DFlash target rows"
  set { s with
    cache := s.cache.write tokens
    rows := if outputLogits
      then (List.range tokens.length).map fun row => s.context ++ tokens.take (row + 1)
      else s.rows }
  injectFeatures fault append tokens.length startPosition

def reserveDflashTargetRows (tokens : List τ) (outputLogits : Bool) :
    Sequencing τ Unit := do
  reserveAppend fault append
  orAbort (runDflashTargetRows fault append tokens outputLogits)

def dflashPrefillChunk (tokens : List τ) (outputLogits : Bool) :
    Sequencing τ Unit := do
  let startPosition := (← get).position
  reserveDflashTargetRows fault append tokens outputLogits
  commitAppend fault append tokens.length
  modify fun s => { s with
    position := startPosition + tokens.length
    batchLogitsRow := if outputLogits then some (tokens.length - 1) else none }

/-- The pass of `forward_hidden` over its one reserved row. -/
def hiddenRow (token : τ) (position : Nat) : Sequencing τ Unit := do
  reach fault (.target append) "Muse Glimmer decoder layers"
  modify fun s => { s with cache := s.cache.write [token], hidden := s.context ++ [token] }
  injectFeatures fault append 1 position

/-- `forward_hidden`, which is `consume_one`. -/
def forwardHidden (token : τ) : Sequencing τ Unit := do
  modify fun s => { s with batchLogitsRow := none }
  let s ← get
  attempt (rejectIf (s.maxTokens ≤ s.position) (.shape "Muse Glimmer decode token"
    s!"position < {s.maxTokens}" s!"position={s.position}"))
  reserveAppend fault append
  orAbort (hiddenRow fault append token s.position)
  commitAppend fault append 1
  modify fun t => { t with position := s.position + 1 }

def forwardOne (token : τ) : Sequencing τ Unit := do
  forwardHidden fault append token
  reach fault (.head append) "Muse Glimmer output head"
  modify fun s => { s with logits := s.hidden }

/-- The prefix whose logits `argmax_with_logit` and `logits_to_host` read. -/
def checkLogits : Sequencing τ Unit := do
  attempt (rejectIf ((← get).position = 0)
    (.format "Muse Glimmer logits" "no token has been evaluated"))

variable (argmax : List τ → τ)

def argmaxWithLogit : Sequencing τ τ := do
  checkLogits
  let s ← get
  match s.batchLogitsRow with
  | some row =>
    set { s with batchLogitsRow := none }
    reach fault .argmax "DeviceBuffer::copy_to_host"
    let rowPrefix ← expect (s.rows[row]?) "index out of bounds"
    return argmax rowPrefix
  | none =>
    reach fault .argmax "argmax_f32_into_on_stream"
    return argmax s.logits

/-! ## The cycle -/

/-- The drafts that the target repeats: `zip`, `take_while` and `count`. -/
def acceptedDrafts [DecidableEq τ] (drafts target : List τ) : Nat := Greedy.accepted drafts target

/-- The part of `dflash_cycle` behind the readback of the target's choices. -/
def commitCycle [DecidableEq τ] (startPosition : Nat) (anchor : τ) (drafts target : List τ) :
    Sequencing τ (DFlashCycle τ) := do
  let accepted := acceptedDrafts drafts target
  let retainedPosition := startPosition + 1 + accepted
  commitAppend fault 0 (1 + accepted)
  reachWhen (retainedPosition / blockSize = startPosition / blockSize) fault .restoreTails
    "Sm12xKvCache::restore_tail_prefix_on_stream"
  truncateDrafter retainedPosition
  modify fun s => { s with position := retainedPosition }
  let dflashPosition ← dflashPosition
  let nextToken ← expect (target[accepted]?) "index out of bounds"
  return {
    tokens := anchor :: drafts.take accepted
    nextToken := nextToken
    acceptedDrafts := accepted
    draftedTokens := drafts.length
    targetPosition := retainedPosition
    dflashPosition := dflashPosition
  }

def dflashCycle [DecidableEq τ] (block : DraftBlock τ) (anchor : τ) :
    Sequencing τ (DFlashCycle τ) := do
  let start ← get
  let startPosition := start.position
  attempt (rejectIf (start.maxTokens < startPosition + blockSize)
    (.shape "Muse Glimmer DFlash cycle capacity" s!"at least {blockSize} remaining positions"
      s!"position={startPosition} capacity={start.maxTokens}"))
  reach fault .snapshotTails "Sm12xKvCache::snapshot_tail_on_stream"
  draftRows fault startPosition
  let drafts := block.tokens
  -- `forward_verification_block`
  modify fun s => { s with batchLogitsRow := none }
  reserveDflashTargetRows fault 0 (anchor :: drafts) true
  reach fault .readback "DeviceBuffer::copy_to_host"
  let target := (← get).rows.map argmax
  commitCycle fault startPosition anchor drafts target

end

end Eider.Source.MuseGlimmer
