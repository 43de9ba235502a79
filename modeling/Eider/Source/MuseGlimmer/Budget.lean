import Eider.Lib.Sizes
import Eider.Source.PageBackend
import Eider.Source.Scheduler.Tick

/-!
What the Muse Glimmer service promises and what it asks for: the sizes of a sequence state
(`infer/src/muse_glimmer.rs`, `muse_glimmer/batch.rs`, `muse_glimmer/dflash.rs` and
`eider-cuda/src/kernels/sm12x_kv_cache.rs`), the budget of the sequence cache
(`muse_glimmer/sequence.rs`, lines 117 to 203), and acceptance and admission of requests
(`execution/muse_glimmer_serving.rs`, lines 150 to 420).

A size is the number of device bytes, with the checked arithmetic of the source. The
workspaces that one decoded token needs do not depend on the capacity of the sequence;
their bytes are a number of the model. Allocations and copies succeed.

`seqcache` is outside the repository. Its admission compares what a request asks for with
what the active sequences leave once every unused prefix is gone; a sequence that shares
pages of a prefix may hold less than it asked for, so what is held is a parameter.
-/
namespace Eider.Source.MuseGlimmer
open Lib
open Source.Qwen36 (SchedulerConfig RequestConfig)

def divCeil (a b : Nat) : Nat := (a + (b - 1)) / b

/-! ## Sizes -/

def checkedProduct (label : String) (values : List Nat) : Except CudaError Nat :=
  Sizes.product (2 ^ 64) (.shape label "size without overflow" s!"factors={values}") 1 values

def checkedSum (label : String) (left right : Nat) : Except CudaError Nat :=
  Sizes.below (2 ^ 64) (.shape label "offset without overflow" s!"left={left} right={right}")
    (left + right)

/-- `align_up`; the alignment is a power of two. -/
def alignUp (value alignment : Nat) : Except CudaError Nat := do
  let value ← checkedSum "SM12x KV cache alignment" value (alignment - 1)
  .ok (value / alignment * alignment)

def fitsU32 (label expected : String) (value : Nat) : Except CudaError Unit :=
  rejectIf (u32Max < value) (.shape label expected s!"{value}")

/-- `Sm12xKvCache::layout`: its `total_bytes`. -/
def layoutBytes (maxTokens kvHeads headDim : Nat) : Except CudaError Nat := do
  let keyTiles ← checkedProduct "SM12x K tile count" [kvHeads, divCeil maxTokens 8, headDim / 64]
  let valueTiles ← checkedProduct "SM12x V tile count" [kvHeads, headDim / 8, divCeil maxTokens 64]
  let tailValues ← checkedProduct "SM12x KV tail" [16, kvHeads, headDim]
  let keyValues ← checkedProduct "SM12x K values" [keyTiles, 256]
  let keyScales ← checkedProduct "SM12x K scales" [keyTiles, 8, 4]
  let valueValues ← checkedProduct "SM12x V values" [valueTiles, 256]
  let valueScales ← checkedProduct "SM12x V scales" [valueTiles, 8, 4]
  let tail ← checkedProduct "SM12x KV tail bytes" [tailValues, 4]
  let offset ← checkedSum "SM12x K values end" 0 keyValues
  let offset ← checkedSum "SM12x K scales end" offset keyScales
  let offset ← checkedSum "SM12x V values end" offset valueValues
  let offset ← checkedSum "SM12x V scales end" offset valueScales
  let keyTail ← alignUp offset 4
  let offset ← checkedSum "SM12x K tail end" keyTail tail
  checkedSum "SM12x V tail end" offset tail

/-- `Sm12xKvCache::new`. -/
def kvCacheBytes (maxTokens kvHeads headDim : Nat) : Except CudaError Nat := do
  rejectIf (maxTokens = 0 ∨ kvHeads = 0 ∨ headDim = 0 ∨ headDim % 64 ≠ 0)
    (.shape "SM12x KV cache" "non-zero sizes and head_dim multiple of 64"
      s!"max_tokens={maxTokens} kv_heads={kvHeads} head_dim={headDim}")
  fitsU32 "SM12x KV cache max tokens" "value fitting u32" maxTokens
  fitsU32 "SM12x KV cache heads" "value fitting u32" kvHeads
  fitsU32 "SM12x KV cache head dimension" "value fitting u32" headDim
  layoutBytes maxTokens kvHeads headDim

/-- `Sm12xKvTailSnapshot::new`. -/
def tailSnapshotBytes (kvHeads headDim : Nat) : Except CudaError Nat := do
  rejectIf (kvHeads = 0 ∨ headDim = 0)
    (.shape "SM12x KV tail snapshot" "non-zero head dimensions"
      s!"kv_heads={kvHeads} head_dim={headDim}")
  let values ← Sizes.product (2 ^ 64) (.shape "SM12x KV tail snapshot" "shape without overflow"
    s!"kv_heads={kvHeads} head_dim={headDim}") 16 [kvHeads, headDim]
  .ok (4 * values + 4 * values)

/-- `Sm12xKvAttentionWorkspace::new_gqa_batched`. -/
def attentionWorkspaceBytes (maxTokens qHeads kvHeads headDim causalRowCapacity : Nat) :
    Except CudaError Nat := do
  rejectIf (maxTokens = 0 ∨ qHeads = 0 ∨ kvHeads = 0 ∨ qHeads % kvHeads ≠ 0 ∨ headDim = 0 ∨
      headDim % 64 ≠ 0 ∨ causalRowCapacity = 0 ∨ causalRowCapacity > 16)
    (.shape "SM12x KV attention workspace" "non-zero sizes and head_dim multiple of 64"
      (s!"max_tokens={maxTokens} q_heads={qHeads} kv_heads={kvHeads} head_dim={headDim} " ++
        s!"causal_rows={causalRowCapacity}"))
  let queryGroups := kvHeads * divCeil (qHeads / kvHeads) 8
  let queryTileCount ← checkedProduct "SM12x KV query tiles"
    [causalRowCapacity, queryGroups, headDim / 64]
  let probabilityTileCount ← checkedProduct "SM12x KV probability tiles"
    [causalRowCapacity, queryGroups, divCeil maxTokens 64]
  let queryTiles ← checkedProduct "SM12x KV query tile bytes" [queryTileCount, 512]
  let queryScales ← checkedProduct "SM12x KV query scale words" [queryTileCount, 8]
  let scores ← checkedProduct "SM12x KV scores" [causalRowCapacity, qHeads, maxTokens]
  let probabilityTiles ← checkedProduct "SM12x KV probability tile bytes"
    [probabilityTileCount, 512]
  let probabilityScales ← checkedProduct "SM12x KV probability scale words"
    [probabilityTileCount, 8]
  let pvPartials ← checkedProduct "SM12x KV PV partials" [32, qHeads, headDim]
  let softmaxStats ← checkedProduct "SM12x KV pipeline softmax stats" [qHeads, 8, 2]
  let softmaxCombined ← checkedProduct "SM12x KV pipeline softmax combined" [qHeads, 2]
  .ok (queryTiles + 4 * queryScales + 4 * scores + probabilityTiles + 4 * probabilityScales +
    4 * pvPartials + 4 * softmaxStats + 4 * softmaxCombined)

/-! ## Sequence states -/

/-- `MuseGlimmerConfig`, as far as sizes depend on it; `localLayers` says which layers have
a window. -/
structure MuseGlimmerConfig where
  hiddenSize : Nat
  intermediateSize : Nat
  numHiddenLayers : Nat
  numAttentionHeads : Nat
  numKeyValueHeads : Nat
  headDim : Nat
  maxPositionEmbeddings : Nat
  vocabSize : Nat
  localLayers : List Bool

structure DFlashConfig where
  blockCount : Nat
  hiddenSize : Nat
  intermediateSize : Nat
  numAttentionHeads : Nat
  numKeyValueHeads : Nat
  headDim : Nat
  blockSize : Nat

structure MuseGlimmerModel where
  config : MuseGlimmerConfig
  dflash : Option DFlashConfig
  decodeWorkspaceBytes : Nat

def dflashBlockSize : Nat := 16

def dflashExtractCount : Nat := 5

variable (config : MuseGlimmerConfig)

/-- A workspace of the attention layers for the whole pages that hold `maxTokens`. -/
def pagedAttentionBytes (maxTokens rows : Nat) : Except CudaError Nat :=
  attentionWorkspaceBytes (divCeil maxTokens sm12xKvPageTokens * sm12xKvPageTokens)
    config.numAttentionHeads config.numKeyValueHeads config.headDim rows

/-- The workspace of a layer that was found, or nothing. -/
def foundBytes (found : Bool) (bytes : Except CudaError Nat) : Except CudaError Nat :=
  if found then bytes else .ok 0

/-- The workspaces of the first local and of the first global layer. -/
def layerAttentionBytes (maxTokens rows : Nat) :
    Except CudaError Nat := do
  let localBytes ←
    foundBytes (config.localLayers.any id) (pagedAttentionBytes config maxTokens rows)
  let globalBytes ←
    foundBytes (config.localLayers.any not) (pagedAttentionBytes config maxTokens rows)
  .ok (localBytes + globalBytes)

/-- `MuseTargetBatchWorkspace::new`. -/
def targetBatchWorkspaceBytes (maxTokens : Nat) :
    Except CudaError Nat := do
  let rows := dflashBlockSize
  let qWidth := config.numAttentionHeads * config.headDim
  let kvWidth := config.numKeyValueHeads * config.headDim
  let attention ← layerAttentionBytes config maxTokens rows
  -- `tokens`, `argmax_indices`, `argmax_values`, the activations and the extracted features
  .ok (4 * rows * (3 + 9 * config.hiddenSize + 6 * qWidth + 4 * kvWidth +
    3 * config.intermediateSize + dflashExtractCount * config.hiddenSize + config.vocabSize) +
    attention)

/-- `MuseGlimmerDFlash::new_sequence_state`. -/
def DFlashConfig.newSequenceState (d : DFlashConfig) (maxTokens vocabSize : Nat) :
    Except CudaError Nat := do
  let rows := d.blockSize
  let qWidth := d.numAttentionHeads * d.headDim
  let kvWidth := d.numKeyValueHeads * d.headDim
  let caches ← Sizes.repeated (kvCacheBytes maxTokens d.numKeyValueHeads d.headDim) d.blockCount
  let tails ← Sizes.repeated (tailSnapshotBytes d.numKeyValueHeads d.headDim) d.blockCount
  let attention ← Sizes.repeated (attentionWorkspaceBytes maxTokens d.numAttentionHeads
    d.numKeyValueHeads d.headDim rows) d.blockCount
  .ok (caches + tails + attention + 4 * rows * (3 + 10 * d.hiddenSize + 4 * qWidth +
    4 * kvWidth + 3 * d.intermediateSize + vocabSize))

namespace MuseGlimmerModel

variable (m : MuseGlimmerModel)

def hasDflash : Bool := m.dflash.isSome

/-- The bytes that only a model with a DFlash companion allocates. -/
def dflashBytes (maxTokens : Nat) : Except CudaError Nat :=
  match m.dflash with
  | none => .ok 0
  | some d => do
    let verification ← targetBatchWorkspaceBytes m.config maxTokens
    let dflashState ← d.newSequenceState maxTokens m.config.vocabSize
    .ok (verification + dflashState)

/-- `new_sequence_state`: the `device_bytes` of the state. -/
def newSequenceState (maxTokens : Nat) : Except CudaError Nat := do
  rejectIf (maxTokens = 0 ∨ m.config.maxPositionEmbeddings < maxTokens)
    (.shape "Muse Glimmer decode capacity" s!"1..={m.config.maxPositionEmbeddings}" s!"{maxTokens}")
  let dflash ← m.dflashBytes maxTokens
  let compactAttention ← layerAttentionBytes m.config maxTokens 1
  .ok (m.decodeWorkspaceBytes + compactAttention + dflash)

end MuseGlimmerModel

/-- `Sm12xPageTable::new`: its `managed_bytes`. -/
def pageTableBytes (maxPosition : Nat) : Except CudaError Nat := do
  rejectIf (maxPosition = 0) (.shape "SM12x page table" "positive maximum position" "0")
  .ok (divCeil maxPosition sm12xKvPageTokens * 12)

/-! ## The budget -/

/-- `Sm12xKvPagePool::new`: its `page_bytes`. -/
def pagePoolBytes (pageSlots kvHeads headDim : Nat) : Except CudaError Nat := do
  rejectIf (pageSlots = 0)
    (.shape "SM12x KV page pool" "at least one physical page slot" "0")
  let bytes ← layoutBytes sm12xKvPageTokens kvHeads headDim
  fitsU32 "SM12x KV page stride" "page bytes fitting u32" bytes
  let _ ← Sizes.below (2 ^ 64) (.shape "SM12x KV page pool" "pool byte count without overflow"
    s!"page_slots={pageSlots} page_bytes={bytes}") (bytes * pageSlots)
  .ok bytes

/-- `Sm12xPageBackend::new` with a pool for every layer. -/
def newPageBackend (config : MuseGlimmerConfig) (pageSlots : Nat) :
    Except CudaError (PageBackend Unit) :=
  PageBackend.new (fun geometry => pagePoolBytes pageSlots geometry.1 geometry.2)
    (List.replicate config.numHiddenLayers (some (config.numKeyValueHeads, config.headDim)))
    pageSlots

/-- `CacheConfig` with the backend's pages, as `SequenceCache` keeps them. -/
structure CacheBudget where
  maxManagedBytes : Nat
  maxSnapshotBytes : Nat
  maxPrefixEntries : Option Nat
  pageBytes : Nat
  pageSlots : Nat
deriving DecidableEq, Repr

/-- `new_muse_glimmer_sequence_cache_with_budget`. -/
def newSequenceCacheWithBudget (model : MuseGlimmerModel)
    (sequenceCapacity maxContextTokens : Nat) (retainedBudgetBytes : Option Nat) :
    Except CudaError CacheBudget := do
  rejectIf (sequenceCapacity = 0 ∨ maxContextTokens = 0)
    (.shape "Muse Glimmer sequence cache" "positive sequence and context capacities"
      s!"sequences={sequenceCapacity} context={maxContextTokens}")
  let probe ← newPageBackend model.config 1
  let pageBytes := probe.pageBytes
  let privateBytes ← model.newSequenceState maxContextTokens
  let tableBytes ← pageTableBytes maxContextTokens
  let privateOverflow : CudaError := .shape "Muse Glimmer sequence cache private bytes"
    "private byte count without overflow"
    s!"private={privateBytes} table={tableBytes} sequences={sequenceCapacity}"
  let sequenceBytes ← Sizes.below (2 ^ 64) privateOverflow (privateBytes + tableBytes)
  let fixedBytes ← Sizes.below (2 ^ 64) privateOverflow (sequenceBytes * sequenceCapacity)
  let eagerPages ← Sizes.below (2 ^ 64)
    (.shape "Muse Glimmer sequence cache pages" "page count without overflow"
      s!"sequences={sequenceCapacity} context={maxContextTokens}")
    (sequenceCapacity * divCeil maxContextTokens sm12xKvPageTokens)
  let bytesOverflow : CudaError := .shape "Muse Glimmer sequence cache bytes"
    "managed byte count without overflow" s!"page_bytes={pageBytes} pages={eagerPages}"
  let eagerPageBytes ← Sizes.below (2 ^ 64) bytesOverflow (eagerPages * pageBytes)
  let eagerBytes ← Sizes.below (2 ^ 64) bytesOverflow (eagerPageBytes + fixedBytes)
  let retainedBytes := retainedBudgetBytes.getD 0
  let managedBytes ← Sizes.below (2 ^ 64)
    (.shape "Muse Glimmer sequence cache budget" "active and retained budgets without overflow"
      s!"active={eagerBytes} retained={retainedBytes}") (eagerBytes + retainedBytes)
  let snapshotBytes :=
    if retainedBudgetBytes.isSome && model.hasDflash then retainedBytes / 4 else 0
  let retainedPages := (retainedBytes - snapshotBytes) / pageBytes
  let pageSlots ← Sizes.below (2 ^ 64)
    (.shape "Muse Glimmer sequence cache pages" "active and retained page counts without overflow"
      s!"active={eagerPages} retained={retainedPages}") (eagerPages + retainedPages)
  let backend ← newPageBackend model.config pageSlots
  .ok {
    maxManagedBytes := managedBytes
    maxSnapshotBytes := snapshotBytes
    maxPrefixEntries := if retainedBudgetBytes.isNone then some 0 else none
    pageBytes := backend.pageBytes
    pageSlots := backend.usedSlots.length
  }

/-- `MuseGlimmerChatService` before its first request. -/
structure MuseGlimmerService where
  model : MuseGlimmerModel
  config : SchedulerConfig
  sequenceCache : CacheBudget

def newWithCacheConfig (model : MuseGlimmerModel) (config : SchedulerConfig)
    (maxRetainedBytes : Nat) : Except CudaError MuseGlimmerService := do
  config.validate
  rejectIf (model.config.maxPositionEmbeddings < config.maxContextTokens)
    (.shape "Muse Glimmer scheduler context" s!"at most {model.config.maxPositionEmbeddings} tokens"
      s!"{config.maxContextTokens} tokens")
  let sequenceCache ← newSequenceCacheWithBudget model config.maxActiveSequences
    config.maxContextTokens (if maxRetainedBytes ≠ 0 then some maxRetainedBytes else none)
  .ok { model := model, config := config, sequenceCache := sequenceCache }

/-! ## Acceptance -/

/-- A `ChatRequest` whose prompt is rendered and tokenized. -/
structure ChatRequest where
  promptTokenIds : List Nat
  generation : RequestConfig
  stopSequences : List String

/-- What admission reads of an `ActiveRequest`. -/
structure QueuedRequest where
  promptLength : Nat
  maxNewTokens : Nat
  dflashEnabled : Bool
deriving DecidableEq, Repr

namespace MuseGlimmerService

variable (s : MuseGlimmerService)

def addRequest (request : ChatRequest) :
    Except CudaError QueuedRequest := do
  rejectIf (request.generation.sampling.valid = false) 
    (.format "sampling" "invalid sampling parameters")
  rejectIf (request.stopSequences.any (· = ""))
    (.format "chat stop sequences" "stop sequences must not be empty")
  let promptLength := request.promptTokenIds.length
  rejectIf (promptLength = 0)
    (.format "Muse Glimmer chat prompt" "prompt tokenized to zero tokens")
  let maxNewTokens := request.generation.maxNewTokens
  let total ← Sizes.below (2 ^ 64)
    (.shape "Muse Glimmer request capacity" "prompt + completion without overflow"
      s!"{promptLength} + {maxNewTokens}") (promptLength + maxNewTokens)
  rejectIf (s.config.maxContextTokens < total)
    (.shape "Muse Glimmer request capacity" s!"at most {s.config.maxContextTokens} tokens"
      s!"{total} tokens")
  let dflashEnabled := s.model.hasDflash && request.generation.sampling.usesFastArgmax &&
    decide (total + 15 < 2 ^ 64 ∧ total + 15 ≤ s.model.config.maxPositionEmbeddings)
  .ok {
    promptLength := promptLength
    maxNewTokens := maxNewTokens
    dflashEnabled := dflashEnabled
  }

/-! ## Admission -/

/-- The positions that admission asks for. -/
def capacity (request : QueuedRequest) : Nat :=
  request.promptLength + request.maxNewTokens + (if request.dflashEnabled then 1 else 0) * 15

/-- What a sequence holds of the cache. -/
structure Holding where
  bytes : Nat
  pages : Nat
deriving DecidableEq, Repr

/-- What `admit` asks the cache for, with the pages of its `max_position`. -/
def admissionRequest (maxPosition : Nat) : Except CudaError Holding := do
  let privateStateBytes ← s.model.newSequenceState maxPosition
  let tableBytes ← pageTableBytes maxPosition
  let pages := divCeil maxPosition sm12xKvPageTokens
  .ok ⟨privateStateBytes + tableBytes + pages * s.sequenceCache.pageBytes, pages⟩

/-- `SequenceCache::admit` does not block. -/
def Fits (active : List Holding) (need : Holding) : Prop :=
  (active.map Holding.bytes).sum + need.bytes ≤ s.sequenceCache.maxManagedBytes ∧
    (active.map Holding.pages).sum + need.pages ≤ s.sequenceCache.pageSlots

instance (s : MuseGlimmerService) (active : List Holding) (need : Holding) :
    Decidable (s.Fits active need) :=
  inferInstanceAs (Decidable (_ ∧ _))

/-- `admit`: the active sequences and the waiting requests it leaves. `held` is what the
cache gives a sequence it admits. -/
def admitWaiting (held : List Holding → Holding → Holding) (s : MuseGlimmerService) :
    List Holding → List QueuedRequest → Except CudaError (List Holding × List QueuedRequest)
  | active, [] => .ok (active, [])
  | active, request :: waiting =>
    if active.length < s.config.maxActiveSequences then do
      let need ← s.admissionRequest (max (capacity request) 1)
      if s.Fits active need then admitWaiting held s (active ++ [held active need]) waiting
      else .ok (active, request :: waiting)
    else .ok (active, request :: waiting)

end MuseGlimmerService

end Eider.Source.MuseGlimmer
