import Eider.Lib.ByteReader
import Eider.Lib.Patch
import Eider.Source.Batch

/-!
The exact NVFP4 expert files of DeepSeek V4 (`infer/src/deepseek4.rs`, lines 314 to 415, 527 to
581, 2061 to 2233 and 2285 to 2640) and the vectored read below them
(`infer/src/system_io.rs`).

A file is its bytes, of which there are less than `2 ^ 63`. An `f32` is known by its bits. The
files are written under a temporary name and renamed; a path only stands in the errors.
-/
namespace Eider.Source.Deepseek4
open Lib.ByteReader Lib.Patch

/-! ## Dimensions -/

/-- The fields of `Deepseek4Manifest` that the expert files depend on. -/
structure Manifest where
  hidden : Nat
  layers : Nat
  routedExperts : Nat
  expertIntermediate : Nat
deriving DecidableEq, Repr

def hotExpertMagic : List UInt8 := "EIDDS4H1".toByteArray.data.toList

def hotExpertVersion : Nat := 1

def hotExpertHeaderBytes : Nat := 8 + 5 * 4 + 6 * 4

def nvfp4LayerMagic : List UInt8 := "EIDDS4L2".toByteArray.data.toList

def nvfp4LayerVersion : Nat := 2

def nvfp4LayerHeaderBytes : Nat := 8192

def nvfp4LayerMetadataOffset : Nat := 64

def directIoAlignment : Nat := 4096

/-- `Deepseek4Nvfp4RecordLayout`. -/
structure RecordLayout where
  recordBytes : Nat
  packedBytes : Nat
  scaleBytes : Nat
deriving DecidableEq, Repr

variable (manifest : Manifest)

def RecordLayout.new : Except CudaError RecordLayout := do
  let weights := manifest.hidden * manifest.expertIntermediate
  let packedBytes := weights / 2
  let scaleBytes := weights / 16
  let recordBytes := (packedBytes + scaleBytes) * 3
  rejectIf (2 ^ 64 ≤ weights) (.shape "DeepSeek V4 NVFP4 expert record"
    "hidden * intermediate without overflow"
    s!"hidden={manifest.hidden} intermediate={manifest.expertIntermediate}")
  rejectIf (weights % 16 ≠ 0) (.shape "DeepSeek V4 NVFP4 expert record"
    "weight count divisible by 16" s!"{weights}")
  rejectIf (2 ^ 64 ≤ recordBytes) (.format "DeepSeek V4 NVFP4 expert record"
    "record size overflowed usize")
  rejectIf (packedBytes % directIoAlignment ≠ 0 ∨ scaleBytes % directIoAlignment ≠ 0 ∨
      recordBytes % directIoAlignment ≠ 0)
    (.shape "DeepSeek V4 direct expert record"
      s!"packed, scale, and record byte counts divisible by {directIoAlignment}"
      s!"packed={packedBytes} scale={scaleBytes} record={recordBytes}")
  return ⟨recordBytes, packedBytes, scaleBytes⟩

def validateLayerExpert (layer expert : Nat) : Except CudaError Unit :=
  rejectIf (manifest.layers ≤ layer ∨ manifest.routedExperts ≤ expert)
    (.shape "DeepSeek V4 hot expert"
      s!"layer < {manifest.layers}, expert < {manifest.routedExperts}"
      s!"layer={layer} expert={expert}")

/-! ## Experts -/

def isFinite (bits : UInt32) : Bool := bits.toNat / 2 ^ 23 % 256 ≠ 255

/-- `ModelOptNvfp4Linear`. -/
structure Linear where
  tensor : String
  outFeatures : Nat
  inFeatures : Nat
  packedWeight : List UInt8
  weightScale : List UInt8
  weightScale2 : UInt32
  inputScale : UInt32
deriving DecidableEq, Repr

structure HotExpert where
  w1 : Linear
  w3 : Linear
  w2 : Linear
deriving DecidableEq, Repr

variable (weights : HotExpert)

/-- The scalar scales, in the order in which both files hold them. -/
def HotExpert.scalars : List UInt32 :=
  [weights.w1.weightScale2, weights.w1.inputScale, weights.w3.weightScale2,
    weights.w3.inputScale, weights.w2.weightScale2, weights.w2.inputScale]

/-- The matrices, in the order in which both files hold them. -/
def HotExpert.record : List UInt8 :=
  [weights.w1, weights.w3, weights.w2].flatMap fun linear =>
    linear.packedWeight ++ linear.weightScale

def validateHotLinear (linear : Linear) (rows cols : Nat) (label : String) :
    Except CudaError Unit :=
  let packed := rows * cols % 2 ^ 64 / 2
  let scales := rows * cols % 2 ^ 64 / 16
  rejectIf (linear.outFeatures ≠ rows ∨ linear.inFeatures ≠ cols ∨
      linear.packedWeight.length ≠ packed ∨ linear.weightScale.length ≠ scales ∨
      isFinite linear.weightScale2 = false ∨ isFinite linear.inputScale = false)
    (.shape "DeepSeek V4 hot-expert linear"
      s!"{label}=[{rows}, {cols}] packed={packed} scales={scales} finite scalar scales"
      (s!"{linear.tensor}=[{linear.outFeatures}, {linear.inFeatures}] "
        ++ s!"packed={linear.packedWeight.length} scales={linear.weightScale.length} "
        ++ s!"scalar_scales={linear.weightScale2}/{linear.inputScale}"))

/-- The checks of both writers on an expert. -/
def validateHotExpert : Except CudaError Unit := do
  validateHotLinear weights.w1 manifest.expertIntermediate manifest.hidden "w1"
  validateHotLinear weights.w3 manifest.expertIntermediate manifest.hidden "w3"
  validateHotLinear weights.w2 manifest.hidden manifest.expertIntermediate "w2"

/-- `u32::try_from`, with the bytes of the number. -/
def leU32 (value : Nat) (error : CudaError) : Except CudaError (List UInt8) := do
  rejectIf (2 ^ 32 ≤ value) error
  return toLeBytes 4 value

def leF32 (value : UInt32) : List UInt8 := toLeBytes 4 value.toNat

/-- A file of a possible length. -/
def writeFile (error : String → CudaError) (file : List UInt8) : Except CudaError (List UInt8) := do
  rejectIf (2 ^ 63 ≤ file.length) (error "File too large (os error 27)")
  return file

/-! ## Layer files -/

def nvfp4StoreIo (path error : String) : CudaError :=
  .format "DeepSeek V4 exact NVFP4 expert store" s!"{path}: {error}"

/-- The numbers of a layer header, with their offsets and names. -/
def layerFields (layer : Nat) (layout : RecordLayout) : List (Nat × Nat × String) :=
  [(8, nvfp4LayerVersion, "version"), (12, layer, "layer"),
    (16, manifest.routedExperts, "experts"), (20, manifest.hidden, "hidden"),
    (24, manifest.expertIntermediate, "intermediate"), (28, layout.recordBytes, "record bytes"),
    (32, nvfp4LayerHeaderBytes, "header bytes")]

variable (header : List UInt8)

def writeField (field : Nat × Nat × String) :
    Except CudaError (List UInt8) := do
  let bytes ← leU32 field.2.1 (.shape "DeepSeek V4 exact NVFP4 layer header"
    s!"{field.2.2} fits u32" s!"{field.2.1}")
  return patch header field.1 bytes

/-- Where the scalars of an expert stand in the header. -/
def scalarOffset (expert index : Nat) : Nat := nvfp4LayerMetadataOffset + expert * 6 * 4 + index * 4

/-- The scalars of an expert are written into the header. -/
def writeScalars (expert : Nat) (scalars : List UInt32) : List UInt8 :=
  scalars.zipIdx.foldl (fun header entry => patch header (scalarOffset expert entry.2)
    (leF32 entry.1)) header

/-- An expert of the writer's loop: the header and the file behind it. -/
def writeExpert (load : Nat → Except CudaError HotExpert)
    (state : List UInt8 × List UInt8) (expert : Nat) :
    Except CudaError (List UInt8 × List UInt8) := do
  let weights ← load expert
  validateHotExpert manifest weights
  return (writeScalars state.1 expert weights.scalars, state.2 ++ weights.record)

/-- `write_nvfp4_expert_layer`, with the file that it publishes. -/
def writeNvfp4ExpertLayer (path : String) (manifest : Manifest) (layer : Nat)
    (load : Nat → Except CudaError HotExpert) : Except CudaError (List UInt8) := do
  validateLayerExpert manifest layer 0
  let layout ← RecordLayout.new manifest
  let metadataBytes := manifest.routedExperts * (6 * 4) + nvfp4LayerMetadataOffset
  rejectIf (2 ^ 64 ≤ metadataBytes) (.format "DeepSeek V4 exact NVFP4 expert store"
    "layer metadata size overflowed usize")
  rejectIf (nvfp4LayerHeaderBytes < metadataBytes)
    (.shape "DeepSeek V4 exact NVFP4 layer header"
      s!"metadata <= {nvfp4LayerHeaderBytes} bytes" s!"{metadataBytes}")
  let blank := patch (List.replicate nvfp4LayerHeaderBytes 0) 0 nvfp4LayerMagic
  let header ← (layerFields manifest layer layout).foldlM writeField blank
  let (header, file) ← (List.range manifest.routedExperts).foldlM (writeExpert manifest load)
    (header, header)
  writeFile (nvfp4StoreIo path) (patch file 0 header)

def readRecordU32 (record : List UInt8) (offset : Nat) : Except CudaError Nat := do
  rejectIf (record.length < offset + 4) (.format "DeepSeek V4 NVFP4 expert record"
    s!"missing u32 at byte offset {offset}")
  return ofLeBytes (slice record offset 4)

def readRecordF32 (record : List UInt8) (offset : Nat) : Except CudaError UInt32 := do
  let value := UInt32.ofNat (← readRecordU32 record offset)
  rejectIf (isFinite value = false) (.format "DeepSeek V4 NVFP4 expert record"
    s!"non-finite f32 at byte offset {offset}")
  return value

def readScalars (expert : Nat) : Except CudaError (List UInt32) :=
  (List.range 6).mapM fun index => readRecordF32 header (scalarOffset expert index)

def readNvfp4LayerHeader (file : List UInt8) (path : String) (manifest : Manifest) (layer : Nat)
    (layout : RecordLayout) : Except CudaError (List (List UInt32)) := do
  let expectedBytes := (nvfp4LayerHeaderBytes +
    min (manifest.routedExperts * layout.recordBytes) (2 ^ 64 - 1)) % 2 ^ 64
  rejectIf (file.length ≠ expectedBytes) (.format "DeepSeek V4 exact NVFP4 expert store"
    s!"{path} has {file.length} bytes, expected {expectedBytes}")
  rejectIf (file.length < nvfp4LayerHeaderBytes)
    (nvfp4StoreIo path "failed to fill whole buffer")
  let header := file.take nvfp4LayerHeaderBytes
  let fields := layerFields manifest layer layout
  let stored ← fields.mapM fun field => readRecordU32 header field.1
  rejectIf (header.take 8 ≠ nvfp4LayerMagic ∨ stored ≠ fields.map fun field => field.2.1)
    (.format "DeepSeek V4 exact NVFP4 expert store" s!"invalid layer header in {path}: {stored}")
  (List.range manifest.routedExperts).mapM (readScalars header)

/-- `Deepseek4Nvfp4ExpertLayerSource`. -/
structure LayerSource where
  file : List UInt8
  path : String
  manifest : Manifest
  layer : Nat
  layout : RecordLayout
  scalarMetadata : List (List UInt32)

def LayerSource.open (path : String) (file : List UInt8) (manifest : Manifest) (layer : Nat) :
    Except CudaError LayerSource := do
  validateLayerExpert manifest layer 0
  let layout ← RecordLayout.new manifest
  let scalarMetadata ← readNvfp4LayerHeader file path manifest layer layout
  return ⟨file, path, manifest, layer, layout, scalarMetadata⟩

/-! ## Vectored reads -/

/-- What a `preadv` does: it is interrupted, it fails, or it reads at most `most + 1` bytes. -/
inductive Pread where
  | interrupted
  | failed (error : String)
  | read (most : Nat)
deriving DecidableEq, Repr

/-- `IoSliceMut::advance_slices`, on the lengths that are left. -/
def advanceSlices : List Nat → Nat → List Nat
  | [], _ => []
  | left :: rest, bytes =>
    if bytes < left then (left - bytes) :: rest else advanceSlices rest (bytes - left)

/-- `read_exact_vectored_at` into buffers of these lengths, with all bytes it reads; it is still
running where the calls end first. -/
def readExactVectoredAt (file : List UInt8) :
    List Pread → List Nat → Nat → Option (Except String (List UInt8))
  | _, [], _ => some (.ok [])
  | [], _ :: _, _ => none
  | .interrupted :: preads, left, offset => readExactVectoredAt file preads left offset
  | .failed error :: _, _, _ => some (.error error)
  | .read most :: preads, left, offset =>
    let bytes := min (most + 1) (min left.sum (file.length - offset))
    if 6 < left.length then some (.error "too many vectored read destinations")
    else if 2 ^ 63 ≤ offset then some (.error "Invalid argument (os error 22)")
    else if bytes = 0 then some (.error "unexpected end of file")
    else
      (readExactVectoredAt file preads (advanceSlices left bytes) (offset + bytes)).map
        (Except.map fun more => slice file offset bytes ++ more)

/-! ## Records -/

/-- `Nvfp4LinearSlotMut`: the addresses and lengths of its ranges. -/
structure LinearSlot where
  packedAddress : Nat
  packedLength : Nat
  scaleAddress : Nat
  scaleLength : Nat

/-- `Deepseek4PagedExpertDestination`. -/
structure PagedExpertDestination where
  w1 : LinearSlot
  w3 : LinearSlot
  w2 : LinearSlot
  layout : RecordLayout

/-- The addresses and lengths of the buffers, in the order of the record. -/
def PagedExpertDestination.buffers (d : PagedExpertDestination) : List (Nat × Nat) :=
  [d.w1, d.w3, d.w2].flatMap fun slot =>
    [(slot.packedAddress, slot.packedLength), (slot.scaleAddress, slot.scaleLength)]

structure SlotContents where
  packedWeight : List UInt8
  weightScale : List UInt8
  weightScale2 : UInt32
deriving DecidableEq, Repr

structure PagedExpert where
  w1 : SlotContents
  w3 : SlotContents
  w2 : SlotContents
deriving DecidableEq, Repr

/-- The bytes of a record in the slots. -/
def PagedExpert.ofRecord (layout : RecordLayout) (record : List UInt8) (scales : List UInt32) :
    PagedExpert :=
  let matrix := layout.packedBytes + layout.scaleBytes
  let slot (place : Nat) : SlotContents :=
    ⟨slice record (place * matrix) layout.packedBytes,
      slice record (place * matrix + layout.packedBytes) layout.scaleBytes,
      scales.getD (2 * place) 0⟩
  ⟨slot 0, slot 1, slot 2⟩

/-- The checks of `read_record_into_slot`. -/
def checkDestination (source : LayerSource) (expert : Nat) (d : PagedExpertDestination) :
    Except CudaError Unit := do
  let layout := source.layout
  validateLayerExpert source.manifest source.layer expert
  rejectIf (d.layout ≠ layout ∨ [d.w1, d.w3, d.w2].any fun slot =>
      slot.packedLength ≠ d.layout.packedBytes ∨ slot.scaleLength ≠ d.layout.scaleBytes)
    (.shape "DeepSeek V4 NVFP4 expert destination"
      s!"record={layout.recordBytes} packed={layout.packedBytes} scales={layout.scaleBytes}"
      (s!"record={d.layout.recordBytes} w1={d.w1.packedLength}/{d.w1.scaleLength} "
        ++ s!"w3={d.w3.packedLength}/{d.w3.scaleLength} "
        ++ s!"w2={d.w2.packedLength}/{d.w2.scaleLength}"))
  d.buffers.forM fun buffer =>
    rejectIf (buffer.1 % directIoAlignment ≠ 0 ∨ buffer.2 % directIoAlignment ≠ 0)
      (.format "DeepSeek V4 direct expert read"
        (s!"destination address 0x{String.ofList (Nat.toDigits 16 buffer.1)} and length {buffer.2} "
          ++ s!"must be {directIoAlignment}-byte aligned"))
  rejectIf (2 ^ 64 ≤ nvfp4LayerHeaderBytes + min (expert * layout.recordBytes) (2 ^ 64 - 1))
    (.format "DeepSeek V4 direct expert read" "record offset overflowed usize")

def readRecordIntoSlot (source : LayerSource) (expert : Nat) (d : PagedExpertDestination)
    (preads : List Pread) : Option (Except CudaError PagedExpert) :=
  match checkDestination source expert d with
  | .error e => some (.error e)
  | .ok () =>
    let recordOffset := nvfp4LayerHeaderBytes + expert * source.layout.recordBytes
    match readExactVectoredAt source.file preads (d.buffers.map Prod.snd) recordOffset with
    | none => none
    | some (.error e) => some (.error (nvfp4StoreIo source.path e))
    | some (.ok record) =>
      some (.ok (.ofRecord source.layout record (source.scalarMetadata.getD expert [])))

/-! ## Files of one expert -/

def hotCacheIo (path error : String) : CudaError :=
  .format "DeepSeek V4 hot-expert cache" s!"{path}: {error}"

def hotExpertExpectedFileBytes : Except CudaError Nat := do
  let weights := manifest.hidden * manifest.expertIntermediate * 3
  let bytes := hotExpertHeaderBytes + (weights / 2 + weights / 16)
  rejectIf (2 ^ 64 ≤ weights) (.shape "DeepSeek V4 hot-expert cache size"
    "3 * hidden * intermediate without overflow"
    s!"hidden={manifest.hidden} intermediate={manifest.expertIntermediate}")
  rejectIf (weights % 16 ≠ 0) (.shape "DeepSeek V4 hot-expert cache size"
    "weight count divisible by 16" s!"{weights}")
  rejectIf (2 ^ 64 ≤ bytes) (.format "DeepSeek V4 hot-expert cache size"
    "file byte count overflowed u64")
  return bytes

/-- `write_hot_expert`, with the file that it publishes. -/
def writeHotExpert (path : String) (manifest : Manifest) (layer expert : Nat)
    (weights : HotExpert) : Except CudaError (List UInt8) := do
  validateHotExpert manifest weights
  let layerBytes ← leU32 layer (.shape "DeepSeek V4 hot-expert layer" "u32" s!"{layer}")
  let expertBytes ← leU32 expert (.shape "DeepSeek V4 hot-expert index" "u32" s!"{expert}")
  let hiddenBytes ← leU32 manifest.hidden
    (.shape "DeepSeek V4 hidden size" "u32" s!"{manifest.hidden}")
  let intermediateBytes ← leU32 manifest.expertIntermediate
    (.shape "DeepSeek V4 expert intermediate size" "u32" s!"{manifest.expertIntermediate}")
  writeFile (hotCacheIo path) (hotExpertMagic ++ toLeBytes 4 hotExpertVersion ++ layerBytes ++
    expertBytes ++ hiddenBytes ++ intermediateBytes ++ weights.scalars.flatMap leF32 ++
    weights.record)

section
variable (path : String)

/-- `read_exact` of a buffer. -/
def readHot (bytes : Nat) : Reading CudaError (List UInt8) :=
  readExact bytes (hotCacheIo path "failed to fill whole buffer")

def readHotU32 : Reading CudaError Nat := ofLeBytes <$> readHot path 4

def readHotF32 : Reading CudaError UInt32 := UInt32.ofNat <$> readHotU32 path

/-- A result of a check inside a read. -/
def checked {α : Type} (result : Except CudaError α) : Reading CudaError α :=
  match result with
  | .ok a => pure a
  | .error e => fail e

def readHotLinear (tensor : String) (rows cols : Nat) (weightScale2 inputScale : UInt32) :
    Reading CudaError Linear := do
  request (rows * cols / 2)
  request (rows * cols / 16)
  let packedWeight ← readHot path (rows * cols / 2)
  let weightScale ← readHot path (rows * cols / 16)
  let linear : Linear := ⟨tensor, rows, cols, packedWeight, weightScale, weightScale2, inputScale⟩
  checked (validateHotLinear linear rows cols "cached")
  return linear

/-- The name of the tensors of an expert. -/
def expertTensor (layer expert : Nat) (linear : String) : String :=
  s!"layers.{layer}.ffn.experts.{expert}.{linear}"

variable (manifest : Manifest) (layer expert : Nat)

/-- The header of a hot expert file, behind the check of its length. -/
def readHotHeader : Reading CudaError Unit := do
  let magic ← readHot path 8
  let version ← readHotU32 path
  let storedLayer ← readHotU32 path
  let storedExpert ← readHotU32 path
  let hidden ← readHotU32 path
  let intermediate ← readHotU32 path
  ensure (magic = hotExpertMagic ∧ version = hotExpertVersion ∧ storedLayer = layer ∧
      storedExpert = expert ∧ hidden = manifest.hidden ∧
      intermediate = manifest.expertIntermediate)
    (.format "DeepSeek V4 hot-expert cache"
      (s!"invalid header in {path}: magic={magic.map UInt8.toNat} version={version} "
        ++ s!"layer={storedLayer} expert={storedExpert} hidden={hidden} "
        ++ s!"intermediate={intermediate}"))

/-- The scales and matrices behind the header. -/
def readHotWeights : Reading CudaError HotExpert := do
  let scales ← times 6 (readHotF32 path)
  let scale (index : Nat) := scales.getD index 0
  let w1 ← readHotLinear path (expertTensor layer expert "w1") manifest.expertIntermediate
    manifest.hidden (scale 0) (scale 1)
  let w3 ← readHotLinear path (expertTensor layer expert "w3") manifest.expertIntermediate
    manifest.hidden (scale 2) (scale 3)
  let w2 ← readHotLinear path (expertTensor layer expert "w2") manifest.hidden
    manifest.expertIntermediate (scale 4) (scale 5)
  return ⟨w1, w3, w2⟩

def readHotExpert : Reading CudaError HotExpert := do
  let actualBytes ← fileLength
  let expectedBytes ← checked (hotExpertExpectedFileBytes manifest)
  ensure (actualBytes = expectedBytes) (.format "DeepSeek V4 hot-expert cache"
    s!"{path} has {actualBytes} bytes, expected {expectedBytes}")
  readHotHeader path manifest layer expert
  readHotWeights path manifest layer expert

end

end Eider.Source.Deepseek4
