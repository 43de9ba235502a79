import Eider.Source.Sequence

/-!
The prepared-weight cache of Qwen3.6 experts (`infer/src/qwen3/qwen36_cache.rs`,
lines 108 to 470): a directory for each layer with two artifact files for each
expert and a `.complete` marker that names the checkpoint.

A file is written under a temporary name and then renamed, so it is either the old
one or the new one. An artifact file is known by its shape and by the stamp of the
checkpoint it was derived from; the source reads the shape back and not the
origin. What loading, preparing and writing return is left open, with the process
being killed as one more failure.
-/
namespace Eider.Source
open Function

def expertCacheError (detail : String) : CudaError := .format "Qwen3.6 SM12x cache" detail

/-- The parts of `QwenModelManifest` that the cache reads. `moe` has the number of
experts and their intermediate size; a dense model has none. -/
structure QwenModelManifest where
  layers : Nat
  hidden : Nat
  moe : Option (Nat × Nat)
deriving DecidableEq, Repr

/-- A checkpoint: what `checkpoint_stamp` returns for its shards, its manifest, and
the layers with an NVFP4 down projection. -/
structure QwenCheckpoint where
  stamp : Except CudaError Text
  manifest : QwenModelManifest
  usesNvfp4Down : Nat → Bool

structure ArtifactFile where
  outFeatures : Nat
  inFeatures : Nat
  source : Text
deriving DecidableEq, Repr

/-- A layer's directory. A file that is absent or no artifact is none. -/
structure LayerDir where
  marker : Option Text
  gateUp : Nat → Option ArtifactFile
  down : Nat → Option ArtifactFile

def moeShape (manifest : QwenModelManifest) : Except CudaError (Nat × Nat) :=
  match manifest.moe with
  | some shape => .ok shape
  | none => .error (expertCacheError "expected MoE model")

/-- `Sm121W4A16HostWeight::cache_file_matches`. -/
def gateUpMatches (file : Option ArtifactFile) (outFeatures inFeatures : Nat) : Bool :=
  (outFeatures != 0 && inFeatures != 0 && outFeatures % 16 == 0 && inFeatures % 16 == 0 &&
    outFeatures < 2 ^ 32 && inFeatures < 2 ^ 32) &&
    file.any fun file => file.outFeatures == outFeatures && file.inFeatures == inFeatures

/-- `Sm12xFp4GemmWeight::cache_file_matches`. -/
def downMatches (file : Option ArtifactFile) (m k : Nat) : Bool :=
  (m != 0 && k != 0 && m % 16 == 0 && k % 64 == 0) &&
    file.any fun file => file.outFeatures == m && file.inFeatures == k

def decimal (n : Nat) : Text := (toString n).toList

variable (c : QwenCheckpoint) (layer : Nat)

def markerContents : Except CudaError Text :=
  match moeShape c.manifest with
  | .error e => .error e
  | .ok (experts, intermediate) =>
    match c.stamp with
    | .error e => .error e
    | .ok stamp => .ok ("eider-qwen36-experts-v2\nlayer=".toList ++ decimal layer ++
        "\nexperts=".toList ++ decimal experts ++ "\nout=".toList ++ decimal c.manifest.hidden ++
        ";in=".toList ++ decimal intermediate ++ "\n".toList ++ stamp)

def layerCacheComplete (dir : LayerDir) : Bool :=
  match markerContents c layer, moeShape c.manifest with
  | .ok expected, .ok (experts, intermediate) =>
    dir.marker == some expected && (List.range experts).all fun expert =>
      gateUpMatches (dir.gateUp expert) (intermediate * 2) c.manifest.hidden &&
        downMatches (dir.down expert) c.manifest.hidden intermediate
  | _, _ => false

/-- What the calls of one build return: making the directory, the shape of each
artifact that is loaded, prepared and written, and writing the marker. An expert that
no worker reaches fails at its first file. -/
structure BuildCalls where
  createDir : Except CudaError Unit
  gateUp : Nat → Except CudaError (Nat × Nat)
  down : Nat → Except CudaError (Nat × Nat)
  writeMarker : Except CudaError Unit

variable (stamp : Text) (intermediate : Nat) (calls : BuildCalls) (dir : LayerDir)

/-- The first half of `build_expert_cache`. A file that matches is kept. -/
def buildGateUp (expert : Nat) : Except CudaError Unit × LayerDir :=
  if gateUpMatches (dir.gateUp expert) (intermediate * 2) c.manifest.hidden then (.ok (), dir)
  else
    match calls.gateUp expert with
    | .error e => (.error e, dir)
    | .ok shape => (.ok (), { dir with
        gateUp := update dir.gateUp expert (some ⟨shape.1, shape.2, stamp⟩) })

/-- The second half of `build_expert_cache`. -/
def buildDown (expert : Nat) : Except CudaError Unit × LayerDir :=
  if downMatches (dir.down expert) c.manifest.hidden intermediate then (.ok (), dir)
  else
    match calls.down expert with
    | .error e => (.error e, dir)
    | .ok shape => (.ok (), { dir with
        down := update dir.down expert (some ⟨shape.1, shape.2, stamp⟩) })

def buildExpertCache (expert : Nat) : Except CudaError Unit × LayerDir :=
  match buildGateUp c stamp intermediate calls dir expert with
  | (.error e, dir) => (.error e, dir)
  | (.ok (), dir) => buildDown c stamp intermediate calls dir expert

/-- The workers of `build_layer_cache`. They share the missing experts, so that one
failing leaves the others to go on; the files of two experts are apart, so the order
does not matter. -/
def buildExperts :
    List Nat → LayerDir → Except CudaError Unit × LayerDir
  | [], dir => (.ok (), dir)
  | expert :: rest, dir =>
    match buildExpertCache c stamp intermediate calls dir expert with
    | (.error e, dir) => (.error e, (buildExperts rest dir).2)
    | (.ok (), dir) => buildExperts rest dir

/-- The experts that `build_layer_cache` gives to its workers. -/
def missingExperts (experts intermediate : Nat) (expected : Text) (dir : LayerDir) : List Nat :=
  let rebuildAll := dir.marker.any fun marker => marker != expected
  (List.range experts).filter fun expert =>
    rebuildAll || !gateUpMatches (dir.gateUp expert) (intermediate * 2) c.manifest.hidden ||
      !downMatches (dir.down expert) c.manifest.hidden intermediate

def buildLayerCache (calls : BuildCalls) (dir : LayerDir) : Except CudaError Unit × LayerDir :=
  match moeShape c.manifest with
  | .error e => (.error e, dir)
  | .ok (experts, intermediate) =>
    match calls.createDir with
    | .error e => (.error e, dir)
    | .ok () =>
      match markerContents c layer, c.stamp with
      | .error e, _ => (.error e, dir)
      | _, .error e => (.error e, dir)
      | .ok expected, .ok stamp =>
        match buildExperts c stamp intermediate calls
            (missingExperts c experts intermediate expected dir) dir with
        | (.error e, dir) => (.error e, dir)
        | (.ok (), dir) =>
          match calls.writeMarker with
          | .error e => (.error e, dir)
          | .ok () => (.ok (), { dir with marker := some expected })

abbrev ArtifactRoot := Nat → LayerDir

def ensureLayerCache (calls : BuildCalls)
    (root : ArtifactRoot) : Except CudaError Unit × ArtifactRoot :=
  if c.manifest.layers ≤ layer then
    (.error (.shape "Qwen3.6 SM12x cache layer" s!"layer < {c.manifest.layers}" s!"{layer}"), root)
  else if !c.usesNvfp4Down layer then (.ok (), root)
  else if layerCacheComplete c layer (root layer) then (.ok (), root)
  else
    let (built, dir) := buildLayerCache c layer calls (root layer)
    (built, update root layer dir)

/-- The layer loop of `ensure_model_cache`. -/
def buildLayers (calls : Nat → BuildCalls) :
    List Nat → ArtifactRoot → Except CudaError Unit × ArtifactRoot
  | [], root => (.ok (), root)
  | layer :: rest, root =>
    match buildLayerCache c layer (calls layer) (root layer) with
    | (.error e, dir) => (.error e, update root layer dir)
    | (.ok (), dir) => buildLayers calls rest (update root layer dir)

/-- The layers that `ensure_model_cache` finds missing. -/
def missingLayers (root : ArtifactRoot) : List Nat :=
  (List.range c.manifest.layers).filter fun layer =>
    c.usesNvfp4Down layer && !layerCacheComplete c layer (root layer)

/-- `ensure_model_cache`. Nothing changes between the two searches for missing
layers, before and behind the lock. -/
def ensureModelCache (lock : Except CudaError Unit)
    (calls : Nat → BuildCalls) (root : ArtifactRoot) : Except CudaError Unit × ArtifactRoot :=
  if (missingLayers c root).isEmpty then (.ok (), root)
  else
    match lock with
    | .error e => (.error e, root)
    | .ok () => buildLayers c calls (missingLayers c root) root

end Eider.Source
