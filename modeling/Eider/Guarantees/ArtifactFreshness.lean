import Eider.Lib.Run
import Eider.Source.ExpertCache

/-!
# Origin of the prepared expert artifacts

The checkpoint is exchanged, calls of `ensure_layer_cache` and `ensure_model_cache`
follow in any order, and any of them may end behind any file. A call that returns Ok
vouches for the expert files of its layers.

`build_layer_cache` selects every expert when the marker names another checkpoint,
and `build_expert_cache` then keeps each file whose shape still fits. Where no such
file is met, the vouched files come from the current checkpoint:
`vouched_artifacts_current`. Otherwise `kept_artifact_is_vouched` happens.
-/
namespace Eider.Guarantees.ArtifactFreshness
open Lib.Run Source List Function

/-- The directories, the checkpoint in use, and the layers that the last call vouched for. -/
structure World where
  root : ArtifactRoot
  checkpoint : Option QwenCheckpoint
  vouched : List Nat

inductive Action where
  | changeCheckpoint (c : QwenCheckpoint)
  | ensureLayerCache (layer : Nat) (calls : BuildCalls)
  | ensureModelCache (lock : Except CudaError Unit) (calls : Nat → BuildCalls)

variable (c : QwenCheckpoint)

/-- The layers that a call with the result vouches for. -/
def vouchedLayers (layers : List Nat) : Except CudaError Unit → List Nat
  | .ok () => layers.filter c.usesNvfp4Down
  | .error _ => []

/-- One action. A call needs a checkpoint. -/
def step (w : World) : Action → Option World
  | .changeCheckpoint c => some ⟨w.root, some c, []⟩
  | .ensureLayerCache layer calls => w.checkpoint.map fun c =>
    let (result, root) := ensureLayerCache c layer calls w.root
    ⟨root, some c, vouchedLayers c [layer] result⟩
  | .ensureModelCache lock calls => w.checkpoint.map fun c =>
    let (result, root) := ensureModelCache c lock calls w.root
    ⟨root, some c, vouchedLayers c (List.range c.manifest.layers) result⟩

/-- The file was derived from the checkpoint with the stamp. -/
def DerivedFrom (stamp : Text) (file : Option ArtifactFile) : Prop :=
  file.map ArtifactFile.source = some stamp

/-- Every expert file of the layer was derived from the checkpoint. -/
def Genuine (dir : LayerDir) : Prop :=
  ∃ stamp experts intermediate, c.stamp = .ok stamp ∧
    moeShape c.manifest = .ok (experts, intermediate) ∧ ∀ expert < experts,
      DerivedFrom stamp (dir.gateUp expert) ∧ DerivedFrom stamp (dir.down expert)

/-- The expert files whose shape fits the checkpoint were derived from it. -/
def StaleFree (dir : LayerDir) : Prop :=
  ∀ stamp experts intermediate, c.stamp = .ok stamp →
    moeShape c.manifest = .ok (experts, intermediate) → ∀ expert < experts,
      (gateUpMatches (dir.gateUp expert) (intermediate * 2) c.manifest.hidden →
        DerivedFrom stamp (dir.gateUp expert)) ∧
      (downMatches (dir.down expert) c.manifest.hidden intermediate →
        DerivedFrom stamp (dir.down expert))

/-- The layer's marker names the checkpoint. -/
def MarkedFor (layer : Nat) (dir : LayerDir) : Prop :=
  ∃ expected, markerContents c layer = .ok expected ∧ dir.marker = some expected

/-- No file of another checkpoint with a fitting shape lies in a layer that is about
to be built, or in one that is marked for the checkpoint put in use. -/
def MeetsNoStaleFile (w : World) : Action → Prop
  | .changeCheckpoint c => ∀ layer, MarkedFor c layer (w.root layer) → StaleFree c (w.root layer)
  | .ensureLayerCache layer _ => ∀ c, w.checkpoint = some c → layer < c.manifest.layers →
    c.usesNvfp4Down layer → layerCacheComplete c layer (w.root layer) = false →
      StaleFree c (w.root layer)
  | .ensureModelCache _ _ => ∀ c, w.checkpoint = some c →
    ∀ layer ∈ missingLayers c w.root, StaleFree c (w.root layer)

/-! ## Files of one build -/

/-- Each file is the old one or comes from the checkpoint with the stamp. -/
structure Fills (stamp : Text) (dir dir' : LayerDir) : Prop where
  gateUp : ∀ expert, dir'.gateUp expert = dir.gateUp expert ∨ DerivedFrom stamp (dir'.gateUp expert)
  down : ∀ expert, dir'.down expert = dir.down expert ∨ DerivedFrom stamp (dir'.down expert)

section
variable {c : QwenCheckpoint} {stamp : Text} {dir dir' dir'' : LayerDir} {calls : BuildCalls}
  {experts intermediate expert layer : Nat} {root : ArtifactRoot}

theorem Fills.refl (stamp : Text) (dir : LayerDir) : Fills stamp dir dir :=
  ⟨fun _ => .inl rfl, fun _ => .inl rfl⟩

theorem Fills.gateUp_derived (h : Fills stamp dir dir')
    (hfile : DerivedFrom stamp (dir.gateUp expert)) : DerivedFrom stamp (dir'.gateUp expert) := by
  rcases h.gateUp expert with hsame | hnew
  · rw [hsame]
    exact hfile
  · exact hnew

theorem Fills.down_derived (h : Fills stamp dir dir')
    (hfile : DerivedFrom stamp (dir.down expert)) : DerivedFrom stamp (dir'.down expert) := by
  rcases h.down expert with hsame | hnew
  · rw [hsame]
    exact hfile
  · exact hnew

theorem Fills.trans (h : Fills stamp dir dir') (h' : Fills stamp dir' dir'') :
    Fills stamp dir dir'' := by
  constructor
  · intro expert
    rcases h.gateUp expert with hsame | hnew
    · rw [← hsame]
      exact h'.gateUp expert
    · exact .inr (h'.gateUp_derived hnew)
  · intro expert
    rcases h.down expert with hsame | hnew
    · rw [← hsame]
      exact h'.down expert
    · exact .inr (h'.down_derived hnew)

theorem StaleFree.fills (h : StaleFree c dir) (hstamp : c.stamp = .ok stamp)
    (hfills : Fills stamp dir dir') : StaleFree c dir' := by
  intro stamp' experts intermediate hstamp' hshape expert hexpert
  rw [hstamp] at hstamp'
  cases hstamp'
  obtain ⟨hgateUp, hdown⟩ := h stamp experts intermediate hstamp hshape expert hexpert
  constructor
  · intro hmatches
    rcases hfills.gateUp expert with hsame | hnew
    · rw [hsame] at hmatches ⊢
      exact hgateUp hmatches
    · exact hnew
  · intro hmatches
    rcases hfills.down expert with hsame | hnew
    · rw [hsame] at hmatches ⊢
      exact hdown hmatches
    · exact hnew

theorem update_self_derived (files : Nat → Option ArtifactFile) (stamp : Text) (expert : Nat)
    (shape : Nat × Nat) :
    DerivedFrom stamp (update files expert (some ⟨shape.1, shape.2, stamp⟩) expert) := by
  rw [update_self]
  rfl

theorem update_derived (files : Nat → Option ArtifactFile) (stamp : Text) (expert other : Nat)
    (shape : Nat × Nat) :
    update files expert (some ⟨shape.1, shape.2, stamp⟩) other = files other ∨
      DerivedFrom stamp (update files expert (some ⟨shape.1, shape.2, stamp⟩) other) := by
  by_cases hother : other = expert
  · subst hother
    exact .inr (update_self_derived _ _ _ _)
  · exact .inl (update_of_ne hother _ _)

theorem buildGateUp_fills (c : QwenCheckpoint) (stamp : Text) (intermediate : Nat)
    (calls : BuildCalls) (dir : LayerDir) (expert : Nat) :
    Fills stamp dir (buildGateUp c stamp intermediate calls dir expert).2 := by
  rw [buildGateUp]
  split
  · exact .refl _ _
  · cases calls.gateUp expert with
    | error e => exact .refl _ _
    | ok shape => exact ⟨fun other => update_derived _ _ _ _ _, fun _ => .inl rfl⟩

theorem buildDown_fills (c : QwenCheckpoint) (stamp : Text) (intermediate : Nat)
    (calls : BuildCalls) (dir : LayerDir) (expert : Nat) :
    Fills stamp dir (buildDown c stamp intermediate calls dir expert).2 := by
  rw [buildDown]
  split
  · exact .refl _ _
  · cases calls.down expert with
    | error e => exact .refl _ _
    | ok shape => exact ⟨fun _ => .inl rfl, fun other => update_derived _ _ _ _ _⟩

theorem buildExpertCache_fills (c : QwenCheckpoint) (stamp : Text) (intermediate : Nat)
    (calls : BuildCalls) (dir : LayerDir) (expert : Nat) :
    Fills stamp dir (buildExpertCache c stamp intermediate calls dir expert).2 := by
  have hgateUp := buildGateUp_fills c stamp intermediate calls dir expert
  rw [buildExpertCache]
  split
  · rename_i e built heq
    rw [heq] at hgateUp
    exact hgateUp
  · rename_i built heq
    rw [heq] at hgateUp
    exact hgateUp.trans (buildDown_fills _ _ _ _ _ _)

theorem buildExperts_fills (c : QwenCheckpoint) (stamp : Text) (intermediate : Nat)
    (calls : BuildCalls) (missing : List Nat) (dir : LayerDir) :
    Fills stamp dir (buildExperts c stamp intermediate calls missing dir).2 := by
  induction missing generalizing dir with
  | nil => exact .refl _ _
  | cons expert rest ih =>
    have hexpert := buildExpertCache_fills c stamp intermediate calls dir expert
    rw [buildExperts]
    split
    · rename_i e built heq
      rw [heq] at hexpert
      exact hexpert.trans (ih _)
    · rename_i built heq
      rw [heq] at hexpert
      exact hexpert.trans (ih _)

/-! ## Successful builds -/

theorem buildGateUp_ok (h : buildGateUp c stamp intermediate calls dir expert = (.ok (), dir'))
    (hkept : gateUpMatches (dir.gateUp expert) (intermediate * 2) c.manifest.hidden →
      DerivedFrom stamp (dir.gateUp expert)) : DerivedFrom stamp (dir'.gateUp expert) := by
  rw [buildGateUp] at h
  split at h
  · rename_i hmatches
    cases h
    exact hkept hmatches
  · cases hcall : calls.gateUp expert with
    | error e => simp [hcall] at h
    | ok shape =>
      simp only [hcall, Prod.mk.injEq, true_and] at h
      subst h
      exact update_self_derived _ _ _ _

theorem buildDown_ok (h : buildDown c stamp intermediate calls dir expert = (.ok (), dir'))
    (hkept : downMatches (dir.down expert) c.manifest.hidden intermediate →
      DerivedFrom stamp (dir.down expert)) : DerivedFrom stamp (dir'.down expert) := by
  rw [buildDown] at h
  split at h
  · rename_i hmatches
    cases h
    exact hkept hmatches
  · cases hcall : calls.down expert with
    | error e => simp [hcall] at h
    | ok shape =>
      simp only [hcall, Prod.mk.injEq, true_and] at h
      subst h
      exact update_self_derived _ _ _ _

theorem buildExpertCache_ok
    (h : buildExpertCache c stamp intermediate calls dir expert = (.ok (), dir'))
    (hstale : StaleFree c dir) (hstamp : c.stamp = .ok stamp)
    (hshape : moeShape c.manifest = .ok (experts, intermediate)) (hexpert : expert < experts) :
    DerivedFrom stamp (dir'.gateUp expert) ∧ DerivedFrom stamp (dir'.down expert) := by
  have hfills := buildGateUp_fills c stamp intermediate calls dir expert
  rw [buildExpertCache] at h
  split at h
  · cases h
  · rename_i built heq
    rw [heq] at hfills
    have hgateUp := buildGateUp_ok heq (hstale _ _ _ hstamp hshape _ hexpert).1
    have hdown := buildDown_ok h ((hstale.fills hstamp hfills) _ _ _ hstamp hshape _ hexpert).2
    have hlast := buildDown_fills c stamp intermediate calls built expert
    rw [h] at hlast
    exact ⟨hlast.gateUp_derived hgateUp, hdown⟩

theorem buildExperts_ok {missing : List Nat}
    (h : buildExperts c stamp intermediate calls missing dir = (.ok (), dir'))
    (hstale : StaleFree c dir) (hstamp : c.stamp = .ok stamp)
    (hshape : moeShape c.manifest = .ok (experts, intermediate))
    (hmissing : ∀ expert ∈ missing, expert < experts) :
    ∀ expert ∈ missing,
      DerivedFrom stamp (dir'.gateUp expert) ∧ DerivedFrom stamp (dir'.down expert) := by
  induction missing generalizing dir with
  | nil => simp
  | cons first rest ih =>
    have hfills := buildExpertCache_fills c stamp intermediate calls dir first
    rw [buildExperts] at h
    split at h
    · cases h
    · rename_i built heq
      rw [heq] at hfills
      have hrest := buildExperts_fills c stamp intermediate calls rest built
      rw [h] at hrest
      intro expert hexpert
      rcases mem_cons.mp hexpert with rfl | htail
      · have hfirst := buildExpertCache_ok heq hstale hstamp hshape (hmissing _ hexpert)
        exact ⟨hrest.gateUp_derived hfirst.1, hrest.down_derived hfirst.2⟩
      · exact ih h (hstale.fills hstamp hfills)
          (fun other hother => hmissing other (mem_cons_of_mem _ hother)) expert htail

/-- Experts that are not given to the workers have two files with fitting shapes. -/
theorem matches_of_not_missing {expected : Text} (hexpert : expert < experts)
    (h : expert ∉ missingExperts c experts intermediate expected dir) :
    gateUpMatches (dir.gateUp expert) (intermediate * 2) c.manifest.hidden ∧
      downMatches (dir.down expert) c.manifest.hidden intermediate := by
  simp only [missingExperts, mem_filter, mem_range, hexpert, true_and, Bool.or_eq_true,
    Bool.not_eq_true', not_or, Bool.not_eq_false] at h
  exact ⟨h.1.2, h.2⟩

theorem missingExperts_lt {expected : Text}
    (h : expert ∈ missingExperts c experts intermediate expected dir) : expert < experts := by
  rw [missingExperts, mem_filter, mem_range] at h
  exact h.1

theorem buildLayerCache_staleFree (c : QwenCheckpoint) (layer : Nat) (calls : BuildCalls)
    (hstale : StaleFree c dir) :
    StaleFree c (buildLayerCache c layer calls dir).2 ∧
      ((buildLayerCache c layer calls dir).1 = .ok () →
        Genuine c (buildLayerCache c layer calls dir).2) := by
  rw [buildLayerCache]
  split
  · exact ⟨hstale, fun h => by cases h⟩
  rename_i experts intermediate hshape
  split
  · exact ⟨hstale, fun h => by cases h⟩
  split
  · exact ⟨hstale, fun h => by cases h⟩
  · exact ⟨hstale, fun h => by cases h⟩
  rename_i expected stamp hmarker hstamp
  have hfills := buildExperts_fills c stamp intermediate calls
    (missingExperts c experts intermediate expected dir) dir
  split
  · rename_i e built heq
    rw [heq] at hfills
    exact ⟨hstale.fills hstamp hfills, fun h => by cases h⟩
  · rename_i built heq
    rw [heq] at hfills
    have hbuilt := hstale.fills hstamp hfills
    split
    · exact ⟨hbuilt, fun h => by cases h⟩
    refine ⟨hbuilt, fun _ => ⟨stamp, experts, intermediate, hstamp, hshape, ?_⟩⟩
    intro expert hexpert
    by_cases hmissing : expert ∈ missingExperts c experts intermediate expected dir
    · exact buildExperts_ok heq hstale hstamp hshape (fun _ => missingExperts_lt) expert hmissing
    · -- the kept files of the other experts fit, so they are not stale
      have hmatches := matches_of_not_missing hexpert hmissing
      have hkept := hstale _ _ _ hstamp hshape _ hexpert
      exact ⟨hfills.gateUp_derived (hkept.1 hmatches.1), hfills.down_derived (hkept.2 hmatches.2)⟩

theorem complete_genuine (hcomplete : layerCacheComplete c layer dir)
    (hstale : StaleFree c dir) : Genuine c dir := by
  rw [layerCacheComplete] at hcomplete
  split at hcomplete
  · rename_i expected experts intermediate hmarker hshape
    have hstamp : ∃ stamp, c.stamp = .ok stamp := by
      rw [markerContents, hshape] at hmarker
      cases hstamp : c.stamp with
      | error e => simp [hstamp] at hmarker
      | ok stamp => exact ⟨stamp, rfl⟩
    obtain ⟨stamp, hstamp⟩ := hstamp
    refine ⟨stamp, experts, intermediate, hstamp, hshape, fun expert hexpert => ?_⟩
    simp only [Bool.and_eq_true, all_eq_true, mem_range] at hcomplete
    have hmatches := hcomplete.2 expert hexpert
    have hkept := hstale _ _ _ hstamp hshape _ hexpert
    exact ⟨hkept.1 hmatches.1, hkept.2 hmatches.2⟩
  · cases hcomplete

theorem complete_marked (hcomplete : layerCacheComplete c layer dir) : MarkedFor c layer dir := by
  rw [layerCacheComplete] at hcomplete
  split at hcomplete
  · rename_i expected experts intermediate hmarker hshape
    simp only [Bool.and_eq_true, beq_iff_eq] at hcomplete
    exact ⟨expected, hmarker, hcomplete.1⟩
  · cases hcomplete

/-! ## Calls -/

/-- The layers marked for the checkpoint hold no stale files. -/
def Covered (c : QwenCheckpoint) (root : ArtifactRoot) : Prop :=
  ∀ layer, MarkedFor c layer (root layer) → StaleFree c (root layer)

theorem Covered.update (h : Covered c root) (hdir : StaleFree c dir) :
    Covered c (update root layer dir) := by
  intro other hmarked
  by_cases hother : other = layer
  · subst hother
    rw [update_self]
    exact hdir
  · rw [update_of_ne hother] at hmarked ⊢
    exact h other hmarked

theorem Covered.genuine (h : Covered c root) (hcomplete : layerCacheComplete c layer (root layer)) :
    Genuine c (root layer) :=
  complete_genuine hcomplete (h layer (complete_marked hcomplete))

theorem ensureLayerCache_covered (calls : BuildCalls) (hcovered : Covered c root)
    (hbuild : layer < c.manifest.layers → c.usesNvfp4Down layer →
      layerCacheComplete c layer (root layer) = false → StaleFree c (root layer)) :
    Covered c (ensureLayerCache c layer calls root).2 ∧
      ∀ other ∈ vouchedLayers c [layer] (ensureLayerCache c layer calls root).1,
        Genuine c ((ensureLayerCache c layer calls root).2 other) := by
  rw [ensureLayerCache]
  split
  · exact ⟨hcovered, by simp [vouchedLayers]⟩
  split
  · rename_i hdense
    simp only [Bool.not_eq_true'] at hdense
    exact ⟨hcovered, by simp [vouchedLayers, hdense]⟩
  rename_i hnvfp4
  simp only [Bool.not_eq_true', Bool.not_eq_false] at hnvfp4
  split
  · rename_i hcomplete
    refine ⟨hcovered, fun other hother => ?_⟩
    have heq : other = layer := by simpa [vouchedLayers, hnvfp4] using hother
    subst heq
    exact hcovered.genuine hcomplete
  · rename_i hcomplete
    have hstale := hbuild (by omega) hnvfp4 (Bool.eq_false_iff.mpr hcomplete)
    have hbuilt := buildLayerCache_staleFree c layer calls hstale
    refine ⟨hcovered.update hbuilt.1, fun other hother => ?_⟩
    cases hresult : (buildLayerCache c layer calls (root layer)).1 with
    | error e => simp [vouchedLayers, hresult] at hother
    | ok u =>
      have heq : other = layer := by simpa [vouchedLayers, hresult, hnvfp4] using hother
      subst heq
      simp only [update_self]
      exact hbuilt.2 hresult

theorem buildLayers_covered (calls : Nat → BuildCalls) {layers : List Nat}
    (hcovered : Covered c root) (hstale : ∀ layer ∈ layers, StaleFree c (root layer)) :
    Covered c (buildLayers c calls layers root).2 ∧
      ((buildLayers c calls layers root).1 = .ok () →
        ∀ layer, layer ∈ layers ∨ Genuine c (root layer) →
          Genuine c ((buildLayers c calls layers root).2 layer)) := by
  induction layers generalizing root with
  | nil =>
    refine ⟨hcovered, fun _ layer hlayer => ?_⟩
    simpa [buildLayers] using hlayer
  | cons first rest ih =>
    have hbuilt := buildLayerCache_staleFree c first (calls first)
      (hstale first mem_cons_self)
    rw [buildLayers]
    split
    · rename_i e dir heq
      rw [heq] at hbuilt
      exact ⟨hcovered.update hbuilt.1, nofun⟩
    · rename_i dir heq
      rw [heq] at hbuilt
      have hrest : ∀ layer ∈ rest, StaleFree c (update root first dir layer) := by
        intro layer hlayer
        by_cases hfirst : layer = first
        · subst hfirst
          rw [update_self]
          exact hbuilt.1
        · rw [update_of_ne hfirst]
          exact hstale layer (mem_cons_of_mem _ hlayer)
      have hloop := ih (hcovered.update hbuilt.1) hrest
      refine ⟨hloop.1, fun hok layer hlayer => hloop.2 hok layer ?_⟩
      by_cases hfirst : layer = first
      · subst hfirst
        rw [update_self]
        exact .inr (hbuilt.2 rfl)
      · rw [update_of_ne hfirst]
        rcases hlayer with hmem | hgenuine
        · exact .inl ((mem_cons.mp hmem).resolve_left hfirst)
        · exact .inr hgenuine

theorem ensureModelCache_covered (lock : Except CudaError Unit) (calls : Nat → BuildCalls)
    (hcovered : Covered c root) (hstale : ∀ layer ∈ missingLayers c root, StaleFree c (root layer)) :
    Covered c (ensureModelCache c lock calls root).2 ∧
      ∀ layer ∈ vouchedLayers c (List.range c.manifest.layers)
          (ensureModelCache c lock calls root).1,
        Genuine c ((ensureModelCache c lock calls root).2 layer) := by
  -- a layer that is not missing is complete, so it is covered before the loop
  have hpresent : ∀ layer, layer < c.manifest.layers → c.usesNvfp4Down layer →
      layer ∈ missingLayers c root ∨ Genuine c (root layer) := by
    intro layer hlayer hnvfp4
    by_cases hcomplete : layerCacheComplete c layer (root layer)
    · exact .inr (hcovered.genuine hcomplete)
    · left
      simp [missingLayers, hlayer, hnvfp4, hcomplete]
  have hvouched : ∀ layer result, layer ∈ vouchedLayers c (range c.manifest.layers) result →
      result = .ok () ∧ layer < c.manifest.layers ∧ c.usesNvfp4Down layer := by
    intro layer result hlayer
    cases result with
    | error e => simp [vouchedLayers] at hlayer
    | ok u => simpa [vouchedLayers] using hlayer
  unfold ensureModelCache
  split
  · rename_i hempty
    refine ⟨hcovered, fun layer hlayer => ?_⟩
    obtain ⟨-, hlt, hnvfp4⟩ := hvouched _ _ hlayer
    refine (hpresent layer hlt hnvfp4).resolve_left ?_
    rw [isEmpty_iff.mp hempty]
    exact not_mem_nil
  · cases lock with
    | error e => exact ⟨hcovered, by simp [vouchedLayers]⟩
    | ok u =>
      have hloop := buildLayers_covered calls hcovered hstale
      refine ⟨hloop.1, fun layer hlayer => ?_⟩
      obtain ⟨hok, hlt, hnvfp4⟩ := hvouched _ _ hlayer
      exact hloop.2 hok layer (hpresent layer hlt hnvfp4)

end

/-! ## Runs -/

/-- What every state of a run satisfies. -/
structure Fresh (w : World) : Prop where
  covered : ∀ c, w.checkpoint = some c → Covered c w.root
  vouched : ∀ c, w.checkpoint = some c → ∀ layer ∈ w.vouched, Genuine c (w.root layer)

theorem step_fresh {w w' : World} {a : Action} (h : Fresh w) (hguard : MeetsNoStaleFile w a)
    (hstep : step w a = some w') : Fresh w' := by
  cases a with
  | changeCheckpoint c =>
    cases hstep
    constructor
    · intro c' hc
      cases hc
      exact hguard
    · simp
  | ensureLayerCache layer calls =>
    simp only [step, Option.map_eq_some_iff] at hstep
    obtain ⟨c, hc, rfl⟩ := hstep
    have hcall := ensureLayerCache_covered calls (h.covered c hc) (hguard c hc)
    constructor
    · intro c' hc'
      cases hc'
      exact hcall.1
    · intro c' hc'
      cases hc'
      exact hcall.2
  | ensureModelCache lock calls =>
    simp only [step, Option.map_eq_some_iff] at hstep
    obtain ⟨c, hc, rfl⟩ := hstep
    have hcall := ensureModelCache_covered lock calls (h.covered c hc) (hguard c hc)
    constructor
    · intro c' hc'
      cases hc'
      exact hcall.1
    · intro c' hc'
      cases hc'
      exact hcall.2

/-- From any directories, through any exchange of checkpoints and any calls, finished
or not: where no build meets a stale file and no checkpoint comes into use over one
that is marked for it, every expert file that a call vouches for was derived from the
current checkpoint. -/
theorem vouched_artifacts_current {root : ArtifactRoot} {actions : List Action} {w : World}
    (path : Path step MeetsNoStaleFile ⟨root, none, []⟩ actions w) {c : QwenCheckpoint}
    (hcheckpoint : w.checkpoint = some c) : ∀ layer ∈ w.vouched, Genuine c (w.root layer) := by
  have hstart : Fresh ⟨root, none, []⟩ := by
    constructor
    · simp
    · simp
  have hfresh : Fresh w := path.invariant step_fresh hstart
  exact hfresh.vouched c hcheckpoint

/-! ## A stale file that is kept -/

/-- A model of one layer with one expert. -/
def sampleCheckpoint (stamp : String) : QwenCheckpoint where
  stamp := .ok stamp.toList
  manifest := ⟨1, 64, some (1, 64)⟩
  usesNvfp4Down _ := true

/-- Calls that all succeed and prepare weights of the sample's shapes. -/
def sampleCalls : BuildCalls where
  createDir := .ok ()
  gateUp _ := .ok (128, 64)
  down _ := .ok (64, 64)
  writeMarker := .ok ()

def emptyRoot : ArtifactRoot := fun _ => ⟨none, fun _ => none, fun _ => none⟩

/-- A first checkpoint is prepared layer by layer, then the model is prepared again. -/
theorem first_checkpoint_vouched :
    ∃ w, Path step MeetsNoStaleFile ⟨emptyRoot, none, []⟩
        [.changeCheckpoint (sampleCheckpoint "a"), .ensureLayerCache 0 sampleCalls,
          .ensureModelCache (.ok ()) fun _ => sampleCalls] w ∧
      w.vouched = [0] ∧ Genuine (sampleCheckpoint "a") (w.root 0) := by
  have hpath : ∃ w, Path step MeetsNoStaleFile ⟨emptyRoot, none, []⟩
      [.changeCheckpoint (sampleCheckpoint "a"), .ensureLayerCache 0 sampleCalls,
        .ensureModelCache (.ok ()) fun _ => sampleCalls] w ∧
      w.checkpoint = some (sampleCheckpoint "a") ∧ w.vouched = [0] := by
    refine ⟨_, .cons ?_ rfl (.cons ?_ rfl (.cons ?_ rfl (.nil _))), rfl, rfl⟩
    · rintro layer ⟨expected, -, hmarker⟩
      cases hmarker
    · intro c hc _ _ _ stamp experts intermediate _ _ expert _
      constructor
      · simp [gateUpMatches, emptyRoot]
      · simp [downMatches, emptyRoot]
    · intro c hc layer hmissing
      cases hc
      have hnone : layer ∈ ([] : List Nat) := hmissing
      cases hnone
  obtain ⟨w, path, hcheckpoint, hvouched⟩ := hpath
  refine ⟨w, path, hvouched, vouched_artifacts_current path hcheckpoint 0 ?_⟩
  rw [hvouched]
  exact mem_cons_self

/-- The second checkpoint has the same shapes: its marker covers the files of the first. -/
theorem kept_artifact_is_vouched :
    ∃ w, run step ⟨emptyRoot, none, []⟩
        [.changeCheckpoint (sampleCheckpoint "a"), .ensureLayerCache 0 sampleCalls,
          .changeCheckpoint (sampleCheckpoint "b"), .ensureLayerCache 0 sampleCalls] = some w ∧
      w.checkpoint = some (sampleCheckpoint "b") ∧ w.vouched = [0] ∧
      ¬ Genuine (sampleCheckpoint "b") (w.root 0) := by
  refine ⟨_, rfl, rfl, rfl, ?_⟩
  rintro ⟨stamp, experts, intermediate, hstamp, hshape, hfiles⟩
  cases hstamp
  cases hshape
  exact absurd (hfiles 0 (by decide)).1 (by unfold DerivedFrom; decide)

end Eider.Guarantees.ArtifactFreshness
