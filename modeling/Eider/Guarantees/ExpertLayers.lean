import Eider.Guarantees.ExpertFiles

/-!
The layer files of the exact NVFP4 expert store (`infer/src/deepseek4.rs`, lines 346 to 415 and
2061 to 2233).

The writer patches the scalars of each expert into the header while it appends the record, and
writes the header a last time over the first bytes of the file. The header is therefore a list
of patches that do not overlap, and the reader finds each of them.
-/
namespace Eider.Guarantees.ExpertLayers
open Lib Lib.ByteReader Lib.Patch Source Source.Deepseek4 List
open Guarantees.ExpertFiles

variable {manifest : Manifest} {layout : RecordLayout} {path : String} {layer expert : Nat}
variable {weights : HotExpert} {experts : Nat → HotExpert} {header : List UInt8}
variable {load : Nat → Except CudaError HotExpert} {file record : List UInt8} {offset value : Nat}
variable {d : PagedExpertDestination}

/-! ## The header as patches -/

section
variable (manifest : Manifest) (layer : Nat) (layout : RecordLayout)

/-- The patches of the fixed part of a header. -/
def fieldEntries : List (Nat × List UInt8) :=
  (0, nvfp4LayerMagic) ::
    (layerFields manifest layer layout).map fun field => (field.1, toLeBytes 4 field.2.1)

/-- The patches of the scalars of an expert. -/
def scalarEntries (expert : Nat) (weights : HotExpert) : List (Nat × List UInt8) :=
  weights.scalars.zipIdx.map fun entry => (scalarOffset expert entry.2, leF32 entry.1)

variable (experts : Nat → HotExpert)

/-- The patches of a header with its experts. -/
def headerEntries : List (Nat × List UInt8) :=
  fieldEntries manifest layer layout ++
    (List.range manifest.routedExperts).flatMap fun expert => scalarEntries expert (experts expert)

/-- The header of a layer file. -/
def layerHeader : List UInt8 :=
  patches (List.replicate nvfp4LayerHeaderBytes 0) (headerEntries manifest layer layout experts)

/-- A layer file. -/
def layerFile : List UInt8 :=
  layerHeader manifest layer layout experts ++
    (List.range manifest.routedExperts).flatMap fun expert => (experts expert).record

end

/-- The numbers of a header are `u32`, and the scalars fit behind them. -/
structure HeaderFits (manifest : Manifest) (layer : Nat) (layout : RecordLayout) : Prop where
  fields : ∀ field ∈ layerFields manifest layer layout, field.2.1 < 2 ^ 32
  metadata : nvfp4LayerMetadataOffset + manifest.routedExperts * 24 ≤ nvfp4LayerHeaderBytes

theorem fieldEntries_within : ∀ entry ∈ fieldEntries manifest layer layout,
    entry.1 + entry.2.length ≤ nvfp4LayerMetadataOffset := by
  simp [fieldEntries, layerFields, nvfp4LayerMetadataOffset]
  decide

theorem fieldEntries_ahead : (fieldEntries manifest layer layout).Pairwise Ahead := by
  simp [fieldEntries, layerFields, Ahead]
  decide

theorem mem_scalarEntries {entry : Nat × List UInt8} :
    entry ∈ scalarEntries expert weights ↔
      ∃ index < 6, entry = (scalarOffset expert index, leF32 (weights.scalars.getD index 0)) := by
  simp only [scalarEntries, mem_map, Prod.exists, mk_mem_zipIdx_iff_getElem?]
  constructor
  · rintro ⟨value, index, hvalue, rfl⟩
    obtain ⟨hindex, rfl⟩ := List.getElem?_eq_some_iff.mp hvalue
    exact ⟨index, hindex, by
      rw [List.getD_eq_getElem?_getD, hvalue, Option.getD_some]⟩
  · rintro ⟨index, hindex, rfl⟩
    have hinside : index < weights.scalars.length := hindex
    have hvalue := getElem?_eq_getElem hinside
    exact ⟨_, index, hvalue, by rw [getD_eq_getElem?_getD, hvalue, Option.getD_some]⟩

theorem scalarEntries_within : ∀ entry ∈ scalarEntries expert weights,
    nvfp4LayerMetadataOffset + expert * 24 ≤ entry.1 ∧
      entry.1 + entry.2.length ≤ nvfp4LayerMetadataOffset + (expert + 1) * 24 := by
  intro entry hentry
  obtain ⟨index, hindex, rfl⟩ := mem_scalarEntries.mp hentry
  simp only [length_leF32, scalarOffset]
  omega

theorem scalarEntries_ahead : (scalarEntries expert weights).Pairwise Ahead := by
  simp [scalarEntries, HotExpert.scalars, Ahead, scalarOffset]

theorem headerEntries_ahead : (headerEntries manifest layer layout experts).Pairwise Ahead := by
  rw [headerEntries, pairwise_append]
  refine ⟨fieldEntries_ahead, ?_, ?_⟩
  · rw [pairwise_flatMap]
    refine ⟨fun expert _ => scalarEntries_ahead, ?_⟩
    refine pairwise_lt_range.imp fun {first second} hlt entry hentry other hother => ?_
    have hend := (scalarEntries_within entry hentry).2
    have hstart := (scalarEntries_within other hother).1
    unfold Ahead
    omega
  · intro entry hentry other hother
    obtain ⟨expert, -, hother⟩ := mem_flatMap.mp hother
    have hend := fieldEntries_within entry hentry
    have hstart := (scalarEntries_within other hother).1
    unfold Ahead
    omega

theorem headerEntries_within (experts : Nat → HotExpert) (h : HeaderFits manifest layer layout) :
    ∀ entry ∈ headerEntries manifest layer layout experts,
      entry.1 + entry.2.length ≤ (List.replicate nvfp4LayerHeaderBytes (0 : UInt8)).length := by
  intro entry hentry
  have hmetadata := h.metadata
  rw [length_replicate]
  rcases mem_append.mp hentry with hfield | hscalar
  · have hend := fieldEntries_within entry hfield
    omega
  · obtain ⟨expert, hexpert, hscalar⟩ := mem_flatMap.mp hscalar
    have hend := (scalarEntries_within entry hscalar).2
    have hlt := mem_range.mp hexpert
    omega

theorem length_layerHeader (experts : Nat → HotExpert) (h : HeaderFits manifest layer layout) :
    (layerHeader manifest layer layout experts).length = nvfp4LayerHeaderBytes := by
  rw [layerHeader, length_patches (headerEntries_within experts h), length_replicate]

section
variable (h : HeaderFits manifest layer layout)
include h

theorem slice_layerHeader {entry : Nat × List UInt8}
    (hentry : entry ∈ headerEntries manifest layer layout experts) :
    slice (layerHeader manifest layer layout experts) entry.1 entry.2.length = entry.2 :=
  slice_patches headerEntries_ahead (headerEntries_within experts h) hentry

/-- The fixed part of a header, which both formats of a file begin with. -/
theorem slice_layerHeader_field
    {field : Nat × Nat × String} (hfield : field ∈ layerFields manifest layer layout) :
    slice (layerHeader manifest layer layout experts) field.1 4 = toLeBytes 4 field.2.1 := by
  have hentry : (field.1, toLeBytes 4 field.2.1) ∈ headerEntries manifest layer layout experts :=
    mem_append_left _ (mem_cons_of_mem _ (mem_map_of_mem hfield))
  have hslice := slice_layerHeader h hentry
  rwa [length_toLeBytes] at hslice

theorem slice_layerHeader_magic :
    slice (layerHeader manifest layer layout experts) 0 8 = nvfp4LayerMagic :=
  slice_layerHeader h (mem_append_left _ mem_cons_self)

theorem slice_layerHeader_scalar
    (hexpert : expert < manifest.routedExperts) {index : Nat} (hindex : index < 6) :
    slice (layerHeader manifest layer layout experts) (scalarOffset expert index) 4 =
      leF32 ((experts expert).scalars.getD index 0) := by
  have hentry : (scalarOffset expert index, leF32 ((experts expert).scalars.getD index 0)) ∈
      headerEntries manifest layer layout experts := by
    refine mem_append_right _ (mem_flatMap.mpr ⟨expert, mem_range.mpr hexpert, ?_⟩)
    exact mem_scalarEntries.mpr ⟨index, hindex, rfl⟩
  have hslice := slice_layerHeader h hentry
  rwa [length_leF32] at hslice

end

/-! ## The writer -/

variable {fields : List (Nat × Nat × String)}

theorem foldlM_writeField (h : ∀ field ∈ fields, field.2.1 < 2 ^ 32) :
    fields.foldlM writeField header =
      .ok (patches header (fields.map fun field => (field.1, toLeBytes 4 field.2.1))) := by
  induction fields generalizing header with
  | nil => rfl
  | cons field rest ih =>
    have hfield : writeField header field = .ok (patch header field.1 (toLeBytes 4 field.2.1)) := by
      rw [writeField, leU32_ok_iff.mpr ⟨h field mem_cons_self, rfl⟩]
      rfl
    rw [foldlM_cons, hfield]
    exact ih fun other hother => h other (mem_cons_of_mem _ hother)

theorem fields_fit_of_foldlM {result : List UInt8}
    (h : fields.foldlM writeField header = .ok result) : ∀ field ∈ fields, field.2.1 < 2 ^ 32 := by
  induction fields generalizing header with
  | nil => nofun
  | cons field rest ih =>
    obtain ⟨_, hfield, hrest⟩ := bind_ok h
    obtain ⟨_, hbytes, -⟩ := bind_ok hfield
    exact forall_mem_cons.mpr ⟨(leU32_ok_iff.mp hbytes).1, ih hrest⟩

theorem writeScalars_eq (header : List UInt8) (expert : Nat) (weights : HotExpert) :
    writeScalars header expert weights.scalars = patches header (scalarEntries expert weights) := by
  rw [writeScalars, patches, scalarEntries, foldl_map]

section
variable (hsized : Sized manifest layout)
include hsized

theorem foldlM_writeExpert (n : Nat)
    (h : ∀ expert < n, load expert = .ok (experts expert) ∧ ValidExpert manifest (experts expert)) :
    (List.range n).foldlM (writeExpert manifest load) (header, file) =
      .ok (patches header ((List.range n).flatMap fun expert => scalarEntries expert (experts expert)),
        file ++ (List.range n).flatMap fun expert => (experts expert).record) := by
  induction n with
  | zero => simp [patches, pure, Except.pure]
  | succ n ih =>
    obtain ⟨hload, hvalid⟩ := h n (Nat.lt_succ_self n)
    rw [range_succ, foldlM_append, ih fun expert hlt => h expert (Nat.lt_succ_of_lt hlt)]
    have hstep : ∀ state, writeExpert manifest load state n =
        .ok (patches state.1 (scalarEntries n (experts n)), state.2 ++ (experts n).record) := by
      intro state
      rw [writeExpert, hload]
      simp only [bind, Except.bind]
      rw [(validateHotExpert_ok_iff hsized).mpr hvalid, writeScalars_eq]
      rfl
    simp only [bind, Except.bind, foldlM_cons, foldlM_nil, hstep, flatMap_append,
      flatMap_singleton, patches_append, append_assoc]
    rfl

theorem loaded_of_foldlM (n : Nat) {state result : List UInt8 × List UInt8}
    (h : (List.range n).foldlM (writeExpert manifest load) state = .ok result) :
    ∀ expert < n, ∃ weights, load expert = .ok weights ∧ ValidExpert manifest weights := by
  induction n generalizing result with
  | zero => nofun
  | succ n ih =>
    rw [range_succ, foldlM_append] at h
    obtain ⟨before, hbefore, hlast⟩ := bind_ok h
    obtain ⟨_, hexpert, -⟩ := bind_ok hlast
    obtain ⟨weights, hload, hrest⟩ := bind_ok hexpert
    obtain ⟨_, hvalid, -⟩ := bind_ok hrest
    intro expert hlt
    rcases Nat.lt_succ_iff_lt_or_eq.mp hlt with hlt | rfl
    · exact ih hbefore expert hlt
    · exact ⟨weights, hload, (validateHotExpert_ok_iff hsized).mp hvalid⟩

omit hsized in
/-- The header is written over the place that was kept for it. -/
theorem patch_placeholder (placeholder header records : List UInt8)
    (h : header.length = placeholder.length) :
    patch (placeholder ++ records) 0 header = header ++ records := by
  rw [patch, take_zero, nil_append, Nat.zero_add, h, drop_left]

/-- What the writer has seen where it publishes a file. -/
structure Written (manifest : Manifest) (layer : Nat) (layout : RecordLayout)
    (load : Nat → Except CudaError HotExpert) (experts : Nat → HotExpert) : Prop where
  place : layer < manifest.layers ∧ 0 < manifest.routedExperts
  fits : HeaderFits manifest layer layout
  loaded : ∀ expert < manifest.routedExperts,
    load expert = .ok (experts expert) ∧ ValidExpert manifest (experts expert)
  length : (layerFile manifest layer layout experts).length < 2 ^ 63

omit hsized in
theorem validateLayerExpert_ok_iff :
    validateLayerExpert manifest layer expert = .ok () ↔
      layer < manifest.layers ∧ expert < manifest.routedExperts := by
  rw [validateLayerExpert, rejectIf_eq_ok_iff]
  omega

section
variable (hfits : HeaderFits manifest layer layout)
include hfits

/-- The writer's loop ends with the header and the records of the file. -/
theorem writer_state (h : ∀ expert < manifest.routedExperts,
      load expert = .ok (experts expert) ∧ ValidExpert manifest (experts expert)) :
    ∃ placeholder : List UInt8, placeholder.length = nvfp4LayerHeaderBytes ∧
      (layerFields manifest layer layout).foldlM writeField
          (patch (List.replicate nvfp4LayerHeaderBytes 0) 0 nvfp4LayerMagic) =
        .ok placeholder ∧ (List.range manifest.routedExperts).foldlM (writeExpert manifest load)
          (placeholder, placeholder) =
        .ok (layerHeader manifest layer layout experts,
          placeholder ++ (List.range manifest.routedExperts).flatMap fun expert =>
            (experts expert).record) := by
  have hwithin : ∀ entry ∈ fieldEntries manifest layer layout,
      entry.1 + entry.2.length ≤ (replicate nvfp4LayerHeaderBytes (0 : UInt8)).length :=
    fun entry hentry => headerEntries_within experts hfits entry (mem_append_left _ hentry)
  refine ⟨patches (replicate nvfp4LayerHeaderBytes 0) (fieldEntries manifest layer layout),
    ?_, ?_, ?_⟩
  · rw [length_patches hwithin, length_replicate]
  · rw [foldlM_writeField hfits.fields, fieldEntries, patches_cons]
  · rw [foldlM_writeExpert hsized _ h, ← patches_append, layerHeader, headerEntries]

omit hfits in
omit hsized in
theorem writeNvfp4ExpertLayer_ok_iff (path : String)
    (hlayout : RecordLayout.new manifest = .ok layout) :
    writeNvfp4ExpertLayer path manifest layer load = .ok file ↔
      ∃ experts, Written manifest layer layout load experts ∧
        file = layerFile manifest layer layout experts := by
  have hsized := layout_sized hlayout
  constructor
  · intro h
    obtain ⟨_, hplace, h⟩ := bind_ok h
    obtain ⟨_, hsame, h⟩ := bind_ok h
    rw [hlayout] at hsame
    cases hsame
    obtain ⟨_, -, h⟩ := bind_ok h
    obtain ⟨_, hmetadata, h⟩ := bind_ok h
    obtain ⟨header, hheader, h⟩ := bind_ok h
    obtain ⟨state, hstate, h⟩ := bind_ok h
    have hfits : HeaderFits manifest layer layout := by
      refine ⟨fields_fit_of_foldlM hheader, ?_⟩
      have hlt := not_lt.mp (rejectIf_ok hmetadata)
      omega
    have hloaded := loaded_of_foldlM hsized _ hstate
    have hchosen : ∀ expert, ∃ weights, expert < manifest.routedExperts →
        load expert = .ok weights ∧ ValidExpert manifest weights := by
      intro expert
      by_cases hlt : expert < manifest.routedExperts
      · obtain ⟨weights, hweights⟩ := hloaded expert hlt
        exact ⟨weights, fun _ => hweights⟩
      · exact ⟨⟨⟨"", 0, 0, [], [], 0, 0⟩, ⟨"", 0, 0, [], [], 0, 0⟩, ⟨"", 0, 0, [], [], 0, 0⟩⟩,
          fun hlt' => absurd hlt' hlt⟩
    choose experts hexperts using hchosen
    obtain ⟨placeholder, hlength, hfields, hrun⟩ := writer_state hsized hfits hexperts
    rw [hfields] at hheader
    cases hheader
    rw [hrun] at hstate
    cases hstate
    dsimp only at h
    rw [patch_placeholder _ _ _ ((length_layerHeader experts hfits).trans hlength.symm)] at h
    obtain ⟨hshort, rfl⟩ := writeFile_ok_iff.mp h
    have hplace := validateLayerExpert_ok_iff.mp hplace
    exact ⟨experts, ⟨hplace, hfits, hexperts, hshort⟩, rfl⟩
  · rintro ⟨experts, hwritten, rfl⟩
    obtain ⟨placeholder, hlength, hfields, hrun⟩ :=
      writer_state hsized hwritten.fits hwritten.loaded
    have hmetadata := hwritten.fits.metadata
    have hbytes : nvfp4LayerHeaderBytes < 2 ^ 64 := by decide
    unfold writeNvfp4ExpertLayer
    rw [validateLayerExpert_ok_iff.mpr hwritten.place, hlayout]
    simp only [bind, Except.bind]
    rw [rejectIf_eq_ok_iff.mpr (by omega)]
    rw [rejectIf_eq_ok_iff.mpr (by omega)]
    rw [hfields]
    dsimp only
    rw [hrun]
    dsimp only
    rw [patch_placeholder _ _ _ ((length_layerHeader experts hwritten.fits).trans hlength.symm)]
    exact writeFile_ok_iff.mpr ⟨hwritten.length, rfl⟩

/-! ## The reader of the header -/

section
variable (hvalid : ∀ expert < manifest.routedExperts, ValidExpert manifest (experts expert))
include hvalid

theorem length_layerFile : (layerFile manifest layer layout experts).length =
      nvfp4LayerHeaderBytes + manifest.routedExperts * layout.recordBytes := by
  have hrecords := length_flatMap_range fun expert hlt =>
    (hvalid expert hlt).record_bytes hsized
  rw [layerFile, length_append, length_layerHeader experts hfits, hrecords]

theorem slice_layerFile (hexpert : expert < manifest.routedExperts) :
    slice (layerFile manifest layer layout experts)
        (nvfp4LayerHeaderBytes + expert * layout.recordBytes) layout.recordBytes =
      (experts expert).record := by
  have hheader := length_layerHeader experts hfits
  rw [layerFile, slice_append_right (by omega), hheader, Nat.add_sub_cancel_left]
  exact slice_flatMap_range (fun expert hlt => (hvalid expert hlt).record_bytes hsized) hexpert

end

end

end

theorem readRecordU32_ok_iff :
    readRecordU32 record offset = .ok value ↔
      offset + 4 ≤ record.length ∧ ofLeBytes (slice record offset 4) = value := by
  constructor
  · intro h
    obtain ⟨_, hinside, h⟩ := bind_ok h
    cases h
    exact ⟨not_lt.mp (rejectIf_ok hinside), rfl⟩
  · rintro ⟨hinside, rfl⟩
    rw [readRecordU32, rejectIf_eq_ok_iff.mpr (by omega)]
    rfl

theorem readRecordF32_leF32 {value : UInt32} (hinside : offset + 4 ≤ record.length)
    (hbytes : slice record offset 4 = leF32 value) (hfinite : isFinite value = true) :
    readRecordF32 record offset = .ok value := by
  rw [readRecordF32, readRecordU32_ok_iff.mpr ⟨hinside, rfl⟩, hbytes]
  simp only [bind, Except.bind, ofNat_leF32]
  rw [rejectIf_eq_ok_iff.mpr (by simp [hfinite])]
  rfl

theorem finite_scalars (h : ValidExpert manifest weights) :
    ∀ value ∈ weights.scalars, isFinite value = true := by
  simp [HotExpert.scalars, h.w1.finite, h.w3.finite, h.w2.finite]

theorem readScalars_layerHeader (hfits : HeaderFits manifest layer layout)
    (hvalid : ValidExpert manifest (experts expert)) (hexpert : expert < manifest.routedExperts) :
    readScalars (layerHeader manifest layer layout experts) expert =
      .ok (experts expert).scalars := by
  have hmetadata := hfits.metadata
  have hread : ∀ index ∈ range 6,
      readRecordF32 (layerHeader manifest layer layout experts) (scalarOffset expert index) =
        .ok ((experts expert).scalars.getD index 0) := by
    intro index hindex
    have hlt := mem_range.mp hindex
    refine readRecordF32_leF32 ?_ (slice_layerHeader_scalar hfits hexpert hlt) ?_
    · rw [length_layerHeader experts hfits, scalarOffset]
      omega
    · have hinside : index < (experts expert).scalars.length := hlt
      apply finite_scalars hvalid
      rw [getD_eq_getElem?_getD, getElem?_eq_getElem hinside, Option.getD_some]
      exact getElem_mem hinside
  rw [readScalars, mapM_eq_ok hread, ← eq_map_range (length_scalars _)]

/-- The header that a manifest implies, in front of a file. -/
structure Headed (manifest : Manifest) (layer : Nat) (layout : RecordLayout) (file : List UInt8) :
    Prop where
  magic : slice file 0 8 = nvfp4LayerMagic
  fields : ∀ field ∈ layerFields manifest layer layout,
    field.2.1 < 2 ^ 32 ∧ slice file field.1 4 = toLeBytes 4 field.2.1

theorem layerFields_within : ∀ field ∈ layerFields manifest layer layout,
    field.1 + 4 ≤ nvfp4LayerHeaderBytes := by
  simp [layerFields, nvfp4LayerHeaderBytes]

theorem ofLeBytes_eq_iff {bytes : List UInt8} (h : bytes.length = 4) :
    ofLeBytes bytes = value ↔ value < 2 ^ 32 ∧ bytes = toLeBytes 4 value := by
  constructor
  · rintro rfl
    have hbytes := toLeBytes_ofLeBytes bytes
    have hlt := ofLeBytes_lt bytes
    rw [h] at hbytes hlt
    exact ⟨hlt, hbytes.symm⟩
  · rintro ⟨hlt, rfl⟩
    exact ofLeBytes_toLeBytes hlt

theorem slice_take {o n : Nat} (h : o + n ≤ nvfp4LayerHeaderBytes) :
    slice (file.take nvfp4LayerHeaderBytes) o n = slice file o n := by
  have hpart : file.take nvfp4LayerHeaderBytes = slice file 0 nvfp4LayerHeaderBytes := by
    rw [slice, drop_zero]
  rw [hpart, slice_slice h, Nat.zero_add]

theorem headed_iff (h : nvfp4LayerHeaderBytes ≤ file.length) :
    Headed manifest layer layout file ↔
      (file.take nvfp4LayerHeaderBytes).take 8 = nvfp4LayerMagic ∧
      (layerFields manifest layer layout).mapM
          (fun field => readRecordU32 (file.take nvfp4LayerHeaderBytes) field.1) =
        .ok ((layerFields manifest layer layout).map fun field => field.2.1) := by
  have hmagic : (file.take nvfp4LayerHeaderBytes).take 8 = slice file 0 8 := by
    rw [← slice_take (by decide), slice, drop_zero]
  have hfield : ∀ field ∈ layerFields manifest layer layout,
      (readRecordU32 (file.take nvfp4LayerHeaderBytes) field.1 = .ok field.2.1 ↔
        field.2.1 < 2 ^ 32 ∧ slice file field.1 4 = toLeBytes 4 field.2.1) := by
    intro field hmem
    have hwithin := layerFields_within field hmem
    have hlength : (file.take nvfp4LayerHeaderBytes).length = nvfp4LayerHeaderBytes :=
      length_take_of_le h
    rw [readRecordU32_ok_iff, hlength, slice_take hwithin,
      ofLeBytes_eq_iff (length_slice (by omega))]
    exact and_iff_right hwithin
  rw [hmagic]
  constructor
  · rintro ⟨hslice, hfields⟩
    exact ⟨hslice, mapM_eq_ok fun field hmem => (hfield field hmem).mpr (hfields field hmem)⟩
  · rintro ⟨hslice, hmap⟩
    refine ⟨hslice, fun field hmem => (hfield field hmem).mp ?_⟩
    have hall := mapM_ok hmap
    rw [forall₂_map_right_iff, forall₂_same] at hall
    exact hall field hmem

theorem readNvfp4LayerHeader_ok_iff {metadata : List (List UInt32)} :
    readNvfp4LayerHeader file path manifest layer layout = .ok metadata ↔
      file.length = nvfp4LayerHeaderBytes + manifest.routedExperts * layout.recordBytes ∧
      file.length < 2 ^ 64 ∧ Headed manifest layer layout file ∧
      (List.range manifest.routedExperts).mapM (readScalars (file.take nvfp4LayerHeaderBytes)) =
        .ok metadata := by
  have hheader : nvfp4LayerHeaderBytes = 8192 := rfl
  constructor
  · intro h
    obtain ⟨_, hlength, h⟩ := bind_ok h
    obtain ⟨_, hfull, h⟩ := bind_ok h
    obtain ⟨stored, hstored, h⟩ := bind_ok h
    obtain ⟨_, hequal, hscalars⟩ := bind_ok h
    have hlength := not_not.mp (rejectIf_ok hlength)
    have hfull := not_lt.mp (rejectIf_ok hfull)
    have hequal := rejectIf_ok hequal
    simp only [not_or, not_not] at hequal
    rw [hequal.2] at hstored
    -- a length that wraps around would be less than that of the header
    refine ⟨by omega, by omega, (headed_iff hfull).mpr ⟨hequal.1, hstored⟩, hscalars⟩
  · rintro ⟨hlength, hlt, hheaded, hscalars⟩
    have hfull : nvfp4LayerHeaderBytes ≤ file.length := by omega
    obtain ⟨hmagic, hstored⟩ := (headed_iff hfull).mp hheaded
    unfold readNvfp4LayerHeader
    rw [rejectIf_eq_ok_iff.mpr (by omega)]
    simp only [bind, Except.bind]
    rw [rejectIf_eq_ok_iff.mpr (by omega)]
    rw [hstored]
    dsimp only
    rw [rejectIf_eq_ok_iff.mpr (by simp [hmagic])]
    exact hscalars

theorem open_layerFile (path : String) (hlayout : RecordLayout.new manifest = .ok layout)
    (h : Written manifest layer layout load experts) :
    LayerSource.open path (layerFile manifest layer layout experts) manifest layer =
      .ok ⟨layerFile manifest layer layout experts, path, manifest, layer, layout,
        (List.range manifest.routedExperts).map fun expert => (experts expert).scalars⟩ := by
  have hvalid := fun expert hlt => (h.loaded expert hlt).2
  have hlength := length_layerFile (layout_sized hlayout) h.fits hvalid
  have hheader := length_layerHeader experts h.fits
  have htake : (layerFile manifest layer layout experts).take nvfp4LayerHeaderBytes =
      layerHeader manifest layer layout experts := by
    rw [layerFile, ← hheader, take_left]
  have hheaded : Headed manifest layer layout (layerFile manifest layer layout experts) := by
    refine ⟨?_, fun field hfield => ⟨h.fits.fields field hfield, ?_⟩⟩
    · rw [← slice_take (by decide), htake, slice_layerHeader_magic h.fits]
    · rw [← slice_take (layerFields_within field hfield), htake,
        slice_layerHeader_field h.fits hfield]
  have hscalars := mapM_eq_ok fun expert hexpert =>
    readScalars_layerHeader h.fits (hvalid expert (mem_range.mp hexpert))
      (mem_range.mp hexpert)
  have hread : readNvfp4LayerHeader (layerFile manifest layer layout experts) path manifest layer
      layout = .ok ((range manifest.routedExperts).map fun expert =>
        (experts expert).scalars) := by
    rw [readNvfp4LayerHeader_ok_iff, htake]
    exact ⟨hlength, h.length.trans (by decide), hheaded, hscalars⟩
  rw [LayerSource.open, validateLayerExpert_ok_iff.mpr h.place, hlayout]
  simp only [bind, Except.bind]
  rw [hread]
  rfl

/-! ## Vectored reads -/

/-- The calls that read. -/
def Pread.reads : Pread → Bool
  | .read _ => true
  | _ => false

/-- Calls that do not fail, and enough of them for any way to cut the bytes. -/
structure Served (preads : List Pread) (bytes : Nat) : Prop where
  sound : ∀ pread ∈ preads, ∀ error, pread ≠ .failed error
  enough : bytes ≤ preads.countP Pread.reads

/-- Lengths whose first one is not used up. -/
def Open (left : List Nat) : Prop := left ≠ [] → 0 < left.sum

theorem advanceSlices_spec {left : List Nat} {bytes : Nat} (h : bytes ≤ left.sum) :
    (advanceSlices left bytes).sum = left.sum - bytes ∧
      (advanceSlices left bytes).length ≤ left.length ∧ Open (advanceSlices left bytes) := by
  induction left generalizing bytes with
  | nil =>
    refine ⟨?_, Nat.le_refl _, fun hne => absurd rfl hne⟩
    rw [advanceSlices, sum_nil, Nat.zero_sub]
  | cons first rest ih =>
    rw [sum_cons] at h ⊢
    rw [advanceSlices]
    split
    · refine ⟨?_, Nat.le_refl _, fun _ => ?_⟩
      · rw [sum_cons]
        omega
      · rw [sum_cons]
        omega
    · obtain ⟨hsum, hlength, hopen⟩ := ih (by omega : bytes - first ≤ rest.sum)
      refine ⟨by omega, ?_, hopen⟩
      rw [length_cons]
      omega

/-- The buffers are filled with the bytes of the file, however the calls cut them. -/
theorem readExactVectoredAt_served {preads : List Pread} {left : List Nat}
    (h : Served preads left.sum) (hopen : Open left) (hfew : left.length ≤ 6)
    (hinside : offset + left.sum ≤ file.length) (hlength : file.length < 2 ^ 63) :
    readExactVectoredAt file preads left offset = some (.ok (slice file offset left.sum)) := by
  induction preads generalizing left offset with
  | nil =>
    have hempty : left = [] := by
      by_contra hne
      have hpos := hopen hne
      have hzero := h.enough
      rw [countP_nil] at hzero
      omega
    subst hempty
    simp [readExactVectoredAt, slice]
  | cons pread preads ih =>
    cases left with
    | nil => simp [readExactVectoredAt, slice]
    | cons first rest =>
      have hsound : ∀ other ∈ preads, ∀ error, other ≠ .failed error :=
        fun other hother => h.sound other (mem_cons_of_mem _ hother)
      have henough := h.enough
      cases pread with
      | interrupted =>
        rw [readExactVectoredAt]
        · exact ih ⟨hsound, henough⟩ hopen hfew hinside
        · exact cons_ne_nil _ _
      | failed error => exact absurd rfl (h.sound _ mem_cons_self error)
      | read most =>
        have hpos := hopen (cons_ne_nil _ _)
        rw [countP_cons_of_pos (by simp [Pread.reads])] at henough
        obtain ⟨bytes, hbytes⟩ : ∃ bytes, bytes =
            min (most + 1) (min (first :: rest).sum (file.length - offset)) := ⟨_, rfl⟩
        have hle : bytes ≤ (first :: rest).sum := by omega
        obtain ⟨hsum, hshort, hrest⟩ := advanceSlices_spec hle
        rw [readExactVectoredAt]
        · rw [← hbytes, if_neg (by omega), if_neg (by omega), if_neg (by omega),
            ih ⟨hsound, by omega⟩ hrest (by omega) (by omega)]
          rw [Option.map_some, Except.map, ← slice_add, hsum]
          congr 3
          omega
        · exact cons_ne_nil _ _

/-! ## Records -/

/-- A destination that the slots of the layer provide. -/
structure Provided (layout : RecordLayout) (d : PagedExpertDestination) : Prop where
  layout_eq : d.layout = layout
  sizes : ∀ slot ∈ [d.w1, d.w3, d.w2],
    slot.packedLength = layout.packedBytes ∧ slot.scaleLength = layout.scaleBytes
  aligned : ∀ buffer ∈ d.buffers, buffer.1 % directIoAlignment = 0

theorem Provided.lengths (h : Provided layout d) :
    d.buffers.map Prod.snd = [layout.packedBytes, layout.scaleBytes, layout.packedBytes,
      layout.scaleBytes, layout.packedBytes, layout.scaleBytes] := by
  have h1 := h.sizes d.w1 (by simp)
  have h3 := h.sizes d.w3 (by simp)
  have h2 := h.sizes d.w2 (by simp)
  simp [PagedExpertDestination.buffers, h1, h3, h2]

theorem forM_ok {α : Type} {check : α → Except CudaError Unit} {xs : List α}
    (h : ∀ x ∈ xs, check x = .ok ()) : xs.forM check = .ok () := by
  induction xs with
  | nil => rfl
  | cons x rest ih =>
    rw [List.forM, h x List.mem_cons_self]
    exact ih fun y hy => h y (List.mem_cons_of_mem _ hy)

theorem checkDestination_ok {source : LayerSource} (hsized : Sized source.manifest source.layout)
    (h : Provided source.layout d) (hlayer : source.layer < source.manifest.layers)
    (hexpert : expert < source.manifest.routedExperts)
    (hoffset : nvfp4LayerHeaderBytes + expert * source.layout.recordBytes < 2 ^ 64) :
    checkDestination source expert d = .ok () := by
  have hbuffers : ∀ buffer ∈ d.buffers, buffer.2 % directIoAlignment = 0 := by
    intro buffer hbuffer
    have hlength : buffer.2 ∈ d.buffers.map Prod.snd := mem_map_of_mem hbuffer
    rw [h.lengths] at hlength
    simp only [mem_cons, not_mem_nil, or_false] at hlength
    rcases hlength with hl | hl | hl | hl | hl | hl
    all_goals
      rw [hl]
      first
      | exact hsized.packedAligned
      | exact hsized.scaleAligned
  have hmatch : ¬ (d.layout ≠ source.layout ∨ [d.w1, d.w3, d.w2].any fun slot =>
      slot.packedLength ≠ d.layout.packedBytes ∨ slot.scaleLength ≠ d.layout.scaleBytes) := by
    have h1 := h.sizes d.w1 (by simp)
    have h3 := h.sizes d.w3 (by simp)
    have h2 := h.sizes d.w2 (by simp)
    simp [h.layout_eq, h1, h3, h2]
  unfold checkDestination
  rw [validateLayerExpert_ok_iff.mpr ⟨hlayer, hexpert⟩]
  simp only [bind, Except.bind]
  rw [rejectIf_eq_ok_iff.mpr hmatch]
  rw [forM_ok fun buffer hbuffer => rejectIf_eq_ok_iff.mpr ?_]
  · exact rejectIf_eq_ok_iff.mpr (by omega)
  · simp [h.aligned buffer hbuffer, hbuffers buffer hbuffer]

/-- What the slots hold of an expert. -/
def paged (weights : HotExpert) : PagedExpert where
  w1 := ⟨weights.w1.packedWeight, weights.w1.weightScale, weights.w1.weightScale2⟩
  w3 := ⟨weights.w3.packedWeight, weights.w3.weightScale, weights.w3.weightScale2⟩
  w2 := ⟨weights.w2.packedWeight, weights.w2.weightScale, weights.w2.weightScale2⟩

theorem slice_matrix {linear : Linear} (before after : List UInt8) {o : Nat}
    (h : record = before ++ ((linear.packedWeight ++ linear.weightScale) ++ after))
    (ho : before.length = o) (hpacked : linear.packedWeight.length = layout.packedBytes)
    (hscale : linear.weightScale.length = layout.scaleBytes) :
    slice record o layout.packedBytes = linear.packedWeight ∧
      slice record (o + layout.packedBytes) layout.scaleBytes = linear.weightScale := by
  rw [append_assoc] at h
  constructor
  · exact slice_middle before _ h ho hpacked
  · rw [← append_assoc] at h
    exact slice_middle _ after h (by rw [length_append, ho, hpacked]) hscale

theorem ofRecord_record (hsized : Sized manifest layout) (hvalid : ValidExpert manifest weights) :
    PagedExpert.ofRecord layout weights.record weights.scalars = paged weights := by
  have hsize : ∀ rows cols linear, ValidLinear rows cols linear →
      rows * cols = manifest.hidden * manifest.expertIntermediate →
      linear.packedWeight.length = layout.packedBytes ∧
        linear.weightScale.length = layout.scaleBytes := by
    intro rows cols linear hlinear hcount
    rw [hsized.packed, hsized.scale, hlinear.packed, hlinear.scale, hcount]
    exact ⟨rfl, rfl⟩
  have hcomm := Nat.mul_comm manifest.expertIntermediate manifest.hidden
  obtain ⟨p1, s1⟩ := hsize _ _ _ hvalid.w1 hcomm
  obtain ⟨p3, s3⟩ := hsize _ _ _ hvalid.w3 hcomm
  obtain ⟨p2, s2⟩ := hsize _ _ _ hvalid.w2 rfl
  have hrecord := record_eq weights
  have hlast : weights.record = (weights.w1.packedWeight ++ weights.w1.weightScale ++
      (weights.w3.packedWeight ++ weights.w3.weightScale)) ++
        ((weights.w2.packedWeight ++ weights.w2.weightScale) ++ []) := by
    simp only [hrecord, append_nil, append_assoc]
  obtain ⟨hp1, hs1⟩ := slice_matrix [] _ hrecord (Nat.zero_mul _).symm p1 s1
  obtain ⟨hp3, hs3⟩ := slice_matrix (o := 1 * (layout.packedBytes + layout.scaleBytes)) _ _ hrecord
    (by rw [length_append, p1, s1, Nat.one_mul]) p3 s3
  obtain ⟨hp2, hs2⟩ := slice_matrix (o := 2 * (layout.packedBytes + layout.scaleBytes)) _ [] hlast
    (by simp only [length_append, p1, s1, p3, s3]; omega) p2 s2
  unfold PagedExpert.ofRecord
  dsimp only
  rw [hp1, hs1, hp3, hs3, hp2, hs2]
  rfl

theorem readRecordIntoSlot_served {preads : List Pread}
    (hlayout : RecordLayout.new manifest = .ok layout)
    (hpositive : 0 < manifest.hidden * manifest.expertIntermediate)
    (h : Written manifest layer layout load experts) (hexpert : expert < manifest.routedExperts)
    (hprovided : Provided layout d) (hserved : Served preads layout.recordBytes) :
    readRecordIntoSlot ⟨layerFile manifest layer layout experts, path, manifest, layer, layout,
        (List.range manifest.routedExperts).map fun expert => (experts expert).scalars⟩
        expert d preads = some (.ok (paged (experts expert))) := by
  have hsized := layout_sized hlayout
  have hvalid := fun expert hlt => (h.loaded expert hlt).2
  have hlength := length_layerFile hsized h.fits hvalid
  have hshort := h.length
  have hend : expert * layout.recordBytes + layout.recordBytes ≤
      manifest.routedExperts * layout.recordBytes := by
    rw [← Nat.succ_mul]
    exact Nat.mul_le_mul_right _ hexpert
  have hsum : (d.buffers.map Prod.snd).sum = layout.recordBytes := by
    rw [hprovided.lengths, hsized.record]
    simp only [sum_cons, sum_nil]
    omega
  have hrecord : 0 < layout.recordBytes := by
    have hblocks := hsized.blocks
    rw [hsized.record, hsized.packed]
    omega
  have hfew : (d.buffers.map Prod.snd).length ≤ 6 := by
    exact Nat.le_refl 6
  have hinside : nvfp4LayerHeaderBytes + expert * layout.recordBytes +
      (d.buffers.map Prod.snd).sum ≤ (layerFile manifest layer layout experts).length := by omega
  have hread := readExactVectoredAt_served (hsum.symm ▸ hserved) (fun _ => hsum.symm ▸ hrecord) hfew
    hinside hshort
  rw [hsum, slice_layerFile hsized h.fits hvalid hexpert] at hread
  have hoffset : nvfp4LayerHeaderBytes + expert * layout.recordBytes < 2 ^ 64 := by omega
  have hscalars : ((range manifest.routedExperts).map fun expert =>
      (experts expert).scalars).getD expert [] = (experts expert).scalars := by
    simp [hexpert]
  rw [readRecordIntoSlot, checkDestination_ok hsized hprovided h.place.1 hexpert hoffset]
  dsimp only
  rw [hread]
  dsimp only
  rw [hscalars, ofRecord_record hsized (hvalid expert hexpert)]

/-! ## Both formats -/

/-- Two headers in front of one file have the same numbers. -/
theorem Headed.field_eq {manifest' : Manifest} {layer' : Nat} {layout' : RecordLayout}
    (h : Headed manifest layer layout file) (h' : Headed manifest' layer' layout' file)
    (offset : Nat) (name : String) {value' : Nat}
    (hfield : (offset, value, name) ∈ layerFields manifest layer layout)
    (hfield' : (offset, value', name) ∈ layerFields manifest' layer' layout') : value = value' := by
  obtain ⟨hlt, hslice⟩ := h.fields _ hfield
  obtain ⟨hlt', hslice'⟩ := h'.fields _ hfield'
  exact toLeBytes_inj hlt hlt' (hslice.symm.trans hslice')

theorem open_headed {source : LayerSource}
    (h : LayerSource.open path file manifest layer = .ok source) :
    ∃ layout, RecordLayout.new manifest = .ok layout ∧
      file.length = nvfp4LayerHeaderBytes + manifest.routedExperts * layout.recordBytes ∧
      Headed manifest layer layout file := by
  obtain ⟨_, -, h⟩ := bind_ok h
  obtain ⟨layout, hlayout, h⟩ := bind_ok h
  obtain ⟨metadata, hread, -⟩ := bind_ok h
  obtain ⟨hlength, -, hheaded, -⟩ := readNvfp4LayerHeader_ok_iff.mp hread
  exact ⟨layout, hlayout, hlength, hheaded⟩

/-- What both formats keep of an accepted layout: a layer file is opened and each of its experts
is read into its slots, a file of one expert is read back with the tensors named after its
place, and neither reader accepts a file of another length, header, place or shape. -/
theorem expert_files_read_back (hlayout : RecordLayout.new manifest = .ok layout) :
    (∀ writer reader layer load file,
      writeNvfp4ExpertLayer writer manifest layer load = .ok file →
      nvfp4LayerMetadataOffset + manifest.routedExperts * 24 ≤ nvfp4LayerHeaderBytes ∧
      ∃ source, LayerSource.open reader file manifest layer = .ok source ∧
        ∀ expert < manifest.routedExperts, ∃ weights, load expert = .ok weights ∧
          slice file (nvfp4LayerHeaderBytes + expert * layout.recordBytes) layout.recordBytes =
            weights.record ∧
          (0 < manifest.hidden * manifest.expertIntermediate → ∀ d preads, Provided layout d →
            Served preads layout.recordBytes →
            readRecordIntoSlot source expert d preads = some (.ok (paged weights)))) ∧
    (∀ writer reader layer expert weights file,
      writeHotExpert writer manifest layer expert weights = .ok file →
      ∃ requests, readHotExpert reader manifest layer expert ⟨file, 0, []⟩ =
        .ok (named layer expert weights) ⟨file, file.length, requests⟩) ∧
    (∀ reader layer file source, LayerSource.open reader file manifest layer = .ok source →
      file.length = nvfp4LayerHeaderBytes + manifest.routedExperts * layout.recordBytes ∧
      Headed manifest layer layout file ∧
      ∀ reader' manifest' layer' source',
        LayerSource.open reader' file manifest' layer' = .ok source' →
        layer = layer' ∧ manifest.routedExperts = manifest'.routedExperts ∧
          manifest.hidden = manifest'.hidden ∧
          manifest.expertIntermediate = manifest'.expertIntermediate) ∧
    ∀ reader layer expert file weights s,
      readHotExpert reader manifest layer expert ⟨file, 0, []⟩ = .ok weights s →
      file.length = 52 + layout.recordBytes ∧ file.take 28 = hotHeader manifest layer expert ∧
      ∀ reader' manifest' layer' expert' weights' s',
        readHotExpert reader' manifest' layer' expert' ⟨file, 0, []⟩ = .ok weights' s' →
        layer = layer' ∧ expert = expert' ∧ manifest.hidden = manifest'.hidden ∧
          manifest.expertIntermediate = manifest'.expertIntermediate := by
  have hsized := layout_sized hlayout
  have htake : ∀ (m : Manifest) (l e : Nat) (weights : HotExpert),
      (hotFile m l e weights).take 28 = hotHeader m l e := by
    intro m l e weights
    rw [hotFile, take_left' length_hotHeader]
  refine ⟨?_, ?_, ?_, ?_⟩
  · intro writer reader layer load file hwrite
    obtain ⟨experts, hwritten, rfl⟩ := (writeNvfp4ExpertLayer_ok_iff _ hlayout).mp hwrite
    refine ⟨hwritten.fits.metadata, _, open_layerFile _ hlayout hwritten, fun expert hexpert => ?_⟩
    have hvalid := fun expert hlt => (hwritten.loaded expert hlt).2
    refine ⟨experts expert, (hwritten.loaded expert hexpert).1,
      slice_layerFile hsized hwritten.fits hvalid hexpert, ?_⟩
    intro hpositive d preads hprovided hserved
    exact readRecordIntoSlot_served hlayout hpositive hwritten hexpert hprovided hserved
  · intro writer reader layer expert weights file hwrite
    obtain ⟨hvalid, hfits, hlength, rfl⟩ := (writeHotExpert_ok_iff hsized).mp hwrite
    exact readHotExpert_hotFile hsized hvalid hfits hlength
  · intro reader layer file source hopen
    obtain ⟨_, hsame, hlength, hheaded⟩ := open_headed hopen
    rw [hlayout] at hsame
    cases hsame
    refine ⟨hlength, hheaded, fun reader' manifest' layer' source' hopen' => ?_⟩
    obtain ⟨_, -, -, hheaded'⟩ := open_headed hopen'
    refine ⟨hheaded.field_eq hheaded' 12 "layer" ?_ ?_,
      hheaded.field_eq hheaded' 16 "experts" ?_ ?_, hheaded.field_eq hheaded' 20 "hidden" ?_ ?_,
      hheaded.field_eq hheaded' 24 "intermediate" ?_ ?_⟩
    all_goals simp [layerFields]
  · intro reader layer expert file weights s hread
    obtain ⟨rfl, hfits, hvalid, -⟩ := readHotExpert_accepts hread
    refine ⟨?_, htake _ _ _ _, ?_⟩
    · rw [length_hotFile, hvalid.record_bytes hsized]
    · intro reader' manifest' layer' expert' weights' s' hread'
      obtain ⟨hfile, hfits', -, -⟩ := readHotExpert_accepts hread'
      have hheaders := congrArg (take 28) hfile
      exact hotHeader_inj hfits hfits' hheaders

/-! ### Small files -/

/-- A validated matrix of zeros. -/
def blankLinear (tensor : String) (rows cols : Nat) : Linear :=
  ⟨tensor, rows, cols, List.replicate (rows * cols / 2) 0, List.replicate (rows * cols / 16) 0,
    0x3f800000, 0x3f800000⟩

def blankExpert (manifest : Manifest) : HotExpert where
  w1 := blankLinear "w1" manifest.expertIntermediate manifest.hidden
  w3 := blankLinear "w3" manifest.expertIntermediate manifest.hidden
  w2 := blankLinear "w2" manifest.hidden manifest.expertIntermediate

theorem blankExpert_valid (manifest : Manifest) : ValidExpert manifest (blankExpert manifest) := by
  have hfinite : isFinite 0x3f800000 = true := by decide
  have hlinear : ∀ tensor rows cols, ValidLinear rows cols (blankLinear tensor rows cols) :=
    fun tensor rows cols =>
      ⟨rfl, rfl, length_replicate, length_replicate, hfinite, hfinite⟩
  exact ⟨hlinear _ _ _, hlinear _ _ _, hlinear _ _ _⟩

/-- One expert of one layer. -/
def singleManifest (size : Nat) : Manifest := ⟨size, 1, 1, size⟩

/-- Aligned slots for the layout. -/
def slots (layout : RecordLayout) : PagedExpertDestination :=
  let slot : LinearSlot := ⟨0, layout.packedBytes, 0, layout.scaleBytes⟩
  ⟨slot, slot, slot, layout⟩

theorem slots_provided (layout : RecordLayout) : Provided layout (slots layout) := by
  refine ⟨rfl, ?_, ?_⟩
  · simp [slots]
  · simp [slots, PagedExpertDestination.buffers]

theorem single_written {size : Nat} (hlayout : RecordLayout.new (singleManifest size) = .ok layout)
    (hsmall : size < 2 ^ 15) :
    Written (singleManifest size) 0 layout (fun _ => .ok (blankExpert (singleManifest size)))
      fun _ => blankExpert (singleManifest size) := by
  have hsized := layout_sized hlayout
  have hproduct : size * size < 2 ^ 15 * 2 ^ 15 := Nat.mul_lt_mul'' hsmall hsmall
  have hrecord : layout.recordBytes = (size * size / 2 + size * size / 16) * 3 := by
    rw [hsized.record, hsized.packed, hsized.scale]
    rfl
  have hfits : HeaderFits (singleManifest size) 0 layout := by
    have hmetadata : nvfp4LayerMetadataOffset + 1 * 24 ≤ nvfp4LayerHeaderBytes := by decide
    refine ⟨?_, hmetadata⟩
    have hheader : nvfp4LayerHeaderBytes < 2 ^ 32 := by decide
    have hversion : nvfp4LayerVersion < 2 ^ 32 := by decide
    simp only [layerFields, forall_mem_cons, singleManifest, hversion, hheader]
    refine ⟨trivial, by decide, by decide, by omega, by omega, by omega, trivial, nofun⟩
  refine ⟨⟨Nat.one_pos, Nat.one_pos⟩, hfits, fun _ _ => ⟨rfl, blankExpert_valid _⟩, ?_⟩
  rw [length_layerFile hsized hfits fun _ _ => blankExpert_valid _, hrecord]
  have hheader : nvfp4LayerHeaderBytes = 8192 := rfl
  have hone : (singleManifest size).routedExperts = 1 := rfl
  rw [hone, Nat.one_mul]
  omega

theorem single_hot (path : String) {size : Nat}
    (hlayout : RecordLayout.new (singleManifest size) = .ok layout) (hsmall : size < 2 ^ 15) :
    writeHotExpert path (singleManifest size) 0 0 (blankExpert (singleManifest size)) =
      .ok (hotFile (singleManifest size) 0 0 (blankExpert (singleManifest size))) := by
  have hvalid := blankExpert_valid (singleManifest size)
  have hproduct : size * size < 2 ^ 15 * 2 ^ 15 := Nat.mul_lt_mul'' hsmall hsmall
  have hcount : (singleManifest size).hidden * (singleManifest size).expertIntermediate =
      size * size := rfl
  have hsize : (singleManifest size).hidden < 2 ^ 32 := hsmall.trans (by decide)
  rw [writeHotExpert_ok_iff (layout_sized hlayout)]
  refine ⟨hvalid, ⟨by decide, by decide, hsize, hsize⟩, ?_, rfl⟩
  rw [length_hotFile, hvalid.length_record, hcount]
  omega

/-- A layer file, in reads of at most a page, and a file of one expert with 256 rows and columns
are read back. -/
theorem single_read_back : (∃ file source,
      writeNvfp4ExpertLayer "layer-00.nvf4" (singleManifest 256) 0
          (fun _ => .ok (blankExpert (singleManifest 256))) = .ok file ∧
      LayerSource.open "layer-00.nvf4" file (singleManifest 256) 0 = .ok source ∧
      readRecordIntoSlot source 0 (slots ⟨110592, 32768, 4096⟩)
          (.interrupted :: List.replicate 110592 (.read 4095)) =
        some (.ok (paged (blankExpert (singleManifest 256))))) ∧
    ∃ file requests,
      writeHotExpert "expert-000.nvf4" (singleManifest 256) 0 0
        (blankExpert (singleManifest 256)) = .ok file ∧
      readHotExpert "expert-000.nvf4" (singleManifest 256) 0 0 ⟨file, 0, []⟩ =
        .ok (named 0 0 (blankExpert (singleManifest 256))) ⟨file, file.length, requests⟩ := by
  have hlayout : RecordLayout.new (singleManifest 256) = .ok ⟨110592, 32768, 4096⟩ := by decide
  obtain ⟨hlayer, hhot, -, -⟩ := expert_files_read_back hlayout
  constructor
  · have hwrite := (writeNvfp4ExpertLayer_ok_iff "layer-00.nvf4" hlayout).mpr
      ⟨_, single_written hlayout (by decide), rfl⟩
    obtain ⟨-, source, hopen, hexperts⟩ := hlayer _ "layer-00.nvf4" _ _ _ hwrite
    obtain ⟨weights, hload, -, hread⟩ := hexperts 0 (by decide)
    cases hload
    refine ⟨_, source, hwrite, hopen, hread (by decide) _ _ (slots_provided _) ⟨?_, ?_⟩⟩
    · intro pread hpread error
      rcases mem_cons.mp hpread with rfl | hpread
      · nofun
      · rw [eq_of_mem_replicate hpread]
        nofun
    · rw [countP_cons_of_neg (by simp [Pread.reads]), countP_replicate]
      exact Nat.le_refl _
  · have hwrite := single_hot "expert-000.nvf4" hlayout (by decide)
    obtain ⟨requests, hread⟩ := hhot _ "expert-000.nvf4" _ _ _ _ hwrite
    exact ⟨_, requests, hwrite, hread⟩

/-- Without rows there is nothing to read, which the vectored read takes for the end of the
file; and the names of the tensors are not kept. -/
theorem empty_record_unreadable :
    RecordLayout.new (singleManifest 0) = .ok ⟨0, 0, 0⟩ ∧
    (∃ file source,
      writeNvfp4ExpertLayer "layer-00.nvf4" (singleManifest 0) 0
          (fun _ => .ok (blankExpert (singleManifest 0))) = .ok file ∧
      LayerSource.open "layer-00.nvf4" file (singleManifest 0) 0 = .ok source ∧
      readRecordIntoSlot source 0 (slots ⟨0, 0, 0⟩) [.read 0] =
        some (.error (nvfp4StoreIo "layer-00.nvf4" "unexpected end of file"))) ∧
    ∃ file, writeHotExpert "expert-000.nvf4" (singleManifest 0) 0 0
        (blankExpert (singleManifest 0)) = .ok file ∧
      ∀ s, readHotExpert "expert-000.nvf4" (singleManifest 0) 0 0 ⟨file, 0, []⟩ ≠
        .ok (blankExpert (singleManifest 0)) s := by
  have hlayout : RecordLayout.new (singleManifest 0) = .ok ⟨0, 0, 0⟩ := by decide
  refine ⟨hlayout, ?_, ?_⟩
  · have hwritten := single_written hlayout (by decide)
    have hopen := open_layerFile "layer-00.nvf4" hlayout hwritten
    have hwrite := (writeNvfp4ExpertLayer_ok_iff "layer-00.nvf4" hlayout).mpr ⟨_, hwritten, rfl⟩
    refine ⟨_, _, hwrite, hopen, ?_⟩
    rw [readRecordIntoSlot, checkDestination_ok (layout_sized hlayout) (slots_provided _)
      Nat.one_pos Nat.one_pos (by decide)]
    dsimp only
    rw [(slots_provided _).lengths, readExactVectoredAt]
    · rw [if_neg (by decide), if_neg (by decide), if_pos (by simp)]
    · nofun
  · have hwrite := single_hot "expert-000.nvf4" hlayout (by decide)
    refine ⟨_, hwrite, fun s hread => ?_⟩
    obtain ⟨-, -, -, hnamed⟩ := readHotExpert_accepts hread
    have htensor := congrArg (fun weights => weights.w1.tensor) hnamed
    exact absurd htensor (by decide)

end Eider.Guarantees.ExpertLayers
