import Eider.Source.Deepseek4.ExpertStore

/-!
The expert files of DeepSeek V4 are read back as they were written
(`infer/src/deepseek4.rs`, lines 346 to 415, 534 to 581, 2061 to 2233 and 2375 to 2538).

A layer file holds its scalars in the header and its matrices in records of one size behind it;
a file of one expert holds both in a row. Either reader accepts a file only where its length
and its header are those of the manifest, the layer and, in the second format, the expert.
-/
namespace Eider.Guarantees.ExpertFiles
open Lib.ByteReader Source Source.Deepseek4 List

variable {manifest : Manifest} {layout : RecordLayout} {path : String} {layer expert : Nat}

/-! ## Checks -/

/-- The sizes behind an accepted layout. -/
structure Sized (manifest : Manifest) (layout : RecordLayout) : Prop where
  weights : manifest.hidden * manifest.expertIntermediate < 2 ^ 64
  blocks : manifest.hidden * manifest.expertIntermediate % 16 = 0
  packed : layout.packedBytes = manifest.hidden * manifest.expertIntermediate / 2
  scale : layout.scaleBytes = manifest.hidden * manifest.expertIntermediate / 16
  record : layout.recordBytes = (layout.packedBytes + layout.scaleBytes) * 3
  packedAligned : layout.packedBytes % directIoAlignment = 0
  scaleAligned : layout.scaleBytes % directIoAlignment = 0

theorem layout_sized (h : RecordLayout.new manifest = .ok layout) : Sized manifest layout := by
  obtain ⟨_, hweights, h⟩ := bind_ok h
  obtain ⟨_, hblocks, h⟩ := bind_ok h
  obtain ⟨_, -, h⟩ := bind_ok h
  obtain ⟨_, haligned, h⟩ := bind_ok h
  cases h
  have haligned := rejectIf_ok haligned
  simp only [not_or, not_not] at haligned
  exact ⟨not_le.mp (rejectIf_ok hweights), not_not.mp (rejectIf_ok hblocks), rfl, rfl, rfl,
    haligned.1, haligned.2.1⟩

/-- What the writers check of a matrix. -/
structure ValidLinear (rows cols : Nat) (linear : Linear) : Prop where
  out : linear.outFeatures = rows
  inner : linear.inFeatures = cols
  packed : linear.packedWeight.length = rows * cols / 2
  scale : linear.weightScale.length = rows * cols / 16
  finite : isFinite linear.weightScale2 = true ∧ isFinite linear.inputScale = true

theorem validateHotLinear_ok_iff {linear : Linear} {rows cols : Nat} {label : String}
    (hsize : rows * cols < 2 ^ 64) :
    validateHotLinear linear rows cols label = .ok () ↔ ValidLinear rows cols linear := by
  rw [validateHotLinear, rejectIf_eq_ok_iff, Nat.mod_eq_of_lt hsize]
  simp only [not_or, not_not, Bool.not_eq_false]
  constructor
  · rintro ⟨hout, hin, hpacked, hscale, hfinite, hinput⟩
    exact ⟨hout, hin, hpacked, hscale, hfinite, hinput⟩
  · rintro ⟨hout, hin, hpacked, hscale, hfinite, hinput⟩
    exact ⟨hout, hin, hpacked, hscale, hfinite, hinput⟩

/-- What the writers check of an expert. -/
structure ValidExpert (manifest : Manifest) (weights : HotExpert) : Prop where
  w1 : ValidLinear manifest.expertIntermediate manifest.hidden weights.w1
  w3 : ValidLinear manifest.expertIntermediate manifest.hidden weights.w3
  w2 : ValidLinear manifest.hidden manifest.expertIntermediate weights.w2

variable {weights : HotExpert} {rows cols : Nat}

theorem validateHotExpert_ok_iff (hsized : Sized manifest layout) :
    validateHotExpert manifest weights = .ok () ↔ ValidExpert manifest weights := by
  have hsize := hsized.weights
  have hswapped : manifest.expertIntermediate * manifest.hidden < 2 ^ 64 := by
    rw [Nat.mul_comm]
    exact hsize
  constructor
  · intro h
    obtain ⟨_, h1, h⟩ := bind_ok h
    obtain ⟨_, h3, h2⟩ := bind_ok h
    exact ⟨(validateHotLinear_ok_iff hswapped).mp h1, (validateHotLinear_ok_iff hswapped).mp h3,
      (validateHotLinear_ok_iff hsize).mp h2⟩
  · rintro ⟨h1, h3, h2⟩
    rw [validateHotExpert, (validateHotLinear_ok_iff hswapped).mpr h1,
      (validateHotLinear_ok_iff hswapped).mpr h3, (validateHotLinear_ok_iff hsize).mpr h2]
    rfl

theorem leU32_ok_iff {value : Nat} {error : CudaError} {bytes : List UInt8} :
    leU32 value error = .ok bytes ↔ value < 2 ^ 32 ∧ bytes = toLeBytes 4 value := by
  constructor
  · intro h
    obtain ⟨_, hvalue, h⟩ := bind_ok h
    cases h
    exact ⟨not_le.mp (rejectIf_ok hvalue), rfl⟩
  · rintro ⟨hvalue, rfl⟩
    rw [leU32, rejectIf_eq_ok_iff.mpr (not_le.mpr hvalue)]
    rfl

theorem writeFile_ok_iff {error : String → CudaError} {file result : List UInt8} :
    writeFile error file = .ok result ↔ file.length < 2 ^ 63 ∧ result = file := by
  constructor
  · intro h
    obtain ⟨_, hlength, h⟩ := bind_ok h
    cases h
    exact ⟨not_le.mp (rejectIf_ok hlength), rfl⟩
  · rintro ⟨hlength, rfl⟩
    rw [writeFile, rejectIf_eq_ok_iff.mpr (not_le.mpr hlength)]
    rfl

/-! ## Bytes of an expert -/

@[simp]
theorem length_leF32 (value : UInt32) : (leF32 value).length = 4 := length_toLeBytes 4 _

theorem ofNat_leF32 (value : UInt32) : UInt32.ofNat (ofLeBytes (leF32 value)) = value := by
  have hlt : value.toNat < 256 ^ 4 := value.toNat_lt
  rw [leF32, ofLeBytes_toLeBytes hlt, UInt32.ofNat_toNat]

@[simp]
theorem length_scalars (weights : HotExpert) : weights.scalars.length = 6 := rfl

theorem record_eq (weights : HotExpert) :
    weights.record = (weights.w1.packedWeight ++ weights.w1.weightScale) ++
      ((weights.w3.packedWeight ++ weights.w3.weightScale) ++
        (weights.w2.packedWeight ++ weights.w2.weightScale)) := by
  simp [HotExpert.record]

theorem ValidExpert.length_record (h : ValidExpert manifest weights) :
    weights.record.length = (manifest.hidden * manifest.expertIntermediate / 2 +
      manifest.hidden * manifest.expertIntermediate / 16) * 3 := by
  have hcomm := Nat.mul_comm manifest.expertIntermediate manifest.hidden
  rw [record_eq]
  simp only [length_append, h.w1.packed, h.w1.scale, h.w3.packed, h.w3.scale, h.w2.packed,
    h.w2.scale, hcomm]
  omega

theorem ValidExpert.record_bytes (h : ValidExpert manifest weights)
    (hsized : Sized manifest layout) : weights.record.length = layout.recordBytes := by
  rw [h.length_record, hsized.record, hsized.packed, hsized.scale]

/-! ## Files of one expert -/

/-- The name of each matrix of an expert, as the reader gives it. -/
def named (layer expert : Nat) (weights : HotExpert) : HotExpert where
  w1 := { weights.w1 with tensor := expertTensor layer expert "w1" }
  w3 := { weights.w3 with tensor := expertTensor layer expert "w3" }
  w2 := { weights.w2 with tensor := expertTensor layer expert "w2" }

/-- The header of a file of one expert. -/
def hotHeader (manifest : Manifest) (layer expert : Nat) : List UInt8 :=
  hotExpertMagic ++ (toLeBytes 4 hotExpertVersion ++ (toLeBytes 4 layer ++ (toLeBytes 4 expert ++
    (toLeBytes 4 manifest.hidden ++ toLeBytes 4 manifest.expertIntermediate))))

/-- A file of one expert. -/
def hotFile (manifest : Manifest) (layer expert : Nat) (weights : HotExpert) : List UInt8 :=
  hotHeader manifest layer expert ++ (weights.scalars.flatMap leF32 ++ weights.record)

@[simp]
theorem length_hotHeader : (hotHeader manifest layer expert).length = 28 := by
  rfl

theorem length_hotFile :
    (hotFile manifest layer expert weights).length = 52 + weights.record.length := by
  simp only [hotFile, length_append, length_hotHeader, HotExpert.scalars, flatMap_cons,
    flatMap_nil, length_leF32, length_nil]
  omega

/-- The numbers of a hot header fit into it. -/
structure HotHeaderFits (manifest : Manifest) (layer expert : Nat) : Prop where
  layer : layer < 2 ^ 32
  expert : expert < 2 ^ 32
  hidden : manifest.hidden < 2 ^ 32
  intermediate : manifest.expertIntermediate < 2 ^ 32

theorem writeHotExpert_ok_iff {file : List UInt8} (hsized : Sized manifest layout) :
    writeHotExpert path manifest layer expert weights = .ok file ↔
      ValidExpert manifest weights ∧ HotHeaderFits manifest layer expert ∧
        (hotFile manifest layer expert weights).length < 2 ^ 63 ∧
        file = hotFile manifest layer expert weights := by
  constructor
  · intro h
    obtain ⟨_, hvalid, h⟩ := bind_ok h
    obtain ⟨_, hl, h⟩ := bind_ok h
    obtain ⟨_, he, h⟩ := bind_ok h
    obtain ⟨_, hh, h⟩ := bind_ok h
    obtain ⟨_, hi, h⟩ := bind_ok h
    obtain ⟨hlayer, rfl⟩ := leU32_ok_iff.mp hl
    obtain ⟨hexpert, rfl⟩ := leU32_ok_iff.mp he
    obtain ⟨hhidden, rfl⟩ := leU32_ok_iff.mp hh
    obtain ⟨hintermediate, rfl⟩ := leU32_ok_iff.mp hi
    obtain ⟨hlength, rfl⟩ := writeFile_ok_iff.mp h
    exact ⟨(validateHotExpert_ok_iff hsized).mp hvalid, ⟨hlayer, hexpert, hhidden, hintermediate⟩,
      hlength, rfl⟩
  · rintro ⟨hvalid, ⟨hlayer, hexpert, hhidden, hintermediate⟩, hlength, rfl⟩
    rw [writeHotExpert, (validateHotExpert_ok_iff hsized).mpr hvalid,
      leU32_ok_iff.mpr ⟨hlayer, rfl⟩, leU32_ok_iff.mpr ⟨hexpert, rfl⟩,
      leU32_ok_iff.mpr ⟨hhidden, rfl⟩, leU32_ok_iff.mpr ⟨hintermediate, rfl⟩]
    exact writeFile_ok_iff.mpr ⟨hlength, rfl⟩

theorem consumes_readHot (path : String) (bytes : List UInt8) : Consumes
    (readHot path bytes.length) bytes bytes :=
  consumes_readExact bytes _

theorem consumes_readHotU32 (path : String) {n : Nat} (h : n < 2 ^ 32) :
    Consumes (readHotU32 path) (toLeBytes 4 n) n := by
  exact consumes_readLe 4 _ h

theorem consumes_readHotF32 (value : UInt32) : Consumes (readHotF32 path) (leF32 value) value := by
  have hlt : value.toNat < 2 ^ 32 := value.toNat_lt
  have hread := (consumes_readHotU32 path hlt).map (g := UInt32.ofNat)
  rw [UInt32.ofNat_toNat] at hread
  exact hread

theorem consumes_checked {α : Type} (a : α) : Consumes (checked (.ok a)) [] a := .pure a

theorem consumes_readHotHeader (h : HotHeaderFits manifest layer expert) :
    Consumes (readHotHeader path manifest layer expert) (hotHeader manifest layer expert) () := by
  refine (consumes_readHot _ hotExpertMagic).bind ?_
  refine (consumes_readHotU32 _ (by decide)).bind ((consumes_readHotU32 _ h.layer).bind ?_)
  refine (consumes_readHotU32 _ h.expert).bind ((consumes_readHotU32 _ h.hidden).bind ?_)
  refine (consumes_readHotU32 _ h.intermediate).bind_last (consumes_ensure _ ?_)
  simp

theorem consumes_readHotLinear {linear : Linear} {tensor : String}
    (h : ValidLinear rows cols linear) (hsize : rows * cols < 2 ^ 64) :
    Consumes (readHotLinear path tensor rows cols linear.weightScale2 linear.inputScale)
      (linear.packedWeight ++ linear.weightScale) { linear with tensor := tensor } := by
  refine (consumes_request (by omega)).bind_silent ((consumes_request (by omega)).bind_silent ?_)
  rw [← h.packed, ← h.scale]
  refine (consumes_readHot _ _).bind ((consumes_readHot _ _).bind_last ?_)
  have hvalid : ValidLinear rows cols ⟨tensor, rows, cols, linear.packedWeight,
      linear.weightScale, linear.weightScale2, linear.inputScale⟩ :=
    ⟨rfl, rfl, h.packed, h.scale, h.finite⟩
  dsimp only
  rw [(validateHotLinear_ok_iff hsize).mpr hvalid, h.out, h.inner]
  exact (consumes_checked ()).bind_silent (.pure _)

theorem hotExpertExpectedFileBytes_ok (hsized : Sized manifest layout)
    (h : 52 + layout.recordBytes < 2 ^ 63) :
    hotExpertExpectedFileBytes manifest = .ok (52 + layout.recordBytes) := by
  have hblocks := hsized.blocks
  have hrecord := hsized.record
  rw [hsized.packed, hsized.scale] at hrecord
  have htotal : hotExpertHeaderBytes + (manifest.hidden * manifest.expertIntermediate * 3 / 2 +
      manifest.hidden * manifest.expertIntermediate * 3 / 16) = 52 + layout.recordBytes := by
    rw [hrecord, hotExpertHeaderBytes]
    omega
  rw [hotExpertExpectedFileBytes]
  simp only [htotal]
  rw [rejectIf_eq_ok_iff.mpr (by omega), rejectIf_eq_ok_iff.mpr (by omega),
    rejectIf_eq_ok_iff.mpr (by omega)]
  rfl

theorem consumes_readHotWeights (hsized : Sized manifest layout)
    (hvalid : ValidExpert manifest weights) :
    Consumes (readHotWeights path manifest layer expert)
      (weights.scalars.flatMap leF32 ++ weights.record) (named layer expert weights) := by
  have hswapped : manifest.expertIntermediate * manifest.hidden < 2 ^ 64 := by
    rw [Nat.mul_comm]
    exact hsized.weights
  have hscales : Consumes (times 6 (readHotF32 path)) (weights.scalars.flatMap leF32)
      (weights.scalars.map id) :=
    consumes_times weights.scalars fun value _ => consumes_readHotF32 value
  rw [record_eq]
  refine hscales.bind ((consumes_readHotLinear hvalid.w1 hswapped).bind ?_)
  refine (consumes_readHotLinear hvalid.w3 hswapped).bind ?_
  exact (consumes_readHotLinear hvalid.w2 hsized.weights).bind_last (.pure _)

theorem readHotExpert_hotFile (hsized : Sized manifest layout)
    (hvalid : ValidExpert manifest weights) (hfits : HotHeaderFits manifest layer expert)
    (hlength : (hotFile manifest layer expert weights).length < 2 ^ 63) :
    ∃ requests, readHotExpert path manifest layer expert
        ⟨hotFile manifest layer expert weights, 0, []⟩ =
      .ok (named layer expert weights)
        ⟨hotFile manifest layer expert weights,
          (hotFile manifest layer expert weights).length, requests⟩ := by
  have hbytes : (hotFile manifest layer expert weights).length = 52 + layout.recordBytes := by
    rw [length_hotFile, hvalid.record_bytes hsized]
  have hbody : Consumes (do
      readHotHeader path manifest layer expert
      readHotWeights path manifest layer expert)
      (hotFile manifest layer expert weights) (named layer expert weights) :=
    (consumes_readHotHeader hfits).bind (consumes_readHotWeights hsized hvalid)
  obtain ⟨requests, hrun⟩ := hbody ⟨hotFile manifest layer expert weights, 0, []⟩
    ⟨Nat.zero_le _, hlength⟩ prefix_rfl
  refine ⟨requests, ?_⟩
  rw [Nat.zero_add] at hrun
  rw [← hrun]
  let start : Reader := ⟨hotFile manifest layer expert weights, 0, []⟩
  have hactual : (fileLength : Reading CudaError Nat) start = .ok start.file.length start := rfl
  have hexpected : checked (hotExpertExpectedFileBytes manifest) start =
      .ok (52 + layout.recordBytes) start := by
    rw [hotExpertExpectedFileBytes_ok hsized (hbytes ▸ hlength)]
    rfl
  have hequal : ∀ e : CudaError, ensure (start.file.length = 52 + layout.recordBytes) e start =
      .ok () start := by
    intro e
    rw [ensure, if_pos (decide_eq_true hbytes)]
    rfl
  exact (bind_run_ok hactual).trans ((bind_run_ok hexpected).trans (bind_run_ok (hequal _)))

/-! ### Acceptance -/

theorem eq_map_range {scales : List UInt32} {n : Nat} (h : scales.length = n) :
    scales = (List.range n).map fun index => scales.getD index 0 := by
  apply ext_getElem
  · simp [h]
  · intro index hindex _
    simp [hindex]

theorem accepts_readHotU32 :
    Accepts (readHotU32 path) fun n bytes => bytes = toLeBytes 4 n ∧ n < 2 ^ 32 :=
  accepts_readLe 4 _

theorem accepts_readHotF32 : Accepts (readHotF32 path) fun value bytes => bytes = leF32 value := by
  refine accepts_readHotU32.map ?_
  rintro n bytes ⟨rfl, hlt⟩
  rw [leF32, UInt32.toNat_ofNat_of_lt' hlt]

theorem accepts_checked {α : Type} (result : Except CudaError α) :
    Accepts (checked result) fun a bytes => bytes = [] ∧ result = .ok a := by
  intro r s a hrun
  cases result with
  | error e => cases hrun
  | ok b =>
    cases hrun
    exact ⟨[], ⟨rfl, rfl⟩, nil_prefix, rfl, rfl⟩

theorem accepts_readHotHeader : Accepts (readHotHeader path manifest layer expert) fun _ bytes =>
    bytes = hotHeader manifest layer expert ∧ HotHeaderFits manifest layer expert := by
  refine (accepts_readExact 8 _).bind fun magic _ hmagic => ?_
  refine accepts_readHotU32.bind fun version _ hversion => ?_
  refine accepts_readHotU32.bind fun storedLayer _ hlayer => ?_
  refine accepts_readHotU32.bind fun storedExpert _ hexpert => ?_
  refine accepts_readHotU32.bind fun hidden _ hhidden => ?_
  refine accepts_readHotU32.bind fun intermediate _ hintermediate => ?_
  refine (accepts_ensure _ _).mono ?_
  rintro _ _ ⟨rfl, hequal⟩
  obtain ⟨rfl, rfl, rfl, rfl, rfl, rfl⟩ := of_decide_eq_true hequal
  obtain ⟨rfl, -⟩ := hmagic
  obtain ⟨rfl, -⟩ := hversion
  rw [hlayer.1, hexpert.1, hhidden.1, hintermediate.1, append_nil]
  exact ⟨rfl, hlayer.2, hexpert.2, hhidden.2, hintermediate.2⟩

theorem accepts_readHotLinear {tensor : String} {weightScale2 inputScale : UInt32} :
    Accepts (readHotLinear path tensor rows cols weightScale2 inputScale) fun linear bytes =>
      bytes = linear.packedWeight ++ linear.weightScale ∧ ValidLinear rows cols linear ∧
        linear.tensor = tensor ∧ linear.weightScale2 = weightScale2 ∧
        linear.inputScale = inputScale := by
  refine (accepts_request _).bind fun _ _ hpacked => (accepts_request _).bind fun _ _ hscale => ?_
  refine (accepts_readExact _ _).bind fun packed _ hp => ?_
  refine (accepts_readExact _ _).bind fun scales _ hs => ?_
  refine (accepts_checked _).bind fun _ _ hvalid => .pure ?_
  obtain ⟨rfl, hsize⟩ := hpacked
  obtain ⟨rfl, -⟩ := hscale
  obtain ⟨rfl, -⟩ := hp
  obtain ⟨rfl, -⟩ := hs
  obtain ⟨rfl, hvalid⟩ := hvalid
  refine ⟨by simp, (validateHotLinear_ok_iff (by omega)).mp hvalid, rfl, rfl, rfl⟩

theorem accepts_readHotWeights : Accepts (readHotWeights path manifest layer expert)
    fun weights bytes => bytes = weights.scalars.flatMap leF32 ++ weights.record ∧
      ValidExpert manifest weights ∧ weights = named layer expert weights := by
  refine (accepts_times 6 accepts_readHotF32).bind fun scales _ hscales => ?_
  refine accepts_readHotLinear.bind fun w1 _ h1 => accepts_readHotLinear.bind fun w3 _ h3 => ?_
  refine accepts_readHotLinear.bind fun w2 _ h2 => .pure ?_
  obtain ⟨hlength, rfl⟩ := hscales
  obtain ⟨rfl, hv1, ht1, hs1, hi1⟩ := h1
  obtain ⟨rfl, hv3, ht3, hs3, hi3⟩ := h3
  obtain ⟨rfl, hv2, ht2, hs2, hi2⟩ := h2
  refine ⟨?_, ⟨hv1, hv3, hv2⟩, ?_⟩
  · have hscalars : scales = HotExpert.scalars ⟨w1, w3, w2⟩ := by
      rw [HotExpert.scalars, hs1, hi1, hs3, hi3, hs2, hi2]
      exact eq_map_range hlength
    rw [← hscalars, record_eq]
    simp
  · rw [named, ← ht1, ← ht3, ← ht2]

theorem expectedFileBytes_eq {bytes : Nat} (h : hotExpertExpectedFileBytes manifest = .ok bytes) :
    bytes = 52 + (manifest.hidden * manifest.expertIntermediate / 2 +
      manifest.hidden * manifest.expertIntermediate / 16) * 3 := by
  obtain ⟨_, -, h⟩ := bind_ok h
  obtain ⟨_, hblocks, h⟩ := bind_ok h
  obtain ⟨_, -, h⟩ := bind_ok h
  cases h
  have hblocks := not_not.mp (rejectIf_ok hblocks)
  rw [hotExpertHeaderBytes]
  omega

theorem readHotExpert_accepts {file : List UInt8} {s : Reader}
    (h : readHotExpert path manifest layer expert ⟨file, 0, []⟩ = .ok weights s) :
    file = hotFile manifest layer expert weights ∧ HotHeaderFits manifest layer expert ∧
      ValidExpert manifest weights ∧ weights = named layer expert weights := by
  obtain ⟨_, _, hactual, hrest⟩ := bind_ok_inv h
  cases hactual
  obtain ⟨expected, t, hexpected, hrest⟩ := bind_ok_inv hrest
  obtain ⟨_, ⟨rfl, hbytes⟩, -, hfile, hposition⟩ := accepts_checked _ _ _ _ hexpected
  obtain ⟨_, u, hensure, hrun⟩ := bind_ok_inv hrest
  obtain ⟨hequal, hsame⟩ := ensure_ok_inv hensure
  rw [hsame] at hrun
  have hbody : Accepts (do
      readHotHeader path manifest layer expert
      readHotWeights path manifest layer expert) fun weights bytes =>
        bytes = hotFile manifest layer expert weights ∧ HotHeaderFits manifest layer expert ∧
          ValidExpert manifest weights ∧ weights = named layer expert weights := by
    refine accepts_readHotHeader.bind fun _ first hheader => accepts_readHotWeights.mono ?_
    rintro weights second ⟨rfl, hvalid, hnamed⟩
    exact ⟨by rw [hheader.1, hotFile], hheader.2, hvalid, hnamed⟩
  obtain ⟨_, ⟨rfl, hfits, hvalid, hnamed⟩, hstart, -, -⟩ := hbody _ _ _ hrun
  refine ⟨?_, hfits, hvalid, hnamed⟩
  rw [hfile, hposition] at hstart
  refine (hstart.eq_of_length ?_).symm
  have hlength : file.length = expected := of_decide_eq_true hequal
  rw [length_hotFile, hvalid.length_record, ← expectedFileBytes_eq hbytes]
  exact hlength.symm

theorem hotHeader_inj {manifest' : Manifest} {layer' expert' : Nat}
    (hfits : HotHeaderFits manifest layer expert) (hfits' : HotHeaderFits manifest' layer' expert')
    (h : hotHeader manifest layer expert = hotHeader manifest' layer' expert') :
    layer = layer' ∧ expert = expert' ∧ manifest.hidden = manifest'.hidden ∧
      manifest.expertIntermediate = manifest'.expertIntermediate := by
  have hsame : ∀ (a b : Nat) (x y : List UInt8), toLeBytes 4 a ++ x = toLeBytes 4 b ++ y →
      toLeBytes 4 a = toLeBytes 4 b ∧ x = y := by
    intro a b x y hequal
    exact append_inj hequal (by rw [length_toLeBytes, length_toLeBytes])
  obtain ⟨-, h⟩ := append_inj h rfl
  obtain ⟨-, h⟩ := hsame _ _ _ _ h
  obtain ⟨hlayer, h⟩ := hsame _ _ _ _ h
  obtain ⟨hexpert, h⟩ := hsame _ _ _ _ h
  obtain ⟨hhidden, hintermediate⟩ := hsame _ _ _ _ h
  exact ⟨toLeBytes_inj hfits.layer hfits'.layer hlayer,
    toLeBytes_inj hfits.expert hfits'.expert hexpert,
    toLeBytes_inj hfits.hidden hfits'.hidden hhidden,
    toLeBytes_inj hfits.intermediate hfits'.intermediate hintermediate⟩

end Eider.Guarantees.ExpertFiles
