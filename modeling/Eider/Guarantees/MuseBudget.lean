import Eider.Source.MuseGlimmer.Budget

/-!
Admission of the Muse Glimmer service. The sequence cache is given the bytes and pages of
`max_active_sequences` sequences of `max_context_tokens` positions and the retained budget
on top. A request that drafts with DFlash asks for fifteen positions more than its prompt
and its completion, so a sequence may need more than its share of the first part.

The sizes grow with the capacity, so the longest accepted request decides: every accepted
request is admitted while a sequence is free exactly when the retained budget covers what
the longest one needs beyond a sequence of `max_context_tokens`, for all sequences at once.
-/
namespace Eider.Guarantees.MuseBudget
open List
open Lib.Sizes Source.MuseGlimmer Source.MuseGlimmer.MuseGlimmerService
open Source (CudaError PageBackend bind_ok rejectIf rejectIf_ok rejectIf_eq_ok_iff
  sm12xKvPageTokens u32Max)
open Source.Qwen36 (SchedulerConfig)

/-! ## Sizes grow with the capacity -/

theorem divCeil_mono {a b : Nat} (h : a ≤ b) (c : Nat) : divCeil a c ≤ divCeil b c :=
  Nat.div_le_div_right (Nat.add_le_add_right h _)

theorem checkedProduct_atMost {label label' : String} {xs ys : List Nat}
    (h : List.Forall₂ (· ≤ ·) xs ys) : AtMost (checkedProduct label xs) (checkedProduct label' ys) :=
  .product (Nat.le_refl 1) h

theorem checkedSum_atMost {label label' : String} {a b c d : Nat} (hab : a ≤ b) (hcd : c ≤ d) :
    AtMost (checkedSum label a c) (checkedSum label' b d) :=
  .below (Nat.add_le_add hab hcd)

theorem alignUp_atMost {a b : Nat} (h : a ≤ b) (alignment : Nat) :
    AtMost (alignUp a alignment) (alignUp b alignment) :=
  (checkedSum_atMost h (Nat.le_refl _)).bind fun _ _ hab =>
    .ok (Nat.mul_le_mul_right _ (Nat.div_le_div_right hab))

section
variable {short long : Nat}

theorem layoutBytes_atMost (h : short ≤ long) (kvHeads headDim : Nat) :
    AtMost (layoutBytes short kvHeads headDim) (layoutBytes long kvHeads headDim) := by
  refine (checkedProduct_atMost (by simp [divCeil_mono h])).bind fun _ _ hkey => ?_
  refine (checkedProduct_atMost (by simp [divCeil_mono h])).bind fun _ _ hvalue => ?_
  refine (AtMost.refl _).bind fun _ _ htail => ?_
  refine (checkedProduct_atMost (by simp [hkey])).bind fun _ _ hkeyValues => ?_
  refine (checkedProduct_atMost (by simp [hkey])).bind fun _ _ hkeyScales => ?_
  refine (checkedProduct_atMost (by simp [hvalue])).bind fun _ _ hvalueValues => ?_
  refine (checkedProduct_atMost (by simp [hvalue])).bind fun _ _ hvalueScales => ?_
  refine (checkedProduct_atMost (by simp [htail])).bind fun _ _ htailBytes => ?_
  refine (checkedSum_atMost (Nat.le_refl 0) hkeyValues).bind fun _ _ hoffset => ?_
  refine (checkedSum_atMost hoffset hkeyScales).bind fun _ _ hoffset => ?_
  refine (checkedSum_atMost hoffset hvalueValues).bind fun _ _ hoffset => ?_
  refine (checkedSum_atMost hoffset hvalueScales).bind fun _ _ hoffset => ?_
  refine (alignUp_atMost hoffset 4).bind fun _ _ hoffset => ?_
  refine (checkedSum_atMost hoffset htailBytes).bind fun _ _ hoffset => ?_
  exact checkedSum_atMost hoffset htailBytes

theorem rejectIf_ok_of_imp {p q : Prop} [Decidable p] [Decidable q] {e e' : CudaError}
    (h : p → q) (hq : rejectIf q e' = .ok ()) : rejectIf p e = .ok () :=
  rejectIf_eq_ok_iff.mpr fun hp => rejectIf_ok hq (h hp)

section
variable (hpos : 0 < short)
include hpos

section
variable (h : short ≤ long)
include h

theorem kvCacheBytes_atMost (kvHeads headDim : Nat) :
    AtMost (kvCacheBytes short kvHeads headDim) (kvCacheBytes long kvHeads headDim) := by
  refine AtMost.check (rejectIf_ok_of_imp (by omega)) ?_
  refine AtMost.check (rejectIf_ok_of_imp (by omega)) ?_
  refine AtMost.check id ?_
  refine AtMost.check id ?_
  exact layoutBytes_atMost h kvHeads headDim

theorem attentionWorkspaceBytes_atMost (qHeads kvHeads headDim rows : Nat) :
    AtMost (attentionWorkspaceBytes short qHeads kvHeads headDim rows)
      (attentionWorkspaceBytes long qHeads kvHeads headDim rows) := by
  refine AtMost.check (rejectIf_ok_of_imp (by omega)) ?_
  refine (AtMost.refl _).bind fun _ _ hquery => ?_
  refine (checkedProduct_atMost (by simp [divCeil_mono h])).bind fun _ _ hprobability => ?_
  refine (checkedProduct_atMost (by simp [hquery])).bind fun _ _ hqueryTiles => ?_
  refine (checkedProduct_atMost (by simp [hquery])).bind fun _ _ hqueryScales => ?_
  refine (checkedProduct_atMost (by simp [h])).bind fun _ _ hscores => ?_
  refine (checkedProduct_atMost (by simp [hprobability])).bind fun _ _ htiles => ?_
  refine (checkedProduct_atMost (by simp [hprobability])).bind fun _ _ hscales => ?_
  refine (AtMost.refl _).bind fun _ _ hpartials => ?_
  refine (AtMost.refl _).bind fun _ _ hstats => ?_
  refine (AtMost.refl _).bind fun _ _ hcombined => ?_
  exact .ok (by omega)

omit h in
omit hpos in
theorem foundBytes_atMost {x y : Except CudaError Nat} (h : AtMost x y) (found : Bool) :
    AtMost (foundBytes found x) (foundBytes found y) := by
  cases found with
  | false => exact .refl _
  | true => exact h

theorem layerAttentionBytes_atMost (config : MuseGlimmerConfig) (rows : Nat) :
    AtMost (layerAttentionBytes config short rows) (layerAttentionBytes config long rows) := by
  have hpage : AtMost (pagedAttentionBytes config short rows)
      (pagedAttentionBytes config long rows) := by
    refine attentionWorkspaceBytes_atMost ?_ (Nat.mul_le_mul_right _ (divCeil_mono h _)) _ _ _ _
    simp only [divCeil, sm12xKvPageTokens]
    omega
  refine (foundBytes_atMost hpage _).bind fun _ _ hlocal => ?_
  refine (foundBytes_atMost hpage _).bind fun _ _ hglobal => ?_
  exact .ok (Nat.add_le_add hlocal hglobal)

theorem dflashBytes_atMost (model : MuseGlimmerModel) :
    AtMost (model.dflashBytes short) (model.dflashBytes long) := by
  unfold MuseGlimmerModel.dflashBytes
  cases model.dflash with
  | none => exact .refl _
  | some d =>
    refine AtMost.bind ?_ fun _ _ hverification => AtMost.bind ?_ fun _ _ hstate =>
      .ok (Nat.add_le_add hverification hstate)
    · exact (layerAttentionBytes_atMost hpos h model.config _).bind fun _ _ hattention =>
        .ok (Nat.add_le_add_left hattention _)
    · refine (AtMost.repeated (kvCacheBytes_atMost hpos h _ _) _).bind fun _ _ hcaches => ?_
      refine (AtMost.refl _).bind fun _ _ htails => ?_
      refine (AtMost.repeated (attentionWorkspaceBytes_atMost hpos h _ _ _ _) _).bind
        fun _ _ hattention => ?_
      exact .ok (by omega)

theorem newSequenceState_atMost (model : MuseGlimmerModel) :
    AtMost (model.newSequenceState short) (model.newSequenceState long) := by
  refine AtMost.check (rejectIf_ok_of_imp (by omega)) ?_
  refine (dflashBytes_atMost hpos h model).bind fun _ _ hdflash => ?_
  refine (layerAttentionBytes_atMost hpos h model.config 1).bind fun _ _ hattention => ?_
  exact .ok (by omega)

theorem pageTableBytes_atMost : AtMost (pageTableBytes short) (pageTableBytes long) := by
  exact AtMost.check (rejectIf_ok_of_imp (by omega))
    (.ok (Nat.mul_le_mul_right _ (divCeil_mono h _)))

end

end

end

/-- `holding` asks for no more than `other`. -/
structure Within (holding other : Holding) : Prop where
  bytes : holding.bytes ≤ other.bytes
  pages : holding.pages ≤ other.pages

theorem Within.trans {a b c : Holding} (hab : Within a b) (hbc : Within b c) : Within a c :=
  ⟨hab.bytes.trans hbc.bytes, hab.pages.trans hbc.pages⟩

variable {s : MuseGlimmerService}

theorem admissionRequest_eq_ok {position : Nat} {need : Holding} :
    s.admissionRequest position = .ok need ↔
      ∃ privateBytes tableBytes, s.model.newSequenceState position = .ok privateBytes ∧
        pageTableBytes position = .ok tableBytes ∧
        need = ⟨privateBytes + tableBytes +
          divCeil position sm12xKvPageTokens * s.sequenceCache.pageBytes,
          divCeil position sm12xKvPageTokens⟩ := by
  constructor
  · intro h
    obtain ⟨privateBytes, hprivate, h⟩ := bind_ok h
    obtain ⟨tableBytes, htable, h⟩ := bind_ok h
    cases h
    exact ⟨privateBytes, tableBytes, hprivate, htable, rfl⟩
  · rintro ⟨privateBytes, tableBytes, hprivate, htable, rfl⟩
    rw [admissionRequest, hprivate, htable]
    rfl

theorem admissionRequest_within {short long : Nat} {need : Holding} (hpos : 0 < short)
    (h : short ≤ long) (hlong : s.admissionRequest long = .ok need) :
    ∃ less, s.admissionRequest short = .ok less ∧ Within less need := by
  obtain ⟨privateBytes, tableBytes, hprivate, htable, rfl⟩ := admissionRequest_eq_ok.mp hlong
  obtain ⟨privateLess, hprivateLess, hprivateLe⟩ :=
    newSequenceState_atMost hpos h s.model privateBytes hprivate
  obtain ⟨tableLess, htableLess, htableLe⟩ := pageTableBytes_atMost hpos h tableBytes htable
  have hpages := divCeil_mono h sm12xKvPageTokens
  refine ⟨_, admissionRequest_eq_ok.mpr ⟨privateLess, tableLess, hprivateLess, htableLess, rfl⟩,
    ?_, hpages⟩
  exact Nat.add_le_add (Nat.add_le_add hprivateLe htableLe) (Nat.mul_le_mul_right _ hpages)

/-! ## What the constructor promises -/

theorem layerBytes_mono {f g : Nat × Nat → Except CudaError Nat}
    (h : ∀ geometry bytes, f geometry = .ok bytes → g geometry = .ok bytes)
    (geometries : List (Option (Nat × Nat))) (layer bytes : Nat) {total : Nat}
    (hf : PageBackend.layerBytes f geometries layer bytes = .ok total) :
    PageBackend.layerBytes g geometries layer bytes = .ok total := by
  induction geometries generalizing layer bytes with
  | nil => exact hf
  | cons geometry rest ih =>
    cases geometry with
    | none => exact ih _ _ hf
    | some geometry =>
      simp only [PageBackend.layerBytes] at hf ⊢
      cases hpool : f geometry with
      | error e =>
        rw [hpool] at hf
        cases hf
      | ok pool =>
        rw [hpool] at hf
        rw [h geometry pool hpool]
        dsimp only at hf ⊢
        split at hf
        · rename_i hbelow
          rw [if_pos hbelow]
          exact ih _ _ hf
        · cases hf

theorem pagePoolBytes_layout {pageSlots kvHeads headDim bytes : Nat}
    (h : pagePoolBytes pageSlots kvHeads headDim = .ok bytes) :
    layoutBytes sm12xKvPageTokens kvHeads headDim = .ok bytes := by
  obtain ⟨_, -, h⟩ := bind_ok h
  obtain ⟨total, htotal, h⟩ := bind_ok h
  obtain ⟨_, -, h⟩ := bind_ok h
  obtain ⟨_, -, h⟩ := bind_ok h
  cases h
  exact htotal

theorem newPageBackend_ok {config : MuseGlimmerConfig} {pageSlots : Nat} {b : PageBackend Unit}
    (h : newPageBackend config pageSlots = .ok b) :
    pageSlots ≤ u32Max ∧ b.usedSlots.length = pageSlots ∧
      PageBackend.layerBytes (fun geometry => layoutBytes sm12xKvPageTokens geometry.1 geometry.2)
        (List.replicate config.numHiddenLayers (some (config.numKeyValueHeads, config.headDim)))
        0 0 = .ok b.pageBytes := by
  unfold newPageBackend PageBackend.new at h
  split at h
  · cases h
  · rename_i hslots
    split at h
    · cases h
    · rename_i pageBytes hbytes
      cases h
      have hbounds : ¬ pageSlots = 0 ∧ pageSlots ≤ u32Max := by simpa using hslots
      refine ⟨hbounds.2, by simp, ?_⟩
      exact layerBytes_mono (fun _ _ => pagePoolBytes_layout) _ _ _ hbytes

/-- The pages that the retained budget adds. -/
def retainedPages (s : MuseGlimmerService) (retained : Nat) : Nat :=
  (retained - (if s.model.hasDflash then retained / 4 else 0)) / s.sequenceCache.pageBytes

/-- A service with the budget its constructor has computed. -/
structure Budgeted (s : MuseGlimmerService) (retained : Nat) (eager : Holding) : Prop where
  sequences : 0 < s.config.maxActiveSequences
  context : 0 < s.config.maxContextTokens
  positions : s.config.maxContextTokens ≤ s.model.config.maxPositionEmbeddings
  narrow : s.config.maxContextTokens + 15 < 2 ^ 64
  asked : s.admissionRequest s.config.maxContextTokens = .ok eager
  managed : s.sequenceCache.maxManagedBytes = s.config.maxActiveSequences * eager.bytes + retained
  slots : s.sequenceCache.pageSlots =
    s.config.maxActiveSequences * eager.pages + retainedPages s retained

theorem newSequenceCacheWithBudget_ok {model : MuseGlimmerModel} {sequences context : Nat}
    {retained : Option Nat} {cache : CacheBudget}
    (h : newSequenceCacheWithBudget model sequences context retained = .ok cache) :
    ∃ privateBytes tableBytes, model.newSequenceState context = .ok privateBytes ∧
      pageTableBytes context = .ok tableBytes ∧
      cache.maxManagedBytes = sequences * divCeil context sm12xKvPageTokens * cache.pageBytes +
        (privateBytes + tableBytes) * sequences + retained.getD 0 ∧
      cache.pageSlots = sequences * divCeil context sm12xKvPageTokens +
        (retained.getD 0 - (if retained.isSome && model.hasDflash then retained.getD 0 / 4 else 0)) /
          cache.pageBytes ∧
      cache.pageSlots ≤ u32Max := by
  obtain ⟨_, -, h⟩ := bind_ok h
  obtain ⟨probe, hprobe, h⟩ := bind_ok h
  obtain ⟨privateBytes, hprivate, h⟩ := bind_ok h
  obtain ⟨tableBytes, htable, h⟩ := bind_ok h
  obtain ⟨sequenceBytes, hsequence, h⟩ := bind_ok h
  obtain ⟨fixedBytes, hfixed, h⟩ := bind_ok h
  obtain ⟨eagerPages, hpages, h⟩ := bind_ok h
  obtain ⟨eagerPageBytes, hpageBytes, h⟩ := bind_ok h
  obtain ⟨eagerBytes, heager, h⟩ := bind_ok h
  obtain ⟨managedBytes, hmanaged, h⟩ := bind_ok h
  obtain ⟨pageSlots, hslots, h⟩ := bind_ok h
  obtain ⟨backend, hbackend, h⟩ := bind_ok h
  cases h
  obtain ⟨-, rfl⟩ := below_eq_ok.mp hsequence
  obtain ⟨-, rfl⟩ := below_eq_ok.mp hfixed
  obtain ⟨-, rfl⟩ := below_eq_ok.mp hpages
  obtain ⟨-, rfl⟩ := below_eq_ok.mp hpageBytes
  obtain ⟨-, rfl⟩ := below_eq_ok.mp heager
  obtain ⟨-, rfl⟩ := below_eq_ok.mp hmanaged
  obtain ⟨-, rfl⟩ := below_eq_ok.mp hslots
  obtain ⟨-, -, hprobeBytes⟩ := newPageBackend_ok hprobe
  obtain ⟨hu32, hlength, hbackendBytes⟩ := newPageBackend_ok hbackend
  have hbytes : backend.pageBytes = probe.pageBytes := by
    rw [hprobeBytes] at hbackendBytes
    injection hbackendBytes with hbytes
    exact hbytes.symm
  refine ⟨privateBytes, tableBytes, hprivate, htable, ?_, ?_, ?_⟩
  · rw [hbytes]
  · rw [hlength, hbytes]
  · rw [hlength]
    exact hu32

theorem newWithCacheConfig_ok {model : MuseGlimmerModel} {config : SchedulerConfig} {retained : Nat}
    (h : newWithCacheConfig model config retained = .ok s) :
    s.model = model ∧ s.config = config ∧ ∃ eager, Budgeted s retained eager := by
  obtain ⟨_, hvalid, h⟩ := bind_ok h
  obtain ⟨_, hpositions, h⟩ := bind_ok h
  obtain ⟨cache, hcache, h⟩ := bind_ok h
  cases h
  have hvalid := rejectIf_ok hvalid
  have hpositions := rejectIf_ok hpositions
  obtain ⟨privateBytes, tableBytes, hprivate, htable, hmanaged, hslots, hu32⟩ :=
    newSequenceCacheWithBudget_ok hcache
  have hgiven : (if retained ≠ 0 then some retained else none).getD 0 = retained := by
    split <;> simp_all
  have hsnapshot : (if (if retained ≠ 0 then some retained else none).isSome && model.hasDflash
      then retained / 4 else 0) = if model.hasDflash then retained / 4 else 0 := by
    by_cases hzero : retained = 0 <;> simp [hzero]
  rw [hgiven] at hmanaged hslots
  rw [hsnapshot] at hslots
  refine ⟨rfl, rfl, _, ?_, ?_, ?_, ?_, admissionRequest_eq_ok.mpr
    ⟨privateBytes, tableBytes, hprivate, htable, rfl⟩, ?_, ?_⟩
  · show 0 < config.maxActiveSequences
    omega
  · show 0 < config.maxContextTokens
    omega
  · show config.maxContextTokens ≤ model.config.maxPositionEmbeddings
    omega
  · -- the eager pages alone fill the page slots, of which there are at most `u32::MAX`
    have hone : divCeil config.maxContextTokens sm12xKvPageTokens ≤
        config.maxActiveSequences * divCeil config.maxContextTokens sm12xKvPageTokens :=
      Nat.le_mul_of_pos_left _ (by omega)
    have hslotsLe := Nat.le_add_right (config.maxActiveSequences *
      divCeil config.maxContextTokens sm12xKvPageTokens) ((retained -
        if model.hasDflash then retained / 4 else 0) / cache.pageBytes)
    have hpages := hone.trans (hslotsLe.trans (hslots ▸ hu32))
    show config.maxContextTokens + 15 < 2 ^ 64
    simp only [divCeil, sm12xKvPageTokens, u32Max] at hpages
    omega
  · rw [hmanaged]
    ring
  · exact hslots

/-! ## Accepted requests -/

/-- A request that `add_request` has queued. -/
def Accepted (s : MuseGlimmerService) (active : QueuedRequest) : Prop :=
  ∃ request, s.addRequest request = .ok active

/-- The most positions that an accepted request asks for. -/
def longestCapacity (s : MuseGlimmerService) : Nat :=
  if s.model.hasDflash ∧ 16 ≤ s.model.config.maxPositionEmbeddings then
    min (s.config.maxContextTokens + 15) s.model.config.maxPositionEmbeddings
  else s.config.maxContextTokens

section
variable {s : MuseGlimmerService}

theorem addRequest_ok {request : ChatRequest} {active : QueuedRequest}
    (h : s.addRequest request = .ok active) :
    0 < active.promptLength ∧
      active.promptLength + active.maxNewTokens ≤ s.config.maxContextTokens ∧
      (active.dflashEnabled = true → s.model.hasDflash = true ∧
        active.promptLength + active.maxNewTokens + 15 ≤ s.model.config.maxPositionEmbeddings) := by
  obtain ⟨_, -, h⟩ := bind_ok h
  obtain ⟨_, -, h⟩ := bind_ok h
  obtain ⟨_, hprompt, h⟩ := bind_ok h
  obtain ⟨total, htotal, h⟩ := bind_ok h
  obtain ⟨_, hcontext, h⟩ := bind_ok h
  cases h
  obtain ⟨-, rfl⟩ := below_eq_ok.mp htotal
  refine ⟨Nat.pos_of_ne_zero (rejectIf_ok hprompt), Nat.le_of_not_lt (rejectIf_ok hcontext), ?_⟩
  intro henabled
  simp only [Bool.and_eq_true, decide_eq_true_eq] at henabled
  exact ⟨henabled.1.1, henabled.2.2⟩

theorem Accepted.capacity {active : QueuedRequest} (haccepted : Accepted s active)
    (hpositions : s.config.maxContextTokens ≤ s.model.config.maxPositionEmbeddings) :
    0 < capacity active ∧ capacity active ≤ longestCapacity s := by
  obtain ⟨request, hrequest⟩ := haccepted
  obtain ⟨hprompt, htotal, hdflash⟩ := addRequest_ok hrequest
  unfold MuseGlimmerService.capacity longestCapacity
  by_cases henabled : active.dflashEnabled = true
  · obtain ⟨hhas, hlimit⟩ := hdflash henabled
    rw [if_pos henabled, if_pos ⟨hhas, by omega⟩]
    omega
  · rw [if_neg henabled]
    split <;> omega

/-- A greedy request with a prompt of `length` tokens and nothing to generate. -/
def greedyPrompt (length : Nat) : ChatRequest where
  promptTokenIds := List.replicate length 0
  generation := ⟨⟨true, true, true, false⟩, 0, []⟩
  stopSequences := []

theorem addRequest_greedyPrompt (length : Nat) (hpos : 0 < length)
    (hcontext : length ≤ s.config.maxContextTokens) (hnarrow : length + 15 < 2 ^ 64) :
    s.addRequest (greedyPrompt length) = .ok ⟨length, 0, s.model.hasDflash &&
      decide (length + 15 ≤ s.model.config.maxPositionEmbeddings)⟩ := by
  have hprompt : ¬ length = 0 := by omega
  have hlength : length < 18446744073709551616 := by omega
  have hfifteen : length + 15 < 18446744073709551616 := by omega
  have hlimit : ¬ s.config.maxContextTokens < length := by omega
  simp [MuseGlimmerService.addRequest, greedyPrompt, rejectIf, below, bind, Except.bind, hprompt,
    hlength, hlimit, hfifteen]

/-- Some accepted request asks for that many positions. -/
theorem exists_longest {retained : Nat} {eager : Holding} (hs : Budgeted s retained eager) :
    ∃ active, Accepted s active ∧ max (capacity active) 1 = longestCapacity s := by
  have hcontext := hs.context
  have hnarrow := hs.narrow
  unfold longestCapacity
  split
  · rename_i h
    refine ⟨_, ⟨_, addRequest_greedyPrompt (s := s)
      (min s.config.maxContextTokens (s.model.config.maxPositionEmbeddings - 15)) (by omega) (by omega) (by omega)⟩, ?_⟩
    have hlimit : min s.config.maxContextTokens (s.model.config.maxPositionEmbeddings - 15) + 15 ≤
        s.model.config.maxPositionEmbeddings := by omega
    simp only [MuseGlimmerService.capacity, h.1, hlimit, decide_true, Bool.and_self, if_true]
    omega
  · rename_i h
    refine ⟨_, ⟨_, addRequest_greedyPrompt (s := s) _ hcontext (Nat.le_refl _) hnarrow⟩, ?_⟩
    have hdisabled : (s.model.hasDflash &&
        decide (s.config.maxContextTokens + 15 ≤ s.model.config.maxPositionEmbeddings)) = false := by
      rw [Bool.and_eq_false_iff, decide_eq_false_iff_not]
      by_cases hdflash : s.model.hasDflash = true
      · exact .inr fun hle => h ⟨hdflash, by omega⟩
      · exact .inl (Bool.not_eq_true _ ▸ hdflash)
    simp only [MuseGlimmerService.capacity, hdisabled, Bool.false_eq_true, if_false]
    omega

end

/-! ## Admission -/

/-- What the cache gives a sequence is no more than the sequence asked for. -/
def Grants (held : List Holding → Holding → Holding) : Prop :=
  ∀ active need, Within (held active need) need

/-- The holding of an active sequence that was accepted. -/
def Granted (s : MuseGlimmerService) (holding : Holding) : Prop :=
  ∃ active need, Accepted s active ∧
    s.admissionRequest (max (capacity active) 1) = .ok need ∧ Within holding need

/-- Admission never leaves an accepted request waiting beside a free sequence. -/
structure AdmitsAccepted (s : MuseGlimmerService) : Prop where
  alone : ∀ active, Accepted s active →
    ∃ need, s.admissionRequest (max (capacity active) 1) = .ok need ∧ s.Fits [] need
  together : ∀ held, Grants held → ∀ requests : List QueuedRequest,
    (∀ active ∈ requests, Accepted s active) →
    requests.length = s.config.maxActiveSequences →
    ∃ active, admitWaiting held s [] requests = .ok (active, [])
  head : ∀ held, Grants held → ∀ active waiting, (∀ holding ∈ active, Granted s holding) →
    (∀ request ∈ waiting, Accepted s request) → active.length ≤ s.config.maxActiveSequences →
    ∃ active' waiting', admitWaiting held s active waiting = .ok (active', waiting') ∧
      (waiting' = [] ∨ active'.length = s.config.maxActiveSequences)

/-- The retained budget holds what the longest accepted request needs beyond a sequence of
`max_context_tokens`, once for every sequence. -/
def RetainedCovers (s : MuseGlimmerService) (retained : Nat) : Prop :=
  ∃ eager longest, s.admissionRequest s.config.maxContextTokens = .ok eager ∧
    s.admissionRequest (longestCapacity s) = .ok longest ∧
    s.config.maxActiveSequences * longest.bytes ≤
      s.config.maxActiveSequences * eager.bytes + retained ∧
    s.config.maxActiveSequences * longest.pages ≤
      s.config.maxActiveSequences * eager.pages + retainedPages s retained

section
variable {s : MuseGlimmerService} {longest : Holding}

/-- Room for every sequence at the size of the longest request. -/
structure Roomy (s : MuseGlimmerService) (longest : Holding) : Prop where
  asked : s.admissionRequest (longestCapacity s) = .ok longest
  positions : s.config.maxContextTokens ≤ s.model.config.maxPositionEmbeddings
  bytes : s.config.maxActiveSequences * longest.bytes ≤ s.sequenceCache.maxManagedBytes
  pages : s.config.maxActiveSequences * longest.pages ≤ s.sequenceCache.pageSlots

section
variable (h : Roomy s longest)
include h

theorem Roomy.need {active : QueuedRequest} (haccepted : Accepted s active) :
    ∃ need, s.admissionRequest (max (capacity active) 1) = .ok need ∧ Within need longest := by
  obtain ⟨hpos, hle⟩ := haccepted.capacity h.positions
  exact admissionRequest_within (by omega) (by omega) h.asked

theorem Roomy.granted {holding : Holding} (hgranted : Granted s holding) :
    Within holding longest := by
  obtain ⟨active, need, haccepted, hneed, hwithin⟩ := hgranted
  obtain ⟨need', hneed', hle⟩ := h.need haccepted
  rw [hneed] at hneed'
  cases hneed'
  exact hwithin.trans hle

variable {active : List Holding}

omit h in
theorem sum_le_of_within (h : ∀ holding ∈ active, Within holding longest) :
    (active.map Holding.bytes).sum ≤ active.length * longest.bytes ∧
      (active.map Holding.pages).sum ≤ active.length * longest.pages := by
  induction active with
  | nil => simp
  | cons holding rest ih =>
    obtain ⟨hbytes, hpages⟩ := ih fun h' hmem => h h' (mem_cons_of_mem _ hmem)
    have hhead := h holding mem_cons_self
    simp only [map_cons, sum_cons, length_cons, Nat.add_mul, Nat.one_mul]
    exact ⟨by have := hhead.bytes; omega, by have := hhead.pages; omega⟩

theorem Roomy.fits {need : Holding}
    (hactive : ∀ holding ∈ active, Within holding longest) (hneed : Within need longest)
    (hlength : active.length < s.config.maxActiveSequences) : s.Fits active need := by
  obtain ⟨hbytes, hpages⟩ := sum_le_of_within hactive
  have hbytesNext : (active.length + 1) * longest.bytes ≤ s.sequenceCache.maxManagedBytes :=
    (Nat.mul_le_mul_right _ hlength).trans h.bytes
  have hpagesNext : (active.length + 1) * longest.pages ≤ s.sequenceCache.pageSlots :=
    (Nat.mul_le_mul_right _ hlength).trans h.pages
  rw [Nat.add_mul, Nat.one_mul] at hbytesNext hpagesNext
  exact ⟨by have := hneed.bytes; omega, by have := hneed.pages; omega⟩

/-- The loop ends with an empty queue or with all sequences in use. -/
theorem Roomy.admitWaiting {held : List Holding → Holding → Holding}
    (hheld : Grants held) (waiting : List QueuedRequest) (active : List Holding)
    (hwaiting : ∀ request ∈ waiting, Accepted s request)
    (hactive : ∀ holding ∈ active, Within holding longest)
    (hlength : active.length ≤ s.config.maxActiveSequences) :
    ∃ active' waiting', admitWaiting held s active waiting = .ok (active', waiting') ∧
      (waiting' = [] ∨ active'.length = s.config.maxActiveSequences) ∧
      active'.length + waiting'.length = active.length + waiting.length := by
  induction waiting generalizing active with
  | nil => exact ⟨active, [], rfl, .inl rfl, rfl⟩
  | cons request waiting ih =>
    by_cases hfree : active.length < s.config.maxActiveSequences
    · obtain ⟨need, hneed, hwithin⟩ := h.need (hwaiting request mem_cons_self)
      have hfits := h.fits hactive hwithin hfree
      obtain ⟨active', waiting', hrun, hend, hcount⟩ := ih (active ++ [held active need])
        (fun r hr => hwaiting r (mem_cons_of_mem _ hr))
        (by
          intro holding hmem
          rcases mem_append.mp hmem with hmem | hmem
          · exact hactive holding hmem
          · rw [mem_singleton.mp hmem]
            exact (hheld active need).trans hwithin)
        (by simpa using hfree)
      refine ⟨active', waiting', ?_, hend, ?_⟩
      · rw [MuseGlimmerService.admitWaiting, if_pos hfree, hneed]
        show (if s.Fits active need then _ else _) = _
        rw [if_pos hfits, hrun]
      · simp only [length_append, length_cons, length_nil] at hcount ⊢
        omega
    · refine ⟨active, request :: waiting, ?_, .inr (by omega), rfl⟩
      rw [MuseGlimmerService.admitWaiting, if_neg hfree]

theorem Roomy.admitsAccepted (hsequences : 0 < s.config.maxActiveSequences) : AdmitsAccepted s where
  alone active haccepted := by
    obtain ⟨need, hneed, hwithin⟩ := h.need haccepted
    exact ⟨need, hneed, h.fits (by simp) hwithin hsequences⟩
  together held hheld requests hrequests hlength := by
    obtain ⟨active, waiting, hrun, hend, hcount⟩ :=
      h.admitWaiting hheld requests [] hrequests (by simp) (Nat.zero_le _)
    have hempty : waiting = [] := by
      rcases hend with hempty | hfull
      · exact hempty
      · rw [length_nil] at hcount
        exact length_eq_zero_iff.mp (by omega)
    exact ⟨active, hempty ▸ hrun⟩
  head held hheld active waiting hactive hwaiting hlength := by
    obtain ⟨active', waiting', hrun, hend, -⟩ := h.admitWaiting hheld waiting active hwaiting
      (fun holding hmem => h.granted (hactive holding hmem)) hlength
    exact ⟨active', waiting', hrun, hend⟩

end

variable {active : List Holding}

/-- A queue that is emptied had room for its first request. -/
theorem admit_cons {held : List Holding → Holding → Holding} {request : QueuedRequest}
    {waiting : List QueuedRequest} {active' : List Holding}
    (h : MuseGlimmerService.admitWaiting held s active (request :: waiting) = .ok (active', [])) :
    ∃ need, s.admissionRequest (max (capacity request) 1) = .ok need ∧ s.Fits active need ∧
      MuseGlimmerService.admitWaiting held s (active ++ [held active need]) waiting =
        .ok (active', []) := by
  rw [MuseGlimmerService.admitWaiting] at h
  split at h
  · obtain ⟨need, hneed, h⟩ := bind_ok h
    split at h
    · rename_i hfits
      exact ⟨need, hneed, hfits, h⟩
    · cases h
  · cases h

/-- Equal requests that are all admitted have room side by side. -/
theorem admit_replicate {request : QueuedRequest} (held count : Nat)
    (hneed : s.admissionRequest (max (capacity request) 1) = .ok longest)
    (h : MuseGlimmerService.admitWaiting (fun _ need => need) s (List.replicate held longest)
      (List.replicate (count + 1) request) = .ok (active, [])) :
      (held + count + 1) * longest.bytes ≤ s.sequenceCache.maxManagedBytes ∧
      (held + count + 1) * longest.pages ≤ s.sequenceCache.pageSlots := by
  induction count generalizing held with
  | zero =>
    obtain ⟨need, hneed', hfits, -⟩ := admit_cons h
    rw [hneed] at hneed'
    cases hneed'
    simpa [Fits, Nat.add_mul] using hfits
  | succ count ih =>
    obtain ⟨need, hneed', -, h⟩ := admit_cons h
    rw [hneed] at hneed'
    cases hneed'
    rw [← replicate_succ'] at h
    have hrest := ih (held + 1) h
    rwa [Nat.add_right_comm held 1 count] at hrest

theorem AdmitsAccepted.roomy {retained : Nat} {eager : Holding} (hs : Budgeted s retained eager)
    (h : AdmitsAccepted s) : ∃ longest, Roomy s longest := by
  obtain ⟨active, haccepted, hcapacity⟩ := exists_longest hs
  obtain ⟨longest, hneed, -⟩ := h.alone active haccepted
  obtain ⟨count, hcount⟩ : ∃ count, s.config.maxActiveSequences = count + 1 :=
    ⟨s.config.maxActiveSequences - 1, by have := hs.sequences; omega⟩
  obtain ⟨holdings, hrun⟩ := h.together (fun _ need => need)
    (fun _ _ => ⟨Nat.le_refl _, Nat.le_refl _⟩) (replicate (count + 1) active)
    (fun r hr => (eq_of_mem_replicate hr) ▸ haccepted) (by simp [hcount])
  obtain ⟨hbytes, hpages⟩ := admit_replicate 0 count hneed hrun
  refine ⟨longest, hcapacity ▸ hneed, hs.positions, ?_, ?_⟩
  · rw [hcount]
    simpa using hbytes
  · rw [hcount]
    simpa using hpages

end

/-- Every accepted request is admitted, alone and beside all others, exactly when the
retained budget covers the drafts of the longest one for every sequence. -/
theorem accepted_requests_admitted_iff (model : MuseGlimmerModel) (config : SchedulerConfig)
    (retained : Nat) (s : MuseGlimmerService)
    (h : newWithCacheConfig model config retained = .ok s) :
    AdmitsAccepted s ↔ RetainedCovers s retained := by
  obtain ⟨-, -, eager, hs⟩ := newWithCacheConfig_ok h
  constructor
  · intro hadmits
    obtain ⟨longest, hroomy⟩ := hadmits.roomy hs
    refine ⟨eager, longest, hs.asked, hroomy.asked, ?_, ?_⟩
    · rw [← hs.managed]
      exact hroomy.bytes
    · rw [← hs.slots]
      exact hroomy.pages
  · rintro ⟨eager', longest, heager, hlongest, hbytes, hpages⟩
    rw [hs.asked] at heager
    cases heager
    have hroomy : Roomy s longest :=
      ⟨hlongest, hs.positions, hs.managed ▸ hbytes, hs.slots ▸ hpages⟩
    exact hroomy.admitsAccepted hs.sequences

/-- One layer and a companion of five blocks, all with one head of 64. -/
def drafting : MuseGlimmerModel where
  config := ⟨64, 64, 1, 1, 1, 64, 131072, 256, [false]⟩
  dflash := some ⟨5, 64, 64, 1, 1, 64, 16⟩
  decodeWorkspaceBytes := 4096

/-- One sequence of one page. -/
def onePage : SchedulerConfig := ⟨1, 1, 1, 128, 1, 128, 0⟩

/-- What the constructor makes of them with a retained budget of 1000000 bytes. -/
def retaining : MuseGlimmerService := ⟨drafting, onePage, ⟨1645092, 250000, none, 17408, 44⟩⟩

theorem accepted_requests_admitted_retaining :
    newWithCacheConfig drafting onePage 1000000 = .ok retaining ∧ AdmitsAccepted retaining := by
  have hnew : newWithCacheConfig drafting onePage 1000000 = .ok retaining := by rfl
  refine ⟨hnew, (accepted_requests_admitted_iff drafting onePage 1000000 retaining hnew).mpr ?_⟩
  exact ⟨⟨645092, 1⟩, ⟨752432, 2⟩, by rfl, by rfl, by decide, by decide⟩

/-- Without a retained budget a greedy request for 128 tokens asks for two pages of one. -/
theorem draft_rows_exceed_budget :
    ∃ s, newWithCacheConfig drafting onePage 0 = .ok s ∧ ¬ AdmitsAccepted s := by
  refine ⟨⟨drafting, onePage, ⟨645092, 0, some 0, 17408, 1⟩⟩, by rfl, fun h => ?_⟩
  have haccepted : Accepted ⟨drafting, onePage, ⟨645092, 0, some 0, 17408, 1⟩⟩ ⟨28, 100, true⟩ :=
    ⟨⟨replicate 28 0, ⟨⟨true, true, true, false⟩, 100, []⟩, []⟩, by rfl⟩
  obtain ⟨need, hneed, -, hpages⟩ := h.alone _ haccepted
  obtain ⟨_, _, -, -, rfl⟩ := admissionRequest_eq_ok.mp hneed
  have htwo : ¬ 2 ≤ 1 := by decide
  exact htwo hpages

end Eider.Guarantees.MuseBudget
