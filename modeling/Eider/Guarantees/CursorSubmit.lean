import Eider.Guarantees.CursorDecode

/-!
The submissions of the decode phase. A batch that returns has moved each sequence one
token ahead of its request, and a speculative cycle by the tokens that it committed; the
samples account for the difference. A submission that fails has moved nothing, as long as
nothing fails behind the commit.
-/
namespace Eider.Guarantees.CursorSubmit
open Lib Lib.ByteReader Source Source.Qwen36 List Ensures
open Guarantees.BatchPositions Guarantees.SchedulerLedger
open Guarantees.CursorDecode

variable {n words : Nat} {β κ φ C R K ρ α γ : Type}
variable {r r' : Request K φ} {selected' : List (Request K φ)} {ids : List Nat}
variable {preview : Option (ToolGrammar K)} {sequence : Sequence n β}

/-- The calls of `execute_decode` that stand behind the commit of its batch. -/
def late : Site → Bool
  | .maskLogits | .readTop1 | .sampleTopkTopp | .copyLogits | .sample _ | .copyCounts _
  | .hiddenSynchronize | .dflash2Synchronize => true
  | _ => false

/-- A commit that fails behind the first row. -/
def tears : Option Call → Bool
  | some (.commitAppend (_ + 1)) => true
  | _ => false

/-- Nothing fails behind the commit of a batch or of a verified block. -/
structure Timely (input : TickInput φ) : Prop where
  calls : ∀ site, late site = true → input.fails site = false
  decode : tears input.decodeCall = false
  frontier : input.decodeCall ≠ some .copyFrontier
  prefill : tears input.prefillCall = false

/-- Behind every state, and under every mask that the constraint computes, some logit is
finite. -/
def Selectable (model : TextModel n β κ φ C R K) : Prop :=
  ∀ contents mask, (mask = none ∨ ∃ g : ToolGrammar K, (g.mask model.constraint).2 = .ok mask) →
    ∃ sampled, argmaxLogits model (maskRow model mask (model.device.logitsOf contents)) = .ok sampled

/-! ## Calls with what they hold -/

variable {s : Scheduler n β φ C K}

section
variable {h : Holding n β φ C K ρ} {Q : γ → Holding n β φ C K ρ → Prop}
variable {P : Holding n β φ C K ρ → Prop} {A : α → Holding n β φ C K ρ → Prop}
variable {call : Submitting n β φ C K ρ α} {B : Holding n β φ C K ρ → Prop}
variable {P : Scheduler n β φ C K → Prop}

theorem lend_ensures {held : ρ} {Q : ρ × Except CudaError α → Scheduler n β φ C K → Prop}
    (hcall : Ensures call ⟨s, held⟩ A (OnFailure B))
    (hok : ∀ a h, A a h → Q (h.held, .ok a) h.scheduler)
    (hfailed : ∀ e h, B h → Q (h.held, .error e) h.scheduler) :
    Ensures (lend held call) s Q (OnFailure P) := by
  unfold Ensures at hcall
  unfold Ensures lend
  split at hcall
  · rename_i a after heq
    rw [heq]
    exact hok a after hcall
  · rename_i fault after heq
    rw [heq]
    cases fault with
    | failed e => exact hfailed e after hcall
    | panicked message => exact trivial

theorem lend_bind {held : ρ} {f : ρ × Except CudaError α → Scheduling n β φ C K γ}
    {Q : γ → Scheduler n β φ C K → Prop} (hcall : Ensures call ⟨s, held⟩ A (OnFailure B))
    (hok : ∀ a h, A a h → Ensures (f (h.held, .ok a)) h.scheduler Q (OnFailure P))
    (hfailed : ∀ e h, B h → Ensures (f (h.held, .error e)) h.scheduler Q (OnFailure P)) :
    Ensures (lend held call >>= f) s Q (OnFailure P) := by
  have hlent : Ensures (lend held call) s (fun a t => Ensures (f a) t Q (OnFailure P))
      (OnFailure P) := lend_ensures hcall hok hfailed
  exact hlent.bind fun _ _ hnext => hnext

/-- The books and what is held are the same. -/
structure Untouched (h h' : Holding n β φ C K ρ) : Prop where
  books : booksOf h'.scheduler = booksOf h.scheduler
  held : h'.held = h.held

theorem Untouched.refl (h : Holding n β φ C K ρ) : Untouched h h := ⟨rfl, rfl⟩

theorem Untouched.trans {h h' h'' : Holding n β φ C K ρ} (first : Untouched h h')
    (second : Untouched h' h'') : Untouched h h'' :=
  ⟨second.books.trans first.books, second.held.trans first.held⟩

theorem allocate_ensures {input : TickInput φ} {present : Bool} {site : Site} {call : String}
    {workspaces : Workspaces → Workspaces} :
    Ensures (allocate input present site call workspaces) h (fun _ => Untouched h)
      (OnFailure (Untouched h)) := by
  unfold allocate
  split
  · exact .refl h
  · apply SchedulerLedger.reach_bind
    · exact ⟨rfl, rfl⟩
    · exact fun _ => .refl h

theorem allocateDflash2_ensures {input : TickInput φ} {needed : Bool} :
    Ensures (allocateDflash2 input needed) h (fun _ => Untouched h) (OnFailure (Untouched h)) := by
  unfold allocateDflash2
  split
  · exact get_bind allocate_ensures
  · exact .refl h

end

/-! ## Rows and their masks -/

section
variable {model : TextModel n β κ φ C R K} {selected : List (Request K φ)}

/-- A mask that the grammar of a row has computed. -/
def Computed (words : Nat) (model : TextModel n β κ φ C R K) (mask : Option (List UInt32)) : Prop :=
  mask = none ∨ ∃ g : ToolGrammar K, g.maskWords = words ∧ (g.mask model.constraint).2 = .ok mask

/-- A request whose grammar has moved. -/
structure Regrammared (words : Nat) (r r' : Request K φ) : Prop where
  same : SameCursor r r'
  ready : r'.specReady = r.specReady
  grammar : ∀ g, r'.toolGrammar = some g → g.maskWords = words

theorem prepareRow_keeps (h : ∀ g, r.toolGrammar = some g → g.maskWords = words) :
    Regrammared words r (prepareRow model r).1 := by
  have hrefl : Regrammared words r r := ⟨.refl r, rfl, h⟩
  unfold prepareRow
  split
  · exact hrefl
  · split
    · exact hrefl
    · rename_i g hg
      split
      · split
        · exact hrefl
        · split
          · exact hrefl
          · split
            · exact hrefl
            · exact hrefl
      · have hmasked : Regrammared words r
            { r with toolGrammar := some (g.mask model.constraint).1 } := by
          refine ⟨⟨rfl, rfl, rfl, rfl, rfl, rfl, rfl, rfl⟩, rfl, fun g' hg' => ?_⟩
          cases hg'
          rw [ToolGrammar.mask_maskWords]
          exact h g hg
        dsimp only
        split
        · exact hmasked
        · exact hmasked

theorem prepareRow_computed {row : Nat × Option (List UInt32)}
    (h : ∀ g, r.toolGrammar = some g → g.maskWords = words)
    (hrow : (prepareRow model r).2 = .ok row) : Computed words model row.2 := by
  unfold prepareRow at hrow
  split at hrow
  · cases hrow
  · split at hrow
    · cases hrow
      exact .inl rfl
    · rename_i g hg
      split at hrow
      · split at hrow
        · cases hrow
        · split at hrow
          · cases hrow
          · rename_i preview heq
            split at hrow
            · cases hrow
            · rename_i mask hmask
              cases hrow
              refine .inr ⟨preview, ?_, hmask⟩
              have hwords := ToolGrammar.commit_maskWords model.constraint g
              have hpreview := congrArg (fun pair => pair.1.maskWords) heq
              exact hpreview.symm.trans ((hwords _).trans (h g hg))
      · dsimp only at hrow
        split at hrow
        · cases hrow
        · rename_i mask hmask
          cases hrow
          exact .inr ⟨g, h g hg, hmask⟩

theorem prepareRows_keeps (model : TextModel n β κ φ C R K)
    (h : ∀ r ∈ selected, ∀ g, r.toolGrammar = some g → g.maskWords = words) :
    List.Forall₂ (Regrammared words) selected (prepareRows model selected).1 := by
  induction selected with
  | nil => exact .nil
  | cons r rest ih =>
    have hrow : Regrammared words r (prepareRow model r).1 := prepareRow_keeps (h r mem_cons_self)
    have hrest := ih fun r' hr' => h r' (mem_cons_of_mem _ hr')
    have hrefl : List.Forall₂ (Regrammared words) rest rest :=
      forall₂_same.mpr fun r' hr' => ⟨.refl r', rfl, h r' (mem_cons_of_mem _ hr')⟩
    unfold prepareRows
    split
    · rename_i r' fault heq
      rw [heq] at hrow
      exact .cons hrow hrefl
    · rename_i r' row heq
      rw [heq] at hrow
      split
      · rename_i rest' fault hrows
        rw [hrows] at hrest
        exact .cons hrow hrest
      · rename_i rest' rows hrows
        rw [hrows] at hrest
        exact .cons hrow hrest

theorem prepareRows_computed {rows : List (Nat × Option (List UInt32))}
    (h : ∀ r ∈ selected, ∀ g, r.toolGrammar = some g → g.maskWords = words)
    (hrows : (prepareRows model selected).2 = .ok rows) :
    rows.length = selected.length ∧ ∀ row ∈ rows, Computed words model row.2 := by
  induction selected generalizing rows with
  | nil =>
    cases hrows
    exact ⟨rfl, forall_mem_nil _⟩
  | cons r rest ih =>
    unfold prepareRows at hrows
    split at hrows
    · cases hrows
    · rename_i r' row heq
      split at hrows
      · cases hrows
      · rename_i rest' rows' hrest
        cases hrows
        obtain ⟨hlength, hcomputed⟩ :=
          ih (fun r' hr' => h r' (mem_cons_of_mem _ hr')) (congrArg Prod.snd hrest)
        refine ⟨congrArg (· + 1) hlength, forall_mem_cons.mpr ⟨?_, hcomputed⟩⟩
        exact prepareRow_computed (h r mem_cons_self) (congrArg Prod.snd heq)

end

/-! ## Behind the commit -/

section
variable {model : TextModel n β κ φ C R K} {input : TickInput φ} {selected : List (Request K φ)}

theorem maskDecoded_ok (htimely : Timely input) (masks : List (Option (List UInt32)))
    (logits : List (List φ)) (hlength : logits.length = masks.length)
    (h : ∀ mask ∈ masks, Computed (vocabWords model) model mask) :
    maskDecoded model input masks logits =
      .ok ((masks.zip logits).map fun row => maskRow model row.1 row.2) := by
  unfold maskDecoded
  split
  · have hfind : (masks.filterMap id).find? (fun mask => mask.length ≠ vocabWords model) = none := by
      rw [find?_eq_none]
      intro mask hmask
      obtain ⟨computed, hcomputed, hsome⟩ := mem_filterMap.mp hmask
      cases hsome
      obtain hnone | ⟨g, hwords, hg⟩ := h _ hcomputed
      · cases hnone
      · have hmasked := ToolGrammar.length_of_mask model.constraint hg
        simp [hmasked, hwords]
    simp only [hfind, htimely.calls .maskLogits rfl]
    rfl
  · rename_i hnone
    have hrows : (masks.zip logits).map (fun row => maskRow model row.1 row.2) =
        (masks.zip logits).map Prod.snd := by
      apply map_congr_left
      intro row hrow
      have hmask : row.1 = none := by
        by_contra hsome
        apply hnone
        exact any_eq_true.mpr ⟨row.1, (of_mem_zip hrow).1, Option.isSome_iff_ne_none.mpr hsome⟩
      rw [hmask]
      rfl
    rw [hrows, map_snd_zip hlength.le]

theorem sampleHostRows_ok (htimely : Timely input) {pairs : List (Request K φ × List φ)}
    (h : ∀ pair ∈ pairs, ∃ sampled, argmaxLogits model pair.2 = .ok sampled) (row : Nat) :
    ∃ samples, sampleHostRows model input row pairs = .ok samples ∧
      samples.length = pairs.length := by
  induction pairs generalizing row with
  | nil => exact ⟨[], rfl, rfl⟩
  | cons pair rest ih =>
    obtain ⟨r, logits⟩ := pair
    obtain ⟨sampled, hsampled⟩ := h _ mem_cons_self
    obtain ⟨samples, hrest, hlength⟩ :=
      ih (fun pair hpair => h pair (mem_cons_of_mem _ hpair)) (row + 1)
    have hfails := htimely.calls (.sample row) rfl
    unfold sampleHostRows
    split
    · refine ⟨sampled :: samples, ?_, congrArg (· + 1) hlength⟩
      rw [hsampled, hrest]
      rfl
    · refine ⟨input.sampled row :: samples, ?_, congrArg (· + 1) hlength⟩
      rw [hrest, hfails]
      rfl

/-- Nothing fails while the samples of a batch are read. -/
theorem sampleDecoded_ok (htimely : Timely input) (selected : List (Request K φ))
    {logits : List (List φ)} (hlength : logits.length = selected.length)
    (h : ∀ row ∈ logits, ∃ sampled, argmaxLogits model row = .ok sampled) :
    ∃ samples, sampleDecoded model input selected logits = .ok samples ∧
      samples.length = selected.length := by
  unfold sampleDecoded
  split
  · refine ⟨logits.map fun row => ⟨(model.device.top1 row).id, (model.device.top1 row).value⟩, ?_,
      (length_map _).trans hlength⟩
    rw [htimely.calls .readTop1 rfl]
    rfl
  · split
    · refine ⟨(range selected.length).map input.sampled, ?_, by simp⟩
      rw [htimely.calls .sampleTopkTopp rfl]
      rfl
    · have hpairs : ∀ pair ∈ selected.zip logits, ∃ sampled,
          argmaxLogits model pair.2 = .ok sampled :=
        fun pair hpair => h pair.2 (of_mem_zip hpair).2
      obtain ⟨samples, hsamples, hcount⟩ := sampleHostRows_ok htimely hpairs 0
      have hcounts : (selected.zipIdx.any fun r =>
          keepsTokenCounts r.1 && input.fails (.copyCounts r.2)) = false := by
        rw [any_eq_false]
        intro r _
        simp [htimely.calls (.copyCounts r.2) rfl]
      refine ⟨samples, ?_, ?_⟩
      · rw [htimely.calls .copyLogits rfl, hsamples, hcounts]
        rfl
      · rw [hcount, length_zip, hlength, Nat.min_self]

/-- A request whose drafters have moved. -/
structure Redrafted (r r' : Request K φ) : Prop where
  same : SameCursor r r'
  grammar : r'.toolGrammar = r.toolGrammar
  ready : r.specReady = true → r'.specReady = true

theorem trackFrontier_redrafted (row : Nat) (r : Request K φ) (sample : SampledToken φ) :
    Redrafted r (trackFrontier input row r sample).1 := by
  unfold trackFrontier
  split
  · exact ⟨.refl r, rfl, fun hready => hready⟩
  · split
    · exact ⟨⟨rfl, rfl, rfl, rfl, rfl, rfl, rfl, rfl⟩, rfl, fun _ => rfl⟩
    · exact ⟨.refl r, rfl, fun hready => hready⟩

theorem trackFrontiers_redrafted (input : TickInput φ) {samples : List (SampledToken φ)}
    (hlength : samples.length = selected.length) :
    List.Forall₂ Redrafted selected ((trackFrontiers input selected samples).map Prod.fst) := by
  unfold trackFrontiers
  rw [map_map, forall₂_iff_get]
  refine ⟨by simp [hlength], fun i hi hi' => ?_⟩
  simp only [get_eq_getElem, getElem_map, Function.comp_apply, getElem_zipIdx, getElem_zip]
  exact trackFrontier_redrafted _ _ _

theorem appendDflash2_redrafted (input : TickInput φ) (selected : List (Request K φ)) :
    List.Forall₂ Redrafted selected (appendDflash2 input selected) := by
  unfold appendDflash2
  rw [forall₂_iff_get]
  refine ⟨by simp, fun i hi hi' => ?_⟩
  simp only [get_eq_getElem, getElem_map, getElem_zipIdx]
  exact ⟨⟨rfl, rfl, rfl, rfl, rfl, rfl, rfl, rfl⟩, rfl, fun hready => hready⟩

theorem Redrafted.primed (h : Redrafted r r') (hprimed : Primed words r) : Primed words r' where
  decoding := fun hdecoding => by
    rw [h.same.lastToken, h.same.generatedTokens, h.same.remaining_eq]
    exact hprimed.decoding (h.same.lifecycle ▸ hdecoding)
  prefilling := fun hlifecycle => by
    rw [h.same.lifecycle, h.same.remaining_eq, h.same.generatedTokens, h.same.specStarted]
    exact hprimed.prefilling (h.same.lifecycle ▸ hlifecycle)
  started := fun hstarted => h.ready (hprimed.started (h.same.specStarted ▸ hstarted))
  grammar := h.grammar ▸ hprimed.grammar

theorem changeAll_redrafted {b : Books n β φ K}
    (h : Ledger words b selected []) (hsame : List.Forall₂ Redrafted selected selected') :
    Ledger words b selected' [] := by
  rw [← append_nil selected] at h
  have hchanged := h.changeAll (hsame.imp fun _ _ hr => ⟨hr.same.id, hr.same.sequenceId⟩)
  rwa [append_nil] at hchanged

theorem redrafted_trans {first second third : List (Request K φ)}
    (h : List.Forall₂ Redrafted first second) (h' : List.Forall₂ Redrafted second third) :
    List.Forall₂ Redrafted first third := by
  induction h generalizing third with
  | nil => exact h'
  | cons hhead _ ih =>
    cases h' with
    | cons hhead' hrest' =>
      refine .cons ⟨hhead.same.trans hhead'.same, hhead'.grammar.trans hhead.grammar, ?_⟩ (ih hrest')
      exact fun hready => hhead'.ready (hhead.ready hready)

theorem attempt_ok_bind {σ : Type} {result : Except CudaError α} {a : α} {t : σ}
    {f : α → EStateM (Fault CudaError) σ γ} {Q : γ → σ → Prop} {E : Fault CudaError → σ → Prop}
    (hresult : result = .ok a) (h : Ensures (f a) t Q E) : Ensures (attempt result >>= f) t Q E := by
  rw [hresult]
  exact h

theorem reach_ok_bind {σ : Type} {site : Site} {call : String} {t : σ}
    {f : Unit → EStateM (Fault CudaError) σ γ} {Q : γ → σ → Prop} {E : Fault CudaError → σ → Prop}
    (hfails : input.fails site = false) (h : Ensures (f ()) t Q E) :
    Ensures (reach input site call >>= f) t Q E := by
  unfold Qwen36.reach
  rw [hfails]
  exact h

theorem readDecoded_ensures (htimely : Timely input) (hmodel : Selectable model)
    {h : Holding n β φ C K (List (Request K φ))} {masks : List (Option (List UInt32))}
    (contents : List (Device.Contents n β κ)) (hlength : contents.length = h.held.length)
    (hmasks : masks.length = h.held.length)
    (hcomputed : ∀ mask ∈ masks, Computed (vocabWords model) model mask) :
    Ensures (readDecoded model input masks (contents.map model.device.logitsOf)) h
      (fun samples h' => h'.scheduler = h.scheduler ∧ samples.length = h'.held.length ∧
        List.Forall₂ Redrafted h.held h'.held) fun _ _ => False := by
  have hmasked := maskDecoded_ok htimely masks (contents.map model.device.logitsOf)
    (by simp [hlength, hmasks]) hcomputed
  have hrows : ∀ row ∈ (masks.zip (contents.map model.device.logitsOf)).map
      (fun row => maskRow model row.1 row.2), ∃ sampled, argmaxLogits model row = .ok sampled := by
    intro row hrow
    obtain ⟨pair, hpair, rfl⟩ := mem_map.mp hrow
    obtain ⟨hmask, hlogits⟩ := of_mem_zip hpair
    obtain ⟨content, -, hcontent⟩ := mem_map.mp hlogits
    rw [← hcontent]
    exact hmodel content pair.1 ((hcomputed _ hmask).imp_right fun hg => ⟨hg.choose, hg.choose_spec.2⟩)
  obtain ⟨samples, hsamples, hcount⟩ := sampleDecoded_ok htimely h.held
    (by simp [hlength, hmasks]) hrows
  have htracked := trackFrontiers_redrafted input hcount
  have hemitted : ((trackFrontiers input h.held samples).map Prod.snd).length = h.held.length := by
    simp [trackFrontiers, hcount]
  -- The drafters follow behind the frontiers, with or without the hidden row.
  have hdrafters : Ensures (if h.held.any fun r => r.dflash2State then do
        setHeld (appendDflash2 input ((trackFrontiers input h.held samples).map Prod.fst))
        reach input .dflash2Synchronize "synchronize"
        pure ((trackFrontiers input h.held samples).map Prod.snd)
      else pure ((trackFrontiers input h.held samples).map Prod.snd))
      { h with held := (trackFrontiers input h.held samples).map Prod.fst }
      (fun samples h' => h'.scheduler = h.scheduler ∧ samples.length = h'.held.length ∧
        List.Forall₂ Redrafted h.held h'.held) (fun _ _ => False) := by
    split
    · apply modify_bind
      apply reach_ok_bind (htimely.calls .dflash2Synchronize rfl)
      have happended := appendDflash2_redrafted input
        ((trackFrontiers input h.held samples).map Prod.fst)
      have hboth := redrafted_trans htracked happended
      exact ⟨rfl, hemitted.trans hboth.length_eq, hboth⟩
    · exact ⟨rfl, hemitted.trans htracked.length_eq, htracked⟩
  apply get_bind
  apply attempt_ok_bind hmasked
  apply attempt_ok_bind hsamples
  apply modify_bind
  dsimp only
  split
  · exact reach_ok_bind (htimely.calls .hiddenSynchronize rfl) hdrafters
  · exact hdrafters

end

/-! ## A decode batch -/

section
variable {model : TextModel n β κ φ C R K} {input : TickInput φ} {selected : List (Request K φ)}
variable {h : Holding n β φ C K (List (Request K φ))}

theorem regrammar_selected (h : Selected words s selected)
    (hsame : List.Forall₂ (Regrammared words) selected selected') : Selected words s selected' := by
  refine ⟨?_, ?_, ?_⟩
  · have hledger := h.ledger
    rw [← append_nil selected] at hledger
    have hchanged := hledger.changeAll (hsame.imp fun _ _ hr => ⟨hr.same.id, hr.same.sequenceId⟩)
    rwa [append_nil] at hchanged
  · refine forall_mem_of_forall₂ hsame h.settled fun r r' hrow hsettled => ?_
    exact ⟨hrow.same.consistent hsettled.consistent hrow.ready hrow.grammar,
      hrow.same.leads hsettled.leads⟩
  · refine forall_mem_of_forall₂ hsame h.decodable fun r r' hrow hdecodable => ?_
    unfold Decodable
    rwa [hrow.same.lifecycle, hrow.same.remaining_eq]

/-- What `execute_decode` submits: the ids and the leased sequences of the requests that
it holds, and a mask for each row. -/
structure Submitted (words : Nat) (model : TextModel n β κ φ C R K)
    (h : Holding n β φ C K (List (Request K φ))) (ids : List Nat) (rows : List (DecodeRow n β))
    (masks : List (Option (List UInt32))) : Prop where
  selected : Selected words h.scheduler h.held
  owners : List.Forall₂ (fun r id => r.sequenceId = some id) h.held ids
  leased : leaseMany h.scheduler.sequences ids = .ok (rows.map DecodeRow.sequence)
  length : masks.length = h.held.length
  computed : ∀ mask ∈ masks, Computed words model mask

theorem allocateDrafters_ensures :
    Ensures (allocateDrafters input) h (fun _ => Untouched h) (OnFailure (Untouched h)) := by
  apply get_bind
  dsimp only
  split
  · apply get_bind
    refine allocate_ensures.bind fun _ h' hsame => ?_
    exact ensures_imp allocateDflash2_ensures (fun _ _ => hsame.trans) fun _ => hsame.trans
  · exact allocateDflash2_ensures

theorem mapM_sequenceIds {e : Request K φ → CudaError}
    (h : (selected.mapM fun r => match r.sequenceId with
      | some id => Except.ok id
      | none => .error (e r)) = .ok ids) :
    List.Forall₂ (fun r id => r.sequenceId = some id) selected ids := by
  refine (mapM_ok h).imp fun r id hid => ?_
  split at hid
  · cases hid
    assumption
  · cases hid

theorem owners_of_same
    (hsame : List.Forall₂ (fun r r' => r'.sequenceId = r.sequenceId) selected selected')
    (h : List.Forall₂ (fun r id => r.sequenceId = some id) selected ids) :
    List.Forall₂ (fun r id => r.sequenceId = some id) selected' ids := by
  induction hsame generalizing ids with
  | nil => exact h
  | cons hhead _ ih =>
    cases h with
    | cons howner hrest => exact .cons (hhead.trans howner) (ih hrest)

theorem submitDecode_ensures (hselected : Selected words h.scheduler h.held) :
    Ensures (submitDecode model input) h
      (fun submitted h' => Submitted words model h' submitted.2.1 submitted.2.2.1 submitted.2.2.2)
      (OnFailure fun h' => Selected words h'.scheduler h'.held) := by
  have hselected' : ∀ h', Untouched h h' → Selected words h'.scheduler h'.held := by
    intro h' hsame
    rw [hsame.held]
    exact hselected.of_books hsame.books
  have hallocated : Ensures (allocateDrafters input) h
      (fun _ h' => Selected words h'.scheduler h'.held)
      (OnFailure fun h' => Selected words h'.scheduler h'.held) :=
    ensures_imp allocateDrafters_ensures (fun _ => hselected') hselected'
  refine hallocated.bind fun _ h₁ hselected => ?_
  apply get_bind
  apply get_bind
  apply expect_bind
  intro workspace _
  refine attempt_bind (fun ids hids => ?_) hselected
  apply get_bind
  refine attempt_bind (fun leased hleased => ?_) hselected
  apply modify_bind
  have hgrammar := fun r hr => (hselected.settled r hr).consistent.grammar
  have hkept := prepareRows_keeps model hgrammar
  have hprepared := regrammar_selected hselected hkept
  split
  · rename_i fault hfault
    cases fault with
    | failed e => exact hprepared
    | panicked message => exact trivial
  · rename_i rows hrows
    obtain ⟨hlength, hcomputed⟩ := prepareRows_computed hgrammar hrows
    have howners := mapM_sequenceIds hids
    have hleases := (leaseMany_ok hleased).2.length_eq
    refine Ensures.pure ⟨hprepared, ?_, ?_, ?_, ?_⟩
    · exact owners_of_same (hkept.imp fun _ _ hr => hr.same.sequenceId) howners
    · have hsequences : ((rows.zip leased).map fun row =>
          (⟨row.1.1, row.2⟩ : DecodeRow n β)).map DecodeRow.sequence = leased := by
        rw [map_map]
        exact map_snd_zip (by rw [hlength, howners.length_eq, hleases])
      rw [hsequences]
      exact hleased
    · rw [length_map, hlength, hkept.length_eq]
    · intro mask hmask
      obtain ⟨row, hrow, rfl⟩ := mem_map.mp hmask
      exact hcomputed row hrow

theorem mem_heldSequences (h : List.Forall₂ (fun r id => r.sequenceId = some id) selected ids) :
    ∀ id ∈ ids, id ∈ heldSequences selected [] := by
  refine forall_mem_of_forall₂ h (p := fun r => r ∈ selected) (fun _ hr => hr) fun r id hid hr => ?_
  exact mem_append_left _ (mem_filterMap.mpr ⟨r, hr, hid⟩)

/-- A batch that returns has moved every sequence one token ahead. -/
theorem executeDecode_ensures (htimely : Timely input) (hmodel : Selectable model)
    (hselected : Selected (vocabWords model) h.scheduler h.held) :
    Ensures (executeDecode model input) h
      (fun samples h' => Ledger (vocabWords model) (booksOf h'.scheduler) h'.held [] ∧
        samples.length = h'.held.length ∧
        ∀ r ∈ h'.held, Primed (vocabWords model) r ∧ Leads h'.scheduler.sequences 1 r)
      (OnFailure fun h' => Selected (vocabWords model) h'.scheduler h'.held) := by
  refine (submitDecode_ensures hselected).bind fun submitted h₁ hsubmitted => ?_
  obtain ⟨workspace, ids, rows, masks⟩ := submitted
  have hledger := hsubmitted.selected.ledger
  have hbefores : (rows.map DecodeRow.toBatchRow).map BatchRow.sequence =
      rows.map DecodeRow.sequence := by
    rw [map_map]
    rfl
  have hleased := hsubmitted.leased
  rw [← hbefores] at hleased
  have hidle : AllIdle (rows.map DecodeRow.toBatchRow) := by
    intro row hrow
    exact hledger.idle_of_lease hleased row.sequence (mem_map_of_mem hrow)
  have hmoves : BatchMoves input.decodeCall (rows.map DecodeRow.toBatchRow)
      (executeDecodeBatch model.cache model.device model.modelId input.decodeCall workspace rows
        h₁.scheduler.cache) := appendBatch_moves _ _ _ _ _ hidle
  apply get_bind
  generalize executeDecodeBatch model.cache model.device model.modelId input.decodeCall workspace
    rows h₁.scheduler.cache = outcome at hmoves ⊢
  obtain ⟨⟨after, cache⟩, result⟩ := outcome
  have hsingle : ∀ before ∈ rows.map DecodeRow.toBatchRow, before.tokens.length = 1 := by
    intro before hbefore
    obtain ⟨row, -, rfl⟩ := mem_map.mp hbefore
    rfl
  have hstands : ∀ r ∈ h₁.held, Leads h₁.scheduler.sequences 0 r :=
    fun r hr => (hsubmitted.selected.settled r hr).leads
  have hheld := mem_heldSequences hsubmitted.owners
  have hended := hledger.batch hleased hheld hmoves
  apply modify_bind
  cases hmoves with
  | advanced moved =>
    have hmoved := leads_of_moved hsubmitted.owners hleased moved hsingle hstands
    have hlength : after.length = h₁.held.length := by
      have hcount := (leaseMany_ok hleased).2.length_eq
      rw [length_map] at hcount
      rw [← moved.length_eq, ← hcount, ← hsubmitted.owners.length_eq]
    have hcontents : (after.map fun row =>
        model.device.logitsOf (contentsOf model.cache row cache)) =
        (after.map fun row => contentsOf model.cache row cache).map model.device.logitsOf := by
      rw [map_map]
      rfl
    apply attempt_ok_bind rfl
    rw [hcontents]
    have hread := readDecoded_ensures htimely hmodel
      (h := ⟨{ h₁.scheduler with
        sequences := endLease h₁.scheduler.sequences ids (after.map BatchRow.sequence)
        cache := cache }, h₁.held⟩)
      (after.map fun row => contentsOf model.cache row cache) ((length_map _).trans hlength) hsubmitted.length hsubmitted.computed
    refine hread.mono (fun samples h' hread => ?_) fun _ _ hfalse => hfalse.elim
    obtain ⟨hscheduler, hcount, hredrafted⟩ := hread
    have hprimed : ∀ r ∈ h₁.held, Primed (vocabWords model) r := fun r hr =>
      primed_of_decodable (hsubmitted.selected.settled r hr).consistent
        (hsubmitted.selected.decodable r hr)
    have hboth : ∀ r ∈ h₁.held, Primed (vocabWords model) r ∧ Leads _ 1 r :=
      fun r hr => ⟨hprimed r hr, hmoved r hr⟩
    rw [hscheduler]
    refine ⟨changeAll_redrafted hended hredrafted, hcount, ?_⟩
    refine forall_mem_of_forall₂ hredrafted hboth fun r r' hsame hr => ?_
    exact ⟨hsame.primed hr.1, hsame.same.leads hr.2⟩
  | kept moved =>
    have hnone : ∀ before ∈ rows.map DecodeRow.toBatchRow, (fun _ => 0 : BatchRow n β → Nat) before = 0 :=
      fun _ _ => rfl
    have hkept := leads_of_moved hsubmitted.owners hleased moved hnone hstands
    refine attempt_bind (fun _ hok => ?_) ?_
    · cases hok
    · exact ⟨hended, fun r hr => ⟨(hsubmitted.selected.settled r hr).consistent, hkept r hr⟩,
        hsubmitted.selected.decodable⟩
  | torn row call idle length =>
    have htears := htimely.decode
    rw [call] at htears
    cases htears

end

/-! ## A speculative cycle -/

section
variable {model : TextModel n β κ φ C R K} {input : TickInput φ}

variable {frontier : SpeculativeFrontier φ} {h : Holding n β φ C K (Request K φ)}

theorem externalCycle_moves {config : SchedulerConfig} {drafts : Nat} {cache : C}
    (hidle : sequence.state.appendPending = false) :
    CycleMoves input.decodeCall sequence
      (externalCycle model input config drafts preview frontier sequence cache) := by
  unfold externalCycle
  dsimp only
  split
  · exact .kept (.refl hidle)
  · split
    · exact .kept (.refl hidle)
    · split
      · exact verifyExternalSpeculative_moves _ _ _ _ _ _ _ hidle
      · split
        · exact .kept (.refl hidle)
        · exact verifyExternalSpeculative_moves _ _ _ _ _ _ _ hidle
        · exact verifyExternalSpeculative_moves _ _ _ _ _ _ _ hidle

theorem speculativeCycle_moves {config : SchedulerConfig} {request : Request K φ} {cache : C}
    (hidle : sequence.state.appendPending = false) :
    CycleMoves input.decodeCall sequence
      (speculativeCycle model input config request preview frontier sequence cache) := by
  unfold speculativeCycle
  split
  · exact externalCycle_moves hidle
  · exact speculativeCycleArgmax_moves _ _ _ _ _ hidle

theorem selected_same (h : Selected words s [r]) (hsame : SameCursor r r')
    (hready : r'.specReady = r.specReady)
    (hgrammar : r'.toolGrammar = r.toolGrammar) : Selected words s [r'] := by
  refine regrammar_selected h (.cons ⟨hsame, hready, ?_⟩ .nil)
  rw [hgrammar]
  exact (h.settled r mem_cons_self).consistent.grammar

/-- The samples of a cycle, without the frontier that has been emitted. -/
theorem length_cycleSamples {outcome : SpeculativeCycleOutcome φ} (skip : Nat)
    (h : outcome.committedLogits.length = outcome.committed.length) :
    (cycleSamples outcome skip).length = outcome.committed.length - skip := by
  simp [cycleSamples, h]

/-- A request that a cycle is run for. -/
structure Cycling (words : Nat) (s : Scheduler n β φ C K) (r : Request K φ) : Prop where
  selected : Selected words s [r]
  decoding : r.lifecycle = .decoding
  ready : r.specReady = true

theorem Selected.cycling (h : Selected words s [r])
    (hready : r.specReady = true) : Cycling words s r := by
  refine ⟨h, ?_, hready⟩
  obtain hdecoding | ⟨hprefilling, -⟩ := h.decodable r mem_cons_self
  · exact hdecoding
  · have hfresh := ((h.settled r mem_cons_self).consistent.fresh (.inr hprefilling)).2.2
    rw [hready] at hfresh
    cases hfresh

/-- A request whose cycle has started emits its frontier with the next samples. -/
theorem Cycling.primed (h : Cycling words s r)
    (hsame : SameCursor { r with specStarted := true } r') (hready : r'.specReady = true)
    (hgrammar : r'.toolGrammar = r.toolGrammar) : Primed words r' := by
  have hconsistent := (h.selected.settled r mem_cons_self).consistent
  refine ⟨fun _ => ?_, fun hlifecycle => ?_, fun _ => hready, ?_⟩
  · rw [hsame.lastToken, hsame.generatedTokens, hsame.remaining_eq]
    exact hconsistent.decoding h.decoding
  · exact absurd (hsame.lifecycle.trans h.decoding) hlifecycle
  · rw [hgrammar]
    exact hconsistent.grammar

theorem Cycling.leads {after : Sequence n β} {pool : BTreeMap Nat (Sequence n β)} {id count : Nat}
    (h : Cycling words s r) (hsame : SameCursor { r with specStarted := true } r')
    (hid : r.sequenceId = some id) (hget : s.sequences.get id = some sequence)
    (hafter : pool.get id = some after) (hmoved : Moved count sequence after) (hcount : 0 < count) :
    Leads pool (count - if r.specStarted then 0 else 1) r' := by
  have hsettled := h.selected.settled r mem_cons_self
  have hunfinished : r.lifecycle ≠ .finished := by
    rw [h.decoding]
    decide
  obtain ⟨after', hafter', hposition⟩ := hsettled.leads.moved hid hget hafter hmoved hunfinished id hid
  obtain rfl : after = after' := Option.some.inj (hafter.symm.trans hafter')
  have hgenerated := length_pos_iff.mpr (hsettled.consistent.decoding h.decoding).2.1
  intro _ id' hid'
  obtain rfl : id = id' := Option.some.inj (hid.symm.trans (hsame.sequenceId.symm.trans hid'))
  refine ⟨after, hafter, ?_⟩
  have hconsumed : consumed r' = r.promptTokens.length + r.generatedTokens.length := by
    rw [hsame.consumed_eq, consumed, if_pos h.decoding]
    rfl
  rw [consumed, if_pos h.decoding] at hposition
  rw [hposition, hconsumed]
  cases r.specStarted
  · simp only [Bool.false_eq_true, if_false]
    omega
  · simp only [if_true]
    omega

theorem runCycle_ensures (htimely : Timely input)
    {request : Request K φ} {id : Nat} (hcycling : Cycling words h.scheduler request)
    (hheld : h.held = { request with specFrontier := none }) (hid : request.sequenceId = some id)
    (hlease : leaseMany h.scheduler.sequences [id] = .ok [sequence]) :
    Ensures (runCycle model input request frontier id sequence preview) h
      (fun result h' => Ledger words (booksOf h'.scheduler) [h'.held] [] ∧
        Sampled words model h'.scheduler.sequences h'.held result.1)
      (OnFailure fun h' => Selected words h'.scheduler [h'.held]) := by
  have hunheld : Selected words h.scheduler [{ request with specFrontier := none }] :=
    selected_same hcycling.selected ⟨rfl, rfl, rfl, rfl, rfl, rfl, rfl, rfl⟩ rfl rfl
  have hallocated : Ensures (allocateDflash2 input request.dflash2State) h (fun _ => Untouched h)
      (OnFailure fun h' => Selected words h'.scheduler [h'.held]) := by
    refine ensures_imp allocateDflash2_ensures (fun _ _ hsame => hsame) fun h' hsame => ?_
    rw [hsame.held, hheld]
    exact hunheld.of_books hsame.books
  refine hallocated.bind fun _ h₁ hsame => ?_
  have hcycling : Cycling words h₁.scheduler request :=
    ⟨hcycling.selected.of_books hsame.books, hcycling.decoding, hcycling.ready⟩
  have hsequences : h₁.scheduler.sequences = h.scheduler.sequences :=
    congrArg Books.sequences hsame.books
  rw [← hsequences] at hlease
  have hget : h₁.scheduler.sequences.get id = some sequence := by
    cases (leaseMany_ok hlease).2 with
    | cons hget _ => exact hget
  have hidle := hcycling.selected.ledger.idle_of_lease hlease sequence mem_cons_self
  have hmoves : CycleMoves input.decodeCall sequence (speculativeCycle model input
      h₁.scheduler.config request preview frontier sequence h₁.scheduler.cache) :=
    speculativeCycle_moves hidle
  apply get_bind
  dsimp only
  generalize speculativeCycle model input h₁.scheduler.config request preview frontier sequence
    h₁.scheduler.cache = result at hmoves ⊢
  obtain ⟨⟨after, cache, next⟩, outcome⟩ := result
  have hafter : (endLease h₁.scheduler.sequences [id] [after]).get id = some after :=
    get_endLease_of_mem (nodup_singleton id) (by simp)
  have hheldIds : ∀ other ∈ [id], other ∈ heldSequences [request] [] := by
    intro other hother
    rw [mem_singleton.mp hother]
    exact mem_append_left _ (by simp [hid])
  have hidleAfter : ∀ entry ∈ [after], entry.state.appendPending = false :=
    forall_mem_singleton.mpr hmoves.idle
  have hledger := hcycling.selected.ledger.endLease hlease hheldIds rfl hidleAfter
  apply modify_bind
  apply modify_bind
  cases hmoves with
  | advanced moved tokens logits =>
    apply attempt_ok_bind rfl
    apply modify_bind
    refine Ensures.pure ⟨hledger.change _ rfl rfl, .counted ?_ ?_ fun _ => hcycling.decoding⟩
    · refine hcycling.primed ⟨rfl, rfl, rfl, rfl, rfl, rfl, rfl, rfl⟩ ?_ rfl
      simp [hcycling.ready]
    · rw [length_cycleSamples _ logits]
      exact hcycling.leads ⟨rfl, rfl, rfl, rfl, rfl, rfl, rfl, rfl⟩ hid hget hafter moved (by omega)
  | kept moved =>
    refine attempt_bind (fun _ hok => ?_) ?_
    · cases hok
    · have hsettled := hcycling.selected.settled request mem_cons_self
      have hstands := hsettled.leads.moved hid hget hafter moved
      refine selected_same (r := request) ⟨hledger, ?_, hcycling.selected.decodable⟩
        ⟨rfl, rfl, rfl, rfl, rfl, rfl, rfl, rfl⟩ rfl rfl
      exact forall_mem_singleton.mpr ⟨hsettled.consistent, hstands⟩
  | copied call idle => exact absurd call htimely.frontier

theorem grammarPreview_some {g : ToolGrammar K}
    (h : grammarPreview model r frontier = .ok (some g)) :
    ∃ grammar, r.toolGrammar = some grammar ∧ (r.specStarted = true →
      grammar.commit model.constraint frontier.token = (g, .ok ())) ∧
      (r.specStarted = false → grammar = g) := by
  unfold grammarPreview at h
  split at h
  · cases h
  · rename_i grammar hgrammar
    refine ⟨grammar, hgrammar, ?_⟩
    split at h
    · rename_i hstarted
      split at h
      · cases h
      · rename_i committed heq
        cases h
        exact ⟨fun _ => heq, fun hnot => by rw [hstarted] at hnot; cases hnot⟩
    · rename_i hstarted
      cases h
      exact ⟨fun hyes => absurd hyes hstarted, fun _ => rfl⟩

theorem complete_of_preview (h : grammarPreview model r frontier = .ok preview)
    (hcomplete : preview.any (·.isComplete model.constraint) = true) :
    ∃ grammar, r.toolGrammar = some grammar ∧
      ((grammar.commit model.constraint frontier.token).2 = .ok () →
        (grammar.commit model.constraint frontier.token).1.isComplete model.constraint = true) := by
  cases preview with
  | none => cases hcomplete
  | some g =>
    obtain ⟨grammar, hgrammar, hstarted, hfresh⟩ := grammarPreview_some h
    refine ⟨grammar, hgrammar, fun hok => ?_⟩
    cases hspec : r.specStarted with
    | true =>
      rw [hstarted hspec]
      exact hcomplete
    | false =>
      -- A complete grammar takes no further token.
      obtain rfl := hfresh hspec
      have hactive : grammar.active = true := by
        simp only [Option.any_some, ToolGrammar.isComplete, Bool.and_eq_true] at hcomplete
        exact hcomplete.1
      have hdone : grammar.isComplete model.constraint = true := hcomplete
      simp [ToolGrammar.commit, hactive, hdone] at hok

theorem executeSpeculative_ensures (htimely : Timely input)
    (hcycling : Cycling words h.scheduler h.held) :
    Ensures (executeSpeculative model input) h
      (fun result h' => Ledger words (booksOf h'.scheduler) [h'.held] [] ∧
        Sampled words model h'.scheduler.sequences h'.held result.1)
      (OnFailure fun h' => Selected words h'.scheduler [h'.held]) := by
  have hallocated : ∀ {present : Bool} {call : String} {workspaces : Workspaces → Workspaces},
      Ensures (allocate input present .newSpeculativeWorkspace call workspaces) h
        (fun _ => Untouched h) (OnFailure fun h' => Selected words h'.scheduler [h'.held]) := by
    intro present call workspaces
    refine ensures_imp allocate_ensures (fun _ _ hsame => hsame) fun h' hsame => ?_
    rw [hsame.held]
    exact hcycling.selected.of_books hsame.books
  apply get_bind
  refine hallocated.bind fun _ h₁ hsame => ?_
  have hcycling : Cycling words h₁.scheduler h₁.held := by
    rw [hsame.held]
    exact ⟨hcycling.selected.of_books hsame.books, hcycling.decoding, hcycling.ready⟩
  have hunheld : Selected words h₁.scheduler [{ h₁.held with specFrontier := none }] :=
    selected_same hcycling.selected ⟨rfl, rfl, rfl, rfl, rfl, rfl, rfl, rfl⟩ rfl rfl
  apply get_bind
  apply expect_bind
  intro frontier hfrontier
  apply modify_bind
  apply expect_bind
  intro id hid
  apply get_bind
  refine attempt_bind (fun leased hleased => ?_) hunheld
  apply expect_bind
  intro sequence hsequence
  refine attempt_bind (fun preview hpreview => ?_) hunheld
  split
  · rename_i hcomplete
    obtain ⟨grammar, hgrammar, hends⟩ := complete_of_preview hpreview hcomplete
    apply modify_bind
    refine Ensures.pure ⟨hcycling.selected.ledger.change _ rfl rfl, .closing ?_ hgrammar hends⟩
    exact hcycling.primed (.refl _) hcycling.ready rfl
  · have hlease : leased = [sequence] := by
      cases (leaseMany_ok hleased).2 with
      | cons _ hrest =>
        cases hrest
        cases hsequence
        rfl
    exact runCycle_ensures htimely hcycling rfl hid (hlease ▸ hleased)

end

/-! ## The phase -/

section
variable {model : TextModel n β κ φ C R K} {input : TickInput φ} {s : Scheduler n β φ C K}
variable {selected : List (Request K φ)}

theorem requeue_raise {e : CudaError} (h : Selected words s selected) :
    Ensures (requeueSelected selected >>= fun _ => (raise e : Scheduling n β φ C K Unit)) s
      (fun _ => Sound words) (OnFailure (Sound words)) :=
  (requeueSelected_ensures h).bind fun _ _ ht => ht

theorem settleDecoded_ensures {samples : List (SampledToken φ)}
    (hledger : Ledger words (booksOf s) selected []) (hlength : samples.length = selected.length)
    (h : ∀ r ∈ selected, Primed words r ∧ Leads s.sequences 1 r) :
    Ensures (settleRequests model (selected.zip (samples.map fun sample => [sample]))) s
      (fun _ => Sound words) (OnFailure (Sound words)) := by
  apply settleRequests_ensures
  · rw [map_fst_zip (by rw [length_map, hlength])]
    exact hledger
  · intro entry hentry
    obtain ⟨hr, hsample⟩ := of_mem_zip hentry
    obtain ⟨sample, -, hsample⟩ := mem_map.mp hsample
    rw [← hsample]
    exact .counted (h _ hr).1 (h _ hr).2 fun hnil => by cases hnil

theorem decodeBatch_ensures (htimely : Timely input) (hmodel : Selectable model)
    (h : Selected (vocabWords model) s selected) :
    Ensures (lend selected (executeDecode model input) >>= fun result =>
      match result with
      | (selected, .error e) => do
        requeueSelected selected
        raise e
      | (selected, .ok samples) =>
        settleRequests model (selected.zip (samples.map fun sample => [sample]))) s
      (fun _ => Sound (vocabWords model)) (OnFailure (Sound (vocabWords model))) := by
  refine lend_bind (executeDecode_ensures htimely hmodel h) ?_ ?_
  · intro samples h' hdecoded
    exact settleDecoded_ensures hdecoded.1 hdecoded.2.1 hdecoded.2.2
  · intro e h' hkept
    exact requeue_raise hkept

theorem decodeSelected_ensures (htimely : Timely input) (hmodel : Selectable model)
    (h : Selected (vocabWords model) s selected) :
    Ensures (decodeSelected model input selected) s (fun _ => Sound (vocabWords model))
      (OnFailure (Sound (vocabWords model))) := by
  have hbatch := decodeBatch_ensures htimely hmodel h
  apply get_bind
  dsimp only
  split
  · exact h.ledger
  · rename_i request
    split
    · rename_i heligible
      have hready : request.specReady = true := by
        simp only [specEligible, Bool.and_eq_true] at heligible
        exact heligible.1.1.1.1.1.2
      refine lend_bind (executeSpeculative_ensures htimely (Selected.cycling h hready)) ?_ ?_
      · intro result h' hcycle
        apply modify_bind
        apply settleRequests_ensures
        · exact hcycle.1
        · exact forall_mem_singleton.mpr hcycle.2
      · intro e h' hkept
        exact requeue_raise hkept
    · exact hbatch
  · exact hbatch

theorem runDecodePhase_ensures (htimely : Timely input) (hmodel : Selectable model)
    (h : Sound (vocabWords model) s) :
    Ensures (runDecodePhase model input) s (fun _ => Sound (vocabWords model))
      (OnFailure (Sound (vocabWords model))) := by
  apply get_bind
  refine (selectDecoding_ensures _ h).bind fun decoding t ht => ?_
  apply get_bind
  have hselected : Selected (vocabWords model) t decoding := by
    obtain ⟨hledger, hsequences, hdecoding⟩ := ht
    rw [append_nil] at hledger
    refine ⟨hledger, fun r hr => ?_, fun r hr => .inl (hdecoding r hr).2⟩
    rw [hsequences]
    exact (hdecoding r hr).1
  refine (scanPrefilling_ensures _ hselected).bind fun selected u hu => ?_
  apply modify_bind
  exact decodeSelected_ensures htimely hmodel (hu.of_books rfl)

end

end Eider.Guarantees.CursorSubmit
