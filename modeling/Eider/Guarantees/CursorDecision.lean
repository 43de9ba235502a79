import Eider.Guarantees.CursorPrefill

/-!
The decision phase keeps the ledger, whatever fails. It moves only the sequences of the
group that it holds, and no request owns one of these.
-/
namespace Eider.Guarantees.CursorDecision
open Lib Lib.ByteReader Source Source.Qwen36 List Ensures
open Guarantees.BatchPositions Guarantees.SchedulerLedger
open Guarantees.CursorDecode Guarantees.CursorSubmit Guarantees.CursorPrefill

variable {n words id : Nat} {β κ φ C R K α γ : Type}
variable {ρ : Type} {call : Scheduling n β φ C K α} {sequenceId : Nat}

/-- The phase holds the group `id`, which is not in the map. -/
structure Grouped (words id : Nat) (h : Holding n β φ C K (DecisionGroup φ)) : Prop where
  ledger : Ledger words (booksOf h.scheduler) [] [h.held]
  taken : h.scheduler.decisions.get id = none

variable {g : DecisionGroup φ}

section
variable {model : TextModel n β κ φ C R K} {input : TickInput φ}
variable {h : Holding n β φ C K (DecisionGroup φ)} {s : Scheduler n β φ C K}
variable {Q : γ → Holding n β φ C K ρ → Prop} {A : α → Scheduler n β φ C K → Prop}
variable {P : Holding n β φ C K ρ → Prop} {B : Scheduler n β φ C K → Prop}

theorem onScheduler_ensures {h : Holding n β φ C K ρ} {Q : α → Holding n β φ C K ρ → Prop}
    (hcall : Ensures call h.scheduler A (OnFailure B))
    (hok : ∀ a t, A a t → Q a { h with scheduler := t })
    (hfailed : ∀ t, B t → P { h with scheduler := t }) :
    Ensures (onScheduler call) h Q (OnFailure P) := by
  unfold Ensures onScheduler
  unfold Ensures at hcall
  split at hcall
  · rename_i a t heq
    rw [heq]
    exact hok a t hcall
  · rename_i fault t heq
    rw [heq]
    cases fault with
    | failed e => exact hfailed t hcall
    | panicked message => exact trivial

theorem onScheduler_bind {h : Holding n β φ C K ρ} {f : α → Submitting n β φ C K ρ γ}
    (hcall : Ensures call h.scheduler A (OnFailure B))
    (hok : ∀ a t, A a t → Ensures (f a) { h with scheduler := t } Q (OnFailure P))
    (hfailed : ∀ t, B t → P { h with scheduler := t }) :
    Ensures (onScheduler call >>= f) h Q (OnFailure P) := by
  have hlifted : Ensures (onScheduler call) h (fun a h' => Ensures (f a) h' Q (OnFailure P))
      (OnFailure P) := onScheduler_ensures hcall hok hfailed
  exact hlifted.bind fun _ _ hnext => hnext

theorem modify_bind {h : Holding n β φ C K ρ} {g : Scheduler n β φ C K → Scheduler n β φ C K}
    {f : Unit → Submitting n β φ C K ρ γ} {E : Fault CudaError → Holding n β φ C K ρ → Prop}
    (hok : Ensures (f ()) { h with scheduler := g h.scheduler } Q E) :
    Ensures (onScheduler (modify g) >>= f) h Q E := hok

section
variable (hgroup : Grouped words id h)
include hgroup

theorem Grouped.of_books {t : Scheduler n β φ C K}
    (hbooks : booksOf t = booksOf h.scheduler) : Grouped words id { h with scheduler := t } := by
  refine ⟨?_, ?_⟩
  · rw [hbooks]
    exact hgroup.ledger
  · have hdecisions : t.decisions = h.scheduler.decisions := congrArg Books.decisions hbooks
    rw [hdecisions]
    exact hgroup.taken

theorem Grouped.change (hsequences : g.sequences.Subperm h.held.sequences) :
    Grouped words id { h with held := g } :=
  ⟨hgroup.ledger.changeGroup hsequences, hgroup.taken⟩

theorem Grouped.same
    (hsequences : g.sequences = h.held.sequences) : Grouped words id { h with held := g } :=
  hgroup.change (hsequences ▸ List.Subperm.refl _)

theorem Grouped.insert {sequence : Sequence n β} (hidle : sequence.state.appendPending = false)
    (hsequences : g.sequences.Perm (h.scheduler.nextSequenceId :: h.held.sequences)) :
    Grouped words id ⟨{ h.scheduler with
      sequences := h.scheduler.sequences.insert h.scheduler.nextSequenceId sequence
      nextSequenceId := h.scheduler.nextSequenceId + 1 }, g⟩ := by
  refine ⟨?_, hgroup.taken⟩
  refine (hgroup.ledger.allocate hidle).assignGroup hsequences ?_ (Nat.lt_succ_self _)
  intro hmem
  exact Nat.lt_irrefl _ (hgroup.ledger.live _ hmem)

omit hgroup in
theorem mem_held_of_group (h : sequenceId ∈ g.sequences) :
    sequenceId ∈ heldSequences ([] : List (Request K φ)) [g] := by
  simpa [heldSequences] using h

theorem Grouped.batch {failing : Option Call} {ids : List Nat} {befores rows : List (BatchRow n β)}
    {cache : C} {result : Except CudaError Unit}
    (hlease : leaseMany h.scheduler.sequences ids = .ok (befores.map BatchRow.sequence))
    (hids : ∀ sequenceId ∈ ids, sequenceId ∈ h.held.sequences)
    (hmoves : BatchMoves failing befores ((rows, cache), result)) :
    Grouped words id { h with scheduler := { h.scheduler with
      sequences := endLease h.scheduler.sequences ids (rows.map BatchRow.sequence)
      cache := cache } } :=
  ⟨hgroup.ledger.batch hlease (fun sequenceId hmem => mem_held_of_group (hids sequenceId hmem)) hmoves,
    hgroup.taken⟩

end

end

/-! ## New sequences -/

section
variable {model : TextModel n β κ φ C R K} {input : TickInput φ} {s : Scheduler n β φ C K}

/-- The call leaves the books, and the sequence it returns is outside an append. -/
def Opens (sequences : α → List (Sequence n β)) (call : Scheduling n β φ C K α) : Prop :=
  ∀ s, Ensures call s (fun a t => booksOf t = booksOf s ∧
    ∀ sequence ∈ sequences a, sequence.state.appendPending = false)
    (OnFailure fun t => booksOf t = booksOf s)

theorem admitSequence_opens (maxTokens : Nat) :
    Opens (fun sequence => [sequence]) (admitSequence model input maxTokens :
      Scheduling n β φ C K (Sequence n β)) := by
  intro s
  refine attempt_bind (fun state hstate => ?_) rfl
  refine reach_bind ?_ fun _ => rfl
  apply Ensures.get_bind
  apply Ensures.modify_bind
  refine attempt_bind (fun outcome _ => ?_) rfl
  cases outcome with
  | wouldBlock => exact rfl
  | admitted cacheId snapshot position =>
    refine reach_bind ?_ fun _ => rfl
    exact ⟨rfl, forall_mem_singleton.mpr (newSequenceState_idle hstate)⟩

theorem restoreAligned_idle {snapshot : Option (SequenceSnapshot n β)} {position : Nat}
    {state restored : SequenceState n β}
    (h : restoreAligned model snapshot position state = .ok restored) :
    restored.appendPending = state.appendPending := by
  unfold restoreAligned at h
  split at h
  · cases h
  · obtain ⟨state', hstate, h⟩ := bind_ok h
    obtain ⟨_, -, h⟩ := bind_ok h
    cases h
    exact restoreSequenceSnapshot_idle hstate

theorem forkSequenceState_idle {modelId : Nat} {source state forked : SequenceState n β}
    (h : forkSequenceState modelId source state = .ok forked) :
    forked.appendPending = state.appendPending := by
  unfold forkSequenceState at h
  split at h
  · cases h
  · cases h
    rfl

theorem admitAligned_opens (index : Nat) (matched : PrefixMatch) (maxTokens : Nat) :
    Opens Option.toList (admitAlignedDecisionBranch model input index matched maxTokens :
      Scheduling n β φ C K (Option (Sequence n β))) := by
  intro s
  refine attempt_bind (fun state hstate => ?_) rfl
  refine reach_bind ?_ fun _ => rfl
  apply Ensures.get_bind
  apply Ensures.modify_bind
  refine attempt_bind (fun outcome _ => ?_) rfl
  cases outcome with
  | wouldBlock => exact ⟨rfl, forall_mem_nil _⟩
  | admitted cacheId snapshot position =>
    dsimp only
    split
    · exact rfl
    · rename_i restored hrestored
      have hidle := (restoreAligned_idle hrestored).trans (newSequenceState_idle hstate)
      exact ⟨rfl, forall_mem_singleton.mpr hidle⟩

theorem branchSequence_opens (index : Nat) (source : Sequence n β) (maxTokens : Nat) :
    Opens Option.toList (branchSequence model input index source maxTokens :
      Scheduling n β φ C K (Option (Sequence n β))) := by
  intro s
  refine attempt_bind (fun state hstate => ?_) rfl
  refine reach_bind ?_ fun _ => rfl
  apply Ensures.get_bind
  apply Ensures.modify_bind
  refine attempt_bind (fun outcome _ => ?_) rfl
  cases outcome with
  | none => exact ⟨rfl, forall_mem_nil _⟩
  | some cacheId =>
    dsimp only
    split
    · exact rfl
    · rename_i forked hforked
      have hidle := (forkSequenceState_idle hforked).trans (newSequenceState_idle hstate)
      split
      · exact rfl
      · exact ⟨rfl, forall_mem_singleton.mpr hidle⟩

end

/-! ## Stages -/

section
variable {model : TextModel n β κ φ C R K} {input : TickInput φ}

variable {h : Holding n β φ C K (DecisionGroup φ)}

variable {Q : γ → Holding n β φ C K (DecisionGroup φ) → Prop}

theorem Grouped.opens {sequences : α → List (Sequence n β)} {f : α → Deciding n β φ C K γ}
    (hgroup : Grouped words id h) (hcall : Opens sequences call)
    (hok : ∀ a t, Grouped words id { h with scheduler := t } →
      (∀ sequence ∈ sequences a, sequence.state.appendPending = false) →
      Ensures (f a) { h with scheduler := t } Q (OnFailure (Grouped words id))) :
    Ensures (onScheduler call >>= f) h Q (OnFailure (Grouped words id)) :=
  onScheduler_bind (hcall h.scheduler) (fun a t ht => hok a t (hgroup.of_books ht.1) ht.2)
    fun _ ht => hgroup.of_books ht

theorem Grouped.insertSequence {sequence : Sequence n β} {g : Nat → DecisionGroup φ}
    {f : Nat → Deciding n β φ C K γ} (hgroup : Grouped words id h) (hidle : sequence.state.appendPending = false)
    (hsequences : (g h.scheduler.nextSequenceId).sequences.Perm
      (h.scheduler.nextSequenceId :: h.held.sequences))
    (hok : ∀ t, Grouped words id ⟨t, g h.scheduler.nextSequenceId⟩ →
      Ensures (f h.scheduler.nextSequenceId) { h with scheduler := t } Q
        (OnFailure (Grouped words id))) :
    Ensures (onScheduler (Qwen36.insertSequence sequence) >>= f) h Q (OnFailure (Grouped words id)) := by
  have hinsert : Ensures (Qwen36.insertSequence sequence) h.scheduler
      (fun sequenceId t => sequenceId = h.scheduler.nextSequenceId ∧
        Grouped words id ⟨t, g h.scheduler.nextSequenceId⟩)
      (OnFailure fun t => t = h.scheduler) := by
    apply get_bind
    split
    · exact ⟨rfl, hgroup.insert hidle hsequences⟩
    · exact rfl
  refine onScheduler_bind hinsert (fun sequenceId t ht => ?_) fun t ht => ?_
  · rw [ht.1]
    exact hok t ht.2
  · rw [ht]
    exact hgroup

theorem admitParent_keeps (hnone : h.held.parentSequenceId = none) (hgroup : Grouped words id h) :
    Ensures (admitParent model input) h (fun _ => Grouped words id)
      (OnFailure (Grouped words id)) := by
  apply get_bind
  split
  · refine hgroup.opens (admitSequence_opens _) fun sequence t ht hidle => ?_
    refine ht.insertSequence (g := fun sequenceId => { h.held with parentSequenceId := some sequenceId })
      (hidle sequence mem_cons_self) ?_ fun u hu => ?_
    · simp [DecisionGroup.sequences, hnone]
    · apply Ensures.modify_bind
      exact hu.of_books rfl
  · exact hgroup

theorem prefillRows_keeps {rows : List (Nat × List Nat)} {h : Holding n β φ C K (DecisionGroup φ)}
    (hgroup : Grouped words id h) (hrows : ∀ row ∈ rows, row.1 ∈ h.held.sequences) :
    Ensures (prefillRows model input rows) h
      (fun _ h' => Grouped words id h' ∧ h'.held = h.held) (OnFailure (Grouped words id)) := by
  apply get_bind
  refine attempt_bind (fun leased hleased => ?_) hgroup
  apply get_bind
  apply get_bind
  have hlength : leased.length = rows.length := by
    rw [← (leaseMany_ok hleased).2.length_eq, length_map]
  have hsequences : ((rows.zip leased).map fun row =>
      (⟨row.2, row.1.2⟩ : BatchRow n β)).map BatchRow.sequence = leased := by
    rw [map_map]
    exact map_snd_zip hlength.le
  rw [← hsequences] at hleased
  have hidle : AllIdle ((rows.zip leased).map fun row => (⟨row.2, row.1.2⟩ : BatchRow n β)) :=
    fun row hrow => hgroup.ledger.idle_of_lease hleased row.sequence (mem_map_of_mem hrow)
  have hmoves := appendBatch_moves model.cache model.device input.decisionCall
    (checkPrefill model.device model.modelId (prefillWorkspace model h.scheduler.config) true)
    h.scheduler.cache hidle
  have hids : ∀ sequenceId ∈ rows.map Prod.fst, sequenceId ∈ h.held.sequences := by
    intro sequenceId hmem
    obtain ⟨row, hrow, rfl⟩ := mem_map.mp hmem
    exact hrows row hrow
  unfold prefillBatch
  generalize appendBatch model.cache model.device input.decisionCall
    (checkPrefill model.device model.modelId (prefillWorkspace model h.scheduler.config) true)
    ((rows.zip leased).map fun row => (⟨row.2, row.1.2⟩ : BatchRow n β)) h.scheduler.cache = outcome
    at hmoves ⊢
  obtain ⟨⟨after, cache⟩, result⟩ := outcome
  have hended := hgroup.batch hleased hids hmoves
  apply Ensures.modify_bind
  cases result with
  | ok _ => exact ⟨hended, rfl⟩
  | error e => exact hended

theorem parent_mem_sequences {parent : Nat}
    (h : g.parentSequenceId = some parent) : parent ∈ g.sequences := by
  simp [DecisionGroup.sequences, h]

theorem prefillParent_keeps (hgroup : Grouped words id h) :
    Ensures (prefillParent model input) h (fun _ => Grouped words id)
      (OnFailure (Grouped words id)) := by
  apply get_bind
  apply expect_bind
  intro parent hparent
  have hmem := parent_mem_sequences hparent
  refine (prefillRows_keeps hgroup (forall_mem_singleton.mpr hmem)).bind fun _ h' hkept => ?_
  apply Ensures.modify_bind
  have hsame : ∀ position,
      Grouped words id { h' with held := { h.held with parentPosition := position } } :=
    fun position => hkept.1.same (by rw [hkept.2]; rfl)
  exact (hsame _).of_books rfl

theorem retainParent_keeps (hgroup : Grouped words id h) :
    Ensures (retainParent model input) h (fun _ => Grouped words id)
      (OnFailure (Grouped words id)) := by
  apply get_bind
  apply expect_bind
  intro parentId _
  apply get_bind
  refine attempt_bind (fun leased _ => ?_) hgroup
  apply expect_bind
  intro parent _
  refine attempt_bind (fun snapshot _ => ?_) hgroup
  refine reach_bind ?_ fun _ => hgroup
  apply get_bind
  apply modify_bind
  have hretained : ∀ c : C, Grouped words id { h with scheduler := { h.scheduler with cache := c } } :=
    fun c => hgroup.of_books rfl
  refine attempt_bind (fun outcome _ => ?_) (hretained _)
  refine reach_bind ?_ fun _ => hretained _
  apply get_bind
  apply modify_bind
  apply Ensures.modify_bind
  have hlooked : ∀ c : C, ∀ entry aligned, Grouped words id { h with
      scheduler := { h.scheduler with cache := c }
      held := { h.held with alignedPrefixEntry := entry, alignedPrefix := aligned } } :=
    fun c entry aligned => (hretained c).same rfl
  split
  · exact hlooked _ _ _
  · exact hlooked _ _ _

theorem nextBranchSequence_keeps (branch : DecisionBranch) (hgroup : Grouped words id h) :
    Ensures (nextBranchSequence model input branch) h
      (fun opened h' => Grouped words id h' ∧ h'.held = h.held ∧
        ∀ sequence ∈ opened.toList, sequence.state.appendPending = false)
      (OnFailure (Grouped words id)) := by
  have hopens : ∀ {call : Scheduling n β φ C K (Option (Sequence n β))}, Opens Option.toList call →
      Ensures (onScheduler call) h (fun opened h' => Grouped words id h' ∧ h'.held = h.held ∧
        ∀ sequence ∈ opened.toList, sequence.state.appendPending = false)
        (OnFailure (Grouped words id)) := by
    intro call hcall
    exact onScheduler_ensures (hcall h.scheduler) (fun _ t ht => ⟨hgroup.of_books ht.1, rfl, ht.2⟩)
      fun _ ht => hgroup.of_books ht
  apply get_bind
  dsimp only
  split
  · exact hopens (admitAligned_opens _ _ _)
  · apply expect_bind
    intro parentId _
    apply get_bind
    refine attempt_bind (fun leased _ => ?_) hgroup
    apply expect_bind
    intro parent _
    exact hopens (branchSequence_opens _ _ _)

theorem admitBranches_keeps (wave : Nat) (hgroup : Grouped words id h) :
    Ensures (admitBranches model input wave) h (fun _ => Grouped words id)
      (OnFailure (Grouped words id)) := by
  induction wave generalizing h with
  | zero => exact hgroup
  | succ wave ih =>
    apply get_bind
    dsimp only
    split
    · exact hgroup
    · rename_i branch _
      refine (nextBranchSequence_keeps branch hgroup).bind fun opened h' hopened => ?_
      obtain ⟨hkept, hheld, hidle⟩ := hopened
      cases opened with
      | none => exact hkept
      | some sequence =>
        refine hkept.insertSequence (g := fun sequenceId => { h'.held with
          activeBranches := h'.held.activeBranches ++ [⟨branch, sequenceId, 0⟩]
          nextBranch := h'.held.nextBranch + 1 }) (hidle sequence mem_cons_self) ?_
          fun t ht => ?_
        · simp only [DecisionGroup.sequences, map_append, map_singleton]
          rw [← append_assoc]
          exact perm_append_singleton _ _
        · apply Ensures.get_bind
          apply Ensures.modify_bind
          exact (ih ht).bind fun _ _ hdone => hdone

theorem forkBranches_keeps (hgroup : Grouped words id h) :
    Ensures (forkBranches model input) h (fun _ => Grouped words id)
      (OnFailure (Grouped words id)) := by
  apply get_bind
  refine (admitBranches_keeps _ hgroup).bind fun admitted h' hkept => ?_
  split
  · exact hkept
  · exact reach_bind hkept fun _ => hkept

theorem branch_mem_sequences {branch : ActiveBranch}
    (h : branch ∈ g.activeBranches) : branch.sequenceId ∈ g.sequences :=
  mem_append_right _ (mem_map_of_mem h)

theorem advanceSuffixes_sequences (branches : List ActiveBranch) (chunks : List (Nat × Nat)) :
    (advanceSuffixes branches chunks).map ActiveBranch.sequenceId =
      branches.map ActiveBranch.sequenceId := by
  apply ext_getElem
  · simp [advanceSuffixes]
  · intro i hi hi'
    simp only [advanceSuffixes, getElem_map, getElem_zipIdx]
    split <;> rfl

theorem prefillSuffixes_keeps (chunks : List (Nat × Nat)) (hgroup : Grouped words id h) :
    Ensures (prefillSuffixes model input chunks) h (fun _ => Grouped words id)
      (OnFailure (Grouped words id)) := by
  have hrows : ∀ row ∈ suffixRows h.held.activeBranches chunks, row.1 ∈ h.held.sequences := by
    intro row hrow
    obtain ⟨entry, -, hentry⟩ := mem_filterMap.mp hrow
    obtain ⟨branch, hbranch, rfl⟩ := Option.map_eq_some_iff.mp hentry
    exact branch_mem_sequences (mem_of_getElem? hbranch)
  apply get_bind
  refine (prefillRows_keeps hgroup hrows).bind fun _ h' hkept => ?_
  apply get_bind
  refine Ensures.modify (hkept.1.same ?_)
  simp only [DecisionGroup.sequences, advanceSuffixes_sequences]

theorem swapRemove_subperm (branches : List ActiveBranch) (index : Nat) :
    (swapRemove branches index).Subperm branches := by
  obtain rfl | ⟨init, last, rfl⟩ := eq_nil_or_concat branches
  · exact List.Subperm.refl []
  · rw [concat_eq_append]
    have hlast : swapRemove (init ++ [last]) index = ((init ++ [last]).set index last).dropLast := by
      simp [swapRemove]
    rw [hlast]
    by_cases hindex : index < init.length
    · rw [set_append_left _ _ hindex, dropLast_concat]
      have hperm := set_perm_cons_eraseIdx hindex last
      have hsub := (eraseIdx_sublist init index).cons_cons last
      have hends : (last :: init).Perm (init ++ [last]) := (perm_append_singleton last init).symm
      exact hperm.subperm.trans (hsub.subperm.trans hends.subperm)
    · have hset : ((init ++ [last]).set index last).dropLast = init := by
        rw [set_append_right _ _ (by omega)]
        cases hcases : index - init.length with
        | zero => simp
        | succ k => simp
      rw [hset]
      exact (sublist_append_left init [last]).subperm

theorem releaseDecisionSequence_keeps (hgroup : Grouped words id h)
    (hmem : sequenceId ∈ h.held.sequences) (hsequences : g.sequences.Subperm h.held.sequences) :
    Ensures (onScheduler (releaseDecisionSequence model sequenceId)) { h with held := g }
      (fun _ h' => Grouped words id h' ∧ h'.held = g) (OnFailure (Grouped words id)) := by
  have hkept := hgroup.change hsequences
  have herased : ∀ c : C, Grouped words id ⟨{ h.scheduler with
      sequences := h.scheduler.sequences.erase sequenceId, cache := c }, g⟩ := fun c =>
    ⟨(hgroup.ledger.eraseSequence (mem_held_of_group hmem)).changeGroup hsequences, hgroup.taken⟩
  have hrelease : Ensures (releaseDecisionSequence model sequenceId) h.scheduler
      (fun _ t => Grouped words id ⟨t, g⟩) (OnFailure fun t => Grouped words id ⟨t, g⟩) := by
    refine releaseSequence_bind (fun sequence _ => ?_) hkept
    exact finishSequence_ensures herased herased
  exact onScheduler_ensures hrelease (fun _ t ht => ⟨ht, rfl⟩) fun t ht => ht

theorem releaseReady_keeps (ready : List Nat) (hgroup : Grouped words id h) :
    Ensures (releaseReady model ready) h (fun _ => Grouped words id)
      (OnFailure (Grouped words id)) := by
  induction ready generalizing h with
  | nil => exact hgroup
  | cons index rest ih =>
    apply get_bind
    apply expect_bind
    intro branch hbranch
    apply Ensures.modify_bind
    have hmem := branch_mem_sequences (mem_of_getElem? hbranch)
    have hsubperm : (DecisionGroup.sequences { h.held with
        activeBranches := swapRemove h.held.activeBranches index }).Subperm h.held.sequences := by
      obtain ⟨kept, hperm, hsub⟩ := swapRemove_subperm h.held.activeBranches index
      exact ⟨h.held.parentSequenceId.toList ++ kept.map ActiveBranch.sequenceId,
        (hperm.map _).append_left _, (hsub.map _).append_left _⟩
    exact (releaseDecisionSequence_keeps hgroup hmem hsubperm).bind fun _ h' hkept => ih hkept.1

theorem readBranches_keeps (ready : List Nat) (hgroup : Grouped words id h) :
    Ensures (readBranches model input ready) h (fun _ => Grouped words id)
      (OnFailure (Grouped words id)) := by
  have hids : ∀ sequenceId ∈ (readyRows h.held.activeBranches ready).map Prod.fst,
      sequenceId ∈ h.held.sequences := by
    intro sequenceId hmem
    obtain ⟨row, hrow, rfl⟩ := mem_map.mp hmem
    obtain ⟨index, -, hentry⟩ := mem_filterMap.mp hrow
    obtain ⟨branch, hbranch, rfl⟩ := Option.map_eq_some_iff.mp hentry
    exact branch_mem_sequences (mem_of_getElem? hbranch)
  apply Ensures.get_bind
  apply expect_bind
  intro workspace _
  refine attempt_bind (fun leased hleased => ?_) hgroup
  have hlength : leased.length = (readyRows h.held.activeBranches ready).length := by
    rw [← (leaseMany_ok hleased).2.length_eq, length_map]
  have hsequences : ((((readyRows h.held.activeBranches ready).zip leased).map fun row =>
      (⟨row.1.2, row.2⟩ : DecodeRow n β)).map DecodeRow.toBatchRow).map BatchRow.sequence =
      leased := by
    rw [map_map, map_map]
    exact map_snd_zip hlength.le
  rw [← hsequences] at hleased
  have hidle : AllIdle ((((readyRows h.held.activeBranches ready).zip leased).map fun row =>
      (⟨row.1.2, row.2⟩ : DecodeRow n β)).map DecodeRow.toBatchRow) :=
    fun row hrow => hgroup.ledger.idle_of_lease hleased row.sequence (mem_map_of_mem hrow)
  have hmoves := appendBatch_moves model.cache model.device input.decisionCall
    (checkDecode model.device model.modelId workspace) h.scheduler.cache hidle
  unfold executeDecodeBatch
  generalize appendBatch model.cache model.device input.decisionCall
    (checkDecode model.device model.modelId workspace)
    ((((readyRows h.held.activeBranches ready).zip leased).map fun row =>
      (⟨row.1.2, row.2⟩ : DecodeRow n β)).map DecodeRow.toBatchRow) h.scheduler.cache = outcome
    at hmoves ⊢
  have hended := hgroup.batch hleased hids hmoves
  apply Ensures.modify_bind
  refine attempt_bind (fun _ _ => ?_) hended
  apply expect_bind
  intro _ _
  refine reach_bind ?_ fun _ => hended
  apply Ensures.modify_bind
  exact releaseReady_keeps _ (hended.same rfl)

theorem releaseDecisionPrefix_keeps (hgroup : Grouped words id h) :
    Ensures (releaseDecisionPrefix model) h (fun _ h' => Grouped words id h' ∧
      h'.held.parentSequenceId = h.held.parentSequenceId)
      (OnFailure fun h' => Grouped words id h' ∧
        h'.held.parentSequenceId = h.held.parentSequenceId) := by
  apply get_bind
  dsimp only
  split
  · exact ⟨hgroup, rfl⟩
  · apply Ensures.modify_bind
    have hsame : Grouped words id { h with held := { h.held with alignedPrefixEntry := none } } :=
      hgroup.same rfl
    apply expect_bind
    intro parent _
    apply get_bind
    refine attempt_bind (fun _ _ => ?_) ⟨hsame, rfl⟩
    apply get_bind
    apply modify_bind
    have hevicted : ∀ c : C, Grouped words id { h with
        scheduler := { h.scheduler with cache := c }
        held := { h.held with alignedPrefixEntry := none } } := fun c => hsame.of_books rfl
    generalize model.prefixes.evictPrefix _ _ = evicted
    cases evicted.2 with
    | ok _ => exact ⟨hevicted _, rfl⟩
    | error e => exact ⟨hevicted _, rfl⟩

theorem releaseParent_keeps (hgroup : Grouped words id h) :
    Ensures (releaseParent model) h (fun _ => Grouped words id) (OnFailure (Grouped words id)) := by
  apply get_bind
  dsimp only
  split
  · exact hgroup
  · rename_i parent hparent
    apply Ensures.modify_bind
    have hsubperm : (DecisionGroup.sequences { h.held with parentSequenceId := none }).Subperm
        h.held.sequences := (sublist_append_right _ _).subperm
    exact (releaseDecisionSequence_keeps hgroup (parent_mem_sequences hparent) hsubperm).imp
      fun _ _ hkept => hkept.1

theorem completeDecision_keeps (hgroup : Grouped words id h) :
    Ensures (completeDecision model input) h (fun _ => Grouped words id)
      (OnFailure (Grouped words id)) := by
  have hprefix : Ensures (releaseDecisionPrefix model) h (fun _ => Grouped words id)
      (OnFailure (Grouped words id)) :=
    ensures_imp (releaseDecisionPrefix_keeps hgroup) (fun _ _ hkept => hkept.1) fun _ hkept => hkept.1
  refine hprefix.bind fun _ h' hkept => ?_
  refine (releaseParent_keeps hkept).bind fun _ h'' hreleased => ?_
  apply Ensures.get_bind
  apply Ensures.modify_bind
  have hread : Grouped words id { h'' with held := { h''.held with logits := [] } } :=
    hreleased.same rfl
  exact reach_bind hread fun _ => hread

theorem advanceBranches_keeps (hgroup : Grouped words id h) :
    Ensures (advanceBranches model input) h (fun _ => Grouped words id)
      (OnFailure (Grouped words id)) := by
  refine (forkBranches_keeps hgroup).bind fun forked h' hkept => ?_
  split
  · exact hkept
  · apply get_bind
    dsimp only
    split
    · exact (prefillSuffixes_keeps _ hkept).bind fun _ _ hdone => hdone
    · split
      · exact (readBranches_keeps _ hkept).bind fun _ _ hdone => hdone
      · split
        · exact hkept
        · exact (completeDecision_keeps hkept).bind fun _ _ hdone => hdone

/-- Every stage of a decision keeps the ledger, whether it returns or fails. -/
theorem advanceDecisionGroup_keeps (hgroup : Grouped words id h) :
    Ensures (advanceDecisionGroup model input) h (fun _ => Grouped words id)
      (OnFailure (Grouped words id)) := by
  apply get_bind
  dsimp only
  split
  · rename_i hnone
    exact (admitParent_keeps hnone hgroup).bind fun _ _ hdone => hdone
  · split
    · exact (prefillParent_keeps hgroup).bind fun _ _ hdone => hdone
    · split
      · exact (retainParent_keeps hgroup).bind fun _ _ hdone => hdone
      · exact advanceBranches_keeps hgroup

end

/-! ## The phase -/

section
variable {model : TextModel n β κ φ C R K} {input : TickInput φ} {s : Scheduler n β φ C K}
variable {P : Scheduler n β φ C K → Prop} {g : DecisionGroup φ}

section
variable (h : Grouped words id ⟨s, g⟩)
include h

theorem releaseDropped_ensures (hmem : sequenceId ∈ g.sequences) :
    Ensures (lend () (onScheduler (releaseDecisionSequence model sequenceId))) s
      (fun _ t => Grouped words id ⟨t, g⟩) (OnFailure P) := by
  have herased : ∀ c : C, Grouped words id ⟨{ s with
      sequences := s.sequences.erase sequenceId, cache := c }, g⟩ := fun c =>
    ⟨h.ledger.eraseSequence (mem_held_of_group hmem), h.taken⟩
  have hrelease : Ensures (releaseDecisionSequence model sequenceId) s
      (fun _ t => Grouped words id ⟨t, g⟩) (OnFailure fun t => Grouped words id ⟨t, g⟩) := by
    refine releaseSequence_bind (fun sequence _ => ?_) h
    exact finishSequence_ensures herased herased
  have hscheduler : Ensures (onScheduler (releaseDecisionSequence model sequenceId)) ⟨s, ()⟩
      (fun _ h' => Grouped words id ⟨h'.scheduler, g⟩)
      (OnFailure fun h' => Grouped words id ⟨h'.scheduler, g⟩) :=
    onScheduler_ensures hrelease (fun _ _ ht => ht) fun _ ht => ht
  exact lend_ensures hscheduler (fun _ _ hkept => hkept) fun _ _ hkept => hkept

theorem releaseBranches_ensures {branches : List ActiveBranch}
    (hmem : ∀ branch ∈ branches, branch.sequenceId ∈ g.sequences) :
    Ensures (releaseBranches model branches) s (fun _ t => Grouped words id ⟨t, g⟩)
      (OnFailure P) := by
  induction branches generalizing s with
  | nil => exact h
  | cons branch rest ih =>
    obtain ⟨hbranch, hrest⟩ := forall_mem_cons.mp hmem
    exact (releaseDropped_ensures h hbranch).bind fun _ t ht => ih ht hrest

theorem releaseDecisionGroup_ensures :
    Ensures (releaseDecisionGroup model g) s (fun _ => Sound words) (OnFailure P) := by
  have hbranches : ∀ branch ∈ g.activeBranches, branch.sequenceId ∈ g.sequences :=
    fun _ hbranch => branch_mem_sequences hbranch
  refine (releaseBranches_ensures h hbranches).bind fun _ t ht => ?_
  have hbare : Grouped words id ⟨t, { g with activeBranches := [] }⟩ := by
    apply ht.change
    exact ((nil_sublist _).append_left _).subperm
  refine lend_bind (releaseDecisionPrefix_keeps hbare) ?_ ?_
  · intro _ h' hkept
    split
    · exact hkept.1.ledger.loseGroup
    · rename_i parent hparent
      refine (releaseDropped_ensures hkept.1 (parent_mem_sequences hparent)).bind fun _ u hu => ?_
      exact hu.ledger.loseGroup
  · intro _ h' hkept
    split
    · exact hkept.1.ledger.loseGroup
    · rename_i parent hparent
      refine (releaseDropped_ensures hkept.1 (parent_mem_sequences hparent)).bind fun _ u hu => ?_
      exact hu.ledger.loseGroup

end

theorem runDecisionPhase_ensures (h : Sound words s) :
    Ensures (runDecisionPhase model input) s (fun _ => Sound words) (OnFailure (Sound words)) := by
  apply Ensures.get_bind
  split
  · exact h
  · rename_i id rest hqueue
    apply Ensures.modify_bind
    apply Ensures.get_bind
    apply expect_bind
    intro group hget
    apply Ensures.modify_bind
    have htaken : Grouped words id ⟨{ s with
        decisionQueue := rest, decisions := s.decisions.erase id }, group⟩ :=
      ⟨h.takeGroup hget, BTreeMap.get_erase_self _ _⟩
    refine lend_bind (advanceDecisionGroup_keeps htaken) ?_ ?_
    · intro completion h' hkept
      cases completion with
      | none => exact hkept.ledger.putGroup hkept.taken
      | some logits => exact hkept.ledger.loseGroup
    · intro e h' hkept
      refine (releaseDecisionGroup_ensures hkept).bind fun _ t ht => ?_
      exact ht

end

end Eider.Guarantees.CursorDecision
