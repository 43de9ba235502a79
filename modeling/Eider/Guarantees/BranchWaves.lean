import Eider.Guarantees.PhaseFrames
import Eider.Lib.Run

/-!
The live branches of the decision groups of the Qwen3.6 scheduler
(`infer/src/execution/scheduler.rs`, lines 1688 to 2031).

A turn of a group forks as many branches as the decision capacity allows, whether or not
other branches of the group are live. The bound on the live branches holds in a run as long
as each wave has room beside them.
-/
namespace Eider.Guarantees.BranchWaves
open Lib Lib.ByteReader Source Source.Qwen36 Ensures
open Guarantees.PhaseFrames
open Guarantees.SchedulerLedger (attempt_stays expect_stays)

variable {n : Nat} {β κ φ C R K α : Type}
variable {maxTokens id : Nat} {h : Holding n β φ C K (DecisionGroup φ)}

/-- A group with no more live branches than the decision capacity. -/
def Bounded (config : SchedulerConfig) (g : DecisionGroup φ) : Prop :=
  g.activeBranches.length ≤ config.decisionBranchCapacity

/-- The branches that a wave would fork have room beside the live ones. -/
def WaveFits (config : SchedulerConfig) (sequences : Nat) (g : DecisionGroup φ) : Prop :=
  g.activeBranches.length +
      min (min (config.maxActiveSequences - sequences) config.decisionBranchCapacity)
        (g.request.branches.length - g.nextBranch) ≤
    config.decisionBranchCapacity

instance (config : SchedulerConfig) (sequences : Nat) (g : DecisionGroup φ) :
    Decidable (WaveFits config sequences g) := by
  unfold WaveFits
  infer_instance

section
variable {model : TextModel n β κ φ C R K} {input : TickInput φ} {config : SchedulerConfig}
  {decisions : BTreeMap Nat (DecisionGroup φ)} {R : DecisionGroup φ → Prop}

/-! ## The calls of a stage -/

theorem admitSequence_stays :
    Stays (Groups config decisions) (admitSequence model input maxTokens) := by
  refine attempt_stays.bind fun _ => reach_stays.bind fun _ => .get_bind fun _ _ => ?_
  refine .modify_bind (fun _ hs => hs) <| attempt_stays.bind fun outcome => ?_
  cases outcome with
  | wouldBlock => exact .throw _
  | admitted cacheId snapshot position => exact reach_stays.bind fun _ => .pure _

theorem releaseDecisionSequence_stays :
    Stays (Groups config decisions) (releaseDecisionSequence model id) :=
  releaseSequence_stays.bind fun _ => finishSequence_stays

theorem prefillRows_stays {rows : List (Nat × List Nat)} :
    Stays (Beside (Groups config decisions) R) (prefillRows model input rows) := by
  refine .get_bind fun _ _ => attempt_stays.bind fun _ => .get_bind fun _ _ => ?_
  exact .get_bind fun _ _ => setExecution_stays.bind fun _ => attempt_stays

theorem admitAlignedDecisionBranch_stays {index : Nat} {matched : PrefixMatch} :
    Stays (Groups config decisions)
      (admitAlignedDecisionBranch model input index matched maxTokens) := by
  refine attempt_stays.bind fun _ => reach_stays.bind fun _ => .get_bind fun _ _ => ?_
  refine .modify_bind (fun _ hs => hs) <| attempt_stays.bind fun outcome => ?_
  cases outcome with
  | wouldBlock => exact .pure _
  | admitted cacheId snapshot position =>
    dsimp only
    split
    · exact .modify_bind (fun _ hs => hs) (.throw _)
    · exact .pure _

theorem branchSequence_stays {index : Nat} {source : Sequence n β} :
    Stays (Groups config decisions) (branchSequence model input index source maxTokens) := by
  refine attempt_stays.bind fun _ => reach_stays.bind fun _ => .get_bind fun _ _ => ?_
  refine .modify_bind (fun _ hs => hs) <| attempt_stays.bind fun outcome => ?_
  cases outcome with
  | none => exact .pure _
  | some cacheId =>
    dsimp only
    split
    · exact .modify_bind (fun _ hs => hs) (.throw _)
    · exact .ite (.modify_bind (fun _ hs => hs) (.throw _)) (.pure _)

theorem nextBranchSequence_stays {branch : DecisionBranch} :
    Stays (Beside (Groups config decisions) R) (nextBranchSequence model input branch) := by
  refine .get_bind fun _ _ => ?_
  dsimp only
  split
  · exact onScheduler_stays admitAlignedDecisionBranch_stays
  · refine expect_stays.bind fun _ => .get_bind fun _ _ => attempt_stays.bind fun _ => ?_
    exact expect_stays.bind fun _ => onScheduler_stays branchSequence_stays

/-! ## The stages without a fork -/

/-- The group that a stage holds stays bounded, and the others stay as they are. -/
abbrev Within (config : SchedulerConfig) (decisions : BTreeMap Nat (DecisionGroup φ)) :
    Holding n β φ C K (DecisionGroup φ) → Prop :=
  Beside (Groups config decisions) (Bounded config)

theorem admitParent_stays : Stays (Within config decisions) (admitParent model input) := by
  refine .get_bind fun h hh => .ite ?_ (.pure _)
  refine (onScheduler_stays admitSequence_stays).bind fun _ => ?_
  refine (onScheduler_stays insertSequence_stays).bind fun _ => ?_
  exact setHeld_bind hh.2 <| onScheduler_stays report_stays

theorem prefillParent_stays : Stays (Within config decisions) (prefillParent model input) := by
  refine .get_bind fun h hh => expect_stays.bind fun _ => prefillRows_stays.bind fun _ => ?_
  exact setHeld_bind hh.2 <| onScheduler_stays report_stays

theorem retainParent_stays : Stays (Within config decisions) (retainParent model input) := by
  refine .get_bind fun h hh => expect_stays.bind fun _ => .get_bind fun _ _ => ?_
  refine attempt_stays.bind fun _ => expect_stays.bind fun _ => attempt_stays.bind fun _ => ?_
  refine reach_stays.bind fun _ => .get_bind fun _ _ => ?_
  refine onModify_bind (fun _ hs => hs) <| ?_
  refine attempt_stays.bind fun _ => reach_stays.bind fun _ => .get_bind fun _ _ => ?_
  refine onModify_bind (fun _ hs => hs) <| ?_
  refine setHeld_bind hh.2 <| ?_
  split
  · exact .throw _
  · exact .pure _

theorem length_advanceSuffixes (branches : List ActiveBranch) (chunks : List (Nat × Nat)) :
    (advanceSuffixes branches chunks).length = branches.length := by
  rw [advanceSuffixes, List.length_map, List.length_zipIdx]

theorem prefillSuffixes_stays {chunks : List (Nat × Nat)} :
    Stays (Within config decisions) (prefillSuffixes model input chunks) := by
  refine .get_bind fun _ _ => prefillRows_stays.bind fun _ => .get_bind fun h hh => ?_
  refine setHeld_stays ?_
  rw [Bounded, length_advanceSuffixes]
  exact hh.2

theorem length_swapRemove_le (branches : List ActiveBranch) (index : Nat) :
    (swapRemove branches index).length ≤ branches.length := by
  rw [swapRemove]
  split
  · exact Nat.zero_le _
  · rw [List.length_dropLast, List.length_set]
    exact Nat.sub_le _ _

theorem releaseReady_stays (ready : List Nat) :
    Stays (Within config decisions) (releaseReady model ready) := by
  induction ready with
  | nil => exact .pure _
  | cons index rest ih =>
    refine .get_bind fun h hh => expect_stays.bind fun _ => ?_
    refine setHeld_bind ((length_swapRemove_le _ _).trans hh.2) <| ?_
    exact (onScheduler_stays releaseDecisionSequence_stays).bind fun _ => ih

theorem readBranches_stays {ready : List Nat} :
    Stays (Within config decisions) (readBranches model input ready) := by
  refine .get_bind fun h hh => expect_stays.bind fun _ => attempt_stays.bind fun _ => ?_
  refine setExecution_stays.bind fun _ => attempt_stays.bind fun _ => ?_
  refine expect_stays.bind fun _ => reach_stays.bind fun _ => ?_
  exact setHeld_bind hh.2 <| releaseReady_stays _

theorem releaseDecisionPrefix_stays :
    Stays (Within config decisions) (releaseDecisionPrefix model) := by
  refine .get_bind fun h hh => ?_
  dsimp only
  split
  · exact .pure _
  · refine setHeld_bind hh.2 <| expect_stays.bind fun _ => .get_bind fun _ _ => ?_
    refine attempt_stays.bind fun _ => .get_bind fun _ _ => ?_
    exact onModify_bind (fun _ hs => hs) attempt_stays

theorem completeDecision_stays :
    Stays (Within config decisions) (completeDecision model input) := by
  refine releaseDecisionPrefix_stays.bind fun _ => Stays.bind (m := releaseParent model) ?_ fun _ => ?_
  · refine .get_bind fun h hh => ?_
    dsimp only
    split
    · exact .pure _
    · exact setHeld_bind hh.2 <| onScheduler_stays releaseDecisionSequence_stays
  · refine .get_bind fun h hh => setHeld_bind hh.2 <| ?_
    exact reach_stays.bind fun _ => .pure _

/-! ## Waves -/

theorem admitBranches_ensures (wave : Nat) (hgroups : Groups config decisions h.scheduler)
    (hfits : h.held.activeBranches.length +
        min wave (h.held.request.branches.length - h.held.nextBranch) ≤
      config.decisionBranchCapacity) :
    Ensures (admitBranches model input wave) h (fun _ => Within config decisions)
      fun _ => Within config decisions := by
  have bounded : Bounded config h.held := (Nat.le_add_right _ _).trans hfits
  induction wave generalizing h with
  | zero => exact ⟨hgroups, bounded⟩
  | succ wave ih =>
    apply get_bind
    dsimp only
    cases hbranch : h.held.request.branches[h.held.nextBranch]? with
    | none => exact ⟨hgroups, bounded⟩
    | some branch =>
      have inside := (List.getElem?_eq_some_iff.mp hbranch).1
      -- the sequence of the branch is forked beside the group, which stays as it is
      have forked : Stays (Beside (Groups config decisions) fun g => g = h.held)
          (nextBranchSequence model input branch) := nextBranchSequence_stays
      have kept : ∀ t : Holding n β φ C K (DecisionGroup φ),
          Beside (Groups config decisions) (fun g => g = h.held) t → Within config decisions t := by
        intro t ht
        refine ⟨ht.1, ?_⟩
        rw [ht.2]
        exact bounded
      refine ((forked h ⟨hgroups, rfl⟩).mono (fun _ _ ht => ht) fun _ t => kept t).bind ?_
      rintro (_ | sequence) t ht
      · exact kept t ht
      · have inserted : Stays (Beside (Groups config decisions) fun g => g = h.held)
            (onScheduler (insertSequence sequence) : Deciding n β φ C K Nat) :=
          onScheduler_stays insertSequence_stays
        refine ((inserted t ht).mono (fun _ _ hu => hu) fun _ u => kept u).bind ?_
        rintro sequenceId u ⟨hgroups', hheld⟩
        apply get_bind
        rw [hheld]
        apply modify_bind
        have room : h.held.activeBranches.length + 1 +
            min wave (h.held.request.branches.length - (h.held.nextBranch + 1)) ≤
              config.decisionBranchCapacity := by omega
        refine Ensures.bind (P := fun _ => Within config decisions) ?_ fun admitted v hv => hv
        apply ih
        · exact hgroups'
        · simpa using room
        · simp only [Bounded, List.length_append, List.length_singleton]
          omega

theorem forkBranches_ensures (hgroups : Groups config decisions h.scheduler)
    (hfits : WaveFits config h.scheduler.sequences.size h.held) :
    Ensures (forkBranches model input) h (fun _ => Within config decisions)
      fun _ => Within config decisions := by
  apply get_bind
  dsimp only
  rw [hgroups.1]
  refine (admitBranches_ensures _ hgroups hfits).bind fun admitted t ht => ?_
  exact Stays.ite (.pure _) (reach_stays.bind fun _ => .pure _) t ht

theorem advanceDecisionGroup_ensures (hgroups : Groups config decisions h.scheduler)
    (hbounded : Bounded config h.held) (hfits : WaveFits config h.scheduler.sequences.size h.held) :
    Ensures (advanceDecisionGroup model input) h (fun _ => Within config decisions)
      fun _ => Within config decisions := by
  apply get_bind
  dsimp only
  have within : Within config decisions h := ⟨hgroups, hbounded⟩
  split
  · exact admitParent_stays.bind (fun _ => .pure _) h within
  · split
    · exact prefillParent_stays.bind (fun _ => .pure _) h within
    · split
      · exact retainParent_stays.bind (fun _ => .pure _) h within
      · refine (forkBranches_ensures hgroups hfits).bind fun forked t ht => ?_
        refine Stays.ite (.pure _) (.get_bind fun _ _ => ?_) t ht
        refine .ite (prefillSuffixes_stays.bind fun _ => .pure _) ?_
        refine .ite (readBranches_stays.bind fun _ => .pure _) (.ite (.pure _) ?_)
        exact completeDecision_stays.bind fun _ => .pure _

end

/-! ## Phases -/

section
variable {model : TextModel n β κ φ C R K} {input : TickInput φ} {config : SchedulerConfig}
  {decisions : BTreeMap Nat (DecisionGroup φ)} {s t : Scheduler n β φ C K}

/-- Every group is bounded. -/
structure AllBounded (config : SchedulerConfig) (s : Scheduler n β φ C K) : Prop where
  config_eq : s.config = config
  groups : ∀ id g, s.decisions.get id = some g → Bounded config g

/-- The group whose turn it is has room for its wave. -/
def TurnFits (s : Scheduler n β φ C K) : Prop :=
  ∀ id ∈ s.decisionQueue.head?, ∀ g ∈ s.decisions.get id, WaveFits s.config s.sequences.size g

instance (s : Scheduler n β φ C K) : Decidable (TurnFits s) := by
  unfold TurnFits
  infer_instance

/-- Programs that leave the groups alone keep their bound. -/
theorem stays_bounded {m : Scheduling n β φ C K α}
    (h : ∀ decisions, Stays (Groups config decisions) m) : Stays (AllBounded config) m := by
  intro s hs
  have kept : ∀ t : Scheduler n β φ C K, Groups config s.decisions t → AllBounded config t := by
    rintro t ⟨hconfig, hdecisions⟩
    exact ⟨hconfig, hdecisions ▸ hs.groups⟩
  exact (h s.decisions s ⟨hs.config_eq, rfl⟩).mono (fun _ => kept) fun _ => kept

theorem AllBounded.erase (h : AllBounded config s) (id : Nat)
    (hgroups : Groups config (s.decisions.erase id) t) : AllBounded config t := by
  refine ⟨hgroups.1, fun other g hget => ?_⟩
  rw [hgroups.2, BTreeMap.get_erase] at hget
  split at hget
  · cases hget
  · exact h.groups other g hget

theorem releaseBranches_stays (branches : List ActiveBranch) :
    Stays (Groups config decisions) (releaseBranches model branches) := by
  induction branches with
  | nil => exact .pure _
  | cons branch rest ih =>
    have released : Stays (Groups config decisions)
        (lend () (onScheduler (releaseDecisionSequence model branch.sequenceId))) :=
      lend_stays (R := fun _ => True) trivial (onScheduler_stays releaseDecisionSequence_stays)
    exact released.bind fun _ => ih

theorem releaseDecisionGroup_stays {group : DecisionGroup φ} :
    Stays (Groups config decisions) (releaseDecisionGroup model group) := by
  refine (releaseBranches_stays _).bind fun _ => ?_
  refine (lend_stays (R := Bounded config) (Nat.zero_le _) releaseDecisionPrefix_stays).bind fun released => ?_
  split
  · exact .pure _
  · refine Stays.bind (lend_stays (R := fun _ => True) trivial ?_) fun _ => .pure _
    exact onScheduler_stays releaseDecisionSequence_stays

theorem runDecisionPhase_ensures (h : AllBounded config s) (hfits : TurnFits s) :
    Ensures (runDecisionPhase model input) s (fun _ => AllBounded config)
      fun _ => AllBounded config := by
  apply get_bind
  cases hqueue : s.decisionQueue with
  | nil => exact h
  | cons id rest =>
    apply modify_bind
    apply get_bind
    cases hgroup : s.decisions.get id with
    | none =>
      exact ⟨h.config_eq, h.groups⟩
    | some group =>
      apply expect_some rfl
      apply modify_bind
      have fits := hfits id (by rw [hqueue]; rfl) group hgroup
      rw [h.config_eq] at fits
      have advanced : Ensures (advanceDecisionGroup model input)
          ⟨{ s with decisionQueue := rest, decisions := s.decisions.erase id }, group⟩
          (fun _ => Within config (s.decisions.erase id))
          fun _ => Within config (s.decisions.erase id) :=
        advanceDecisionGroup_ensures ⟨h.config_eq, rfl⟩ (h.groups id group hgroup) fits
      have erased : ∀ {t : Scheduler n β φ C K} {held : DecisionGroup φ},
          Within config (s.decisions.erase id) ⟨t, held⟩ → AllBounded config t :=
        fun ht => h.erase id ht.1
      refine ((lend_returns advanced).mono (fun _ _ ht => ht) ?_).bind ?_
      · rintro _ t ⟨held, ht⟩
        exact erased ht
      · rintro ⟨held, result⟩ t ht
        split
        · exact stays_bounded (fun _ => report_stays) t (erased ht)
        · rename_i heq
          obtain ⟨rfl, -⟩ := Prod.mk.inj heq
          refine Ensures.modify ⟨ht.1.1, fun other g hget => ?_⟩
          rw [BTreeMap.get_insert] at hget
          split at hget
          · cases hget
            exact ht.2
          · exact (erased ht).groups other g hget
        · refine stays_bounded (fun _ => ?_) t (erased ht)
          exact releaseDecisionGroup_stays.bind fun _ => report_stays

/-- The phases of a tick ahead of the decision phase. -/
def chatPhases (model : TextModel n β κ φ C R K) (input : TickInput φ) :
    Scheduling n β φ C K Unit := do
  modify fun s => { s with tick := .empty }
  admitWaiting model input
  runDecodePhase model input
  runPrefillPhase model input

theorem chatPhases_stays : Stays (Groups config decisions) (chatPhases model input) := by
  refine .modify_bind (fun _ hs => hs) <| admitWaiting_stays.bind fun _ => ?_
  exact runDecodePhase_stays.bind fun _ => runPrefillPhase_stays

theorem tick_eq : tick model input = chatPhases model input >>= fun _ => runDecisionPhase model input := by
  simp only [tick, chatPhases, bind_assoc]

end

/-! ## Runs -/

section
variable {model : TextModel n β κ φ C R K} {input : TickInput φ} {config : SchedulerConfig}
  {decisions : BTreeMap Nat (DecisionGroup φ)} {s t : Scheduler n β φ C K}

/-- In a tick, the group whose turn it is has room for its wave by then. -/
def Fits (model : TextModel n β κ φ C R K) (s : Scheduler n β φ C K) : Action K φ → Prop
  | .tick input => Ensures (chatPhases model input) s (fun _ => TurnFits) fun _ _ => True
  | _ => True

instance (s : Scheduler n β φ C K) (action : Action K φ) : Decidable (Fits model s action) := by
  unfold Fits
  cases action <;> infer_instance

theorem tick_ensures (h : AllBounded config s) (hfits : Fits model s (.tick input)) :
    Ensures (tick model input) s (fun _ => AllBounded config) fun _ => AllBounded config := by
  rw [tick_eq]
  have phases : Stays (AllBounded config) (chatPhases model input) :=
    stays_bounded fun _ => chatPhases_stays
  have ready : Ensures (chatPhases model input) s (fun _ t => AllBounded config t ∧ TurnFits t)
      fun _ => AllBounded config :=
    ((phases s h).and hfits).mono (fun _ _ ht => ht) fun _ _ ht => ht.1
  exact ready.bind fun _ t ht => runDecisionPhase_ensures ht.1 ht.2

theorem nextRequestId_stays {label : String} :
    Stays (Groups config decisions) (nextRequestId label : Scheduling n β φ C K Nat) :=
  .get_bind fun _ hs => .ite (.set_bind hs (.pure _)) (.throw _)

theorem addRequest_stays {promptTokens : List Nat} {request : RequestConfig}
    {toolGrammar : Option (ToolGrammar K)} :
    Stays (Groups config decisions) (addRequest model promptTokens request toolGrammar) := by
  refine .get_bind fun _ _ => attempt_stays.bind fun _ => nextRequestId_stays.bind fun _ => ?_
  refine putRequest_stays.bind fun _ => .ite (.pure _) ?_
  exact .modify_bind (fun _ hs => hs) (.pure _)

theorem checkDecisionBranch_stays {σ : Type} {P : σ → Prop} {request : DecisionRequest}
    {branch : DecisionBranch} :
    Stays P (checkDecisionBranch model config request branch : EStateM (Fault CudaError) σ Unit) := by
  refine attempt_stays.bind fun _ => attempt_stays.bind fun _ => attempt_stays.bind fun _ => ?_
  refine .ite (.throw _) ?_
  exact attempt_stays.bind fun _ => attempt_stays.bind fun _ => attempt_stays

theorem addDecision_stays {request : DecisionRequest} :
    Stays (AllBounded config) (addDecision model request) := by
  refine .get_bind fun _ _ => attempt_stays.bind fun _ => ?_
  refine (Stays.forM fun branch => checkDecisionBranch_stays).bind fun _ => ?_
  refine (stays_bounded fun _ => nextRequestId_stays).bind fun id => ?_
  refine .modify_bind (fun s hs => ⟨hs.config_eq, fun other g hget => ?_⟩) (.pure _)
  rw [BTreeMap.get_insert] at hget
  split at hget
  · cases hget
    exact Nat.zero_le _
  · exact hs.groups other g hget

theorem prepareDecisionReadout_stays {tokenIds : List Nat} :
    Stays (Groups config decisions) (prepareDecisionReadout model tokenIds) :=
  .get_bind fun _ hs => .ite (.throw _) (attempt_stays.bind fun _ => .set hs)

theorem releaseCancelled_stays {sequenceId : Nat} :
    Stays (Groups config decisions) (releaseCancelled model sequenceId) := by
  refine .get_bind fun s hs => ?_
  split
  · exact .pure _
  · exact .set hs

theorem cancelRequest_stays : Stays (AllBounded config) (cancelRequest model id) := by
  refine .get_bind fun s hs => ?_
  split
  · have erased : AllBounded config { s with
        decisions := s.decisions.erase id
        decisionQueue := s.decisionQueue.filter fun queued => queued ≠ id } :=
      hs.erase id ⟨hs.config_eq, rfl⟩
    exact .set_bind erased (stays_bounded fun _ => releaseDecisionGroup_stays)
  · split
    · exact .pure _
    · refine .ite (.pure _) (.set_bind ⟨hs.config_eq, hs.groups⟩ ?_)
      split
      · exact .pure _
      · exact stays_bounded fun _ => releaseCancelled_stays

theorem removeFinished_stays :
    Stays (Groups config decisions) (removeFinished id : Scheduling n β φ C K Unit) := by
  refine .modify fun s hs => ?_
  split
  · split
    · exact hs
    · exact hs
  · exact hs

theorem call_ensures {action : Action K φ} (h : AllBounded config s) (hfits : Fits model s action) :
    Ensures (action.call model) s (fun _ => AllBounded config) fun _ => AllBounded config := by
  cases action with
  | addRequest promptTokens request toolGrammar =>
    exact stays_bounded (fun _ => addRequest_stays.bind fun _ => .pure _) s h
  | addDecision request => exact addDecision_stays.bind (fun _ => .pure _) s h
  | prepareDecisionReadout tokenIds =>
    exact stays_bounded (fun _ => prepareDecisionReadout_stays) s h
  | tick input => exact tick_ensures h hfits
  | cancelRequest id => exact cancelRequest_stays s h
  | removeFinished id => exact stays_bounded (fun _ => removeFinished_stays) s h

theorem step_bounded {action : Action K φ} (h : AllBounded config s) (hfits : Fits model s action)
    (hstep : step model s action = some t) : AllBounded config t := by
  have ends := call_ensures h hfits
  unfold Ensures at ends
  unfold step at hstep
  cases hrun : action.call model s with
  | ok a u =>
    rw [hrun] at ends hstep
    cases hstep
    exact ends
  | error e u =>
    rw [hrun] at ends hstep
    cases e with
    | failed e =>
      cases hstep
      exact ends
    | panicked message => cases hstep

theorem new_bounded {cache : C} (h : Scheduler.new config cache = .ok s) : AllBounded config s := by
  obtain ⟨_, -, h⟩ := bind_ok h
  obtain ⟨_, -, h⟩ := bind_ok h
  cases h
  exact ⟨rfl, nofun⟩

/-- In a run whose waves have room, no group has more live branches than the decision
capacity. -/
theorem branches_bounded {cache : C} {actions : List (Action K φ)}
    (hnew : Scheduler.new config cache = .ok s)
    (path : Run.Path (step model) (Fits model) s actions t) : AllBounded config t :=
  path.invariant (fun h hfits hstep => step_bounded h hfits hstep) (new_bounded hnew)

end

end Eider.Guarantees.BranchWaves
