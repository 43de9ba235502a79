import Eider.Guarantees.BranchWaves
import Eider.Source.Gemma4.Service

/-!
The live branches of the decision groups of the Gemma 4 service
(`infer/src/execution/gemma4_serving.rs`, lines 466 to 860).

The service forks its waves as the Qwen3.6 scheduler does. A request that fits one tree
prefill is answered without a branch.
-/
namespace Eider.Guarantees.GemmaWaves
open Lib Lib.ByteReader Lib.Lending Source Source.Gemma4 Ensures
open Source.Qwen36 (SchedulerConfig RequestConfig DecisionRequest DecisionBranch ActiveBranch
  expect attempt raise)
open Guarantees.PhaseFrames (expect_some)
open Guarantees.SchedulerLedger (attempt_stays expect_stays)
open Guarantees.BranchWaves (length_advanceSuffixes length_swapRemove_le)

variable {φ α : Type}
variable {ids : List Nat} {id : Nat} {h : Holding (Gemma4.ChatService φ) (DecisionGroup φ)}
variable (config : SchedulerConfig)

/-- A service with a configuration and its groups. -/
def Groups (decisions : BTreeMap Nat (DecisionGroup φ))
    (s : Gemma4.ChatService φ) : Prop := s.config = config ∧ s.decisions = decisions

/-- A group with no more live branches than the decision capacity. -/
def Bounded (g : DecisionGroup φ) : Prop :=
  g.activeBranches.length ≤ config.decisionBranchCapacity

/-- The branches that a wave would fork have room beside the live ones. -/
def WaveFits (sequences : Nat) (g : DecisionGroup φ) : Prop :=
  g.activeBranches.length +
      min (min (config.maxActiveSequences - sequences) config.decisionBranchCapacity)
        (g.request.branches.length - g.nextBranch) ≤
    config.decisionBranchCapacity

instance (config : SchedulerConfig) (sequences : Nat) (g : DecisionGroup φ) :
    Decidable (WaveFits config sequences g) := by
  unfold WaveFits
  infer_instance

section
variable {model : Model} {input : TickInput model.vocab φ} {config : SchedulerConfig}
  {decisions : BTreeMap Nat (DecisionGroup φ)} {σ : Type} {P : σ → Prop}
variable {sequence : ExecutionSequence}

/-! ## The calls of the chat phases -/

theorem reach_stays {site : Site} {error : CudaError} :
    Stays P (reach input site error : EStateM (Fault CudaError) σ Unit) :=
  .ite (.throw _) (.pure _)

theorem insertSequence_stays :
    Stays (Groups config decisions) (insertSequence sequence : Serving φ Nat) :=
  .get_bind fun _ hs => .ite (.set_bind hs (.pure _)) (.throw _)

theorem releaseSequence_stays {sid : Nat} :
    Stays (Groups config decisions) (releaseSequence sid : Serving φ ExecutionSequence) := by
  refine .get_bind fun s hs => ?_
  split
  · exact .set_bind hs (.pure _)
  · exact .throw _

theorem callModel_stays {tokens : List (List Nat)} {call : AppendBatch.Appending Nat Unit} :
    Stays (Groups config decisions) (callModel ids tokens call : Serving φ Unit) := by
  refine .get_bind fun s hs => attempt_stays.bind fun _ => ?_
  split
  · exact .set hs
  · exact .set_bind hs (.throw _)

theorem finishSequence_stays {fails : Bool} :
    Stays (Groups config decisions) (finishSequence fails sequence : Serving φ Unit) :=
  .modify_bind (fun _ hs => hs) (.ite (.throw _) (.pure _))

theorem report_stays {f : Tick φ → Tick φ} :
    Stays (Groups config decisions) (report f : Serving φ Unit) := .modify fun _ hs => hs

theorem changeRequest_stays {f : ActiveRequest → ActiveRequest} :
    Stays (Groups config decisions) (changeRequest id f : Serving φ Unit) := by
  refine .modify fun s hs => ?_
  split
  · exact hs
  · exact hs

theorem putRequest_stays {request : ActiveRequest} :
    Stays (Groups config decisions) (putRequest request : Serving φ Unit) := .modify fun _ hs => hs

theorem admitRequest_stays : Stays (Groups config decisions) (admitRequest model input id) := by
  refine .get_bind fun _ _ => expect_stays.bind fun _ => attempt_stays.bind fun _ => ?_
  refine reach_stays.bind fun _ => reach_stays.bind fun _ => reach_stays.bind fun _ => ?_
  refine .ite (.modify_bind (fun _ hs => hs) (.pure _)) (.get_bind fun _ _ => ?_)
  refine .modify_bind (fun _ hs => hs) <| reach_stays.bind fun _ => ?_
  exact insertSequence_stays.bind fun _ => changeRequest_stays.bind fun _ => .pure _

theorem admitLoop_stays (turns : Nat) :
    Stays (Groups config decisions) (admitLoop model input turns) := by
  induction turns with
  | zero => exact .pure _
  | succ turns ih =>
    refine .get_bind fun s hs => .ite ?_ (.pure _)
    split
    · exact .pure _
    · exact .set_bind hs <| admitRequest_stays.bind fun _ => .ite ih (.pure _)

theorem generateOne_stays : Stays (Groups config decisions) (generateOne model input id) := by
  refine .get_bind fun _ _ => expect_stays.bind fun _ => expect_stays.bind fun _ => ?_
  refine .get_bind fun _ _ => attempt_stays.bind fun _ => ?_
  refine Stays.bind (m := advance model input id _ _) ?_ fun _ => ?_
  · exact .ite changeRequest_stays (expect_stays.bind fun _ => callModel_stays)
  · refine Stays.bind (m := sampleToken model input id _) ?_ fun _ => ?_
    · exact reach_stays.bind fun _ => .ite (.pure _) (reach_stays.bind fun _ => .pure _)
    · refine changeRequest_stays.bind fun _ => report_stays.bind fun _ => ?_
      exact reach_stays.bind fun _ => .get_bind fun _ _ => expect_stays.bind fun _ => .pure _

theorem decodeLoop_stays (ids : List Nat) (terminal : BTreeMap Nat ChatFinishReason) :
    Stays (Groups config decisions) (decodeLoop model input ids terminal) := by
  induction ids generalizing terminal with
  | nil => exact .pure _
  | cons id rest ih =>
    refine generateOne_stays.bind fun reason => ?_
    cases reason with
    | some reason => exact ih _
    | none => exact ih _

theorem takeRequests_stays (ids : List Nat) :
    Stays (Groups config decisions) (takeRequests ids : Serving φ (List ActiveRequest)) := by
  induction ids with
  | nil => exact .pure _
  | cons id rest ih =>
    refine .get_bind fun s hs => expect_stays.bind fun _ => .set_bind hs ?_
    exact ih.bind fun _ => .pure _

theorem prefill_stays : Stays (Groups config decisions) (prefill model input ids) := by
  refine .get_bind fun _ _ => (Stays.mapM fun _ => expect_stays).bind fun _ => ?_
  refine .ite (.pure _) (attempt_stays.bind fun _ => attempt_stays.bind fun _ => ?_)
  refine (takeRequests_stays _).bind fun _ => Stays.bind (.tryCatch ?_ fun _ => ?_) fun _ => ?_
  · exact callModel_stays.bind fun _ => reach_stays
  · exact (Stays.forM fun _ => putRequest_stays).bind fun _ => .throw _
  · exact .forM fun _ => .get_bind fun _ _ => report_stays.bind fun _ => putRequest_stays

theorem finishRequest_stays {reason : ChatFinishReason} :
    Stays (Groups config decisions) (finishRequest model input id reason) := by
  refine .get_bind fun _ _ => expect_stays.bind fun _ => ?_
  refine Stays.bind (m := finishOutput model input id reason) ?_ fun _ => ?_
  · unfold finishOutput
    split
    · exact reach_stays.bind fun _ => .pure _
    · exact reach_stays.bind fun _ => .pure _
    · exact .pure _
  · refine .get_bind fun _ _ => expect_stays.bind fun _ => .modify_bind (fun _ hs => hs) ?_
    refine expect_stays.bind fun _ => releaseSequence_stays.bind fun _ => ?_
    exact finishSequence_stays.bind fun _ => report_stays

theorem runChatPhases_stays : Stays (Groups config decisions) (runChatPhases model input) := by
  refine Stays.bind (.get_bind fun _ _ => admitLoop_stays _) fun _ => .get_bind fun _ _ => ?_
  refine (decodeLoop_stays _ _).bind fun _ => .get_bind fun _ _ => prefill_stays.bind fun _ => ?_
  exact .get_bind fun _ _ => .forM fun _ => finishRequest_stays

end

section
variable {model : Model} {input : TickInput model.vocab φ} {config : SchedulerConfig}
  {decisions : BTreeMap Nat (DecisionGroup φ)} {R : DecisionGroup φ → Prop}

/-! ## The calls of a stage -/

theorem releaseDecisionSequence_stays {fails : Nat → Bool} {sid : Nat} :
    Stays (Groups config decisions) (releaseDecisionSequence fails sid : Serving φ Unit) :=
  releaseSequence_stays.bind fun _ => finishSequence_stays

theorem admitDecision_stays {maxTokens : Nat} :
    Stays (Groups config decisions) (admitDecision model input maxTokens) := by
  refine attempt_stays.bind fun _ => reach_stays.bind fun _ => reach_stays.bind fun _ => ?_
  refine reach_stays.bind fun _ => .ite (.throw _) (.get_bind fun _ _ => ?_)
  exact .modify_bind (fun _ hs => hs) (.pure _)

theorem branchDecision_stays {index maxTokens : Nat} {source : ExecutionSequence} :
    Stays (Groups config decisions) (branchDecision model input index source maxTokens) := by
  refine attempt_stays.bind fun _ => reach_stays.bind fun _ => reach_stays.bind fun _ => ?_
  refine reach_stays.bind fun _ => .ite (.pure _) (.get_bind fun _ _ => ?_)
  exact .modify_bind (fun _ hs => hs) (.pure _)

theorem prefillRows_stays {rows : List (Nat × List Nat)} :
    Stays (Beside (Groups config decisions) R) (prefillRows model input rows) :=
  .get_bind fun _ _ => onState_stays callModel_stays

/-! ## The stages without a fork -/

/-- The group that a stage holds stays bounded, and the others stay as they are. -/
abbrev Within (config : SchedulerConfig) (decisions : BTreeMap Nat (DecisionGroup φ)) :
    Holding (Gemma4.ChatService φ) (DecisionGroup φ) → Prop :=
  Beside (Groups config decisions) (Bounded config)

theorem answer_stays {label : String} :
    Stays (Within config decisions) (answer model input label) :=
  .get_bind fun _ hh => setHeld_bind hh.2 <| reach_stays.bind fun _ => .pure _

theorem readTree_stays : Stays (Within config decisions) (readTree model input) := by
  refine .get_bind fun h hh => attempt_stays.bind fun _ => reach_stays.bind fun _ => ?_
  exact setHeld_bind hh.2 answer_stays

theorem admitParent_stays : Stays (Within config decisions) (admitParent model input) := by
  refine .get_bind fun h hh => .ite ?_ (.pure _)
  refine (onState_stays admitDecision_stays).bind fun _ => ?_
  exact (onState_stays insertSequence_stays).bind fun _ => setHeld_stays hh.2

theorem prefillParent_stays : Stays (Within config decisions) (prefillParent model input) := by
  refine .get_bind fun h hh => expect_stays.bind fun _ => prefillRows_stays.bind fun _ => ?_
  refine reach_stays.bind fun _ => setHeld_bind hh.2 ?_
  exact onState_stays report_stays

theorem prefillSuffixes_stays {chunks : List (Nat × Nat)} :
    Stays (Within config decisions) (prefillSuffixes model input chunks) := by
  refine .get_bind fun _ _ => prefillRows_stays.bind fun _ => reach_stays.bind fun _ => ?_
  refine .get_bind fun h hh => setHeld_stays ?_
  rw [Bounded, length_advanceSuffixes]
  exact hh.2

theorem stageRows_stays {capacity rows : Nat} :
    Stays (Within config decisions) (stageRows model input capacity rows) :=
  .forM fun _ => attempt_stays.bind fun _ => reach_stays

theorem releaseReady_stays (ready : List Nat) :
    Stays (Within config decisions) (releaseReady model input ready) := by
  induction ready with
  | nil => exact .pure _
  | cons index rest ih =>
    refine .get_bind fun h hh => expect_stays.bind fun _ => ?_
    refine setHeld_bind ((length_swapRemove_le _ _).trans hh.2) ?_
    exact (onState_stays releaseDecisionSequence_stays).bind fun _ => ih

theorem readBranches_stays {ready : List Nat} :
    Stays (Within config decisions) (readBranches model input ready) := by
  refine .get_bind fun h hh => prefillRows_stays.bind fun _ => stageRows_stays.bind fun _ => ?_
  refine attempt_stays.bind fun _ => reach_stays.bind fun _ => ?_
  exact setHeld_bind hh.2 (releaseReady_stays _)

theorem completeDecision_stays :
    Stays (Within config decisions) (completeDecision model input) := by
  refine .get_bind fun h hh => ?_
  dsimp only
  split
  · exact answer_stays
  · refine setHeld_bind hh.2 ?_
    exact (onState_stays releaseDecisionSequence_stays).bind fun _ => answer_stays

/-! ## Waves -/

theorem admitBranches_ensures (wave : Nat) (hgroups : Groups config decisions h.state)
    (hfits : h.held.activeBranches.length +
        min wave (h.held.request.branches.length - h.held.nextBranch) ≤
      config.decisionBranchCapacity) :
    Ensures (admitBranches model input wave) h (fun _ => Within config decisions)
      fun _ => Within config decisions := by
  have bounded : Bounded config h.held := (Nat.le_add_right _ _).trans hfits
  induction wave generalizing h with
  | zero => exact ⟨hgroups, bounded⟩
  | succ wave ih =>
    apply get_bind
    dsimp only
    cases hbranch : h.held.request.branches[h.held.nextBranch]? with
    | none => exact ⟨hgroups, bounded⟩
    | some branch =>
      have inside := (List.getElem?_eq_some_iff.mp hbranch).1
      have room : h.held.activeBranches.length + 1 +
          min wave (h.held.request.branches.length - (h.held.nextBranch + 1)) ≤
            config.decisionBranchCapacity := by omega
      have within : Within config decisions h := ⟨hgroups, bounded⟩
      refine (expect_stays h within).bind fun _ t ht => get_bind ?_
      refine (attempt_stays t ht).bind fun _ u hu => (expect_stays u hu).bind fun parent v hv => ?_
      refine (onState_stays branchDecision_stays v hv).bind fun sequence w hw => ?_
      cases sequence with
      | none => exact hw
      | some sequence =>
        have inserted : Stays (Within config decisions)
            (onState (insertSequence sequence) : Deciding φ Nat) :=
          onState_stays insertSequence_stays
        refine (inserted w hw).bind fun sid x hx => modify_bind ?_
        refine Ensures.bind (P := fun _ => Within config decisions) ?_ fun admitted y hy => hy
        apply ih
        · exact hx.1
        · simpa using room
        · simp only [Bounded, List.length_append, List.length_singleton]
          omega

section
variable (hgroups : Groups config decisions h.state)
include hgroups

theorem forkBranches_ensures (hfits : WaveFits config h.state.sequences.size h.held) :
    Ensures (forkBranches model input) h (fun _ => Within config decisions)
      fun _ => Within config decisions := by
  apply get_bind
  dsimp only
  rw [hgroups.1]
  refine (admitBranches_ensures _ hgroups hfits).bind fun admitted t ht => ?_
  exact Stays.ite (.pure _) (reach_stays.bind fun _ => .pure _) t ht

theorem advanceBranches_ensures (hfits : WaveFits config h.state.sequences.size h.held) :
    Ensures (advanceBranches model input) h (fun _ => Within config decisions)
      fun _ => Within config decisions := by
  refine (forkBranches_ensures hgroups hfits).bind fun forked t ht => ?_
  refine Stays.ite (.pure _) (.get_bind fun _ _ => ?_) t ht
  refine .ite (prefillSuffixes_stays.bind fun _ => .pure _) ?_
  refine .ite (readBranches_stays.bind fun _ => .pure _) (.ite (.pure _) ?_)
  exact completeDecision_stays.bind fun _ => .pure _

theorem advanceDecisionGroup_ensures
    (hbounded : Bounded config h.held) (hfits : WaveFits config h.state.sequences.size h.held) :
    Ensures (advanceDecisionGroup model input) h (fun _ => Within config decisions)
      fun _ => Within config decisions := by
  apply get_bind
  have within : Within config decisions h := ⟨hgroups, hbounded⟩
  split
  · split
    · exact readTree_stays.bind (fun _ => .pure _) h within
    · exact admitParent_stays.bind (fun _ => .pure _) h within
  · split
    · exact prefillParent_stays.bind (fun _ => .pure _) h within
    · exact advanceBranches_ensures hgroups hfits

end

end

/-! ## Phases -/

section
variable {model : Model} {input : TickInput model.vocab φ} {config : SchedulerConfig}
  {decisions : BTreeMap Nat (DecisionGroup φ)} {s t : Gemma4.ChatService φ}

/-- Every group is bounded. -/
structure AllBounded (config : SchedulerConfig) (s : Gemma4.ChatService φ) : Prop where
  config_eq : s.config = config
  groups : ∀ id g, s.decisions.get id = some g → Bounded config g

/-- The group whose turn it is has room for its wave. -/
def TurnFits (s : Gemma4.ChatService φ) : Prop :=
  ∀ id ∈ s.decisionQueue.head?, ∀ g ∈ s.decisions.get id, WaveFits s.config s.sequences.size g

instance (s : Gemma4.ChatService φ) : Decidable (TurnFits s) := by
  unfold TurnFits
  infer_instance

/-- Programs that leave the groups alone keep their bound. -/
theorem stays_bounded {m : Serving φ α} (h : ∀ decisions, Stays (Groups config decisions) m) :
    Stays (AllBounded config) m := by
  intro s hs
  have kept : ∀ t : Gemma4.ChatService φ, Groups config s.decisions t → AllBounded config t := by
    rintro t ⟨hconfig, hdecisions⟩
    exact ⟨hconfig, hdecisions ▸ hs.groups⟩
  exact (h s.decisions s ⟨hs.config_eq, rfl⟩).mono (fun _ => kept) fun _ => kept

theorem AllBounded.erase (h : AllBounded config s) (id : Nat)
    (hgroups : Groups config (s.decisions.erase id) t) : AllBounded config t := by
  refine ⟨hgroups.1, fun other g hget => ?_⟩
  rw [hgroups.2, BTreeMap.get_erase] at hget
  split at hget
  · cases hget
  · exact h.groups other g hget

theorem logged_stays {call : Serving φ Unit} (h : Stays (Groups config decisions) call) :
    Stays (Groups config decisions) (logged call) :=
  (lend_stays (R := fun _ => True) trivial (onState_stays h)).bind fun _ => .pure _

theorem releaseDecisionGroup_stays {fails : Nat → Bool} {group : DecisionGroup φ} :
    Stays (Groups config decisions) (releaseDecisionGroup fails group) :=
  .forM fun _ => logged_stays releaseDecisionSequence_stays

theorem runDecisionPhase_ensures (h : AllBounded config s) (hfits : TurnFits s) :
    Ensures (runDecisionPhase model input) s (fun _ => AllBounded config)
      fun _ => AllBounded config := by
  apply get_bind
  cases hqueue : s.decisionQueue with
  | nil => exact h
  | cons id rest =>
    apply modify_bind
    apply get_bind
    cases hgroup : s.decisions.get id with
    | none => exact ⟨h.config_eq, h.groups⟩
    | some group =>
      apply expect_some rfl
      apply modify_bind
      have fits := hfits id (by rw [hqueue]; rfl) group hgroup
      rw [h.config_eq] at fits
      have advanced : Ensures (advanceDecisionGroup model input)
          ⟨{ s with decisionQueue := rest, decisions := s.decisions.erase id }, group⟩
          (fun _ => Within config (s.decisions.erase id))
          fun _ => Within config (s.decisions.erase id) :=
        advanceDecisionGroup_ensures ⟨h.config_eq, rfl⟩ (h.groups id group hgroup) fits
      refine ((lend_returns advanced).mono (fun _ _ ht => ht) fun _ _ ht => h.erase id ht).bind ?_
      rintro ⟨held, result⟩ t ⟨hgroups, hbounded⟩
      have erased : AllBounded config t := h.erase id hgroups
      split
      · exact stays_bounded (fun _ => report_stays) t erased
      · rename_i heq
        obtain ⟨rfl, -⟩ := Prod.mk.inj heq
        refine Ensures.modify ⟨hgroups.1, fun other g hget => ?_⟩
        rw [BTreeMap.get_insert] at hget
        split at hget
        · cases hget
          exact hbounded
        · exact erased.groups other g hget
      · refine stays_bounded (fun _ => ?_) t erased
        exact releaseDecisionGroup_stays.bind fun _ => report_stays

end

/-! ## Runs -/

section
variable {model : Model} {config : SchedulerConfig} {decisions : BTreeMap Nat (DecisionGroup φ)}
  {s t : Gemma4.ChatService φ} {action : Gemma4.Action model.vocab φ}

/-- In a tick, the group whose turn it is has room for its wave by then. -/
def Fits (model : Model) (x : Gemma4.ChatService φ × List Nat) :
    Gemma4.Action model.vocab φ → Prop
  | .tick input =>
    Ensures (runChatPhases model input) { x.1 with tick := .empty } (fun _ => TurnFits)
      fun _ _ => True
  | _ => True

instance (x : Gemma4.ChatService φ × List Nat) (action : Gemma4.Action model.vocab φ) :
    Decidable (Fits model x action) := by
  unfold Fits
  cases action <;> infer_instance

theorem tick_ensures {input : TickInput model.vocab φ} (h : AllBounded config s)
    (hfits : Fits model (s, ids) (.tick input)) :
    Ensures (Gemma4.tick model input) s (fun _ => AllBounded config)
      fun _ => AllBounded config := by
  apply modify_bind
  have phases : Stays (AllBounded config) (runChatPhases model input) :=
    stays_bounded fun _ => runChatPhases_stays
  have reset : AllBounded config { s with tick := .empty } := ⟨h.config_eq, h.groups⟩
  have ready : Ensures (runChatPhases model input) { s with tick := .empty }
      (fun _ t => AllBounded config t ∧ TurnFits t) fun _ => AllBounded config :=
    ((phases _ reset).and hfits).mono (fun _ _ ht => ht) fun _ _ ht => ht.1
  exact ready.bind fun _ t ht => runDecisionPhase_ensures ht.1 ht.2

theorem nextRequestId_stays :
    Stays (Groups config decisions) (nextRequestId : Serving φ Nat) :=
  .get_bind fun _ hs => .ite (.set_bind hs (.pure _)) (.throw _)

theorem addRequest_stays {vocab : Nat} {rendered : Except CudaError (List (Fin vocab))}
    {generation : RequestConfig} {built : Bool} :
    Stays (Groups config decisions) (addRequest rendered generation built : Serving φ Nat) := by
  refine attempt_stays.bind fun _ => attempt_stays.bind fun _ => .get_bind fun _ _ => ?_
  refine attempt_stays.bind fun _ => nextRequestId_stays.bind fun _ => .ite ?_ (.throw _)
  exact .modify_bind (fun _ hs => hs) (.pure _)

theorem addDecision_stays {request : DecisionRequest} :
    Stays (AllBounded config) (addDecision model request : Serving φ Nat) := by
  refine .get_bind fun _ _ => attempt_stays.bind fun _ => ?_
  refine (stays_bounded fun _ => nextRequestId_stays).bind fun id => ?_
  refine .modify_bind (fun s hs => ⟨hs.config_eq, fun other g hget => ?_⟩) (.pure _)
  rw [BTreeMap.get_insert] at hget
  split at hget
  · cases hget
    exact Nat.zero_le _
  · exact hs.groups other g hget

theorem cancelRequest_stays : Stays (AllBounded config) (cancelRequest id : Serving φ Unit) := by
  refine .get_bind fun s hs => ?_
  split
  · have erased : AllBounded config { s with
        decisions := s.decisions.erase id
        decisionQueue := s.decisionQueue.filter fun queued => queued ≠ id } :=
      hs.erase id ⟨hs.config_eq, rfl⟩
    exact .set_bind erased (stays_bounded fun _ => releaseDecisionGroup_stays)
  · split
    · exact .pure _
    · refine .set_bind ⟨hs.config_eq, hs.groups⟩ ?_
      split
      · exact .pure _
      · exact stays_bounded fun _ => logged_stays releaseDecisionSequence_stays

theorem call_ensures (h : AllBounded config s) (hfits : Fits model (s, ids) action) :
    Ensures (action.call model) s (fun _ => AllBounded config) fun _ => AllBounded config := by
  cases action with
  | addRequest rendered generation built =>
    exact stays_bounded (fun _ => addRequest_stays.bind fun _ => .pure _) s h
  | addDecision request => exact addDecision_stays.bind (fun _ => .pure _) s h
  | tick input => exact (tick_ensures h hfits).bind fun _ _ ht => ht
  | cancelRequest id => exact cancelRequest_stays.bind (fun _ => .pure _) s h

theorem step_bounded {x y : Gemma4.ChatService φ × List Nat} (h : AllBounded config x.1)
    (hfits : Fits model x action)
    (hstep : Gemma4.step model x action = some y) : AllBounded config y.1 := by
  have ends := call_ensures h hfits
  unfold Ensures at ends
  unfold Gemma4.step at hstep
  cases hrun : action.call model x.1 with
  | ok a u =>
    rw [hrun] at ends hstep
    cases hstep
    exact ends
  | error e u =>
    rw [hrun] at ends hstep
    cases e with
    | failed e =>
      cases hstep
      exact ends
    | panicked message => cases hstep

theorem new_bounded {labels : List Nat} {maxRetainedBytes : Nat}
    (h : ChatService.new model labels config maxRetainedBytes = .ok s) : AllBounded config s := by
  obtain ⟨_, -, h⟩ := bind_ok h
  obtain ⟨_, -, h⟩ := bind_ok h
  obtain ⟨_, -, h⟩ := bind_ok h
  obtain ⟨_, -, h⟩ := bind_ok h
  cases h
  exact ⟨rfl, nofun⟩

theorem branches_bounded {labels : List Nat} {maxRetainedBytes : Nat}
    {actions : List (Gemma4.Action model.vocab φ)} {y : Gemma4.ChatService φ × List Nat}
    (hnew : ChatService.new model labels config maxRetainedBytes = .ok s)
    (path : Run.Path (Gemma4.step model) (Fits model) (s, []) actions y) :
    AllBounded config y.1 := by
  let Inv : Gemma4.ChatService φ × List Nat → Prop := fun x => AllBounded config x.1
  exact path.invariant (fun {x y} _ h => step_bounded (x := x) h) (show Inv (s, []) from new_bounded hnew)

end

end Eider.Guarantees.GemmaWaves
