import Eider.Guarantees.SchedulerLedger

/-!
Admission, decode and prefill of the Qwen3.6 scheduler leave the configuration and the
decision groups alone, whether they return or fail.
-/
namespace Eider.Guarantees.PhaseFrames
open Lib Lib.ByteReader Source Source.Qwen36
open Guarantees.SchedulerLedger (attempt_stays expect_stays)

variable {n : Nat} {β κ φ C R K α ρ σ : Type}
variable {message : String} {site : Site} {call : String} {needed : Bool} {id : Nat}
variable {selected : List (Request K φ)} {held : ρ}

/-- A scheduler with a configuration and its groups. -/
def Groups (config : SchedulerConfig) (decisions : BTreeMap Nat (DecisionGroup φ))
    (s : Scheduler n β φ C K) : Prop := s.config = config ∧ s.decisions = decisions

/-! ## Calls outside the scheduler -/

section
variable {P : σ → Prop} {input : TickInput φ}

theorem expect_some {γ : Type} {value : Option α} {a : α} {s : σ}
    {f : α → EStateM (Fault CudaError) σ γ} {Q : γ → σ → Prop} {E : Fault CudaError → σ → Prop}
    (h : value = some a) (rest : Ensures (f a) s Q E) :
    Ensures (expect value message >>= f) s Q E := by
  subst h
  exact rest

theorem reach_stays : Stays P (reach input site call : EStateM (Fault CudaError) σ Unit) :=
  .ite (.throw _) (.pure _)

theorem reachWhen_stays :
    Stays P (reachWhen needed input site call : EStateM (Fault CudaError) σ Unit) :=
  .ite reach_stays (.pure _)

end

section
variable {model : TextModel n β κ φ C R K} {input : TickInput φ} {config : SchedulerConfig}
  {decisions : BTreeMap Nat (DecisionGroup φ)} {P : Scheduler n β φ C K → Prop} {R : ρ → Prop}
variable {f : Unit → Submitting n β φ C K ρ α}

/-! ## The pool and the requests -/

theorem insertSequence_stays {sequence : Sequence n β} :
    Stays (Groups config decisions) (insertSequence sequence : Scheduling n β φ C K Nat) := by
  refine .get_bind fun s hs => .ite ?_ (.throw _)
  exact .set_bind hs <| .pure _

theorem releaseSequence_stays :
    Stays (Groups config decisions) (releaseSequence id : Scheduling n β φ C K (Sequence n β)) := by
  refine .get_bind fun s hs => ?_
  split
  · exact .throw _
  · exact .set_bind hs <| .pure _

theorem finishSequence_stays {sequence : Sequence n β} :
    Stays (Groups config decisions) (finishSequence model sequence) := by
  refine .get_bind fun s hs => ?_
  exact .set_bind hs <| attempt_stays

theorem takeRequest_stays :
    Stays (Groups config decisions)
      (takeRequest id message : Scheduling n β φ C K (Request K φ)) := by
  refine .get_bind fun s hs => expect_stays.bind fun request => ?_
  exact .set_bind hs <| .pure _

theorem putRequest_stays {request : Request K φ} :
    Stays (Groups config decisions) (putRequest request : Scheduling n β φ C K Unit) :=
  .modify fun _ hs => hs

theorem report_stays {f : SchedulerTick φ → SchedulerTick φ} :
    Stays (Groups config decisions) (report f : Scheduling n β φ C K Unit) :=
  .modify fun _ hs => hs

theorem updateRequest_stays {f : Request K φ → Request K φ} :
    Stays (Groups config decisions) (updateRequest id f : Scheduling n β φ C K Unit) := by
  refine .modify fun s hs => ?_
  split
  · exact hs
  · exact hs

/-! ## Admission -/

theorem installRequest_stays {cacheId : Nat} {state : SequenceState n β} :
    Stays (Groups config decisions) (installRequest model input id cacheId state) := by
  refine updateRequest_stays.bind fun _ => reach_stays.bind fun _ => ?_
  refine insertSequence_stays.bind fun _ => .get_bind fun s _ => ?_
  refine updateRequest_stays.bind fun _ => reach_stays.bind fun _ => ?_
  exact updateRequest_stays.bind fun _ => .modify fun _ hs => hs

theorem admitRequest_stays : Stays (Groups config decisions) (admitRequest model input id) := by
  refine .get_bind fun _ _ => expect_stays.bind fun _ => .get_bind fun _ _ => ?_
  refine .modify_bind (fun _ hs => hs) <| attempt_stays.bind fun _ => ?_
  refine reach_stays.bind fun _ => reach_stays.bind fun _ => reachWhen_stays.bind fun _ => ?_
  refine .get_bind fun _ _ => .modify_bind (fun _ hs => hs) <| ?_
  refine attempt_stays.bind fun outcome => ?_
  cases outcome with
  | wouldBlock => exact .modify_bind (fun _ hs => hs) <| .pure _
  | admitted cacheId snapshot position =>
    dsimp only
    split
    · exact .modify_bind (fun _ hs => hs) <| .throw _
    · exact installRequest_stays.bind fun _ => .pure _

theorem admitLoop_stays (turns : Nat) :
    Stays (Groups config decisions) (admitLoop model input turns) := by
  induction turns with
  | zero => exact .pure _
  | succ turns ih =>
    refine .get_bind fun s hs => .ite ?_ (.pure _)
    split
    · exact .pure _
    · refine .set_bind hs <| admitRequest_stays.bind fun _ => ?_
      exact .ite ih (.pure _)

theorem admitWaiting_stays : Stays (Groups config decisions) (admitWaiting model input) :=
  .get_bind fun _ _ => admitLoop_stays _

/-! ## Prefill -/

theorem retainRequestCheckpoint_stays {r : Request K φ} :
    Stays (Groups config decisions) (retainRequestCheckpoint model input r) := by
  refine .ite (.pure _) (.ite (.pure _) ?_)
  split
  · exact .pure _
  · refine .get_bind fun s hs => ?_
    split
    · exact .pure _
    · refine .ite (.pure _) (.ite (.pure _) ?_)
      split
      · exact .pure _
      · refine .ite (.pure _) ?_
        exact .set_bind hs <| .pure _

theorem eligiblePrefills_stays (ids : List Nat) (rows : Nat) :
    Stays (Groups config decisions)
      (eligiblePrefills ids rows : Scheduling n β φ C K Nat) := by
  induction ids generalizing rows with
  | nil => exact .pure _
  | cons id rest ih =>
    cases rows with
    | zero => exact .pure _
    | succ rows =>
      refine .get_bind fun _ _ => expect_stays.bind fun _ => .ite ?_ (ih _)
      exact (ih _).bind fun _ => .pure _

theorem selectPrefill_stays (scan slots tokenBudget : Nat) :
    Stays (Groups config decisions)
      (selectPrefill scan slots tokenBudget : Scheduling n β φ C K (List (Request K φ × Nat))) := by
  induction scan generalizing slots tokenBudget with
  | zero => exact .pure _
  | succ scan ih =>
    refine .ite (.pure _) (.get_bind fun _ _ => ?_)
    split
    · exact .throw _
    · refine .get_bind fun _ _ => expect_stays.bind fun _ => .ite ?_ ?_
      · exact .modify_bind (fun _ hs => hs) <| ih _ _
      · refine .modify_bind (fun _ hs => hs) <| takeRequest_stays.bind fun _ => ?_
        exact (ih _ _).bind fun _ => .pure _

theorem warmupMtp_stays :
    Stays (Groups config decisions)
      (warmupMtp input selected : Scheduling n β φ C K (List (Request K φ))) := by
  refine .ite ?_ (.pure _)
  refine .get_bind fun s hs => .set_bind hs <| ?_
  exact .ite (.pure _) (.pure _)

theorem settlePrefills_stays (held : List (Request K φ × Nat)) :
    Stays (Groups config decisions) (settlePrefills model input held) := by
  induction held with
  | nil => exact .pure _
  | cons entry rest ih =>
    refine retainRequestCheckpoint_stays.bind fun _ => ?_
    exact .modify_bind (fun _ hs => hs) <| putRequest_stays.bind fun _ => ih

theorem allocatePrefillDflash2_stays :
    Stays (Groups config decisions)
      (allocatePrefillDflash2 input needed : Scheduling n β φ C K Unit) := by
  refine .get_bind fun _ _ => .ite ?_ (.pure _)
  exact reach_stays.bind fun _ => .modify fun _ hs => hs

theorem finishPrefill_stays {warmup : Bool} {chunks : List Nat} {result : Except CudaError Unit} :
    Stays (Groups config decisions) (finishPrefill model input warmup selected chunks result) := by
  cases result with
  | error e =>
    refine Stays.bind (.forM fun request => ?_) fun _ => .throw _
    exact .modify_bind (fun _ hs => hs) <| putRequest_stays
  | ok _ => exact reachWhen_stays.bind fun _ => settlePrefills_stays _

theorem prefillSelected_stays {chosen : List (Request K φ)} {chunks : List Nat} :
    Stays (Groups config decisions) (prefillSelected model input chosen chunks) := by
  refine warmupMtp_stays.bind fun _ => allocatePrefillDflash2_stays.bind fun _ => ?_
  refine attempt_stays.bind fun _ => .get_bind fun _ _ => attempt_stays.bind fun _ => ?_
  refine .get_bind fun s hs => ?_
  exact .set_bind hs <| finishPrefill_stays

theorem runPrefillPhase_stays : Stays (Groups config decisions) (runPrefillPhase model input) := by
  refine .get_bind fun _ _ => (eligiblePrefills_stays _ _).bind fun _ => ?_
  refine (selectPrefill_stays _ _ _).bind fun _ => .ite (.pure _) ?_
  exact report_stays.bind fun _ => prefillSelected_stays

/-! ## Decode -/

/-- A scheduler within `P`, and what a phase holds beside it within `R`. -/
def Beside (P : Scheduler n β φ C K → Prop) (R : ρ → Prop) (h : Holding n β φ C K ρ) : Prop :=
  P h.scheduler ∧ R h.held

theorem onScheduler_stays {call : Scheduling n β φ C K α} (hcall : Stays P call) :
    Stays (Beside P R) (onScheduler call : Submitting n β φ C K ρ α) := by
  intro h hs
  have ends := hcall h.scheduler hs.1
  unfold Ensures onScheduler at *
  cases hrun : call h.scheduler with
  | ok a t =>
    rw [hrun] at ends
    exact ⟨ends, hs.2⟩
  | error e t =>
    rw [hrun] at ends
    exact ⟨ends, hs.2⟩

theorem lend_returns {P : Holding n β φ C K ρ → Prop} {s : Scheduler n β φ C K}
    {call : Submitting n β φ C K ρ α} (hcall : Ensures call ⟨s, held⟩ (fun _ => P) (fun _ => P)) :
    Ensures (lend held call) s (fun result t => P ⟨t, result.1⟩) fun _ t => ∃ held, P ⟨t, held⟩ := by
  unfold Ensures lend at *
  cases hrun : call ⟨s, held⟩ with
  | ok a t =>
    rw [hrun] at hcall
    exact hcall
  | error e t =>
    rw [hrun] at hcall
    cases e with
    | failed e => exact hcall
    | panicked message => exact ⟨t.held, hcall⟩

theorem lend_stays
    {call : Submitting n β φ C K ρ α} (hheld : R held) (hcall : Stays (Beside P R) call) :
    Stays P (lend held call) := by
  intro s hs
  refine (lend_returns (hcall ⟨s, held⟩ ⟨hs, hheld⟩)).mono (fun _ _ h => h.1) ?_
  rintro _ t ⟨held, h⟩
  exact h.1

theorem setHeld_stays (hheld : R held) :
    Stays (Beside P R) (setHeld held : Submitting n β φ C K ρ Unit) :=
  .modify fun _ hs => ⟨hs.1, hheld⟩

theorem setHeld_bind (hheld : R held) (rest : Stays (Beside P R) (f ())) :
    Stays (Beside P R) (setHeld held >>= f) := (setHeld_stays hheld).bind fun _ => rest

theorem onModify_bind {g : Scheduler n β φ C K → Scheduler n β φ C K}
    (h : ∀ s, P s → P (g s)) (rest : Stays (Beside P R) (f ())) :
    Stays (Beside P R) (onScheduler (modify g) >>= f) :=
  (onScheduler_stays (.modify h)).bind fun _ => rest

theorem setExecution_stays {ids : List Nat} {entries : List (Sequence n β)}
    {cache : C} : Stays (Beside (Groups config decisions) R)
      (setExecution ids entries cache : Submitting n β φ C K ρ Unit) := .modify fun _ hs => hs

theorem allocate_stays {present : Bool} {workspaces : Workspaces → Workspaces} :
    Stays (Beside (Groups config decisions) fun _ => True)
      (allocate input present site call workspaces : Submitting n β φ C K ρ Unit) := by
  refine .ite (.pure _) (reach_stays.bind fun _ => .get_bind fun _ _ => ?_)
  exact .modify fun _ hs => hs

theorem allocateDflash2_stays :
    Stays (Beside (Groups config decisions) fun _ => True)
      (allocateDflash2 input needed : Submitting n β φ C K ρ Unit) :=
  .ite (.get_bind fun _ _ => allocate_stays) (.pure _)

theorem executeSpeculative_stays :
    Stays (Beside (Groups config decisions) fun _ => True) (executeSpeculative model input) := by
  refine .get_bind fun _ _ => allocate_stays.bind fun _ => .get_bind fun _ _ => ?_
  refine expect_stays.bind fun _ => setHeld_bind trivial <| expect_stays.bind fun _ => ?_
  refine .get_bind fun _ _ => attempt_stays.bind fun _ => expect_stays.bind fun _ => ?_
  refine attempt_stays.bind fun _ => .ite (setHeld_bind trivial <| .pure _) ?_
  refine allocateDflash2_stays.bind fun _ => .get_bind fun _ _ => ?_
  refine setExecution_stays.bind fun _ => setHeld_bind trivial <| attempt_stays.bind fun _ => ?_
  exact setHeld_bind trivial <| .pure _

theorem allocateDrafters_stays :
    Stays (Beside (Groups config decisions) fun _ => True)
      (allocateDrafters input : Submitting n β φ C K (List (Request K φ)) Unit) := by
  refine .get_bind fun _ _ => .ite ?_ ?_
  · exact .get_bind fun _ _ => allocate_stays.bind fun _ => allocateDflash2_stays
  · exact allocateDflash2_stays

theorem executeDecode_stays :
    Stays (Beside (Groups config decisions) fun _ => True) (executeDecode model input) := by
  refine Stays.bind (m := submitDecode model input) ?_ fun submitted => ?_
  · refine allocateDrafters_stays.bind fun _ => .get_bind fun _ _ => .get_bind fun _ _ => ?_
    refine expect_stays.bind fun _ => attempt_stays.bind fun _ => .get_bind fun _ _ => ?_
    refine attempt_stays.bind fun _ => setHeld_bind trivial <| ?_
    split
    · exact .throw _
    · exact .pure _
  · refine .get_bind fun _ _ => setExecution_stays.bind fun _ => attempt_stays.bind fun _ => ?_
    refine .get_bind fun _ _ => attempt_stays.bind fun _ => attempt_stays.bind fun _ => ?_
    refine setHeld_bind trivial <| ?_
    refine .ite (reach_stays.bind fun _ => .ite ?_ (.pure _)) (.ite ?_ (.pure _))
    · exact setHeld_bind trivial <| reach_stays.bind fun _ => .pure _
    · exact setHeld_bind trivial <| reach_stays.bind fun _ => .pure _

theorem selectDecoding_stays (rows : Nat) :
    Stays (Groups config decisions)
      (selectDecoding rows : Scheduling n β φ C K (List (Request K φ))) := by
  induction rows with
  | zero => exact .pure _
  | succ rows ih =>
    refine .get_bind fun _ _ => ?_
    split
    · exact .pure _
    · refine .modify_bind (fun _ hs => hs) <| takeRequest_stays.bind fun _ => ?_
      exact ih.bind fun _ => .pure _

theorem scanPrefilling_stays (scan : Nat) (selected : List (Request K φ)) :
    Stays (Groups config decisions)
      (scanPrefilling scan selected : Scheduling n β φ C K (List (Request K φ))) := by
  induction scan generalizing selected with
  | zero => exact .pure _
  | succ scan ih =>
    refine .get_bind fun s hs => ?_
    split
    · exact .pure _
    · refine .ite (expect_stays.bind fun _ => .ite ?_ ?_) ?_
      · exact .set_bind hs <| takeRequest_stays.bind fun _ => ih _
      · exact .set_bind hs <| ih _
      · exact .set_bind hs <| ih _

theorem requeueSelected_stays :
    Stays (Groups config decisions) (requeueSelected selected : Scheduling n β φ C K Unit) := by
  refine .forM fun request => .modify_bind (fun s hs => ?_) putRequest_stays
  split
  · exact hs
  · exact hs

theorem applySamples_stays (samples : List (SampledToken φ)) (request : Request K φ) :
    Stays (Groups config decisions) (applySamples model samples request) := by
  induction samples generalizing request with
  | nil => exact .pure _
  | cons sample rest ih =>
    refine attempt_stays.bind fun _ => report_stays.bind fun _ => ?_
    exact .ite (.pure _) (ih _)

theorem settleRequest_stays {request : Request K φ} :
    Stays (Groups config decisions) (settleRequest model request) := by
  refine .ite ?_ (.modify_bind (fun _ hs => hs) putRequest_stays)
  refine expect_stays.bind fun _ => releaseSequence_stays.bind fun _ => ?_
  exact finishSequence_stays.bind fun _ => report_stays.bind fun _ => putRequest_stays

theorem settleRequests_stays (settled : List (Request K φ × List (SampledToken φ))) :
    Stays (Groups config decisions) (settleRequests model settled) := by
  induction settled with
  | nil => exact .pure _
  | cons entry rest ih =>
    exact (applySamples_stays _ _).bind fun _ => settleRequest_stays.bind fun _ => ih

theorem decodeBatch_stays :
    Stays (Groups config decisions) (do
      match ← lend selected (executeDecode model input) with
      | (selected, .error e) => do
        requeueSelected selected
        raise e
      | (selected, .ok samples) =>
        settleRequests model (selected.zip (samples.map fun sample => [sample]))) := by
  refine (lend_stays trivial executeDecode_stays).bind fun result => ?_
  split
  · exact requeueSelected_stays.bind fun _ => .throw _
  · exact settleRequests_stays _

theorem decodeSelected_stays :
    Stays (Groups config decisions) (decodeSelected model input selected) := by
  refine .get_bind fun _ _ => ?_
  split
  · exact .pure _
  · refine .ite ?_ decodeBatch_stays
    refine (lend_stays trivial executeSpeculative_stays).bind fun result => ?_
    split
    · exact requeueSelected_stays.bind fun _ => .throw _
    · exact report_stays.bind fun _ => settleRequests_stays _
  · exact decodeBatch_stays

theorem runDecodePhase_stays : Stays (Groups config decisions) (runDecodePhase model input) := by
  refine .get_bind fun _ _ => (selectDecoding_stays _).bind fun _ => .get_bind fun _ _ => ?_
  refine (scanPrefilling_stays _ _).bind fun _ => report_stays.bind fun _ => ?_
  exact decodeSelected_stays

end

end Eider.Guarantees.PhaseFrames
