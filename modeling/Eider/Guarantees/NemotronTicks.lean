import Eider.Guarantees.NemotronDecision
import Eider.Lib.Run

/-!
The decision groups of the Nemotron 3 service over its ticks
(`infer/src/execution/nemotron3_serving/decision.rs`, lines 71 to 188).

A group waits, then takes turns in rotation, and ends finished, failed or cancelled. The
turns of a group are at most as many as its tokens.
-/
namespace Eider.Guarantees.NemotronTicks
open Lib Lib.ByteReader Lib.Feed List BTreeMap Option
open Guarantees.DecisionRequests Guarantees.NemotronDecision
open Source Source.Nemotron3
open Source.Qwen36 (DecisionBranch DecisionRequest SchedulerConfig)

variable {φ : Type}

/-! ## Invariant -/

/-- The turns that a group took. -/
def turnsOf (s : DecisionService φ) (id : Nat) : List TurnRecord :=
  s.turns.filter fun record => record.id = id

/-- A group that ended was reported. -/
def Ended (s : DecisionService φ) (id : Nat) : Prop :=
  (∃ completion, (id, completion) ∈ s.finished) ∨ (∃ e, (id, e) ∈ s.failed) ∨ id ∈ s.cancelled

/-- An error from a call, or rows without an answer. -/
def Cause (model : DecisionModel φ) (outside : CudaError → Prop) (request : DecisionRequest)
    (e : CudaError) : Prop :=
  outside e ∨ ∃ rows refusal, RowsOf model request rows ∧
    answersFromLogits model.float model.question request rows model.one = .error refusal ∧
    e = decisionError refusal.message

/-- A turn spends its grant on tokens, and on one at least. -/
def Spent (record : TurnRecord) : Prop :=
  record.fed + record.left = record.granted ∧ 0 < record.fed

/-- A group that takes turns, whatever their budgets. -/
def Works (model : DecisionModel φ) (config : SchedulerConfig) (request : DecisionRequest)
    (group : DecisionGroup φ) (log : List (Target × List Nat)) : Prop :=
  ∃ parent branches, ∀ budget, Waiting model config request parent branches ⟨group, budget, log⟩

/-- Where a group is that was queued for a request. -/
inductive Standing (model : DecisionModel φ) (config : SchedulerConfig) (s : DecisionService φ)
    (id : Nat) (request : DecisionRequest) : Prop where
  | waiting (queued : id ∈ s.waiting) (unready : id ∉ s.decisionReady)
      (group : s.decisions.get id = some (queuedGroup request)) (log : s.log id = [])
      (turns : turnsOf s id = [])
  | ready (unqueued : id ∉ s.waiting) (ready : id ∈ s.decisionReady)
      (works : ∃ group, s.decisions.get id = some group ∧
        Works model config request group (s.log id))
      (turns : (turnsOf s id).length ≤ total (s.log id))
  | ended (unqueued : id ∉ s.waiting) (unready : id ∉ s.decisionReady)
      (gone : s.decisions.get id = none) (ended : Ended s id)

/-- An identity that no request has. -/
structure Unknown (s : DecisionService φ) (id : Nat) : Prop where
  unqueued : id ∉ s.waiting
  unready : id ∉ s.decisionReady
  gone : s.decisions.get id = none
  log : s.log id = []
  turns : turnsOf s id = []

/-- A finished group: complete, gone, and behind as many turns as tokens at most. -/
structure Finished (model : DecisionModel φ) (s : DecisionService φ) (id : Nat)
    (request : DecisionRequest) (completion : DecisionCompletion φ) : Prop where
  completed : Completed model request (s.log id) completion
  gone : s.decisions.get id = none
  turns : (turnsOf s id).length ≤ total (s.log id)

/-- What holds of the service between events. -/
structure Ticking (model : DecisionModel φ) (config : SchedulerConfig) (vocab context : Nat)
    (outside : CudaError → Prop) (s : DecisionService φ) : Prop where
  waitingDistinct : s.waiting.Nodup
  readyDistinct : s.decisionReady.Nodup
  below : ∀ id request, s.accepted.get id = some request → id < s.nextId
  valid : ∀ id request, s.accepted.get id = some request →
    ValidRequest model.question model.labels vocab context request
  faithful : ∀ id request, s.accepted.get id = some request → Faithful request (s.log id)
  standing : ∀ id request, s.accepted.get id = some request → Standing model config s id request
  unknown : ∀ id, s.accepted.get id = none → Unknown s id
  finished : ∀ entry ∈ s.finished, ∃ request, s.accepted.get entry.1 = some request ∧
    Finished model s entry.1 request entry.2
  failed : ∀ entry ∈ s.failed, ∃ request, s.accepted.get entry.1 = some request ∧
    Cause model outside request entry.2
  turns : ∀ record ∈ s.turns, Spent record

/-! ## What an event leaves alone -/

section
variable {model : DecisionModel φ} {config : SchedulerConfig} {vocab context : Nat}
  {outside : CudaError → Prop} {s t : DecisionService φ} {id : Nat} {request : DecisionRequest}

/-- A group that an event does not touch. -/
structure Same (s t : DecisionService φ) (id : Nat) : Prop where
  queued : id ∈ t.waiting ↔ id ∈ s.waiting
  ready : id ∈ t.decisionReady ↔ id ∈ s.decisionReady
  group : t.decisions.get id = s.decisions.get id
  log : t.log id = s.log id
  turns : turnsOf t id = turnsOf s id
  ended : Ended s id → Ended t id

theorem Standing.same (h : Standing model config s id request) (same : Same s t id) :
    Standing model config t id request := by
  cases h with
  | waiting queued unready group log turns =>
    exact .waiting (same.queued.mpr queued) (fun h => unready (same.ready.mp h))
      (same.group.trans group) (same.log.trans log) (same.turns.trans turns)
  | ready unqueued ready works turns =>
    refine .ready (fun h => unqueued (same.queued.mp h)) (same.ready.mpr ready) ?_ ?_
    · rw [same.group, same.log]
      exact works
    · rw [same.turns, same.log]
      exact turns
  | ended unqueued unready gone ended =>
    exact .ended (fun h => unqueued (same.queued.mp h)) (fun h => unready (same.ready.mp h))
      (same.group.trans gone) (same.ended ended)

theorem Unknown.same (h : Unknown s id) (same : Same s t id) : Unknown t id where
  unqueued := fun hid => h.unqueued (same.queued.mp hid)
  unready := fun hid => h.unready (same.ready.mp hid)
  gone := same.group.trans h.gone
  log := same.log.trans h.log
  turns := same.turns.trans h.turns

theorem Finished.same {completion : DecisionCompletion φ}
    (h : Finished model s id request completion) (same : Same s t id) :
    Finished model t id request completion where
  completed := by
    rw [same.log]
    exact h.completed
  gone := same.group.trans h.gone
  turns := by
    rw [same.turns, same.log]
    exact h.turns

/-- An event that touches one group. -/
structure Touches (model : DecisionModel φ) (config : SchedulerConfig)
    (outside : CudaError → Prop) (s t : DecisionService φ) (id : Nat) (request : DecisionRequest) :
    Prop where
  waitingDistinct : t.waiting.Nodup
  readyDistinct : t.decisionReady.Nodup
  accepted : t.accepted = s.accepted
  next : t.nextId = s.nextId
  others : ∀ other ≠ id, Same s t other
  faithful : Faithful request (t.log id)
  standing : Standing model config t id request
  finished : ∀ entry ∈ t.finished, entry ∈ s.finished ∨
    entry.1 = id ∧ Finished model t id request entry.2
  failed : ∀ entry ∈ t.failed, entry ∈ s.failed ∨ entry.1 = id ∧ Cause model outside request entry.2
  turns : ∀ record ∈ t.turns, record ∈ s.turns ∨ Spent record

theorem Ticking.touch (h : Ticking model config vocab context outside s)
    (hrequest : s.accepted.get id = some request) {group : DecisionGroup φ}
    (hgroup : s.decisions.get id = some group)
    (touches : Touches model config outside s t id request) :
    Ticking model config vocab context outside t where
  waitingDistinct := touches.waitingDistinct
  readyDistinct := touches.readyDistinct
  below := by
    rw [touches.accepted, touches.next]
    exact h.below
  valid := by
    rw [touches.accepted]
    exact h.valid
  faithful := by
    rw [touches.accepted]
    intro other r hr
    by_cases heq : other = id
    · subst heq
      obtain rfl : request = r := some.inj (hrequest.symm.trans hr)
      exact touches.faithful
    · rw [(touches.others other heq).log]
      exact h.faithful other r hr
  standing := by
    rw [touches.accepted]
    intro other r hr
    by_cases heq : other = id
    · subst heq
      obtain rfl : request = r := some.inj (hrequest.symm.trans hr)
      exact touches.standing
    · exact (h.standing other r hr).same (touches.others other heq)
  unknown := by
    rw [touches.accepted]
    intro other hr
    have hne : other ≠ id := by
      rintro rfl
      rw [hrequest] at hr
      cases hr
    exact (h.unknown other hr).same (touches.others other hne)
  finished := by
    rw [touches.accepted]
    intro entry hentry
    rcases touches.finished entry hentry with hold | ⟨hid, hnew⟩
    · obtain ⟨r, hr, finished⟩ := h.finished entry hold
      -- a finished group is gone, so the event touched another one
      have hne : entry.1 ≠ id := by
        intro heq
        have gone := finished.gone
        rw [heq, hgroup] at gone
        cases gone
      exact ⟨r, hr, finished.same (touches.others _ hne)⟩
    · rw [hid]
      exact ⟨request, hrequest, hnew⟩
  failed := by
    rw [touches.accepted]
    intro entry hentry
    rcases touches.failed entry hentry with hold | ⟨hid, hnew⟩
    · exact h.failed entry hold
    · rw [hid]
      exact ⟨request, hrequest, hnew⟩
  turns := by
    intro record hrecord
    rcases touches.turns record hrecord with hold | hnew
    · exact h.turns record hold
    · exact hnew

end

/-! ## Events without a turn -/

section
variable {model : DecisionModel φ} {config : SchedulerConfig} {vocab context : Nat}
  {outside : CudaError → Prop} {s t : DecisionService φ} {id : Nat} {request : DecisionRequest}

theorem empty_ticking : Ticking model config vocab context outside .empty where
  waitingDistinct := nodup_nil
  readyDistinct := nodup_nil
  below := nofun
  valid := nofun
  faithful := nofun
  standing := nofun
  unknown := fun _ _ => ⟨nofun, nofun, rfl, rfl, rfl⟩
  finished := nofun
  failed := nofun
  turns := nofun

section
variable (h : Ticking model config vocab context outside s)
include h

theorem Ticking.queued (hid : id ∈ s.waiting) :
    ∃ request, s.accepted.get id = some request ∧ id ∉ s.decisionReady ∧
      s.decisions.get id = some (queuedGroup request) ∧ s.log id = [] ∧ turnsOf s id = [] := by
  cases hrequest : s.accepted.get id with
  | none => exact absurd hid (h.unknown id hrequest).unqueued
  | some request =>
    cases h.standing id request hrequest with
    | waiting queued unready group log turns => exact ⟨request, rfl, unready, group, log, turns⟩
    | ready unqueued => exact absurd hid unqueued
    | ended unqueued => exact absurd hid unqueued

theorem Ticking.working (hid : id ∈ s.decisionReady) :
    ∃ request group, s.accepted.get id = some request ∧ id ∉ s.waiting ∧
      s.decisions.get id = some group ∧ Works model config request group (s.log id) ∧
      (turnsOf s id).length ≤ total (s.log id) := by
  cases hrequest : s.accepted.get id with
  | none => exact absurd hid (h.unknown id hrequest).unready
  | some request =>
    cases h.standing id request hrequest with
    | waiting queued unready => exact absurd hid unready
    | ready unqueued ready works turns =>
      obtain ⟨group, hgroup, works⟩ := works
      exact ⟨request, group, rfl, unqueued, hgroup, works, turns⟩
    | ended unqueued unready => exact absurd hid unready

theorem Ticking.chat :
    Ticking model config vocab context outside { s with nextId := s.nextId + 1 } := { h with
  below := fun id r hr => Nat.lt_succ_of_lt (h.below id r hr)
  standing := fun id r hr => (h.standing id r hr).same ⟨.rfl, .rfl, rfl, rfl, rfl, fun h => h⟩
  unknown := fun id hr => (h.unknown id hr).same ⟨.rfl, .rfl, rfl, rfl, rfl, fun h => h⟩
  finished := by
    intro entry hentry
    obtain ⟨r, hr, finished⟩ := h.finished entry hentry
    exact ⟨r, hr, finished.same ⟨.rfl, .rfl, rfl, rfl, rfl, fun h => h⟩⟩ }

theorem Ticking.queue (hqueued : queueDecision model vocab context s request = .ok t) :
    Ticking model config vocab context outside t := by
  rw [queueDecision] at hqueued
  split at hqueued
  · cases hqueued
  · rename_i hvalid
    split at hqueued
    · cases hqueued
    · cases hqueued
      have fresh : s.accepted.get s.nextId = none := by
        cases hrequest : s.accepted.get s.nextId with
        | none => rfl
        | some r => exact absurd (h.below _ r hrequest) (Nat.lt_irrefl _)
      have new := h.unknown _ fresh
      have others : ∀ other ≠ s.nextId, Same s { s with
          nextId := s.nextId + 1
          decisions := s.decisions.insert s.nextId (queuedGroup request)
          waiting := s.waiting ++ [s.nextId]
          accepted := s.accepted.insert s.nextId request } other := fun other hne =>
        ⟨by simp [hne], .rfl, get_insert_of_ne _ _ hne, rfl, rfl, fun h => h⟩
      have known : ∀ other r, (s.accepted.insert s.nextId request).get other = some r →
          other = s.nextId ∧ r = request ∨ other ≠ s.nextId ∧ s.accepted.get other = some r := by
        intro other r hr
        rw [get_insert] at hr
        split at hr
        · rename_i heq
          exact .inl ⟨heq.symm, (some.inj hr).symm⟩
        · rename_i hne
          exact .inr ⟨Ne.symm hne, hr⟩
      constructor
      case waitingDistinct =>
        exact nodup_append.mpr ⟨h.waitingDistinct, nodup_singleton _, fun a ha b hb heq =>
          new.unqueued (mem_singleton.mp hb ▸ heq ▸ ha)⟩
      case readyDistinct => exact h.readyDistinct
      case below =>
        intro other r hr
        rcases known other r hr with ⟨rfl, -⟩ | ⟨-, hold⟩
        · exact Nat.lt_succ_self _
        · exact Nat.lt_succ_of_lt (h.below other r hold)
      case valid =>
        intro other r hr
        rcases known other r hr with ⟨-, rfl⟩ | ⟨-, hold⟩
        · exact validateDecision_ok hvalid
        · exact h.valid other r hold
      case faithful =>
        intro other r hr
        rcases known other r hr with ⟨rfl, rfl⟩ | ⟨-, hold⟩
        · have log : DecisionService.log { s with
              nextId := s.nextId + 1
              decisions := s.decisions.insert s.nextId (queuedGroup r)
              waiting := s.waiting ++ [s.nextId]
              accepted := s.accepted.insert s.nextId r } s.nextId = [] := new.log
          rw [log]
          exact ⟨List.nil_prefix, fun _ _ _ => nil_prefix, Behind.nil _ _, nofun⟩
        · exact h.faithful other r hold
      case standing =>
        intro other r hr
        rcases known other r hr with ⟨rfl, rfl⟩ | ⟨hne, hold⟩
        · exact .waiting (by simp) new.unready (get_insert_self _ _ _) new.log new.turns
        · exact (h.standing other r hold).same (others other hne)
      case unknown =>
        intro other hr
        have hne : other ≠ s.nextId := by
          rintro rfl
          rw [get_insert_self] at hr
          cases hr
        rw [get_insert_of_ne _ _ hne] at hr
        exact (h.unknown other hr).same (others other hne)
      case finished =>
        intro entry hentry
        obtain ⟨r, hr, finished⟩ := h.finished entry hentry
        have hne : entry.1 ≠ s.nextId := fun heq => Nat.lt_irrefl _ (heq ▸ h.below _ r hr)
        refine ⟨r, ?_, finished.same (others _ hne)⟩
        rw [get_insert_of_ne _ _ hne]
        exact hr
      case failed =>
        intro entry hentry
        obtain ⟨r, hr, cause⟩ := h.failed entry hentry
        have hne : entry.1 ≠ s.nextId := fun heq => Nat.lt_irrefl _ (heq ▸ h.below _ r hr)
        refine ⟨r, ?_, cause⟩
        rw [get_insert_of_ne _ _ hne]
        exact hr
      case turns => exact h.turns

theorem Ticking.cancel (id : Nat) :
    Ticking model config vocab context outside (cancelDecision id s) := by
  rw [cancelDecision]
  cases hgroup : s.decisions.get id with
  | none => exact h
  | some group =>
    cases hrequest : s.accepted.get id with
    | none =>
      have gone := (h.unknown id hrequest).gone
      rw [hgroup] at gone
      cases gone
    | some request =>
      apply h.touch hrequest hgroup
      constructor
      case waitingDistinct => exact h.waitingDistinct.filter _
      case readyDistinct => exact h.readyDistinct.filter _
      case accepted => rfl
      case next => rfl
      case others =>
        intro other hne
        refine ⟨by simp [hne], by simp [hne], get_erase_of_ne _ hne, rfl, rfl, ?_⟩
        rintro (finished | failed | cancelled)
        · exact .inl finished
        · exact .inr (.inl failed)
        · exact .inr (.inr (mem_append_left _ cancelled))
      case faithful => exact h.faithful id request hrequest
      case standing =>
        refine .ended (by simp) (by simp) (get_erase_self _ _) (.inr (.inr ?_))
        exact mem_append_right _ (mem_singleton_self _)
      case finished => exact fun entry hentry => .inl hentry
      case failed => exact fun entry hentry => .inl hentry
      case turns => exact fun record hrecord => .inl hrecord

/-- How an event ends: a value, or an error of the calls that end the service. -/
def Served {α : Type} (P : α → Prop) (E : CudaError → Prop) : Except (Fault CudaError) α → Prop
  | .ok a => P a
  | .error (.failed e) => E e
  | .error (.panicked _) => False

theorem Ticking.admission
    {outcome synchronized : Except CudaError Unit} (hcalls : ∀ e, outcome = .error e → outside e) :
    Served (Ticking model config vocab context outside) (fun e => synchronized = .error e)
      (admitFirst outcome synchronized s) := by
  rw [admitFirst]
  cases hwaiting : s.waiting with
  | nil => exact h
  | cons id waiting =>
    have hid : id ∈ s.waiting := by
      rw [hwaiting]
      exact mem_cons_self
    obtain ⟨request, hrequest, unready, group, log, turns⟩ := h.queued hid
    have distinct := h.waitingDistinct
    rw [hwaiting, nodup_cons] at distinct
    dsimp only
    rw [group]
    have valid := h.valid id request hrequest
    have faithful := h.faithful id request hrequest
    have queued : ∀ other ≠ id, (other ∈ waiting ↔ other ∈ s.waiting) := by
      intro other hne
      rw [hwaiting, mem_cons, or_iff_right hne]
    cases houtcome : outcome with
    | ok _ =>
      apply h.touch hrequest group
      constructor
      case waitingDistinct => exact distinct.2
      case readyDistinct =>
        exact nodup_append.mpr ⟨h.readyDistinct, nodup_singleton _, fun a ha b hb heq =>
          unready (mem_singleton.mp hb ▸ heq ▸ ha)⟩
      case accepted => rfl
      case next => rfl
      case others =>
        intro other hne
        exact ⟨queued other hne, by simp [hne], get_insert_of_ne _ _ hne, rfl, rfl,
          fun h => h⟩
      case faithful => exact faithful
      case standing =>
        have works : Works model config request (admitDecision (queuedGroup request)) (s.log id) := by
          rw [log]
          exact ⟨_, _, fun budget => waiting_admitted request budget valid⟩
        refine .ready distinct.1 (by simp) ⟨_, get_insert_self _ _ _, works⟩ ?_
        exact (congrArg length turns).trans_le (Nat.zero_le _)
      case finished => exact fun entry hentry => .inl hentry
      case failed => exact fun entry hentry => .inl hentry
      case turns => exact fun record hrecord => .inl hrecord
    | error e =>
      cases synchronized with
      | error e' => rfl
      | ok _ =>
        apply h.touch hrequest group
        constructor
        case waitingDistinct => exact distinct.2
        case readyDistinct => exact h.readyDistinct
        case accepted => rfl
        case next => rfl
        case others =>
          intro other hne
          refine ⟨queued other hne, .rfl, get_erase_of_ne _ hne, rfl, rfl, ?_⟩
          rintro (finished | ⟨e', failed⟩ | cancelled)
          · exact .inl finished
          · exact .inr (.inl ⟨e', mem_append_left _ failed⟩)
          · exact .inr (.inr cancelled)
        case faithful => exact faithful
        case standing =>
          refine .ended distinct.1 unready (get_erase_self _ _) (.inr (.inl ⟨e, ?_⟩))
          exact mem_append_right _ (mem_singleton_self _)
        case finished => exact fun entry hentry => .inl hentry
        case failed =>
          intro entry hentry
          rcases mem_append.mp hentry with hold | hnew
          · exact .inl hold
          · obtain rfl := mem_singleton.mp hnew
            exact .inr ⟨rfl, .inl (hcalls e houtcome)⟩
        case turns => exact fun record hrecord => .inl hrecord

end

end

/-! ## Turns -/

section
variable {model : DecisionModel φ} {config : SchedulerConfig} {vocab context : Nat}
  {outside : CudaError → Prop} {s t u : DecisionService φ} {id budget : Nat} {ready : List Nat}
  {calls : TickCalls}

theorem Served.bind {α β : Type} {P : α → Prop} {Q : β → Prop} {E : CudaError → Prop}
    {x : Except (Fault CudaError) α} {f : α → Except (Fault CudaError) β} (h : Served P E x)
    (rest : ∀ a, P a → Served Q E (f a)) : Served Q E (x >>= f) := by
  rcases x with (_ | _) | a
  · exact h
  · exact h
  · exact rest a h

/-- Turns and failures are only added. -/
structure Later (s t : DecisionService φ) : Prop where
  turns : s.turns <+: t.turns
  failed : s.failed ⊆ t.failed

theorem Later.refl (s : DecisionService φ) : Later s s := ⟨prefix_rfl, fun _ h => h⟩

theorem Later.trans (h : Later s t) (h' : Later t u) : Later s u :=
  ⟨h.turns.trans h'.turns, fun _ hentry => h'.failed (h.failed hentry)⟩

/-- A group took a turn with a grant, or failed. -/
def Took (s t : DecisionService φ) (id granted : Nat) : Prop :=
  (∃ record, record.id = id ∧ record.granted = granted ∧ s.turns ++ [record] <+: t.turns) ∨
    ∃ e, (id, e) ∈ t.failed

theorem Took.later (h : Took s t id budget) (later : Later t u) : Took s u id budget := by
  rcases h with ⟨record, hid, hgranted, hturns⟩ | ⟨e, he⟩
  · exact .inl ⟨record, hid, hgranted, hturns.trans later.turns⟩
  · exact .inr ⟨e, later.failed he⟩

/-- The errors that end the service in a tick. -/
def Fatal (calls : TickCalls) (e : CudaError) : Prop :=
  ∃ id, calls.synchronize id = .error e ∨ calls.release id = .error e

/-- A group that is about to take a turn. -/
structure Turning (model : DecisionModel φ) (config : SchedulerConfig) (vocab context : Nat)
    (outside : CudaError → Prop) (s : DecisionService φ) (id : Nat) (ready : List Nat)
    (request : DecisionRequest) (group : DecisionGroup φ) : Prop where
  ticking : Ticking model config vocab context outside s
  ready_eq : s.decisionReady = id :: ready
  accepted : s.accepted.get id = some request
  group_eq : s.decisions.get id = some group
  unqueued : id ∉ s.waiting
  unready : id ∉ ready
  distinct : ready.Nodup
  works : Works model config request group (s.log id)
  turns : (turnsOf s id).length ≤ total (s.log id)

theorem Ticking.turning (h : Ticking model config vocab context outside s)
    (hready : s.decisionReady = id :: ready) :
    ∃ request group, Turning model config vocab context outside s id ready request group := by
  have hid : id ∈ s.decisionReady := by
    rw [hready]
    exact mem_cons_self
  obtain ⟨request, group, hrequest, unqueued, hgroup, works, turns⟩ := h.working hid
  have distinct := h.readyDistinct
  rw [hready, nodup_cons] at distinct
  exact ⟨request, group, h, hready, hrequest, hgroup, unqueued, distinct.1, distinct.2, works, turns⟩

variable {request : DecisionRequest} {group : DecisionGroup φ} {log : List (Target × List Nat)}
  {other : Nat}

theorem log_insert (hfed : t.fed = s.fed.insert id log) : t.log id = log := by
  rw [DecisionService.log, hfed, get_insert_self, getD_some]

theorem turnsOf_append {record : TurnRecord} (hrecord : record.id = id)
    (hturns : t.turns = s.turns ++ [record]) : turnsOf t id = turnsOf s id ++ [record] := by
  rw [turnsOf, hturns, filter_append, turnsOf]
  simp [hrecord]

section
variable (h : Turning model config vocab context outside s id ready request group)
variable {record : TurnRecord}
include h

theorem Turning.same (hne : other ≠ id) (hwaiting : t.waiting = s.waiting)
    (hready : other ∈ t.decisionReady ↔ other ∈ ready)
    (hgroup : t.decisions.get other = s.decisions.get other) (hfed : t.fed = s.fed.insert id log)
    (hturns : ∃ records, t.turns = s.turns ++ records ∧ ∀ record ∈ records, record.id = id)
    (hended : Ended s other → Ended t other) : Same s t other where
  queued := by rw [hwaiting]
  ready := by rw [hready, h.ready_eq, mem_cons, or_iff_right hne]
  group := hgroup
  log := by
    rw [DecisionService.log, hfed, get_insert_of_ne _ _ hne, DecisionService.log]
  turns := by
    obtain ⟨records, hturns, hrecords⟩ := hturns
    have none : records.filter (fun record => record.id = other) = [] := by
      rw [filter_eq_nil_iff]
      intro record hrecord
      simp [hrecords record hrecord, Ne.symm hne]
    rw [turnsOf, hturns, filter_append, none, append_nil, turnsOf]
  ended := hended

/-- The tokens that a group has not been fed. -/
def owed (s : DecisionService φ) (id : Nat) : Nat :=
  ((s.accepted.get id).map logicalInputTokens).getD 0 - total (s.log id)

/-- The tokens that the groups in rotation have not been fed. -/
def debt (s : DecisionService φ) : Nat := (s.decisionReady.map (owed s)).sum

omit h in
theorem Same.owed (h : Same s t other) (haccepted : t.accepted = s.accepted) :
    owed t other = owed s other := by
  rw [NemotronTicks.owed, NemotronTicks.owed, haccepted, h.log]

theorem Turning.owes : 0 < owed s id := by
  obtain ⟨parent, branches, waits⟩ := h.works
  have short := (waits 0).total_lt (h.ticking.valid id request h.accepted)
  rw [owed, h.accepted, map_some, getD_some]
  dsimp only at short
  omega

theorem Turning.debt : debt s = owed s id + (ready.map (owed s)).sum := by
  rw [NemotronTicks.debt, h.ready_eq, map_cons, sum_cons]

theorem Turning.rest (others : ∀ other ≠ id, Same s t other) (haccepted : t.accepted = s.accepted) :
    (ready.map (owed t)).sum = (ready.map (owed s)).sum := by
  congr 1
  exact map_congr_left fun other hother =>
    (others other fun heq => h.unready (heq ▸ hother)).owed haccepted

/-- What a turn leaves of the service. -/
def TurnKeeps (model : DecisionModel φ) (config : SchedulerConfig) (vocab context : Nat)
    (outside : CudaError → Prop) (s : DecisionService φ) (id budget : Nat) (ready : List Nat)
    (t : DecisionService φ) : Prop :=
  Ticking model config vocab context outside t ∧ ready.length ≤ t.decisionReady.length ∧
    Later s t ∧ Took s t id budget ∧ debt t < debt s

/-- A group leaves the rotation, or goes to its end behind more tokens. -/
theorem Turning.settled (hready : t.decisionReady = ready ∨
      t.decisionReady = ready ++ [id] ∧ total (s.log id) < total (t.log id))
    (later : Later s t) (took : Took s t id budget)
    (touches : Touches model config outside s t id request) :
    TurnKeeps model config vocab context outside s id budget ready t := by
  have rest := h.rest touches.others touches.accepted
  have owes := h.owes
  refine ⟨h.ticking.touch h.accepted h.group_eq touches, ?_, later, took, ?_⟩
  · rcases hready with hready | ⟨hready, -⟩
    · rw [hready]
    · rw [hready, length_append]
      exact Nat.le_add_right _ _
  · rw [h.debt, NemotronTicks.debt]
    rcases hready with hready | ⟨hready, hfed⟩
    · rw [hready, rest]
      omega
    · have less : owed t id < owed s id := by
        rw [owed, owed, touches.accepted] at *
        omega
      rw [hready, map_append, sum_append, rest, map_singleton, sum_singleton]
      omega

theorem Turning.fails
    {e : CudaError} (hfaithful : Faithful request log) (hcause : Cause model outside request e) :
    TurnKeeps model config vocab context outside s id budget ready
      { s with
        decisionReady := ready
        decisions := s.decisions.erase id
        fed := s.fed.insert id log
        failed := s.failed ++ [(id, e)] } := by
  have reported : (id, e) ∈ s.failed ++ [(id, e)] := mem_append_right _ (mem_singleton_self _)
  refine h.settled (.inl rfl) ⟨prefix_rfl, subset_append_left _ _⟩ (.inr ⟨e, reported⟩) ?_
  constructor
  case waitingDistinct => exact h.ticking.waitingDistinct
  case readyDistinct => exact h.distinct
  case accepted => rfl
  case next => rfl
  case others =>
    intro other hne
    refine h.same hne rfl .rfl (get_erase_of_ne _ hne) rfl
      ⟨[], (append_nil _).symm, nofun⟩ ?_
    rintro (finished | ⟨e', failed⟩ | cancelled)
    · exact .inl finished
    · exact .inr (.inl ⟨e', mem_append_left _ failed⟩)
    · exact .inr (.inr cancelled)
  case faithful =>
    rw [log_insert (s := s) rfl]
    exact hfaithful
  case standing =>
    exact .ended h.unqueued h.unready (get_erase_self _ _) (.inr (.inl ⟨e, reported⟩))
  case finished => exact fun entry hentry => .inl hentry
  case failed =>
    intro entry hentry
    rcases mem_append.mp hentry with hold | hnew
    · exact .inl hold
    · obtain rfl := mem_singleton.mp hnew
      exact .inr ⟨rfl, hcause⟩
  case turns => exact fun record hrecord => .inl hrecord

theorem Turning.count (hrecord : record.id = id) (hturns : t.turns = s.turns ++ [record])
    (hfed : t.fed = s.fed.insert id log) (hprogress : total (s.log id) < total log) :
    (turnsOf t id).length ≤ total (t.log id) := by
  have turns := h.turns
  rw [turnsOf_append hrecord hturns, log_insert hfed, length_append, length_singleton]
  omega

/-- A group that is not complete goes to the end of the queue. -/
theorem Turning.goesOn {next : DecisionGroup φ} (hid : record.id = id)
    (hgranted : record.granted = budget) (hspent : Spent record)
    (hprogress : total (s.log id) < total log) (hworks : Works model config request next log) :
    TurnKeeps model config vocab context outside s id budget ready
      { s with
        decisionReady := ready ++ [id]
        decisions := (s.decisions.erase id).insert id next
        fed := s.fed.insert id log
        turns := s.turns ++ [record] } := by
  refine h.settled (.inr ⟨rfl, ?_⟩) ⟨prefix_append _ _, List.Subset.refl _⟩
    (.inl ⟨record, hid, hgranted, prefix_rfl⟩) ?_
  · exact hprogress.trans_eq (congrArg total (log_insert rfl).symm)
  constructor
  case waitingDistinct => exact h.ticking.waitingDistinct
  case readyDistinct =>
    exact nodup_append.mpr ⟨h.distinct, nodup_singleton _, fun a ha b hb heq =>
      h.unready (mem_singleton.mp hb ▸ heq ▸ ha)⟩
  case accepted => rfl
  case next => rfl
  case others =>
    intro other hne
    refine h.same hne rfl (by simp [hne]) ?_ rfl ⟨[record], rfl, ?_⟩ fun hended => hended
    · rw [get_insert_of_ne _ _ hne, get_erase_of_ne _ hne]
    · exact forall_mem_singleton.mpr hid
  case faithful =>
    rw [log_insert (s := s) rfl]
    obtain ⟨parent, branches, waits⟩ := hworks
    exact (waits 0).toFeeding.faithful
  case standing =>
    refine .ready h.unqueued (by simp) ⟨next, get_insert_self _ _ _, ?_⟩
      (h.count hid rfl rfl hprogress)
    rw [log_insert (s := s) rfl]
    exact hworks
  case finished => exact fun entry hentry => .inl hentry
  case failed => exact fun entry hentry => .inl hentry
  case turns =>
    exact forall_mem_append.mpr ⟨fun _ => .inl, forall_mem_singleton.mpr (.inr hspent)⟩

theorem Turning.finishes {completion : DecisionCompletion φ} (hid : record.id = id)
    (hgranted : record.granted = budget) (hspent : Spent record)
    (hprogress : total (s.log id) < total log) (hcompleted : Completed model request log completion) :
    TurnKeeps model config vocab context outside s id budget ready
      { s with
        decisionReady := ready
        decisions := s.decisions.erase id
        fed := s.fed.insert id log
        turns := s.turns ++ [record]
        finished := s.finished ++ [(id, completion)] } := by
  have reported : (id, completion) ∈ s.finished ++ [(id, completion)] :=
    mem_append_right _ (mem_singleton_self _)
  refine h.settled (.inl rfl) ⟨prefix_append _ _, List.Subset.refl _⟩
    (.inl ⟨record, hid, hgranted, prefix_rfl⟩) ?_
  constructor
  case waitingDistinct => exact h.ticking.waitingDistinct
  case readyDistinct => exact h.distinct
  case accepted => rfl
  case next => rfl
  case others =>
    intro other hne
    refine h.same hne rfl .rfl (get_erase_of_ne _ hne) rfl ⟨[record], rfl, ?_⟩ ?_
    · exact forall_mem_singleton.mpr hid
    · rintro (⟨completion', finished⟩ | failed | cancelled)
      · exact .inl ⟨completion', mem_append_left _ finished⟩
      · exact .inr (.inl failed)
      · exact .inr (.inr cancelled)
  case faithful =>
    rw [log_insert (s := s) rfl]
    exact hcompleted.faithful
  case standing =>
    exact .ended h.unqueued h.unready (get_erase_self _ _) (.inl ⟨completion, reported⟩)
  case finished =>
    intro entry hentry
    rcases mem_append.mp hentry with hold | hnew
    · exact .inl hold
    · obtain rfl := mem_singleton.mp hnew
      refine .inr ⟨rfl, ?_, get_erase_self _ _, h.count hid rfl rfl hprogress⟩
      rw [log_insert (s := s) rfl]
      exact hcompleted
  case failed => exact fun entry hentry => .inl hentry
  case turns =>
    exact forall_mem_append.mpr ⟨fun _ => .inl, forall_mem_singleton.mpr (.inr hspent)⟩

theorem Turning.keeps (hbudget : 0 < budget) (hcapacity : 0 < config.decisionBranchCapacity)
    (hcalls : ∀ id call e, calls.turn id call = .error e → outside e) :
    Served (fun settled => TurnKeeps model config vocab context outside s id budget ready settled.1)
      (Fatal calls)
      (settleTurn calls id budget
        { s with decisionReady := ready, decisions := s.decisions.erase id }
        ((advanceDecision model config (calls.turn id)).run ⟨group, budget, s.log id⟩)) := by
  obtain ⟨parent, branches, waits⟩ := h.works
  have ensures : Ensures (advanceDecision model config (calls.turn id)) ⟨group, budget, s.log id⟩
      (Turned model config request ⟨group, budget, s.log id⟩) (Refused model request (calls.turn id)) :=
    advanceDecision_ensures (waits budget) (h.ticking.valid id request h.accepted) hbudget hcapacity
  rw [Ensures] at ensures
  rw [EStateM.run]
  generalize advanceDecision model config (calls.turn id) ⟨group, budget, s.log id⟩ = result
    at ensures ⊢
  rcases result with ⟨result, t⟩ | ⟨e | message, t⟩
  · obtain ⟨hspent, hprogress, hresult⟩ := ensures
    have spent : Spent ⟨id, budget, t.budget, total t.fed - total (s.log id)⟩ := by
      dsimp only [Spent] at hspent hprogress ⊢
      omega
    unfold settleTurn
    cases hsynchronize : calls.synchronize id with
    | error e => exact ⟨id, .inl hsynchronize⟩
    | ok _ =>
      cases result with
      | none =>
        obtain ⟨parent, branches, waiting⟩ := hresult
        exact h.goesOn rfl rfl spent hprogress ⟨parent, branches, waiting.withBudget⟩
      | some completion =>
        cases hrelease : calls.release id with
        | error e => exact ⟨id, .inr hrelease⟩
        | ok _ => exact h.finishes rfl rfl spent hprogress hresult
  · obtain ⟨hfaithful, hcause⟩ := ensures
    have cause : Cause model outside request e := by
      rcases hcause with ⟨call, hcall⟩ | hrows
      · exact .inl (hcalls id call e hcall)
      · exact .inr hrows
    unfold settleTurn
    cases hsynchronize : calls.synchronize id with
    | error e => exact ⟨id, .inl hsynchronize⟩
    | ok _ =>
      cases hrelease : calls.release id with
      | error e => exact ⟨id, .inr hrelease⟩
      | ok _ => exact h.fails hfaithful cause
  · exact ensures.elim

end

/-- A tick that grants turns: it gives one to the group that is ready first, and the groups
owe less behind it. -/
def Granted (s t : DecisionService φ) (budget : Nat) : Prop :=
  (∀ id, s.decisionReady.head? = some id → Took s t id budget) ∧
    (s.decisionReady ≠ [] → debt t < debt s)

theorem runTurns_keeps (budget : Nat) {count : Nat} (h : Ticking model config vocab context outside s)
    (hcount : count ≤ s.decisionReady.length) (hcapacity : 0 < config.decisionBranchCapacity)
    (hcalls : ∀ id call e, calls.turn id call = .error e → outside e) :
    Served (fun t => Ticking model config vocab context outside t ∧ Later s t ∧ debt t ≤ debt s ∧
        (0 < count → 0 < budget → Granted s t budget))
      (Fatal calls) (runTurns model config calls count budget s) := by
  induction count generalizing s budget with
  | zero => exact ⟨h, .refl s, Nat.le_refl _, fun hpos => absurd hpos (Nat.lt_irrefl _)⟩
  | succ count ih =>
    rw [runTurns]
    by_cases hbudget : budget = 0
    · rw [if_pos hbudget]
      exact ⟨h, .refl s, Nat.le_refl _, fun _ hpos => absurd hpos (by omega)⟩
    · rw [if_neg hbudget]
      cases hready : s.decisionReady with
      | nil =>
        rw [hready, length_nil] at hcount
        omega
      | cons id ready =>
        obtain ⟨request, group, turning⟩ := h.turning hready
        rw [hready, length_cons] at hcount
        dsimp only
        rw [turning.group_eq]
        refine (turning.keeps (Nat.pos_of_ne_zero hbudget) hcapacity hcalls).bind ?_
        rintro ⟨t, left⟩ ⟨ticking, hlength, later, took, hdebt⟩
        dsimp only at ticking hlength later took hdebt
        have rest := ih (s := t) left ticking (by omega)
        dsimp only at rest ⊢
        generalize runTurns model config calls count left t = result at rest ⊢
        rcases result with (_ | _) | u
        · exact rest
        · exact rest
        · obtain ⟨ticking, later', hdebt', -⟩ := rest
          refine ⟨ticking, later.trans later', by omega, fun _ _ => ⟨fun first hfirst => ?_, fun _ => by omega⟩⟩
          rw [hready] at hfirst
          obtain rfl := some.inj hfirst
          exact took.later later'

theorem Ticking.tick (h : Ticking model config vocab context outside s) (chatRows chatSequences : Nat)
    (hcapacity : 0 < config.decisionBranchCapacity)
    (hcalls : ∀ id call e, calls.turn id call = .error e → outside e) :
    Served (fun t => Ticking model config vocab context outside t ∧
        (chatRows < config.prefillTokenCapacity → chatSequences < config.prefillSequenceCapacity →
          Granted s t (config.prefillTokenCapacity - chatRows)))
      (Fatal calls) (runDecisions model config calls chatRows chatSequences s) := by
  have turns := runTurns_keeps (config.prefillTokenCapacity - chatRows) h
    (min_le_left s.decisionReady.length (config.prefillSequenceCapacity - chatSequences))
    hcapacity hcalls
  rw [runDecisions]
  generalize runTurns model config calls (min s.decisionReady.length
    (config.prefillSequenceCapacity - chatSequences)) (config.prefillTokenCapacity - chatRows) s =
    result at turns ⊢
  rcases result with (_ | _) | t
  · exact turns
  · exact turns
  · obtain ⟨ticking, -, -, granted⟩ := turns
    refine ⟨ticking, fun hrows hsequences => ?_⟩
    rcases Nat.eq_zero_or_pos s.decisionReady.length with hnone | hsome
    · have none := length_eq_zero_iff.mp hnone
      refine ⟨fun id hid => ?_, fun hne => absurd none hne⟩
      rw [none] at hid
      cases hid
    · exact granted (by omega) (by omega)

end

/-! ## Runs of the service -/

section
variable {model : DecisionModel φ} {config : SchedulerConfig} {vocab context : Nat}
  {outside : CudaError → Prop} {s t : DecisionService φ} {events : List ServiceEvent}

/-- Where calls for a group fail, they fail with errors from outside. -/
def Allowed (outside : CudaError → Prop) (_ : DecisionService φ) : ServiceEvent → Prop
  | .tick calls _ _ => ∀ id call e, calls.turn id call = .error e → outside e
  | .admission outcome _ => ∀ e, outcome = .error e → outside e
  | _ => True

theorem Served.of_toOption {α : Type} {P : α → Prop} {E : CudaError → Prop}
    {x : Except (Fault CudaError) α} (h : Served P E x) {a : α} (hx : x.toOption = some a) : P a := by
  cases x with
  | error _ => cases hx
  | ok b =>
    cases hx
    exact h

section
variable (h : Ticking model config vocab context outside s) {event : ServiceEvent}
include h

theorem Ticking.step (hcapacity : 0 < config.decisionBranchCapacity)
    (hallowed : Allowed outside s event) (hstep : serviceStep model config vocab context s event = some t) :
    Ticking model config vocab context outside t := by
  rw [serviceStep] at hstep
  cases event with
  | chat =>
    cases hstep
    exact h.chat
  | queue request =>
    rw [serve] at hstep
    cases hqueued : queueDecision model vocab context s request with
    | error e =>
      rw [hqueued] at hstep
      cases hstep
      exact h
    | ok u =>
      rw [hqueued] at hstep
      cases hstep
      exact h.queue hqueued
  | admission outcome synchronized => exact (h.admission hallowed).of_toOption hstep
  | tick calls chatRows chatSequences => exact ((h.tick chatRows chatSequences hcapacity hallowed).of_toOption hstep).1
  | cancel id =>
    cases hstep
    exact h.cancel id

/-- A branch whose own sequence was fed the prefix, and the suffix as far as it was fed. -/
def OwnSequence (request : DecisionRequest) (log : List (Target × List Nat)) (b : Branch) : Prop :=
  ∃ q, request.branches[b.index]? = some q ∧
    b.sequence.chunks.flatten = request.prefixTokens ++ fedTo (.branch b.index) log

/-- What becomes of a request that was queued: it was fed the start of its tokens in order,
and it waits, takes fewer turns than it has tokens, or was reported. -/
structure Handled (model : DecisionModel φ) (config : SchedulerConfig) (outside : CudaError → Prop)
    (s : DecisionService φ) (id : Nat) (request : DecisionRequest) : Prop where
  faithful : Faithful request (s.log id)
  standing : id ∈ s.waiting ∧ s.log id = [] ∨
    id ∈ s.decisionReady ∧ (turnsOf s id).length < logicalInputTokens request ∨
    (∃ completion, (id, completion) ∈ s.finished) ∨ (∃ e, (id, e) ∈ s.failed) ∨ id ∈ s.cancelled
  finished : ∀ completion, (id, completion) ∈ s.finished →
    Completed model request (s.log id) completion ∧
      (turnsOf s id).length ≤ logicalInputTokens request
  failed : ∀ e, (id, e) ∈ s.failed → Cause model outside request e
  live : ∀ group e, s.decisions.get id = some group → group.execution = some e →
    e.branches.length ≤ config.decisionBranchCapacity ∧
      ∀ b ∈ e.branches, OwnSequence request (s.log id) b

theorem Ticking.handled {id : Nat}
    {request : DecisionRequest} (hrequest : s.accepted.get id = some request) :
    Handled model config outside s id request where
  faithful := h.faithful id request hrequest
  standing := by
    cases h.standing id request hrequest with
    | waiting queued unready group log => exact .inl ⟨queued, log⟩
    | ready unqueued ready works turns =>
      obtain ⟨group, -, parent, branches, waits⟩ := works
      exact .inr (.inl ⟨ready,
        Nat.lt_of_le_of_lt turns ((waits 0).total_lt (h.valid id request hrequest))⟩)
    | ended unqueued unready gone ended => exact .inr (.inr ended)
  finished := by
    intro completion hentry
    obtain ⟨request', hrequest', finished⟩ := h.finished _ hentry
    obtain rfl : request = request' := some.inj (hrequest.symm.trans hrequest')
    exact ⟨finished.completed, finished.turns.trans finished.completed.faithful.total_le⟩
  failed := by
    intro e hentry
    obtain ⟨request', hrequest', cause⟩ := h.failed _ hentry
    obtain rfl : request = request' := some.inj (hrequest.symm.trans hrequest')
    exact cause
  live := by
    intro group e hgroup hexecution
    cases h.standing id request hrequest with
    | waiting queued unready group' log =>
      obtain rfl := some.inj (hgroup.symm.trans group')
      cases hexecution
    | ready unqueued ready works turns =>
      obtain ⟨group', hgroup', parent, branches, waits⟩ := works
      obtain rfl := some.inj (hgroup.symm.trans hgroup')
      have waiting := waits 0
      obtain rfl := some.inj (hexecution.symm.trans waiting.execution)
      refine ⟨waiting.count, fun b hb => ?_⟩
      obtain ⟨-, q, hq, -, hfed, hflatten, -⟩ := waiting.live b hb
      refine ⟨q, hq, ?_⟩
      rw [hfed]
      exact hflatten
    | ended unqueued unready gone ended =>
      rw [hgroup] at gone
      cases gone

/-- Ticks that leave rows and sequences to the decisions. -/
def Grants (config : SchedulerConfig) (outside : CudaError → Prop) (s : DecisionService φ) :
    ServiceEvent → Prop
  | .tick calls chatRows chatSequences => Allowed outside s (.tick calls chatRows chatSequences) ∧
      chatRows < config.prefillTokenCapacity ∧ chatSequences < config.prefillSequenceCapacity
  | _ => False

omit h in
theorem step_idle (hgrants : Grants config outside s event)
    (hidle : s.decisionReady = []) (hstep : serviceStep model config vocab context s event = some t) :
    t.decisionReady = [] := by
  cases event with
  | tick calls chatRows chatSequences =>
    rw [serviceStep, serve, runDecisions, hidle, length_nil, Nat.zero_min, runTurns] at hstep
    cases hstep
    exact hidle
  | chat => exact hgrants.elim
  | queue => exact hgrants.elim
  | admission => exact hgrants.elim
  | cancel => exact hgrants.elim

omit h in
theorem Grants.allowed (h : Grants config outside s event) : Allowed outside s event := by
  cases event with
  | tick calls chatRows chatSequences => exact h.1
  | chat => exact h.elim
  | queue => exact h.elim
  | admission => exact h.elim
  | cancel => exact h.elim

theorem Ticking.idle (hdebt : debt s = 0) : s.decisionReady = [] := by
  cases hready : s.decisionReady with
  | nil => rfl
  | cons id ready =>
    obtain ⟨request, group, turning⟩ := h.turning hready
    have owes := turning.owes
    have sum := turning.debt
    omega

theorem Ticking.drains (hcapacity : 0 < config.decisionBranchCapacity) {ticks : List ServiceEvent}
    (path : Run.Path (serviceStep model config vocab context) (Grants config outside) s ticks t) :
    t.decisionReady = [] ∨ debt t + ticks.length ≤ debt s := by
  induction path with
  | nil s => exact .inr (Nat.le_refl _)
  | cons allowed taken rest ih =>
    rename_i s t u event ticks
    by_cases hidle : s.decisionReady = []
    · exact .inl (rest.invariant (fun h hgrants hstep => step_idle hgrants h hstep)
        (step_idle allowed hidle taken))
    · have ticking := h.step hcapacity allowed.allowed taken
      have pays : debt t < debt s := by
        cases event with
        | tick calls chatRows chatSequences =>
          obtain ⟨hcalls, hrows, hsequences⟩ := allowed
          have granted := ((h.tick chatRows chatSequences hcapacity hcalls).of_toOption taken).2 hrows hsequences
          exact granted.2 hidle
        | chat => exact allowed.elim
        | queue => exact allowed.elim
        | admission => exact allowed.elim
        | cancel => exact allowed.elim
      rcases ih ticking with hnone | hless
      · exact .inl hnone
      · rw [length_cons]
        exact .inr (by omega)

end

/-- Whatever budgets the chat prefill leaves, groups are fed their prefix and then their
suffixes once, every turn spends its grant on a token at least, and a group is complete
behind as many turns as it has tokens at most. Only calls from outside, and rows without an
answer, end a group or the service before that. -/
theorem decisions_complete (hcapacity : 0 < config.decisionBranchCapacity)
    (path : Run.Path (serviceStep model config vocab context) (Allowed outside) .empty events s) :
    (∀ id request, s.accepted.get id = some request →
      Handled model config outside s id request) ∧
    (∀ record ∈ s.turns, record.fed + record.left = record.granted ∧ 0 < record.fed) ∧
    (∀ calls chatRows chatSequences, Allowed outside s (.tick calls chatRows chatSequences) →
      Served (fun t => chatRows < config.prefillTokenCapacity →
          chatSequences < config.prefillSequenceCapacity →
          Granted s t (config.prefillTokenCapacity - chatRows))
        (Fatal calls) (serve model config vocab context s (.tick calls chatRows chatSequences))) ∧
    ∀ ticks t, Run.Path (serviceStep model config vocab context) (Grants config outside) s ticks t →
      debt s ≤ ticks.length → t.decisionReady = [] := by
  have ticking : Ticking model config vocab context outside s :=
    path.invariant (fun h hallowed hstep => h.step hcapacity hallowed hstep) empty_ticking
  refine ⟨fun id request hrequest => ticking.handled hrequest, ticking.turns, ?_, ?_⟩
  · intro calls chatRows chatSequences hallowed
    have tick := ticking.tick chatRows chatSequences hcapacity hallowed
    rw [serve]
    generalize runDecisions model config calls chatRows chatSequences s = result at tick ⊢
    rcases result with (_ | _) | t
    · exact tick
    · exact tick
    · exact tick.2
  · intro ticks t rest hdebt
    rcases ticking.drains hcapacity rest with hidle | hless
    · exact hidle
    · have drained : Ticking model config vocab context outside t :=
        rest.invariant (fun h hgrants hstep => h.step hcapacity hgrants.allowed hstep) ticking
      exact drained.idle (by omega)

end

/-! ## A run -/

/-- Logits that add up what a sequence was fed. -/
def sumModel : DecisionModel Nat where
  labels := [7, 8]
  head := fun chunks label => chunks.flatten.sum + label
  float := ⟨0, fun _ => true, fun _ => true, fun xs _ => some xs, fun _ => 0, fun _ => 0, fun _ => 0⟩
  one := 1
  question := fun _ => .noul

def yesOrNo (id : String) (suffix : List Nat) : DecisionBranch :=
  ⟨id, suffix, [7, 8], ["true", "false"]⟩

def twoQuestions : DecisionRequest :=
  ⟨decisionPromptFormat, [1, 2, 3], [7, 8], [yesOrNo "first" [4, 5], yesOrNo "second" [6]]⟩

def narrowConfig : SchedulerConfig := ⟨8, 1, 8, 2, 2, 64, 0⟩

def quietCalls : TickCalls := ⟨fun _ _ => .ok (), fun _ => .ok (), fun _ => .ok ()⟩

/-- Four ticks with two tokens each. -/
def fourTicks : List ServiceEvent :=
  [.queue twoQuestions, .admission (.ok ()) (.ok ()), .tick quietCalls 0 0, .tick quietCalls 0 0,
    .tick quietCalls 0 0, .tick quietCalls 0 0]

/-- Both questions are answered behind four ticks, one branch at a time. -/
theorem two_questions_complete :
    ∃ s, Run.Path (serviceStep sumModel narrowConfig 16 64) (Allowed fun _ => False) .empty fourTicks s ∧
      s.finished.length = 1 ∧ Handled sumModel narrowConfig (fun _ => False) s 1 twoQuestions := by
  have runs : (Run.run (serviceStep sumModel narrowConfig 16 64) .empty fourTicks).map
      (fun s => (s.finished.length, s.accepted.get 1)) = some (1, some twoQuestions) := by
    decide +kernel
  obtain ⟨s, hs, hcounts⟩ := map_eq_some_iff.mp runs
  obtain ⟨hfinished, haccepted⟩ := Prod.mk.inj hcounts
  have path := Run.Path.of_run_guarded hs fun event hevent s =>
    show Allowed (fun _ => False) s event by
      simp only [fourTicks, mem_cons, not_mem_nil, or_false] at hevent
      rcases hevent with rfl | rfl | rfl | rfl | rfl | rfl
      · trivial
      · exact nofun
      all_goals exact fun _ _ _ hcall => nomatch hcall
  exact ⟨s, path, hfinished, (decisions_complete (by decide) path).1 1 twoQuestions haccepted⟩

end Eider.Guarantees.NemotronTicks
