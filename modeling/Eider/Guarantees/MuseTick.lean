import Mathlib.Algebra.Order.BigOperators.Group.Finset
import Eider.Guarantees.MusePhases
import Eider.Lib.Run

/-!
Ticks and runs of the Muse Glimmer service. In every run whose ticks can bear their failures
each request stays live. Where no call fails, each tick succeeds, and a DFlash request emits
exactly its greedy stream.
-/
namespace Eider.Guarantees.MuseTick
open Lib Lib.ByteReader Source Source.MuseGlimmer List BTreeMap Ensures
open Guarantees.MuseSequence Guarantees.MuseRequests Guarantees.MuseStream
open Guarantees.MusePhases
open Source.Qwen36 (SchedulerConfig attempt)

variable {τ ω : Type}

variable {generation : Generation τ}

theorem checkRequest_ok {config : SchedulerConfig} {prompt : List τ}
    (h : checkRequest config prompt generation = .ok ()) : prompt ≠ [] := by
  obtain ⟨_, hprompt, -⟩ := bind_ok h
  exact rejectIf_eq_ok_iff.mp hprompt

/-- Each call that fails is one that the requests can bear. -/
def Bears (s : ChatService τ ω) : Action τ ω → Prop
  | .tick input => Restores input s ∧ Bearable input s
  | _ => True

/-- A tick in which no call fails. -/
def Undisturbed (s : ChatService τ ω) : Action τ ω → Prop
  | .tick input => input.fault = none ∧ Restores input s
  | _ => True

theorem Undisturbed.bears {s : ChatService τ ω} {action : Action τ ω} (h : Undisturbed s action) :
    Bears s action := by
  cases action with
  | tick input =>
    refine ⟨h.2, fun id site hfault => ?_⟩
    rw [h.1] at hfault
    cases hfault
  | addRequest => trivial
  | cancelRequest => trivial

/-! ## Ticks -/

/-- A request whose prompt is still to be fed. -/
def Feeds (r : ActiveRequest τ ω) : Prop :=
  r.sequence.isSome = true ∧ r.generation.maxNewTokens ≠ 0 ∧ r.promptPosition < r.prompt.length

/-- What a tick does for a request: no token is taken back, it emits one if it decodes, and at the
head of the queue it is admitted where there is room and the cache admits it. -/
structure Served (input : TickInput τ) (s t : ChatService τ ω) (id : Nat)
    (r r' : ActiveRequest τ ω) : Prop where
  later : Later r r'
  kept : t.requests.get id = some r' ∨
    t.requests.get id = none ∧ ∃ reason, (r', reason) ∈ t.tick.finished
  decodes : id ∈ decodeIds s → r.history.length < r'.history.length
  admits : s.waiting.head? = some id → s.activeSequences < s.config.maxActiveSequences →
    input.admission id ≠ none → r'.sequence.isSome = true

/-- The first request whose prompt is still to be fed gets a token of it. -/
def Fed (s : ChatService τ ω) (id : Nat) (r r' : ActiveRequest τ ω) : Prop :=
  Feeds r → (∀ k q, s.requests.get k = some q → Feeds q → id ≤ k) →
    r.promptPosition < r'.promptPosition

/-- Every capacity of an accepted configuration is positive. -/
structure Roomy (config : SchedulerConfig) : Prop where
  decode : 0 < config.decodeCapacity
  prefillSequences : 0 < config.prefillSequenceCapacity
  prefillTokens : 0 < config.prefillTokenCapacity
  active : 0 < config.maxActiveSequences

theorem roomy_of_validate {config : SchedulerConfig} (h : config.validate = .ok ()) :
    Roomy config := by
  have hnot := rejectIf_ok h
  constructor <;> omega

theorem head?_of_least {ids : List Nat} {id : Nat} (hsorted : ids.Pairwise (· < ·)) (hmem : id ∈ ids)
    (hleast : ∀ k ∈ ids, id ≤ k) : ids.head? = some id := by
  cases ids with
  | nil => cases hmem
  | cons k rest =>
    obtain rfl | hmem := mem_cons.mp hmem
    · rfl
    · have hlt := (pairwise_cons.mp hsorted).1 id hmem
      have hle := hleast k mem_cons_self
      omega

variable [DecidableEq τ]

section
variable {codec : Codec τ ω} {argmax : List τ → τ} {calm faulty : Prop} {input : TickInput τ}
variable {ended : List (Nat × ChatFinishReason)} {s : ChatService τ ω} {id : Nat}

/-- A selection begins with the lowest id of the requests it is made from. -/
theorem selected_head {r : ActiveRequest τ ω} (keep : ActiveRequest τ ω → Bool) {bound : Nat}
    (h : Held codec argmax calm faulty ended s) (hget : s.requests.get id = some r)
    (hkeep : keep r = true) (hbound : 0 < bound)
    (hleast : ∀ k q, s.requests.get k = some q → keep q = true → id ≤ k) :
    (((s.requests.values.filter keep).take bound).map ActiveRequest.id).head? = some id := by
  have hsorted : ((s.requests.values.filter keep).map ActiveRequest.id).Pairwise (· < ·) := by
    have hall : (s.requests.values.map ActiveRequest.id).Pairwise (· < ·) := h.ids ▸ s.requests.sorted
    exact hall.sublist (filter_sublist.map _)
  have hmem : id ∈ (s.requests.values.filter keep).map ActiveRequest.id :=
    mem_map.mpr ⟨r, mem_filter.mpr ⟨mem_values_iff.mpr ⟨id, hget⟩, hkeep⟩, (h.keyed id r hget).1⟩
  have hhead := head?_of_least hsorted hmem fun k hk => by
    obtain ⟨q, hq, rfl⟩ := mem_map.mp hk
    obtain ⟨hq, hqkeep⟩ := mem_filter.mp hq
    obtain ⟨j, hj⟩ := mem_values_iff.mp hq
    obtain ⟨rfl, -⟩ := h.keyed j q hj
    exact hleast _ q hj hqkeep
  obtain ⟨bound, rfl⟩ := Nat.exists_eq_succ_of_ne_zero hbound.ne'
  cases hfiltered : s.requests.values.filter keep with
  | nil =>
    rw [hfiltered] at hhead
    cases hhead
  | cons q rest =>
    rw [hfiltered] at hhead
    exact hhead

/-- The request that is to be fed first stays so up to the prefill. -/
theorem prefillIds_head {t u : ChatService τ ω} {r : ActiveRequest τ ω}
    (h : Held codec argmax calm faulty ended u) (hlined : Lined [] s) (hadmitting : Admitting s t)
    (hothers : ∀ k, k ∉ decodeIds t → u.requests.get k = t.requests.get k)
    (hends : ∀ k ∈ decodeIds t, ∀ q, t.requests.get k = some q ∨ u.requests.get k = some q →
      ¬ Feeds q)
    (hconfig : u.config = s.config) (hget : s.requests.get id = some r) (hfeeds : Feeds r)
    (hleast : ∀ k q, s.requests.get k = some q → Feeds q → id ≤ k) :
    u.requests.get id = some r ∧ (prefillIds u).head? = some id := by
  have hkeep : ∀ q : ActiveRequest τ ω, (q.sequence.isSome && q.generation.maxNewTokens ≠ 0 &&
      q.promptPosition < q.prompt.length) = true ↔ Feeds q := fun q => by
    simp [Feeds, and_assoc]
  have hbefore : ∀ {k q}, u.requests.get k = some q → Feeds q → t.requests.get k = some q := by
    intro k q hq hqfeeds
    by_cases hk : k ∈ decodeIds t
    · exact absurd hqfeeds (hends k hk q (.inr hq))
    · rwa [hothers k hk] at hq
  have hadmitted : t.requests.get id = some r := by
    obtain ⟨r', hr', -, rfl | ⟨hnone, -⟩⟩ := hadmitting.requests id r hget
    · exact hr'
    · have hsome := hfeeds.1
      rw [hnone] at hsome
      cases hsome
  have hstays : u.requests.get id = some r := by
    by_cases hid : id ∈ decodeIds t
    · exact absurd hfeeds (hends id hid r (.inl hadmitted))
    · rw [hothers id hid, hadmitted]
  refine ⟨hstays, selected_head _ h hstays ((hkeep r).mpr hfeeds)
    (hconfig ▸ (roomy_of_validate hlined.valid).prefillSequences) fun k q hq hqkeep => ?_⟩
  have hqfeeds := (hkeep q).mp hqkeep
  have hq' := hbefore hq hqfeeds
  cases hs : s.requests.get k with
  | none =>
    rw [hadmitting.absent k hs] at hq'
    cases hq'
  | some p =>
    obtain ⟨p', hp', -, hsame⟩ := hadmitting.requests k p hs
    rw [hq'] at hp'
    cases hp'
    obtain rfl | ⟨hnone, -⟩ := hsame
    · exact hleast k _ hs hqfeeds
    · -- it was in the queue, behind all admitted requests
      exact (hlined.ahead id r hget hfeeds.1 k (hlined.queued k p hs hnone)).le

/-- A tick keeps every request live and takes no token back. -/
theorem tick_ensures (h : Held codec argmax calm faulty [] s) (hrestores : Restores input s)
    (hbearable : Bearable input s) :
    Ensures (tick codec argmax input) s
      (fun _ t => Held codec argmax calm (Faulty input) [] t ∧
        (∀ id, s.requests.get id = none → t.requests.get id = none) ∧
        (∀ id r, t.requests.get id = some r → r.sequence.isSome = true →
          r.generation.maxNewTokens ≠ 0) ∧
        ∀ id r, s.requests.get id = some r → ∃ r', Served input s t id r r' ∧ (calm → Fed s id r r'))
      (fun e t => (Reported e ∧ input.fault ≠ none) ∧ Held codec argmax False (Faulty input) [] t ∧
        Carried input { s with tick := .empty } t) := by
  have hstart : Held codec argmax calm (Faulty input) [] { s with tick := .empty } :=
    (h.settle (.inr rfl) fun hcalm => ⟨hcalm, rfl⟩).report (fun _ => .empty) (by simp [Tick.empty])
      (by simp [Tick.empty])
  refine modify_bind ?_
  refine Ensures.bind (get_bind ((admitLoop_ensures _ hstart hrestores).mono (fun _ _ ht => ht)
    fun _ _ he => ⟨he.1, he.2.1, he.2.2.onward.carried⟩)) fun _ t ht => ?_
  obtain ⟨hadmitted, hadmitting, hhead⟩ := ht
  have hsame := hadmitting.decodeIds
  have hids : ∀ id ∈ decodeIds t, ∃ r, t.requests.get id = some r ∧
      Live codec argmax (layersOf t) r ∧ decodable r = true ∧
      (Faulty input → r.dflashEnabled = false) ∧ ∀ reason, (id, reason) ∉ ([] : List (Nat × ChatFinishReason)) := by
    intro id hid
    obtain ⟨r, hget, hdecodable⟩ := hadmitted.selected hid
    refine ⟨r, hget, (hadmitted.live id r hget).resolve_right (by simp), hdecodable, ?_, by simp⟩
    obtain ⟨q, hq, -⟩ := h.selected (hsame ▸ hid)
    obtain ⟨r', hr', -, hunchanged⟩ := hadmitting.requests id q hq
    rw [hget] at hr'
    cases hr'
    obtain rfl | ⟨-, hno⟩ := hunchanged
    · exact fun hfaulty => hbearable.plain hfaulty hq hdecodable
    · rw [hdecodable] at hno
      cases hno
  refine get_bind (Ensures.bind ((decodeLoop_ensures (fun id => hbearable.harmless id) _
    (hadmitted.selected_nodup _) hadmitted hids).mono (fun _ _ hu => hu)
    fun _ _ he => ⟨⟨he.1.1, he.1.2.fault⟩, he.2.1, hadmitting.onward.carry he.2.2⟩)
    fun terminal u hu => ?_)
  obtain ⟨hdecoded, hdecodes, hothers, ⟨hconfig, -⟩, -, hlonger⟩ := hu
  have htoPrefill := hadmitting.onward.trans hdecodes
  rw [append_nil] at hdecoded
  refine get_bind (Ensures.bind ((prefillLoop_ensures (fun id => hbearable.harmless id) _ _
    (hdecoded.selected_nodup _) hdecoded fun id hid => ?_).mono (fun _ _ hv => hv)
    fun _ _ he => ⟨⟨he.1.1, he.1.2.fault⟩, he.2.1, htoPrefill.carry he.2.2⟩) fun _ v hv => ?_)
  · obtain ⟨r, hget, hkeep⟩ := hdecoded.selected hid
    simp only [Bool.and_eq_true, decide_eq_true_eq, and_assoc] at hkeep
    exact ⟨r, hget, hkeep.1, hkeep.2.2, hkeep.2.1⟩
  obtain ⟨hprefilled, hprefills, hfirst⟩ := hv
  refine get_bind ((finishLoop_ensures _ hprefilled.terminal).mono (fun _ w hw => ?_)
    fun _ _ he => ⟨⟨he.1.1, he.1.2.fault⟩, he.2.1, (htoPrefill.trans hprefills).carry he.2.2⟩)
  obtain ⟨hfinished, hfinishes, hleft⟩ := hw
  have honward := hprefills.trans hfinishes
  refine ⟨hfinished, fun id hid => honward.absent id (htoPrefill.absent id hid),
    fun id r hr hsome hempty => ?_, fun id r hr => ?_⟩
  · obtain ⟨hr, hnot⟩ := hleft id r hr
    exact (mem_terminalRequests
      (.inr ⟨_, (mem_emptyRequests hprefilled).mpr ⟨rfl, r, hr, hsome, hempty⟩⟩)).elim hnot
  obtain ⟨r₁, hr₁, hlater₁, -⟩ := hadmitting.requests id r hr
  have hadmits : s.waiting.head? = some id → s.activeSequences < s.config.maxActiveSequences →
      input.admission id ≠ none → r₁.sequence.isSome = true := by
    intro hwaiting hroom hgranted
    have hturns : 0 < s.waiting.length := by
      cases hqueue : s.waiting with
      | nil => simp [hqueue] at hwaiting
      | cons => exact Nat.succ_pos _
    obtain ⟨q, hq, hsome⟩ := hhead id hturns hwaiting hroom hgranted
    rw [hr₁] at hq
    cases hq
    exact hsome
  have hserved {r'} (hlater : Later r₁ r') hkept
      (hmore : id ∈ decodeIds s → r₁.history.length < r'.history.length) : Served input s w id r r' :=
    ⟨hlater₁.trans hlater, hkept, fun hid => hlater₁.history.length_le.trans_lt (hmore hid),
      fun hwaiting hroom hgranted => hlater.admitted (hadmits hwaiting hroom hgranted)⟩
  by_cases hfeeds : calm ∧ Feeds r ∧ ∀ k q, s.requests.get k = some q → Feeds q → id ≤ k
  · obtain ⟨hcalm, hfeeds, hleast⟩ := hfeeds
    have hlined := hstart.lined hcalm
    have hbudget : 0 < u.config.prefillTokenCapacity := by
      rw [hconfig, hadmitting.config]
      exact (roomy_of_validate hlined.valid).prefillTokens
    -- a request that decodes stands behind its prompt, before and after
    have hends : ∀ k ∈ decodeIds t, ∀ q, t.requests.get k = some q ∨ u.requests.get k = some q →
        ¬ Feeds q := by
      rintro k hk q hq ⟨-, -, hposition⟩
      obtain ⟨p, hp, -, hdecodable, -⟩ := hids k hk
      obtain ⟨hsome, hend, -⟩ := decodable_iff.mp hdecodable
      obtain hq | hq := hq
      · rw [hp] at hq
        cases hq
        omega
      · obtain ⟨p', hp', hlater, -⟩ := hlonger k hk p hp
        rw [hq] at hp'
        cases hp'
        have hfurther := hlater.position hsome
        rw [hlater.prompt] at hposition
        omega
    obtain ⟨hstays, hselected⟩ := prefillIds_head hdecoded hlined hadmitting hothers hends
      (hconfig.trans hadmitting.config) hr hfeeds hleast
    obtain ⟨r₂, hlater₂, hmoved, hr₂⟩ := hfirst id r hselected hbudget hstays
    obtain ⟨r₃, hlater₃, hr₃⟩ : ∃ r₃, Later r₂ r₃ ∧ (w.requests.get id = some r₃ ∨
        w.requests.get id = none ∧ ∃ reason, (r₃, reason) ∈ w.tick.finished) := by
      obtain hr₂ | ⟨hnone, reason, hr₂⟩ := hr₂
      · exact hfinishes.requests id r₂ hr₂
      · exact ⟨r₂, .refl r₂, .inr ⟨hfinishes.absent id hnone, reason, hfinishes.finished hr₂⟩⟩
    have hlater := hlater₂.trans hlater₃
    have hfurther := hlater₃.position (hlater₂.admitted hfeeds.1)
    refine ⟨r₃, ⟨hlater, hr₃, fun hid => ?_, fun _ _ _ => hlater.admitted hfeeds.1⟩,
      fun _ _ _ => by omega⟩
    obtain ⟨q, hq, hdecodable⟩ := h.selected hid
    rw [hr] at hq
    cases hq
    have hend := (decodable_iff.mp hdecodable).2.1
    have hposition := hfeeds.2.2
    omega
  have hnot : calm → ∀ r', Fed s id r r' := fun hcalm r' hr hleast =>
    absurd ⟨hcalm, hr, hleast⟩ hfeeds
  by_cases hid : id ∈ decodeIds s
  · have hin : id ∈ decodeIds t := by rwa [hsame]
    obtain ⟨r₂, hr₂, hlater₂, hmore⟩ := hlonger id hin r₁ hr₁
    obtain ⟨r₃, hlater₃, hr₃⟩ := honward.requests id r₂ hr₂
    exact ⟨r₃, hserved (hlater₂.trans hlater₃) hr₃ fun _ =>
      hmore.trans_le hlater₃.history.length_le, fun hcalm => hnot hcalm r₃⟩
  · obtain ⟨r₃, hlater₃, hr₃⟩ := (hdecodes.trans honward).requests id r₁ hr₁
    exact ⟨r₃, hserved hlater₃ hr₃ fun hin => absurd hin hid, fun hcalm => hnot hcalm r₃⟩

end

/-! ## Requests from outside -/

section
variable {codec : Codec τ ω} {argmax : List τ → τ} {calm faulty : Prop} {s t : ChatService τ ω}

theorem attempt_ensures {σ α : Type} {result : Except CudaError α} {s : σ} {P : α → σ → Prop}
    {E : Fault CudaError → σ → Prop} (hreturn : ∀ a, result = .ok a → P a s)
    (hfail : ∀ e, result = .error e → E (.failed e) s) :
    Ensures (attempt result : EStateM (Fault CudaError) σ α) s P E := by
  cases result with
  | ok a => exact hreturn a rfl
  | error e => exact hfail e rfl

theorem newRequest_live {prompt : List τ} {output : ω} (hprompt : prompt ≠ []) :
    Live codec argmax (layersOf s) (newRequest s prompt generation output) where
  steady := {
    nonempty := hprompt
    position := Nat.zero_le _
    history := ⟨[], (append_nil _).symm, rfl⟩
    early := fun _ => rfl
    budget := Nat.zero_le _
    drafting := fun hdrafting => by
      simp only [newRequest, Bool.and_eq_true, decide_eq_true_eq] at hdrafting
      refine ⟨?_, hdrafting.1.2⟩
      rw [layersOf, hdrafting.1.1]
      decide
    returned := fun _ => rfl
    standing := fun _ hs => by cases hs }
  streaming _ := ⟨[], (append_nil _).symm, by
    simp [Greedy.continued, restOfStream, greedyStream, newRequest]⟩
  unadmitted _ := ⟨rfl, rfl, rfl⟩

theorem addRequest_ensures {rendered : Except CudaError (List τ)} {output : Option ω}
    (h : Held codec argmax calm faulty [] s) :
    Ensures (addRequest rendered generation output) s
      (fun id t => Held codec argmax calm faulty [] t ∧ ∃ prompt opened, rendered = .ok prompt ∧
        output = some opened ∧ t.requests = s.requests.insert id (newRequest s prompt generation opened))
      (fun e t => Reported e ∧ Held codec argmax calm faulty [] t ∧ t.requests = s.requests) := by
  have hreject : ∀ {condition : Prop} [Decidable condition] {error : CudaError},
      Ensures (attempt (rejectIf condition error) : Serving τ ω Unit) s (fun _ t => t = s)
        (fun e t => Reported e ∧ Held codec argmax calm faulty [] t ∧ t.requests = s.requests) :=
    attempt_ensures (fun _ _ => rfl) fun e _ => ⟨⟨e, rfl⟩, h, rfl⟩
  refine hreject.bind fun _ t ht => ?_
  subst ht
  refine Ensures.bind (P := fun prompt u => u = t ∧ rendered = .ok prompt)
    (attempt_ensures (fun _ ha => ⟨rfl, ha⟩) fun e _ => ⟨⟨e, rfl⟩, h, rfl⟩) fun prompt u hu => ?_
  obtain ⟨rfl, hrendered⟩ := hu
  refine get_bind (Ensures.bind (P := fun _ t => t = u ∧ prompt ≠ []) (attempt_ensures
    (fun _ ha => ⟨rfl, checkRequest_ok ha⟩) fun e _ => ⟨⟨e, rfl⟩, h, rfl⟩) fun _ t ht => ?_)
  obtain ⟨rfl, hprompt⟩ := ht
  refine hreject.bind fun _ u hu => ?_
  subst hu
  refine set_bind ?_
  cases output with
  | none =>
    refine ⟨⟨_, rfl⟩, { h with
      keyed := fun id r hr => ?_
      lined := fun hcalm => { h.lined hcalm with } }, rfl⟩
    obtain ⟨hid, hlt⟩ := h.keyed id r hr
    exact ⟨hid, Nat.lt_succ_of_lt hlt⟩
  | some opened =>
    have hfresh : ∀ id r, u.requests.get id = some r → id ≠ u.nextId := fun id r hr heq => by
      have hlt := (h.keyed id r hr).2
      omega
    refine modify_bind (Ensures.pure ?_)
    have hbehind : ∀ id ∈ u.waiting, id < u.nextId := fun id hid => by
      obtain ⟨r, hr, -⟩ := h.waiting id hid
      exact (h.keyed id r hr).2
    refine ⟨⟨fun id r hr => ?_, fun id hid => ?_, ?_, fun id r hr => ?_, by simp, h.drafted,
      h.finished, fun hcalm => (h.lined hcalm).queue rfl hbehind fun id r hr => (h.keyed id r hr).2⟩,
      prompt, opened, hrendered, rfl, rfl⟩
    · rw [get_insert] at hr
      split at hr
      · rename_i hid
        cases hr
        exact ⟨hid, hid ▸ Nat.lt_succ_self _⟩
      · obtain ⟨hid, hlt⟩ := h.keyed id r hr
        exact ⟨hid, Nat.lt_succ_of_lt hlt⟩
    · obtain hid | hid := mem_append.mp hid
      · obtain ⟨r, hr, hnone⟩ := h.waiting id hid
        exact ⟨r, (get_insert_of_ne _ _ (hfresh id r hr)).trans hr, hnone⟩
      · rw [mem_singleton] at hid
        subst hid
        exact ⟨_, get_insert_self _ _ _, rfl⟩
    · refine nodup_append.mpr ⟨h.once, nodup_singleton _, fun id hid k hk => ?_⟩
      rw [mem_singleton] at hk
      subst hk
      obtain ⟨r, hr, -⟩ := h.waiting id hid
      exact hfresh id r hr
    · rw [get_insert] at hr
      split at hr
      · cases hr
        exact .inl (newRequest_live (s := u) hprompt)
      · exact h.live id r hr

theorem cancelRequest_ensures {id : Nat} {E : Fault CudaError → ChatService τ ω → Prop}
    (h : Held codec argmax calm faulty [] s) :
    Ensures (cancelRequest id) s (fun _ t => Held codec argmax calm faulty [] t) E := by
  refine Ensures.modify ?_
  split
  · refine ⟨fun k r hr => ?_, fun k hk => ?_, h.once.filter _, fun k r hr => ?_, by simp, h.drafted,
      h.finished, fun hcalm => (h.lined hcalm).erase filter_sublist
        (fun k hk hne => mem_filter.mpr ⟨hk, decide_eq_true hne⟩) fun _ _ hended _ => hended⟩
    · rw [get_erase] at hr
      split at hr
      · cases hr
      · exact h.keyed k r hr
    · obtain ⟨hk, hne⟩ := mem_filter.mp hk
      obtain ⟨r, hr, hnone⟩ := h.waiting k hk
      exact ⟨r, (get_erase_of_ne _ (of_decide_eq_true hne)).trans hr, hnone⟩
    · rw [get_erase] at hr
      split at hr
      · cases hr
      · exact h.live k r hr
  · exact h

end

/-! ## Runs -/

section
variable {codec : Codec τ ω} {argmax : List τ → τ} {calm : Prop} {s t : ChatService τ ω}

theorem call_ensures {action : Action τ ω} (h : Held codec argmax calm False [] s)
    (hbears : Bears s action) (hcalm : calm → Undisturbed s action) :
    Ensures (action.call codec argmax) s (fun _ t => Held codec argmax calm False [] t)
      (fun e t => Reported e ∧ Held codec argmax calm False [] t) := by
  cases action with
  | addRequest rendered generation output =>
    refine Ensures.bind ((addRequest_ensures h).mono (fun _ _ ht => ht.1)
      fun e t he => ⟨he.1, he.2.1⟩) fun _ t ht => ?_
    exact ht
  | tick input =>
    refine (tick_ensures h hbears.1 hbears.2).mono
      (fun _ t ht => ht.1.settle (.inr rfl) fun hc => ⟨hc, rfl⟩)
      fun e t he => ⟨he.1.1, he.2.1.settle (.inr rfl) fun hc => ?_⟩
    exact absurd (hcalm hc).1 he.1.2
  | cancelRequest id => exact cancelRequest_ensures h

theorem held_new (maxPositionEmbeddings : Nat) (hasDflash : Bool) (config : SchedulerConfig)
    (maxRetainedBytes : Nat) : Held codec argmax (config.validate = .ok ()) False []
      (ChatService.new maxPositionEmbeddings hasDflash config maxRetainedBytes) where
  keyed _ _ hr := by cases hr
  waiting _ hid := by cases hid
  once := nodup_nil
  live _ _ hr := by cases hr
  stopped _ _ hreason := by cases hreason
  drafted _ hr := by cases hr
  finished _ hf := by cases hf
  lined hvalid := ⟨hvalid, by simp [ChatService.new], .nil, by simp [ChatService.new],
    by simp [ChatService.new]⟩

theorem step_held {action : Action τ ω} (h : Held codec argmax calm False [] s)
    (hbears : Bears s action) (hcalm : calm → Undisturbed s action)
    (hstep : step codec argmax s action = some t) : Held codec argmax calm False [] t := by
  have hcall := call_ensures h hbears hcalm
  unfold step at hstep
  unfold Ensures at hcall
  split at hstep
  · rename_i hrun
    rw [hrun] at hcall
    cases hstep
    exact hcall
  · rename_i hrun
    rw [hrun] at hcall
    cases hstep
    exact hcall.2
  · cases hstep

theorem held_run {actions : List (Action τ ω)}
    (path : Run.Path (step codec argmax) (fun s action => Bears s action ∧
      (calm → Undisturbed s action)) s actions t) (h : Held codec argmax calm False [] s) :
    Held codec argmax calm False [] t :=
  path.invariant (fun hs hguard hstep => step_held hs hguard.1 hguard.2 hstep) h

theorem firstPart_of_streaming {r : ActiveRequest τ ω} (h : Streaming codec argmax r) :
    ∃ emitted, r.history = r.prompt ++ emitted ∧ emitted <+: (greedyStream codec argmax r).1 := by
  obtain ⟨emitted, hhistory, hgreedy⟩ := h
  refine ⟨emitted, hhistory, ?_⟩
  rw [hgreedy]
  exact prefix_append _ _

theorem tick_undisturbed {input : TickInput τ} (h : Held codec argmax calm False [] s)
    (hquiet : Undisturbed s (.tick input)) : ∃ t, tick codec argmax input s = .ok () t ∧
      (∀ id, s.requests.get id = none → t.requests.get id = none) ∧
      (∀ id r, t.requests.get id = some r → r.sequence.isSome = true →
        r.generation.maxNewTokens ≠ 0) ∧
      ∀ id r, s.requests.get id = some r →
        ∃ r', Served input s t id r r' ∧ (calm → Fed s id r r') := by
  have htick := tick_ensures h hquiet.2 hquiet.bears.2
  unfold Ensures at htick
  split at htick
  · rename_i hrun
    exact ⟨_, hrun, htick.2⟩
  · exact absurd hquiet.1 htick.1.2

/-! ## Progress -/

/-- What is left to do for a request: its admission, and the tokens of its prompt and those that it
may emit. -/
def workLeft (r : ActiveRequest τ ω) : Nat :=
  (if r.sequence.isSome then r.prompt.length - r.promptPosition else r.prompt.length + 1) +
    (r.prompt.length + r.generation.maxNewTokens - r.history.length)

/-- The ticks that are enough to finish the requests up to an id. -/
def ticksLeft (bound : Nat) (s : ChatService τ ω) : Nat :=
  (Finset.range (bound + 1)).sum fun id => (s.requests.get id).elim 0 fun r => workLeft r + 1

/-- A tick in which no call fails and the head of the queue is not refused. -/
def Granted (s : ChatService τ ω) : Action τ ω → Prop
  | .tick input => Undisturbed s (.tick input) ∧
      ∀ id, s.waiting.head? = some id → input.admission id ≠ none
  | _ => True

def isTick : Action τ ω → Bool
  | .tick _ => true
  | _ => false

section
variable {r r' : ActiveRequest τ ω} {id bound : Nat} {input : TickInput τ}

omit [DecidableEq τ] in
theorem Granted.undisturbed {action : Action τ ω} (h : Granted s action) : Undisturbed s action := by
  cases action with
  | tick input => exact h.1
  | addRequest => trivial
  | cancelRequest => trivial

omit [DecidableEq τ] in
theorem workLeft_le (h : Later r r') : workLeft r' ≤ workLeft r := by
  have hhistory := h.history.length_le
  have hposition := h.position
  have hadmitted := h.admitted
  unfold workLeft
  rw [h.prompt, h.generation]
  cases hsome : r.sequence.isSome with
  | false =>
    rw [if_neg Bool.false_ne_true]
    split <;> omega
  | true =>
    have := hposition hsome
    rw [if_pos rfl, if_pos (hadmitted hsome)]
    omega

omit [DecidableEq τ] in
theorem ticksLeft_pos (hget : s.requests.get id = some r) : 0 < ticksLeft id s := by
  refine lt_of_lt_of_le (Nat.succ_pos (workLeft r)) ?_
  have hle := Finset.single_le_sum (f := fun id => (s.requests.get id).elim 0 fun r => workLeft r + 1)
    (fun _ _ => Nat.zero_le _) (Finset.self_mem_range_succ id)
  rwa [hget] at hle

omit [DecidableEq τ] in
theorem ticksLeft_le (h : ∀ k, k ≤ bound → t.requests.get k = s.requests.get k ∨
    t.requests.get k = none) : ticksLeft bound t ≤ ticksLeft bound s := by
  refine Finset.sum_le_sum fun k hk => ?_
  obtain heq | hnone := h k (Nat.lt_succ_iff.mp (Finset.mem_range.mp hk))
  · rw [heq]
  · rw [hnone]
    exact Nat.zero_le _

/-- The lowest request gets on: it is admitted, fed, decoded or finished. -/
theorem workLeft_lt (h : Held codec argmax calm False [] s) (hlined : Lined [] s)
    (hgranted : ∀ id, s.waiting.head? = some id → input.admission id ≠ none)
    (hleast : ∀ k q, s.requests.get k = some q → id ≤ k) (hget : s.requests.get id = some r)
    (hserved : Served input s t id r r') (hfed : Fed s id r r')
    (hasks : r'.sequence.isSome = true → r'.generation.maxNewTokens ≠ 0) :
    workLeft r' < workLeft r := by
  have hroomy := roomy_of_validate hlined.valid
  have hlater := hserved.later
  have hhistory := hlater.history.length_le
  obtain hlive | ⟨-, _, hended⟩ := h.live id r hget
  · have hlength := history_length hlive.steady
    unfold workLeft
    rw [hlater.prompt, hlater.generation]
    cases hsequence : r.sequence.isSome with
    | false =>
      have hwaiting := hlined.queued id r hget (Option.isNone_iff_eq_none.mp (by simpa using hsequence))
      have hhead := head?_of_least hlined.sorted hwaiting fun k hk => by
        obtain ⟨q, hq, -⟩ := h.waiting k hk
        exact hleast k q hq
      have hidle : s.activeSequences = 0 := by
        unfold ChatService.activeSequences
        rw [length_eq_zero_iff, filter_eq_nil_iff]
        intro q hq hsome
        obtain ⟨k, hk⟩ := mem_values_iff.mp hq
        have hahead := hlined.ahead k q hk hsome id hwaiting
        have := hleast k q hk
        omega
      have hadmitted := hserved.admits hhead (hidle ▸ hroomy.active) (hgranted id hhead)
      rw [if_pos hadmitted, if_neg Bool.false_ne_true]
      omega
    | true =>
      have hmax := hasks (hlater.admitted hsequence)
      rw [hlater.generation] at hmax
      have hposition := hlater.position hsequence
      have hbound := hlive.steady.position
      rw [if_pos (hlater.admitted hsequence), if_pos rfl]
      by_cases hprompt : r.promptPosition < r.prompt.length
      · have hmoved := hfed ⟨hsequence, hmax, hprompt⟩ fun k q hq _ => hleast k q hq
        omega
      · have hend : r.promptPosition = r.prompt.length := by omega
        have hmore := (hlined.unfinished id r hget hsequence hend hmax).resolve_right (by simp)
        have hselected := selected_head decodable h hget
          (decodable_iff.mpr ⟨hsequence, hend, hmore⟩) hroomy.decode fun k q hq _ => hleast k q hq
        have hlonger := hserved.decodes (mem_of_mem_head? hselected)
        omega
  · cases hended

theorem ticksLeft_lt (h : Held codec argmax calm False [] s) (hlined : Lined [] s)
    (hgranted : ∀ id, s.waiting.head? = some id → input.admission id ≠ none)
    (hget : s.requests.get id = some r) (hid : id ≤ bound)
    (habsent : ∀ id, s.requests.get id = none → t.requests.get id = none)
    (hasks : ∀ id r, t.requests.get id = some r → r.sequence.isSome = true →
      r.generation.maxNewTokens ≠ 0)
    (hserved : ∀ id r, s.requests.get id = some r → ∃ r', Served input s t id r r' ∧ Fed s id r r') :
    ticksLeft bound t < ticksLeft bound s := by
  classical
  have hsome : ∃ k, ∃ q, s.requests.get k = some q := ⟨id, r, hget⟩
  have hfirst := Nat.find_spec hsome
  have hleast : ∀ k q, s.requests.get k = some q → Nat.find hsome ≤ k :=
    fun k q hq => Nat.find_min' hsome ⟨q, hq⟩
  refine Finset.sum_lt_sum (fun k _ => ?_) ⟨Nat.find hsome, Finset.mem_range.mpr ?_, ?_⟩
  · cases hk : s.requests.get k with
    | none => rw [habsent k hk]
    | some q =>
      obtain ⟨q', hq', -⟩ := hserved k q hk
      obtain hstays | ⟨hnone, -⟩ := hq'.kept
      · rw [hstays]
        exact Nat.succ_le_succ (workLeft_le hq'.later)
      · rw [hnone]
        exact Nat.zero_le _
  · have := hleast id r hget
    omega
  · obtain ⟨q, hq⟩ := hfirst
    obtain ⟨q', hq', hfed⟩ := hserved _ q hq
    rw [hq]
    obtain hstays | ⟨hnone, -⟩ := hq'.kept
    · rw [hstays]
      exact Nat.succ_lt_succ (workLeft_lt h hlined hgranted hleast hq hq' hfed (hasks _ q' hstays))
    · rw [hnone]
      exact Nat.succ_pos _

/-- A call from outside leaves the requests up to an id, but a cancelled one. -/
theorem outside_kept {action : Action τ ω} (h : Held codec argmax calm False [] s)
    (hget : s.requests.get id = some r) (houtside : isTick action = false)
    (hother : action ≠ .cancelRequest id) (hstep : step codec argmax s action = some t) :
    t.requests.get id = some r ∧
      ∀ k, k ≤ id → t.requests.get k = s.requests.get k ∨ t.requests.get k = none := by
  cases action with
  | tick => cases houtside
  | addRequest rendered generation output =>
    have hbelow := (h.keyed id r hget).2
    have hcall : Ensures ((Action.addRequest rendered generation output).call codec argmax) s
        (fun _ t => ∀ k, k ≤ id → t.requests.get k = s.requests.get k)
        (fun _ t => ∀ k, k ≤ id → t.requests.get k = s.requests.get k) := by
      refine Ensures.bind ((addRequest_ensures h).mono (fun _ _ ht => ht)
        fun e t he k _ => by rw [he.2.2]) fun new t ht k hk => ?_
      obtain ⟨hheld, prompt, opened, -, -, hrequests⟩ := ht
      have hnew : t.requests.get new = some (newRequest s prompt generation opened) := by
        rw [hrequests]
        exact get_insert_self _ _ _
      have hid : s.nextId = new := (hheld.keyed new _ hnew).1
      rw [hrequests]
      exact get_insert_of_ne _ _ (by omega)
    have hkept : ∀ k, k ≤ id → t.requests.get k = s.requests.get k := by
      unfold step at hstep
      unfold Ensures at hcall
      split at hstep
      · rename_i hrun
        rw [hrun] at hcall
        cases hstep
        exact hcall
      · rename_i hrun
        rw [hrun] at hcall
        cases hstep
        exact hcall
      · cases hstep
    exact ⟨(hkept id (Nat.le_refl _)).trans hget, fun k hk => .inl (hkept k hk)⟩
  | cancelRequest k =>
    have hne : id ≠ k := fun heq => hother (by rw [heq])
    unfold step Action.call MuseGlimmer.cancelRequest at hstep
    cases hstep
    dsimp only
    split
    · refine ⟨(get_erase_of_ne _ hne).trans hget, fun j _ => ?_⟩
      rw [get_erase]
      split
      · exact .inr rfl
      · exact .inl rfl
    · exact ⟨hget, fun _ _ => .inl rfl⟩

/-- Enough ticks whose heads of the queue are not refused finish a request that is not
cancelled, whatever else is called between them. -/
theorem finishes {actions : List (Action τ ω)} (h : Held codec argmax calm False [] s)
    (hcalm : calm) (hget : s.requests.get id = some r)
    (path : Run.Path (step codec argmax) Granted s actions t)
    (hother : ∀ action ∈ actions, action ≠ .cancelRequest id)
    (hticks : ticksLeft id s ≤ actions.countP isTick) :
    ∃ front u r' reason, front <+: actions ∧ Run.Path (step codec argmax) Granted s front u ∧
      (r', reason) ∈ u.tick.finished ∧ Later r r' := by
  induction path generalizing r with
  | nil s =>
    have hpos := ticksLeft_pos hget
    rw [countP_nil] at hticks
    omega
  | @cons s s₁ t action actions allowed taken rest ih =>
    have h₁ := step_held h allowed.undisturbed.bears (fun _ => allowed.undisturbed) taken
    have hothers := fun a ha => hother a (mem_cons_of_mem _ ha)
    -- the request is still there, with fewer ticks left than before
    have hgoes : ∀ r', Later r r' → s₁.requests.get id = some r' →
        ticksLeft id s₁ ≤ actions.countP isTick → ∃ front u r' reason, front <+: action :: actions ∧
          Run.Path (step codec argmax) Granted s front u ∧ (r', reason) ∈ u.tick.finished ∧
          Later r r' := fun r' hlater hget' hleft => by
      obtain ⟨front, u, r'', reason, hfront, hpath, hfinished, hlater'⟩ := ih h₁ hget' hothers hleft
      exact ⟨action :: front, u, r'', reason, cons_prefix_cons.mpr ⟨rfl, hfront⟩,
        .cons allowed taken hpath, hfinished, hlater.trans hlater'⟩
    cases htick : isTick action with
    | true =>
      cases action with
      | addRequest => cases htick
      | cancelRequest => cases htick
      | tick input =>
        obtain ⟨t₁, hrun, habsent, hasks, hserved⟩ := tick_undisturbed h allowed.1
        have hstep : step codec argmax s (.tick input) = some t₁ := by
          dsimp only [step, Action.call]
          rw [hrun]
        obtain rfl : t₁ = s₁ := Option.some.inj (hstep.symm.trans taken)
        have hless := ticksLeft_lt h (h.lined hcalm) allowed.2 hget (Nat.le_refl id) habsent hasks
          fun k q hq => (hserved k q hq).imp fun _ hq' => ⟨hq'.1, hq'.2 hcalm⟩
        rw [countP_cons_of_pos htick] at hticks
        obtain ⟨r', hr', -⟩ := hserved id r hget
        obtain hstays | ⟨-, reason, hreason⟩ := hr'.kept
        · exact hgoes r' hr'.later hstays (by omega)
        · exact ⟨[.tick input], t₁, r', reason, cons_prefix_cons.mpr ⟨rfl, nil_prefix⟩,
            .cons allowed taken (.nil _), hreason, hr'.later⟩
    | false =>
      obtain ⟨hstays, hkept⟩ := outside_kept h hget htick (hother action mem_cons_self) taken
      rw [countP_cons_of_neg (by simp [htick])] at hticks
      exact hgoes r (.refl r) hstays ((ticksLeft_le hkept).trans hticks)

end

/-- In every run in which no call fails, a DFlash request emits exactly the greedy stream of the
target behind its prompt, up to the token that ends it. Behind each cycle its sequence, the
page cache and all caches of the drafter stand at the prompt and the tokens that the cycles
returned. No tick fails, so no cycle is rejected; no token is taken back, a request that decodes
gets at least one, an admissible head of the queue is admitted, and the first prompt that is to be
fed is fed a token. So a request that is not cancelled is finished, with its whole stream, after a
number of ticks whose heads of the queue are not refused. -/
theorem dflash_emits_greedy_stream (codec : Codec τ ω) (argmax : List τ → τ)
    (maxPositionEmbeddings : Nat) (hasDflash : Bool) (config : SchedulerConfig)
    (maxRetainedBytes : Nat) {actions : List (Action τ ω)} {s : ChatService τ ω}
    (path : Run.Path (step codec argmax) Undisturbed
      (.new maxPositionEmbeddings hasDflash config maxRetainedBytes) actions s) :
    (∀ id r, s.requests.get id = some r → r.dflashEnabled = true →
      ∃ emitted, r.history = r.prompt ++ emitted ∧ emitted <+: (greedyStream codec argmax r).1) ∧
    (∀ r reason, (r, reason) ∈ s.tick.finished → r.dflashEnabled = true →
      r.history = r.prompt ++ (greedyStream codec argmax r).1 ∧
        r.output = (greedyStream codec argmax r).2.1.1 ∧
        reason = reportedReason codec r.output ((greedyStream codec argmax r).2.2.getD .length)) ∧
    (∀ r ∈ s.tick.draftProgress, Drafted (layersOf s) r) ∧
    (∀ input, input.fault = none → Restores input s → ∃ t, tick codec argmax input s = .ok () t ∧
      ∀ id r, s.requests.get id = some r →
        ∃ r', Served input s t id r r' ∧ (config.validate = .ok () → Fed s id r r')) ∧
    (config.validate = .ok () → ∀ id r, s.requests.get id = some r → ∀ further t,
      Run.Path (step codec argmax) Granted s further t →
      (∀ action ∈ further, action ≠ .cancelRequest id) → ticksLeft id s ≤ further.countP isTick →
      ∃ front u r' reason, front <+: further ∧ Run.Path (step codec argmax) Granted s front u ∧
        (r', reason) ∈ u.tick.finished ∧ Later r r' ∧ (r.dflashEnabled = true →
          r'.history = r.prompt ++ (greedyStream codec argmax r').1)) := by
  have h : Held codec argmax (config.validate = .ok ()) False [] s :=
    held_run (path.mono fun h => ⟨h.bears, fun _ => h⟩)
      (held_new maxPositionEmbeddings hasDflash config maxRetainedBytes)
  refine ⟨fun id r hr hdrafting => ?_, fun r reason hf hdrafting => ?_, h.drafted,
    fun input hfault hrestores => ?_, fun hvalid id r hget further t hpath hother hticks => ?_⟩
  · obtain hlive | ⟨-, _, hended⟩ := h.live id r hr
    · exact firstPart_of_streaming (hlive.streaming hdrafting)
    · cases hended
  · obtain ⟨ended, ⟨emitted, hhistory, hgreedy⟩, hreason⟩ := h.finished _ hf hdrafting
    rw [hgreedy]
    exact ⟨hhistory, rfl, hreason⟩
  · obtain ⟨t, hrun, -, -, hserved⟩ := tick_undisturbed h ⟨hfault, hrestores⟩
    exact ⟨t, hrun, hserved⟩
  · obtain ⟨front, u, r', reason, hfront, hpath', hfinished, hlater⟩ :=
      finishes h hvalid hget hpath hother hticks
    refine ⟨front, u, r', reason, hfront, hpath', hfinished, hlater, fun hdrafting => ?_⟩
    have hu := held_run (hpath'.mono fun h => ⟨h.undisturbed.bears, fun _ => h.undisturbed⟩) h
    obtain ⟨ended, ⟨emitted, hhistory, hgreedy⟩, -⟩ :=
      hu.finished _ hfinished (hlater.drafting.trans hdrafting)
    rw [hgreedy, ← hlater.prompt]
    exact hhistory

/-- A request of two prompt tokens that asks for five: the target counts up and stops at six,
the drafter is right about three tokens. -/
def countingInput : TickInput Nat where
  admission _ := some 0
  draft _ := ⟨[3, 4, 5, 0, 0, 0, 0, 0, 0, 0, 0, 0, 0, 0, 0], rfl⟩
  sampled _ := 0
  fault := none

def countingActions : List (Action Nat (List Nat)) :=
  [.addRequest (.ok [0, 1]) ⟨true, true, 5, [6]⟩ (some []), .tick countingInput,
    .tick countingInput, .tick countingInput]

def countingCodec : Codec Nat (List Nat) where
  isReasoning _ := false
  pushToken output token := (output ++ [token], none)
  finish _ _ := none

def countingService : ChatService Nat (List Nat) := .new 1024 true ⟨1, 1, 1, 64, 4, 256, 0⟩ 0

/-- Whether an action meets `Undisturbed`. -/
def checkUndisturbed (s : ChatService Nat (List Nat)) : Action Nat (List Nat) → Bool
  | .tick input => input.fault = none && s.requests.entries.all fun entry =>
      (input.admission entry.1).all fun cached => cached < entry.2.prompt.length
  | _ => true

theorem undisturbed_of_check {s : ChatService Nat (List Nat)} {action : Action Nat (List Nat)}
    (h : checkUndisturbed s action = true) : Undisturbed s action := by
  cases action with
  | tick input =>
    simp only [checkUndisturbed, Bool.and_eq_true, decide_eq_true_eq, all_eq_true] at h
    refine ⟨h.1, fun id r cached hr hcached => ?_⟩
    have hentry := h.2 (id, r) (mem_entries_iff.mpr hr)
    simpa [hcached] using hentry
  | addRequest => trivial
  | cancelRequest => trivial

theorem granted_of_check {s : ChatService Nat (List Nat)} (h : checkUndisturbed s (.tick countingInput) = true) :
    Granted s (.tick countingInput) :=
  ⟨undisturbed_of_check h, fun _ _ => Option.some_ne_none _⟩

/-- The request is finished with its four tokens, the last of them an end token; and nine ticks
behind its arrival are enough. -/
theorem dflash_emits_greedy_stream_counting :
    (∃ s, Run.Path (step countingCodec List.length) Undisturbed countingService countingActions s ∧
      s.tick.finished.map (fun f => (f.1.history, f.1.dflashEnabled, f.2)) =
        [([0, 1, 2, 3, 4, 5, 6], true, .eos)] ∧
      ∀ r reason, (r, reason) ∈ s.tick.finished → r.dflashEnabled = true →
        r.history = r.prompt ++ (greedyStream countingCodec List.length r).1) ∧
    ∃ s r, Run.Path (step countingCodec List.length) Undisturbed countingService
        (countingActions.take 1) s ∧ s.requests.get 1 = some r ∧ ticksLeft 1 s = 9 ∧
      ∃ front u r' reason, Run.Path (step countingCodec List.length) Granted s front u ∧
        (r', reason) ∈ u.tick.finished ∧ Later r r' ∧
        r'.history = r.prompt ++ (greedyStream countingCodec List.length r').1 := by
  constructor
  · have hrun : (Run.runWhere (step countingCodec length) checkUndisturbed countingService
        countingActions).map (fun s => s.tick.finished.map fun f =>
          (f.1.history, f.1.dflashEnabled, f.2)) = some [([0, 1, 2, 3, 4, 5, 6], true, .eos)] := by
      decide +kernel
    obtain ⟨s, hs, hfinished⟩ := Option.map_eq_some_iff.mp hrun
    have path := Run.Path.of_runWhere hs fun _ _ _ h => undisturbed_of_check h
    exact ⟨s, path, hfinished, fun r reason hf hdrafting =>
      ((dflash_emits_greedy_stream countingCodec length 1024 true _ 0 path).2.1 r reason hf
        hdrafting).1⟩
  · have hrun : (Run.runWhere (step countingCodec length) checkUndisturbed countingService
        (countingActions.take 1)).map (fun s => ((s.requests.get 1).map fun r => r.dflashEnabled,
          ticksLeft 1 s, (Run.runWhere (step countingCodec length) checkUndisturbed s
            (replicate 9 (.tick countingInput))).isSome)) = some (some true, 9, true) := by
      decide +kernel
    obtain ⟨s, hs, hfacts⟩ := Option.map_eq_some_iff.mp hrun
    simp only [Prod.mk.injEq, Option.map_eq_some_iff] at hfacts
    obtain ⟨⟨r, hr, hdrafting⟩, hleft, hbehind⟩ := hfacts
    obtain ⟨t, ht⟩ := Option.isSome_iff_exists.mp hbehind
    have path := Run.Path.of_runWhere hs fun _ _ _ h => undisturbed_of_check h
    have further : Run.Path _ Granted _ _ t := Run.Path.of_runWhere ht fun a ha s h => by
      obtain rfl := eq_of_mem_replicate ha
      exact granted_of_check h
    have hfinishes := (dflash_emits_greedy_stream countingCodec length 1024 true _ 0 path).2.2.2.2
      (by decide) 1 r hr _ t further
    obtain ⟨front, u, r', reason, -, hpath, hfinished, hlater, hstream⟩ := hfinishes
      (fun a ha => by
        rw [eq_of_mem_replicate ha]
        intro hcancel
        cases hcancel) (by rw [hleft]; decide)
    exact ⟨s, r, path, hr, hleft, front, u, r', reason, hpath, hfinished, hlater, hstream hdrafting⟩

/-- In every run whose ticks can bear their failures, a DFlash request has emitted a first part
of its greedy stream, and a finished one all of it. A waiting request waits once, without a
sequence, and a failing tick takes nothing back. -/
theorem failures_keep_streams (codec : Codec τ ω) (argmax : List τ → τ)
    (maxPositionEmbeddings : Nat) (hasDflash : Bool) (config : SchedulerConfig)
    (maxRetainedBytes : Nat) {actions : List (Action τ ω)} {s : ChatService τ ω}
    (path : Run.Path (step codec argmax) Bears
      (.new maxPositionEmbeddings hasDflash config maxRetainedBytes) actions s) :
    (∀ id r, s.requests.get id = some r → r.dflashEnabled = true →
      ∃ emitted, r.history = r.prompt ++ emitted ∧ emitted <+: (greedyStream codec argmax r).1) ∧
    (∀ r reason, (r, reason) ∈ s.tick.finished → r.dflashEnabled = true →
      r.history = r.prompt ++ (greedyStream codec argmax r).1) ∧
    (s.waiting.Nodup ∧ ∀ id ∈ s.waiting, ∃ r, s.requests.get id = some r ∧ r.sequence = none) ∧
    ∀ input e t, Restores input s → Bearable input s → tick codec argmax input s = .error e t →
      Carried input { s with tick := .empty } t := by
  have h : Held codec argmax False False [] s :=
    (held_run (path.mono fun h => ⟨h, False.elim⟩)
      (held_new maxPositionEmbeddings hasDflash config maxRetainedBytes |>.settle (.inr rfl)
        False.elim))
  refine ⟨fun id r hr hdrafting => ?_, fun r reason hf hdrafting => ?_, ⟨h.once, h.waiting⟩,
    fun input e t hrestores hbearable hrun => ?_⟩
  · obtain hlive | ⟨-, _, hended⟩ := h.live id r hr
    · exact firstPart_of_streaming (hlive.streaming hdrafting)
    · cases hended
  · obtain ⟨ended, ⟨emitted, hhistory, hgreedy⟩, -⟩ := h.finished _ hf hdrafting
    rw [hgreedy]
    exact hhistory
  · have htick := tick_ensures h hrestores hbearable
    unfold Ensures at htick
    rw [hrun] at htick
    exact htick.2.2

/-- Whether an action fails nowhere but in an admission. -/
def checkAdmission (s : ChatService Nat (List Nat)) : Action Nat (List Nat) → Bool
  | .tick input => checkUndisturbed s (.tick { input with fault := none }) &&
      input.fault.all fun fault => fault.2 = .admission
  | _ => true

theorem bears_of_check {s : ChatService Nat (List Nat)} {action : Action Nat (List Nat)}
    (h : checkAdmission s action = true) : Bears s action := by
  cases action with
  | tick input =>
    obtain ⟨hquiet, hsite⟩ := Bool.and_eq_true_iff.mp h
    refine ⟨(undisturbed_of_check hquiet).2, fun id site hfault => .inl ?_⟩
    rw [hfault] at hsite
    exact .inr (.inr (.inl (of_decide_eq_true hsite)))
  | addRequest => trivial
  | cancelRequest => trivial

/-- A tick whose first admission fails. -/
def failingInput : TickInput Nat where
  admission _ := none
  draft _ := ⟨replicate 15 0, rfl⟩
  sampled _ := 0
  fault := some (1, .admission)

def isError {ε σ α : Type} : EStateM.Result ε σ α → Bool
  | .ok _ _ => false
  | .error _ _ => true

/-- One admission fails its tick, which leaves both requests as they were, and the other request is
finished by the ticks behind it. -/
theorem counting_bears_admission :
    (∃ actions s, Run.Path (step countingCodec List.length) Bears countingService actions s ∧
      s.tick.finished.length = 1 ∧ ∀ r reason, (r, reason) ∈ s.tick.finished →
        r.dflashEnabled = true → r.history = r.prompt ++
          (greedyStream countingCodec List.length r).1) ∧
    ∃ s e t, Run.Path (step countingCodec List.length) Bears countingService
        (countingActions.take 1 ++ countingActions.take 1) s ∧ s.requests.keys = [1, 2] ∧
      tick countingCodec List.length failingInput s = .error e t ∧
      Carried failingInput { s with tick := .empty } t := by
  constructor
  · have hrun : (Run.runWhere (step countingCodec length) checkAdmission countingService
        (countingActions.take 1 ++ countingActions.take 1 ++ .tick failingInput ::
          countingActions.drop 1)).map (fun s => s.tick.finished.length) = some 1 := by
      decide +kernel
    obtain ⟨s, hs, hfinished⟩ := Option.map_eq_some_iff.mp hrun
    have path := Run.Path.of_runWhere hs fun _ _ _ h => bears_of_check h
    exact ⟨_, s, path, hfinished,
      (failures_keep_streams countingCodec length 1024 true _ 0 path).2.1⟩
  · have hrun : (Run.runWhere (step countingCodec length) checkAdmission countingService
        (countingActions.take 1 ++ countingActions.take 1)).map (fun s => (s.requests.keys,
          checkAdmission s (.tick failingInput),
          isError (tick countingCodec length failingInput s))) = some ([1, 2], true, true) := by decide +kernel
    obtain ⟨s, hs, hfacts⟩ := Option.map_eq_some_iff.mp hrun
    simp only [Prod.mk.injEq] at hfacts
    obtain ⟨hkeys, hcheck, hfails⟩ := hfacts
    have path := Run.Path.of_runWhere hs fun _ _ _ h => bears_of_check h
    obtain ⟨hrestores, hbearable⟩ := bears_of_check hcheck
    cases htick : tick countingCodec length failingInput s with
    | ok =>
      rw [htick] at hfails
      cases hfails
    | error e t =>
      exact ⟨s, e, t, path, hkeys, htick, (failures_keep_streams countingCodec length 1024 true _ 0
        path).2.2.2 failingInput e t hrestores hbearable htick⟩

end

end Eider.Guarantees.MuseTick
