import Eider.Guarantees.MuseStream

/-!
The phases of a tick of the Muse Glimmer service. Between two ticks every request is live: it
stands where its cursor says, and a DFlash request is on its stream. Inside a tick some
requests have ended, and the finish takes these out. Each phase keeps this, takes no token
back, and fails only where one of its calls does. While no call fails the queue is in the
order of the ids and behind the admitted requests, and the lowest request gets on.
-/
namespace Eider.Guarantees.MusePhases
open Lib Lib.ByteReader Source Source.MuseGlimmer List BTreeMap Ensures
open Guarantees.MuseSequence Guarantees.MuseRequests Guarantees.MuseStream
open Source.Qwen36 (expect)

variable {τ ω : Type}
variable {α : Type} {reason : ChatFinishReason}

/-! ## Requests -/

theorem decodable_iff {r : ActiveRequest τ ω} : decodable r = true ↔ r.sequence.isSome = true ∧
    r.promptPosition = r.prompt.length ∧ r.generatedTokens < r.generation.maxNewTokens := by
  simp [decodable, and_assoc]

theorem prefillRows_le (r : ActiveRequest τ ω) (fairShare : Nat) :
    prefillRows r fairShare ≤ r.prompt.length - r.promptPosition := by
  unfold prefillRows
  split
  · exact (Nat.min_le_left _ _).trans (Nat.min_le_left _ _)
  · exact Nat.min_le_left _ _

theorem prefillRows_pos {r : ActiveRequest τ ω} {fairShare : Nat} (hshare : 0 < fairShare)
    (hposition : r.promptPosition < r.prompt.length) : 0 < prefillRows r fairShare := by
  unfold prefillRows
  dsimp only
  split
  · rename_i htarget
    simp only [Bool.and_eq_true, decide_eq_true_eq] at htarget
    omega
  · omega

/-- A request that is still to be admitted. -/
structure Unadmitted (r : ActiveRequest τ ω) : Prop where
  generated : r.generatedTokens = 0
  pending : r.pendingDflashToken = none
  logits : r.promptLogitsReady = false

/-- The drafter's layers. -/
def layersOf (s : ChatService τ ω) : Nat := if s.hasDflash then drafterLayers else 0

/-- A tick in which a call behind an admission fails. -/
def Faulty (input : TickInput τ) : Prop := ∃ id, Struck (input.faultOf id)

/-- Every request stays or is reported as finished, and no token is taken back. -/
structure Onward (s t : ChatService τ ω) : Prop where
  finished : s.tick.finished ⊆ t.tick.finished
  absent : ∀ id, s.requests.get id = none → t.requests.get id = none
  requests : ∀ id r, s.requests.get id = some r → ∃ r', Later r r' ∧
    (t.requests.get id = some r' ∨
      t.requests.get id = none ∧ ∃ reason, (r', reason) ∈ t.tick.finished)

/-- What a tick leaves of each request, also a tick that fails: what it has become stands in the
map or has been taken out by the finish, or is gone because its sequence could not be given
back. -/
structure Carried (input : TickInput τ) (s t : ChatService τ ω) : Prop where
  finished : s.tick.finished ⊆ t.tick.finished
  requests : ∀ id r, s.requests.get id = some r → ∃ r', Later r r' ∧
    (t.requests.get id = some r' ∨ (∃ reason, (r', reason) ∈ t.tick.finished) ∨
      input.fault = some (id, .finishSequence))

section
variable {s t u : ChatService τ ω} {id : Nat} {r r' : ActiveRequest τ ω}

theorem Onward.refl (s : ChatService τ ω) : Onward s s :=
  ⟨fun _ h => h, fun _ h => h, fun _ r h => ⟨r, .refl r, .inl h⟩⟩

theorem Onward.trans (h : Onward s t) (h' : Onward t u) : Onward s u := by
  refine ⟨fun _ hf => h'.finished (h.finished hf), fun id hid => h'.absent id (h.absent id hid),
    fun id r hr => ?_⟩
  obtain ⟨r', hlater, hr' | ⟨hnone, reason, hreason⟩⟩ := h.requests id r hr
  · obtain ⟨r'', hlater', hr''⟩ := h'.requests id r' hr'
    exact ⟨r'', hlater.trans hlater', hr''⟩
  · exact ⟨r', hlater, .inr ⟨h'.absent id hnone, reason, h'.finished hreason⟩⟩

theorem Onward.carry {input : TickInput τ} (h : Onward s t) (h' : Carried input t u) :
    Carried input s u := by
  refine ⟨fun _ hf => h'.finished (h.finished hf), fun id r hr => ?_⟩
  obtain ⟨r', hlater, hr' | ⟨-, reason, hreason⟩⟩ := h.requests id r hr
  · obtain ⟨r'', hlater', hr''⟩ := h'.requests id r' hr'
    exact ⟨r'', hlater.trans hlater', hr''⟩
  · exact ⟨r', hlater, .inr (.inl ⟨reason, h'.finished hreason⟩)⟩

theorem Onward.carried {input : TickInput τ} (h : Onward s t) : Carried input s t :=
  h.carry ⟨fun _ hf => hf, fun _ r hr => ⟨r, .refl r, .inl hr⟩⟩

theorem Onward.insert (hget : s.requests.get id = some r) (hlater : Later r r') :
    Onward s { s with requests := s.requests.insert id r' } := by
  refine ⟨fun _ h => h, fun k hk => ?_, fun k q hq => ?_⟩
  · have hne : k ≠ id := by
      rintro rfl
      rw [hget] at hk
      cases hk
    exact (get_insert_of_ne _ _ hne).trans hk
  by_cases hk : k = id
  · subst hk
    rw [hget] at hq
    cases hq
    exact ⟨r', hlater, .inl (get_insert_self _ _ _)⟩
  · exact ⟨q, .refl q, .inl ((get_insert_of_ne _ _ hk).trans hq)⟩

theorem Onward.report (hrequests : t.requests = s.requests)
    (hfinished : s.tick.finished ⊆ t.tick.finished) : Onward s t :=
  ⟨hfinished, fun _ hk => hrequests ▸ hk, fun _ q hq => ⟨q, .refl q, .inl (hrequests ▸ hq)⟩⟩

theorem expect_bind {σ β : Type} {o : Option α} {a : α} {message : String}
    {f : α → EStateM (Fault CudaError) σ β} {s : σ} {P : β → σ → Prop}
    {E : Fault CudaError → σ → Prop} (ho : o = some a) (h : Ensures (f a) s P E) :
    Ensures (expect o message >>= f) s P E := by
  subst ho
  exact h

theorem onRequest_ensures {message : String} {program : Requesting τ ω α}
    {P : α → ActiveRequest τ ω → Prop} {E : Fault CudaError → ActiveRequest τ ω → Prop}
    (hget : s.requests.get id = some r) (h : Ensures program r P E) :
    Ensures (onRequest message id program) s
      (fun a t => ∃ r', P a r' ∧ t = { s with requests := s.requests.insert id r' })
      (fun e t => ∃ r', E e r' ∧ t = { s with requests := s.requests.insert id r' }) := by
  unfold Ensures at h ⊢
  unfold onRequest
  rw [hget]
  dsimp only
  cases hrun : program r with
  | ok a r' =>
    rw [hrun] at h
    exact ⟨r', h, rfl⟩
  | error e r' =>
    rw [hrun] at h
    exact ⟨r', h, rfl⟩

/-- The reason that the report gives for a request. -/
def reportedReason (codec : Codec τ ω) (output : ω) : ChatFinishReason → ChatFinishReason
  | .eos => (codec.finish output false).getD .eos
  | .length => (codec.finish output true).getD .length
  | reason => reason

variable {input : TickInput τ}

theorem finishOutput_ensures {codec : Codec τ ω} {output : ω}
    {E : Fault CudaError → ChatService τ ω → Prop}
    (hfail : ∀ e, Reported e → Faulty input → E e s) :
    Ensures (finishOutput codec (input.faultOf id) output reason) s
      (fun reported t => reported = reportedReason codec output reason ∧ t = s) E := by
  have hreach : ∀ call, Ensures (reach (input.faultOf id) .finishOutput call : Serving τ ω Unit) s
      (fun _ t => t = s) E := fun call =>
    reach_ensures rfl fun hfault => hfail _ ⟨_, rfl⟩ ⟨id, _, hfault, by simp [admissionSite]⟩
  cases reason with
  | eos => exact (hreach _).bind fun _ t ht => ⟨rfl, ht⟩
  | length => exact (hreach _).bind fun _ t ht => ⟨rfl, ht⟩
  | stop => exact ⟨rfl, rfl⟩
  | toolCalls => exact ⟨rfl, rfl⟩

/-- An admission changes no request that decodes, and makes none that does. -/
structure Admitting (s t : ChatService τ ω) : Prop where
  config : t.config = s.config
  dflash : t.hasDflash = s.hasDflash
  tick : t.tick = s.tick
  absent : ∀ k, s.requests.get k = none → t.requests.get k = none
  requests : ∀ k r, s.requests.get k = some r → ∃ r', t.requests.get k = some r' ∧ Later r r' ∧
    (r' = r ∨ (r.sequence = none ∧ decodable r' = false))

theorem Admitting.of_requests (hconfig : t.config = s.config) (hdflash : t.hasDflash = s.hasDflash)
    (htick : t.tick = s.tick) (hrequests : t.requests = s.requests) : Admitting s t :=
  ⟨hconfig, hdflash, htick, fun _ hk => hrequests ▸ hk,
    fun _ r hr => ⟨r, hrequests ▸ hr, .refl r, .inl rfl⟩⟩

theorem Admitting.trans (h : Admitting s t) (h' : Admitting t u) : Admitting s u where
  config := h'.config.trans h.config
  dflash := h'.dflash.trans h.dflash
  tick := h'.tick.trans h.tick
  absent k hk := h'.absent k (h.absent k hk)
  requests k r hr := by
    obtain ⟨r', hr', hlater, hsame⟩ := h.requests k r hr
    obtain ⟨r'', hr'', hlater', hsame'⟩ := h'.requests k r' hr'
    refine ⟨r'', hr'', hlater.trans hlater', ?_⟩
    obtain rfl | ⟨hnone, hno⟩ := hsame
    · exact hsame'
    · obtain rfl | ⟨-, hno'⟩ := hsame'
      · exact .inr ⟨hnone, hno⟩
      · exact .inr ⟨hnone, hno'⟩

theorem Admitting.onward (h : Admitting s t) : Onward s t := by
  refine ⟨?_, h.absent, fun k r hr => ?_⟩
  · rw [h.tick]
    exact fun _ hf => hf
  · obtain ⟨r', hr', hlater, -⟩ := h.requests k r hr
    exact ⟨r', hlater, .inl hr'⟩

theorem filter_eq_of_forall₂ {keep : α → Bool} {xs ys : List α}
    (h : List.Forall₂ (fun x y => y = x ∨ (keep x = false ∧ keep y = false)) xs ys) :
    ys.filter keep = xs.filter keep := by
  induction h with
  | nil => rfl
  | @cons x y xs ys hxy _ ih =>
    rw [filter_cons, filter_cons, ih]
    obtain rfl | ⟨hx, hy⟩ := hxy
    · rfl
    · simp [hx, hy]

theorem Admitting.decodeIds (h : Admitting s t) : decodeIds t = decodeIds s := by
  have hkeys : s.requests.keys = t.requests.keys := by
    refine keys_congr fun k => ?_
    cases hk : s.requests.get k with
    | none => rw [h.absent k hk]
    | some r =>
      obtain ⟨r', hr', -⟩ := h.requests k r hk
      rw [hr']
      rfl
  have hvalues := forall₂_values (R := fun r r' => r' = r ∨ (decodable r = false ∧
      decodable r' = false)) hkeys fun k r r' hr hr' => by
    obtain ⟨q, hq, -, hsame⟩ := h.requests k r hr
    rw [hr'] at hq
    cases hq
    exact hsame.imp_right fun ⟨hnone, hno⟩ => ⟨by simp [decodable, hnone], hno⟩
  unfold MuseGlimmer.decodeIds
  rw [filter_eq_of_forall₂ hvalues, h.config]

/-- Admissions leave at least one token of a prompt to feed, as the sequence cache promises. -/
def Restores (input : TickInput τ) (s : ChatService τ ω) : Prop :=
  ∀ id r cached, s.requests.get id = some r → input.admission id = some cached →
    cached < r.prompt.length

theorem Restores.onward (h : Restores input s) (hadmitting : Admitting s t) : Restores input t := by
  intro id r' cached hr' hcached
  cases hr : s.requests.get id with
  | none =>
    rw [hadmitting.absent id hr] at hr'
    cases hr'
  | some r =>
    obtain ⟨q, hq, hlater, -⟩ := hadmitting.requests id r hr
    rw [hr'] at hq
    cases hq
    rw [hlater.prompt]
    exact h id r cached hr hcached

/-- The call that fails is one of an admission, or it is harmless and no DFlash request
decodes. -/
def Bearable (input : TickInput τ) (s : ChatService τ ω) : Prop :=
  ∀ id site, input.fault = some (id, site) → admissionSite site ∨ (harmless site ∧
    ∀ k r, s.requests.get k = some r → decodable r = true → r.dflashEnabled = false)

theorem fault_of_faultOf {site : Site} (h : input.faultOf id = some site) :
    input.fault = some (id, site) := by
  unfold TickInput.faultOf at h
  split at h
  · split at h
    · rename_i hfault hid
      cases h
      subst hid
      exact hfault
    · cases h
  · cases h

theorem Bearable.harmless (h : Bearable input s) (id : Nat) : Harmless (input.faultOf id) := by
  intro site hfault
  obtain hadmission | ⟨hharmless, -⟩ := h id site (fault_of_faultOf hfault)
  · exact .inr (.inr (.inr (.inr hadmission)))
  · exact hharmless

theorem Bearable.plain (h : Bearable input s) (hfaulty : Faulty input)
    (hget : s.requests.get id = some r) (hdecodable : decodable r = true) :
    r.dflashEnabled = false := by
  obtain ⟨k, site, hfault, hlate⟩ := hfaulty
  obtain hadmission | ⟨-, hplain⟩ := h k site (fault_of_faultOf hfault)
  · exact absurd hadmission hlate
  · exact hplain id r hget hdecodable

theorem Faulty.fault (h : Faulty input) : input.fault ≠ none := by
  obtain ⟨id, site, hfault, -⟩ := h
  rw [fault_of_faultOf hfault]
  exact Option.some_ne_none _

theorem faultOf_none (h : input.fault = none) (id : Nat) : input.faultOf id = none := by
  unfold TickInput.faultOf
  rw [h]

end

variable [DecidableEq τ]

/-- A request between two ticks. -/
structure Live (codec : Codec τ ω) (argmax : List τ → τ) (layers : Nat) (r : ActiveRequest τ ω) :
    Prop where
  steady : Steady argmax layers r
  streaming : r.dflashEnabled = true → Streaming codec argmax r
  unadmitted : r.sequence = none → Unadmitted r

/-- A request that has ended. Only a DFlash request can stand behind its stream then. -/
structure Over (codec : Codec τ ω) (argmax : List τ → τ) (layers : Nat) (r : ActiveRequest τ ω)
    (reason : ChatFinishReason) : Prop where
  admitted : r.sequence.isSome = true
  position : r.promptPosition = r.prompt.length ∨ r.generation.maxNewTokens = 0
  live : r.dflashEnabled = false ∨ r.generation.maxNewTokens = 0 → Live codec argmax layers r
  streamed : r.dflashEnabled = true →
    ∃ ended, Streamed codec argmax r ended ∧ ended.getD .length = reason

section
variable {codec : Codec τ ω} {argmax : List τ → τ} {layers : Nat} {fault : Option Site}
variable {r : ActiveRequest τ ω}

theorem live_of_admitted (hsteady : Steady argmax layers r)
    (hstream : r.dflashEnabled = true → Streaming codec argmax r)
    (hadmitted : r.sequence.isSome = true) : Live codec argmax layers r := by
  refine ⟨hsteady, hstream, fun hnone => ?_⟩
  rw [hnone] at hadmitted
  cases hadmitted

/-- A request that asks for no tokens has emitted its stream. -/
theorem over_empty (h : Live codec argmax layers r) (hadmitted : r.sequence.isSome = true)
    (hempty : r.generation.maxNewTokens = 0) : Over codec argmax layers r .length where
  admitted := hadmitted
  position := .inr hempty
  live _ := h
  streamed hdrafting := by
    obtain ⟨emitted, hhistory, hgreedy⟩ := h.streaming hdrafting
    refine ⟨none, ⟨emitted, hhistory, ?_⟩, rfl⟩
    rw [hgreedy]
    unfold restOfStream
    rw [hempty, Nat.zero_sub]
    simp [Greedy.stream, Greedy.continued]

theorem generate_ensures (block : DraftBlock τ) (sampled : τ) (hharmless : Harmless fault)
    (hplain : Struck fault → r.dflashEnabled = false) (h : Live codec argmax layers r)
    (hdecodable : decodable r = true) :
    Ensures (generateOne codec argmax fault block sampled) r
      (fun reason r' => (Later r r' ∧ r'.sequence.isSome = true) ∧
        r.history.length < r'.history.length ∧ (r'.dflashEnabled = true → Drafted layers r') ∧
        (reason = none → Live codec argmax layers r' ∧
          r'.generatedTokens < r'.generation.maxNewTokens) ∧
        ∀ ended, reason = some ended → Over codec argmax layers r' ended)
      (fun e r' => Reported e ∧ Struck fault ∧ (Later r r' ∧ r'.sequence.isSome = true) ∧
        Live codec argmax layers r') := by
  obtain ⟨hadmitted, hposition, hmore⟩ := decodable_iff.mp hdecodable
  obtain ⟨s, hsequence⟩ := Option.isSome_iff_exists.mp hadmitted
  cases hdrafting : r.dflashEnabled with
  | false =>
    have hplain' : ∀ r', Later r r' → ¬ r'.dflashEnabled = true := by
      intro r' hlater hd
      rw [hlater.drafting, hdrafting] at hd
      cases hd
    have hlive : ∀ r', Steady argmax layers r' → Later r r' → r'.sequence.isSome = true →
        Live codec argmax layers r' := fun r' hsteady hlater hsome =>
      live_of_admitted hsteady (fun hd => absurd hd (hplain' r' hlater)) hsome
    refine (generateOne_ensures hharmless h.steady hsequence hdrafting hposition hmore).mono
      (fun reason r' hr' => ?_) fun e r' he => ?_
    · obtain ⟨hsteady, hlater, hsome, hlonger, hprompt, hgoes⟩ := hr'
      exact ⟨⟨hlater, hsome⟩, hlonger, fun hd => absurd hd (hplain' r' hlater),
        fun hnone => ⟨hlive r' hsteady hlater hsome, hgoes hnone⟩, fun _ _ => ⟨hsome, .inl hprompt,
          fun _ => hlive r' hsteady hlater hsome, fun hd => absurd hd (hplain' r' hlater)⟩⟩
    · obtain ⟨he, hstruck, hsteady, hlater, hsome⟩ := he
      exact ⟨he, hstruck, ⟨hlater, hsome⟩, hlive r' hsteady hlater hsome⟩
  | true =>
    have hquiet : ¬ Struck fault := fun hstruck => by
      rw [hplain hstruck] at hdrafting
      cases hdrafting
    have hstream := h.streaming hdrafting
    refine get_bind ?_
    rw [if_pos hdrafting]
    refine (generateDflash_ensures hquiet h.steady hsequence hdrafting hposition hmore).mono
      (fun reason r' hr' => ?_) fun _ _ he => he.elim
    obtain ⟨hlater, hsome, hdrafted, hprompt, hlonger, hgoes, hends⟩ := hr'
    refine ⟨⟨hlater, hsome⟩, hlonger, fun _ => hdrafted, fun hnone => ?_, fun ended hended => ?_⟩
    · obtain ⟨hsteady, hmore', hstreams⟩ := hgoes hnone
      exact ⟨live_of_admitted hsteady (fun _ => hstreams hstream) hsome, hmore'⟩
    · refine ⟨hsome, .inl hprompt, fun hother => ?_, fun _ => ⟨some ended, hends ended hended hstream, rfl⟩⟩
      rw [hlater.drafting, hlater.generation, hdrafting] at hother
      obtain hother | hother := hother
      · cases hother
      · omega

theorem prefill_ensures (retains : Bool) {chunk : Nat} (hharmless : Harmless fault)
    (h : Live codec argmax layers r) (hadmitted : r.sequence.isSome = true)
    (hposition : r.promptPosition < r.prompt.length) (hchunk : 0 < chunk)
    (hstop : r.promptPosition + chunk ≤ r.prompt.length) :
    Ensures (prefillChunk fault retains chunk) r
      (fun _ r' => (Later r r' ∧ r'.sequence.isSome = true) ∧ Live codec argmax layers r' ∧
        r'.promptPosition = r.promptPosition + chunk ∧ r'.generatedTokens = 0)
      (fun e r' => Reported e ∧ Struck fault ∧ (Later r r' ∧ r'.sequence.isSome = true) ∧
        Live codec argmax layers r') := by
  obtain ⟨s, hsequence⟩ := Option.isSome_iff_exists.mp hadmitted
  refine (prefillChunk_ensures hharmless h.steady hsequence hposition hchunk hstop).mono
    (fun _ r' hr' => ?_) fun e r' he => ?_
  · obtain ⟨hsteady, retained, t, rfl⟩ := hr'
    exact ⟨⟨⟨rfl, rfl, rfl, rfl, rfl, prefix_rfl, fun _ => rfl, fun _ => Nat.le_add_right _ _⟩,
      rfl⟩, ⟨hsteady, h.streaming, fun hnone => by cases hnone⟩, rfl, h.steady.early hposition⟩
  · obtain ⟨he, hstruck, hsteady, t, rfl⟩ := he
    exact ⟨he, hstruck, ⟨⟨rfl, rfl, rfl, rfl, rfl, prefix_rfl, fun _ => rfl,
      fun _ => Nat.le_refl _⟩, rfl⟩, hsteady, h.streaming, fun hnone => by cases hnone⟩

theorem live_admitted {hasDflash : Bool} {cached : Nat}
    (h : Live codec argmax (if hasDflash then drafterLayers else 0) r) (hnone : r.sequence = none)
    (hcached : cached < r.prompt.length) :
    Live codec argmax (if hasDflash then drafterLayers else 0) (admittedRequest hasDflash cached r) := by
  obtain ⟨hgenerated, hpending, hlogits⟩ := h.unadmitted hnone
  refine ⟨⟨h.steady.nonempty, Nat.le_of_lt hcached, h.steady.history, fun _ => hgenerated,
    h.steady.budget, h.steady.drafting, h.steady.returned, fun s hs => ?_⟩, h.streaming,
    fun hsequence => by cases hsequence⟩
  cases hs
  refine ⟨?_, .prompt hcached hpending hlogits⟩
  have hlength : (r.prompt.take cached).length = cached := by
    rw [length_take]
    omega
  have hfed : fed (admittedRequest hasDflash cached r) = r.prompt.take cached := fed_prompt hcached
  rw [hfed]
  refine ⟨rfl, rfl, hlength.symm, ?_⟩
  rw [hlength]
  cases hasDflash <;> rfl

end

/-! ## The service -/

/-- A request that is reported as finished has emitted its stream. -/
def Finished (codec : Codec τ ω) (argmax : List τ → τ)
    (f : ActiveRequest τ ω × ChatFinishReason) : Prop :=
  f.1.dflashEnabled = true → ∃ ended, Streamed codec argmax f.1 ended ∧
    f.2 = reportedReason codec f.1.output (ended.getD .length)

/-- Where no call has failed, for an accepted configuration: the requests without a sequence are
those of the queue, which is in the order of the ids and behind the admitted ones, and an admitted
request behind its prompt can decode, if it is not over. -/
structure Lined (ended : List (Nat × ChatFinishReason)) (s : ChatService τ ω) : Prop where
  valid : s.config.validate = .ok ()
  queued : ∀ id r, s.requests.get id = some r → r.sequence = none → id ∈ s.waiting
  sorted : s.waiting.Pairwise (· < ·)
  ahead : ∀ id r, s.requests.get id = some r → r.sequence.isSome = true → ∀ k ∈ s.waiting, id < k
  unfinished : ∀ id r, s.requests.get id = some r → r.sequence.isSome = true →
    r.promptPosition = r.prompt.length → r.generation.maxNewTokens ≠ 0 →
    r.generatedTokens < r.generation.maxNewTokens ∨ ∃ reason, (id, reason) ∈ ended

/-- What holds inside a tick, where the requests in `ended` are over. -/
structure Held (codec : Codec τ ω) (argmax : List τ → τ) (calm faulty : Prop)
    (ended : List (Nat × ChatFinishReason)) (s : ChatService τ ω) : Prop where
  keyed : ∀ id r, s.requests.get id = some r → r.id = id ∧ id < s.nextId
  waiting : ∀ id ∈ s.waiting, ∃ r, s.requests.get id = some r ∧ r.sequence = none
  once : s.waiting.Nodup
  live : ∀ id r, s.requests.get id = some r →
    Live codec argmax (layersOf s) r ∨ (¬ faulty ∧ ∃ reason, (id, reason) ∈ ended)
  stopped : ∀ id reason, (id, reason) ∈ ended →
    ∃ r, s.requests.get id = some r ∧ Over codec argmax (layersOf s) r reason
  drafted : ∀ r ∈ s.tick.draftProgress, Drafted (layersOf s) r
  finished : ∀ f ∈ s.tick.finished, Finished codec argmax f
  lined : calm → Lined ended s

section
variable {codec : Codec τ ω} {argmax : List τ → τ} {calm faulty : Prop}
variable {ended : List (Nat × ChatFinishReason)} {s : ChatService τ ω} {id : Nat}
variable {r r' : ActiveRequest τ ω}

omit [DecidableEq τ] in
/-- A request behind its admission, a prefill or a decode; an admitted one leaves the queue. -/
theorem Lined.insert {waiting : List Nat} (h : Lined ended s) (reason : Option ChatFinishReason)
    (hqueue : waiting <+ s.waiting) (hleft : ∀ k ∈ s.waiting, k = id ∨ k ∈ waiting)
    (hahead : ∀ k ∈ waiting, id < k) (hadmitted : r'.sequence.isSome = true)
    (hmore : reason = none → r'.promptPosition = r'.prompt.length →
      r'.generation.maxNewTokens ≠ 0 → r'.generatedTokens < r'.generation.maxNewTokens) :
    Lined ((reason.toList.map fun reason => (id, reason)) ++ ended)
      { s with waiting := waiting, requests := s.requests.insert id r' } where
  valid := h.valid
  queued k q hq hnone := by
    rw [get_insert] at hq
    split at hq
    · cases hq
      rw [hnone] at hadmitted
      cases hadmitted
    · rename_i hk
      exact (hleft k (h.queued k q hq hnone)).resolve_left fun heq => hk heq.symm
  sorted := h.sorted.sublist hqueue
  ahead k q hq hsome := by
    rw [get_insert] at hq
    split at hq
    · rename_i hk
      exact hk ▸ hahead
    · exact fun j hj => h.ahead k q hq hsome j (hqueue.subset hj)
  unfinished k q hq hsome hend hne := by
    rw [get_insert] at hq
    split at hq
    · rename_i hk
      cases hq
      cases reason with
      | none => exact .inl (hmore rfl hend hne)
      | some reason => exact .inr ⟨reason, by simp [hk]⟩
    · exact (h.unfinished k q hq hsome hend hne).imp_right fun ⟨other, hother⟩ =>
        ⟨other, mem_append_right _ hother⟩

omit [DecidableEq τ] in
theorem Lined.erase {waiting : List Nat} {left : List (Nat × ChatFinishReason)}
    (h : Lined ended s) (hqueue : waiting <+ s.waiting) (hleft : ∀ k ∈ s.waiting, k ≠ id → k ∈ waiting)
    (hended : ∀ k reason, (k, reason) ∈ ended → k ≠ id → (k, reason) ∈ left) :
    Lined left { s with waiting := waiting, requests := s.requests.erase id } := by
  have hkept : ∀ k q, (s.requests.erase id).get k = some q → k ≠ id ∧ s.requests.get k = some q := by
    intro k q hq
    rw [get_erase] at hq
    split at hq
    · cases hq
    · rename_i hk
      exact ⟨fun heq => hk heq.symm, hq⟩
  refine ⟨h.valid, fun k q hq hnone => ?_, h.sorted.sublist hqueue, fun k q hq hsome j hj => ?_,
    fun k q hq hsome hend hne => ?_⟩
  · obtain ⟨hk, hq⟩ := hkept k q hq
    exact hleft k (h.queued k q hq hnone) hk
  · exact h.ahead k q (hkept k q hq).2 hsome j (hqueue.subset hj)
  · obtain ⟨hk, hq⟩ := hkept k q hq
    exact (h.unfinished k q hq hsome hend hne).imp_right fun ⟨reason, hreason⟩ =>
      ⟨reason, hended k reason hreason hk⟩

omit [DecidableEq τ] in
theorem Lined.queue (h : Lined ended s) (hnone : r.sequence = none)
    (hbehind : ∀ k ∈ s.waiting, k < id) (hkeyed : ∀ k q, s.requests.get k = some q → k < id)
    {nextId : Nat} : Lined ended { s with
      nextId := nextId
      requests := s.requests.insert id r
      waiting := s.waiting ++ [id] } where
  valid := h.valid
  queued k q hq hnone := by
    rw [get_insert] at hq
    split at hq
    · rename_i hk
      exact mem_append_right _ (mem_singleton.mpr hk.symm)
    · exact mem_append_left _ (h.queued k q hq hnone)
  sorted := pairwise_append.mpr ⟨h.sorted, pairwise_singleton _ _, fun k hk j hj => by
    rw [mem_singleton.mp hj]
    exact hbehind k hk⟩
  ahead k q hq hsome j hj := by
    rw [get_insert] at hq
    split at hq
    · cases hq
      rw [hnone] at hsome
      cases hsome
    · obtain hj | hj := mem_append.mp hj
      · exact h.ahead k q hq hsome j hj
      · rw [mem_singleton.mp hj]
        exact hkeyed k q hq
  unfinished k q hq hsome := by
    rw [get_insert] at hq
    split at hq
    · cases hq
      rw [hnone] at hsome
      cases hsome
    · exact h.unfinished k q hq hsome

section
variable (h : Held codec argmax calm faulty ended s) {keep : ActiveRequest τ ω → Bool}
include h

theorem Held.congr {other : List (Nat × ChatFinishReason)}
    (hsame : ∀ pair, pair ∈ other ↔ pair ∈ ended) : Held codec argmax calm faulty other s := { h with
  live id r hr := (h.live id r hr).imp_right fun ⟨hquiet, reason, hreason⟩ =>
    ⟨hquiet, reason, (hsame _).mpr hreason⟩
  stopped id reason hreason := h.stopped id reason ((hsame _).mp hreason)
  lined hcalm := { h.lined hcalm with
    unfinished := fun id r hr hsome hend hne =>
      ((h.lined hcalm).unfinished id r hr hsome hend hne).imp_right fun ⟨reason, hreason⟩ =>
        ⟨reason, (hsame _).mpr hreason⟩ } }

theorem Held.settle {calm' faulty' : Prop} (hlive : faulty ∨ ended = [])
    (hcalm : calm' → calm ∧ ended = []) : Held codec argmax calm' faulty' [] s := { h with
  live id r hr := by
    obtain hr | ⟨hquiet, reason, hreason⟩ := h.live id r hr
    · exact .inl hr
    · obtain hfaulty | rfl := hlive
      · exact absurd hfaulty hquiet
      · cases hreason
  stopped _ _ hreason := by cases hreason
  lined hcalm' := by
    obtain ⟨hformer, rfl⟩ := hcalm hcalm'
    exact h.lined hformer }

theorem Held.not_waiting
    (hget : s.requests.get id = some r) (hadmitted : r.sequence.isSome = true) :
    id ∉ s.waiting := by
  intro hid
  obtain ⟨q, hq, hnone⟩ := h.waiting id hid
  rw [hget] at hq
  cases hq
  rw [hnone] at hadmitted
  cases hadmitted

/-- A request that does not wait is replaced by what it has become, which may be over. -/
theorem Held.insert {calm' : Prop} (reason : Option ChatFinishReason)
    (hget : s.requests.get id = some r) (hwaiting : id ∉ s.waiting)
    (hlater : Later r r') (hnew : ∀ reason, (id, reason) ∉ ended)
    (hlive : reason = none ∨ faulty → Live codec argmax (layersOf s) r')
    (hover : ∀ ended, reason = some ended → Over codec argmax (layersOf s) r' ended)
    (hlined : calm' → Lined ((reason.toList.map fun reason => (id, reason)) ++ ended)
      { s with requests := s.requests.insert id r' }) :
    Held codec argmax calm' faulty ((reason.toList.map fun reason => (id, reason)) ++ ended)
      { s with requests := s.requests.insert id r' } := { h with
  keyed k q hq := by
    rw [get_insert] at hq
    split at hq
    · rename_i hk
      cases hq
      subst hk
      exact ⟨hlater.id.trans (h.keyed _ r hget).1, (h.keyed _ r hget).2⟩
    · exact h.keyed k q hq
  waiting k hk := by
    obtain ⟨q, hq, hnone⟩ := h.waiting k hk
    have hne : k ≠ id := fun heq => hwaiting (heq ▸ hk)
    exact ⟨q, (get_insert_of_ne _ _ hne).trans hq, hnone⟩
  live k q hq := by
    rw [get_insert] at hq
    split at hq
    · rename_i hk
      cases hq
      subst hk
      cases reason with
      | none => exact .inl (hlive (.inl rfl))
      | some reason =>
        by_cases hfaulty : faulty
        · exact .inl (hlive (.inr hfaulty))
        · exact .inr ⟨hfaulty, reason, by simp⟩
    · exact (h.live k q hq).imp_right fun ⟨hquiet, other, hother⟩ =>
        ⟨hquiet, other, mem_append_right _ hother⟩
  stopped k other hother := by
    obtain hother | hother := mem_append.mp hother
    · obtain ⟨ended, hended, heq⟩ := mem_map.mp hother
      cases heq
      exact ⟨r', get_insert_self _ _ _, hover _ (Option.mem_toList.mp hended)⟩
    · obtain ⟨q, hq, hqover⟩ := h.stopped k other hother
      have hne : k ≠ id := fun heq => hnew other (heq ▸ hother)
      exact ⟨q, (get_insert_of_ne _ _ hne).trans hq, hqover⟩
  lined := hlined }

theorem Held.lined_insert (reason : Option ChatFinishReason)
    (hget : s.requests.get id = some r) (hadmitted : r.sequence.isSome = true) (hlater : Later r r')
    (hmore : reason = none → r'.promptPosition = r'.prompt.length →
      r'.generation.maxNewTokens ≠ 0 → r'.generatedTokens < r'.generation.maxNewTokens)
    (hcalm : calm) : Lined ((reason.toList.map fun reason => (id, reason)) ++ ended)
      { s with requests := s.requests.insert id r' } :=
  (h.lined hcalm).insert reason (.refl _) (fun _ hk => .inr hk)
    ((h.lined hcalm).ahead id r hget hadmitted) (hlater.admitted hadmitted) hmore

theorem Held.report (f : Tick τ ω → Tick τ ω)
    (hdrafted : ∀ r ∈ (f s.tick).draftProgress, Drafted (layersOf s) r)
    (hfinished : ∀ pair ∈ (f s.tick).finished, Finished codec argmax pair) :
    Held codec argmax calm faulty ended { s with tick := f s.tick } := { h with
  drafted := hdrafted
  finished := hfinished
  lined := fun hcalm => { h.lined hcalm with } }

/-! ## Selections -/

theorem Held.ids : s.requests.values.map ActiveRequest.id = s.requests.keys := by
  unfold BTreeMap.values BTreeMap.keys
  rw [map_map]
  exact map_congr_left fun e he => (h.keyed e.1 e.2 (mem_entries_iff.mp he)).1

theorem Held.selected_nodup
    (bound : Nat) : (((s.requests.values.filter keep).take bound).map ActiveRequest.id).Nodup := by
  have hall : (s.requests.values.map ActiveRequest.id).Nodup := h.ids ▸ s.requests.keys_nodup
  exact hall.sublist ((take_sublist _ _).trans filter_sublist |>.map _)

theorem Held.selected {bound : Nat}
    (hid : id ∈ ((s.requests.values.filter keep).take bound).map ActiveRequest.id) :
    ∃ r, s.requests.get id = some r ∧ keep r = true := by
  obtain ⟨r, hr, rfl⟩ := mem_map.mp hid
  obtain ⟨hr, hkeep⟩ := mem_filter.mp (mem_of_mem_take hr)
  obtain ⟨k, hget⟩ := mem_values_iff.mp hr
  obtain ⟨rfl, -⟩ := h.keyed k r hget
  exact ⟨r, hget, hkeep⟩

end

/-! ## Decoding -/

section
variable {input : TickInput τ}
variable {step : BTreeMap Nat ChatFinishReason → Nat × ChatFinishReason → BTreeMap Nat ChatFinishReason}
variable {rest : List (Nat × ChatFinishReason)}

theorem decodeRequest_ensures (hharmless : Harmless (input.faultOf id))
    (h : Held codec argmax calm (Faulty input) ended s) (hget : s.requests.get id = some r)
    (hlive : Live codec argmax (layersOf s) r) (hdecodable : decodable r = true)
    (hplain : Faulty input → r.dflashEnabled = false) (hnew : ∀ reason, (id, reason) ∉ ended) :
    Ensures (decodeRequest codec argmax input id) s
      (fun reason t => Held codec argmax calm (Faulty input)
          ((reason.toList.map fun reason => (id, reason)) ++ ended) t ∧ Onward s t ∧
        (∀ k, k ≠ id → t.requests.get k = s.requests.get k) ∧
        (t.config = s.config ∧ t.hasDflash = s.hasDflash) ∧
        ∃ r', t.requests.get id = some r' ∧ Later r r' ∧ r.history.length < r'.history.length)
      (fun e t => (Reported e ∧ Faulty input) ∧ Held codec argmax False (Faulty input) [] t ∧
        Carried input s t) := by
  have hwaiting := h.not_waiting hget (decodable_iff.mp hdecodable).1
  have hcall := generate_ensures (input.draft id) (input.sampled id) hharmless
    (fun hstruck => hplain ⟨id, hstruck⟩) hlive hdecodable
  refine Ensures.bind ((onRequest_ensures hget hcall).mono (fun _ _ ht => ht) fun e t he => ?_)
    fun reason t ht => ?_
  · obtain ⟨r', ⟨he, hstruck, ⟨hlater, -⟩, hr'⟩, rfl⟩ := he
    have hfaulty : Faulty input := ⟨id, hstruck⟩
    have hheld := h.insert none hget hwaiting hlater hnew (fun _ => hr') (by simp) False.elim
    exact ⟨⟨he, hfaulty⟩, hheld.settle (.inl hfaulty) False.elim, (Onward.insert hget hlater).carried⟩
  obtain ⟨r', ⟨⟨hlater, hsome⟩, hlonger, hdrafted, hgoes, hends⟩, rfl⟩ := ht
  have hheld := h.insert reason hget hwaiting hlater hnew (fun hcase => by
      obtain hnone | hfaulty := hcase
      · exact (hgoes hnone).1
      · cases reason with
        | none => exact (hgoes rfl).1
        | some reason =>
          exact (hends reason rfl).live (.inl (hlater.drafting.trans (hplain hfaulty)))) hends
      (h.lined_insert reason hget (decodable_iff.mp hdecodable).1 hlater
        fun hnone _ _ => (hgoes hnone).2)
  refine get_bind (expect_bind (get_insert_self _ _ _) ?_)
  refine modify_bind (Ensures.pure ?_)
  refine ⟨?_, ?_, ?_, ⟨rfl, rfl⟩, r', ?_, hlater, hlonger⟩
  · refine hheld.report _ (fun q hq => ?_) fun f hf => ?_
    · unfold recordDraft at hq
      split at hq
      · rename_i hdrafting
        obtain hq | hq := mem_append.mp hq
        · exact h.drafted q hq
        · rw [mem_singleton] at hq
          subst hq
          exact hdrafted hdrafting
      · exact h.drafted q hq
    · unfold recordDraft at hf
      split at hf
      · exact h.finished f hf
      · exact h.finished f hf
  · refine (Onward.insert hget hlater).trans (.report rfl ?_)
    unfold recordDraft
    split
    · exact fun _ hf => hf
    · exact fun _ hf => hf
  · exact fun k hk => get_insert_of_ne _ _ hk
  · exact get_insert_self _ _ _

theorem decodeLoop_ensures (hharmless : ∀ id, Harmless (input.faultOf id)) (ids : List Nat)
    (hnodup : ids.Nodup) (h : Held codec argmax calm (Faulty input) ended s)
    (hids : ∀ id ∈ ids, ∃ r, s.requests.get id = some r ∧ Live codec argmax (layersOf s) r ∧
      decodable r = true ∧ (Faulty input → r.dflashEnabled = false) ∧
      ∀ reason, (id, reason) ∉ ended) :
    Ensures (decodeLoop codec argmax input ids) s
      (fun terminal t => Held codec argmax calm (Faulty input) (terminal ++ ended) t ∧ Onward s t ∧
        (∀ k, k ∉ ids → t.requests.get k = s.requests.get k) ∧
        (t.config = s.config ∧ t.hasDflash = s.hasDflash) ∧
        (∀ pair ∈ terminal, pair.1 ∈ ids) ∧
        ∀ id ∈ ids, ∀ r, s.requests.get id = some r →
          ∃ r', t.requests.get id = some r' ∧ Later r r' ∧ r.history.length < r'.history.length)
      (fun e t => (Reported e ∧ Faulty input) ∧ Held codec argmax False (Faulty input) [] t ∧
        Carried input s t) := by
  induction ids generalizing s ended with
  | nil => exact ⟨h, .refl s, fun _ _ => rfl, ⟨rfl, rfl⟩, by simp, by simp⟩
  | cons id rest ih =>
    obtain ⟨hnotin, hrest⟩ := nodup_cons.mp hnodup
    obtain ⟨r, hget, hlive, hdecodable, hplain, hnew⟩ := hids id mem_cons_self
    refine Ensures.bind (decodeRequest_ensures (hharmless id) h hget hlive hdecodable hplain
      hnew) fun reason t ht => ?_
    obtain ⟨hheld, honward, hothers, ⟨hconfig, hdflash⟩, r', hget', hlater, hlonger⟩ := ht
    have hlayers : layersOf t = layersOf s := by rw [layersOf, hdflash, ← layersOf]
    have hnext : ∀ k ∈ rest, k ≠ id := fun k hk heq => hnotin (heq ▸ hk)
    refine Ensures.bind ((ih hrest hheld fun k hk => ?_).mono (fun _ _ hu => hu)
      fun _ _ he => ⟨he.1, he.2.1, honward.carry he.2.2⟩) fun terminal u hu => ?_
    · obtain ⟨q, hq, hqlive, hqdecodable, hqplain, hqnew⟩ := hids k (mem_cons_of_mem _ hk)
      refine ⟨q, (hothers k (hnext k hk)).trans hq, hlayers ▸ hqlive, hqdecodable, hqplain,
        fun other hother => ?_⟩
      obtain hother | hother := mem_append.mp hother
      · obtain ⟨_, -, heq⟩ := mem_map.mp hother
        cases heq
        exact hnotin hk
      · exact hqnew other hother
    obtain ⟨hheld', honward', hothers', ⟨hconfig', hdflash'⟩, hin, hlonger'⟩ := hu
    refine Ensures.pure ⟨hheld'.congr fun pair => ?_, honward.trans honward', fun k hk => ?_,
      ⟨hconfig'.trans hconfig, hdflash'.trans hdflash⟩, fun pair hpair => ?_, fun k hk q hq => ?_⟩
    · simp only [mem_append]
      tauto
    · rw [mem_cons, not_or] at hk
      exact (hothers' k hk.2).trans (hothers k hk.1)
    · obtain hpair | hpair := mem_append.mp hpair
      · obtain ⟨_, -, rfl⟩ := mem_map.mp hpair
        exact mem_cons_self
      · exact mem_cons_of_mem _ (hin pair hpair)
    · obtain rfl | hk := mem_cons.mp hk
      · rw [hget] at hq
        cases hq
        exact ⟨r', (hothers' k hnotin).trans hget', hlater, hlonger⟩
      · exact hlonger' k hk q ((hothers k (hnext k hk)).trans hq)

/-! ## Prefill -/

theorem Held.running (h : Held codec argmax calm faulty ended s) (hget : s.requests.get id = some r)
    (hposition : r.promptPosition < r.prompt.length) (hmore : r.generation.maxNewTokens ≠ 0) :
    Live codec argmax (layersOf s) r ∧ ∀ reason, (id, reason) ∉ ended := by
  have hnew : ∀ reason, (id, reason) ∉ ended := by
    intro reason hreason
    obtain ⟨q, hq, hover⟩ := h.stopped id reason hreason
    rw [hget] at hq
    cases hq
    obtain hend | hempty := hover.position
    · omega
    · exact hmore hempty
  obtain hlive | ⟨-, reason, hreason⟩ := h.live id r hget
  · exact ⟨hlive, hnew⟩
  · exact absurd hreason (hnew reason)

theorem prefillLoop_ensures (hharmless : ∀ id, Harmless (input.faultOf id)) (ids : List Nat)
    (budget : Nat) (hnodup : ids.Nodup) (h : Held codec argmax calm (Faulty input) ended s)
    (hids : ∀ id ∈ ids, ∃ r, s.requests.get id = some r ∧ r.sequence.isSome = true ∧
      r.promptPosition < r.prompt.length ∧ r.generation.maxNewTokens ≠ 0) :
    Ensures (prefillLoop input ids budget) s
      (fun _ t => Held codec argmax calm (Faulty input) ended t ∧ Onward s t ∧
        ∀ id r, ids.head? = some id → 0 < budget → s.requests.get id = some r →
          ∃ r', Later r r' ∧ r.promptPosition < r'.promptPosition ∧
            (t.requests.get id = some r' ∨
              t.requests.get id = none ∧ ∃ reason, (r', reason) ∈ t.tick.finished))
      (fun e t => (Reported e ∧ Faulty input) ∧ Held codec argmax False (Faulty input) [] t ∧
        Carried input s t) := by
  induction ids generalizing s budget with
  | nil => exact ⟨h, .refl s, by simp⟩
  | cons id rest ih =>
    obtain ⟨hnotin, hrest⟩ := nodup_cons.mp hnodup
    obtain ⟨r, hget, hadmitted, hposition, hmore⟩ := hids id mem_cons_self
    obtain ⟨hlive, hnew⟩ := h.running hget hposition hmore
    have hwaiting := h.not_waiting hget hadmitted
    have hnext : ∀ k ∈ rest, k ≠ id := fun k hk heq => hnotin (heq ▸ hk)
    refine get_bind (expect_bind hget ?_)
    have hle := prefillRows_le r ((budget + rest.length) / (rest.length + 1))
    have hfed : 0 < budget → 0 < prefillRows r ((budget + rest.length) / (rest.length + 1)) :=
      fun hbudget => prefillRows_pos (Nat.div_pos (by omega) (Nat.succ_pos _)) hposition
    dsimp only
    generalize prefillRows r ((budget + rest.length) / (rest.length + 1)) = chunk at hle hfed ⊢
    split
    · refine (ih budget hrest h fun k hk => hids k (mem_cons_of_mem _ hk)).imp fun _ t ht => ?_
      exact ⟨ht.1, ht.2.1, fun _ _ _ hbudget => absurd (hfed hbudget) (by omega)⟩
    have hcall := prefill_ensures s.retainsPrefixes (hharmless id) hlive hadmitted hposition
      (Nat.pos_of_ne_zero ‹_›) (by omega)
    refine Ensures.bind ((onRequest_ensures hget hcall).mono (fun _ _ ht => ht) fun e t he => ?_)
      fun _ t ht => ?_
    · obtain ⟨r', ⟨he, hstruck, ⟨hlater, -⟩, hr'⟩, rfl⟩ := he
      have hfaulty : Faulty input := ⟨id, hstruck⟩
      have hheld := h.insert none hget hwaiting hlater hnew (fun _ => hr') (by simp) False.elim
      exact ⟨⟨he, hfaulty⟩, hheld.settle (.inl hfaulty) False.elim,
        (Onward.insert hget hlater).carried⟩
    obtain ⟨r', ⟨⟨hlater, -⟩, hr', hmoved, hfirst⟩, rfl⟩ := ht
    have hheld := h.insert none hget hwaiting hlater hnew (fun _ => hr') (by simp)
      (h.lined_insert none hget hadmitted hlater fun _ _ hne => by omega)
    refine modify_bind ?_
    have hreported := hheld.report (fun tick => { tick with
      prefilled := tick.prefilled ++ [(id, r.promptPosition + chunk)] }) h.drafted h.finished
    have honward : Onward s { s with
        requests := s.requests.insert id r'
        tick := { s.tick with
          prefilled := s.tick.prefilled ++ [(id, r.promptPosition + chunk)] } } :=
      (Onward.insert hget hlater).trans (.report rfl fun _ hf => hf)
    refine (ih (budget - chunk) hrest hreported fun k hk => ?_).mono (fun _ t ht => ?_)
      fun _ _ he => ⟨he.1, he.2.1, honward.carry he.2.2⟩
    · obtain ⟨q, hq, hrunning⟩ := hids k (mem_cons_of_mem _ hk)
      exact ⟨q, (get_insert_of_ne _ _ (hnext k hk)).trans hq, hrunning⟩
    · refine ⟨ht.1, honward.trans ht.2.1, fun k q hk _ hq => ?_⟩
      obtain rfl := Option.some.inj hk
      rw [hget] at hq
      cases hq
      obtain ⟨r'', hlater', hr''⟩ := ht.2.1.requests id r' (get_insert_self _ _ _)
      have hfurther := hlater'.position (hlater.admitted hadmitted)
      exact ⟨r'', hlater.trans hlater', by omega, hr''⟩

/-! ## The finish -/

theorem mem_emptyRequests (h : Held codec argmax calm faulty ended s) :
    (id, reason) ∈ emptyRequests s ↔ reason = .length ∧ ∃ r, s.requests.get id = some r ∧
      r.sequence.isSome = true ∧ r.generation.maxNewTokens = 0 := by
  unfold emptyRequests
  simp only [mem_map, mem_filter, mem_values_iff, Bool.and_eq_true,
    decide_eq_true_eq, Prod.mk.injEq]
  constructor
  · rintro ⟨r, ⟨⟨k, hget⟩, hadmitted, hempty⟩, rfl, rfl⟩
    obtain ⟨hid, -⟩ := h.keyed k r hget
    exact ⟨rfl, r, hid ▸ hget, hadmitted, hempty⟩
  · rintro ⟨rfl, r, hget, hadmitted, hempty⟩
    exact ⟨r, ⟨⟨id, hget⟩, hadmitted, hempty⟩, (h.keyed id r hget).1, rfl⟩

theorem Held.taken
    (h : Held codec argmax calm faulty ((id, reason) :: rest) s) (hwaiting : id ∉ s.waiting)
    (hnotin : id ∉ rest.map Prod.fst) :
    Held codec argmax calm faulty rest { s with requests := s.requests.erase id } := { h with
  keyed k q hq := by
    rw [get_erase] at hq
    split at hq
    · cases hq
    · exact h.keyed k q hq
  waiting k hk := by
    obtain ⟨q, hq, hnone⟩ := h.waiting k hk
    have hne : k ≠ id := fun heq => hwaiting (heq ▸ hk)
    exact ⟨q, (get_erase_of_ne _ hne).trans hq, hnone⟩
  live k q hq := by
    rw [get_erase] at hq
    split at hq
    · cases hq
    · rename_i hk
      refine (h.live k q hq).imp_right fun ⟨hquiet, other, hother⟩ => ⟨hquiet, other, ?_⟩
      obtain heq | hother := mem_cons.mp hother
      · exact absurd (congrArg Prod.fst heq).symm hk
      · exact hother
  stopped k other hother := by
    obtain ⟨q, hq, hover⟩ := h.stopped k other (mem_cons_of_mem _ hother)
    have hne : k ≠ id := fun heq => hnotin (mem_map.mpr ⟨_, hother, heq⟩)
    exact ⟨q, (get_erase_of_ne _ hne).trans hq, hover⟩
  lined hcalm := (h.lined hcalm).erase (.refl _) (fun _ hk _ => hk) fun k other hother hk =>
    (mem_cons.mp hother).resolve_left fun heq => hk (congrArg Prod.fst heq) }

theorem finishRequest_ensures (h : Held codec argmax calm (Faulty input) ((id, reason) :: rest) s)
    (hnotin : id ∉ rest.map Prod.fst) :
    Ensures (finishRequest codec input id reason) s
      (fun _ t => Held codec argmax calm (Faulty input) rest t ∧ Onward s t ∧
        ∀ k q, t.requests.get k = some q → k ≠ id ∧ s.requests.get k = some q)
      (fun e t => (Reported e ∧ Faulty input) ∧ Held codec argmax False (Faulty input) [] t ∧
        Carried input s t) := by
  obtain ⟨r, hget, hover⟩ := h.stopped id reason mem_cons_self
  obtain ⟨q, hsequence⟩ := Option.isSome_iff_exists.mp hover.admitted
  refine get_bind (expect_bind hget ?_)
  refine (finishOutput_ensures fun _ he hfaulty => ⟨⟨he, hfaulty⟩, h.settle (.inl hfaulty) False.elim,
    (Onward.refl s).carried⟩).bind fun reported t ht => ?_
  obtain ⟨hreported, rfl⟩ := ht
  refine modify_bind (expect_bind hsequence ?_)
  have hheld := h.taken (h.not_waiting hget hover.admitted) hnotin
  have hothers : ∀ {k p}, t.requests.get k = some p → k ≠ id →
      (t.requests.erase id).get k = some p := fun hp hk => (get_erase_of_ne _ hk).trans hp
  refine Ensures.bind (reach_ensures (P := fun _ u => u = _) rfl fun hfault => ?_) fun _ u hu => ?_
  · have hfaulty : Faulty input := ⟨id, _, hfault, by simp [admissionSite]⟩
    refine ⟨⟨⟨_, rfl⟩, hfaulty⟩, hheld.settle (.inl hfaulty) False.elim, fun _ hf => hf,
      fun k p hp => ⟨p, .refl p, ?_⟩⟩
    by_cases hk : k = id
    · exact .inr (.inr (hk ▸ fault_of_faultOf hfault))
    · exact .inl (hothers hp hk)
  subst hu
  refine Ensures.modify ?_
  refine ⟨hheld.report (fun tick => { tick with finished := tick.finished ++ [(r, reported)] })
    h.drafted fun f hf => ?_, ⟨fun f hf => ?_, fun k hk => ?_, fun k p hp => ?_⟩, fun k p hp => ?_⟩
  · obtain hf | hf := mem_append.mp hf
    · exact h.finished f hf
    · rw [mem_singleton] at hf
      subst hf
      intro hdrafting
      obtain ⟨ended, hstreamed, hended⟩ := hover.streamed hdrafting
      exact ⟨ended, hstreamed, by rw [hreported, hended]⟩
  · exact mem_append_left _ hf
  · rw [get_erase]
    split
    · rfl
    · exact hk
  · by_cases hk : k = id
    · subst hk
      rw [hget] at hp
      cases hp
      exact ⟨r, .refl r, .inr ⟨get_erase_self _ _, reported, by simp⟩⟩
    · exact ⟨p, .refl p, .inl (hothers hp hk)⟩
  · rw [get_erase] at hp
    split at hp
    · cases hp
    · rename_i hk
      exact ⟨fun heq => hk heq.symm, hp⟩

theorem get_collected
    (hstep : ∀ m e, (step m e).get id = some reason → m.get id = some reason ∨ (id, reason) = e)
    (l : List (Nat × ChatFinishReason)) (m : BTreeMap Nat ChatFinishReason)
    (h : (l.foldl step m).get id = some reason) : m.get id = some reason ∨ (id, reason) ∈ l := by
  induction l generalizing m with
  | nil => exact .inl h
  | cons e l ih =>
    obtain h | h := ih (step m e) h
    · obtain h | rfl := hstep m e h
      · exact .inl h
      · exact .inr mem_cons_self
    · exact .inr (mem_cons_of_mem _ h)

theorem isSome_collected
    (hstep : ∀ m e, (m.get id).isSome = true ∨ e.1 = id → ((step m e).get id).isSome = true)
    (l : List (Nat × ChatFinishReason)) (m : BTreeMap Nat ChatFinishReason)
    (h : (m.get id).isSome = true ∨ ∃ reason, (id, reason) ∈ l) :
    ((l.foldl step m).get id).isSome = true := by
  induction l generalizing m with
  | nil => simpa using h
  | cons e l ih =>
    refine ih (step m e) ?_
    obtain h | ⟨reason, h⟩ := h
    · exact .inl (hstep m e (.inl h))
    · obtain h | h := mem_cons.mp h
      · exact .inl (hstep m e (.inr (by rw [← h])))
      · exact .inr ⟨reason, h⟩

theorem get_terminalRequests {ended empty : List (Nat × ChatFinishReason)}
    (h : (terminalRequests ended empty).get id = some reason) :
    (id, reason) ∈ ended ∨ (id, reason) ∈ empty := by
  have hinsert : ∀ (m : BTreeMap Nat ChatFinishReason) (e : Nat × ChatFinishReason),
      (m.insert e.1 e.2).get id = some reason → m.get id = some reason ∨ (id, reason) = e := by
    intro m e hget
    rw [get_insert] at hget
    split at hget
    · rename_i hid
      cases hget
      subst hid
      exact .inr rfl
    · exact .inl hget
  obtain h | h := get_collected (fun m e hget => by
    split at hget
    · exact .inl hget
    · exact hinsert m e hget) _ _ h
  · obtain h | h := get_collected hinsert _ _ h
    · cases h
    · exact .inl h
  · exact .inr h

theorem isSome_terminalRequests {empty : List (Nat × ChatFinishReason)}
    (h : (∃ reason, (id, reason) ∈ ended) ∨ ∃ reason, (id, reason) ∈ empty) :
    ((terminalRequests ended empty).get id).isSome = true := by
  have hinsert : ∀ (m : BTreeMap Nat ChatFinishReason) (e : Nat × ChatFinishReason),
      (m.get id).isSome = true ∨ e.1 = id → ((m.insert e.1 e.2).get id).isSome = true := by
    intro m e hor
    rw [get_insert]
    split
    · rfl
    · rename_i hne
      exact hor.resolve_right hne
  refine isSome_collected (fun m e hor => ?_) _ _
    (h.imp_left fun hended => isSome_collected hinsert _ _ (.inr hended))
  split
  · rename_i hcontains
    obtain hor | rfl := hor
    · exact hor
    · exact hcontains
  · exact hinsert m e hor

theorem mem_terminalRequests {empty : List (Nat × ChatFinishReason)}
    (h : (∃ reason, (id, reason) ∈ ended) ∨ ∃ reason, (id, reason) ∈ empty) :
    ∃ reason, (id, reason) ∈ (terminalRequests ended empty).entries := by
  obtain ⟨reason, hreason⟩ := Option.isSome_iff_exists.mp (isSome_terminalRequests h)
  exact ⟨reason, mem_entries_iff.mpr hreason⟩

theorem Held.terminal (h : Held codec argmax calm faulty ended s) :
    Held codec argmax calm faulty (terminalRequests ended (emptyRequests s)).entries s := { h with
  live id r hr := by
    refine (h.live id r hr).imp_right fun ⟨hquiet, hended⟩ => ⟨hquiet, ?_⟩
    exact mem_terminalRequests (.inl hended)
  stopped id reason hreason := by
    obtain hended | hempty := get_terminalRequests (mem_entries_iff.mp hreason)
    · exact h.stopped id reason hended
    · obtain ⟨rfl, r, hget, hadmitted, hnone⟩ := (mem_emptyRequests h).mp hempty
      refine ⟨r, hget, ?_⟩
      obtain hlive | ⟨-, other, hother⟩ := h.live id r hget
      · exact over_empty hlive hadmitted hnone
      · obtain ⟨q, hq, hover⟩ := h.stopped id other hother
        rw [hget] at hq
        cases hq
        exact over_empty (hover.live (.inr hnone)) hadmitted hnone
  lined hcalm := { h.lined hcalm with
    unfinished := fun id r hr hsome hend hne =>
      ((h.lined hcalm).unfinished id r hr hsome hend hne).imp_right fun hended =>
        mem_terminalRequests (.inl hended) } }

theorem finishLoop_ensures (terminal : BTreeMap Nat ChatFinishReason)
    (h : Held codec argmax calm (Faulty input) terminal.entries s) :
    Ensures (terminal.entries.forM fun entry => finishRequest codec input entry.1 entry.2) s
      (fun _ t => Held codec argmax calm (Faulty input) [] t ∧ Onward s t ∧
        ∀ k q, t.requests.get k = some q → s.requests.get k = some q ∧
          ∀ reason, (k, reason) ∉ terminal.entries)
      (fun e t => (Reported e ∧ Faulty input) ∧ Held codec argmax False (Faulty input) [] t ∧
        Carried input s t) := by
  refine (Ensures.forM (I := fun rest t => Held codec argmax calm (Faulty input) rest t ∧
    Onward s t ∧ (rest.map Prod.fst).Nodup ∧ ∀ k q, t.requests.get k = some q →
      s.requests.get k = some q ∧ ∀ reason, (k, reason) ∈ terminal.entries → (k, reason) ∈ rest)
    ?_ ⟨h, .refl s, terminal.keys_nodup, fun _ _ hq => ⟨hq, fun _ hreason => hreason⟩⟩).imp
      fun _ t ht => ⟨ht.1, ht.2.1, fun k q hq => ⟨(ht.2.2.2 k q hq).1, fun reason hreason => ?_⟩⟩
  · rintro ⟨id, reason⟩ rest t ⟨hheld, honward, hnodup, hleft⟩
    rw [map_cons, nodup_cons] at hnodup
    refine (finishRequest_ensures hheld hnodup.1).mono (fun _ u hu => ?_)
      fun _ _ he => ⟨he.1, he.2.1, honward.carry he.2.2⟩
    refine ⟨hu.1, honward.trans hu.2.1, hnodup.2, fun k q hq => ?_⟩
    obtain ⟨hk, hq⟩ := hu.2.2 k q hq
    refine ⟨(hleft k q hq).1, fun other hother => ?_⟩
    exact (mem_cons.mp ((hleft k q hq).2 other hother)).resolve_left fun heq =>
      hk (congrArg Prod.fst heq)
  · cases (ht.2.2.2 k q hq).2 reason hreason

/-! ## Admission -/

/-- One turn of the admission loop; the request has been taken from the queue. -/
theorem admitRequest_ensures (h : Held codec argmax False (Faulty input) [] s)
    (hlined : calm → Lined [] { s with waiting := id :: s.waiting })
    (hrestores : Restores input s) (hget : s.requests.get id = some r) (hnone : r.sequence = none)
    (hwaiting : id ∉ s.waiting) :
    Ensures (admitRequest input id) s
      (fun _ t => Held codec argmax calm (Faulty input) [] t ∧ Admitting s t ∧
        (input.admission id ≠ none → ∃ r', t.requests.get id = some r' ∧ r'.sequence.isSome = true))
      (fun e t => (Reported e ∧ input.fault ≠ none) ∧ Held codec argmax False (Faulty input) [] t ∧
        Admitting s t) := by
  have hreach : ∀ site call, Ensures (reach (input.faultOf id) site call : Serving τ ω Unit) s
      (fun _ t => t = s) (fun e t => (Reported e ∧ input.fault ≠ none) ∧
        Held codec argmax False (Faulty input) [] t ∧ Admitting s t) :=
    fun site call => reach_ensures rfl fun hfault =>
      ⟨⟨⟨_, rfl⟩, fun hno => by simp [faultOf_none hno] at hfault⟩, h, .of_requests rfl rfl rfl rfl⟩
  refine get_bind (expect_bind hget ?_)
  refine (hreach _ _).bind fun _ t ht => ?_
  subst ht
  refine (hreach _ _).bind fun _ u hu => ?_
  subst hu
  refine (hreach _ _).bind fun _ t ht => ?_
  subst ht
  cases hcached : input.admission id with
  | none =>
    have hheld : Held codec argmax calm (Faulty input) [] { t with waiting := id :: t.waiting } := by
      refine { h with
        waiting := fun k hk => ?_
        once := nodup_cons.mpr ⟨hwaiting, h.once⟩
        lined := hlined }
      obtain rfl | hk := mem_cons.mp hk
      · exact ⟨r, hget, hnone⟩
      · exact h.waiting k hk
    exact set_bind (Ensures.pure ⟨hheld, .of_requests rfl rfl rfl rfl, fun hne => absurd rfl hne⟩)
  | some cached =>
    refine (hreach _ _).bind fun _ u hu => ?_
    subst hu
    have hrestored := hrestores id r cached hget hcached
    obtain hlive | ⟨-, _, hended⟩ := h.live id r hget
    · have hlater : Later r (admittedRequest u.hasDflash cached r) :=
        ⟨rfl, rfl, rfl, rfl, rfl, prefix_rfl, fun _ => rfl, fun hsome => by rw [hnone] at hsome; cases hsome⟩
      have hheld : Held codec argmax calm (Faulty input) [] { u with
          requests := u.requests.insert id (admittedRequest u.hasDflash cached r) } :=
        h.insert none hget hwaiting hlater (by simp)
          (fun _ => live_admitted hlive hnone hrestored) (by simp) fun hcalm => by
            have hsorted := pairwise_cons.mp (hlined hcalm).sorted
            refine (hlined hcalm).insert none (sublist_cons_self _ _) (fun _ => mem_cons.mp)
              hsorted.1 rfl fun _ hend _ => ?_
            simp only [admittedRequest] at hend
            omega
      have hcall : Ensures (modify (admittedRequest u.hasDflash cached) : Requesting τ ω Unit) r
          (fun _ r' => r' = admittedRequest u.hasDflash cached r) fun _ _ => False :=
        Ensures.modify rfl
      refine Ensures.bind ((onRequest_ensures hget hcall).mono (fun _ _ ht => ht)
        fun _ _ he => he.choose_spec.1.elim) fun _ t ht => ?_
      obtain ⟨r', rfl, rfl⟩ := ht
      refine Ensures.pure ⟨hheld, ⟨rfl, rfl, rfl, fun k hk => ?_, fun k q hq => ?_⟩,
        fun _ => ⟨_, get_insert_self _ _ _, rfl⟩⟩
      · have hne : k ≠ id := by
          intro heq
          rw [heq, hget] at hk
          cases hk
        exact (get_insert_of_ne _ _ hne).trans hk
      · by_cases hk : k = id
        · subst hk
          rw [hget] at hq
          cases hq
          refine ⟨_, get_insert_self _ _ _, hlater, .inr ⟨hnone, ?_⟩⟩
          have hne : cached ≠ r.prompt.length := by omega
          simp [decodable, admittedRequest, hne]
        · exact ⟨q, (get_insert_of_ne _ _ hk).trans hq, .refl q, .inl rfl⟩
    · cases hended

theorem admitLoop_ensures (turns : Nat) (h : Held codec argmax calm (Faulty input) [] s)
    (hrestores : Restores input s) :
    Ensures (admitLoop input turns) s
      (fun _ t => Held codec argmax calm (Faulty input) [] t ∧ Admitting s t ∧
        ∀ id, 0 < turns → s.waiting.head? = some id →
          s.activeSequences < s.config.maxActiveSequences → input.admission id ≠ none →
            ∃ r', t.requests.get id = some r' ∧ r'.sequence.isSome = true)
      (fun e t => (Reported e ∧ input.fault ≠ none) ∧ Held codec argmax False (Faulty input) [] t ∧
        Admitting s t) := by
  induction turns generalizing s with
  | zero => exact ⟨h, .of_requests rfl rfl rfl rfl, by simp⟩
  | succ turns ih =>
    refine get_bind ?_
    split
    · split
      · rename_i hwaiting
        exact ⟨h, .of_requests rfl rfl rfl rfl, by simp [hwaiting]⟩
      · rename_i id rest hwaiting
        have honce := h.once
        rw [hwaiting, nodup_cons] at honce
        obtain ⟨r, hget, hnone⟩ := h.waiting id (hwaiting ▸ mem_cons_self)
        have hpopped : Held codec argmax False (Faulty input) [] { s with waiting := rest } :=
          { h with
            waiting := fun k hk => h.waiting k (hwaiting ▸ mem_cons_of_mem _ hk)
            once := honce.2
            lined := False.elim }
        have hfirst : Admitting s { s with waiting := rest } := .of_requests rfl rfl rfl rfl
        refine set_bind (Ensures.bind ((admitRequest_ensures hpopped (fun hcalm : calm => ?_)
          (hrestores.onward hfirst) hget hnone honce.1).mono (fun _ _ ht => ht)
            fun _ _ he => ⟨he.1, he.2.1, hfirst.trans he.2.2⟩) fun goesOn t ht => ?_)
        · have hlined := h.lined hcalm
          exact ⟨hlined.valid, hwaiting ▸ hlined.queued, hwaiting ▸ hlined.sorted, hwaiting ▸ hlined.ahead,
            hlined.unfinished⟩
        obtain ⟨hheld, hadmitting, hhead⟩ := ht
        have hsofar := hfirst.trans hadmitting
        split
        · refine (ih hheld (hrestores.onward hsofar)).mono (fun _ u hu => ?_)
            fun _ _ he => ⟨he.1, he.2.1, hsofar.trans he.2.2⟩
          refine ⟨hu.1, hsofar.trans hu.2.1, fun k _ hk _ hgranted => ?_⟩
          rw [hwaiting] at hk
          cases hk
          obtain ⟨r', hr', hsome⟩ := hhead hgranted
          obtain ⟨r'', hr'', hlater, -⟩ := hu.2.1.requests id r' hr'
          exact ⟨r'', hr'', hlater.admitted hsome⟩
        · refine ⟨hheld, hsofar, fun k _ hk _ hgranted => ?_⟩
          rw [hwaiting] at hk
          cases hk
          exact hhead hgranted
    · rename_i hfull
      exact ⟨h, .of_requests rfl rfl rfl rfl, fun _ _ _ hroom => absurd hroom hfull⟩

end

end

end Eider.Guarantees.MusePhases
