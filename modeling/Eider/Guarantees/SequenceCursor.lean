import Eider.Guarantees.CursorDecision
import Eider.Lib.Run

/-!
The sequence of every admitted unfinished request stands where the request's own cursor
says, in every state that the Qwen3.6 scheduler reaches, as long as nothing fails behind
the commit of a decode batch, of a verified block or of the first row of a batch.

Where something does fail there, the phase requeues the requests at their old cursors
while the sequences have moved, and the next tick appends the same token again.
-/
namespace Eider.Guarantees.SequenceCursor
open Lib Lib.ByteReader Lib.Run Source Source.Qwen36 List Ensures
open Guarantees.BatchAtomicity Guarantees.SchedulerLedger
open Guarantees.CursorDecode Guarantees.CursorSubmit Guarantees.CursorPrefill
open Guarantees.CursorDecision

variable {n words : Nat} {β κ φ C R K : Type}

/-! ## Calls -/

section
variable {model : TextModel n β κ φ C R K} {input : TickInput φ} {s : Scheduler n β φ C K}

theorem tick_ensures (htimely : Timely input) (hmodel : Selectable model)
    (h : Sound (vocabWords model) s) :
    Ensures (tick model input) s (fun _ => Sound (vocabWords model))
      (OnFailure (Sound (vocabWords model))) := by
  apply Ensures.modify_bind
  refine Ensures.bind (admitWaiting_ensures h) fun _ t ht => ?_
  refine (runDecodePhase_ensures htimely hmodel ht).bind fun _ u hu => ?_
  exact (runPrefillPhase_ensures htimely hu).bind fun _ v hv => runDecisionPhase_ensures hv

variable {P : Scheduler n β φ C K → Prop} {grammar : Option (ToolGrammar K)}

theorem nextRequestId_bind {γ : Type} {label : String} {f : Nat → Scheduling n β φ C K γ}
    {Q : γ → Scheduler n β φ C K → Prop}
    (hok : Ensures (f s.nextId) { s with nextId := s.nextId + 1 } Q (OnFailure P)) (hfailed : P s) :
    Ensures (nextRequestId label >>= f) s Q (OnFailure P) := by
  unfold nextRequestId
  rw [bind_assoc]
  apply get_bind
  split
  · exact hok
  · exact hfailed

theorem newRequest_settled {pool : BTreeMap Nat (Sequence n β)} {id : Nat}
    {promptTokens : List Nat} {config : RequestConfig}
    (hgrammar : ∀ g, grammar = some g → g.maskWords = words) :
    Settled words pool (newRequest id promptTokens config grammar : Request K φ) := by
  refine ⟨⟨fun _ => ⟨rfl, rfl, rfl⟩, fun hdecoding => ?_, fun hstarted => ?_, hgrammar⟩,
    fun _ sequenceId hsome => ?_⟩
  · unfold newRequest at hdecoding
    split at hdecoding <;> cases hdecoding
  · cases hstarted
  · cases hsome

theorem addRequest_ensures {promptTokens : List Nat} {config : RequestConfig}
    (hgrammar : ∀ g, grammar = some g → g.maskWords = words) (h : Sound words s) :
    Ensures (addRequest model promptTokens config grammar) s (fun _ => Sound words)
      (OnFailure (Sound words)) := by
  have hjoined := h.join (r := newRequest s.nextId promptTokens config grammar) rfl rfl
  have hput := hjoined.put (newRequest_settled hgrammar)
  have hnew : s.nextId ∉ (booksOf s).queues := fun hmem => Nat.lt_irrefl _ (h.known _ hmem)
  apply Ensures.get_bind
  refine attempt_bind (fun _ _ => ?_) h
  refine nextRequestId_bind ?_ h
  apply Ensures.modify_bind
  split
  · exact Ensures.pure hput
  · rename_i hempty
    apply Ensures.modify_bind
    have hperm : ((booksOf s).waiting ++ [s.nextId] ++ (booksOf s).prefilling ++
        (booksOf s).decoding).Perm (s.nextId :: (booksOf s).queues) :=
      ((perm_append_singleton s.nextId (booksOf s).waiting).append_right _).append_right _
    refine Ensures.pure (hput.enqueue (BTreeMap.get_insert_self _ _ _) hnew hperm
      (fun other hother => ?_) (fun _ hother => .inl hother) fun _ hother => .inl hother)
    obtain hother | hother := mem_append.mp hother
    · exact .inl hother
    · exact .inr ⟨mem_singleton.mp hother, if_neg hempty, rfl⟩

theorem attempt_ensures {σ : Type} {t : σ} {result : Except CudaError Unit} {P : σ → Prop} (h : P t) :
    Ensures (attempt result) t (fun _ => P) (OnFailure P) := by
  cases result with
  | ok _ => exact h
  | error e => exact h

theorem checkDecisionBranch_ensures {σ : Type} {t : σ} {config : SchedulerConfig}
    {request : DecisionRequest} {branch : DecisionBranch} {P : σ → Prop} (h : P t) :
    Ensures (checkDecisionBranch model config request branch) t (fun _ => P) (OnFailure P) := by
  refine attempt_bind (fun _ _ => ?_) h
  refine attempt_bind (fun _ _ => ?_) h
  refine attempt_bind (fun _ _ => ?_) h
  split
  · exact trivial
  · refine attempt_bind (fun _ _ => ?_) h
    refine attempt_bind (fun _ _ => ?_) h
    exact attempt_ensures h

theorem addDecision_ensures {request : DecisionRequest} (h : Sound words s) :
    Ensures (addDecision model request) s (fun _ => Sound words) (OnFailure (Sound words)) := by
  have hchecked : Ensures (request.branches.forM (checkDecisionBranch model s.config request)) s
      (fun _ t => Sound words t) (OnFailure (Sound words)) :=
    Ensures.forM (I := fun _ t => Sound words t)
      (fun branch rest t ht => checkDecisionBranch_ensures ht) h
  apply get_bind
  refine attempt_bind (fun _ _ => ?_) h
  refine hchecked.bind fun _ t ht => ?_
  refine nextRequestId_bind ?_ ht
  apply Ensures.modify_bind
  exact ht.joinGroup t.nextId rfl

theorem prepareDecisionReadout_ensures {tokenIds : List Nat} (h : Sound words s) :
    Ensures (prepareDecisionReadout model tokenIds) s (fun _ => Sound words)
      (OnFailure (Sound words)) := by
  apply get_bind
  split
  · exact h
  · exact attempt_bind (fun _ _ => h) h

theorem releaseCancelled_ensures {sequenceId : Nat} {r : Request K φ}
    (h : Ledger words (booksOf s) [r] []) (hid : r.sequenceId = some sequenceId) :
    Ensures (releaseCancelled model sequenceId) s (fun _ => Sound words) (OnFailure P) := by
  apply get_bind
  split
  · exact sound_of_ledger h
  · have hheld : sequenceId ∈ heldSequences [r] [] :=
      mem_append_left _ (mem_filterMap.mpr ⟨r, mem_cons_self, hid⟩)
    exact sound_of_ledger (h.eraseSequence hheld)

theorem cancelRequest_ensures {id : Nat} (h : Sound words s) :
    Ensures (cancelRequest model id) s (fun _ => Sound words) (OnFailure (Sound words)) := by
  apply get_bind
  split
  · rename_i group hget
    apply set_bind
    exact releaseDecisionGroup_ensures ⟨h.takeGroup hget, BTreeMap.get_erase_self _ _⟩
  · split
    · exact h
    · rename_i request hget
      split
      · exact h
      · apply set_bind
        have hunqueued := h.unqueue id
        have hnew : id ∉ Books.queues { booksOf s with
            waiting := s.waiting.filter fun queued => queued ≠ id
            prefilling := s.prefilling.filter fun queued => queued ≠ id
            decoding := s.decoding.filter fun queued => queued ≠ id } := by
          simp [Books.queues]
        obtain ⟨htaken, -, -⟩ := hunqueued.take hget hnew
        split
        · exact sound_of_ledger htaken
        · rename_i sequenceId hid
          exact releaseCancelled_ensures htaken hid

theorem removeFinished_ensures {id : Nat} (h : Sound words s) :
    Ensures (removeFinished id) s (fun _ => Sound words) (OnFailure P) := by
  refine Ensures.modify ?_
  split
  · rename_i request hget
    split
    · rename_i hfinished
      have hnew : id ∉ (booksOf s).queues := by
        intro hmem
        simp only [Books.queues, mem_append] at hmem
        obtain (hmem | hmem) | hmem := hmem
        · have hlifecycle := (h.waiting id hmem request hget).1
          rw [hfinished] at hlifecycle
          cases hlifecycle
        · have hlifecycle := h.prefilling id hmem request hget
          rw [hfinished] at hlifecycle
          cases hlifecycle
        · have hlifecycle := h.decoding id hmem request hget
          rw [hfinished] at hlifecycle
          cases hlifecycle
      obtain ⟨htaken, -, -⟩ := h.take hget hnew
      exact sound_of_ledger htaken
    · exact h
  · exact h

end

/-! ## Runs -/

section
variable {model : TextModel n β κ φ C R K} {s : Scheduler n β φ C K}

/-- Nothing fails behind a commit, and a tool grammar masks the vocabulary of the model. -/
def Punctual (model : TextModel n β κ φ C R K) (_ : Scheduler n β φ C K) : Action K φ → Prop
  | .tick input => Timely input
  | .addRequest _ _ grammar => ∀ g, grammar = some g → g.maskWords = vocabWords model
  | _ => True

theorem call_ensures {action : Action K φ} (hmodel : Selectable model)
    (hpunctual : Punctual model s action) (h : Sound (vocabWords model) s) :
    Ensures (action.call model) s (fun _ => Sound (vocabWords model))
      (OnFailure (Sound (vocabWords model))) := by
  cases action with
  | addRequest promptTokens config grammar =>
    exact (addRequest_ensures hpunctual h).bind fun _ _ ht => ht
  | addDecision request => exact (addDecision_ensures h).bind fun _ _ ht => ht
  | prepareDecisionReadout tokenIds => exact prepareDecisionReadout_ensures h
  | tick input => exact tick_ensures hpunctual hmodel h
  | cancelRequest id => exact cancelRequest_ensures h
  | removeFinished id => exact removeFinished_ensures h

theorem step_sound {s t : Scheduler n β φ C K} {action : Action K φ} (hmodel : Selectable model)
    (h : Sound (vocabWords model) s) (hpunctual : Punctual model s action)
    (hstep : step model s action = some t) : Sound (vocabWords model) t := by
  have hcall := call_ensures hmodel hpunctual h
  unfold step at hstep
  unfold Ensures at hcall
  split at hstep
  · rename_i heq
    rw [heq] at hcall
    cases hstep
    exact hcall
  · rename_i heq
    rw [heq] at hcall
    cases hstep
    exact hcall
  · cases hstep

theorem new_sound {config : SchedulerConfig} {cache : C}
    (h : Scheduler.new config cache = .ok s) : Sound words s := by
  obtain ⟨_, -, h⟩ := bind_ok h
  obtain ⟨_, -, h⟩ := bind_ok h
  cases h
  exact {
    keyed := fun id r hget => by cases hget
    ids := nodup_nil
    fresh := fun r hr => by cases hr
    queued := nodup_nil
    known := fun id hid => by cases hid
    apart := fun r hr => by cases hr
    waiting := fun id hid => by cases hid
    prefilling := fun id hid => by cases hid
    decoding := fun id hid => by cases hid
    owned := nodup_nil
    live := fun id hid => by cases hid
    allocated := fun id sequence hget => by cases hget
    settled := fun id r hget => by cases hget
  }

/-- The tokens that a request has been given and has generated. -/
def stream (r : Request K φ) : List Nat := r.promptTokens ++ r.generatedTokens.map ScheduledToken.id

/-- The sequence of every admitted unfinished request stands at the request's cursor, and
without speculation the next decode input is the token behind that position. -/
def InStep (s : Scheduler n β φ C K) : Prop :=
  ∀ id r sequenceId, s.requests.get id = some r → r.lifecycle ≠ .finished →
    r.sequenceId = some sequenceId →
    ∃ sequence, s.sequences.get sequenceId = some sequence ∧
      sequence.state.position = consumed r ∧
      (r.specReady = false → (r.lifecycle = .decoding ∨ r.remainingPromptTokens = 1) →
        ∃ token, r.decodeInputToken = .ok token ∧ (stream r)[sequence.state.position]? = some token)

theorem decodeInputToken_at_cursor {r : Request K φ} (h : Consistent words r)
    (hready : r.specReady = false)
    (hdecodes : r.lifecycle = .decoding ∨ r.remainingPromptTokens = 1) :
    ∃ token, r.decodeInputToken = .ok token ∧ (stream r)[consumed r]? = some token := by
  have hstarted : r.specStarted = false := by
    by_contra hstarted
    rw [h.started (by simpa using hstarted)] at hready
    cases hready
  by_cases hdecoding : r.lifecycle = .decoding
  · obtain ⟨hlast, hgenerated, hremaining⟩ := h.decoding hdecoding
    obtain ⟨init, last, hinit⟩ := (eq_nil_or_concat r.generatedTokens).resolve_left hgenerated
    refine ⟨last.id, ?_, ?_⟩
    · simp [Request.decodeInputToken, hremaining, hready, hlast, hinit]
    · have hposition : consumed r = r.promptTokens.length + init.length := by
        rw [consumed, if_pos hdecoding, hstarted, hinit]
        simp
      rw [hposition, stream, hinit]
      simp
  · have hremaining := hdecodes.resolve_left hdecoding
    have hposition : consumed r = r.promptPosition := by
      rw [consumed, if_neg hdecoding]
    have hlt : r.promptPosition < r.promptTokens.length := by
      unfold Request.remainingPromptTokens at hremaining
      omega
    refine ⟨r.promptTokens.getD r.promptPosition 0, ?_, ?_⟩
    · simp [Request.decodeInputToken, hremaining]
    · rw [hposition, stream, getElem?_append_left hlt]
      simp [getD_eq_getElem?_getD, hlt]

theorem Sound.inStep (h : Sound words s) : InStep s := by
  intro id r sequenceId hget hunfinished hid
  have hsettled := h.settled id r hget
  obtain ⟨sequence, hsequence, hposition⟩ := hsettled.leads hunfinished sequenceId hid
  refine ⟨sequence, hsequence, hposition, fun hready hdecodes => ?_⟩
  rw [hposition]
  exact decodeInputToken_at_cursor hsettled.consistent hready hdecodes

/-- In every run whose calls do not fail behind a commit, every sequence stands at the
cursor of its request. -/
theorem sequences_stand_at_cursors {config : SchedulerConfig} {cache : C}
    {s t : Scheduler n β φ C K} {actions : List (Action K φ)} (hmodel : Selectable model)
    (hnew : Scheduler.new config cache = .ok s)
    (path : Path (step model) (Punctual model) s actions t) : InStep t := by
  have hsound : Sound (vocabWords model) t :=
    path.invariant (fun h hpunctual hstep => step_sound hmodel h hpunctual hstep) (new_sound hnew)
  exact Sound.inStep hsound

/-- The books between two calls: a queue has the requests of its phase, none of them twice, a
sequence has at most one owner, and no append is pending. -/
structure Booked (s : Scheduler n β φ C K) : Prop where
  queued : (s.waiting ++ s.prefilling ++ s.decoding).Nodup
  waiting : ∀ id ∈ s.waiting, ∀ r, s.requests.get id = some r →
    r.lifecycle = .waiting ∧ r.sequenceId = none
  prefilling : ∀ id ∈ s.prefilling, ∀ r, s.requests.get id = some r → r.lifecycle = .prefilling
  decoding : ∀ id ∈ s.decoding, ∀ r, s.requests.get id = some r → r.lifecycle = .decoding
  owned : (s.requests.values.filterMap Request.sequenceId ++
    s.decisions.values.flatMap DecisionGroup.sequences).Nodup
  quiet : ∀ id sequence, s.sequences.get id = some sequence → sequence.state.appendPending = false

/-- In the same runs, also behind calls that fail, the books are in order. -/
theorem books_in_order {config : SchedulerConfig} {cache : C}
    {s t : Scheduler n β φ C K} {actions : List (Action K φ)} (hmodel : Selectable model)
    (hnew : Scheduler.new config cache = .ok s)
    (path : Path (step model) (Punctual model) s actions t) : Booked t := by
  have h : Sound (vocabWords model) t :=
    path.invariant (fun h hpunctual hstep => step_sound hmodel h hpunctual hstep) (new_sound hnew)
  have howned := h.owned
  simp only [Books.owned, Books.allRequests, Books.allGroups, append_nil] at howned
  exact ⟨h.queued, h.waiting, h.prefilling, h.decoding, howned,
    fun id sequence hget => (h.allocated id sequence hget).2⟩

end

/-! ## A small instance -/

/-- A device whose K/V row is the token and whose argmax is always the same. -/
def steadyDevice : Device 0 Unit Nat Nat where
  vocab := 10
  advance linear _ token := (linear, token)
  logits _ _ := [0, 1]
  top1 _ := ⟨5, 1⟩
  interrupted linear _ := linear

/-- A cache for one sequence. -/
def singleCache : PrefixCache 0 Unit (Nat → CacheEntry Nat) where
  maxPrefixEntries := some 0
  lookupPrefix c _ := (c, none)
  admission c _ _ := (c, .ok (.admitted 0 none 0))
  withdraw c _ := c
  branch c _ _ := (c, .ok none)
  finish c _ := (c, .ok ())
  containsPrefix _ _ _ := false
  retainPrefix c _ _ _ := (c, .ok (.inserted 0))
  evictPrefix c _ := (c, .ok ())

/-- A constraint that has no mask. -/
def maskless : Constraint Unit where
  decode _ _ := []
  hasPendingStop _ := false
  startWithoutPrompt k := k
  forceTokens k _ := (k, .ok ())
  computeMask k := (k, .error "no mask")
  stepMask _ := none
  commitToken k _ := (k, .ok ())

def steadyModel : TextModel 0 Unit Nat Nat (Nat → CacheEntry Nat) (Nat × Nat) Unit where
  modelId := 1
  device := steadyDevice
  cache := tableCache
  prefixes := singleCache
  constraint := maskless
  blank := fun _ => ⟨(), ()⟩
  readout _ _ := []
  negativeInfinity := 0
  zeroLogit := 0
  isFinite _ := true
  exceeds a b := decide (b < a)
  dflash2Enabled := false
  mtpWeights := false

theorem steadyModel_selectable : Selectable steadyModel := by
  intro contents mask hmask
  have hnone : mask = none := by
    obtain hmask | ⟨g, hg⟩ := hmask
    · exact hmask
    · unfold ToolGrammar.mask at hg
      split at hg
      · cases hg
        rfl
      · cases hg
  subst hnone
  exact ⟨⟨1, 1⟩, rfl⟩

def smallConfig : SchedulerConfig := ⟨1, 1, 1, 4, 2, 16, 0⟩

def greedy : RequestConfig := ⟨⟨true, true, true, false⟩, 4, []⟩

/-- A tick in which the sites of `failing` fail. -/
def quietTick (failing : List Site) : Qwen36.Action Unit Nat :=
  .tick ⟨fun site => failing.contains site, none, none, none, fun _ => ⟨0, 0⟩, fun _ => 0,
    fun _ => false⟩

theorem quietTick_punctual (s : Scheduler 0 Unit Nat (Nat → CacheEntry Nat) Unit) :
    Punctual steadyModel s (quietTick []) :=
  ⟨fun _ _ => rfl, rfl, by decide, rfl⟩

/-- A prompt of two tokens and two ticks: the first prompt token is prefilled, the second
is decoded. -/
theorem two_ticks_stand_at_cursors : Selectable steadyModel ∧
    ∃ s t : Scheduler 0 Unit Nat (Nat → CacheEntry Nat) Unit,
      Scheduler.new smallConfig emptyCache = .ok s ∧
      Path (step steadyModel) (Punctual steadyModel) s
        [.addRequest [1, 2] greedy none, quietTick [], quietTick []] t ∧
      (t.requests.get 0).map consumed = some 2 ∧ InStep t := by
  have hrun : ∃ s : Scheduler 0 Unit Nat (Nat → CacheEntry Nat) Unit,
      Scheduler.new smallConfig emptyCache = .ok s ∧
      (run (step steadyModel) s [.addRequest [1, 2] greedy none, quietTick [], quietTick []]).map
        (fun t => (t.requests.get 0).map consumed) = some (some 2) := ⟨_, rfl, by decide +kernel⟩
  obtain ⟨s, hnew, hmap⟩ := hrun
  obtain ⟨t, ht, hconsumed⟩ := Option.map_eq_some_iff.mp hmap
  have hpath : Path (step steadyModel) (Punctual steadyModel) s
      [.addRequest [1, 2] greedy none, quietTick [], quietTick []] t := by
    apply Path.of_run_guarded ht
    intro action haction u
    simp only [mem_cons, not_mem_nil, or_false] at haction
    obtain rfl | rfl | rfl := haction
    · exact fun g hg => by cases hg
    · exact quietTick_punctual u
    · exact quietTick_punctual u
  exact ⟨steadyModel_selectable, s, t, hnew, hpath, hconsumed,
    sequences_stand_at_cursors steadyModel_selectable hnew hpath⟩

/-- The sampled token of a decode batch cannot be read: the sequence has moved, the
requeued request has not, and the next tick appends its token a second time. -/
theorem failed_readback_appends_twice :
    ∃ s t u : Scheduler 0 Unit Nat (Nat → CacheEntry Nat) Unit,
      Scheduler.new smallConfig emptyCache = .ok s ∧
      Path (step steadyModel) (fun _ _ => True) s
        [.addRequest [1] greedy none, quietTick [.readTop1]] t ∧
      ¬ InStep t ∧
      Path (step steadyModel) (fun _ _ => True) t [quietTick []] u ∧ (u.cache 0).rows = [1, 1] := by
  have hrun : ∃ s : Scheduler 0 Unit Nat (Nat → CacheEntry Nat) Unit,
      Scheduler.new smallConfig emptyCache = .ok s ∧
      (run (step steadyModel) s [.addRequest [1] greedy none, quietTick [.readTop1]]).map
        (fun t => ((t.requests.get 0).map fun r => (r.lifecycle, r.sequenceId, consumed r),
          (t.sequences.get 0).map fun sequence => sequence.state.position,
          (run (step steadyModel) t [quietTick []]).map fun u => (u.cache 0).rows)) =
        some (some (.prefilling, some 0, 0), some 1, some [1, 1]) := ⟨_, rfl, by decide +kernel⟩
  obtain ⟨s, hnew, hmap⟩ := hrun
  obtain ⟨t, ht, heq⟩ := Option.map_eq_some_iff.mp hmap
  simp only [Prod.mk.injEq] at heq
  obtain ⟨hrequest, hposition, hnext⟩ := heq
  obtain ⟨u, hu, hrows⟩ := Option.map_eq_some_iff.mp hnext
  obtain ⟨r, hr, hfields⟩ := Option.map_eq_some_iff.mp hrequest
  simp only [Prod.mk.injEq] at hfields
  obtain ⟨sequence, hsequence, hmoved⟩ := Option.map_eq_some_iff.mp hposition
  refine ⟨s, t, u, hnew, Path.of_run ht, fun hinStep => ?_, Path.of_run hu, hrows⟩
  obtain ⟨sequence', hsequence', hstands, -⟩ := hinStep 0 r 0 hr
    (by rw [hfields.1]; decide) hfields.2.1
  obtain rfl : sequence = sequence' := Option.some.inj (hsequence.symm.trans hsequence')
  omega

/-- A request of two tokens, waiting and then admitted. -/
theorem admitted_request_booked : Selectable steadyModel ∧
    ∃ s t : Scheduler 0 Unit Nat (Nat → CacheEntry Nat) Unit,
      Scheduler.new smallConfig emptyCache = .ok s ∧
      Path (step steadyModel) (Punctual steadyModel) s
        [.addRequest [1, 2] greedy none, quietTick []] t ∧ Booked t := by
  have hrun : ∃ s : Scheduler 0 Unit Nat (Nat → CacheEntry Nat) Unit,
      Scheduler.new smallConfig emptyCache = .ok s ∧
      ((run (step steadyModel) s [.addRequest [1, 2] greedy none, quietTick []]).isSome = true) :=
    ⟨_, rfl, by decide +kernel⟩
  obtain ⟨s, hnew, hsome⟩ := hrun
  obtain ⟨t, ht⟩ := Option.isSome_iff_exists.mp hsome
  have hpath : Path (step steadyModel) (Punctual steadyModel) s
      [.addRequest [1, 2] greedy none, quietTick []] t := by
    apply Path.of_run_guarded ht
    intro action haction u
    simp only [mem_cons, not_mem_nil, or_false] at haction
    obtain rfl | rfl := haction
    · exact nofun
    · exact quietTick_punctual u
  exact ⟨steadyModel_selectable, s, t, hnew, hpath, books_in_order steadyModel_selectable hnew hpath⟩

end Eider.Guarantees.SequenceCursor
