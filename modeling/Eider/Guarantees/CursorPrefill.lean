import Eider.Guarantees.CursorSubmit

/-!
Admission and prefill keep the ledger. An admission moves the cursor of a request to the
position that the cache has restored, before the request owns the sequence. A prefill
moves the cursors by their chunks; a batch that fails has moved nothing, and an error
anywhere else loses the requests that the phase held.
-/
namespace Eider.Guarantees.CursorPrefill
open Lib Lib.ByteReader Source Source.Qwen36 List Ensures
open Guarantees.BatchPositions Guarantees.SchedulerLedger
open Guarantees.CursorDecode Guarantees.CursorSubmit

variable {n words : Nat} {β κ φ C R K γ : Type}
variable {r' : Request K φ} {state : SequenceState n β} {pool : BTreeMap Nat (Sequence n β)}
variable {selected : List (Request K φ)} {chunks : List Nat}

/-- A request that has not decoded moves on in its prompt. -/
theorem consistent_undecoded {r : Request K φ} (h : Consistent words r)
    (hbefore : r.lifecycle = .waiting ∨ r.lifecycle = .prefilling)
    (hafter : r'.lifecycle = .waiting ∨ r'.lifecycle = .prefilling)
    (hgenerated : r'.generatedTokens = r.generatedTokens) (hlast : r'.lastToken = r.lastToken)
    (hready : r'.specReady = r.specReady) (hstarted : r'.specStarted = r.specStarted)
    (hgrammar : r'.toolGrammar = r.toolGrammar) : Consistent words r' where
  fresh := fun _ => by
    rw [hgenerated, hlast, hready]
    exact h.fresh hbefore
  decoding := fun hdecoding => by
    rw [hdecoding] at hafter
    obtain hafter | hafter := hafter <;> cases hafter
  started := fun hyes => by
    rw [hready]
    exact h.started (hstarted ▸ hyes)
  grammar := hgrammar ▸ h.grammar

/-! ## Admission -/

variable {E : Fault CudaError → Scheduler n β φ C K → Prop}

section
variable {model : TextModel n β κ φ C R K} {input : TickInput φ} {s : Scheduler n β φ C K}
variable {r : Request K φ} {id : Nat} {restored : SequenceState n β}

theorem updateRequest_bind {g : Request K φ → Request K φ} {f : Unit → Scheduling n β φ C K γ}
    {Q : γ → Scheduler n β φ C K → Prop} (hget : s.requests.get id = some r)
    (h : Ensures (f ()) { s with requests := s.requests.insert id (g r) } Q E) :
    Ensures (updateRequest id g >>= f) s Q E := by
  apply modify_bind
  rw [hget]
  exact h

/-- A waiting request that has left its queue. -/
structure Admitting (words : Nat) (s : Scheduler n β φ C K) (id : Nat) (r : Request K φ) : Prop where
  sound : Sound words s
  get : s.requests.get id = some r
  unqueued : id ∉ (booksOf s).queues
  waiting : r.lifecycle = .waiting

theorem Admitting.of_books {t : Scheduler n β φ C K} (h : Admitting words s id r)
    (hbooks : booksOf t = booksOf s) : Admitting words t id r := by
  have hrequests : t.requests = s.requests := congrArg Books.requests hbooks
  refine ⟨?_, hrequests ▸ h.get, hbooks ▸ h.unqueued, h.waiting⟩
  unfold Sound
  rw [hbooks]
  exact h.sound

theorem Admitting.place (h : Admitting words s id r) (r' : Request K φ) (hnone : r.sequenceId = none)
    (hid : r'.id = r.id) (hsequence : r'.sequenceId = r.sequenceId)
    (hconsistent : Consistent words r') (hwaiting : r'.lifecycle = .waiting) :
    Admitting words { s with requests := s.requests.insert id r' } id r' := by
  refine ⟨?_, BTreeMap.get_insert_self _ _ _, h.unqueued, hwaiting⟩
  refine h.sound.update h.get h.unqueued (fun htaken => htaken.change r' hid hsequence) hid ?_
  refine ⟨hconsistent, fun _ sequenceId hsome => ?_⟩
  rw [hsequence, hnone] at hsome
  cases hsome

theorem withSpeculation_same (model : TextModel n β κ φ C R K) (input : TickInput φ)
    (config : SchedulerConfig) (cached : Nat) (r : Request K φ) :
    Redrafted r (withSpeculation model input config cached r) ∧
      (withSpeculation model input config cached r).specReady = r.specReady := by
  unfold withSpeculation
  dsimp only
  split
  · split
    · exact ⟨⟨⟨rfl, rfl, rfl, rfl, rfl, rfl, rfl, rfl⟩, rfl, fun hready => hready⟩, rfl⟩
    · exact ⟨⟨.refl r, rfl, fun hready => hready⟩, rfl⟩
  · exact ⟨⟨.refl r, rfl, fun hready => hready⟩, rfl⟩

/-- The new sequence goes to the request whose cursor stands at its position. -/
theorem Admitting.own (h : Admitting words s id r) (sequence : Sequence n β)
    (hsame : SameCursor { r with sequenceId := some s.nextSequenceId } r')
    (hready : r'.specReady = r.specReady) (hgrammar : r'.toolGrammar = r.toolGrammar)
    (hidle : sequence.state.appendPending = false)
    (hposition : sequence.state.position = r.promptPosition) :
    Admitting words { s with
      requests := s.requests.insert id r'
      sequences := s.sequences.insert s.nextSequenceId sequence
      nextSequenceId := s.nextSequenceId + 1 } id r' := by
  have hallocated := h.sound.allocate hidle
  obtain ⟨htaken, hsettled, -⟩ := h.sound.take h.get h.unqueued
  have hwaiting : r'.lifecycle = .waiting := hsame.lifecycle.trans h.waiting
  have hnew : s.nextSequenceId ∉
      Books.owned { booksOf s with requests := s.requests.erase id } [] [] := by
    intro hmem
    have hperm := owned_cons { booksOf s with requests := s.requests.erase id } [] [] r
    have hlive := htaken.live _ (hperm.mem_iff.mpr (mem_append_right _ hmem))
    exact Nat.lt_irrefl _ hlive
  have hconsistent : Consistent words { r with sequenceId := some s.nextSequenceId } :=
    ⟨hsettled.consistent.fresh, hsettled.consistent.decoding, hsettled.consistent.started,
      hsettled.consistent.grammar⟩
  refine ⟨?_, BTreeMap.get_insert_self _ _ _, h.unqueued, hwaiting⟩
  refine hallocated.update h.get h.unqueued (fun taken => ?_) hsame.id ⟨?_, ?_⟩
  · exact taken.assign hsame.id hsame.sequenceId hnew (Nat.lt_succ_self _)
  · refine hsame.consistent hconsistent hready ?_
    rw [hgrammar]
    exact hsettled.consistent.grammar
  · intro _ sequenceId hsome
    rw [hsame.sequenceId] at hsome
    cases hsome
    refine ⟨sequence, BTreeMap.get_insert_self _ _ _, ?_⟩
    rw [hsame.consumed_eq, hposition, consumed, if_neg (by rw [h.waiting]; decide)]
    rfl

theorem Admitting.queue (h : Admitting words s id r) :
    Sound words { s with
      requests := s.requests.insert id { r with lifecycle := .prefilling }
      prefilling := s.prefilling ++ [id] } := by
  have hsettled := h.sound.settled id r h.get
  have hwaiting : r.lifecycle ≠ .decoding := by
    rw [h.waiting]
    decide
  have hunfinished : r.lifecycle ≠ .finished := by
    rw [h.waiting]
    decide
  have hmoved : Settled words s.sequences { r with lifecycle := .prefilling } := by
    refine ⟨consistent_undecoded hsettled.consistent (.inl h.waiting) (.inr rfl) rfl rfl rfl rfl rfl,
      fun _ sequenceId hsome => ?_⟩
    obtain ⟨sequence, hget, hposition⟩ := hsettled.leads hunfinished sequenceId hsome
    refine ⟨sequence, hget, ?_⟩
    rw [hposition, consumed, if_neg hwaiting]
    rfl
  have hupdated := h.sound.update h.get h.unqueued
    (fun taken => taken.change { r with lifecycle := .prefilling } rfl rfl) rfl hmoved
  have hperm : ((booksOf s).waiting ++ ((booksOf s).prefilling ++ [id]) ++
      (booksOf s).decoding).Perm (id :: (booksOf s).queues) := by
    have hmiddle := (perm_append_singleton id (booksOf s).prefilling).append_left
      (booksOf s).waiting
    exact (hmiddle.trans perm_middle).append_right _
  refine hupdated.enqueue (BTreeMap.get_insert_self _ _ _) h.unqueued hperm
    (fun _ hother => .inl hother) (fun other hother => ?_) fun _ hother => .inl hother
  obtain hother | hother := mem_append.mp hother
  · exact .inl hother
  · exact .inr ⟨mem_singleton.mp hother, rfl⟩

theorem installRequest_ensures {cacheId : Nat} (h : Admitting words s id r)
    (hnone : r.sequenceId = none) (hidle : state.appendPending = false) :
    Ensures (installRequest model input id cacheId state) s (fun _ => Sound words)
      (OnFailure (Sound words)) := by
  have hconsistent := (h.sound.settled id r h.get).consistent
  have hplaced := h.place { r with
    promptPosition := state.position
    prefixRetained := state.position = r.prefixTarget && state.position ≠ 0 } hnone rfl rfl
    (consistent_undecoded hconsistent (.inl h.waiting) (.inl h.waiting) rfl rfl rfl rfl rfl) h.waiting
  apply updateRequest_bind h.get
  refine reach_bind ?_ fun _ => hplaced.sound
  refine insertSequence_bind ?_ hplaced.sound
  apply get_bind
  refine updateRequest_bind hplaced.get ?_
  have hspeculation := withSpeculation_same model input s.config state.position { r with
      promptPosition := state.position
      prefixRetained := state.position = r.prefixTarget && state.position ≠ 0
      sequenceId := some s.nextSequenceId }
  have howned := hplaced.own ⟨cacheId, state⟩ hspeculation.1.same hspeculation.2
    hspeculation.1.grammar hidle rfl
  refine reach_bind ?_ fun _ => howned.sound
  refine updateRequest_bind howned.get ?_
  apply Ensures.modify
  exact howned.queue

theorem newSequenceState_idle {maxTokens : Nat} (h : newSequenceState model maxTokens = .ok state) :
    state.appendPending = false := by
  unfold newSequenceState at h
  split at h
  · cases h
  · cases h
    rfl

theorem restoreSequenceSnapshot_idle {modelId : Nat} {snapshot : SequenceSnapshot n β}
    (h : restoreSequenceSnapshot modelId snapshot state = .ok restored) :
    restored.appendPending = state.appendPending := by
  unfold restoreSequenceSnapshot at h
  split at h
  · cases h
  · cases h
    rfl

theorem restoreAdmitted_idle {snapshot : Option (SequenceSnapshot n β)} {position : Nat}
    (h : restoreAdmitted model input id snapshot position state = .ok restored) :
    restored.appendPending = state.appendPending := by
  unfold restoreAdmitted at h
  split at h
  · obtain ⟨state', hstate, h⟩ := bind_ok h
    obtain ⟨_, -, h⟩ := bind_ok h
    cases h
    exact restoreSequenceSnapshot_idle hstate
  · split at h
    · cases h
    · cases h
      rfl

theorem reachWhen_bind {σ : Type} {s : σ} {needed : Bool} {site : Site} {call : String}
    {f : Unit → EStateM (Fault CudaError) σ γ} {Q : γ → σ → Prop} {P : σ → Prop}
    (hok : Ensures (f ()) s Q (OnFailure P)) (hfailed : P s) :
    Ensures (reachWhen needed input site call >>= f) s Q (OnFailure P) := by
  unfold reachWhen
  split
  · exact reach_bind hok fun _ => hfailed
  · exact hok

theorem admitRequest_ensures (hsound : Sound words s) (hunqueued : id ∉ (booksOf s).queues)
    (hwaiting : ∀ r, s.requests.get id = some r → r.lifecycle = .waiting ∧ r.sequenceId = none) :
    Ensures (admitRequest model input id) s (fun _ => Sound words) (OnFailure (Sound words)) := by
  apply get_bind
  apply expect_bind
  intro r hget
  obtain ⟨hlifecycle, hnone⟩ := hwaiting r hget
  have hadmitting : Admitting words s id r := ⟨hsound, hget, hunqueued, hlifecycle⟩
  apply get_bind
  apply modify_bind
  refine attempt_bind (fun state hstate => ?_) hsound
  refine reach_bind ?_ fun _ => hsound
  refine reach_bind ?_ fun _ => hsound
  refine reachWhen_bind ?_ hsound
  apply get_bind
  apply modify_bind
  refine attempt_bind (fun outcome _ => ?_) hsound
  cases outcome with
  | wouldBlock =>
    apply modify_bind
    have hperm : (id :: (booksOf s).waiting ++ (booksOf s).prefilling ++ (booksOf s).decoding).Perm
        (id :: (booksOf s).queues) := List.Perm.refl _
    refine Ensures.pure (hsound.enqueue hget hunqueued hperm (fun other hother => ?_)
      (fun _ hother => .inl hother) fun _ hother => .inl hother)
    obtain hother | hother := mem_cons.mp hother
    · exact .inr ⟨hother, hlifecycle, hnone⟩
    · exact .inl hother
  | admitted cacheId snapshot position =>
    dsimp only
    split
    · exact hsound
    · rename_i restored hrestored
      have hidle := (restoreAdmitted_idle hrestored).trans (newSequenceState_idle hstate)
      refine Ensures.bind (installRequest_ensures (hadmitting.of_books rfl) hnone hidle) ?_
      exact fun _ _ ht => ht

theorem admitLoop_ensures (turns : Nat) (h : Sound words s) :
    Ensures (admitLoop model input turns) s (fun _ => Sound words) (OnFailure (Sound words)) := by
  induction turns generalizing s with
  | zero => exact h
  | succ turns ih =>
    apply get_bind
    split
    · split
      · exact h
      · rename_i id rest hqueue
        obtain ⟨hpopped, hunqueued⟩ := h.popWaiting hqueue
        have hwaiting := h.waiting id (by simp [booksOf, hqueue])
        apply set_bind
        refine Ensures.bind (admitRequest_ensures hpopped hunqueued hwaiting) fun more t ht => ?_
        split
        · exact ih ht
        · exact ht
    · exact h

theorem admitWaiting_ensures (h : Sound words s) :
    Ensures (admitWaiting model input) s (fun _ => Sound words) (OnFailure (Sound words)) :=
  get_bind (admitLoop_ensures _ h)

end

/-! ## Selection -/

section
variable {s : Scheduler n β φ C K} {out : List (Request K φ)} {P : Scheduler n β φ C K → Prop}

theorem eligiblePrefills_ensures (ids : List Nat) (rows : Nat) :
    Ensures (eligiblePrefills ids rows) s (fun _ t => t = s) (OnFailure P) := by
  induction ids generalizing rows with
  | nil => exact rfl
  | cons id rest ih =>
    cases rows with
    | zero => exact rfl
    | succ rows =>
      apply get_bind
      apply expect_bind
      intro r _
      split
      · exact (ih rows).bind fun _ _ ht => ht
      · exact ih (rows + 1)

theorem prefillChunkTokens_le (available share position target : Nat) (retained : Bool) :
    prefillChunkTokens available share position target retained ≤ available := by
  unfold prefillChunkTokens
  dsimp only
  split
  · omega
  · omega

/-- A request that a prefill has selected, with its chunk. -/
structure Chunked (words : Nat) (pool : BTreeMap Nat (Sequence n β)) (r : Request K φ) (chunk : Nat) :
    Prop where
  settled : Settled words pool r
  lifecycle : r.lifecycle = .prefilling
  chunk : chunk ≤ r.prefillableTokens

theorem selectPrefill_ensures (scan slots budget : Nat) (h : Ledger words (booksOf s) out []) :
    Ensures (selectPrefill scan slots budget) s (fun selected t =>
      Ledger words (booksOf t) (selected.map Prod.fst ++ out) [] ∧ t.sequences = s.sequences ∧
      ∀ entry ∈ selected, Chunked words s.sequences entry.1 entry.2) (OnFailure P) := by
  induction scan generalizing s out slots budget with
  | zero => exact ⟨h, rfl, forall_mem_nil _⟩
  | succ scan ih =>
    unfold selectPrefill
    split
    · exact ⟨h, rfl, forall_mem_nil _⟩
    · apply get_bind
      split
      · exact trivial
      · rename_i id rest hqueue
        apply get_bind
        apply expect_bind
        intro r hget
        split
        · apply modify_bind
          exact ih slots budget (h.turnPrefilling hqueue)
        · apply modify_bind
          apply takeRequest_bind
          intro r' hget'
          obtain rfl : r = r' := Option.some.inj (hget.symm.trans hget')
          have hlifecycle := h.prefilling id (by simp [booksOf, hqueue]) r hget
          obtain ⟨hpopped, hnew⟩ := h.popPrefilling hqueue
          obtain ⟨htaken, hsettled, -⟩ := hpopped.take hget hnew
          refine Ensures.bind (ih _ _ htaken) fun selected t ht => ?_
          refine Ensures.pure ⟨ht.1.perm perm_middle.symm, ht.2.1, ?_⟩
          refine forall_mem_cons.mpr ⟨⟨hsettled, hlifecycle, ?_⟩, ht.2.2⟩
          exact prefillChunkTokens_le _ _ _ _ _

end

/-! ## A prefill batch -/

section
variable {model : TextModel n β κ φ C R K} {input : TickInput φ} {s : Scheduler n β φ C K}
variable {r : Request K φ} {P : Scheduler n β φ C K → Prop} {chunk : Nat}
variable {selected' : List (Request K φ)}

/-- A request whose drafters follow a prefill, or end. -/
structure Warmed (r r' : Request K φ) : Prop where
  same : SameCursor r r'
  grammar : r'.toolGrammar = r.toolGrammar
  ready : r'.specReady = r.specReady ∨ r'.specReady = false

theorem Warmed.refl (r : Request K φ) : Warmed r r := ⟨.refl r, rfl, .inl rfl⟩

theorem Warmed.trans {r r'' : Request K φ} (h : Warmed r r') (h' : Warmed r' r'') :
    Warmed r r'' := by
  refine ⟨h.same.trans h'.same, h'.grammar.trans h.grammar, ?_⟩
  obtain hready | hready := h'.ready
  · rw [hready]
    exact h.ready
  · exact .inr hready

theorem warmed_withoutFrontier (h : Warmed r r') : Warmed r (withoutFrontier r') :=
  h.trans ⟨⟨rfl, rfl, rfl, rfl, rfl, rfl, rfl, rfl⟩, rfl, .inr rfl⟩

/-- A prefilling request is not ready to speculate, so ending speculation changes
nothing that the ledger looks at. -/
theorem Warmed.chunked (h : Warmed r r')
    (hchunked : Chunked words pool r chunk) : Chunked words pool r' chunk := by
  have hconsistent := hchunked.settled.consistent
  have hfresh := (hconsistent.fresh (.inr hchunked.lifecycle)).2.2
  have hready : r'.specReady = r.specReady := by
    obtain hready | hready := h.ready
    · exact hready
    · rw [hready, hfresh]
  refine ⟨⟨h.same.consistent hconsistent hready (h.grammar ▸ hconsistent.grammar),
    h.same.leads hchunked.settled.leads⟩, h.same.lifecycle.trans hchunked.lifecycle, ?_⟩
  have hchunk := hchunked.chunk
  unfold Request.prefillableTokens at hchunk ⊢
  rwa [h.same.remaining_eq]

theorem followDflash2_warmed (row : Nat) (r : Request K φ) :
    Warmed r (followDflash2 input row r) := by
  unfold followDflash2
  split
  · exact warmed_withoutFrontier ⟨⟨rfl, rfl, rfl, rfl, rfl, rfl, rfl, rfl⟩, rfl, .inl rfl⟩
  · exact .refl r

theorem followMtp_warmed (row : Nat) (r : Request K φ) : Warmed r (followMtp input row r) := by
  unfold followMtp
  split
  · exact warmed_withoutFrontier ⟨⟨rfl, rfl, rfl, rfl, rfl, rfl, rfl, rfl⟩, rfl, .inl rfl⟩
  · exact .refl r

theorem warmupRequest_warmed (row : Nat) (r : Request K φ) : Warmed r (warmupRequest input row r) :=
  (followDflash2_warmed row r).trans (followMtp_warmed row _)

theorem warmupMtp_ensures :
    Ensures (warmupMtp input selected) s (fun selected' t => booksOf t = booksOf s ∧
      List.Forall₂ Warmed selected selected') (OnFailure P) := by
  have hrefl : List.Forall₂ Warmed selected selected := forall₂_same.mpr fun r _ => .refl r
  unfold warmupMtp
  split
  · apply get_bind
    apply set_bind
    split
    · exact Ensures.pure ⟨rfl, hrefl⟩
    · refine Ensures.pure ⟨rfl, forall₂_map_right_iff.mpr (hrefl.imp fun r r' hwarmed => ?_)⟩
      refine warmed_withoutFrontier (hwarmed.trans ?_)
      exact ⟨⟨rfl, rfl, rfl, rfl, rfl, rfl, rfl, rfl⟩, rfl, .inl rfl⟩
  · exact Ensures.pure ⟨rfl, hrefl⟩

theorem retainRequestCheckpoint_ensures (r : Request K φ) :
    Ensures (retainRequestCheckpoint model input r) s (fun r' t => booksOf t = booksOf s ∧
      SameCursor r r' ∧ r'.specReady = r.specReady ∧ r'.toolGrammar = r.toolGrammar)
      (OnFailure P) := by
  have hkept : booksOf s = booksOf s ∧ SameCursor r r ∧ r.specReady = r.specReady ∧
      r.toolGrammar = r.toolGrammar := ⟨rfl, .refl r, rfl, rfl⟩
  have hretained : ∀ t : Scheduler n β φ C K, booksOf t = booksOf s → booksOf t = booksOf s ∧
      SameCursor r { r with prefixRetained := true } ∧
      { r with prefixRetained := true }.specReady = r.specReady ∧
      { r with prefixRetained := true }.toolGrammar = r.toolGrammar :=
    fun t ht => ⟨ht, ⟨rfl, rfl, rfl, rfl, rfl, rfl, rfl, rfl⟩, rfl, rfl⟩
  unfold retainRequestCheckpoint
  split
  · exact hkept
  · split
    · exact hretained s rfl
    · split
      · exact hkept
      · apply get_bind
        split
        · exact hretained s rfl
        · split
          · exact hkept
          · split
            · exact hretained s rfl
            · split
              · exact hretained s rfl
              · split
                · exact hretained s rfl
                · exact set_bind (Ensures.pure (hretained _ rfl))

/-- A prefilled request whose sequence is its chunk ahead. -/
structure Prefilled (words : Nat) (pool : BTreeMap Nat (Sequence n β)) (r : Request K φ)
    (chunk : Nat) :
    Prop where
  consistent : Consistent words r
  lifecycle : r.lifecycle = .prefilling
  leads : Leads pool chunk r

theorem Prefilled.settled (h : Prefilled words pool r chunk) :
    Settled words pool { r with promptPosition := r.promptPosition + chunk } := by
  have hundecoded : r.lifecycle ≠ .decoding := by
    rw [h.lifecycle]
    decide
  refine ⟨consistent_undecoded h.consistent (.inr h.lifecycle) (.inr h.lifecycle) rfl rfl rfl rfl rfl,
    fun hunfinished id hid => ?_⟩
  obtain ⟨sequence, hget, hposition⟩ := h.leads hunfinished id hid
  refine ⟨sequence, hget, ?_⟩
  rw [hposition, consumed, consumed, if_neg hundecoded, if_neg hundecoded]
  rfl

theorem settlePrefills_ensures {held : List (Request K φ × Nat)}
    (h : Ledger words (booksOf s) (held.map Prod.fst) [])
    (hprefilled : ∀ entry ∈ held, Prefilled words s.sequences entry.1 entry.2) :
    Ensures (settlePrefills model input held) s (fun _ => Sound words) (OnFailure P) := by
  induction held generalizing s with
  | nil => exact h
  | cons entry rest ih =>
    obtain ⟨r, chunk⟩ := entry
    obtain ⟨hentry, hrest⟩ := forall_mem_cons.mp hprefilled
    have hsettled := hentry.settled
    refine (retainRequestCheckpoint_ensures _).bind fun r' t ht => ?_
    obtain ⟨hbooks, hsame, hready, hgrammar⟩ := ht
    have hsequences : t.sequences = s.sequences := congrArg Books.sequences hbooks
    have hledger : Ledger words (booksOf t) (r' :: rest.map Prod.fst) [] := by
      rw [hbooks]
      exact h.change r' hsame.id hsame.sequenceId
    have hsettled' : Settled words t.sequences r' := by
      rw [hsequences]
      exact ⟨hsame.consistent hsettled.consistent hready (hgrammar ▸ hsettled.consistent.grammar),
        hsame.leads hsettled.leads⟩
    have hlifecycle : r'.lifecycle = .prefilling := hsame.lifecycle.trans hentry.lifecycle
    apply modify_bind
    apply modify_bind
    refine ih (hledger.putPrefilling hsettled' hlifecycle (perm_append_singleton _ _)) ?_
    intro entry hmem
    rw [hsequences]
    exact hrest entry hmem

/-- An error hands the selected requests back to the queue. -/
theorem requeuePrefills_ensures (h : Ledger words (booksOf s) selected [])
    (hsettled : ∀ r ∈ selected, Settled words s.sequences r ∧ r.lifecycle = .prefilling) :
    Ensures (selected.reverse.forM requeuePrefill) s (fun _ => Sound words) E := by
  have hstart : Ledger words (booksOf s) selected.reverse [] ∧
      ∀ r ∈ selected.reverse, Settled words s.sequences r ∧ r.lifecycle = .prefilling :=
    ⟨h.perm (reverse_perm selected), fun r hr => hsettled r (mem_reverse.mp hr)⟩
  have hloop : Ensures (selected.reverse.forM requeuePrefill) s (fun _ t =>
      Ledger words (booksOf t) [] [] ∧ ∀ r ∈ ([] : List (Request K φ)),
        Settled words t.sequences r ∧ r.lifecycle = .prefilling) E := by
    refine Ensures.forM (I := fun rest t => Ledger words (booksOf t) rest [] ∧
      ∀ r ∈ rest, Settled words t.sequences r ∧ r.lifecycle = .prefilling)
      (fun r rest t ht => ?_) hstart
    obtain ⟨hr, hrest⟩ := forall_mem_cons.mp ht.2
    apply modify_bind
    exact ⟨ht.1.putPrefilling hr.1 hr.2 (List.Perm.refl _), hrest⟩
  exact hloop.imp fun _ _ ht => ht.1

theorem Warmed.prefilled (h : Warmed r r')
    (hprefilled : Prefilled words pool r chunk) : Prefilled words pool r' chunk := by
  have hfresh := (hprefilled.consistent.fresh (.inr hprefilled.lifecycle)).2.2
  have hready : r'.specReady = r.specReady := by
    obtain hready | hready := h.ready
    · exact hready
    · rw [hready, hfresh]
  exact ⟨h.same.consistent hprefilled.consistent hready (h.grammar ▸ hprefilled.consistent.grammar),
    h.same.lifecycle.trans hprefilled.lifecycle, h.same.leads hprefilled.leads⟩

/-- What is paired with a request stays with what becomes of it. -/
theorem forall₂_warmed {rel : Request K φ → Nat → Prop}
    (hsame : List.Forall₂ Warmed selected selected') (h : List.Forall₂ rel selected chunks)
    (himp : ∀ r r' chunk, Warmed r r' → rel r chunk → rel r' chunk) :
    List.Forall₂ rel selected' chunks := by
  induction hsame generalizing chunks with
  | nil => exact h
  | cons hhead _ ih =>
    cases h with
    | cons hchunk hrest => exact .cons (himp _ _ _ hhead hchunk) (ih hrest)

theorem changeAll_warmed {b : Books n β φ K}
    (h : Ledger words b selected []) (hsame : List.Forall₂ Warmed selected selected') :
    Ledger words b selected' [] := by
  rw [← append_nil selected] at h
  have hchanged := h.changeAll (hsame.imp fun _ _ hr => ⟨hr.same.id, hr.same.sequenceId⟩)
  rwa [append_nil] at hchanged

theorem finishPrefill_ok {warmup : Bool} (h : Ledger words (booksOf s) selected [])
    (hprefilled : List.Forall₂ (Prefilled words s.sequences) selected chunks) :
    Ensures (finishPrefill model input warmup selected chunks (.ok ())) s (fun _ => Sound words)
      (OnFailure (Sound words)) := by
  have hwarmed : List.Forall₂ Warmed selected
      (selected.zipIdx.map fun entry => warmupRequest input entry.2 entry.1) := by
    rw [forall₂_iff_get]
    refine ⟨by simp, fun i hi hi' => ?_⟩
    simp only [get_eq_getElem, getElem_map, getElem_zipIdx]
    exact warmupRequest_warmed _ _
  have hledger := changeAll_warmed h hwarmed
  have hchunks := forall₂_warmed hwarmed hprefilled fun _ _ _ => Warmed.prefilled
  refine reachWhen_bind ?_ (sound_of_ledger hledger)
  apply settlePrefills_ensures
  · rw [map_fst_zip hchunks.length_eq.le]
    exact hledger
  · intro entry hentry
    exact forall₂_zip hchunks hentry

theorem length_chunkTokens (h : chunk ≤ r.prefillableTokens) :
    (chunkTokens r chunk).length = chunk := by
  unfold Request.prefillableTokens Request.remainingPromptTokens at h
  rw [chunkTokens, length_take, length_drop]
  omega

theorem allocatePrefillDflash2_ensures {needed : Bool} :
    Ensures (allocatePrefillDflash2 input needed) s (fun _ t => booksOf t = booksOf s)
      (OnFailure fun t => booksOf t = booksOf s) := by
  apply get_bind
  split
  · refine SchedulerLedger.reach_bind ?_ fun _ => rfl
    exact rfl
  · exact rfl

/-- The rows of a prefill: the chunk of each request over its leased sequence. -/
def prefillRowsOf (selected : List (Request K φ)) (chunks : List Nat) (leased : List (Sequence n β)) :
    List (BatchRow n β) :=
  ((selected.zip chunks).zip leased).map fun row => ⟨row.2, chunkTokens row.1.1 row.1.2⟩

theorem prefilled_of_advanced {ids : List Nat} {leased : List (Sequence n β)}
    {rows : List (BatchRow n β)}
    (hids : List.Forall₂ (fun r id => r.sequenceId = some id) selected ids)
    (hchunked : List.Forall₂ (Chunked words pool) selected chunks)
    (hlease : leaseMany pool ids = .ok leased) (hlength : leased.length = selected.length)
    (hmoved : AllAdvanced (prefillRowsOf selected chunks leased) rows) :
    List.Forall₂ (Prefilled words (endLease pool ids (rows.map BatchRow.sequence))) selected chunks := by
  have hcount := hchunked.length_eq
  have hsequences : (prefillRowsOf selected chunks leased).map BatchRow.sequence = leased := by
    rw [prefillRowsOf, map_map]
    exact map_snd_zip (by rw [length_zip, hlength, ← hcount, Nat.min_self])
  have hleads := leads_endLease hids (hsequences.symm ▸ hlease) hmoved
  rw [forall₂_iff_get] at hchunked hleads ⊢
  refine ⟨hcount, fun i hi hi' => ?_⟩
  have hrow : i < (prefillRowsOf selected chunks leased).length := hleads.1 ▸ hi
  have hentry := hchunked.2 i hi hi'
  have hlead := hleads.2 i hi hrow hentry.settled.leads
  have htokens : ((prefillRowsOf selected chunks leased).get ⟨i, hrow⟩).tokens.length =
      chunks.get ⟨i, hi'⟩ := by
    simp only [prefillRowsOf, get_eq_getElem, getElem_map, getElem_zip]
    exact length_chunkTokens hentry.chunk
  rw [htokens] at hlead
  exact ⟨hentry.settled.consistent, hentry.lifecycle, hlead⟩

theorem prefillSelected_ensures (htimely : Timely input) {chosen : List (Request K φ)}
    (h : Ledger words (booksOf s) chosen [])
    (hchosen : List.Forall₂ (Chunked words s.sequences) chosen chunks) :
    Ensures (prefillSelected model input chosen chunks) s (fun _ => Sound words)
      (OnFailure (Sound words)) := by
  refine warmupMtp_ensures.bind fun selected t ht => ?_
  obtain ⟨hbooks, hwarmed⟩ := ht
  have hledger : Ledger words (booksOf t) selected [] := by
    rw [hbooks]
    exact changeAll_warmed h hwarmed
  have hsequences : t.sequences = s.sequences := congrArg Books.sequences hbooks
  have hchunked : List.Forall₂ (Chunked words t.sequences) selected chunks := by
    rw [hsequences]
    exact forall₂_warmed hwarmed hchosen fun _ _ _ => Warmed.chunked
  have hallocated : Ensures (allocatePrefillDflash2 input (selected.any fun r => r.dflash2State)) t
      (fun _ u => booksOf u = booksOf t) (OnFailure (Sound words)) := by
    refine ensures_imp allocatePrefillDflash2_ensures (fun _ _ hu => hu) fun u hu => ?_
    exact sound_of_ledger (hu.symm ▸ hledger)
  refine hallocated.bind fun _ u hu => ?_
  have hledger : Ledger words (booksOf u) selected [] := hu.symm ▸ hledger
  have hsame : u.sequences = t.sequences := congrArg Books.sequences hu
  rw [← hsame] at hchunked
  refine attempt_bind (fun ids hids => ?_) (sound_of_ledger hledger)
  apply get_bind
  refine attempt_bind (fun leased hleased => ?_) (sound_of_ledger hledger)
  apply get_bind
  have howners := mapM_sequenceIds hids
  have hlength : leased.length = selected.length := by
    rw [← (leaseMany_ok hleased).2.length_eq, ← howners.length_eq]
  have hrows : (prefillRowsOf selected chunks leased).map BatchRow.sequence = leased := by
    rw [prefillRowsOf, map_map]
    exact map_snd_zip (by rw [length_zip, hlength, ← hchunked.length_eq, Nat.min_self])
  have hleasedRows : leaseMany u.sequences ids =
      .ok ((prefillRowsOf selected chunks leased).map BatchRow.sequence) := by rw [hrows, hleased]
  have hidle : AllIdle (prefillRowsOf selected chunks leased) := by
    intro row hrow
    exact hledger.idle_of_lease hleasedRows row.sequence (mem_map_of_mem hrow)
  have hmoves : BatchMoves input.prefillCall (prefillRowsOf selected chunks leased)
      (prefillBatch model.cache model.device model.modelId input.prefillCall
        (prefillWorkspace model u.config) (prefillRowsOf selected chunks leased) u.cache) :=
    appendBatch_moves _ _ _ _ _ hidle
  rw [← prefillRowsOf]
  generalize prefillBatch model.cache model.device model.modelId input.prefillCall
    (prefillWorkspace model u.config) (prefillRowsOf selected chunks leased) u.cache = outcome
    at hmoves ⊢
  obtain ⟨⟨rows, cache⟩, result⟩ := outcome
  have hended := hledger.batch hleasedRows (mem_heldSequences howners) hmoves
  apply set_bind
  cases hmoves with
  | advanced moved =>
    exact finishPrefill_ok hended (prefilled_of_advanced howners hchunked hleased hlength moved)
  | kept moved =>
    have hstands : ∀ r ∈ selected, Settled words u.sequences r ∧ r.lifecycle = .prefilling :=
      forall_left_of_forall₂ hchunked fun _ _ hchunk => ⟨hchunk.settled, hchunk.lifecycle⟩
    have hnone : ∀ before ∈ prefillRowsOf selected chunks leased,
        (fun _ => 0 : BatchRow n β → Nat) before = 0 := fun _ _ => rfl
    have hkept := leads_of_moved howners hleasedRows moved hnone fun r hr =>
      (hstands r hr).1.leads
    refine Ensures.bind (requeuePrefills_ensures hended fun r hr => ?_) fun _ _ ht => ht
    exact ⟨⟨(hstands r hr).1.consistent, hkept r hr⟩, (hstands r hr).2⟩
  | torn row call idle length =>
    have htears := htimely.prefill
    rw [call] at htears
    cases htears

theorem runPrefillPhase_ensures (htimely : Timely input) (h : Sound words s) :
    Ensures (runPrefillPhase model input) s (fun _ => Sound words) (OnFailure (Sound words)) := by
  apply get_bind
  refine (eligiblePrefills_ensures _ _).bind fun eligible t ht => ?_
  subst ht
  refine (selectPrefill_ensures _ _ _ h).bind fun chosen u hu => ?_
  obtain ⟨hledger, hsequences, hchosen⟩ := hu
  rw [append_nil] at hledger
  split
  · exact sound_of_ledger hledger
  · apply modify_bind
    refine prefillSelected_ensures htimely hledger ?_
    rw [forall₂_map_left_iff, forall₂_map_right_iff, forall₂_same]
    intro entry hentry
    rw [hsequences]
    exact hchosen entry hentry

end

end Eider.Guarantees.CursorPrefill
