import Eider.Guarantees.SchedulerLedger

/-!
The decode phase keeps the ledger.
-/
namespace Eider.Guarantees.CursorDecode
open Lib Lib.ByteReader Source Source.Qwen36 List Ensures
open Guarantees.SchedulerLedger

variable {n words : Nat} {β κ φ C R K : Type}
variable {selected : List (Request K φ)} {r : Request K φ} {sample : SampledToken φ}
variable {pool : BTreeMap Nat (Sequence n β)}

/-! ## Selection -/

section
variable {s : Scheduler n β φ C K} {out : List (Request K φ)} {P : Scheduler n β φ C K → Prop}

theorem selectDecoding_ensures (rows : Nat) (h : Ledger words (booksOf s) out []) :
    Ensures (selectDecoding rows) s (fun selected t => Ledger words (booksOf t) (selected ++ out) [] ∧
      t.sequences = s.sequences ∧
      ∀ r ∈ selected, Settled words s.sequences r ∧ r.lifecycle = .decoding) (OnFailure P) := by
  induction rows generalizing s out with
  | zero => exact ⟨h, rfl, forall_mem_nil _⟩
  | succ rows ih =>
    apply get_bind
    split
    · exact ⟨h, rfl, forall_mem_nil _⟩
    · rename_i id rest hqueue
      apply modify_bind
      apply takeRequest_bind
      intro r hget
      have hlifecycle := h.decoding id (by simp [booksOf, hqueue]) r hget
      obtain ⟨hpopped, hnew⟩ := h.popDecoding hqueue
      obtain ⟨htaken, hsettled, -⟩ := hpopped.take hget hnew
      refine Ensures.bind (ih htaken) fun selected t ht => ?_
      refine ⟨ht.1.perm (perm_middle.symm), ht.2.1, ?_⟩
      exact forall_mem_cons.mpr ⟨⟨hsettled, hlifecycle⟩, ht.2.2⟩

/-- A request that the phase may decode: it goes on decoding, or stands before its last
prompt token. -/
def Decodable (r : Request K φ) : Prop :=
  r.lifecycle = .decoding ∨ r.lifecycle = .prefilling ∧ r.remainingPromptTokens = 1

/-- The phase holds requests that it may decode. -/
structure Selected (words : Nat) (s : Scheduler n β φ C K) (selected : List (Request K φ)) :
    Prop where
  ledger : Ledger words (booksOf s) selected []
  settled : ∀ r ∈ selected, Settled words s.sequences r
  decodable : ∀ r ∈ selected, Decodable r

theorem Selected.of_books {t : Scheduler n β φ C K} (h : Selected words s selected)
    (hbooks : booksOf t = booksOf s) : Selected words t selected := by
  have hsequences : t.sequences = s.sequences := congrArg Books.sequences hbooks
  exact ⟨hbooks ▸ h.ledger, hsequences ▸ h.settled, h.decodable⟩

theorem scanPrefilling_ensures (scan : Nat) (h : Selected words s selected) :
    Ensures (scanPrefilling scan selected) s (fun selected t => Selected words t selected)
      (OnFailure P) := by
  induction scan generalizing s selected with
  | zero => exact h
  | succ scan ih =>
    apply get_bind
    split
    · exact h
    · rename_i id rest hqueue
      have hturned := h.ledger.turnPrefilling hqueue
      split
      · apply expect_bind
        intro r hget
        split
        · rename_i hremaining
          apply set_bind
          apply takeRequest_bind
          intro r' hget'
          obtain rfl : r = r' := Option.some.inj (hget.symm.trans hget')
          have hlifecycle := h.ledger.prefilling id (by simp [booksOf, hqueue]) r hget
          obtain ⟨hpopped, hnew⟩ := h.ledger.popPrefilling hqueue
          obtain ⟨htaken, hsettled, -⟩ := hpopped.take hget hnew
          refine ih ⟨htaken.perm (perm_append_singleton r selected), ?_, ?_⟩
          · exact forall_mem_append.mpr ⟨h.settled, forall_mem_singleton.mpr hsettled⟩
          · exact forall_mem_append.mpr ⟨h.decodable,
              forall_mem_singleton.mpr (.inr ⟨hlifecycle, hremaining⟩)⟩
        · exact set_bind (ih ⟨hturned, h.settled, h.decodable⟩)
      · exact set_bind (ih ⟨hturned, h.settled, h.decodable⟩)

/-- An error hands the selected requests back to their queues. -/
theorem requeueSelected_ensures {E : Fault CudaError → Scheduler n β φ C K → Prop}
    (h : Selected words s selected) :
    Ensures (requeueSelected selected) s (fun _ t => Ledger words (booksOf t) [] []) E := by
  have hstart : Selected words s selected.reverse :=
    ⟨h.ledger.perm (reverse_perm selected), fun r hr => h.settled r (mem_reverse.mp hr),
      fun r hr => h.decodable r (mem_reverse.mp hr)⟩
  have hloop : Ensures (selected.reverse.forM requeueRequest) s (fun _ t => Selected words t []) E := by
    refine Ensures.forM (I := fun rest t => Selected words t rest) (fun r rest t ht => ?_) hstart
    have hsettled := ht.settled r mem_cons_self
    apply modify_bind
    obtain hlifecycle | ⟨hlifecycle, -⟩ := ht.decodable r mem_cons_self
    · rw [if_pos hlifecycle]
      exact ⟨ht.ledger.putDecoding hsettled hlifecycle (List.Perm.refl _),
        fun other hother => ht.settled other (mem_cons_of_mem _ hother),
        fun other hother => ht.decodable other (mem_cons_of_mem _ hother)⟩
    · rw [if_neg (by rw [hlifecycle]; decide)]
      exact ⟨ht.ledger.putPrefilling hsettled hlifecycle (List.Perm.refl _),
        fun other hother => ht.settled other (mem_cons_of_mem _ hother),
        fun other hother => ht.decodable other (mem_cons_of_mem _ hother)⟩
  exact hloop.imp fun _ _ ht => ht.ledger

end

/-! ## Samples -/

section
variable {s : Scheduler n β φ C K} {out : List (Request K φ)} {model : TextModel n β κ φ C R K}
variable {P : Scheduler n β φ C K → Prop} {samples : List (SampledToken φ)}

/-- A request between the model call and its samples. -/
structure Primed (words : Nat) (r : Request K φ) : Prop where
  decoding : r.lifecycle = .decoding →
    r.lastToken = r.generatedTokens.getLast?.map ScheduledToken.id ∧ r.generatedTokens ≠ [] ∧
      r.remainingPromptTokens = 0
  prefilling : r.lifecycle ≠ .decoding → r.lifecycle = .prefilling ∧
    r.remainingPromptTokens = 1 ∧ r.generatedTokens = [] ∧ r.specStarted = false
  started : r.specStarted = true → r.specReady = true
  grammar : ∀ g, r.toolGrammar = some g → g.maskWords = words

theorem Primed.consistent (h : Primed words r) (hdecoding : r.lifecycle = .decoding) :
    Consistent words r := { h with
  fresh := fun hlifecycle => by
    rw [hdecoding] at hlifecycle
    obtain hlifecycle | hlifecycle := hlifecycle <;> cases hlifecycle }

theorem Primed.unfinished (h : Primed words r) : r.lifecycle ≠ .finished := by
  intro hfinished
  have hprefilling := (h.prefilling (by rw [hfinished]; decide)).1
  rw [hfinished] at hprefilling
  cases hprefilling

theorem primed_of_decodable (h : Consistent words r) (hdecodable : Decodable r) :
    Primed words r := { h with
  prefilling := fun hlifecycle => by
    obtain hdecoding | ⟨hprefilling, hremaining⟩ := hdecodable
    · exact absurd hdecoding hlifecycle
    · obtain ⟨hgenerated, -, hready⟩ := h.fresh (.inr hprefilling)
      refine ⟨hprefilling, hremaining, hgenerated, ?_⟩
      by_contra hstarted
      rw [h.started (by simpa using hstarted)] at hready
      cases hready }

theorem applySample_lifecycle {complete : Bool}
    (h : (r.applySample sample complete).1.lifecycle ≠ .finished) :
    (r.applySample sample complete).1.lifecycle = .decoding := by
  unfold Request.applySample at h ⊢
  dsimp only at h ⊢
  split at h
  · exact absurd rfl h
  · rename_i hnone
    rw [if_neg hnone]

/-- The last prompt token is consumed by the first sample. -/
theorem applySample_remaining (sample : SampledToken φ) (complete : Bool) (h : Primed words r) :
    (r.applySample sample complete).1.remainingPromptTokens = 0 := by
  by_cases hdecoding : r.lifecycle = .decoding
  · have hremaining := (h.decoding hdecoding).2.2
    simp only [Request.applySample, hremaining]
    exact hremaining
  · have hremaining := (h.prefilling hdecoding).2.1
    simp only [Request.applySample, hremaining, if_true]
    unfold Request.remainingPromptTokens at hremaining ⊢
    dsimp only
    omega

theorem applySample_consumed (sample : SampledToken φ) (complete : Bool) (h : Primed words r)
    (hunfinished : (r.applySample sample complete).1.lifecycle ≠ .finished) :
    consumed (r.applySample sample complete).1 = consumed r + 1 := by
  have hlength : (r.applySample sample complete).1.generatedTokens.length =
      r.generatedTokens.length + 1 := by
    simp only [Request.applySample, length_append, length_singleton]
  have hprompt : (r.applySample sample complete).1.promptTokens = r.promptTokens := rfl
  have hstarted : (r.applySample sample complete).1.specStarted = r.specStarted := rfl
  rw [consumed, if_pos (applySample_lifecycle hunfinished), hlength, hprompt, hstarted, consumed]
  by_cases hdecoding : r.lifecycle = .decoding
  · have hgenerated := length_pos_iff.mpr (h.decoding hdecoding).2.1
    rw [if_pos hdecoding]
    cases r.specStarted
    · simp only [Bool.false_eq_true, if_false]
      omega
    · simp only [if_true]
      omega
  · obtain ⟨-, hremaining, hgenerated, hstarted⟩ := h.prefilling hdecoding
    unfold Request.remainingPromptTokens at hremaining
    simp only [if_neg hdecoding, hgenerated, hstarted, length_nil, Bool.false_eq_true, if_false]
    omega

theorem applySample_primed (sample : SampledToken φ) (complete : Bool) (h : Primed words r)
    (hunfinished : (r.applySample sample complete).1.lifecycle ≠ .finished) :
    Primed words (r.applySample sample complete).1 := { h with
  decoding := fun _ => by
    refine ⟨?_, ?_, applySample_remaining sample complete h⟩
    · simp [Request.applySample]
    · simp [Request.applySample]
  prefilling := fun hlifecycle => absurd (applySample_lifecycle hunfinished) hlifecycle }

/-- The samples of a request: they are what its sequence is ahead of its cursor, or the
only one ends the tool call. -/
inductive Sampled (words : Nat) (model : TextModel n β κ φ C R K)
    (pool : BTreeMap Nat (Sequence n β)) : Request K φ → List (SampledToken φ) → Prop
  | counted {r : Request K φ} {samples : List (SampledToken φ)} (primed : Primed words r)
      (leads : Leads pool samples.length r) (some : samples = [] → r.lifecycle = .decoding) :
      Sampled words model pool r samples
  | closing {r : Request K φ} {sample : SampledToken φ} {g : ToolGrammar K}
      (primed : Primed words r) (grammar : r.toolGrammar = some g)
      (complete : (g.commit model.constraint sample.id).2 = .ok () →
        (g.commit model.constraint sample.id).1.isComplete model.constraint = true) :
      Sampled words model pool r [sample]

theorem Sampled.congr {pool' : BTreeMap Nat (Sequence n β)} (h : Sampled words model pool r samples)
    (hsame : ∀ id, r.sequenceId = some id → pool'.get id = pool.get id) :
    Sampled words model pool' r samples := by
  cases h with
  | counted primed leads hsome => exact .counted primed (leads.congr hsame) hsome
  | closing primed grammar complete => exact .closing primed grammar complete

/-- A request behind its samples. -/
structure Turned (words : Nat) (pool : BTreeMap Nat (Sequence n β)) (r r' : Request K φ) :
    Prop where
  id : r'.id = r.id
  sequenceId : r'.sequenceId = r.sequenceId
  settled : Settled words pool r'
  lifecycle : r'.lifecycle = .finished ∨ r'.lifecycle = .decoding

/-- The grammar behind one sample. -/
def grammarAfter (model : TextModel n β κ φ C R K) (r : Request K φ) (sample : SampledToken φ) :
    Option (ToolGrammar K) :=
  (r.toolGrammar.map (·.commit model.constraint sample.id)).map Prod.fst

/-- The request behind one sample that its grammar admits. -/
def afterSample (model : TextModel n β κ φ C R K) (r : Request K φ) (sample : SampledToken φ) :
    Request K φ :=
  (Request.applySample { r with toolGrammar := grammarAfter model r sample } sample
    ((grammarAfter model r sample).any (·.isComplete model.constraint))).1

theorem grammarAfter_maskWords (h : Primed words r) :
    ∀ g, grammarAfter model r sample = some g → g.maskWords = words := by
  intro g hg
  obtain ⟨committed, hcommitted, rfl⟩ := Option.map_eq_some_iff.mp hg
  obtain ⟨g', hg', rfl⟩ := Option.map_eq_some_iff.mp hcommitted
  rw [ToolGrammar.commit_maskWords]
  exact h.grammar g' hg'

theorem applySamples_cons {rest : List (SampledToken φ)}
    {Q : Request K φ → Scheduler n β φ C K → Prop} (hfailed : P s)
    (hnext : (∀ g, r.toolGrammar = some g → (g.commit model.constraint sample.id).2 = .ok ()) →
      ∀ t, booksOf t = booksOf s →
        ((afterSample model r sample).lifecycle = .finished → Q (afterSample model r sample) t) ∧
        ((afterSample model r sample).lifecycle ≠ .finished →
          Ensures (applySamples model rest (afterSample model r sample)) t Q (OnFailure P))) :
    Ensures (applySamples model (sample :: rest) r) s Q (OnFailure P) := by
  apply attempt_bind _ hfailed
  intro _ hok
  have hnext := hnext fun g hg => by simpa [hg] using hok
  apply modify_bind
  change Ensures (if (afterSample model r sample).lifecycle = .finished then
    pure (afterSample model r sample) else applySamples model rest (afterSample model r sample)) _ _ _
  by_cases hfinished : (afterSample model r sample).lifecycle = .finished
  · rw [if_pos hfinished]
    refine Ensures.pure ((hnext _ ?_).1 hfinished)
    rfl
  · rw [if_neg hfinished]
    refine (hnext _ ?_).2 hfinished
    rfl

theorem primed_withGrammar {grammar : Option (ToolGrammar K)} (h : Primed words r)
    (hwords : ∀ g, grammar = some g → g.maskWords = words) :
    Primed words { r with toolGrammar := grammar } := { h with
  grammar := hwords }

theorem afterSample_primed (sample : SampledToken φ) (h : Primed words r)
    (hunfinished : (afterSample model r sample).lifecycle ≠ .finished) :
    Primed words (afterSample model r sample) ∧
      consumed (afterSample model r sample) = consumed r + 1 := by
  have hgrammar : Primed words { r with toolGrammar := grammarAfter model r sample } :=
    primed_withGrammar h (grammarAfter_maskWords h)
  exact ⟨applySample_primed sample _ hgrammar hunfinished,
    applySample_consumed sample _ hgrammar hunfinished⟩

theorem settled_of_finished (h : r.lifecycle = .finished)
    (hstarted : r.specStarted = true → r.specReady = true)
    (hgrammar : ∀ g, r.toolGrammar = some g → g.maskWords = words) : Settled words pool r where
  consistent := {
    fresh := fun hlifecycle => by
      rw [h] at hlifecycle
      obtain hlifecycle | hlifecycle := hlifecycle <;> cases hlifecycle
    decoding := fun hlifecycle => by
      rw [h] at hlifecycle
      cases hlifecycle
    started := hstarted
    grammar := hgrammar
  }
  leads := fun hunfinished => absurd h hunfinished

theorem afterSample_finished (h : Primed words r)
    (hfinished : (afterSample model r sample).lifecycle = .finished) :
    Turned words pool r (afterSample model r sample) where
  id := rfl
  sequenceId := rfl
  settled := settled_of_finished hfinished h.started (grammarAfter_maskWords h)
  lifecycle := .inl hfinished

/-- The samples move the cursor to where the sequence stands, or finish the request. -/
theorem applySamples_ensures
    (h : Sampled words model s.sequences r samples) (hfailed : ∀ t, booksOf t = booksOf s → P t) :
    Ensures (applySamples model samples r) s
      (fun r' t => booksOf t = booksOf s ∧ Turned words s.sequences r r') (OnFailure P) := by
  cases h with
  | @closing sample g primed grammar complete =>
    apply applySamples_cons (hfailed s rfl)
    intro hok t ht
    have hfinished : (afterSample model r sample).lifecycle = .finished := by
      have hcomplete := complete (hok g grammar)
      simp [afterSample, grammarAfter, Request.applySample, Request.finishAt, grammar, hcomplete]
    exact ⟨fun _ => ⟨ht, afterSample_finished primed hfinished⟩, fun hne => absurd hfinished hne⟩
  | counted primed leads hsome =>
    induction samples generalizing s r with
    | nil =>
      have hdecoding := hsome rfl
      exact ⟨rfl, rfl, rfl, ⟨primed.consistent hdecoding, leads⟩, .inr hdecoding⟩
    | cons sample rest ih =>
      apply applySamples_cons (hfailed s rfl)
      intro hok t ht
      refine ⟨fun hfinished => ⟨ht, afterSample_finished primed hfinished⟩, fun hunfinished => ?_⟩
      obtain ⟨hprimed, hconsumed⟩ := afterSample_primed sample primed hunfinished
      have hsequences : t.sequences = s.sequences := congrArg Books.sequences ht
      have hleads : Leads t.sequences rest.length (afterSample model r sample) := by
        intro _ id hid
        obtain ⟨sequence, hget, hposition⟩ := leads primed.unfinished id hid
        refine ⟨sequence, hsequences ▸ hget, ?_⟩
        rw [hposition, hconsumed, length_cons]
        omega
      have hrest := ih (fun t' ht' => hfailed t' (ht'.trans ht)) hprimed hleads
        fun _ => applySample_lifecycle hunfinished
      refine hrest.imp fun r' t' ht' => ⟨ht'.1.trans ht, ?_⟩
      rw [hsequences] at ht'
      exact { ht'.2 with }

end

/-! ## The end of a turn -/

section
variable {s : Scheduler n β φ C K} {out : List (Request K φ)} {model : TextModel n β κ φ C R K}

/-- The invariant between the phases: nothing is held. -/
def Sound (words : Nat) (s : Scheduler n β φ C K) : Prop := Ledger words (booksOf s) [] []

theorem sound_of_ledger {out : List (Request K φ)} (h : Ledger words (booksOf s) out []) :
    Sound words s := by
  rw [← append_nil out] at h
  exact h.lose

theorem settleRequest_ensures (h : Ledger words (booksOf s) (r :: out) [])
    (hsettled : Settled words s.sequences r)
    (hlifecycle : r.lifecycle = .finished ∨ r.lifecycle = .decoding) :
    Ensures (settleRequest model r) s (fun _ t => Ledger words (booksOf t) out [] ∧
      ∀ id, r.sequenceId ≠ some id → t.sequences.get id = s.sequences.get id)
      (OnFailure (Sound words)) := by
  unfold settleRequest
  split
  · rename_i hfinished
    apply expect_bind
    intro id hid
    have hheld : id ∈ heldSequences (r :: out) [] :=
      mem_append_left _ (mem_filterMap.mpr ⟨r, mem_cons_self, hid⟩)
    have herased := h.eraseSequence hheld
    refine releaseSequence_bind (fun _ _ => ?_) (sound_of_ledger h)
    refine Ensures.bind (finishSequence_ensures (Q := fun _ t => ∃ c, t = { s with
      sequences := s.sequences.erase id, cache := c }) (fun c => ⟨c, rfl⟩)
      fun _ => sound_of_ledger herased) fun _ t ht => ?_
    obtain ⟨c, rfl⟩ := ht
    apply modify_bind
    refine Ensures.modify ⟨?_, ?_⟩
    · apply (herased.release { r with sequenceId := none } rfl rfl).put
      exact settled_of_finished hfinished hsettled.consistent.started hsettled.consistent.grammar
    · intro other hother
      have hne : other ≠ id := fun heq => hother (heq ▸ hid)
      exact BTreeMap.get_erase_of_ne _ hne
  · rename_i hunfinished
    have hdecoding := hlifecycle.resolve_left hunfinished
    apply modify_bind
    refine Ensures.modify ⟨?_, fun _ _ => rfl⟩
    exact h.putDecoding hsettled hdecoding (perm_append_singleton _ _)

/-- The last loop of the phase: each request ends its turn behind its samples. -/
theorem settleRequests_ensures {held : List (Request K φ × List (SampledToken φ))}
    (h : Ledger words (booksOf s) (held.map Prod.fst) [])
    (hsampled : ∀ entry ∈ held, Sampled words model s.sequences entry.1 entry.2) :
    Ensures (settleRequests model held) s (fun _ => Sound words) (OnFailure (Sound words)) := by
  induction held generalizing s with
  | nil => exact h
  | cons entry rest ih =>
    have happly := applySamples_ensures (P := Sound words) (hsampled _ mem_cons_self)
      fun t ht => sound_of_ledger (ht.symm ▸ h)
    refine happly.bind fun r' t ht => ?_
    obtain ⟨hbooks, hturned⟩ := ht
    have hsequences : t.sequences = s.sequences := congrArg Books.sequences hbooks
    have hledger : Ledger words (booksOf t) (r' :: rest.map Prod.fst) [] := by
      rw [hbooks]
      exact h.change r' hturned.id hturned.sequenceId
    have hsettled : Settled words t.sequences r' := hsequences.symm ▸ hturned.settled
    refine (settleRequest_ensures hledger hsettled hturned.lifecycle).bind fun _ u hu => ?_
    apply ih hu.1
    intro entry hentry
    apply (hsampled entry (mem_cons_of_mem _ hentry)).congr
    intro id hid
    rw [hu.2 id, hsequences]
    intro hsame
    exact hledger.ne_of_held hsame (mem_map_of_mem hentry) hid

end

end Eider.Guarantees.CursorDecode
