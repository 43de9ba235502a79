import Eider.Source.Generation

/-!
When a generation session of Qwen3.6 comes to its end
(`infer/src/execution/generation.rs`, lines 138 to 195 and 285 to 326).

The scheduler ends a stream at an end token or at the last token allowed. Where that last
token completes a chunk of text without a stop sequence, the session replaces the reason
of the scheduler by none, and then waits for a token that no tick gives. On every other
stream it yields what a session of Nemotron 3 yields.
-/
namespace Eider.Guarantees.GenerationSessions
open Lib.Await Option
open Source Source.Generation
open Source.Qwen36 (Request SampledToken prefillChunkTokens fairShare)

variable {K φ δ : Type}

/-! ## The tokens of the scheduler -/

/-- The request of a session behind a number of tokens, with more to come. -/
structure Running (prompt : List Nat) (config : GenerationConfig) (count : Nat)
    (r : Request K φ) : Prop where
  prompt : r.promptTokens = prompt
  budget : r.config.maxNewTokens = config.maxNewTokens
  ends : r.config.eosTokenIds = config.eosTokenIds
  generated : r.generatedTokens.length = count
  lifecycle : r.lifecycle = .waiting ∨ r.lifecycle = .decoding ∨
    r.lifecycle = .prefilling ∧ 0 < r.prefillableTokens

/-- The reason that the scheduler gives with a token. -/
def scheduledReason (config : GenerationConfig) (count id : Nat) : Option RequestFinishReason :=
  if config.eosTokenIds.contains id then some .eos
  else if count + 1 = config.maxNewTokens then some .length
  else none

/-- What a tick gives: the next token of the stream, with the request behind it. -/
structure Given (prompt : List Nat) (config : GenerationConfig) (select : Nat → SampledToken φ)
    (count : Nat) (token : ScheduledToken) (r : Request K φ) : Prop where
  id : token.id = (select count).id
  reason : token.finishReason = scheduledReason config count (select count).id
  finished : token.finishReason.isSome → r.lifecycle = .finished
  running : token.finishReason = none → Running prompt config (count + 1) r

section
variable {prompt : List Nat} {config : GenerationConfig} {capacity count : Nat}
  {select : Nat → SampledToken φ} {r : Request K φ}

theorem applySample_given (h : Running prompt config count r) :
    Given prompt config select count
      (r.applySample (select r.generatedTokens.length) false).2
      (r.applySample (select r.generatedTokens.length) false).1 where
  id := by rw [← h.generated]; rfl
  reason := by
    rw [scheduledReason, ← h.ends, ← h.budget, ← h.generated]
    rfl
  finished := fun hsome => if_pos hsome
  running := fun hnone => by
    refine ⟨h.prompt, h.budget, h.ends, ?_, .inr (.inl ?_)⟩
    · rw [Request.applySample, List.length_append, h.generated]
      rfl
    · have unfinished : r.finishAt (select r.generatedTokens.length).id false = none := hnone
      exact if_neg (by simp [unfinished])

theorem prefillChunk_bounds {available : Nat} (position target : Nat) (retained : Bool)
    (hcapacity : 0 < capacity) (hmore : 0 < available) :
    0 < prefillChunkTokens available (fairShare capacity 1) position target retained ∧
      prefillChunkTokens available (fairShare capacity 1) position target retained ≤ available := by
  unfold prefillChunkTokens fairShare
  dsimp only
  split <;> omega

/-- A tick of a running request gives its next token, or draws nearer to it. -/
theorem tickRequest_speaks (hcapacity : 0 < capacity) (h : Running prompt config count r) :
    (∃ token after, tickRequest capacity select r = (some token, after) ∧
        Given prompt config select count token after) ∨
      ∃ after, tickRequest capacity select r = (none, after) ∧
        Running prompt config count after ∧
        after.remainingPromptTokens < r.remainingPromptTokens := by
  have admitted : Running prompt config count (admitRequest r) ∧
      (admitRequest r).lifecycle ≠ .waiting ∧
      (admitRequest r).remainingPromptTokens = r.remainingPromptTokens := by
    rw [admitRequest]
    split
    · refine ⟨⟨h.prompt, h.budget, h.ends, h.generated, ?_⟩, ?_, rfl⟩
      · split
        · exact .inr (.inl rfl)
        · exact .inr (.inr ⟨rfl, Nat.pos_of_ne_zero (by assumption)⟩)
      · dsimp only
        split <;> decide
    · exact ⟨h, by assumption, rfl⟩
  obtain ⟨running, hwaiting, hremaining⟩ := admitted
  rw [← hremaining, tickRequest]
  generalize admitRequest r = r' at running hwaiting ⊢
  rcases running.lifecycle with hlife | hlife | ⟨hlife, hmore⟩
  · exact absurd hlife hwaiting
  · left
    simp only [hlife]
    exact ⟨_, _, rfl, applySample_given running⟩
  · right
    simp only [hlife]
    obtain ⟨hpos, hle⟩ := prefillChunk_bounds r'.promptPosition r'.prefixTarget r'.prefixRetained
      hcapacity hmore
    dsimp only [Request.prefillableTokens, Request.remainingPromptTokens] at hmore hpos hle ⊢
    refine ⟨_, rfl, ⟨running.prompt, running.budget, running.ends, running.generated, ?_⟩, ?_⟩
    · by_cases hend : r'.promptPosition +
          prefillChunkTokens (r'.promptTokens.length - r'.promptPosition - 1) (fairShare capacity 1)
            r'.promptPosition r'.prefixTarget r'.prefixRetained + 1 = r'.promptTokens.length
      · exact .inr (.inl (if_pos hend))
      · refine .inr (.inr ⟨if_neg hend, ?_⟩)
        dsimp only [Request.prefillableTokens, Request.remainingPromptTokens]
        omega
    · dsimp only
      omega

theorem await_running (hcapacity : 0 < capacity) (h : Running prompt config count r) :
    ∃ token after, Given prompt config select count token after ∧
      await (tickScheduler capacity select) (prompt.length + 1) (some r) =
        some (token, some after) ∧
      ∀ ticks, await (tickScheduler capacity select) ticks (some r) = none ∨
        await (tickScheduler capacity select) ticks (some r) = some (token, some after) := by
  let inv : Option (Request K φ) → Prop := fun s => ∃ r, s = some r ∧ Running prompt config count r
  let gives : ScheduledToken → Option (Request K φ) → Prop := fun token s =>
    ∃ after, s = some after ∧ Given prompt config select count token after
  let measure : Option (Request K φ) → Nat := fun s => (s.map Request.remainingPromptTokens).getD 0
  have speaks : ∀ s, inv s → (∃ token t, tickScheduler capacity select s = (some token, t) ∧
      gives token t) ∨
      ∃ t, tickScheduler capacity select s = (none, t) ∧ inv t ∧ measure t < measure s := by
    rintro _ ⟨r, rfl, running⟩
    rcases tickRequest_speaks hcapacity running with ⟨token, after, htick, given⟩ |
      ⟨after, htick, running', hless⟩
    · exact .inl ⟨token, some after, by rw [tickScheduler, htick], after, rfl, given⟩
    · exact .inr ⟨some after, by rw [tickScheduler, htick], ⟨after, rfl, running'⟩, hless⟩
  have start : inv (some r) := ⟨r, rfl, h⟩
  have hmeasure : measure (some r) < prompt.length + 1 := by
    have hle : r.promptTokens.length - r.promptPosition ≤ prompt.length := by
      rw [h.prompt]
      exact Nat.sub_le _ _
    exact Nat.lt_succ_of_le hle
  obtain ⟨token, s, hawait, after, rfl, given⟩ := await_of_measure measure speaks start hmeasure
  refine ⟨token, after, given, hawait, fun ticks => ?_⟩
  cases hticks : await (tickScheduler capacity select) ticks (some r) with
  | none => exact .inl rfl
  | some x =>
    right
    have early := await_mono hticks (Nat.le_max_left ticks (prompt.length + 1))
    have late := await_mono hawait (Nat.le_max_right ticks (prompt.length + 1))
    exact early.symm.trans late

/-- A request that the scheduler has finished gives nothing more. -/
theorem await_finished (ticks : Nat) (h : r.lifecycle = .finished) :
    await (tickScheduler capacity select) ticks (some r) = none := by
  have silent : ∀ s : Option (Request K φ), (∃ r, s = some r ∧ r.lifecycle = .finished) →
      ∃ t, tickScheduler capacity select s = (none, t) ∧
        ∃ r, t = some r ∧ r.lifecycle = .finished := by
    rintro _ ⟨r, rfl, hfinished⟩
    have admitted : admitRequest r = r := by
      rw [admitRequest, if_neg (by simp [hfinished])]
    refine ⟨some r, ?_, r, rfl, hfinished⟩
    simp only [tickScheduler, tickRequest, admitted, hfinished]
  exact await_silent silent ⟨r, rfl, h⟩

end

/-! ## One token of both sessions -/

/-- A session of Qwen3.6 and one of Nemotron 3 behind the same tokens, both unfinished. -/
structure Paired (prompt : List Nat) (config : GenerationConfig) (count : Nat)
    (q : Qwen36GenerationSession K φ δ) (v : Nemotron3GenerationSession δ) : Prop where
  capacity : 0 < q.prefillTokenCapacity
  request : ∃ r, q.scheduler = some r ∧ Running prompt config count r
  unfinished : q.finishReason = none
  decodeStream : v.decodeStream = q.decodeStream
  stopBuffer : v.stopBuffer = q.stopBuffer
  config : v.config = config
  generated : v.generatedTokens = count
  input : v.prefilled = true → v.lastToken ≠ none
  waiting : v.finishReason = none

/-- Both sessions yield a token with a reason and are finished with it. -/
structure Finish (token : GeneratedToken) (reason : GenerationFinishReason)
    (q : Qwen36GenerationSession K φ δ) (v : Nemotron3GenerationSession δ) : Prop where
  token : token.finishReason = some reason
  qwen : q.finishReason = some reason
  nemotron : v.finishReason = some reason

/-- The session of Qwen3.6 waits behind the last token of its scheduler. -/
structure Stuck (q : Qwen36GenerationSession K φ δ) : Prop where
  unfinished : q.finishReason = none
  request : ∃ r, q.scheduler = some r ∧ r.lifecycle = .finished

section
variable {prompt : List Nat} {config : GenerationConfig} {count : Nat} {outside : Outside δ φ}
  {q : Qwen36GenerationSession K φ δ} {v : Nemotron3GenerationSession δ} {r : Request K φ}
  {token : ScheduledToken} {stream : δ} {buffer : StopBuffer} {output : StopOutput} {id : Nat}

/-- What the scheduler's end means for the session of Qwen3.6: the text held back comes
with it. -/
theorem qwen_end (outside : Outside δ φ) (q : Qwen36GenerationSession K φ δ)
    (hreason : token.finishReason = some .eos) :
    ∃ q', q.takeToken outside token =
        (.ok (some ⟨token.id, q.stopBuffer.pending, some .eos⟩), q') ∧
      q'.finishReason = some .eos := by
  simp [Qwen36GenerationSession.takeToken, hreason, Qwen36GenerationSession.mapFinish,
    StopBuffer.finish]

/-- A token that the scheduler ends with no reason, or for its length. -/
def Ordinary (token : ScheduledToken) : Prop :=
  token.finishReason = none ∨ token.finishReason = some .length

theorem qwen_error {e : CudaError} (hordinary : Ordinary token)
    (hpush : pushToken outside q.decodeStream q.stopBuffer token.id = .error e) :
    ∃ q', q.takeToken outside token = (.error e, q') := by
  rcases hordinary with hreason | hreason <;>
    simp [Qwen36GenerationSession.takeToken, hreason, Qwen36GenerationSession.mapFinish, hpush]

/-- A token without a chunk keeps the reason of the scheduler. -/
theorem qwen_last (hreason : token.finishReason = some .length)
    (hpush : pushToken outside q.decodeStream q.stopBuffer token.id = .ok (stream, none)) :
    ∃ q', q.takeToken outside token =
        (.ok (some ⟨token.id, q.stopBuffer.pending, some .length⟩), q') ∧
      q'.finishReason = some .length := by
  simp [Qwen36GenerationSession.takeToken, hreason, Qwen36GenerationSession.mapFinish, hpush,
    StopBuffer.finish]

theorem qwen_silent (hreason : token.finishReason = none)
    (hpush : pushToken outside q.decodeStream q.stopBuffer token.id = .ok (stream, none)) :
    q.takeToken outside token = (.ok (some ⟨token.id, [], none⟩), { q with
      generatedTokens := q.generatedTokens + 1
      history := q.history ++ [token.id]
      decodeStream := stream }) := by
  simp [Qwen36GenerationSession.takeToken, hreason, hpush]

theorem qwen_matched {sequence : Text} (hordinary : Ordinary token)
    (hpush : pushToken outside q.decodeStream q.stopBuffer token.id =
      .ok (stream, some (buffer, output))) (hmatched : output.matched = some sequence) :
    ∃ q', q.takeToken outside token =
        (.ok (some ⟨token.id, output.text, some (.stopSequence sequence)⟩), q') ∧
      q'.finishReason = some (.stopSequence sequence) := by
  rcases hordinary with hreason | hreason <;>
    simp [Qwen36GenerationSession.takeToken, hreason, Qwen36GenerationSession.mapFinish, hpush,
      hmatched]

theorem qwen_chunk (hordinary : Ordinary token)
    (hpush : pushToken outside q.decodeStream q.stopBuffer token.id =
      .ok (stream, some (buffer, output))) (hmatched : output.matched = none) :
    q.takeToken outside token = (.ok (some ⟨token.id, output.text, none⟩), { q with
      generatedTokens := q.generatedTokens + 1
      history := q.history ++ [token.id]
      decodeStream := stream
      stopBuffer := buffer }) := by
  rcases hordinary with hreason | hreason <;>
    simp [Qwen36GenerationSession.takeToken, hreason, Qwen36GenerationSession.mapFinish, hpush,
      hmatched]

theorem nemotron_end (outside : Outside δ φ) (hend : v.config.eosTokenIds.contains id = true) :
    ∃ v', v.takeToken outside id = (.ok (some ⟨id, v.stopBuffer.pending, some .eos⟩), v') ∧
      v'.finishReason = some .eos := by
  simp only [Nemotron3GenerationSession.takeToken, hend, if_true, StopBuffer.finish,
    reduceCtorEq, false_and, if_false, Prod.mk.injEq, true_and, exists_eq_left']

theorem nemotron_last (hend : v.config.eosTokenIds.contains id = false)
    (hcount : v.generatedTokens + 1 = v.config.maxNewTokens)
    (hpush : pushToken outside v.decodeStream v.stopBuffer id = .ok (stream, none)) :
    ∃ v', v.takeToken outside id =
        (.ok (some ⟨id, v.stopBuffer.pending, some .length⟩), v') ∧
      v'.finishReason = some .length := by
  simp only [Nemotron3GenerationSession.takeToken, hend, Bool.false_eq_true, if_false, hpush,
    hcount, and_self, if_true, StopBuffer.finish, List.nil_append, Prod.mk.injEq, true_and,
    exists_eq_left']

theorem nemotron_silent (hend : v.config.eosTokenIds.contains id = false)
    (hcount : v.generatedTokens + 1 ≠ v.config.maxNewTokens)
    (hpush : pushToken outside v.decodeStream v.stopBuffer id = .ok (stream, none)) :
    v.takeToken outside id = (.ok (some ⟨id, [], none⟩), { v with
      generatedTokens := v.generatedTokens + 1
      lastToken := some id
      history := v.history ++ [id]
      decodeStream := stream }) := by
  simp only [Nemotron3GenerationSession.takeToken, hend, Bool.false_eq_true, if_false, hpush,
    hcount, and_false]

theorem nemotron_matched {sequence : Text} (hend : v.config.eosTokenIds.contains id = false)
    (hpush : pushToken outside v.decodeStream v.stopBuffer id =
      .ok (stream, some (buffer, output))) (hmatched : output.matched = some sequence) :
    ∃ v', v.takeToken outside id =
        (.ok (some ⟨id, output.text, some (.stopSequence sequence)⟩), v') ∧
      v'.finishReason = some (.stopSequence sequence) := by
  simp only [Nemotron3GenerationSession.takeToken, hend, Bool.false_eq_true, if_false, hpush,
    hmatched, map_some, reduceCtorEq, false_and, Prod.mk.injEq, true_and,
    exists_eq_left']

theorem nemotron_chunk (hend : v.config.eosTokenIds.contains id = false)
    (hcount : v.generatedTokens + 1 ≠ v.config.maxNewTokens)
    (hpush : pushToken outside v.decodeStream v.stopBuffer id =
      .ok (stream, some (buffer, output))) (hmatched : output.matched = none) :
    v.takeToken outside id = (.ok (some ⟨id, output.text, none⟩), { v with
      generatedTokens := v.generatedTokens + 1
      lastToken := some id
      history := v.history ++ [id]
      decodeStream := stream
      stopBuffer := buffer }) := by
  simp only [Nemotron3GenerationSession.takeToken, hend, Bool.false_eq_true, if_false, hpush,
    hmatched, map_none, hcount, and_false]

end

/-! ## One call of both sessions -/

/-- Whether a stream from a token on, with as many tokens left, comes to an end token, a
stop sequence, or a last token that completes no chunk. -/
def settles (outside : Outside δ φ) (config : GenerationConfig) :
    Nat → Nat → δ → StopBuffer → Bool
  | 0, _, _, _ => false
  | left + 1, count, stream, buffer =>
    let id := (outside.select count).id
    config.eosTokenIds.contains id ||
      match pushToken outside stream buffer id with
      | .error _ => false
      | .ok (stream, none) => left == 0 || settles outside config left (count + 1) stream buffer
      | .ok (stream, some (buffer, output)) =>
        output.matched.isSome || settles outside config left (count + 1) stream buffer

/-- What a call on both sessions comes to, with the tokens left behind it. -/
inductive Turned (outside : Outside δ φ) (prompt : List Nat) (config : GenerationConfig)
    (left count : Nat) (settled : Bool) :
    Except CudaError (Option GeneratedToken) × Qwen36GenerationSession K φ δ →
      Except CudaError (Option GeneratedToken) × Nemotron3GenerationSession δ → Prop where
  | finish {t reason q v} (finished : Finish t reason q v) (settles : settled = true) :
      Turned outside prompt config left count settled (.ok (some t), q) (.ok (some t), v)
  | onward {t q v} (paired : Paired prompt config (count + 1) q v) (more : left ≠ 0)
      (later : settled = settles outside config left (count + 1) q.decodeStream q.stopBuffer) :
      Turned outside prompt config left count settled (.ok (some t), q) (.ok (some t), v)
  | failed {e q y} (unsettled : settled = false) :
      Turned outside prompt config left count settled (.error e, q) y
  | stuck {t q y} (stuck : Stuck q) (unsettled : settled = false) :
      Turned outside prompt config left count settled (.ok (some t), q) y

section
variable {prompt : List Nat} {config : GenerationConfig} {left count : Nat}
  {outside : Outside δ φ} {q : Qwen36GenerationSession K φ δ}
  {v : Nemotron3GenerationSession δ}

theorem qwen_reads (outside : Outside δ φ) (h : Paired prompt config count q v) :
    ∃ token after, Given prompt config outside.select count token after ∧
      q.nextToken outside (prompt.length + 1) =
        some (Qwen36GenerationSession.takeToken outside { q with scheduler := some after } token) ∧
      ∀ ticks, q.nextToken outside ticks = none ∨ q.nextToken outside ticks =
        some (Qwen36GenerationSession.takeToken outside { q with scheduler := some after } token) := by
  obtain ⟨r, hr, running⟩ := h.request
  obtain ⟨token, after, given, hawait, hticks⟩ := await_running h.capacity running
  refine ⟨token, after, given, ?_, fun ticks => ?_⟩
  · simp only [Qwen36GenerationSession.nextToken, h.unfinished, hr, hawait, isSome_none,
      Bool.false_eq_true, if_false]
  · rcases hticks ticks with hnone | hsome
    · left
      simp only [Qwen36GenerationSession.nextToken, h.unfinished, hr, hnone, isSome_none,
        Bool.false_eq_true, if_false]
    · right
      simp only [Qwen36GenerationSession.nextToken, h.unfinished, hr, hsome, isSome_none,
        Bool.false_eq_true, if_false]

theorem nextInputToken_ok (h : v.prefilled = true → v.lastToken ≠ none) :
    ∃ input, v.nextInputToken = (.ok input, { v with prefilled := true }) := by
  rw [Nemotron3GenerationSession.nextInputToken]
  cases hprefilled : v.prefilled with
  | false => exact ⟨_, rfl⟩
  | true =>
    obtain ⟨token, htoken⟩ := ne_none_iff_exists'.mp (h hprefilled)
    refine ⟨token, ?_⟩
    cases v
    subst hprefilled htoken
    rfl

theorem nemotron_reads (h : Paired prompt config count q v) :
    v.nextToken outside =
      Nemotron3GenerationSession.takeToken outside { v with prefilled := true }
        (outside.select count).id := by
  have running : v.finishReason.isSome = false := by rw [h.waiting]; rfl
  obtain ⟨input, hinput⟩ := nextInputToken_ok h.input
  simp only [Nemotron3GenerationSession.nextToken, running, hinput, Bool.false_eq_true, if_false,
    h.generated]

theorem ordinary_of_given {token : ScheduledToken} {r : Request K φ}
    (given : Given prompt config outside.select count token r)
    (hend : config.eosTokenIds.contains (outside.select count).id = false) :
    token.finishReason = if count + 1 = config.maxNewTokens then some .length else none := by
  rw [given.reason, scheduledReason, hend, if_neg (by decide)]

theorem turn (outside : Outside δ φ) (h : Paired prompt config count q v)
    (hlast : count + (left + 1) = config.maxNewTokens) :
    ∃ x, q.nextToken outside (prompt.length + 1) = some x ∧
      (∀ ticks, q.nextToken outside ticks = none ∨ q.nextToken outside ticks = some x) ∧
      Turned outside prompt config left count
        (settles outside config (left + 1) count q.decodeStream q.stopBuffer) x
        (v.nextToken outside) := by
  obtain ⟨token, after, given, hnext, hticks⟩ := qwen_reads outside h
  refine ⟨_, hnext, hticks, ?_⟩
  rw [nemotron_reads h, settles]
  cases hend : config.eosTokenIds.contains (outside.select count).id with
  | true =>
    have hreason : token.finishReason = some .eos := by
      rw [given.reason, scheduledReason, if_pos hend]
    obtain ⟨q', hq, hqreason⟩ := qwen_end outside { q with scheduler := some after } hreason
    have hend' : ({ v with prefilled := true } : Nemotron3GenerationSession δ).config.eosTokenIds.contains
        (outside.select count).id = true := by
      rw [← hend, ← h.config]
    obtain ⟨v', hv, hvreason⟩ := nemotron_end outside hend'
    rw [hq, hv, given.id]
    simp only [h.stopBuffer]
    exact .finish ⟨rfl, hqreason, hvreason⟩ rfl
  | false =>
    have hreason := ordinary_of_given given hend
    have hordinary : Ordinary token := by
      rw [Ordinary, hreason]
      split
      · exact .inr rfl
      · exact .inl rfl
    have hend' : ({ v with prefilled := true } : Nemotron3GenerationSession δ).config.eosTokenIds.contains
        (outside.select count).id = false := by
      rw [← hend, ← h.config]
    have hcount : ({ v with prefilled := true } : Nemotron3GenerationSession δ).generatedTokens + 1 =
        ({ v with prefilled := true } : Nemotron3GenerationSession δ).config.maxNewTokens ↔
          left = 0 := by
      have generated := h.generated
      have budget := congrArg GenerationConfig.maxNewTokens h.config
      dsimp only
      omega
    -- what the decode stream makes of the token
    cases hpush : pushToken outside q.decodeStream q.stopBuffer (outside.select count).id with
    | error e =>
      obtain ⟨q', hq⟩ := qwen_error hordinary (q := { q with scheduler := some after })
        (by rw [given.id]; exact hpush)
      rw [hq]
      exact .failed rfl
    | ok pushed =>
      obtain ⟨stream, _ | ⟨buffer, output⟩⟩ := pushed
      · have hpushQ : pushToken outside q.decodeStream q.stopBuffer token.id =
            .ok (stream, none) := by
          rw [given.id]
          exact hpush
        have hpushV : pushToken outside v.decodeStream v.stopBuffer (outside.select count).id =
            .ok (stream, none) := by
          rw [h.decodeStream, h.stopBuffer]
          exact hpush
        by_cases hleft : left = 0
        · rw [if_pos (by omega)] at hreason
          obtain ⟨q', hq, hqreason⟩ := qwen_last hreason (q := { q with scheduler := some after }) hpushQ
          obtain ⟨v', hv, hvreason⟩ := nemotron_last (v := { v with prefilled := true }) hend'
            (hcount.mpr hleft) hpushV
          rw [hq, hv, given.id]
          simp only [h.stopBuffer]
          exact .finish ⟨rfl, hqreason, hvreason⟩ (by simp [hleft])
        · rw [if_neg (by omega)] at hreason
          rw [qwen_silent hreason (q := { q with scheduler := some after }) hpushQ,
            nemotron_silent (v := { v with prefilled := true }) hend' (hleft ∘ hcount.mp) hpushV,
            given.id]
          refine .onward ⟨h.capacity, ⟨after, rfl, given.running hreason⟩, h.unfinished, rfl,
            h.stopBuffer, h.config, ?_, nofun, h.waiting⟩ hleft (by simp [hleft])
          exact congrArg (· + 1) h.generated
      · have hpushQ : pushToken outside q.decodeStream q.stopBuffer token.id =
            .ok (stream, some (buffer, output)) := by
          rw [given.id]
          exact hpush
        have hpushV : pushToken outside v.decodeStream v.stopBuffer (outside.select count).id =
            .ok (stream, some (buffer, output)) := by
          rw [h.decodeStream, h.stopBuffer]
          exact hpush
        cases hmatched : output.matched with
        | some sequence =>
          obtain ⟨q', hq, hqreason⟩ := qwen_matched hordinary
            (q := { q with scheduler := some after }) hpushQ hmatched
          obtain ⟨v', hv, hvreason⟩ := nemotron_matched (v := { v with prefilled := true }) hend'
            hpushV hmatched
          rw [hq, hv, given.id]
          exact .finish ⟨rfl, hqreason, hvreason⟩ (by simp [hmatched])
        | none =>
          rw [qwen_chunk hordinary (q := { q with scheduler := some after }) hpushQ hmatched]
          by_cases hleft : left = 0
          · rw [if_pos (by omega)] at hreason
            have finished : after.lifecycle = .finished := given.finished (by rw [hreason]; rfl)
            exact .stuck ⟨h.unfinished, after, rfl, finished⟩ (by simp [hmatched, hleft, settles])
          · rw [if_neg (by omega)] at hreason
            rw [nemotron_chunk (v := { v with prefilled := true }) hend' (hleft ∘ hcount.mp) hpushV
              hmatched, given.id]
            refine .onward ⟨h.capacity, ⟨after, rfl, given.running hreason⟩, h.unfinished, rfl,
              rfl, h.config, ?_, nofun, h.waiting⟩ hleft (by simp [hmatched])
            exact congrArg (· + 1) h.generated

end

/-! ## Whole sessions -/

variable (outside : Outside δ φ)

/-- The tokens of a session of Qwen3.6, with as many ticks for each call. -/
def qwenTokens (ticks calls : Nat) (q : Qwen36GenerationSession K φ δ) :
    Option (Except CudaError (List GeneratedToken) × Qwen36GenerationSession K φ δ) :=
  collect (fun q => q.nextToken outside ticks) calls q

/-- The tokens of a session of Nemotron 3. -/
def nemotronTokens (calls : Nat) (v : Nemotron3GenerationSession δ) :
    Option (Except CudaError (List GeneratedToken) × Nemotron3GenerationSession δ) :=
  collect (fun v => some (v.nextToken outside)) calls v

/-- The text of a session. -/
def textOf (tokens : List GeneratedToken) : Text := (tokens.map GeneratedToken.text).flatten

/-- Both sessions come to an end with the same text and the same reason: the session of
Qwen3.6 yields at most the tokens allowed, the last of them with the reason, and nothing
behind it. -/
def Completes (config : GenerationConfig)
    (q : Qwen36GenerationSession K φ δ) (v : Nemotron3GenerationSession δ) : Prop :=
  ∃ ticks calls tokens tokens' q' v' reason,
    qwenTokens outside ticks calls q = some (.ok tokens, q') ∧
      nemotronTokens outside calls v = some (.ok tokens', v') ∧
      tokens.length ≤ config.maxNewTokens ∧ (tokens = [] → config.maxNewTokens = 0) ∧
      (∀ last, tokens.getLast? = some last → last.finishReason = some reason) ∧
      q'.finishReason = some reason ∧ v'.finishReason = some reason ∧
      textOf tokens = textOf tokens' ∧ ∀ ticks, q'.nextToken outside ticks = some (.ok none, q')

section
variable {prompt : List Nat} {config : GenerationConfig} {left count : Nat}
  {outside : Outside δ φ} {q q' : Qwen36GenerationSession K φ δ}
  {v v' : Nemotron3GenerationSession δ} {reason : GenerationFinishReason}

theorem nextToken_finished (h : q.finishReason = some reason)
    (ticks : Nat) : q.nextToken outside ticks = some (.ok none, q) := by
  rw [Qwen36GenerationSession.nextToken, if_pos (by rw [h]; rfl)]

theorem nemotron_finished (h : v.finishReason = some reason) :
    v.nextToken outside = (.ok none, v) := by
  rw [Nemotron3GenerationSession.nextToken, if_pos (by rw [h]; rfl)]

theorem nextToken_stuck (h : Stuck q) (ticks : Nat) : q.nextToken outside ticks = none := by
  obtain ⟨r, hr, hfinished⟩ := h.request
  rw [Qwen36GenerationSession.nextToken, h.unfinished, if_neg (by decide), hr,
    await_finished ticks hfinished]

theorem settled_ends (h : Paired prompt config count q v)
    (hlast : count + left = config.maxNewTokens)
    (hsettles : settles outside config left count q.decodeStream q.stopBuffer = true) :
    ∃ tokens q' v' reason,
      qwenTokens outside (prompt.length + 1) (left + 1) q = some (.ok tokens, q') ∧
        nemotronTokens outside (left + 1) v = some (.ok tokens, v') ∧ tokens.length ≤ left ∧
        (∃ last, tokens.getLast? = some last ∧ last.finishReason = some reason) ∧
        q'.finishReason = some reason ∧ v'.finishReason = some reason := by
  induction left generalizing count q v with
  | zero => cases hsettles
  | succ left ih =>
    obtain ⟨x, hnext, -, turned⟩ := turn outside h hlast
    rw [hsettles] at turned
    generalize hnemotron : v.nextToken outside = y at turned
    cases turned with
    | failed unsettled => cases unsettled
    | stuck stuck unsettled => cases unsettled
    | finish finished settled =>
      rename_i t reason q' v'
      refine ⟨[t], q', v', reason, ?_, ?_, by simp, ⟨t, rfl, finished.token⟩, finished.qwen,
        finished.nemotron⟩
      · rw [qwenTokens, collect_of_some hnext, collect_of_none (nextToken_finished finished.qwen _)]
        rfl
      · rw [nemotronTokens, collect_of_some (congrArg some hnemotron),
          collect_of_none (congrArg some (nemotron_finished finished.nemotron))]
        rfl
    | onward paired more later =>
      rename_i t q' v'
      obtain ⟨tokens, q'', v'', reason, hq, hv, hlength, ⟨last, hget, hreason⟩, hfinished⟩ :=
        ih paired (by omega) later.symm
      refine ⟨t :: tokens, q'', v'', reason, ?_, ?_, by simpa using hlength,
        ⟨last, ?_, hreason⟩, hfinished⟩
      · rw [qwenTokens] at hq ⊢
        rw [collect_of_some hnext, hq]
        rfl
      · rw [nemotronTokens] at hv ⊢
        rw [collect_of_some (congrArg some hnemotron), hv]
        rfl
      · rw [List.getLast?_cons, hget]
        rfl

theorem stuck_never_ends (outside : Outside δ φ) (h : Stuck q) (ticks calls : Nat) :
    qwenTokens outside ticks calls q = none := by
  cases calls with
  | zero => rfl
  | succ calls => exact collect_of_stuck (nextToken_stuck h ticks)

theorem unsettled_never_ends (h : Paired prompt config count q v) (hleft : 0 < left)
    (hlast : count + left = config.maxNewTokens)
    (hsettles : settles outside config left count q.decodeStream q.stopBuffer = false)
    (ticks calls : Nat) (tokens : List GeneratedToken) (last : Qwen36GenerationSession K φ δ) :
    qwenTokens outside ticks calls q ≠ some (.ok tokens, last) := by
  induction left generalizing count q v calls tokens with
  | zero => omega
  | succ left ih =>
    cases calls with
    | zero => nofun
    | succ calls =>
      obtain ⟨x, -, hticks, turned⟩ := turn outside h hlast
      rw [hsettles] at turned
      rcases hticks ticks with hnone | hsome
      · rw [qwenTokens, collect_of_stuck hnone]
        nofun
      · generalize v.nextToken outside = y at turned
        cases turned with
        | finish finished settled => cases settled
        | failed unsettled =>
          rw [qwenTokens, collect_of_error hsome]
          nofun
        | stuck stuck unsettled =>
          have never := stuck_never_ends outside stuck ticks calls
          rw [qwenTokens] at never ⊢
          rw [collect_of_some hsome, never]
          nofun
        | onward paired more later =>
          have behind := ih paired (Nat.pos_of_ne_zero more) (by omega) later.symm calls
          rw [qwenTokens, collect_of_some hsome]
          intro hend
          obtain ⟨⟨result, q''⟩, hrest, hpair⟩ := map_eq_some_iff.mp hend
          cases result with
          | error e => cases hpair
          | ok rest =>
            obtain ⟨-, rfl⟩ := Prod.mk.inj hpair
            exact behind rest hrest

theorem exceptBind {α β : Type} {x : Except CudaError α} {f : α → Except CudaError β} {b : β}
    (h : x >>= f = .ok b) : ∃ a, x = .ok a ∧ f a = .ok b := by
  cases x with
  | error e => cases h
  | ok a => exact ⟨a, rfl, h⟩

theorem checkSession_pos {vocab capacity : Nat}
    (h : checkSession vocab prompt config = .ok capacity) : 0 < capacity := by
  rw [checkSession] at h
  split at h
  · cases h
  · split at h
    · cases h
    · split at h
      · cases h
      · split at h
        · cases h
        · cases h
          omega

theorem new_eq_ok (hq : Qwen36GenerationSession.new outside prompt config = .ok q)
    (hv : Nemotron3GenerationSession.new outside prompt config = .ok v) :
    q.decodeStream = outside.decodeStream ∧ q.stopBuffer = .new config.stopSequences ∧
      (config.maxNewTokens = 0 → q.finishReason = some .length ∧ v.finishReason = some .length) ∧
      (config.maxNewTokens ≠ 0 → Paired prompt config 0 q v) := by
  obtain ⟨capacity, hchecked, hq⟩ := exceptBind hq
  obtain ⟨capacity', hchecked', hv⟩ := exceptBind hv
  cases hq
  cases hv
  have positive : 0 < capacity := checkSession_pos hchecked
  refine ⟨rfl, rfl, fun hzero => ⟨if_pos hzero, if_pos hzero⟩, fun hsome => ?_⟩
  refine ⟨?_, ⟨_, rfl, rfl, rfl, rfl, rfl, .inl (if_neg hsome)⟩, if_neg hsome, rfl, rfl, rfl, rfl,
    nofun, if_neg hsome⟩
  dsimp only
  omega

end

/-- **When a session of Qwen3.6 ends.** It does so, and as a session of Nemotron 3 does on
the same tokens, exactly when it may yield none, or its stream comes to an end token, a
stop sequence, or a last token that completes no chunk of text. -/
theorem session_ends_iff (outside : Outside δ φ) (prompt : List Nat) (config : GenerationConfig)
    (q : Qwen36GenerationSession K φ δ) (v : Nemotron3GenerationSession δ)
    (hq : Qwen36GenerationSession.new outside prompt config = .ok q)
    (hv : Nemotron3GenerationSession.new outside prompt config = .ok v) :
    Completes outside config q v ↔ config.maxNewTokens = 0 ∨
      settles outside config config.maxNewTokens 0 outside.decodeStream
        (.new config.stopSequences) = true := by
  obtain ⟨hstream, hbuffer, hzero, hpaired⟩ := new_eq_ok hq hv
  by_cases hmax : config.maxNewTokens = 0
  · refine ⟨fun _ => .inl hmax, fun _ => ?_⟩
    obtain ⟨hqwen, hnemotron⟩ := hzero hmax
    exact ⟨1, 1, [], [], q, v, .length, collect_of_none (nextToken_finished hqwen 1),
      collect_of_none (congrArg some (nemotron_finished hnemotron)), Nat.zero_le _, fun _ => hmax,
      nofun, hqwen, hnemotron, rfl, nextToken_finished hqwen⟩
  · have paired := hpaired hmax
    rw [← hstream, ← hbuffer]
    constructor
    · intro ⟨ticks, calls, tokens, _, last, _, _, hends, _⟩
      right
      by_contra hunsettled
      exact unsettled_never_ends paired (Nat.pos_of_ne_zero hmax) (Nat.zero_add _)
        (Bool.eq_false_iff.mpr hunsettled) ticks calls tokens last hends
    · intro hsettled
      obtain ⟨tokens, q', v', reason, hqwen, hnemotron, hlength, ⟨last, hlast, hreason⟩, hend,
        hend'⟩ := settled_ends paired (Nat.zero_add _) (hsettled.resolve_left hmax)
      refine ⟨_, _, tokens, tokens, q', v', reason, hqwen, hnemotron, hlength, ?_, ?_, hend, hend',
        rfl, nextToken_finished hend⟩
      · rintro rfl
        cases hlast
      · intro other hother
        rw [hlast] at hother
        cases hother
        exact hreason

/-! A tokenizer whose token 9 completes no text, and whose other tokens are letters. -/

def letters (selected : Nat) : Outside Unit Unit where
  vocab := 10
  decodeStream := ()
  decode := fun _ id => .ok ((), if id = 9 then none else some ['a'])
  select := fun _ => ⟨selected, ()⟩

def brief (maxNewTokens : Nat) (eosTokenIds : List Nat) (stopSequences : List Text) :
    GenerationConfig :=
  ⟨⟨true, true, true, false⟩, maxNewTokens, eosTokenIds, stopSequences⟩

/-- Two tokens that complete no text end both sessions for their length, an end token and the
stop sequence of two letters end them before it. -/
theorem unfinished_text_ends :
    (∃ (q : Qwen36GenerationSession Unit Unit Unit) (v : Nemotron3GenerationSession Unit),
      Completes (letters 9) (brief 2 [] []) q v) ∧
    (∃ (q : Qwen36GenerationSession Unit Unit Unit) (v : Nemotron3GenerationSession Unit),
      Completes (letters 5) (brief 3 [5] []) q v) ∧
    ∃ (q : Qwen36GenerationSession Unit Unit Unit) (v : Nemotron3GenerationSession Unit),
      Completes (letters 1) (brief 3 [] [['a', 'a']]) q v :=
  ⟨⟨_, _, (session_ends_iff (letters 9) [1, 2] _ _ _ rfl rfl).mpr (.inr (by decide))⟩,
    ⟨_, _, (session_ends_iff (letters 5) [1, 2] _ _ _ rfl rfl).mpr (.inr (by decide))⟩,
    ⟨_, _, (session_ends_iff (letters 1) [1, 2] _ _ _ rfl rfl).mpr (.inr (by decide))⟩⟩

/-- A session whose only token is a letter never ends. -/
theorem last_letter_never_ends :
    ¬ ∀ (outside : Outside Unit Unit) (prompt : List Nat) (config : GenerationConfig)
      (q : Qwen36GenerationSession Unit Unit Unit) (v : Nemotron3GenerationSession Unit),
      Qwen36GenerationSession.new outside prompt config = .ok q →
        Nemotron3GenerationSession.new outside prompt config = .ok v →
        Completes outside config q v := by
  intro claim
  have hq : Qwen36GenerationSession.new (K := Unit) (letters 1) [1] (brief 1 [] []) = .ok _ := rfl
  have hv : Nemotron3GenerationSession.new (letters 1) [1] (brief 1 [] []) = .ok _ := rfl
  have paired := (new_eq_ok hq hv).2.2.2 (by decide)
  have ⟨ticks, calls, tokens, _, last, _, _, hends, _⟩ := claim (letters 1) [1] (brief 1 [] []) _ _ hq hv
  have single : 0 + 1 = (brief 1 [] []).maxNewTokens := rfl
  have unsettled : settles (letters 1) (brief 1 [] []) 1 0 () (.new []) = false := by decide
  exact unsettled_never_ends paired Nat.one_pos single unsettled ticks calls tokens last hends

end Eider.Guarantees.GenerationSessions
