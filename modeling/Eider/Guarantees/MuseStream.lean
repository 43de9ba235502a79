import Eider.Guarantees.MuseRequests

/-!
A DFlash request of the Muse Glimmer service follows its greedy stream. The tokens of a cycle
follow the history of the request, so what its output takes of them is the next part of the
stream; a token that ends the request ends the stream. Behind a cycle the sequence, the page
cache and all caches of the drafter stand behind the prompt and what the cycles returned.
-/
namespace Eider.Guarantees.MuseStream
open Lib Lib.ByteReader Source Source.MuseGlimmer List Ensures
open Guarantees.MuseSequence Guarantees.MuseRequests

variable {τ ω : Type}

/-! ## Anchors -/

variable {E : Fault CudaError → ActiveRequest τ ω → Prop}

section
variable {argmax : List τ → τ} {layers : Nat} {s : Sequence τ} {r : ActiveRequest τ ω}
variable {fault : Option Site}

theorem struck_cycle {site : Site} (hfault : fault = some site)
    (hsite : cycleSites site ∨ site = .argmax) : Struck fault := by
  refine ⟨site, hfault, ?_⟩
  unfold admissionSite
  obtain ((h | h | ⟨layer, h⟩ | h) | h | ⟨layer, h⟩ | h | h) | h := hsite <;> subst h <;> simp

theorem takeAnchor_ensures (hquiet : ¬ Struck fault) (h : Steady argmax layers r)
    (hsequence : r.sequence = some s) (hdrafting : r.dflashEnabled = true)
    (hposition : r.promptPosition = r.prompt.length) :
    Ensures (takeAnchor argmax fault) r
      (fun anchor r' => anchor = argmax r.history ∧ ∃ t ready,
        Settled (requestCapacity r) layers r.history t ∧ r' = { r with
          pendingDflashToken := none
          promptLogitsReady := ready
          sequence := some t }) E := by
  have hstanding := h.standing s hsequence
  have hfed : fed r = r.history := by
    unfold fed
    rw [if_neg (by omega), if_pos (.inl hdrafting)]
  have hsettled := hfed ▸ hstanding.settled
  refine get_bind ?_
  cases hstanding.next with
  | prompt position => omega
  | logits position pending ready first current =>
    simp only [pending]
    rw [if_pos ready]
    refine set_bind ?_
    have hne : s.position ≠ 0 := by
      rw [hsettled.position]
      exact mt length_eq_zero_iff.mp (history_ne_nil h)
    have hargmax : Ensures (argmaxWithLogit fault argmax) s
        (fun token t => token = argmax r.history ∧ t = { s with batchLogitsRow := none })
        fun _ _ => False :=
      (argmaxWithLogit_ensures current hne).mono (fun _ _ ht => ht) fun _ _ he => by
        obtain ⟨site, call, hfault, hsite, -⟩ := he
        exact hquiet (struck_cycle hfault (.inr hsite))
    refine (onSequence_ensures (by exact hsequence) hargmax).mono (fun anchor r' hr' => ?_) fun e r' he => ?_
    · obtain ⟨t, ⟨hanchor, rfl⟩, rfl⟩ := hr'
      refine ⟨hanchor, { s with batchLogitsRow := none }, false, ?_, by rw [← pending]⟩
      exact { hsettled with }
    · obtain ⟨t, hfalse, -⟩ := he
      exact hfalse.elim
  | pending position drafting token =>
    simp only [token]
    exact set_bind ⟨rfl, s, r.promptLogitsReady, hsettled, by rw [hsequence]⟩
  | last position drafting => simp [hdrafting] at drafting

end

/-! ## The stream -/

variable [DecidableEq τ] (codec : Codec τ ω)

/-- What a token does to the output and to the count of a request, and whether it ends it. -/
def sink (generation : Generation τ) (state : ω × Nat) (token : τ) :
    (ω × Nat) × Option ChatFinishReason :=
  let pushed := codec.pushToken state.1 token
  ((pushed.1, state.2 + 1),
    match pushed.2 with
    | some reason => some reason
    | none =>
      if generation.eosTokenIds.contains token then some .eos
      else if state.2 + 1 = generation.maxNewTokens then some .length
      else none)

variable (argmax : List τ → τ) (r : ActiveRequest τ ω)

/-- The greedy stream behind the prompt of a request, with the output behind it and why it
ends: at an end token, where the output asks for it, or at the last token of the request. -/
def greedyStream : List τ × (ω × Nat) × Option ChatFinishReason :=
  Greedy.stream argmax (sink codec r.generation) r.generation.maxNewTokens r.prompt (r.opened, 0)

/-- The stream that is left for a request. -/
def restOfStream : List τ × (ω × Nat) × Option ChatFinishReason :=
  Greedy.stream argmax (sink codec r.generation) (r.generation.maxNewTokens - r.generatedTokens)
    r.history (r.output, r.generatedTokens)

/-- What a request has emitted is the first part of its stream. -/
def Streaming : Prop :=
  ∃ emitted, r.history = r.prompt ++ emitted ∧ greedyStream codec argmax r =
    Greedy.continued (emitted, (r.output, r.generatedTokens), none) (restOfStream codec argmax r)

/-- What a request has emitted is its stream, which has ended. -/
def Streamed (ended : Option ChatFinishReason) : Prop :=
  ∃ emitted, r.history = r.prompt ++ emitted ∧
    greedyStream codec argmax r = (emitted, (r.output, r.generatedTokens), ended)

section
variable {codec : Codec τ ω} {generation : Generation τ}

theorem sink_none {state state' : ω × Nat} {token : τ}
    (h : sink codec generation state token = (state', none)) :
    state'.2 = state.2 + 1 ∧ state'.2 ≠ generation.maxNewTokens := by
  injection h with hstate hreason
  subst hstate
  refine ⟨rfl, fun hlast => ?_⟩
  split at hreason
  · cases hreason
  · split at hreason
    · cases hreason
    · cases hreason

/-- Pouring counts the tokens, and stops before the last token of the request only where the
sink has ended. -/
theorem pour_count (codec : Codec τ ω) (tokens : List τ) (state : ω × Nat)
    (hmore : state.2 < generation.maxNewTokens) :
    (Greedy.pour (sink codec generation) tokens state).2.1.2 =
        state.2 + (Greedy.pour (sink codec generation) tokens state).1.length ∧
      (Greedy.pour (sink codec generation) tokens state).2.1.2 ≤ generation.maxNewTokens ∧
      ((Greedy.pour (sink codec generation) tokens state).2.2 = none →
        (Greedy.pour (sink codec generation) tokens state).2.1.2 < generation.maxNewTokens) := by
  induction tokens generalizing state with
  | nil => exact ⟨rfl, Nat.le_of_lt hmore, fun _ => hmore⟩
  | cons token tokens ih =>
    have hcount : (sink codec generation state token).1.2 = state.2 + 1 := rfl
    rw [Greedy.pour]
    cases hsink : sink codec generation state token with
    | mk state' reason =>
      rw [hsink] at hcount
      dsimp only at hcount
      cases reason with
      | some reason =>
        refine ⟨hcount, ?_, by simp⟩
        dsimp only
        omega
      | none =>
        obtain ⟨-, hne⟩ := sink_none hsink
        obtain ⟨hlength, hle, hlt⟩ := ih state' (by omega)
        refine ⟨?_, hle, hlt⟩
        rw [hlength, hcount, length_cons]
        omega

theorem stream_ended (codec : Codec τ ω) (argmax : List τ → τ) (context : List τ) (state : ω × Nat)
    (hmore : state.2 < generation.maxNewTokens) :
    (Greedy.stream argmax (sink codec generation) (generation.maxNewTokens - state.2) context
      state).2.2 ≠ none := by
  refine Greedy.stream_ends argmax _ (fun state => generation.maxNewTokens - state.2)
    (fun state token state' hleft hsink => ?_) _ _ _ (by omega)
  obtain ⟨hcount, hne⟩ := sink_none hsink
  omega

end

theorem streaming_poured {codec : Codec τ ω} {argmax : List τ → τ} {r r' : ActiveRequest τ ω}
    {tokens : List τ} (hstream : Streaming codec argmax r)
    (hfollows : Greedy.Follows argmax r.history tokens)
    (hmore : r.generatedTokens < r.generation.maxNewTokens) (hlater : Later r r')
    (hhistory : r'.history = r.history ++
      (Greedy.pour (sink codec r.generation) tokens (r.output, r.generatedTokens)).1)
    (hstate : (r'.output, r'.generatedTokens) =
      (Greedy.pour (sink codec r.generation) tokens (r.output, r.generatedTokens)).2.1) :
    match (Greedy.pour (sink codec r.generation) tokens (r.output, r.generatedTokens)).2.2 with
    | none => Streaming codec argmax r'
    | some reason => Streamed codec argmax r' (some reason) := by
  obtain ⟨emitted, hemitted, hgreedy⟩ := hstream
  obtain ⟨hcount, -, hbound⟩ := pour_count codec tokens (r.output, r.generatedTokens) hmore
  have hended := stream_ended codec argmax r.history
    (r.output, r.generatedTokens) hmore
  have hsame : greedyStream codec argmax r' = greedyStream codec argmax r := by
    unfold greedyStream
    rw [hlater.generation, hlater.prompt, hlater.opened]
  have hfirst := fun budget => Greedy.stream_follows argmax (sink codec r.generation) tokens budget
    r.history (r.output, r.generatedTokens) hfollows
  have hwhole := Greedy.pour_none (sink codec r.generation) tokens (r.output, r.generatedTokens)
  unfold restOfStream at hgreedy
  generalize Greedy.pour (sink codec r.generation) tokens (r.output, r.generatedTokens) = poured
    at hhistory hstate hcount hbound hfirst hwhole
  obtain ⟨taken, state, reason⟩ := poured
  dsimp only at hhistory hstate hcount hbound hwhole
  have hprompt : r'.history = r'.prompt ++ (emitted ++ taken) := by
    rw [hhistory, hemitted, hlater.prompt, append_assoc]
  cases reason with
  | none =>
    refine ⟨emitted ++ taken, hprompt, ?_⟩
    have htaken := hwhole rfl
    subst htaken
    have hbudget : r.generation.maxNewTokens - r.generatedTokens =
        taken.length + (r.generation.maxNewTokens - r'.generatedTokens) := by
      have hgenerated : r'.generatedTokens = state.2 := congrArg Prod.snd hstate
      have hlt := hbound rfl
      omega
    rw [hsame, hgreedy, hbudget, hfirst]
    unfold restOfStream
    rw [hlater.generation, hhistory, hstate]
    simp [Greedy.continued]
  | some reason =>
    refine ⟨emitted ++ taken, hprompt, ?_⟩
    have hstop := hfirst (r.generation.maxNewTokens - r.generatedTokens)
    rw [Nat.add_comm, Greedy.stream_add argmax _ _ _ _ _ hended] at hstop
    rw [hsame, hgreedy, hstop, hstate]
    simp [Greedy.continued]

/-! ## Cycles -/

section
variable {codec : Codec τ ω} {argmax : List τ → τ} {layers : Nat} {fault : Option Site}
variable {s : Sequence τ} {r : ActiveRequest τ ω}

theorem emitTokens_ensures (hquiet : ¬ Struck fault) (tokens : List τ) (index : Nat)
    (r : ActiveRequest τ ω) :
    Ensures (emitTokens codec fault index tokens) r
      (fun emitted r' =>
        let poured := Greedy.pour (sink codec r.generation) tokens (r.output, r.generatedTokens)
        emitted.2 = poured.2.2 ∧ ∃ last usage, r' = { r with
          generatedTokens := poured.2.1.2
          lastToken := last
          history := r.history ++ poured.1
          output := poured.2.1.1
          usage := usage }) E := by
  induction tokens generalizing index r with
  | nil => exact ⟨rfl, r.lastToken, r.usage, by simp [Greedy.pour]⟩
  | cons token tokens ih =>
    have hemit : Ensures (emitToken codec fault index token) r
        (fun reason r' => r' = { countToken codec token r with
            output := (codec.pushToken r.output token).1 } ∧
          reason = (sink codec r.generation (r.output, r.generatedTokens) token).2) E :=
      emitToken_ensures.mono (fun _ r' hr' => ⟨hr'.1, by rw [hr'.2, hr'.1]; rfl⟩)
        fun _ _ he => absurd ⟨_, he.2.1, by simp [admissionSite]⟩ hquiet
    refine hemit.bind fun reason r' hr' => ?_
    obtain ⟨hr', hreason⟩ := hr'
    have hstate : (r'.output, r'.generatedTokens) =
        (sink codec r.generation (r.output, r.generatedTokens) token).1 := by
      rw [hr']
      rfl
    rw [Greedy.pour]
    cases hsink : sink codec r.generation (r.output, r.generatedTokens) token with
    | mk state ended =>
      rw [hsink] at hreason hstate
      subst hreason hstate
      cases reason with
      | some reason => exact ⟨rfl, some token, r'.usage, by rw [hr']; rfl⟩
      | none =>
        refine (ih (index + 1) r').mono (fun emitted r'' hr'' => ?_) fun _ _ he => he
        have hgeneration : r'.generation = r.generation := by rw [hr']; rfl
        rw [hgeneration] at hr''
        obtain ⟨hended, last, usage, hr''⟩ := hr''
        refine ⟨hended, last, usage, ?_⟩
        rw [hr'', hr']
        simp [countToken]

/-- Where a DFlash request stands behind a cycle: everything is as long as the prompt and the
tokens that its cycles returned, the anchor and the accepted drafts of each. -/
def Drafted (layers : Nat) (r : ActiveRequest τ ω) : Prop :=
  ∃ s, r.sequence = some s ∧
    let returned := r.prompt.length + (r.dflashStats.cycles + r.dflashStats.acceptedDrafts)
    s.position = returned ∧ s.cache.rows.length = returned ∧ s.cache.pending = none ∧
      s.drafter = List.replicate layers returned ∧
      r.dflashStats.targetPosition = returned ∧ r.dflashStats.dflashPosition = returned

/-- What the output of a request takes of the tokens of a cycle. -/
def poured (codec : Codec τ ω) (cycle : DFlashCycle τ) (r : ActiveRequest τ ω) :
    List τ × (ω × Nat) × Option ChatFinishReason :=
  Greedy.pour (sink codec r.generation) cycle.tokens (r.output, r.generatedTokens)

/-- A request behind a cycle and the emission of its tokens. -/
def behindCycle (codec : Codec τ ω) (cycle : DFlashCycle τ) (emitted : Nat) (last : Option τ)
    (usage : ChatUsage) (ready : Bool) (t : Sequence τ) (r : ActiveRequest τ ω) :
    ActiveRequest τ ω :=
  { r with
    generatedTokens := (poured codec cycle r).2.1.2
    lastToken := last
    pendingDflashToken := some cycle.nextToken
    dflashStats := r.dflashStats.recordCycle cycle emitted
    promptLogitsReady := ready
    sequence := some t
    history := r.history ++ (poured codec cycle r).1
    output := (poured codec cycle r).2.1.1
    usage := usage }

section
variable {cycle : DFlashCycle τ} {emitted : Nat} {last : Option τ} {usage : ChatUsage}
variable {ready : Bool} {anchor : τ}

theorem later_behindCycle : Later r (behindCycle codec cycle emitted last usage ready s r) :=
  ⟨rfl, rfl, rfl, rfl, rfl, prefix_append _ _, fun _ => rfl, fun _ => Nat.le_refl _⟩

section
variable (hcycled : Cycled argmax (requestCapacity r) layers r.history anchor cycle s)
include hcycled

theorem follows_cycle
    (hanchor : anchor = argmax r.history) : Greedy.Follows argmax r.history cycle.tokens := by
  obtain ⟨accepted, htokens, hfollows, -⟩ := hcycled.tokens
  rw [htokens]
  exact ⟨hanchor, hfollows⟩

theorem length_cycle : cycle.tokens.length = 1 + cycle.acceptedDrafts := by
  obtain ⟨accepted, htokens, -, haccepted⟩ := hcycled.tokens
  rw [htokens, haccepted, length_cons, Nat.add_comm]

theorem poured_pos : 0 < (poured codec cycle r).1.length := by
  obtain ⟨accepted, htokens, -, -⟩ := hcycled.tokens
  rw [poured, htokens]
  exact Greedy.pour_cons_length _ _ _ _

/-- Everything is as long as the prompt and what the cycles returned. -/
theorem drafted_behindCycle (h : Steady argmax layers r) (hdrafting : r.dflashEnabled = true) :
    Drafted layers (behindCycle codec cycle emitted last usage ready s r) := by
  have hbehind : (r.history ++ cycle.tokens).length = r.prompt.length +
      (r.dflashStats.cycles + 1 + (r.dflashStats.acceptedDrafts + cycle.acceptedDrafts)) := by
    have hreturned := h.returned hdrafting
    rw [length_append, history_length h, length_cycle hcycled]
    omega
  have htarget := hcycled.target
  have hdflash := hcycled.dflash
  rw [← length_append, hbehind] at htarget hdflash
  refine ⟨s, rfl, hcycled.settled.position.trans hbehind, ?_, ?_, ?_, htarget, hdflash⟩
  · rw [hcycled.settled.cache]
    exact hbehind
  · rw [hcycled.settled.cache]
  · rw [hcycled.settled.drafter, hbehind]
    rfl

/-- A request whose output has taken all tokens of a cycle goes on with the next token. -/
theorem steady_behindCycle (h : Steady argmax layers r) (hdrafting : r.dflashEnabled = true)
    (hposition : r.promptPosition = r.prompt.length)
    (hmore : r.generatedTokens < r.generation.maxNewTokens)
    (hnone : (poured codec cycle r).2.2 = none) :
    Steady argmax layers (behindCycle codec cycle emitted last usage ready s r) := by
  obtain ⟨hcount, hle, -⟩ := pour_count codec cycle.tokens
    (r.output, r.generatedTokens) hmore
  have hall : (poured codec cycle r).1 = cycle.tokens := Greedy.pour_none _ _ _ hnone
  have hhistory : (behindCycle codec cycle emitted last usage ready s r).history =
      r.history ++ cycle.tokens := congrArg (r.history ++ ·) hall
  change (poured codec cycle r).2.1.2 = _ + (poured codec cycle r).1.length at hcount
  obtain ⟨before, hbefore, hlength⟩ := h.history
  refine ⟨h.nonempty, h.position, ⟨before ++ cycle.tokens, ?_, ?_⟩, ?_, hle, h.drafting, ?_, ?_⟩
  · rw [hhistory, hbefore, append_assoc]
    rfl
  · rw [length_append, hlength, ← hall]
    exact hcount.symm
  · exact fun hlt => absurd (hposition ▸ hlt) (Nat.lt_irrefl _)
  · intro _
    have hreturned := h.returned hdrafting
    show r.dflashStats.cycles + 1 + (r.dflashStats.acceptedDrafts + cycle.acceptedDrafts) =
      (poured codec cycle r).2.1.2
    rw [hcount, hall, length_cycle hcycled]
    omega
  · rintro t ht
    cases ht
    refine ⟨?_, .pending hposition hdrafting ?_⟩
    · have hfed : fed (behindCycle codec cycle emitted last usage ready s r) =
          r.history ++ cycle.tokens := by
        unfold fed
        rw [if_neg (by simp [behindCycle, hposition]), if_pos (.inl hdrafting), hhistory]
      rw [hfed]
      exact hcycled.settled
    · rw [hhistory, ← hcycled.next]
      rfl

end

end

theorem generateDflash_ensures {block : DraftBlock τ} (hquiet : ¬ Struck fault)
    (h : Steady argmax layers r) (hsequence : r.sequence = some s) (hdrafting : r.dflashEnabled = true)
    (hposition : r.promptPosition = r.prompt.length)
    (hmore : r.generatedTokens < r.generation.maxNewTokens) :
    Ensures (generateDflash codec argmax fault block) r
      (fun reason r' => Later r r' ∧ r'.sequence.isSome = true ∧ Drafted layers r' ∧
        r'.promptPosition = r'.prompt.length ∧ r.history.length < r'.history.length ∧
        (reason = none → Steady argmax layers r' ∧
          r'.generatedTokens < r'.generation.maxNewTokens ∧
          (Streaming codec argmax r → Streaming codec argmax r')) ∧
        ∀ ended, reason = some ended → Streaming codec argmax r →
          Streamed codec argmax r' (some ended))
      fun _ _ => False := by
  obtain ⟨hlayers, hfast⟩ := h.drafting hdrafting
  have hroom : r.history.length + blockSize ≤ requestCapacity r := by
    rw [history_length h]
    unfold requestCapacity blockSize
    rw [if_pos hdrafting]
    omega
  refine (takeAnchor_ensures hquiet h hsequence hdrafting hposition).bind fun anchor r₁ hr₁ => ?_
  obtain ⟨hanchor, t, ready, hsettled, hr₁⟩ := hr₁
  have hcycle : Ensures (dflashCycle fault argmax block anchor) t
      (Cycled argmax (requestCapacity r) layers r.history anchor) fun _ _ => False :=
    (dflashCycle_ensures hsettled hlayers hroom).mono (fun _ _ ht => ht) fun _ _ he => by
      obtain ⟨site, call, hfault, hsite, -⟩ := he
      exact hquiet (struck_cycle hfault (.inl hsite))
  refine ((onSequence_ensures (by rw [hr₁]) hcycle).mono (fun _ _ ht => ht)
    fun _ _ he => he.choose_spec.1.elim).bind fun cycle r₂ hr₂ => ?_
  obtain ⟨u, hcycled, hr₂⟩ := hr₂
  refine modify_bind ?_
  refine (emitTokens_ensures hquiet cycle.tokens 0 _).bind fun emitted r₃ hr₃ => ?_
  refine modify_bind (Ensures.pure ?_)
  obtain ⟨hended, last, usage, hr₃⟩ := hr₃
  have hbehind : { r₃ with dflashStats := r₃.dflashStats.recordCycle cycle emitted.1 } =
      behindCycle codec cycle emitted.1 last usage ready u r := by
    rw [hr₃, hr₂, hr₁]
    rfl
  have hreason : emitted.2 = (poured codec cycle r).2.2 := by
    rw [hended, hr₂, hr₁]
    rfl
  have hlater : Later r (behindCycle codec cycle emitted.1 last usage ready u r) := later_behindCycle
  have hstream := fun hstreaming : Streaming codec argmax r =>
    streaming_poured hstreaming (follows_cycle hcycled hanchor) hmore hlater rfl rfl
  rw [hbehind]
  refine ⟨hlater, rfl, drafted_behindCycle hcycled h hdrafting, hposition, ?_,
    fun hnone => ?_, fun ended hsome hstreaming => ?_⟩
  · have hpos : 0 < (poured codec cycle r).1.length := poured_pos hcycled
    show r.history.length < (r.history ++ (poured codec cycle r).1).length
    rw [length_append]
    omega
  · rw [hreason] at hnone
    refine ⟨steady_behindCycle hcycled h hdrafting hposition hmore hnone,
      (pour_count codec cycle.tokens (r.output, r.generatedTokens) hmore).2.2 hnone,
      fun hstreaming => ?_⟩
    have hnext := hstream hstreaming
    change match (poured codec cycle r).2.2 with
      | none => _
      | some reason => _ at hnext
    rw [hnone] at hnext
    exact hnext
  · rw [hreason] at hsome
    have hnext := hstream hstreaming
    change match (poured codec cycle r).2.2 with
      | none => _
      | some reason => _ at hnext
    rw [hsome] at hnext
    exact hnext

end

end Eider.Guarantees.MuseStream
