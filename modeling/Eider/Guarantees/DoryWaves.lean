import Eider.Guarantees.DecisionRequests
import Eider.Guarantees.DoryPages
import Eider.Lib.Run
import Eider.Source.Dory.Serving

/-!
The waves of the Dory service fit the scratch of their sequences
(`infer/src/execution/dory_serving/decision.rs`, lines 66 to 199).

A sequence that a group holds was allocated for the longest branch of the group, or
`supports` it, and no call changes its room or seals another prefix than that of the
request. A wave takes at most the budget in rows and at most 64 branches, so the pages
of its plan end below the physical capacity.
-/
namespace Eider.Guarantees.DoryWaves
open Lib List Option
open Guarantees.DecisionRequests (validateDecision_ok)
open Guarantees.DoryPages (Placed plan_pages)
open Source Source.Dory
open Source.Qwen36 (DecisionBranch DecisionRequest SchedulerConfig)

variable {R H φ : Type} {m : Checkpoint R H φ} {flash : Bool}
variable {prefixLen : Nat} {group' : DecisionGroup R H φ} {wave : List Nat × List (List Nat)}
variable {t : Turned R H φ} {tokens sequences : Nat} {tick : DecisionTick φ}

/-! ## What calls keep of a sequence -/

/-- A call keeps the room of a sequence. -/
structure SameRoom (s s' : DoryDecisionSequence R H) : Prop where
  capacity : s'.state.capacity = s.state.capacity
  logical : s'.logicalCapacity = s.logicalCapacity

/-- A call keeps the room and the sealed prefix of a sequence. -/
structure SameSeal (s s' : DoryDecisionSequence R H) : Prop extends SameRoom s s' where
  sealedAt : s'.prefixPosition = s.prefixPosition

theorem SameRoom.trans {s s' s'' : DoryDecisionSequence R H} (h : SameRoom s s')
    (h' : SameRoom s' s'') : SameRoom s s'' :=
  ⟨h'.capacity.trans h.capacity, h'.logical.trans h.logical⟩

theorem prefillSequence_keeps (input : TurnInput R) (w : DoryPrefillWorkspace)
    (s : DoryDecisionSequence R H) (tokens : List Nat) :
    SameSeal s (prefillSequence m flash input w s tokens).2.2 ∧
      ((prefillSequence m flash input w s tokens).1 = .ok () →
        (prefillSequence m flash input w s tokens).2.2.state.position =
          s.state.position + tokens.length) := by
  rw [prefillSequence]
  split
  · exact ⟨⟨⟨rfl, rfl⟩, rfl⟩, nofun⟩
  · split
    · exact ⟨⟨⟨rfl, rfl⟩, rfl⟩, nofun⟩
    · cases input.synchronize with
      | error e => exact ⟨⟨⟨rfl, rfl⟩, rfl⟩, nofun⟩
      | ok _ =>
        dsimp only
        generalize w.reserveAttention flash input.alloc input.identity m.config
          (s.state.position + tokens.length) = reserved
        rcases reserved with ⟨_ | _, w⟩
        · exact ⟨⟨⟨rfl, rfl⟩, rfl⟩, nofun⟩
        · dsimp only
          cases attend m flash w s.state tokens.length (s.state.position + tokens.length) with
          | error e => exact ⟨⟨⟨rfl, rfl⟩, rfl⟩, nofun⟩
          | ok _ =>
            cases input.run with
            | refused e => exact ⟨⟨⟨rfl, rfl⟩, rfl⟩, nofun⟩
            | broken e rows => exact ⟨⟨⟨rfl, rfl⟩, rfl⟩, nofun⟩
            | done => exact ⟨⟨⟨rfl, rfl⟩, rfl⟩, fun _ => rfl⟩

theorem prefill_keeps (m : Checkpoint R H φ) (flash : Bool) (input : TurnInput R)
    (w : DoryPrefillWorkspace) (s : DoryDecisionSequence R H) (tokens : List Nat) :
    SameSeal s (s.prefill m flash input w tokens).2.2 ∧
      ((s.prefill m flash input w tokens).1 = .ok () →
        (s.prefill m flash input w tokens).2.2.state.position =
          s.state.position + tokens.length) := by
  rw [DoryDecisionSequence.prefill]
  split
  · exact ⟨⟨⟨rfl, rfl⟩, rfl⟩, nofun⟩
  · exact prefillSequence_keeps input w s tokens

theorem sealPrefix_keeps (s : DoryDecisionSequence R H) :
    SameRoom s s.sealPrefix.2 ∧
      (s.sealPrefix.2.prefixPosition = s.prefixPosition ∨
        s.sealPrefix.2.prefixPosition = some s.state.position) := by
  rw [DoryDecisionSequence.sealPrefix]
  split
  · exact ⟨⟨rfl, rfl⟩, .inl rfl⟩
  · exact ⟨⟨rfl, rfl⟩, .inr rfl⟩

theorem rewindToPrefix_keeps (s : DoryDecisionSequence R H) : SameSeal s s.rewindToPrefix.2 := by
  rw [DoryDecisionSequence.rewindToPrefix]
  split
  · exact ⟨⟨rfl, rfl⟩, rfl⟩
  · cases h : s.prefixPosition with
    | none => exact ⟨⟨rfl, rfl⟩, rfl⟩
    | some position => exact ⟨⟨rfl, rfl⟩, h.symm⟩

theorem prepare_keeps (input : TurnInput R) (s : DoryDecisionSequence R H) (tokens : List Nat)
    (retain : Bool) :
    SameRoom s (s.prepare input tokens retain).2 ∧
      ∀ done, (s.prepare input tokens retain).1 = .ok done →
        (s.prepare input tokens retain).2.prefixPosition =
            (if done then some tokens.length else none) ∧
          (done = false → (s.prepare input tokens retain).2.state.position = 0) := by
  rw [DoryDecisionSequence.prepare]
  split
  · refine ⟨⟨rfl, rfl⟩, fun done h => ?_⟩
    obtain rfl : true = done := by simpa using h
    exact ⟨rfl, nofun⟩
  · cases input.synchronize with
    | error e => exact ⟨⟨rfl, rfl⟩, nofun⟩
    | ok _ =>
      refine ⟨⟨rfl, rfl⟩, fun done h => ?_⟩
      obtain rfl : false = done := by simpa using h
      exact ⟨rfl, fun _ => rfl⟩

/-- An execution is taken without a change of the room or of the seal. -/
theorem takeExecution_keeps {input : TurnInput R} {s s' : DoryDecisionSequence R H}
    {lengths : List Nat} {includePrefix : Bool} {result : Except CudaError DecisionExecution}
    (h : s.takeExecution flash input prefixLen lengths includePrefix = some (result, s')) :
    SameSeal s s' := by
  rw [DoryDecisionSequence.takeExecution] at h
  split at h
  · obtain ⟨execution, -, h⟩ := map_eq_some_iff.mp h
    obtain ⟨-, rfl⟩ := h
    exact ⟨⟨rfl, rfl⟩, rfl⟩
  · have kept : SameSeal s (if s.executions.length = 8 then
        { s with executions := s.executions.drop 1 } else s) := by
      split <;> exact ⟨⟨rfl, rfl⟩, rfl⟩
    dsimp only at h
    split at h
    · cases h
    · simp only [some.injEq, Prod.mk.injEq] at h
      exact h.2 ▸ kept
    · simp only [some.injEq, Prod.mk.injEq] at h
      exact h.2 ▸ kept

/-- The prefix that a wave of a sequence reads behind. -/
def wavePrefix (prefixTokens : List Nat) (s : DoryDecisionSequence R H) : Option Nat :=
  if prefixTokens.isEmpty then s.prefixPosition else some prefixTokens.length

theorem prefillBranches_keeps {input : TurnInput R} {w : DoryPrefillWorkspace}
    {s : DoryDecisionSequence R H} {prefixTokens : List Nat} {suffixes : List (List Nat)}
    {call : Call R H (List (List φ))}
    (h : s.prefillBranches m flash input w prefixTokens suffixes = some call) :
    SameRoom s call.2.2 ∧ (call.2.2.prefixPosition = s.prefixPosition ∨
      call.2.2.prefixPosition = wavePrefix prefixTokens s) := by
  have unchanged : SameRoom s s ∧ (s.prefixPosition = s.prefixPosition ∨
      s.prefixPosition = wavePrefix prefixTokens s) := ⟨⟨rfl, rfl⟩, .inl rfl⟩
  rw [DoryDecisionSequence.prefillBranches] at h
  dsimp only at h
  split at h
  · cases h; exact unchanged
  rename_i prefixLen hlead
  have hwave : wavePrefix prefixTokens s = some prefixLen := by
    rw [wavePrefix]
    cases hempty : prefixTokens.isEmpty with
    | true =>
      simp only [hempty, Bool.not_true, Bool.false_eq_true, if_false] at hlead
      split at hlead
      · cases hlead
      · rename_i position hsealed
        simp only [Except.ok.injEq] at hlead
        simp only [if_true, hsealed, hlead]
    | false =>
      simp only [hempty, Bool.not_false, if_true] at hlead
      split at hlead
      · cases hlead
      · simp only [Except.ok.injEq] at hlead
        simp only [Bool.false_eq_true, if_false, hlead]
  split at h
  · cases h; exact unchanged
  split at h
  · cases h; exact unchanged
  split at h
  · cases h; exact unchanged
  generalize w.reserveAttention flash input.alloc input.identity m.config
    (prefixLen + (suffixes.map length).foldl max 0) = reserved at h
  rcases reserved with ⟨_ | _, w'⟩
  · cases h; exact unchanged
  dsimp only at h
  have rebound : SameSeal s (s.rebind (w'.identity, input.hiddenAddress, m.headIdentity)) := by
    rw [DoryDecisionSequence.rebind]
    split <;> exact ⟨⟨rfl, rfl⟩, rfl⟩
  split at h
  · cases h
  · rename_i htake
    have kept := takeExecution_keeps htake
    cases h
    exact ⟨rebound.toSameRoom.trans kept.toSameRoom, .inl (kept.sealedAt.trans rebound.sealedAt)⟩
  · rename_i htake
    have kept := takeExecution_keeps htake
    have room := rebound.toSameRoom.trans kept.toSameRoom
    have same := kept.sealedAt.trans rebound.sealedAt
    split at h
    · cases h
      exact ⟨⟨room.capacity, room.logical⟩, .inl same⟩
    · split at h
      · cases h
        exact ⟨room, .inl same⟩
      · cases h
        exact ⟨⟨room.capacity, room.logical⟩, .inl same⟩
      · cases h
        exact ⟨⟨room.capacity, room.logical⟩, .inr hwave.symm⟩

/-! ## The room of a group -/

/-- A sequence as `new_decision_sequence` allocated it, with room for a request, and with
no other prefix sealed. -/
structure Roomy (flash : Bool) (config : SchedulerConfig) (request : DecisionRequest)
    (s : DoryDecisionSequence R H) : Prop where
  allocated : s.state.capacity = s.logicalCapacity +
    branchScratch flash config.prefillTokenCapacity (min config.decisionBranchCapacity 64)
  longest : longestBranchTokens request ≤ s.logicalCapacity
  sealedAt : s.prefixPosition = none ∨ s.prefixPosition = some request.prefixTokens.length

section
variable {config : SchedulerConfig} {request : DecisionRequest}
  {s s' : DoryDecisionSequence R H}

section
variable (h : Roomy flash config request s)
include h

theorem Roomy.keep (same : SameRoom s s') (sealedAt : s'.prefixPosition = s.prefixPosition ∨
      s'.prefixPosition = some request.prefixTokens.length) : Roomy flash config request s' where
  allocated := by rw [same.capacity, same.logical]; exact h.allocated
  longest := by rw [same.logical]; exact h.longest
  sealedAt := sealedAt.elim (fun e => e ▸ h.sealedAt) .inr

theorem Roomy.same (same : SameSeal s s') :
    Roomy flash config request s' := h.keep same.toSameRoom (.inl same.sealedAt)

theorem Roomy.retainPrefix (tokens : List Nat) :
    Roomy flash config request (s.retainPrefix tokens) := ⟨h.allocated, h.longest, h.sealedAt⟩

end

end

/-- A turn leaves the other groups alone. -/
structure SameDecisions (s s' : DoryService R H φ) : Prop where
  config : s'.config = s.config
  decisions : s'.decisions = s.decisions
  decisionReady : s'.decisionReady = s.decisionReady
  idleDecision : s'.idleDecision = s.idleDecision

/-- What a turn keeps: the other groups, the request, and the room of its sequence. -/
structure TurnKeeps (flash : Bool) (s : DoryService R H φ) (group : DecisionGroup R H φ)
    (s' : DoryService R H φ) (group' : DecisionGroup R H φ) : Prop where
  service : SameDecisions s s'
  request : group'.request = group.request
  roomy : ∀ q, group'.sequence = some q → Roomy flash s.config group.request q

section
variable {s : DoryService R H φ} {group : DecisionGroup R H φ}
  {sequence : DoryDecisionSequence R H} {input : TurnInput R} {budget : Nat}
  {float : AnswerFloats φ} {one : φ} {question : DecisionBranch → DecisionPromptQuestion}

theorem pushLogits_keeps {group : DecisionGroup R H φ} {rows : List (List φ)}
    (h : pushLogits group rows = some group') :
    group'.request = group.request ∧ group'.sequence = group.sequence := by
  induction rows generalizing group with
  | nil => cases h; exact ⟨rfl, rfl⟩
  | cons row rest ih =>
    obtain ⟨branch, -, h⟩ := bind_eq_some_iff.mp h
    split at h
    · cases h
    have rest := ih h
    exact ⟨rest.1, rest.2⟩

theorem finishDecision_keeps : (finishDecision float one question group).2.request = group.request ∧
      (finishDecision float one question group).2.sequence = group.sequence := by
  rw [finishDecision]
  cases answersFromLogits float question group.request group.logits one with
  | error e => exact ⟨rfl, rfl⟩
  | ok answers => exact ⟨rfl, rfl⟩

theorem settle_keeps (float : AnswerFloats φ) (one : φ)
    (question : DecisionBranch → DecisionPromptQuestion) (s : DoryService R H φ)
    (group : DecisionGroup R H φ) (budget : Nat) :
    (settle float one question s group budget).service = s ∧
      (settle float one question s group budget).group.request = group.request ∧
      (settle float one question s group budget).group.sequence = group.sequence := by
  rw [settle]
  split
  · exact ⟨rfl, finishDecision_keeps.1, finishDecision_keeps.2⟩
  · exact ⟨rfl, rfl, rfl⟩

theorem TurnKeeps.of_sequence {s' : DoryService R H φ} {q : DoryDecisionSequence R H}
    (hservice : SameDecisions s s') (hrequest : group'.request = group.request)
    (hsequence : group'.sequence = some q) (hroomy : Roomy flash s.config group.request q) :
    TurnKeeps flash s group s' group' where
  service := hservice
  request := hrequest
  roomy := by
    intro q' hq'
    rw [hsequence] at hq'
    cases hq'
    exact hroomy

theorem retainGroup_keeps (m : Checkpoint R H φ) (input : TurnInput R) (s : DoryService R H φ)
    (group : DecisionGroup R H φ) (hroomy : Roomy flash s.config group.request sequence) :
    TurnKeeps flash s group (retainGroup m input s group sequence).2.1
      (retainGroup m input s group sequence).2.2 := by
  rw [retainGroup]
  generalize retain m.toDoryModel input.retain s.prefixes sequence.state
    group.request.prefixTokens = retained
  rcases retained with ⟨_ | _, prefixes⟩
  · exact .of_sequence ⟨rfl, rfl, rfl, rfl⟩ rfl rfl hroomy
  · exact .of_sequence ⟨rfl, rfl, rfl, rfl⟩ rfl rfl (hroomy.retainPrefix _)

section
variable (hroomy : Roomy flash s.config group.request sequence)
include hroomy

theorem turnWave_keeps (hwave : wave.1 = [] ∨ wave.1 = group.request.prefixTokens)
    (h : turnWave m flash float one question input s group sequence budget wave = some t) :
    TurnKeeps flash s group t.service t.group := by
  obtain ⟨⟨result, w, after⟩, hcall, h⟩ := bind_eq_some_iff.mp h
  have kept := prefillBranches_keeps hcall
  have afterRoomy : Roomy flash s.config group.request after := by
    refine hroomy.keep kept.1 ?_
    rcases kept.2 with same | behind
    · exact .inl same
    · rw [behind, wavePrefix]
      rcases hwave with hnone | hall
      · exact .inl (by simp [hnone])
      · by_cases hempty : wave.1.isEmpty
        · exact .inl (by rw [if_pos hempty])
        · exact .inr (by rw [if_neg hempty, hall])
  cases result with
  | error e =>
    cases h
    exact .of_sequence ⟨rfl, rfl, rfl, rfl⟩ rfl rfl afterRoomy
  | ok outputs =>
    dsimp only at h
    split at h
    · cases h
    -- the groups behind the retained prefix, whether or not it was retained
    · generalize hretained : (if !group.prefixRetained && s.prefixes.enabled then _ else _ :
        Except CudaError Unit × DoryService R H φ × DecisionGroup R H φ) = retained at h
      have keeps : TurnKeeps flash s group retained.2.1 retained.2.2 := by
        rw [← hretained]
        split
        · have behind := retainGroup_keeps m input { s with prefill := w }
            { group with sequence := some after, prefixDone := true } afterRoomy
          exact ⟨⟨behind.service.config, behind.service.decisions, behind.service.decisionReady,
            behind.service.idleDecision⟩, behind.request, behind.roomy⟩
        · exact .of_sequence ⟨rfl, rfl, rfl, rfl⟩ rfl rfl afterRoomy
      rcases retained with ⟨_ | _, s', group'⟩
      · cases h
        exact keeps
      · obtain ⟨pushed, hpush, h⟩ := bind_eq_some_iff.mp h
        have push := pushLogits_keeps hpush
        cases h
        have settled := settle_keeps float one question s' pushed
          (budget - (wave.1.length + (wave.2.map length).sum))
        refine ⟨?_, settled.2.1.trans (push.1.trans keeps.request), ?_⟩
        · rw [settled.1]; exact keeps.service
        · rw [settled.2.2, push.2]; exact keeps.roomy

theorem turnPrefix_keeps (h : turnPrefix m flash input s group sequence budget = some t) :
    TurnKeeps flash s group t.service t.group := by
  rw [turnPrefix] at h
  split at h
  · cases h
  have kept := prefill_keeps m flash input s.prefill sequence
    ((group.request.prefixTokens.take
      (min group.request.prefixTokens.length (sequence.state.position + budget))).drop
        sequence.state.position)
  generalize sequence.prefill m flash input s.prefill _ = call at h kept
  obtain ⟨result, w, after⟩ := call
  have afterRoomy := hroomy.same kept.1
  cases result with
  | error e =>
    cases h
    exact .of_sequence ⟨rfl, rfl, rfl, rfl⟩ rfl rfl afterRoomy
  | ok _ =>
    dsimp only at h
    split at h
    · have hposition : after.state.position = group.request.prefixTokens.length := by
        have moved := kept.2 rfl
        simp only [length_drop, length_take] at moved
        omega
      have sealedKeeps := sealPrefix_keeps after
      have sealedRoomy : Roomy flash s.config group.request after.sealPrefix.2 := by
        refine afterRoomy.keep sealedKeeps.1 ?_
        rw [← hposition]
        exact sealedKeeps.2
      generalize after.sealPrefix = sealing at h sealedRoomy
      rcases sealing with ⟨_ | _, behind⟩
      · cases h
        exact .of_sequence ⟨rfl, rfl, rfl, rfl⟩ rfl rfl sealedRoomy
      · dsimp only at h
        split at h
        · have retained := retainGroup_keeps m input { s with prefill := w }
            { group with sequence := some behind, prefixDone := true } sealedRoomy
          generalize retainGroup m input _ _ behind = outcome at h retained
          have keeps : TurnKeeps flash s group outcome.2.1 outcome.2.2 :=
            ⟨⟨retained.service.config, retained.service.decisions,
              retained.service.decisionReady, retained.service.idleDecision⟩,
              retained.request, retained.roomy⟩
          rcases outcome with ⟨_ | _, s', group'⟩ <;> cases h <;> exact keeps
        · cases h
          exact .of_sequence ⟨rfl, rfl, rfl, rfl⟩ rfl rfl sealedRoomy
    · cases h
      exact .of_sequence ⟨rfl, rfl, rfl, rfl⟩ rfl rfl afterRoomy

theorem turnSuffix_keeps
    (h : turnSuffix m flash float one question input s group sequence budget = some t) :
    TurnKeeps flash s group t.service t.group := by
  obtain ⟨branch, -, h⟩ := bind_eq_some_iff.mp h
  dsimp only at h
  split at h
  · cases h
  have kept := prefill_keeps m flash input s.prefill sequence
    ((branch.suffixTokens.take
      (min branch.suffixTokens.length (group.suffixPosition + budget))).drop group.suffixPosition)
  generalize sequence.prefill m flash input s.prefill _ = call at h kept
  obtain ⟨result, w, after⟩ := call
  have afterRoomy := hroomy.same kept.1
  cases result with
  | error e =>
    cases h
    exact .of_sequence ⟨rfl, rfl, rfl, rfl⟩ rfl rfl afterRoomy
  | ok _ =>
    dsimp only at h
    split at h
    · cases h
      exact .of_sequence ⟨rfl, rfl, rfl, rfl⟩ rfl rfl afterRoomy
    · split at h
      · cases h
        exact .of_sequence ⟨rfl, rfl, rfl, rfl⟩ rfl rfl afterRoomy
      · split at h
        · cases h
        split at h
        · have rewound := rewindToPrefix_keeps after
          generalize after.rewindToPrefix = rewinding at h rewound
          rcases rewinding with ⟨_ | _, behind⟩ <;> cases h <;>
            exact .of_sequence ⟨rfl, rfl, rfl, rfl⟩ rfl rfl (afterRoomy.same rewound)
        · cases h
          exact .of_sequence ⟨rfl, rfl, rfl, rfl⟩ finishDecision_keeps.1 finishDecision_keeps.2
            afterRoomy

end

theorem packedWave_eq_some :
    packedWave flash s group sequence budget = some wave ↔
      wave = selectWave flash s.config group budget ∧ mayPack group sequence = true ∧
        wave.2.isEmpty = false ∧ (flash = true ∨ wave.1.isEmpty = false) := by
  rw [packedWave]
  split
  · rename_i h
    simp only [Bool.and_eq_true, Bool.or_eq_true, Bool.not_eq_true'] at h
    simp only [some.injEq]
    constructor
    · intro e
      subst e
      exact ⟨rfl, h.1.1, h.1.2, h.2⟩
    · exact fun e => e.1.symm
  · rename_i h
    simp only [Bool.and_eq_true, Bool.or_eq_true, Bool.not_eq_true'] at h
    constructor
    · nofun
    · intro ⟨e, hpack, hwave, hflash⟩
      subst e
      exact absurd ⟨⟨hpack, hwave⟩, hflash⟩ h

theorem advanceDecision_keeps
    (hroomy : ∀ q, group.sequence = some q → Roomy flash s.config group.request q)
    (h : advanceDecision m flash float one question input s group budget = some t) :
    TurnKeeps flash s group t.service t.group := by
  obtain ⟨sequence, hsequence, h⟩ := bind_eq_some_iff.mp h
  have room := hroomy sequence hsequence
  cases hwave : packedWave flash s group sequence budget with
  | some wave =>
    rw [hwave] at h
    refine turnWave_keeps room ?_ h
    rw [(packedWave_eq_some.mp hwave).1, selectWave]
    by_cases hdone : group.prefixDone
    · exact .inl (by simp [hdone])
    · exact .inr (by simp [hdone])
  | none =>
    rw [hwave] at h
    dsimp only at h
    split at h
    · exact turnPrefix_keeps room h
    · exact turnSuffix_keeps room h

end

/-! ## The waves of a turn -/

theorem fittingSuffixes_fit {budget rows : Nat} {branches : List DecisionBranch}
    (h : fittingSuffixes budget rows branches ≠ []) :
    rows + ((fittingSuffixes budget rows branches).map List.length).sum ≤ budget := by
  induction branches generalizing rows with
  | nil => exact absurd rfl h
  | cons branch rest ih =>
    rw [fittingSuffixes] at h ⊢
    split at h
    · rename_i hfits
      rw [if_pos hfits, map_cons, sum_cons]
      by_cases hrest : fittingSuffixes budget (rows + branch.suffixTokens.length) rest = []
      · rw [hrest, map_nil, sum_nil]
        omega
      · have more := ih hrest
        omega
    · exact absurd rfl h

theorem fittingSuffixes_length (budget rows : Nat) (branches : List DecisionBranch) :
    (fittingSuffixes budget rows branches).length ≤ branches.length := by
  induction branches generalizing rows with
  | nil => exact le_rfl
  | cons branch rest ih =>
    rw [fittingSuffixes]
    split
    · simpa using ih (rows + branch.suffixTokens.length)
    · exact Nat.zero_le _

/-- A packed wave has at most the budget in rows, and at most the branches that the
scratch was allocated for. -/
theorem packedWave_bounds {s : DoryService R H φ} {group : DecisionGroup R H φ}
    {sequence : DoryDecisionSequence R H} {budget : Nat}
    (h : packedWave flash s group sequence budget = some wave) :
    wave.1.length + (wave.2.map List.length).sum ≤ budget ∧
      (flash = true → wave.2.length ≤ min s.config.decisionBranchCapacity 64) ∧
      wave.1.length ≤ group.request.prefixTokens.length := by
  obtain ⟨rfl, -, hsome, -⟩ := packedWave_eq_some.mp h
  refine ⟨fittingSuffixes_fit fun e => ?_, ?_, ?_⟩
  · have hnone : (selectWave flash s.config group budget).2 = [] := e
    rw [hnone] at hsome
    cases hsome
  · intro hflash
    have count := fittingSuffixes_length budget
      (selectWave flash s.config group budget).1.length
      ((group.request.branches.drop group.nextBranch).take
        (if flash then min s.config.decisionBranchCapacity 64 else 1))
    simp only [hflash, if_true, length_take] at count
    rw [hflash]
    exact count.trans (min_le_left _ _)
  · rw [selectWave]
    split <;> simp

/-! ## Admission -/

theorem le_nextPowerOfTwo (n : Nat) : n ≤ nextPowerOfTwo n := Nat.le_pow_clog (by decide) n

theorem le_nextMultipleOf (n : Nat) {k : Nat} (hk : 0 < k) : n ≤ nextMultipleOf n k := by
  have division := Nat.div_add_mod (n + (k - 1)) k
  have remainder := Nat.mod_lt (n + (k - 1)) hk
  rw [nextMultipleOf, divCeil, Nat.mul_comm]
  omega

theorem le_decisionCapacity {config : SchedulerConfig} {required : Nat}
    (h : required ≤ config.maxContextTokens) : required ≤ decisionCapacity config required := by
  rw [decisionCapacity]
  split
  · split
    · exact le_min (le_nextPowerOfTwo required) h
    · exact le_min (le_nextMultipleOf required (by omega)) h
  · exact le_rfl

/-- An idle sequence was allocated by the same service. -/
def Allocated (flash : Bool) (config : SchedulerConfig) (s : DoryDecisionSequence R H) : Prop :=
  s.state.capacity = s.logicalCapacity +
    branchScratch flash config.prefillTokenCapacity (min config.decisionBranchCapacity 64)

theorem takeSequence_roomy {config : SchedulerConfig} {idle : Option (DoryDecisionSequence R H)}
    {required : Nat} {s : DoryDecisionSequence R H}
    (hidle : ∀ q, idle = some q → Allocated flash config q)
    (hrequired : required ≤ config.maxContextTokens)
    (h : takeSequence m flash config idle required = .ok s) :
    Allocated flash config s ∧ required ≤ s.logicalCapacity := by
  rw [takeSequence] at h
  split at h
  · rename_i q hq
    obtain ⟨hmem, hsupports⟩ := filter_eq_some_iff.mp hq
    cases h
    rw [DoryDecisionSequence.supports, Bool.and_eq_true, decide_eq_true_eq] at hsupports
    exact ⟨hidle _ hmem, hsupports.1⟩
  · rw [newDecisionSequence] at h
    split at h
    · cases h
    · cases h
      exact ⟨rfl, le_decisionCapacity hrequired⟩

/-- A restored prefix is the whole one, and leaves the room as it was. -/
theorem restoreMatch_keeps {model : DoryModel R} {run : DeviceRun R} {c c' : DoryPrefixCache R}
    {state state' : DorySequence R} {tokens : List Nat} {n : Nat}
    (h : restoreMatch model run c state tokens true = (.ok n, c', state')) :
    state'.capacity = state.capacity ∧ (n = 0 ∨ state'.position = tokens.length) := by
  rw [restoreMatch] at h
  split at h
  · cases h
    exact ⟨rfl, .inl rfl⟩
  · rename_i index e hselect
    by_cases hdestination : state.position ≠ 0 ∨ state.capacity ≤ e.matched tokens true ∨
        e.caches.length ≠ model.windows.length
    · rw [if_pos hdestination] at h
      cases h
    · rw [if_neg hdestination] at h
      cases run with
      | refused err => cases h
      | broken err rows => cases h
      | done =>
        cases h
        refine ⟨rfl, ?_⟩
        rw [Entry.matched, if_pos rfl]
        split
        · exact .inr rfl
        · exact .inl rfl

theorem admitDecisionSequence_keeps {input : TurnInput R} {s s' : DoryService R H φ}
    {group : DecisionGroup R H φ} {result : Except CudaError Unit}
    (hidle : ∀ q, s.idleDecision = some q → Allocated flash s.config q)
    (hrequired : longestBranchTokens group.request ≤ s.config.maxContextTokens)
    (hgroup : ∀ q, group.sequence = some q → Roomy flash s.config group.request q)
    (h : admitDecisionSequence m flash input s group = (result, s', group')) :
    s'.config = s.config ∧ s'.decisions = s.decisions ∧ s'.idleDecision = none ∧
      group'.request = group.request ∧
      ∀ q, group'.sequence = some q → Roomy flash s.config group.request q := by
  rw [admitDecisionSequence] at h
  cases htake : takeSequence m flash s.config s.idleDecision
      (longestBranchTokens group.request) with
  | error e =>
    rw [htake] at h
    cases h
    exact ⟨rfl, rfl, rfl, rfl, hgroup⟩
  | ok sequence =>
    rw [htake] at h
    have taken := takeSequence_roomy hidle hrequired htake
    have kept := prepare_keeps input sequence group.request.prefixTokens s.prefixes.enabled
    dsimp only at h
    generalize sequence.prepare input group.request.prefixTokens s.prefixes.enabled = prepared
      at h kept
    obtain ⟨room, after⟩ := kept
    rcases prepared with ⟨_ | _ | _, prepared⟩
    · cases h
      exact ⟨rfl, rfl, rfl, rfl, hgroup⟩
    · have fresh := after false rfl
      -- nothing is sealed, and the position is zero, until a prefix is restored
      have roomy : Roomy flash s.config group.request prepared := {
        allocated := by rw [room.capacity, room.logical]; exact taken.1
        longest := by rw [room.logical]; exact taken.2
        sealedAt := .inl fresh.1 }
      dsimp only at h
      generalize hrestore : restoreMatch m.toDoryModel input.restore s.prefixes prepared.state
        group.request.prefixTokens true = restored at h
      rcases restored with ⟨_ | n, prefixes, state⟩
      · cases h
        exact ⟨rfl, rfl, rfl, rfl, hgroup⟩
      · have restoring := restoreMatch_keeps hrestore
        have restoredRoomy : Roomy flash s.config group.request { prepared with state := state } :=
          roomy.keep ⟨restoring.1, rfl⟩ (.inl rfl)
        cases n with
        | zero =>
          cases h
          refine ⟨rfl, rfl, rfl, rfl, fun q hq => ?_⟩
          cases hq
          exact restoredRoomy
        | succ n =>
          have position : state.position = group.request.prefixTokens.length :=
            restoring.2.resolve_left (by omega)
          have sealing := sealPrefix_keeps { prepared with state := state }
          have sealedRoomy := restoredRoomy.keep sealing.1 (by
            have at_position := sealing.2
            rw [position] at at_position
            exact at_position)
          dsimp only at h
          generalize DoryDecisionSequence.sealPrefix { prepared with state := state } = outcome
            at h sealedRoomy
          rcases outcome with ⟨_ | _, behind⟩
          · cases h
            exact ⟨rfl, rfl, rfl, rfl, hgroup⟩
          · cases h
            refine ⟨rfl, rfl, rfl, rfl, fun q hq => ?_⟩
            cases hq
            exact sealedRoomy.retainPrefix _
    · have done := after true rfl
      cases h
      refine ⟨rfl, rfl, rfl, rfl, fun q hq => ?_⟩
      cases hq
      exact {
        allocated := by rw [room.capacity, room.logical]; exact taken.1
        longest := by rw [room.logical]; exact taken.2
        sealedAt := .inr done.1 }

/-! ## Runs of the service -/

section
variable {float : AnswerFloats φ} {one : φ} {question : DecisionBranch → DecisionPromptQuestion}
  {labels : List Nat} {vocab : Nat}

/-- Every sequence of the service has the room it was allocated with, and that of a group
has the room of its request. -/
structure ServiceRoomy (flash : Bool) (s : DoryService R H φ) : Prop where
  idle : ∀ q, s.idleDecision = some q → Allocated flash s.config q
  fits : ∀ id group, s.decisions.get id = some group →
    longestBranchTokens group.request ≤ s.config.maxContextTokens
  groups : ∀ id group, s.decisions.get id = some group →
    ∀ q, group.sequence = some q → Roomy flash s.config group.request q

section
variable {s s' : DoryService R H φ}

theorem ServiceRoomy.of_groups (hconfig : s'.config = s.config)
    (hidle : ∀ q, s'.idleDecision = some q → Allocated flash s.config q)
    (hgroups : ∀ id group, s'.decisions.get id = some group →
      longestBranchTokens group.request ≤ s.config.maxContextTokens ∧
        ∀ q, group.sequence = some q → Roomy flash s.config group.request q) :
    ServiceRoomy flash s' where
  idle := by rw [hconfig]; exact hidle
  fits := by
    intro id group hget
    rw [hconfig]
    exact (hgroups id group hget).1
  groups := by
    intro id group hget
    rw [hconfig]
    exact (hgroups id group hget).2

theorem ServiceRoomy.at (h : ServiceRoomy flash s) {id : Nat} {group : DecisionGroup R H φ}
    (hget : s.decisions.get id = some group) :
    longestBranchTokens group.request ≤ s.config.maxContextTokens ∧
      ∀ q, group.sequence = some q → Roomy flash s.config group.request q :=
  ⟨h.fits id group hget, h.groups id group hget⟩

theorem ServiceRoomy.erased (h : ServiceRoomy flash s) {id id' : Nat}
    {group : DecisionGroup R H φ} (hget : (s.decisions.erase id).get id' = some group) :
    longestBranchTokens group.request ≤ s.config.maxContextTokens ∧
      ∀ q, group.sequence = some q → Roomy flash s.config group.request q := by
  rw [BTreeMap.get_erase] at hget
  split at hget
  · cases hget
  · exact h.at hget

/-- One pass of the loop keeps the room of every sequence. -/
theorem runTurn_roomy {input : TurnInput R} {t : Tick R H φ} (hroomy : ServiceRoomy flash s)
    (h : runTurn m flash float one question input s tokens sequences tick = some t) :
    ServiceRoomy flash t.service ∧ t.service.config = s.config := by
  rw [runTurn] at h
  split at h
  · cases h
  rename_i id rest hready
  obtain ⟨group, hget, h⟩ := bind_eq_some_iff.mp h
  split at h
  · cases h
  obtain ⟨turned, hturn, h⟩ := bind_eq_some_iff.mp h
  have keeps : TurnKeeps flash
      { s with decisionReady := rest, decisions := s.decisions.erase id } group turned.service
      turned.group := advanceDecision_keeps (hroomy.groups id group hget) hturn
  have others : ∀ id' group', turned.service.decisions.get id' = some group' →
      longestBranchTokens group'.request ≤ s.config.maxContextTokens ∧
        ∀ q, group'.sequence = some q → Roomy flash s.config group'.request q := by
    intro id' group' hget'
    rw [keeps.service.decisions] at hget'
    exact hroomy.erased hget'
  have hidle : ∀ q, turned.service.idleDecision = some q → Allocated flash s.config q := by
    intro q hq
    rw [keeps.service.idleDecision] at hq
    exact hroomy.idle q hq
  have turnedRoomy : ServiceRoomy flash turned.service :=
    ServiceRoomy.of_groups keeps.service.config hidle others
  have sameConfig := keeps.service.config
  split at h
  · cases h
    exact ⟨turnedRoomy, sameConfig⟩
  · split at h
    · cases h
      split
      · refine ⟨ServiceRoomy.of_groups sameConfig (fun q hq => ?_) others, sameConfig⟩
        exact (keeps.roomy q hq).allocated
      · exact ⟨turnedRoomy, sameConfig⟩
    · cases h
      refine ⟨ServiceRoomy.of_groups sameConfig hidle fun id' group' hget' => ?_, sameConfig⟩
      rw [BTreeMap.get_insert] at hget'
      split at hget'
      · cases hget'
        rw [keeps.request]
        exact ⟨hroomy.fits id group hget, keeps.roomy⟩
      · exact others id' group' hget'
    · cases h
      exact ⟨turnedRoomy, sameConfig⟩

theorem step_roomy {event : Event R} (hroomy : ServiceRoomy flash s)
    (h : step m flash float one question labels vocab s event = some s') :
    ServiceRoomy flash s' := by
  cases event with
  | queue id request =>
    rw [step] at h
    split at h
    · cases h
      exact hroomy
    · rename_i hvalid
      cases h
      refine ServiceRoomy.of_groups rfl hroomy.idle fun id' group hget => ?_
      rw [BTreeMap.get_insert] at hget
      split at hget
      · cases hget
        exact ⟨(validateDecision_ok hvalid).longest, nofun⟩
      · exact hroomy.at hget
  | admission id input =>
    obtain ⟨group, hget, h⟩ := bind_eq_some_iff.mp h
    generalize hadmit : admitDecisionSequence m flash input s group = admitted at h
    obtain ⟨result, after, group'⟩ := admitted
    have keeps := admitDecisionSequence_keeps hroomy.idle (hroomy.fits id group hget)
      (hroomy.groups id group hget) hadmit
    obtain ⟨hconfig, hdecisions, hidle, hrequest, hgroup⟩ := keeps
    have noIdle : ∀ q, after.idleDecision = some q → Allocated flash s.config q := by
      rw [hidle]
      nofun
    cases result with
    | error e =>
      dsimp only at h
      split at h
      · cases h
        refine ServiceRoomy.of_groups hconfig noIdle fun id' group'' hget' => ?_
        rw [hdecisions] at hget'
        exact hroomy.at hget'
      · cases h
        refine ServiceRoomy.of_groups hconfig noIdle fun id' group'' hget' => ?_
        rw [hdecisions] at hget'
        exact hroomy.erased hget'
    | ok _ =>
      cases h
      refine ServiceRoomy.of_groups hconfig noIdle fun id' group'' hget' => ?_
      rw [hdecisions, BTreeMap.get_insert] at hget'
      split at hget'
      · cases hget'
        rw [hrequest]
        exact ⟨hroomy.fits id group hget, hgroup⟩
      · exact hroomy.at hget'
  | turn input tokens sequences =>
    obtain ⟨t, hturn, rfl⟩ := map_eq_some_iff.mp h
    exact (runTurn_roomy hroomy hturn).1
  | cancel id =>
    rw [step] at h
    split at h
    · cases h
      exact hroomy
    · rename_i group hget
      cases h
      refine ServiceRoomy.of_groups rfl (fun q hq => ?_) fun id' group' hget' => hroomy.erased hget'
      split at hq
      · exact (hroomy.groups id group hget q hq).allocated
      · exact hroomy.idle q hq
  | chat prefill prefixes =>
    cases h
    exact ⟨hroomy.idle, hroomy.fits, hroomy.groups⟩

end

/-! ## Budgets -/

/-- The turns of a tick have at most the budget of the tick. -/
def WithinBudget (s : DoryService R H φ) : Event R → Prop
  | .turn _ tokens _ => tokens ≤ s.config.prefillTokenCapacity
  | _ => True

/-! ## The queue of ready groups -/

/-- Every id of the queue has a group. -/
def Held (s : DoryService R H φ) : Prop := ∀ id ∈ s.decisionReady, (s.decisions.get id).isSome

/-- The id that an event puts into the queue. -/
def admitted : Event R → List Nat
  | .admission id _ => [id]
  | _ => []

section
variable {s s' : DoryService R H φ} {t : Tick R H φ} {id : Nat}

theorem Held.erased (h : Held s) (hqueue : s'.decisionReady ⊆ s.decisionReady)
    (hout : id ∉ s'.decisionReady) (hgroups : s'.decisions = s.decisions.erase id) : Held s' := by
  intro other hother
  have hne : id ≠ other := by
    rintro rfl
    exact hout hother
  rw [hgroups, BTreeMap.get_erase, if_neg hne]
  exact h other (hqueue hother)

theorem Held.inserted {group : DecisionGroup R H φ} (h : Held s)
    (hqueue : ∀ other ∈ s'.decisionReady, other = id ∨ other ∈ s.decisionReady)
    (hgroups : s'.decisions = s.decisions.insert id group) : Held s' := by
  intro other hother
  rw [hgroups, BTreeMap.get_insert]
  split
  · rfl
  · rename_i hne
    exact h other ((hqueue other hother).resolve_left (Ne.symm hne))

theorem runTurn_held {input : TurnInput R} (hroomy : ServiceRoomy flash s) (h : Held s)
    (honce : s.decisionReady.Nodup)
    (hturn : runTurn m flash float one question input s tokens sequences tick = some t) :
    Held t.service ∧ t.service.decisionReady <+~ s.decisionReady := by
  rw [runTurn] at hturn
  split at hturn
  · cases hturn
  rename_i id rest hready
  obtain ⟨group, hget, hturn⟩ := bind_eq_some_iff.mp hturn
  split at hturn
  · cases hturn
  obtain ⟨turned, hadvance, hturn⟩ := bind_eq_some_iff.mp hturn
  have hkeeps : TurnKeeps flash
      { s with decisionReady := rest, decisions := s.decisions.erase id } group turned.service
      turned.group := advanceDecision_keeps (hroomy.groups id group hget) hadvance
  have hsame := hkeeps.service
  rw [hready, nodup_cons] at honce
  have hqueue : turned.service.decisionReady = rest := hsame.decisionReady
  have hrest : rest <+ s.decisionReady := hready ▸ sublist_cons_self id rest
  have hturned : Held turned.service :=
    h.erased (hqueue ▸ hrest.subset) (hqueue ▸ honce.1) hsame.decisions
  have hleft : turned.service.decisionReady <+~ s.decisionReady := hqueue ▸ hrest.subperm
  split at hturn
  · cases hturn
    exact ⟨hturned, hleft⟩
  · split at hturn
    · cases hturn
      split
      · exact ⟨hturned, hleft⟩
      · exact ⟨hturned, hleft⟩
    · cases hturn
      refine ⟨hturned.inserted (fun other hother => ?_) rfl, ?_⟩
      · exact (mem_append.mp hother).symm.imp_left mem_singleton.mp
      · rw [hready]
        exact hqueue ▸ (perm_append_singleton id _).subperm
    · cases hturn
      exact ⟨hturned, hleft⟩

/-- An event takes ids out of the queue, moves them, or puts in the one it admits. -/
theorem step_held {event : Event R} (hroomy : ServiceRoomy flash s) (h : Held s)
    (hstep : step m flash float one question labels vocab s event = some s')
    (honce : (admitted event ++ s.decisionReady).Nodup) :
    Held s' ∧ s'.decisionReady <+~ admitted event ++ s.decisionReady := by
  cases event with
  | queue id request =>
    rw [step] at hstep
    split at hstep
    · cases hstep
      exact ⟨h, .refl _⟩
    · cases hstep
      exact ⟨h.inserted (fun _ => .inr) rfl, .refl _⟩
  | admission id input =>
    obtain ⟨group, hget, hstep⟩ := bind_eq_some_iff.mp hstep
    generalize hadmit : admitDecisionSequence m flash input s group = admitted at hstep
    obtain ⟨result, after, group'⟩ := admitted
    obtain ⟨-, hdecisions, -⟩ := admitDecisionSequence_keeps hroomy.idle
      (hroomy.fits id group hget) (hroomy.groups id group hget) hadmit
    have hqueue : after.decisionReady = s.decisionReady := by
      rw [admitDecisionSequence] at hadmit
      repeat' split at hadmit
      all_goals cases hadmit; rfl
    have hafter : Held after := by
      rw [Held, hqueue, hdecisions]
      exact h
    cases result with
    | error e =>
      have hleft : after.decisionReady <+~ id :: s.decisionReady :=
        hqueue ▸ (sublist_cons_self id _).subperm
      dsimp only at hstep
      split at hstep
      · cases hstep
        exact ⟨hafter, hleft⟩
      · cases hstep
        exact ⟨hafter.erased (Subset.refl _) (hqueue ▸ (nodup_cons.mp honce).1) rfl, hleft⟩
    | ok _ =>
      cases hstep
      refine ⟨hafter.inserted (fun other hother => ?_) rfl, ?_⟩
      · exact (mem_append.mp hother).symm.imp_left mem_singleton.mp
      · exact hqueue ▸ (perm_append_singleton id _).subperm
  | turn input tokens sequences =>
    obtain ⟨t, hturn, rfl⟩ := map_eq_some_iff.mp hstep
    exact runTurn_held hroomy h honce hturn
  | cancel id =>
    rw [step] at hstep
    split at hstep
    · cases hstep
      exact ⟨h, .refl _⟩
    · cases hstep
      exact ⟨h.erased filter_sublist.subset (by simp) rfl, filter_sublist.subperm⟩
  | chat prefill prefixes =>
    cases hstep
    exact ⟨h, .refl _⟩

theorem nodup_of_subperm {xs ys : List Nat} (h : xs <+~ ys) (hys : ys.Nodup) : xs.Nodup := by
  obtain ⟨zs, hperm, hsub⟩ := h
  exact hperm.nodup_iff.mp (hys.sublist hsub)

theorem runDecisions_held {inputs : Nat → TurnInput R} {turns : Nat}
    (hroomy : ServiceRoomy flash s) (h : Held s) (honce : s.decisionReady.Nodup)
    (hloop : runDecisions m flash float one question inputs turns s tokens sequences tick =
      some t) :
    ServiceRoomy flash t.service ∧ Held t.service ∧
      t.service.decisionReady <+~ s.decisionReady := by
  induction turns generalizing s tokens sequences tick with
  | zero =>
    cases hloop
    exact ⟨hroomy, h, .refl _⟩
  | succ turns ih =>
    rw [runDecisions] at hloop
    split at hloop
    · cases hloop
      exact ⟨hroomy, h, .refl _⟩
    obtain ⟨turn, hturn, hloop⟩ := bind_eq_some_iff.mp hloop
    have hroom := (runTurn_roomy hroomy hturn).1
    obtain ⟨hheld, hqueue⟩ := runTurn_held hroomy h honce hturn
    cases hresult : turn.result with
    | error e =>
      rw [hresult] at hloop
      cases hloop
      exact ⟨hroom, hheld, hqueue⟩
    | ok _ =>
      rw [hresult] at hloop
      obtain ⟨hroom', hheld', hqueue'⟩ := ih hroom hheld (nodup_of_subperm hqueue honce) hloop
      exact ⟨hroom', hheld', hqueue'.trans hqueue⟩

end

/-- An id that was given out waits or is ready, not both, and stands there once. A ready id
has a group. -/
structure Queued (flash : Bool) (e : DoryEngine R H φ) : Prop where
  roomy : ServiceRoomy flash e.service
  held : Held e.service
  once : (e.waiting ++ e.service.decisionReady).Nodup
  issued : ∀ id ∈ e.waiting ++ e.service.decisionReady, id < e.nextId

section
variable {e e' : DoryEngine R H φ}

theorem Queued.moved (h : Queued flash e) (hroomy : ServiceRoomy flash e'.service)
    (hheld : Held e'.service) (hnext : e'.nextId = e.nextId)
    (hids : e'.waiting ++ e'.service.decisionReady <+~ e.waiting ++ e.service.decisionReady) :
    Queued flash e' where
  roomy := hroomy
  held := hheld
  once := nodup_of_subperm hids h.once
  issued id hid := hnext ▸ h.issued id (hids.subset hid)

theorem Queued.issue {s : DoryService R H φ} (h : Queued flash e) (hroomy : ServiceRoomy flash s)
    (hheld : Held s) (hqueue : s.decisionReady <+~ e.service.decisionReady) :
    Queued flash (e.issue s) := by
  unfold DoryEngine.issue
  split
  · exact h
  have hids : e.waiting ++ [e.nextId] ++ s.decisionReady <+~
      e.nextId :: (e.waiting ++ e.service.decisionReady) := by
    rw [append_assoc]
    exact perm_middle.subperm.trans (subperm_cons _ |>.mpr ((Subperm.refl _).append hqueue))
  have hnew : e.nextId ∉ e.waiting ++ e.service.decisionReady := fun hid =>
    (h.issued _ hid).false
  refine ⟨hroomy, hheld, nodup_of_subperm hids (nodup_cons.mpr ⟨hnew, h.once⟩), fun id hid => ?_⟩
  rcases mem_cons.mp (hids.subset hid) with rfl | hid
  · exact Nat.lt_succ_self _
  · exact (h.issued id hid).trans (Nat.lt_succ_self _)

theorem call_queued {call : EngineCall R} (h : Queued flash e)
    (hcall : e.call m flash float one question labels vocab call = some e') : Queued flash e' := by
  have honce := (nodup_append.mp h.once).2.1
  cases call with
  | addDecision request =>
    rw [DoryEngine.call] at hcall
    split at hcall
    · cases hcall
      exact h
    · obtain ⟨s, hstep, rfl⟩ := map_eq_some_iff.mp hcall
      obtain ⟨hheld, hqueue⟩ := step_held h.roomy h.held hstep honce
      exact h.issue (step_roomy h.roomy hstep) hheld hqueue
  | addRequest =>
    cases hcall
    exact h.issue h.roomy h.held (.refl _)
  | admission input =>
    rw [DoryEngine.call] at hcall
    split at hcall
    · cases hcall
      exact h
    rename_i id rest hwaiting
    have hids : rest ++ (id :: e.service.decisionReady) <+~ e.waiting ++ e.service.decisionReady := by
      rw [hwaiting]
      exact perm_middle.subperm
    split at hcall
    · obtain ⟨s, hstep, rfl⟩ := map_eq_some_iff.mp hcall
      have hfront := (nodup_append.mp (nodup_of_subperm hids h.once)).2.1
      obtain ⟨hheld, hqueue⟩ := step_held h.roomy h.held hstep hfront
      exact h.moved (step_roomy h.roomy hstep) hheld rfl
        (((Subperm.refl rest).append hqueue).trans hids)
    · cases hcall
      refine h.moved h.roomy h.held rfl (Subperm.trans ?_ hids)
      exact (Subperm.refl rest).append (sublist_cons_self id _).subperm
  | decisions inputs tokens sequences =>
    obtain ⟨t, hloop, rfl⟩ := map_eq_some_iff.mp hcall
    obtain ⟨hroomy, hheld, hqueue⟩ := runDecisions_held h.roomy h.held honce hloop
    exact h.moved hroomy hheld rfl ((Subperm.refl _).append hqueue)
  | chat prefill prefixes =>
    cases hcall
    exact h.moved ⟨h.roomy.idle, h.roomy.fits, h.roomy.groups⟩ h.held rfl (.refl _)
  | cancelRequest id =>
    obtain ⟨s, hstep, rfl⟩ := map_eq_some_iff.mp hcall
    obtain ⟨hheld, hqueue⟩ := step_held h.roomy h.held hstep honce
    exact h.moved (step_roomy h.roomy hstep) hheld rfl (filter_sublist.subperm.append hqueue)

end

/-- In every run of calls and ticks from an engine without requests. -/
theorem queues_kept {start e : DoryEngine R H φ} {calls : List (EngineCall R)}
    (hgroups : start.service.decisions = .empty) (hidle : start.service.idleDecision = none)
    (hready : start.service.decisionReady = []) (hwaiting : start.waiting = [])
    (path : Run.Path (DoryEngine.call m flash float one question labels vocab)
      (fun _ _ => True) start calls e) : Queued flash e := by
  have hstart : Queued flash start := by
    refine ⟨⟨by simp [hidle], by simp [hgroups], by simp [hgroups]⟩, ?_, ?_, ?_⟩
    · simp [Held, hready]
    · simp [hwaiting, hready]
    · simp [hwaiting, hready]
  exact path.invariant (fun h _ hcall => call_queued h hcall) hstart

theorem new_supported {supported includePrefix : Bool} {fromHost : Nat → Except CudaError Unit}
    {lengths : List Nat} {p : DoryBranchPlan}
    (h : DoryBranchPlan.new supported fromHost prefixLen lengths includePrefix = some (.ok p)) :
    supported = true := by
  cases supported with
  | true => rfl
  | false =>
    by_cases hover : 2 ^ 64 ≤ (if includePrefix then prefixLen else 0) + lengths.sum
    · rw [DoryBranchPlan.new, if_pos hover] at h
      cases h
    · rw [DoryBranchPlan.new, if_neg hover, if_pos (.inl rfl)] at h
      cases h

theorem wavePrefix_le {s : DoryService R H φ} {group : DecisionGroup R H φ}
    {sequence : DoryDecisionSequence R H} {budget : Nat}
    (hroomy : Roomy flash s.config group.request sequence)
    (hwave : packedWave flash s group sequence budget = some wave)
    (hlead : wavePrefix wave.1 sequence = some prefixLen) :
    prefixLen ≤ group.request.prefixTokens.length := by
  rw [wavePrefix] at hlead
  split at hlead
  · rcases hroomy.sealedAt with hnone | hsealed
    · rw [hnone] at hlead
      cases hlead
    · rw [hsealed] at hlead
      cases hlead
      exact le_rfl
  · cases hlead
    exact (packedWave_bounds hwave).2.2

theorem packedWave_room {s : DoryService R H φ} {group : DecisionGroup R H φ}
    {sequence : DoryDecisionSequence R H} {budget : Nat} {fromHost : Nat → Except CudaError Unit}
    {plan : DoryBranchPlan} (hroomy : Roomy flash s.config group.request sequence)
    (hbudget : budget ≤ s.config.prefillTokenCapacity)
    (hwave : packedWave flash s group sequence budget = some wave)
    (hlead : wavePrefix wave.1 sequence = some prefixLen)
    (hplan : DoryBranchPlan.new flash fromHost prefixLen (wave.2.map List.length)
      (!wave.1.isEmpty) = some (.ok plan)) : plan.capacity ≤ sequence.state.capacity := by
  have placed := plan_pages.2 plan hplan
  have hflash := new_supported hplan
  have bounds := packedWave_bounds hwave
  have branches := bounds.2.1 hflash
  have inside := wavePrefix_le hroomy hwave hlead
  have nonempty : 0 < wave.2.length := by
    have some_suffix := (packedWave_eq_some.mp hwave).2.2.1
    exact length_pos_iff.mpr fun e => by simp [e] at some_suffix
  have longest : group.request.prefixTokens.length ≤ sequence.logicalCapacity :=
    le_trans (Nat.le_add_right _ _) hroomy.longest
  have room := placed.room
  rw [length_map] at room
  rw [hroomy.allocated, branchScratch, if_pos hflash]
  omega

end

/-- **The packed rows of a decision wave stay on their own pages.** Every accepted plan
places its rows, and after every run of the service from one without decisions, every
wave that a turn can form has its plan inside the rows that its sequence was allocated
with. -/
theorem waves_stay_on_their_pages :
    (∀ (supported : Bool) (fromHost : Nat → Except CudaError Unit) (prefixLen : Nat)
      (lengths : List Nat) (includePrefix : Bool),
      DoryBranchPlan.new supported fromHost prefixLen lengths includePrefix ≠ none ∧
        ∀ p, DoryBranchPlan.new supported fromHost prefixLen lengths includePrefix = some (.ok p) →
          Placed p prefixLen lengths includePrefix) ∧
      ∀ (R H φ : Type) (m : Checkpoint R H φ) (flash : Bool) (float : AnswerFloats φ) (one : φ)
        (question : DecisionBranch → DecisionPromptQuestion) (labels : List Nat) (vocab : Nat)
        (start s : DoryService R H φ) (events : List (Event R)),
        start.decisions = .empty → start.idleDecision = none →
        Run.Path (step m flash float one question labels vocab) WithinBudget start events s →
        ∀ id group sequence, s.decisions.get id = some group → group.sequence = some sequence →
          sequence.state.capacity = sequence.logicalCapacity +
              branchScratch flash s.config.prefillTokenCapacity
                (min s.config.decisionBranchCapacity 64) ∧
            ∀ budget wave prefixLen fromHost plan, budget ≤ s.config.prefillTokenCapacity →
              packedWave flash s group sequence budget = some wave →
              wavePrefix wave.1 sequence = some prefixLen →
              DoryBranchPlan.new flash fromHost prefixLen (wave.2.map List.length)
                (!wave.1.isEmpty) = some (.ok plan) →
              plan.capacity ≤ sequence.state.capacity := by
  refine ⟨fun supported fromHost prefixLen lengths includePrefix => plan_pages, ?_⟩
  intro R H φ m flash float one question labels vocab start s events hempty hidle path
    id group sequence hget hsequence
  have fresh : ServiceRoomy flash start := by
    constructor
    · rw [hidle]
      nofun
    · rw [hempty]
      nofun
    · rw [hempty]
      nofun
  have roomy := path.invariant (fun kept _ taken => step_roomy kept taken) fresh
  have room := roomy.groups id group hget sequence hsequence
  exact ⟨room.allocated, fun budget wave prefixLen fromHost plan hbudget hwave hlead hplan =>
    packedWave_room room hbudget hwave hlead hplan⟩

/-! Two questions behind a prefix of two tokens. -/

/-- A checkpoint of one layer with full attention. -/
def smallCheckpoint : Checkpoint Nat Nat Nat where
  windows := [0]
  rowBytes := 4
  vocabSize := 16
  maxPositionEmbeddings := 1024
  zero := 0
  backbone := fun position token _ _ => position * 16 + token
  config := ⟨64, 64, 256, 1, 1, 1024⟩
  hidden := fun position token _ => position * 16 + token
  initialHidden := 0
  headIdentity := 1
  selected := fun hidden => [hidden, hidden + 1]

def yesOrNo (id : String) (suffix : List Nat) : DecisionBranch := ⟨id, suffix, [7, 8], ["true", "false"]⟩

def twoQuestions : DecisionRequest :=
  ⟨decisionPromptFormat, [1, 2], [7, 8], [yesOrNo "first" [3], yesOrNo "second" [4, 5]]⟩

def smallConfig : SchedulerConfig := ⟨8, 2, 8, 8, 2, 64, 0⟩

def smallInput : TurnInput Nat :=
  ⟨.ok (), fun _ => .ok (), fun _ => .ok (), 1, 1, .done, .ok (), .done, ⟨.ok (), .ok ()⟩⟩

def emptyService : DoryService Nat Nat Nat := ⟨smallConfig, ⟨1, 8, 64⟩, .new 0, none, .empty, []⟩

def smallFloats : AnswerFloats Nat :=
  ⟨0, fun _ => true, fun _ => true, fun xs _ => some xs, fun _ => 0, fun _ => 0, fun _ => 0⟩

/-- The group behind its admission: four tokens, and the scratch of two branches. -/
def admittedGroup : DecisionGroup Nat Nat Nat :=
  { (queuedGroup twoQuestions : DecisionGroup Nat Nat Nat) with
    sequence := some ⟨[], none, ⟨fun _ _ => 0, 4 + (8 + 128 * 2), 0, true⟩, 0, none, 4, []⟩ }

/-- The wave of both questions behind the prefix fits the scratch of the new sequence. -/
theorem two_questions_fit :
    ∃ plan, DoryBranchPlan.new true (fun _ => .ok ()) 2 [1, 2] true = some (.ok plan) ∧
      plan.capacity ≤ 4 + (8 + 128 * 2) := by
  let service : DoryService Nat Nat Nat :=
    { emptyService with decisions := .ofList [(0, admittedGroup)], decisionReady := [0] }
  let queuedService : DoryService Nat Nat Nat :=
    { emptyService with decisions := .ofList [(0, queuedGroup twoQuestions)] }
  let take := step smallCheckpoint true smallFloats 1 (fun _ => .noul) [7, 8] 16
  have queued : take emptyService (.queue 0 twoQuestions) = some queuedService := by rfl
  have admitted : take queuedService (.admission 0 smallInput) = some service := by rfl
  have path : Run.Path take WithinBudget emptyService
      [.queue 0 twoQuestions, .admission 0 smallInput] service :=
    .cons trivial queued (.cons trivial admitted (.nil service))
  obtain ⟨plan, hplan⟩ : ∃ plan,
      DoryBranchPlan.new true (fun _ => .ok ()) 2 [1, 2] true = some (.ok plan) := ⟨_, rfl⟩
  refine ⟨plan, hplan, ?_⟩
  have fits := waves_stay_on_their_pages.2 Nat Nat Nat smallCheckpoint true smallFloats 1
    (fun _ => .noul) [7, 8] 16 emptyService service _ rfl rfl path 0 admittedGroup _ rfl rfl
  exact fits.2 8 ([1, 2], [[3], [4, 5]]) 2 (fun _ => .ok ()) plan (by decide) rfl rfl hplan

/-- The first of two decisions is admitted and takes a turn, the second waits. -/
theorem one_ready_one_waiting : ∃ calls e, Run.Path
      (DoryEngine.call smallCheckpoint true smallFloats 1 (fun _ => .noul) [7, 8] 16)
      (fun _ _ => True) ⟨emptyService, 0, []⟩ calls e ∧
    e.waiting = [1] ∧ e.service.decisionReady = [0] ∧ Queued true e := by
  obtain ⟨e, path, hids⟩ : ∃ e, Run.Path
      (DoryEngine.call smallCheckpoint true smallFloats 1 (fun _ => .noul) [7, 8] 16)
      (fun _ _ => True) ⟨emptyService, 0, []⟩
      [.addDecision twoQuestions, .addDecision twoQuestions, .admission smallInput,
        .decisions (fun _ => smallInput) 1 2] e ∧ e.waiting = [1] ∧ e.service.decisionReady = [0] :=
    ⟨_, .cons trivial rfl (.cons trivial rfl (.cons trivial rfl (.cons trivial rfl (.nil _)))),
      rfl, rfl⟩
  exact ⟨_, e, path, hids.1, hids.2, queues_kept rfl rfl rfl rfl path⟩

end Eider.Guarantees.DoryWaves
