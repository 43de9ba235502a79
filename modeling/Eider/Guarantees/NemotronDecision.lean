import Eider.Guarantees.DecisionRequests
import Eider.Lib.Ensures
import Eider.Lib.Feed
import Eider.Source.Nemotron3.Decision
import Mathlib.Algebra.BigOperators.Fin

/-!
What the turns of a Nemotron 3 decision group feed
(`infer/src/execution/nemotron3_serving/decision.rs`, lines 106 to 339).

The parent is fed the prefix once, each branch its own suffix once behind it, and the
budget of a turn goes into tokens. A turn with a budget feeds at least one token, also where
a short chunk undoes the division of the budget. A group fails only where a call from
outside fails, or where its logits give no answer.
-/
namespace Eider.Guarantees.NemotronDecision
open Lib Lib.ByteReader Lib.Feed List Ensures
open Guarantees.DecisionRequests (ValidRequest)
open Source Source.Nemotron3
open Source.Qwen36 (raise attempt expect DecisionBranch DecisionBranchLogits DecisionRequest
  SchedulerConfig)

variable {suffixes : List (List Nat)} {chunk : List Nat} {q : DecisionBranch} {b : Branch}
variable {before after : List Branch} {chunks : List (List Nat)}

/-! ## The division of a budget -/

section

/-- A share of a branch: as much as it has left at most, and something if it has. -/
def Share (count remaining : Nat) : Prop := count ≤ remaining ∧ (0 < remaining → 0 < count)

theorem shareBudget_ok (budget : Nat) (remaining : List Nat) (h : remaining.length ≤ budget) :
    ∃ counts left, shareBudget budget remaining = some (counts, left) ∧
      List.Forall₂ Share counts remaining ∧ counts.sum + left = budget := by
  induction remaining generalizing budget with
  | nil => exact ⟨[], budget, rfl, .nil, Nat.zero_add _⟩
  | cons first rest ih =>
    have hdivision : budget / (rest.length + 1) * (rest.length + 1) ≤ budget := Nat.div_mul_le_self _ _
    have hpositive : 1 ≤ budget / (rest.length + 1) := (Nat.one_le_div_iff (by omega)).mpr h
    -- what is left keeps a token for each of the others
    have hshare : budget / (rest.length + 1) + rest.length ≤ budget := by
      rw [Nat.mul_add, Nat.mul_one] at hdivision
      have := Nat.mul_le_mul_right rest.length hpositive
      omega
    obtain ⟨counts, left, hrest, hcounts, hsum⟩ :=
      ih (budget - min first (budget / (rest.length + 1))) (by omega)
    refine ⟨min first (budget / (rest.length + 1)) :: counts, left, ?_, ?_, ?_⟩
    · rw [shareBudget]
      simp only [hrest, Option.bind_eq_bind, Option.bind_some]
      rw [if_neg (by omega)]
    · exact .cons ⟨min_le_left _ _, fun hfirst => lt_min hfirst hpositive⟩ hcounts
    · rw [sum_cons]
      omega

/-- A chunk of a branch: the next tokens that it has left, and at least one. -/
def Chunk (chunk suffix : List Nat) : Prop := chunk <+: suffix ∧ chunk ≠ []

theorem chunk_take {suffix : List Nat} {count : Nat} (hpos : 0 < count) (hsuffix : suffix ≠ []) :
    Chunk (suffix.take count) suffix := by
  refine ⟨List.take_prefix _ _, fun h => ?_⟩
  rcases take_eq_nil_iff.mp h with hzero | hnil
  · omega
  · exact hsuffix hnil

theorem chunks_of_shares {counts : List Nat}
    (h : List.Forall₂ Share counts (suffixes.map List.length)) (hne : ∀ s ∈ suffixes, s ≠ []) :
    List.Forall₂ Chunk (suffixes.zipWith (fun suffix count => suffix.take count) counts) suffixes ∧
      (suffixes.zipWith (fun suffix count => suffix.take count) counts).map List.length = counts := by
  induction suffixes generalizing counts with
  | nil =>
    cases h
    exact ⟨.nil, rfl⟩
  | cons first rest ih =>
    cases h with
    | cons hshare hrest =>
      obtain ⟨hchunks, hlengths⟩ := ih hrest fun s hs => hne s (mem_cons_of_mem _ hs)
      have hfirst := hne first mem_cons_self
      refine ⟨.cons (chunk_take (hshare.2 (length_pos_iff.mpr hfirst)) hfirst) hchunks, ?_⟩
      rw [zipWith_cons_cons, map_cons, hlengths, length_take, Nat.min_eq_left hshare.1]

theorem planChunks_ok {budget : Nat} (hsome : suffixes ≠ []) (hbudget : 0 < budget)
    (hne : ∀ s ∈ suffixes, s ≠ []) :
    ∃ chunks left, planChunks suffixes budget = some (chunks, left) ∧ chunks ≠ [] ∧
      List.Forall₂ Chunk chunks (suffixes.take chunks.length) ∧
      (chunks.map List.length).sum + left = budget := by
  have hlen : 0 < suffixes.length := length_pos_iff.mpr hsome
  have htaken : ∀ s ∈ suffixes.take (min suffixes.length budget), s ≠ [] :=
    fun s hs => hne s (mem_of_mem_take hs)
  obtain ⟨counts, left, hshares, hcounts, hsum⟩ :=
    shareBudget_ok budget ((suffixes.take (min suffixes.length budget)).map length) (by simp)
  obtain ⟨hchunks, hlengths⟩ := chunks_of_shares hcounts htaken
  rw [planChunks]
  simp only [hshares, Option.bind_eq_bind, Option.bind_some]
  by_cases hshort : 1 < min suffixes.length budget ∧ counts.any (fun count => decide (count < 32))
  · obtain ⟨first, rest, rfl⟩ := exists_cons_of_ne_nil hsome
    have hfirst := hne first mem_cons_self
    have hpos : 0 < min first.length budget := lt_min (length_pos_iff.mpr hfirst) hbudget
    refine ⟨[first.take (min first.length budget)], budget - min first.length budget, ?_,
      by simp, .cons (chunk_take hpos hfirst) .nil, ?_⟩
    · rw [if_pos hshort]
      rfl
    · simp only [map_cons, map_nil, sum_cons, sum_nil, length_take]
      omega
  · rw [if_neg hshort]
    have hcount : ((suffixes.take (min suffixes.length budget)).zipWith
        (fun suffix count => suffix.take count) counts).length = min suffixes.length budget := by
      rw [hchunks.length_eq, length_take]
      omega
    refine ⟨_, left, rfl, ?_, ?_, by rw [hlengths]; exact hsum⟩
    · intro hnil
      rw [hnil, length_nil] at hcount
      omega
    · rw [hcount]
      exact hchunks

end

/-! ## Invariant -/

section
variable {φ : Type}

/-- A live branch: it was forked behind the whole prefix, and fed the start of its suffix. -/
def Live (request : DecisionRequest) (next : Nat) (fed : List (Target × List Nat)) (b : Branch) :
    Prop :=
  b.index < next ∧ ∃ q, request.branches[b.index]? = some q ∧
    b.position ≤ q.suffixTokens.length ∧
    fedTo (.branch b.index) fed = q.suffixTokens.take b.position ∧
    b.sequence.chunks.flatten = request.prefixTokens ++ q.suffixTokens.take b.position ∧
    b.sequence.capacity = request.prefixTokens.length + q.suffixTokens.length

/-- A branch with tokens left. -/
def Open (request : DecisionRequest) (b : Branch) : Prop :=
  ∀ q, request.branches[b.index]? = some q → b.position < q.suffixTokens.length

variable (model : DecisionModel φ) (request : DecisionRequest)

/-- A branch that was read: its suffix was fed, and its row comes from a sequence that was
fed the prefix and the suffix. -/
def Read
    (logits : List (Option (DecisionBranchLogits φ))) (fed : List (Target × List Nat)) (i : Nat)
    (q : DecisionBranch) : Prop :=
  fedTo (.branch i) fed = q.suffixTokens ∧
    ∃ chunks, chunks.flatten = request.prefixTokens ++ q.suffixTokens ∧
      logits[i]? = some (some ⟨q.questionId, (model.logits chunks).take q.labelTokenIds.length⟩)

/-- A group between the calls of a turn. -/
structure Feeding (model : DecisionModel φ) (config : SchedulerConfig) (request : DecisionRequest)
    (parent : Nemotron3Sequence) (branches : List Branch) (s : TurnState φ) : Prop where
  sameRequest : s.group.request = request
  execution : s.group.execution = some ⟨some parent, branches⟩
  parentFed : fedTo .parent s.fed = parent.chunks.flatten
  parentPrefix : parent.chunks.flatten <+: request.prefixTokens
  parentRoom : request.prefixTokens.length ≤ parent.capacity
  whole : s.group.nextBranch ≠ 0 → parent.chunks.flatten = request.prefixTokens
  next : s.group.nextBranch ≤ request.branches.length
  live : ∀ b ∈ branches, Live request s.group.nextBranch s.fed b
  distinct : (branches.map Branch.index).Nodup
  count : branches.length ≤ config.decisionBranchCapacity
  rows : s.group.logits.length = request.branches.length
  read : ∀ i q, request.branches[i]? = some q → i < s.group.nextBranch →
    i ∉ branches.map Branch.index → Read model request s.group.logits s.fed i q
  unforked : ∀ i, s.group.nextBranch ≤ i → fedTo (.branch i) s.fed = []
  targets : ∀ entry ∈ s.fed, entry.1 = .parent ∨ ∃ i < s.group.nextBranch, entry.1 = .branch i
  behind : Behind .parent request.prefixTokens s.fed

/-- A group between two turns: its live branches have tokens left, and there is a branch
to fork or to feed. -/
structure Waiting (model : DecisionModel φ) (config : SchedulerConfig) (request : DecisionRequest)
    (parent : Nemotron3Sequence) (branches : List Branch) (s : TurnState φ) : Prop
    extends Feeding model config request parent branches s where
  unread : ∀ b ∈ branches, Open request b
  more : branches = [] → s.group.nextBranch < request.branches.length

/-- What was fed so far: the start of the prefix, and of the suffixes behind it. -/
structure Faithful (request : DecisionRequest) (fed : List (Target × List Nat)) : Prop where
  parentFed : fedTo .parent fed <+: request.prefixTokens
  branchFed : ∀ i q, request.branches[i]? = some q → fedTo (.branch i) fed <+: q.suffixTokens
  behind : Behind .parent request.prefixTokens fed
  targets : ∀ entry ∈ fed, entry.1 = .parent ∨ ∃ i < request.branches.length, entry.1 = .branch i

/-- A row for each branch in order, from a sequence that was fed the prefix and its suffix. -/
def RowsOf (rows : List (DecisionBranchLogits φ)) : Prop :=
  List.Forall₂ (fun q row => ∃ chunks : List (List Nat),
    chunks.flatten = request.prefixTokens ++ q.suffixTokens ∧
      row = ⟨q.questionId, (model.logits chunks).take q.labelTokenIds.length⟩)
    request.branches rows

/-- A finished group: what every target was fed, and a row for each branch. -/
structure Completed (model : DecisionModel φ) (request : DecisionRequest)
    (fed : List (Target × List Nat)) (completion : DecisionCompletion φ) : Prop where
  parentFed : fedTo .parent fed = request.prefixTokens
  branchFed : ∀ i q, request.branches[i]? = some q → fedTo (.branch i) fed = q.suffixTokens
  faithful : Faithful request fed
  rows : RowsOf model request completion.branchLogits
  answers : answersFromLogits model.float model.question request completion.branchLogits model.one =
    .ok completion.answers

/-- A failed call from outside, or logits without an answer; no panic. -/
def Refused (calls : DecisionCall → Except CudaError Unit) : Fault CudaError → TurnState φ → Prop
  | .failed e, t => Faithful request t.fed ∧ ((∃ call, calls call = .error e) ∨
      ∃ rows refusal, RowsOf model request rows ∧
        answersFromLogits model.float model.question request rows model.one = .error refusal ∧
        e = decisionError refusal.message)
  | .panicked _, _ => False

end

/-! ## The prefix -/

section
variable {φ : Type} {model : DecisionModel φ} {config : SchedulerConfig} {request : DecisionRequest}
  {calls : DecisionCall → Except CudaError Unit} {parent : Nemotron3Sequence}
  {branches : List Branch} {s : TurnState φ} {vocab context : Nat} {α β : Type}

theorem Feeding.faithful (h : Feeding model config request parent branches s) :
    Faithful request s.fed where
  parentFed := by
    rw [h.parentFed]
    exact h.parentPrefix
  branchFed := by
    intro i q hq
    rcases Nat.lt_or_ge i s.group.nextBranch with hforked | hlater
    · by_cases hlive : i ∈ branches.map Branch.index
      · obtain ⟨b, hb, rfl⟩ := mem_map.mp hlive
        obtain ⟨-, q', hq', -, hfed, -⟩ := h.live b hb
        obtain rfl : q = q' := Option.some.inj (hq.symm.trans hq')
        rw [hfed]
        exact take_prefix _ _
      · rw [(h.read i q hq hforked hlive).1]
    · rw [h.unforked i hlater]
      exact nil_prefix
  behind := h.behind
  targets := by
    intro entry hentry
    rcases h.targets entry hentry with hparent | ⟨i, hi, hbranch⟩
    · exact .inl hparent
    · exact .inr ⟨i, Nat.lt_of_lt_of_le hi h.next, hbranch⟩

variable {P : β → TurnState φ → Prop} {E : Fault CudaError → TurnState φ → Prop}

theorem expect_rule {value : Option α} {a : α} {message : String} {f : α → Turn φ β}
    (h : value = some a)
    (rest : Ensures (f a) s P E) : Ensures (expect value message >>= f) s P E := by
  subst h
  exact rest

theorem attempt_rule {result : Except CudaError α} {a : α} {f : α → Turn φ β} (h : result = .ok a)
    (rest : Ensures (f a) s P E) : Ensures (attempt result >>= f) s P E := by
  subst h
  exact rest

theorem call_rule (call : DecisionCall) {f : Unit → Turn φ β} (hfed : Faithful request s.fed)
    (rest : Ensures (f ()) s P (Refused model request calls)) :
    Ensures (attempt (calls call) >>= f) s P (Refused model request calls) := by
  cases h : calls call with
  | ok _ => exact rest
  | error e => exact ⟨hfed, .inl ⟨call, h⟩⟩

theorem spend_rule {count : Nat} {f : Unit → Turn φ β} (h : count ≤ s.budget)
    (rest : Ensures (f ()) { s with budget := s.budget - count } P E) :
    Ensures (spend count >>= f) s P E := by
  rw [spend, bind_assoc]
  apply get_bind
  rw [if_neg (Nat.not_lt.mpr h)]
  exact rest

theorem checkBlock_single {sequence : Nemotron3Sequence} (hne : chunk ≠ [])
    (hroom : sequence.position + chunk.length ≤ sequence.capacity) :
    checkBlock [sequence] [chunk] = .ok () := by
  have hempty : chunk.isEmpty = false := isEmpty_eq_false_iff.mpr hne
  rw [checkBlock, if_neg (by simp), if_neg (by simp [hempty]), if_neg (by simp; omega)]

theorem drop_take_prefix {tokens seen : List Nat} {stop : Nat} (hseen : seen <+: tokens)
    (hstop : seen.length ≤ stop) :
    seen ++ (tokens.take stop).drop seen.length = tokens.take stop := by
  have hseen' : seen <+: tokens.take stop := by
    rw [prefix_take_iff]
    exact ⟨hseen, hstop⟩
  obtain ⟨rest, hrest⟩ := hseen'
  rw [← hrest, drop_left]

section
variable (h : Waiting model config request parent branches s)
include h

theorem Waiting.feedParent (hstart : parent.position < request.prefixTokens.length) {stop : Nat}
    (hstop : parent.position ≤ stop) (budget : Nat) :
    Waiting model config request
      (parent.feed ((request.prefixTokens.take stop).drop parent.position)) branches
      { group := { s.group with
          execution := some
            ⟨some (parent.feed ((request.prefixTokens.take stop).drop parent.position)), branches⟩ }
        budget := budget
        fed := s.fed ++ [(.parent, (request.prefixTokens.take stop).drop parent.position)] } := by
  -- nothing is forked before the prefix is whole
  have hnext : s.group.nextBranch = 0 := by
    by_contra hsome
    have whole := congrArg length (h.whole hsome)
    exact absurd hstart (by rw [Nemotron3Sequence.position]; omega)
  have hnone : branches = [] := by
    cases branches with
    | nil => rfl
    | cons b rest =>
      have index := (h.live b mem_cons_self).1
      omega
  have hflatten : (parent.feed ((request.prefixTokens.take stop).drop parent.position)).chunks.flatten =
      request.prefixTokens.take stop := by
    rw [Nemotron3Sequence.feed, flatten_append, flatten_singleton]
    exact drop_take_prefix h.parentPrefix hstop
  subst hnone
  constructor
  · constructor
    case sameRequest => exact h.sameRequest
    case execution => rfl
    case parentFed =>
      rw [fedTo_append, fedTo_cons_self, fedTo_nil, append_nil, h.parentFed]
      rw [hflatten]
      exact drop_take_prefix h.parentPrefix hstop
    case parentPrefix =>
      rw [hflatten]
      exact take_prefix _ _
    case parentRoom => exact h.parentRoom
    case whole => exact fun hsome => absurd hnext hsome
    case next => exact h.next
    case live => nofun
    case distinct => exact nodup_nil
    case count => exact Nat.zero_le _
    case rows => exact h.rows
    case read =>
      intro i q hq hi
      dsimp only at hi
      omega
    case unforked =>
      intro i hi
      rw [fedTo_append, fedTo_cons_of_ne (by simp), fedTo_nil, append_nil]
      exact h.unforked i hi
    case targets =>
      intro entry hentry
      rcases mem_append.mp hentry with hold | hnew
      · exact h.targets entry hold
      · obtain rfl := mem_singleton.mp hnew
        exact .inl rfl
    case behind => exact h.behind.concat fun hparent => absurd rfl hparent
  · nofun
  · exact h.more

theorem advancePrefix_ensures (hbudget : 0 < s.budget) :
    Ensures (advancePrefix calls) s
      (fun go t => ∃ parent', Waiting model config request parent' branches t ∧
        t.budget + total t.fed = s.budget + total s.fed ∧
        total s.fed ≤ total t.fed ∧
        (go = true → parent'.chunks.flatten = request.prefixTokens ∧ 0 < t.budget) ∧
        (go = false → total s.fed < total t.fed)) (Refused model request calls) := by
  apply get_bind
  apply expect_rule h.execution
  apply expect_rule rfl
  rw [h.sameRequest]
  by_cases hstart : parent.position < request.prefixTokens.length
  · rw [if_pos hstart]
    dsimp only
    generalize hstop : min request.prefixTokens.length (parent.position + s.budget) = stop
    have behind : parent.position ≤ stop := by omega
    have waiting := h.feedParent hstart behind
    have hlength : ((request.prefixTokens.take stop).drop parent.position).length =
        stop - parent.position := by
      rw [length_drop, length_take]
      omega
    have hflatten : parent.chunks.flatten ++ (request.prefixTokens.take stop).drop parent.position =
        request.prefixTokens.take stop := drop_take_prefix h.parentPrefix behind
    generalize (request.prefixTokens.take stop).drop parent.position = chunk
      at waiting hlength hflatten ⊢
    have hchunk : chunk ≠ [] := length_pos_iff.mp (by omega)
    have room := h.parentRoom
    refine call_rule _ h.faithful ?_
    refine attempt_rule (checkBlock_single hchunk (by omega)) ?_
    refine call_rule _ h.faithful ?_
    apply modify_bind
    apply modify_bind
    refine call_rule _ (waiting s.budget).faithful ?_
    refine spend_rule (by dsimp only; omega) ?_
    apply get_bind
    refine ⟨_, waiting (s.budget - (stop - parent.position)), ?_, ?_, fun hgo => ?_, fun _ => ?_⟩
    · simp only [total_append, total_cons, total_nil]
      omega
    · rw [total_append]
      exact Nat.le_add_right _ _
    · simp only [Bool.and_eq_true, decide_eq_true_eq, beq_iff_eq] at hgo
      refine ⟨?_, Nat.pos_of_ne_zero hgo.1⟩
      rw [Nemotron3Sequence.feed, flatten_append, flatten_singleton, hflatten, hgo.2, take_length]
    · simp only [total_append, total_cons, total_nil]
      omega
  · rw [if_neg hstart]
    refine ⟨parent, h, rfl, Nat.le_refl _, fun _ => ⟨?_, hbudget⟩, nofun⟩
    exact h.parentPrefix.eq_of_length_le (Nat.not_lt.mp hstart)

/-! ## Branches -/

/-- A new branch behind the whole prefix. -/
def forked (request : DecisionRequest) (parent : Nemotron3Sequence) (index : Nat)
    (q : DecisionBranch) : Branch :=
  ⟨index, 0, ⟨request.prefixTokens.length + q.suffixTokens.length, parent.chunks⟩⟩

omit h in
theorem Feeding.fork (h : Feeding model config request parent branches s)
    (hwhole : parent.chunks.flatten = request.prefixTokens)
    (hq : request.branches[s.group.nextBranch]? = some q)
    (hcount : branches.length + 1 ≤ config.decisionBranchCapacity) :
    Feeding model config request parent (branches ++ [forked request parent s.group.nextBranch q])
      { s with group := {
          request := request
          execution := some
            ⟨some parent, branches ++ [forked request parent s.group.nextBranch q]⟩
          nextBranch := s.group.nextBranch + 1
          logits := s.group.logits } } where
  sameRequest := rfl
  execution := rfl
  parentFed := h.parentFed
  parentPrefix := h.parentPrefix
  parentRoom := h.parentRoom
  whole := fun _ => hwhole
  next := (List.getElem?_eq_some_iff.mp hq).1
  live := by
    intro b hb
    rcases List.mem_append.mp hb with hold | hnew
    · obtain ⟨hindex, rest⟩ := h.live b hold
      exact ⟨Nat.lt_succ_of_lt hindex, rest⟩
    · obtain rfl := mem_singleton.mp hnew
      refine ⟨Nat.lt_succ_self _, q, hq, Nat.zero_le _, ?_, ?_, rfl⟩
      · exact h.unforked _ (Nat.le_refl _)
      · rw [forked, take_zero, append_nil]
        exact hwhole
  distinct := by
    rw [map_append, map_singleton]
    refine nodup_append.mpr ⟨h.distinct, nodup_singleton _, ?_⟩
    rintro i hi _ hj rfl
    obtain ⟨b, hb, rfl⟩ := mem_map.mp hi
    have index := (h.live b hb).1
    rw [mem_singleton.mp hj] at index
    exact Nat.lt_irrefl _ index
  count := by simpa using hcount
  rows := h.rows
  read := by
    intro i q' hq' hi hlive
    rw [map_append, mem_append, not_or] at hlive
    refine h.read i q' hq' ?_ hlive.1
    rcases Nat.lt_succ_iff_lt_or_eq.mp hi with hless | heq
    · exact hless
    · exact absurd (mem_singleton.mpr heq) hlive.2
  unforked := fun i hi => h.unforked i (Nat.le_of_succ_le hi)
  targets := by
    intro entry hentry
    rcases h.targets entry hentry with hparent | ⟨i, hi, hbranch⟩
    · exact .inl hparent
    · exact .inr ⟨i, Nat.lt_succ_of_lt hi, hbranch⟩
  behind := h.behind

omit h in
theorem open_forked {index : Nat} (hq : request.branches[index]? = some q)
    (hsuffix : q.suffixTokens ≠ []) : Open request (forked request parent index q) := by
  intro q' hq'
  rw [forked] at hq' ⊢
  dsimp only at hq' ⊢
  rw [hq] at hq'
  cases hq'
  exact length_pos_iff.mpr hsuffix

omit h in
theorem forkBranches_ensures {count : Nat} (h : Feeding model config request parent branches s)
    (hwhole : parent.chunks.flatten = request.prefixTokens)
    (hsuffix : ∀ q ∈ request.branches, q.suffixTokens ≠ []) (hopen : ∀ b ∈ branches, Open request b)
    (hcount : branches.length + count ≤ config.decisionBranchCapacity)
    (hnext : s.group.nextBranch + count ≤ request.branches.length) :
    Ensures (forkBranches calls count) s
      (fun _ t => ∃ branches', Feeding model config request parent branches' t ∧
        (∀ b ∈ branches', Open request b) ∧ t.budget = s.budget ∧ t.fed = s.fed ∧
        branches'.length = branches.length + count) (Refused model request calls) := by
  induction count generalizing s branches with
  | zero => exact ⟨branches, h, hopen, rfl, rfl, rfl⟩
  | succ count ih =>
    have inside : s.group.nextBranch < request.branches.length := by omega
    have hq : request.branches[s.group.nextBranch]? = some request.branches[s.group.nextBranch] :=
      getElem?_eq_getElem inside
    apply get_bind
    apply expect_rule h.execution
    apply expect_rule rfl
    dsimp only
    rw [h.sameRequest]
    apply expect_rule hq
    refine call_rule _ h.faithful ?_
    apply set_bind
    have behind := h.fork hwhole hq (by omega)
    have openBehind : ∀ b ∈ branches ++ [forked request parent s.group.nextBranch
        request.branches[s.group.nextBranch]], Open request b := by
      intro b hb
      rcases mem_append.mp hb with hold | hnew
      · exact hopen b hold
      · obtain rfl := mem_singleton.mp hnew
        exact open_forked hq (hsuffix _ (getElem_mem inside))
    refine (ih behind openBehind (by simp; omega) (by dsimp only; omega)).imp ?_
    rintro _ t ⟨branches', feeding, opened, hbudget, hfed, hlength⟩
    refine ⟨branches', feeding, opened, hbudget, hfed, ?_⟩
    rw [hlength, length_append, length_singleton]
    omega

theorem forkWave_ensures (hwhole : parent.chunks.flatten = request.prefixTokens)
    (hsuffix : ∀ q ∈ request.branches, q.suffixTokens ≠ []) (hbudget : 0 < s.budget)
    (hcapacity : 0 < config.decisionBranchCapacity) :
    Ensures (forkWave config calls) s
      (fun _ t => ∃ branches', Feeding model config request parent branches' t ∧
        (∀ b ∈ branches', Open request b) ∧ branches' ≠ [] ∧ t.budget = s.budget ∧ t.fed = s.fed)
      (Refused model request calls) := by
  apply get_bind
  apply expect_rule h.execution
  by_cases hnone : branches = []
  · have more := h.more hnone
    rw [if_pos hnone, h.sameRequest, if_neg (by omega)]
    refine Ensures.bind (forkBranches_ensures h.toFeeding hwhole hsuffix h.unread ?_ ?_) ?_
    · rw [hnone, length_nil]
      omega
    · omega
    · rintro _ t ⟨branches', feeding, opened, ht, hfed, hlength⟩
      have nonempty : branches' ≠ [] := by
        rintro rfl
        rw [hnone] at hlength
        omega
      cases hsync : calls .forkSynchronize with
      | ok _ => exact ⟨branches', feeding, opened, nonempty, ht, hfed⟩
      | error e => exact ⟨feeding.faithful, .inl ⟨_, hsync⟩⟩
  · rw [if_neg hnone]
    exact ⟨branches, h.toFeeding, h.unread, hnone, rfl, rfl⟩

end

/-! ## The forward pass -/

theorem forall_right_of_forall₂ {γ δ : Type} {R : γ → δ → Prop} {xs : List γ} {ys : List δ}
    (h : List.Forall₂ R xs ys) : ∀ y ∈ ys, ∃ x ∈ xs, R x y := by
  induction h with
  | nil => nofun
  | cons hfirst hrest ih =>
    intro y hy
    rcases mem_cons.mp hy with rfl | hmem
    · exact ⟨_, mem_cons_self, hfirst⟩
    · obtain ⟨x, hx, hR⟩ := ih y hmem
      exact ⟨x, mem_cons_of_mem _ hx, hR⟩

/-- A chunk that a branch may be fed next. -/
def Feeds (request : DecisionRequest) (b : Branch) (chunk : List Nat) : Prop :=
  ∃ q, request.branches[b.index]? = some q ∧ Chunk chunk (q.suffixTokens.drop b.position)

theorem take_append_chunk {tokens : List Nat} {n : Nat} (h : chunk <+: tokens.drop n) :
    tokens.take n ++ chunk = tokens.take (n + chunk.length) := by
  rw [take_add, ← prefix_iff_eq_take.mp h]

theorem Live.feed {next : Nat} {fed : List (Target × List Nat)} (h : Live request next fed b)
    (hfeeds : Feeds request b chunk) :
    Live request next (fed ++ [(.branch b.index, chunk)]) (b.feed chunk) := by
  obtain ⟨hindex, q, hq, hposition, hfed, hflatten, hcapacity⟩ := h
  obtain ⟨q', hq', hchunk, -⟩ := hfeeds
  obtain rfl : q = q' := Option.some.inj (hq.symm.trans hq')
  have hlength := hchunk.length_le
  rw [length_drop] at hlength
  refine ⟨hindex, q, hq, ?_, ?_, ?_, hcapacity⟩
  · rw [Branch.feed]
    dsimp only
    omega
  · rw [Branch.feed]
    rw [fedTo_append, hfed, fedTo_cons_self, fedTo_nil, append_nil, take_append_chunk hchunk]
  · rw [Branch.feed, Nemotron3Sequence.feed]
    rw [flatten_append, flatten_singleton, hflatten, append_assoc, take_append_chunk hchunk]

theorem Live.other {next : Nat} {fed : List (Target × List Nat)} {index : Nat}
    (h : Live request next fed b) (hne : b.index ≠ index) :
    Live request next (fed ++ [(.branch index, chunk)]) b := by
  obtain ⟨hindex, q, hq, hposition, hfed, rest⟩ := h
  refine ⟨hindex, q, hq, hposition, ?_, rest⟩
  rw [fedTo_append, fedTo_cons_of_ne (by simpa using hne.symm), fedTo_nil, append_nil]
  exact hfed

theorem Feeding.feed (h : Feeding model config request parent (before ++ b :: after) s)
    (hfeeds : Feeds request b chunk) (budget : Nat) :
    Feeding model config request parent (before ++ b.feed chunk :: after)
      { group := { s.group with
          execution := some ⟨some parent, before ++ b.feed chunk :: after⟩ }
        budget := budget
        fed := s.fed ++ [(.branch b.index, chunk)] } := by
  have hb := h.live b (by simp)
  have hindices : (before ++ b.feed chunk :: after).map Branch.index =
      (before ++ b :: after).map Branch.index := by simp [Branch.feed]
  have apart : ∀ other ∈ before ++ after, other.index ≠ b.index := by
    have nodup := h.distinct
    rw [map_append, map_cons] at nodup
    have fresh := (nodup_middle.mp nodup)
    rw [nodup_cons, ← map_append] at fresh
    intro other hother heq
    exact fresh.1 (heq ▸ mem_map_of_mem hother)
  constructor
  case sameRequest => exact h.sameRequest
  case execution => rfl
  case parentFed =>
    rw [fedTo_append, fedTo_cons_of_ne (by simp), fedTo_nil, append_nil]
    exact h.parentFed
  case parentPrefix => exact h.parentPrefix
  case parentRoom => exact h.parentRoom
  case whole => exact h.whole
  case next => exact h.next
  case live =>
    intro other hother
    rw [mem_append, mem_cons] at hother
    rcases hother with hbefore | rfl | hafter
    · exact (h.live other (by simp [hbefore])).other (apart other (by simp [hbefore]))
    · exact hb.feed hfeeds
    · exact (h.live other (by simp [hafter])).other (apart other (by simp [hafter]))
  case distinct =>
    rw [hindices]
    exact h.distinct
  case count =>
    have count := h.count
    simpa using count
  case rows => exact h.rows
  case read =>
    intro i q hq hi hlive
    rw [hindices] at hlive
    obtain ⟨hfed, rest⟩ := h.read i q hq hi hlive
    refine ⟨?_, rest⟩
    have hne : b.index ≠ i := fun heq => hlive (heq ▸ mem_map_of_mem (by simp))
    rw [fedTo_append, fedTo_cons_of_ne (by simpa using hne), fedTo_nil, append_nil]
    exact hfed
  case unforked =>
    intro i hi
    have hne : b.index ≠ i := by
      have index := hb.1
      dsimp only at hi
      omega
    rw [fedTo_append, fedTo_cons_of_ne (by simpa using hne), fedTo_nil, append_nil]
    exact h.unforked i hi
  case targets =>
    intro entry hentry
    rcases mem_append.mp hentry with hold | hnew
    · exact h.targets entry hold
    · obtain rfl := mem_singleton.mp hnew
      exact .inr ⟨b.index, hb.1, rfl⟩
  case behind =>
    -- a live branch was forked behind the whole prefix
    exact h.behind.concat fun _ => h.parentFed.trans (h.whole (Nat.ne_of_gt (Nat.zero_lt_of_lt hb.1)))

/-- What the forward pass adds to the log. -/
def fedEntries (fed : List Branch) (chunks : List (List Nat)) : List (Target × List Nat) :=
  fed.zipWith (fun b chunk => (.branch b.index, chunk)) chunks

theorem Feeding.feedAll {fed : List Branch}
    (h : Feeding model config request parent (before ++ fed ++ after) s)
    (hfeeds : List.Forall₂ (Feeds request) fed chunks) (budget : Nat) :
    Feeding model config request parent (before ++ fed.zipWith Branch.feed chunks ++ after)
      { group := { s.group with
          execution := some ⟨some parent, before ++ fed.zipWith Branch.feed chunks ++ after⟩ }
        budget := budget
        fed := s.fed ++ fedEntries fed chunks } := by
  induction hfeeds generalizing before s with
  | nil =>
    constructor
    case execution => rfl
    case parentFed => simpa [fedEntries] using h.parentFed
    case live => simpa [fedEntries] using h.live
    case read => simpa [fedEntries] using h.read
    case unforked => simpa [fedEntries] using h.unforked
    case targets => simpa [fedEntries] using h.targets
    case behind => simpa [fedEntries] using h.behind
    case count => simpa using h.count
    case distinct => simpa using h.distinct
    all_goals first
      | exact h.sameRequest
      | exact h.parentPrefix
      | exact h.parentRoom
      | exact h.whole
      | exact h.next
      | exact h.rows
  | cons hfirst hrest ih =>
    rename_i b chunk fed chunks
    rw [append_assoc, cons_append] at h
    have first := h.feed hfirst budget
    have regroup : before ++ b.feed chunk :: (fed ++ after) =
        before ++ [b.feed chunk] ++ fed ++ after := by simp
    rw [regroup] at first
    have rest := ih first
    simp only [zipWith_cons_cons, append_assoc, fedEntries] at rest ⊢
    exact rest

theorem total_fedEntries {fed : List Branch} (h : List.Forall₂ (Feeds request) fed chunks) :
    total (fedEntries fed chunks) = (chunks.map List.length).sum := by
  induction h with
  | nil => rfl
  | cons hfirst hrest ih =>
    rw [fedEntries, zipWith_cons_cons, total_cons, map_cons, sum_cons, ← ih]
    rfl

theorem suffixLeft_mapM {next : Nat} {fed : List (Target × List Nat)}
    (hlive : ∀ b ∈ branches, Live request next fed b) (hopen : ∀ b ∈ branches, Open request b) :
    ∃ suffixes, branches.mapM (suffixLeft request) = some suffixes ∧
      List.Forall₂ (fun b suffix => ∃ q, request.branches[b.index]? = some q ∧
        suffix = q.suffixTokens.drop b.position ∧ suffix ≠ []) branches suffixes := by
  induction branches with
  | nil => exact ⟨[], rfl, .nil⟩
  | cons b rest ih =>
    obtain ⟨suffixes, hrest, hall⟩ := ih (fun b hb => hlive b (mem_cons_of_mem _ hb))
      fun b hb => hopen b (mem_cons_of_mem _ hb)
    obtain ⟨-, q, hq, hposition, -⟩ := hlive b mem_cons_self
    have more := hopen b mem_cons_self q hq
    have first : suffixLeft request b = some (q.suffixTokens.drop b.position) := by
      rw [suffixLeft, hq, Option.bind_eq_bind, Option.bind_some, if_pos hposition]
    refine ⟨q.suffixTokens.drop b.position :: suffixes, ?_, .cons ⟨q, hq, rfl, ?_⟩ hall⟩
    · rw [mapM_cons, first, hrest]
      rfl
    · exact fun hnil => by
        rw [drop_eq_nil_iff] at hnil
        omega

theorem feeds_of_chunks {bs : List Branch}
    (hsuffixes : List.Forall₂ (fun b suffix => ∃ q, request.branches[b.index]? = some q ∧
      suffix = q.suffixTokens.drop b.position ∧ suffix ≠ []) bs suffixes)
    (hchunks : List.Forall₂ Chunk chunks (suffixes.take chunks.length)) :
    List.Forall₂ (Feeds request) (bs.take chunks.length) chunks := by
  induction chunks generalizing bs suffixes with
  | nil => exact .nil
  | cons chunk rest ih =>
    cases hsuffixes with
    | nil => cases hchunks
    | cons hfirst hrest =>
      cases hchunks with
      | cons hchunk hchunks =>
        obtain ⟨q, hq, rfl, -⟩ := hfirst
        exact .cons ⟨q, hq, hchunk⟩ (ih hrest hchunks)

theorem chunks_nonempty {fed : List Branch} (h : List.Forall₂ (Feeds request) fed chunks) :
    ∀ chunk ∈ chunks, chunk ≠ [] := by
  intro chunk hchunk
  obtain ⟨b, -, q, -, -, hnonempty⟩ := forall_right_of_forall₂ h chunk hchunk
  exact hnonempty

theorem checkBlock_ok {next : Nat} {log : List (Target × List Nat)} {fed : List Branch}
    (hlive : ∀ b ∈ fed, Live request next log b)
    (hfeeds : List.Forall₂ (Feeds request) fed chunks) (hne : chunks ≠ []) :
    checkBlock (fed.map Branch.sequence) chunks = .ok () := by
  have hlength := hfeeds.length_eq
  have hsome : fed ≠ [] := by
    rintro rfl
    exact hne (length_eq_zero_iff.mp hlength.symm)
  have hfull : chunks.any isEmpty = false := by
    rw [any_eq_false]
    intro chunk hchunk
    simpa using chunks_nonempty hfeeds chunk hchunk
  have hroom : ((fed.map Branch.sequence).zip chunks).any (fun p =>
      decide (p.1.capacity < p.1.position + p.2.length)) = false := by
    rw [any_eq_false]
    intro pair hpair
    rw [zip_map_left, mem_map] at hpair
    obtain ⟨⟨b, chunk⟩, hmem, rfl⟩ := hpair
    obtain ⟨q', hq', hchunk, -⟩ := (forall₂_iff_zip.mp hfeeds).2 hmem
    obtain ⟨-, q, hq, hposition, -, hflatten, hcapacity⟩ := hlive b (of_mem_zip hmem).1
    obtain rfl : q = q' := Option.some.inj (hq.symm.trans hq')
    have length := hchunk.length_le
    rw [List.length_drop] at length
    have position := congrArg List.length hflatten
    rw [List.length_append, List.length_take] at position
    simp only [Prod.map_apply, id_eq, decide_eq_true_eq, Nat.not_lt, hcapacity,
      Nemotron3Sequence.position, position]
    omega
  rw [checkBlock, if_neg (by simpa [hlength] using hsome), if_neg (by simp [hfull]),
    if_neg (by simpa using hroom)]

theorem feedBranches_ensures (h : Feeding model config request parent branches s)
    (hopen : ∀ b ∈ branches, Open request b) (hsome : branches ≠ []) (hbudget : 0 < s.budget) :
    Ensures (feedBranches calls) s
      (fun _ t => ∃ branches', Feeding model config request parent branches' t ∧
        t.budget + total t.fed = s.budget + total s.fed ∧ total s.fed < total t.fed)
      (Refused model request calls) := by
  obtain ⟨suffixes, hmap, hsuffixes⟩ := suffixLeft_mapM h.live hopen
  have hlength := hsuffixes.length_eq
  have hsuffixesNe : suffixes ≠ [] := by
    rintro rfl
    exact hsome (length_eq_zero_iff.mp hlength)
  have hnonempty : ∀ suffix ∈ suffixes, suffix ≠ [] := by
    intro suffix hsuffix
    obtain ⟨b, hb, q, -, -, hne⟩ := forall_right_of_forall₂ hsuffixes suffix hsuffix
    exact hne
  obtain ⟨chunks, left, hplan, hchunks, hcut, hsum⟩ := planChunks_ok hsuffixesNe hbudget hnonempty
  have hfeeds := feeds_of_chunks hsuffixes hcut
  have hsplit : [] ++ branches.take chunks.length ++ branches.drop chunks.length = branches :=
    take_append_drop _ _
  have feeding := h
  rw [← hsplit] at feeding
  have behind := feeding.feedAll hfeeds left
  have hpositive : 0 < (chunks.map length).sum := by
    obtain ⟨first, rest, rfl⟩ := exists_cons_of_ne_nil hchunks
    have nonempty := chunks_nonempty hfeeds first mem_cons_self
    have := length_pos_iff.mpr nonempty
    rw [map_cons, sum_cons]
    omega
  have hcheck := checkBlock_ok (fun b hb => h.live b (mem_of_mem_take hb)) hfeeds hchunks
  have htotal := total_fedEntries hfeeds
  apply get_bind
  apply expect_rule h.execution
  rw [h.sameRequest]
  apply expect_rule hmap
  apply expect_rule hplan
  apply set_bind
  refine call_rule _ h.faithful ?_
  apply attempt_rule hcheck
  refine call_rule _ h.faithful ?_
  apply modify_bind
  apply modify_bind
  have spent : left + total (s.fed ++ fedEntries (branches.take chunks.length) chunks) =
      s.budget + total s.fed := by
    rw [total_append, htotal]
    omega
  have progress : total s.fed < total (s.fed ++ fedEntries (branches.take chunks.length) chunks) := by
    omega
  cases hsync : calls .synchronize with
  | ok _ => exact ⟨_, behind, spent, progress⟩
  | error e => exact ⟨behind.faithful, .inl ⟨_, hsync⟩⟩

/-! ## The loop over the slots -/

theorem Feeding.settle (h : Feeding model config request parent (before ++ b :: after) s)
    (hq : request.branches[b.index]? = some q) (hdone : q.suffixTokens.length ≤ b.position) :
    Feeding model config request parent (before ++ after)
      { s with group := { s.group with
          execution := some ⟨some parent, before ++ after⟩
          logits := s.group.logits.set b.index (some ⟨q.questionId,
            (model.logits b.sequence.chunks).take q.labelTokenIds.length⟩) } } := by
  obtain ⟨hindex, q', hq', hposition, hfed, hflatten, -⟩ := h.live b (by simp)
  obtain rfl : q = q' := Option.some.inj (hq.symm.trans hq')
  have hall : q.suffixTokens.take b.position = q.suffixTokens := take_of_length_le hdone
  rw [hall] at hfed hflatten
  have keep : ∀ other ∈ before ++ after, other ∈ before ++ b :: after := by
    intro other hother
    rw [mem_append, mem_cons]
    rcases mem_append.mp hother with hbefore | hafter
    · exact .inl hbefore
    · exact .inr (.inr hafter)
  constructor
  case sameRequest => exact h.sameRequest
  case execution => rfl
  case parentFed => exact h.parentFed
  case parentPrefix => exact h.parentPrefix
  case parentRoom => exact h.parentRoom
  case whole => exact h.whole
  case next => exact h.next
  case live => exact fun other hother => h.live other (keep other hother)
  case distinct =>
    have nodup := h.distinct
    rw [map_append, map_cons] at nodup
    rw [map_append]
    exact (nodup_cons.mp (nodup_middle.mp nodup)).2
  case count =>
    have count := h.count
    simp only [length_append, length_cons] at count ⊢
    omega
  case rows =>
    rw [length_set]
    exact h.rows
  case read =>
    intro i q'' hq'' hi hlive
    by_cases heq : b.index = i
    · subst heq
      obtain rfl : q = q'' := Option.some.inj (hq.symm.trans hq'')
      refine ⟨hfed, b.sequence.chunks, hflatten, ?_⟩
      have inside : b.index < s.group.logits.length := by
        rw [h.rows]
        exact (List.getElem?_eq_some_iff.mp hq).1
      exact List.getElem?_set_self inside
    · have hother : i ∉ (before ++ b :: after).map Branch.index := by
        rw [List.map_append, List.map_cons, List.mem_append, List.mem_cons]
        rw [map_append, mem_append, not_or] at hlive
        rintro (hbefore | hsame | hafter)
        · exact hlive.1 hbefore
        · exact heq hsame.symm
        · exact hlive.2 hafter
      obtain ⟨hfed', chunks, hchunks, hrow⟩ := h.read i q'' hq'' hi hother
      refine ⟨hfed', chunks, hchunks, ?_⟩
      rw [getElem?_set_ne heq]
      exact hrow
  case unforked => exact h.unforked
  case targets => exact h.targets
  case behind => exact h.behind

theorem settleBranches_ensures (kept : List Branch) {rest : List Branch}
    (h : Feeding model config request parent (kept ++ rest) s) (hopen : ∀ b ∈ kept, Open request b)
    (hvalid : ValidRequest model.question model.labels vocab context request) :
    Ensures (settleBranches model calls kept rest) s
      (fun _ t => ∃ branches', Feeding model config request parent branches' t ∧
        (∀ b ∈ branches', Open request b) ∧ t.budget = s.budget ∧ t.fed = s.fed)
      (Refused model request calls) := by
  induction rest generalizing kept s with
  | nil =>
    rw [append_nil] at h
    exact ⟨kept, h, hopen, rfl, rfl⟩
  | cons b rest ih =>
    obtain ⟨hindex, q, hq, hposition, hfed, hflatten, -⟩ := h.live b (by simp)
    apply get_bind
    rw [h.sameRequest]
    apply expect_rule hq
    by_cases hmore : b.position < q.suffixTokens.length
    · rw [if_pos hmore]
      have regroup : kept ++ b :: rest = kept ++ [b] ++ rest := by simp
      rw [regroup] at h
      refine ih (kept ++ [b]) h fun other hother => ?_
      rcases mem_append.mp hother with hkept | hb
      · exact hopen other hkept
      · obtain rfl := mem_singleton.mp hb
        intro q' hq'
        rw [hq] at hq'
        cases hq'
        exact hmore
    · rw [if_neg hmore]
      have settled := h.settle hq (Nat.not_lt.mp hmore)
      have read : b.sequence.position ≠ 0 := by
        have length := congrArg length hflatten
        rw [length_append] at length
        have := length_pos_iff.mpr hvalid.prefixTokens
        rw [Nemotron3Sequence.position]
        omega
      cases hcall : calls (.readout b.index) with
      | error e =>
        have refused : selectedLogits model calls b = .error e := by
          rw [selectedLogits, if_neg read, hcall]
        rw [refused]
        exact ⟨h.faithful, .inl ⟨_, hcall⟩⟩
      | ok _ =>
        have row : selectedLogits model calls b = .ok (model.logits b.sequence.chunks) := by
          rw [selectedLogits, if_neg read, hcall]
        apply attempt_rule row
        have labels : q.labelTokenIds.length ≤ (model.logits b.sequence.chunks).length := by
          rw [DecisionModel.logits, length_ofFn]
          exact (hvalid.branch q (mem_of_getElem? hq)).enough
        have inside : b.index < s.group.logits.length := by
          rw [h.rows]
          exact (List.getElem?_eq_some_iff.mp hq).1
        rw [if_neg (Nat.not_lt.mpr labels), setLogits, bind_assoc]
        apply get_bind
        rw [if_neg (Nat.not_le.mpr inside)]
        apply set_bind
        rw [setBranches, bind_assoc]
        apply get_bind
        rw [bind_assoc]
        apply expect_rule h.execution
        apply modify_bind
        refine call_rule _ settled.faithful ?_
        exact ih kept settled hopen

/-! ## A turn -/

theorem mapM_rows {γ δ : Type} {R : γ → δ → Prop} {xs : List γ} {rows : List (Option δ)}
    (hlength : rows.length = xs.length)
    (h : ∀ (i : Nat) (x : γ), xs[i]? = some x → ∃ row, rows[i]? = some (some row) ∧ R x row) :
    ∃ read, (rows.mapM fun row => row) = some read ∧ List.Forall₂ R xs read := by
  induction xs generalizing rows with
  | nil =>
    obtain rfl := length_eq_zero_iff.mp hlength
    exact ⟨[], rfl, .nil⟩
  | cons x xs ih =>
    cases rows with
    | nil => cases hlength
    | cons first rest =>
      obtain ⟨row, hrow, hR⟩ := h 0 x rfl
      obtain rfl : first = some row := Option.some.inj hrow
      obtain ⟨read, hread, hall⟩ := ih (Nat.succ.inj hlength) fun i y hy => h (i + 1) y hy
      refine ⟨row :: read, ?_, .cons hR hall⟩
      rw [mapM_cons, hread]
      rfl

theorem completeDecision_ensures (h : Feeding model config request parent [] s)
    (hall : s.group.nextBranch = request.branches.length) (hsome : request.branches ≠ []) :
    Ensures (completeDecision model) s
      (fun completion t => Completed model request s.fed completion ∧ t.budget = s.budget ∧
        t.fed = s.fed) (Refused model request calls) := by
  have read : ∀ i q, request.branches[i]? = some q → Read model request s.group.logits s.fed i q :=
    fun i q hq => h.read i q hq (hall ▸ (List.getElem?_eq_some_iff.mp hq).1) (by simp)
  obtain ⟨rows, hrows, hforall⟩ := mapM_rows (R := fun q row => ∃ chunks : List (List Nat),
    chunks.flatten = request.prefixTokens ++ q.suffixTokens ∧
      row = (⟨q.questionId, (model.logits chunks).take q.labelTokenIds.length⟩ :
        DecisionBranchLogits φ)) h.rows fun i q hq => by
    obtain ⟨-, chunks, hchunks, hrow⟩ := read i q hq
    exact ⟨_, hrow, chunks, hchunks, rfl⟩
  have whole : parent.chunks.flatten = request.prefixTokens := by
    apply h.whole
    rw [hall]
    exact fun hzero => hsome (length_eq_zero_iff.mp hzero)
  apply get_bind
  apply expect_rule hrows
  apply modify_bind
  rw [h.sameRequest]
  cases hanswers : answersFromLogits model.float model.question request rows model.one with
  | error e => exact ⟨h.faithful, .inr ⟨rows, e, hforall, hanswers, rfl⟩⟩
  | ok answers =>
    exact ⟨⟨h.parentFed.trans whole, fun i q hq => (read i q hq).1, h.faithful, hforall, hanswers⟩,
      rfl, rfl⟩

/-- What a turn leaves. -/
def Turned (model : DecisionModel φ) (config : SchedulerConfig) (request : DecisionRequest)
    (s : TurnState φ) (result : Option (DecisionCompletion φ)) (t : TurnState φ) : Prop :=
  t.budget + total t.fed = s.budget + total s.fed ∧ total s.fed < total t.fed ∧
    match result with
    | none => ∃ parent branches, Waiting model config request parent branches t
    | some completion => Completed model request t.fed completion

theorem advanceDecision_ensures (h : Waiting model config request parent branches s)
    (hvalid : ValidRequest model.question model.labels vocab context request)
    (hbudget : 0 < s.budget) (hcapacity : 0 < config.decisionBranchCapacity) :
    Ensures (advanceDecision model config calls) s (Turned model config request s)
      (Refused model request calls) := by
  refine (advancePrefix_ensures h hbudget).bind ?_
  rintro (_ | _) t ⟨parent, waiting, hspent, hgrown, hgo, hstop⟩
  · exact ⟨hspent, hstop rfl, parent, branches, waiting⟩
  · obtain ⟨hwhole, hleft⟩ := hgo rfl
    have suffixes : ∀ q ∈ request.branches, q.suffixTokens ≠ [] :=
      fun q hq => (hvalid.branch q hq).suffix
    refine (forkWave_ensures waiting hwhole suffixes hleft hcapacity).bind ?_
    rintro _ u ⟨wave, feeding, opened, nonempty, hbudget', hfed⟩
    refine (feedBranches_ensures feeding opened nonempty (by omega)).bind ?_
    rintro _ v ⟨fed, feeding, hspent', hprogress⟩
    rw [hfed] at hspent' hprogress
    apply get_bind
    apply expect_rule feeding.execution
    refine (settleBranches_ensures [] feeding nofun hvalid).bind ?_
    rintro _ w ⟨left, feeding, opened, hbudget'', hfed'⟩
    apply get_bind
    apply expect_rule feeding.execution
    have spent : w.budget + total w.fed = s.budget + total s.fed := by
      rw [hfed']
      omega
    have progress : total s.fed < total w.fed := by
      omega
    rw [feeding.sameRequest]
    by_cases hmore : w.group.nextBranch = request.branches.length ∧ left = []
    · obtain ⟨hall, rfl⟩ := hmore
      rw [if_neg (by simp [hall])]
      refine (completeDecision_ensures feeding hall hvalid.branches).bind ?_
      rintro completion x ⟨completed, hbudget₃, hfed₃⟩
      refine ⟨?_, ?_, ?_⟩
      · rw [hbudget₃, hfed₃]
        exact spent
      · rw [hfed₃]
        exact progress
      · rw [hfed₃]
        exact completed
    · have continues : (decide (w.group.nextBranch ≠ request.branches.length) || !left.isEmpty) = true := by
        rw [not_and_or] at hmore
        rcases hmore with hnext | hleft
        · simp [hnext]
        · simp [hleft]
      rw [if_pos continues]
      refine ⟨spent, progress, parent, left, feeding, opened, fun hnone => ?_⟩
      have next := feeding.next
      have : w.group.nextBranch ≠ request.branches.length := fun hall => hmore ⟨hall, hnone⟩
      omega

end

/-! ## What is left to feed -/

section
variable {φ : Type} {model : DecisionModel φ} {config : SchedulerConfig} {request : DecisionRequest}
  {parent : Nemotron3Sequence} {branches : List Branch} {s : TurnState φ} {vocab context : Nat}
  {fed : List (Target × List Nat)}

theorem Faithful.total_eq (h : Faithful request fed) :
    total fed = (fedTo .parent fed).length +
      ∑ i : Fin request.branches.length, (fedTo (.branch i) fed).length := by
  have inside : ∀ entry ∈ fed, entry.1 ∈ insert Target.parent
      ((Finset.range request.branches.length).image Target.branch) := by
    intro entry hentry
    rw [Finset.mem_insert, Finset.mem_image]
    rcases h.targets entry hentry with hparent | ⟨i, hi, hbranch⟩
    · exact .inl hparent
    · exact .inr ⟨i, Finset.mem_range.mpr hi, hbranch.symm⟩
  rw [total_eq_sum inside, Finset.sum_insert (by simp), Finset.sum_image (by simp),
    Finset.sum_range]

theorem logicalInputTokens_eq (request : DecisionRequest) :
    logicalInputTokens request = request.prefixTokens.length +
      ∑ i : Fin request.branches.length, (request.branches[i.1]).suffixTokens.length := by
  rw [logicalInputTokens, suffixLengths,
    Fin.sum_univ_fun_getElem request.branches fun branch => branch.suffixTokens.length]

theorem Faithful.branch_le (h : Faithful request fed) (i : Fin request.branches.length) :
    (fedTo (.branch i) fed).length ≤ (request.branches[i.1]).suffixTokens.length :=
  (h.branchFed i _ (getElem?_eq_getElem i.2)).length_le

theorem Faithful.total_le (h : Faithful request fed) : total fed ≤ logicalInputTokens request := by
  rw [h.total_eq, logicalInputTokens_eq]
  exact Nat.add_le_add h.parentFed.length_le (Finset.sum_le_sum fun i _ => h.branch_le i)

theorem Waiting.total_lt (h : Waiting model config request parent branches s)
    (hvalid : ValidRequest model.question model.labels vocab context request) :
    total s.fed < logicalInputTokens request := by
  have faithful := h.toFeeding.faithful
  have short : ∃ i q, request.branches[i]? = some q ∧
      (fedTo (.branch i) s.fed).length < q.suffixTokens.length := by
    cases branches with
    | nil =>
      have more := h.more rfl
      refine ⟨_, _, getElem?_eq_getElem more, ?_⟩
      rw [h.unforked _ (Nat.le_refl _)]
      exact length_pos_iff.mpr (hvalid.branch _ (getElem_mem more)).suffix
    | cons b rest =>
      obtain ⟨-, q, hq, -, hfed, -⟩ := h.live b mem_cons_self
      have hopen := h.unread b mem_cons_self q hq
      refine ⟨b.index, q, hq, ?_⟩
      rw [hfed, length_take]
      omega
  obtain ⟨i, q, hq, hshort⟩ := short
  obtain ⟨hi, rfl⟩ := List.getElem?_eq_some_iff.mp hq
  rw [faithful.total_eq, logicalInputTokens_eq]
  exact Nat.add_lt_add_of_le_of_lt faithful.parentFed.length_le
    (Finset.sum_lt_sum (fun j _ => faithful.branch_le j) ⟨⟨i, hi⟩, Finset.mem_univ _, hshort⟩)

theorem waiting_admitted (request : DecisionRequest) (budget : Nat)
    (hvalid : ValidRequest model.question model.labels vocab context request) :
    Waiting model config request ⟨longestBranchTokens request, []⟩ []
      ⟨admitDecision (queuedGroup request), budget, []⟩ := by
  constructor
  · constructor
    case sameRequest => rfl
    case execution => rfl
    case parentFed => rfl
    case parentPrefix => exact nil_prefix
    case parentRoom => exact Nat.le_add_right _ _
    case whole => exact fun h => absurd rfl h
    case next => exact Nat.zero_le _
    case live => nofun
    case distinct => exact nodup_nil
    case count => exact Nat.zero_le _
    case rows => exact length_map _
    case read => nofun
    case unforked => exact fun _ _ => rfl
    case targets => nofun
    case behind => exact Behind.nil _ _
  · nofun
  · exact fun _ => length_pos_iff.mpr hvalid.branches

theorem Waiting.withBudget (h : Waiting model config request parent branches s) (budget : Nat) :
    Waiting model config request parent branches { s with budget := budget } :=
  ⟨{ h with }, h.unread, h.more⟩

end
end Eider.Guarantees.NemotronDecision
