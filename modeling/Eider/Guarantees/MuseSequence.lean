import Eider.Lib.Ensures
import Eider.Source.MuseGlimmer.Sequence

/-!
What the calls on one Muse Glimmer sequence do. A settled sequence has no open append, and
its page cache, its position and all caches of the drafter stand behind the same rows. An
append either leaves the sequence settled behind its new rows or fails at one of its calls;
if that call comes before the first rows of the drafter, the sequence is as settled as before.
-/
namespace Eider.Guarantees.MuseSequence
open Lib Lib.ByteReader Source.MuseGlimmer List Ensures
open Source (CudaError CacheEntry rejectIf rejectIf_eq_ok_iff)
open Source.Qwen36 (attempt)

variable {τ : Type}
variable {σ : Type} {length : Nat} {P : Unit → Sequence τ → Prop}
variable {E : Fault CudaError → Sequence τ → Prop} {append : Nat}

/-- Everything stands behind `rows`. -/
structure Settled (capacity layers : Nat) (rows : List τ) (s : Sequence τ) : Prop where
  capacity : s.maxTokens = capacity
  cache : s.cache = ⟨rows, none⟩
  position : s.position = rows.length
  drafter : s.drafter = List.replicate layers rows.length

/-- The calls of an append. -/
def appendSites (append : Nat) (site : Site) : Prop :=
  site = .reserve append ∨ site = .target append ∨ (∃ layer, site = .inject append layer) ∨
    site = .commit append

/-- The calls of an append before the drafter's caches grow. -/
def earlySites (append : Nat) (site : Site) : Prop :=
  site = .reserve append ∨ site = .target append ∨ site = .inject append 0

/-- A call has failed at one of `sites`. What it leaves is known if the site is `early`. -/
def Failed {σ : Type} (fault : Option Site) (sites early : Site → Prop) (keeps : σ → Prop)
    (e : Fault CudaError) (t : σ) : Prop :=
  ∃ site call, fault = some site ∧ sites site ∧ e = .failed (.device call) ∧ (early site → keeps t)

/-- An error that the caller gets, not a panic. -/
def Reported (e : Fault CudaError) : Prop := ∃ error, e = .failed error

section
variable {fault : Option Site} {capacity layers : Nat} {rows : List τ} {s : Sequence τ}

theorem reach_ensures {site : Site} {call : String} {s : σ} {P : Unit → σ → Prop}
    {E : Fault CudaError → σ → Prop} (hreturn : P () s)
    (hfail : fault = some site → E (.failed (.device call)) s) :
    Ensures (reach fault site call : EStateM (Fault CudaError) σ Unit) s P E := by
  unfold Source.MuseGlimmer.reach
  split
  · rename_i hfault
    exact hfail hfault
  · exact hreturn

theorem attempt_rejectIf {condition : Prop} [Decidable condition] {error : CudaError} {s : σ}
    {P : Unit → σ → Prop} {E : Fault CudaError → σ → Prop} (hcondition : ¬ condition)
    (hreturn : P () s) :
    Ensures (attempt (rejectIf condition error) : EStateM (Fault CudaError) σ Unit) s P E := by
  rw [rejectIf_eq_ok_iff.mpr hcondition]
  exact hreturn

/-! ## The drafter's caches -/

/-- A loop over equal caches ends at the first layer whose check fails. -/
theorem appendLayers_replicate (check : Nat → Nat → Except CudaError Unit)
    (length rows layer count : Nat) :
    appendLayers check rows layer (List.replicate count length) =
        (List.replicate count (length + rows), .ok ()) ∨
      ∃ failed e lengths, layer ≤ failed ∧ check failed length = .error e ∧
        appendLayers check rows layer (List.replicate count length) = (lengths, .error e) ∧
        (failed = layer → lengths = List.replicate count length) := by
  induction count generalizing layer with
  | zero => exact .inl rfl
  | succ count ih =>
    rw [replicate_succ, appendLayers]
    cases hcheck : check layer length with
    | error e => exact .inr ⟨layer, e, _, Nat.le_refl _, hcheck, rfl, fun _ => rfl⟩
    | ok _ =>
      obtain hall | ⟨failed, e, lengths, hle, hfailed, hrest, -⟩ := ih (layer + 1)
      · exact .inl (by simp only [hall, replicate_succ])
      · refine .inr ⟨failed, e, (length + rows) :: lengths, by omega, hfailed, ?_, by omega⟩
        simp only [hrest]

theorem checkLayer {site : Site} {call : String} {rows maxTokens : Nat} {e : CudaError}
    (hrows : 0 < rows) (hroom : length + rows ≤ maxTokens) (h : (do
      rejectIf (fault = some site) (.device call)
      checkAppend rows maxTokens length) = Except.error e) :
    fault = some site ∧ e = .device call := by
  by_cases hfault : fault = some site
  · rw [rejectIf, if_pos hfault] at h
    cases h
    exact ⟨hfault, rfl⟩
  · rw [rejectIf, if_neg hfault] at h
    rw [checkAppend, rejectIf_eq_ok_iff.mpr (by omega)] at h
    cases h

/-- A loop over the drafter's caches, for what it returns. -/
theorem onDrafter_ensures {loop : Sequence τ → List Nat × Except CudaError Unit}
    {lengths : List Nat} {result : Except CudaError Unit} (hloop : loop s = (lengths, result))
    (hreturn : result = .ok () → P () { s with drafter := lengths })
    (hfail : ∀ e, result = .error e → E (.failed e) { s with drafter := lengths }) :
    Ensures (onDrafter loop) s P E := by
  refine get_bind (modify_bind ?_)
  rw [hloop]
  cases result with
  | ok _ => exact hreturn rfl
  | error e => exact hfail e rfl

theorem injectFeatures_ensures {count start : Nat} (hcount : 0 < count ∧ count ≤ blockSize)
    (hroom : start + count ≤ s.maxTokens) (hdrafter : s.drafter = List.replicate layers start)
    (hreturn : P () { s with drafter := replicate layers (start + count) })
    (hfail : ∀ layer lengths, fault = some (.inject append layer) →
      (layer = 0 → lengths = s.drafter) →
      E (.failed (.device "DFlash feature injection")) { s with drafter := lengths }) :
    Ensures (injectFeatures fault append count start) s P E := by
  refine (attempt_rejectIf (P := fun _ t => t = s) (by omega) rfl).bind fun _ t ht => ?_
  subst ht
  obtain hall | ⟨failed, e, lengths, -, hcheck, hloop, hfirst⟩ := appendLayers_replicate
    (fun layer length => do
      rejectIf (length ≠ start) (.shape "DFlash injected cache position" s!"{start}" s!"{length}")
      rejectIf (fault = some (.inject append layer)) (.device "DFlash feature injection")
      checkAppend count t.maxTokens length) start count 0 layers
  · exact onDrafter_ensures (hdrafter ▸ hall) (fun _ => hreturn) (by simp)
  · refine onDrafter_ensures (hdrafter ▸ hloop) (by simp) fun e' he' => ?_
    cases he'
    rw [rejectIf_eq_ok_iff.mpr (by simp)] at hcheck
    obtain ⟨hfault, rfl⟩ := checkLayer hcount.1 hroom hcheck
    exact hfail failed lengths hfault fun h => hdrafter ▸ hfirst h

theorem truncateLayers_replicate {longer : Nat} (h : length ≤ longer) (count : Nat) :
    truncateLayers length (List.replicate count longer) = (List.replicate count length, .ok ()) := by
  induction count with
  | zero => rfl
  | succ count ih =>
    rw [replicate_succ, truncateLayers, if_neg (by omega), ih]
    rfl

theorem truncateDrafter_ensures {longer : Nat} (h : length ≤ longer)
    (hdrafter : s.drafter = List.replicate layers longer)
    (hreturn : P () { s with drafter := replicate layers length }) :
    Ensures (truncateDrafter length) s P E := by
  exact onDrafter_ensures (hdrafter ▸ truncateLayers_replicate h layers) (fun _ => hreturn) (by simp)

theorem draftRows_ensures {start : Nat} (hroom : start + blockSize ≤ s.maxTokens)
    (hdrafter : s.drafter = List.replicate layers start) (hreturn : P () s)
    (hfail : ∀ layer lengths, fault = some (.draft layer) →
      (layer = 0 → lengths = s.drafter) →
      E (.failed (.device "DFlash draft")) { s with drafter := lengths }) :
    Ensures (draftRows fault start) s P E := by
  refine Ensures.bind (P := fun _ t =>
    t = { s with drafter := replicate layers (start + blockSize) }) ?_ fun _ t ht => ?_
  · obtain hall | ⟨failed, e, lengths, -, hcheck, hloop, hfirst⟩ := appendLayers_replicate
      (fun layer length => do
        rejectIf (fault = some (.draft layer)) (.device "DFlash draft")
        checkAppend blockSize s.maxTokens length) start blockSize 0 layers
    · exact onDrafter_ensures (hdrafter ▸ hall) (fun _ => rfl) (by simp)
    · refine onDrafter_ensures (hdrafter ▸ hloop) (by simp) fun e' he' => ?_
      cases he'
      obtain ⟨hfault, rfl⟩ := checkLayer (by decide) hroom hcheck
      exact hfail failed lengths hfault fun h => hdrafter ▸ hfirst h
  · subst ht
    refine truncateDrafter_ensures (Nat.le_add_right start blockSize) rfl ?_
    convert hreturn using 1
    rw [← hdrafter]

/-! ## Appends -/

theorem Failed.mono {fault : Option Site} {sites sites' early early' : Site → Prop}
    {keeps keeps' : σ → Prop} {e : Fault CudaError} {t : σ}
    (h : Failed fault sites early keeps e t) (hsites : ∀ site, sites site → sites' site)
    (hearly : ∀ site, sites site → early' site → early site) (hkeeps : keeps t → keeps' t) :
    Failed fault sites' early' keeps' e t := by
  obtain ⟨site, call, hfault, hsite, he, hkeep⟩ := h
  exact ⟨site, call, hfault, hsites site hsite, he,
    fun hearly' => hkeeps (hkeep (hearly site hsite hearly'))⟩

theorem orAbort_ensures {pass : Sequencing τ Unit}
    (h : Ensures pass s P fun e t => E e { t with cache := t.cache.abort }) :
    Ensures (orAbort pass) s P E := by
  unfold Ensures orAbort at *
  split at h
  · rename_i a t heq
    rw [heq]
    exact h
  · rename_i e t heq
    rw [heq]
    exact h

/-- The prefixes behind the rows of a block. -/
def blockRows (rows tokens : List τ) : List (List τ) :=
  (List.range tokens.length).map fun row => rows ++ tokens.take (row + 1)

/-- The sequence while the rows of a block are reserved. -/
def reserved (layers : Nat) (rows tokens : List τ) (outputLogits : Bool) (s : Sequence τ) :
    Sequence τ :=
  { s with
    cache := ⟨rows, some tokens⟩
    rows := if outputLogits then blockRows rows tokens else s.rows
    drafter := List.replicate layers (rows.length + tokens.length) }

section
variable (h : Settled capacity layers rows s)
include h

theorem reserveDflashTargetRows_ensures {tokens : List τ} {outputLogits : Bool} (hcount : 0 < tokens.length ∧ tokens.length ≤ blockSize)
    (hroom : rows.length + tokens.length ≤ capacity) :
    Ensures (reserveDflashTargetRows fault append tokens outputLogits) s
      (fun _ t => t = reserved layers rows tokens outputLogits s)
      (Failed fault (appendSites append) (earlySites append) (Settled capacity layers rows)) := by
  refine Ensures.bind (P := fun _ t => t = { s with cache := ⟨rows, some []⟩ }) ?_ fun _ t ht => ?_
  · refine Ensures.bind (reach_ensures (P := fun _ t => t = s) rfl fun hfault => ?_) fun _ t ht => ?_
    · exact ⟨_, _, hfault, .inl rfl, rfl, fun _ => h⟩
    · subst ht
      refine Ensures.modify ?_
      rw [h.cache]
      rfl
  subst ht
  refine orAbort_ensures ?_
  refine get_bind ?_
  refine (attempt_rejectIf (P := fun _ t => t = { s with cache := ⟨rows, some []⟩ }) ?_ rfl).bind
    fun _ t ht => ?_
  · have hposition := h.position
    have hcapacity := h.capacity
    show ¬ (_ ∨ _ ∨ s.maxTokens < s.position + tokens.length)
    omega
  subst ht
  refine Ensures.bind (reach_ensures
    (P := fun _ t => t = { s with cache := ⟨rows, some []⟩ }) rfl fun hfault => ?_) fun _ t ht => ?_
  · exact ⟨_, _, hfault, .inr (.inl rfl), rfl, fun _ => ⟨h.capacity, rfl, h.position, h.drafter⟩⟩
  refine set_bind ?_
  have hroom' : s.position + tokens.length ≤ s.maxTokens := by
    rw [h.position, h.capacity]
    exact hroom
  refine injectFeatures_ensures hcount hroom' (h.position ▸ h.drafter) ?_ fun layer lengths hfault hfirst => ?_
  · simp [reserved, blockRows, Sequence.context, h.position, CacheEntry.write]
  · refine ⟨_, _, hfault, .inr (.inr (.inl ⟨layer, rfl⟩)), rfl, fun hearly => ?_⟩
    obtain hsite | hsite | hsite := hearly
    · cases hsite
    · cases hsite
    · injection hsite with _ hzero
      exact ⟨h.capacity, rfl, h.position, (hfirst hzero).trans h.drafter⟩

omit h in
theorem not_early_commit : ¬ earlySites append (.commit append) := by
  simp [earlySites]

omit h in
theorem commitAppend_ensures {count : Nat} (keeps : Sequence τ → Prop)
    (hreturn : P () { s with cache := s.cache.commit count }) :
    Ensures (commitAppend fault append count) s P
      (Failed fault (appendSites append) (earlySites append) keeps) := by
  refine Ensures.bind (reach_ensures (P := fun _ t => t = s) rfl fun hfault => ?_) fun _ t ht => ?_
  · exact ⟨_, _, hfault, .inr (.inr (.inr rfl)), rfl, fun hearly => (not_early_commit hearly).elim⟩
  · subst ht
    exact Ensures.modify hreturn

theorem dflashPrefillChunk_ensures {tokens : List τ} {outputLogits : Bool} (hcount : 0 < tokens.length ∧ tokens.length ≤ blockSize)
    (hroom : rows.length + tokens.length ≤ capacity) :
    Ensures (dflashPrefillChunk fault append tokens outputLogits) s
      (fun _ t => Settled capacity layers (rows ++ tokens) t ∧
        (outputLogits = true → t.batchLogitsRow = some (tokens.length - 1) ∧
          t.rows = blockRows rows tokens))
      (Failed fault (appendSites append) (earlySites append) (Settled capacity layers rows)) := by
  refine get_bind ?_
  refine (reserveDflashTargetRows_ensures h hcount hroom).bind fun _ t ht => ?_
  subst ht
  refine Ensures.bind (commitAppend_ensures _ (P := fun _ t => t =
    { reserved layers rows tokens outputLogits s with cache := ⟨rows ++ tokens, none⟩ }) ?_)
    fun _ t ht => ?_
  · simp [reserved, CacheEntry.commit]
  subst ht
  refine Ensures.modify ⟨⟨h.capacity, rfl, ?_, ?_⟩, fun houtput => ?_⟩
  · simp [h.position]
  · simp [reserved]
  · simp [reserved, houtput]

theorem forwardHidden_ensures {token : τ} (hroom : rows.length < capacity) :
    Ensures (forwardHidden fault append token) s
      (fun _ t => Settled capacity layers (rows ++ [token]) t ∧ t.hidden = rows ++ [token] ∧
        t.batchLogitsRow = none)
      (Failed fault (appendSites append) (earlySites append) (Settled capacity layers rows)) := by
  refine modify_bind (get_bind ?_)
  refine (attempt_rejectIf (P := fun _ t => t = { s with batchLogitsRow := none }) ?_ rfl).bind
    fun _ t ht => ?_
  · have hposition := h.position
    have hcapacity := h.capacity
    show ¬ s.maxTokens ≤ s.position
    omega
  subst ht
  refine Ensures.bind (P := fun _ t =>
    t = { s with batchLogitsRow := none, cache := ⟨rows, some []⟩ }) ?_ fun _ t ht => ?_
  · refine Ensures.bind (reach_ensures (P := fun _ t => t = { s with batchLogitsRow := none }) rfl
      fun hfault => ?_) fun _ t ht => ?_
    · exact ⟨_, _, hfault, .inl rfl, rfl, fun _ => { h with }⟩
    · subst ht
      refine Ensures.modify ?_
      simp only [h.cache]
      rfl
  subst ht
  refine Ensures.bind (P := fun _ t => t = { s with
    batchLogitsRow := none
    cache := ⟨rows, some [token]⟩
    hidden := rows ++ [token]
    drafter := replicate layers (rows.length + 1) }) (orAbort_ensures ?_) fun _ t ht => ?_
  · refine Ensures.bind (reach_ensures (P := fun _ t =>
      t = { s with batchLogitsRow := none, cache := ⟨rows, some []⟩ }) rfl fun hfault => ?_)
      fun _ t ht => ?_
    · exact ⟨_, _, hfault, .inr (.inl rfl), rfl, fun _ => ⟨h.capacity, rfl, h.position, h.drafter⟩⟩
    subst ht
    refine modify_bind ?_
    have hroom' : s.position + 1 ≤ s.maxTokens := by
      rw [h.position, h.capacity]
      exact hroom
    refine injectFeatures_ensures (by decide) hroom' (h.position ▸ h.drafter) ?_
      fun layer lengths hfault hfirst => ?_
    · simp [Sequence.context, h.position, CacheEntry.write]
    · refine ⟨_, _, hfault, .inr (.inr (.inl ⟨layer, rfl⟩)), rfl, fun hearly => ?_⟩
      obtain hsite | hsite | hsite := hearly
      · cases hsite
      · cases hsite
      · injection hsite with _ hzero
        exact ⟨h.capacity, rfl, h.position, (hfirst hzero).trans h.drafter⟩
  subst ht
  refine Ensures.bind (commitAppend_ensures _ (P := fun _ t => t = { s with
    batchLogitsRow := none
    cache := ⟨rows ++ [token], none⟩
    hidden := rows ++ [token]
    drafter := replicate layers (rows.length + 1) }) rfl) fun _ t ht => ?_
  subst ht
  refine Ensures.modify ⟨⟨h.capacity, rfl, ?_, ?_⟩, rfl, rfl⟩
  · simp [h.position]
  · simp

/-- The calls of `forward_one`. -/
def forwardSites (append : Nat) (site : Site) : Prop :=
  appendSites append site ∨ site = .head append

theorem forwardOne_ensures {token : τ} (hroom : rows.length < capacity) :
    Ensures (forwardOne fault append token) s
      (fun _ t => Settled capacity layers (rows ++ [token]) t ∧ t.logits = rows ++ [token] ∧
        t.batchLogitsRow = none)
      (Failed fault (forwardSites append) (earlySites append) (Settled capacity layers rows)) := by
  refine ((forwardHidden_ensures h hroom).mono (fun _ _ ht => ht) fun _ _ he =>
    he.mono (fun _ => .inl) (fun _ _ => id) id).bind fun _ t ht => ?_
  obtain ⟨hsettled, hhidden, hrow⟩ := ht
  refine Ensures.bind (reach_ensures (P := fun _ u => u = t) rfl fun hfault => ?_) fun _ u hu => ?_
  · refine ⟨_, _, hfault, .inr rfl, rfl, fun hearly => ?_⟩
    obtain hsite | hsite | hsite := hearly <;> cases hsite
  · subst hu
    exact Ensures.modify ⟨{ hsettled with }, hhidden, hrow⟩

end

/-! ## Logits -/

/-- The prefix behind the logits that are read next. -/
def currentLogits (s : Sequence τ) : Option (List τ) :=
  match s.batchLogitsRow with
  | some row => s.rows[row]?
  | none => some s.logits

theorem checkLogits_ensures (hposition : s.position ≠ 0) (hreturn : P () s) :
    Ensures checkLogits s P E := by
  exact get_bind (attempt_rejectIf hposition hreturn)

theorem argmaxWithLogit_ensures {argmax : List τ → τ} {rowPrefix : List τ}
    (h : currentLogits s = some rowPrefix) (hposition : s.position ≠ 0) :
    Ensures (argmaxWithLogit fault argmax) s
      (fun token t => token = argmax rowPrefix ∧ t = { s with batchLogitsRow := none })
      (Failed fault (· = .argmax) (· = .argmax) (· = { s with batchLogitsRow := none })) := by
  refine (checkLogits_ensures (P := fun _ t => t = s) hposition rfl).bind fun _ t ht => ?_
  subst ht
  refine get_bind ?_
  unfold currentLogits at h
  cases hrow : t.batchLogitsRow with
  | some row =>
    rw [hrow] at h
    refine set_bind ?_
    refine Ensures.bind (reach_ensures (P := fun _ u => u = { t with batchLogitsRow := none }) rfl
      fun hfault => ⟨_, _, hfault, rfl, rfl, fun _ => rfl⟩) fun _ u hu => ?_
    subst hu
    simp only [h]
    exact ⟨rfl, rfl⟩
  | none =>
    rw [hrow] at h
    cases h
    have hsame : t = { t with batchLogitsRow := none } := by rw [← hrow]
    refine Ensures.bind (reach_ensures (P := fun _ u => u = t) rfl
      fun hfault => ⟨_, _, hfault, rfl, rfl, fun _ => hsame⟩) fun _ u hu => ?_
    subst hu
    exact ⟨rfl, hsame⟩

/-! ## The cycle -/

/-- The calls of a cycle. -/
def cycleSites (site : Site) : Prop :=
  appendSites 0 site ∨ site = .snapshotTails ∨ (∃ layer, site = .draft layer) ∨
    site = .readback ∨ site = .restoreTails

def never (_ : Site) : Prop := False

/-- What a cycle returns and leaves: it has taken the anchor and the drafts that the target
repeats, and everything stands behind them. -/
structure Cycled [DecidableEq τ] (argmax : List τ → τ) (capacity layers : Nat) (rows : List τ)
    (anchor : τ) (cycle : DFlashCycle τ) (t : Sequence τ) : Prop where
  settled : Settled capacity layers (rows ++ cycle.tokens) t
  tokens : ∃ accepted, cycle.tokens = anchor :: accepted ∧
    Greedy.Follows argmax (rows ++ [anchor]) accepted ∧ cycle.acceptedDrafts = accepted.length
  bound : cycle.tokens.length ≤ blockSize
  next : cycle.nextToken = argmax (rows ++ cycle.tokens)
  target : cycle.targetPosition = rows.length + cycle.tokens.length
  dflash : cycle.dflashPosition = rows.length + cycle.tokens.length

theorem blockRows_map (argmax : List τ → τ) (rows drafts : List τ) (anchor : τ) :
    (blockRows rows (anchor :: drafts)).map argmax =
      Greedy.targets argmax (rows ++ [anchor]) drafts := by
  rw [Greedy.targets_eq_map, blockRows, map_map]
  simp [Function.comp_def]

theorem dflashPosition_ensures (length : Nat) (hlayers : 0 < layers)
    (hdrafter : s.drafter = List.replicate layers length) :
    Ensures (dflashPosition : Sequencing τ Nat) s (fun a t => a = length ∧ t = s) E := by
  refine get_bind ?_
  obtain ⟨count, rfl⟩ : ∃ count, layers = count + 1 := ⟨layers - 1, by omega⟩
  rw [hdrafter]
  refine (attempt_rejectIf (P := fun _ t => t = s) ?_ rfl).bind fun _ t ht => ?_
  · simp
  · exact ⟨rfl, ht⟩

theorem commitCycle_ensures [DecidableEq τ] {argmax : List τ → τ} {drafts : List τ} {anchor : τ}
    (hlayers : 0 < layers) (hcapacity : s.maxTokens = capacity)
    (hcache : s.cache = ⟨rows, some (anchor :: drafts)⟩)
    (hdrafter : s.drafter = List.replicate layers (rows.length + (1 + drafts.length)))
    (hblock : 1 + drafts.length ≤ blockSize) :
    Ensures (commitCycle fault rows.length anchor drafts
        (Greedy.targets argmax (rows ++ [anchor]) drafts)) s
      (Cycled argmax capacity layers rows anchor)
      (Failed fault cycleSites never fun _ => True) := by
  have hle := Greedy.accepted_le drafts (Greedy.targets argmax (rows ++ [anchor]) drafts)
  have hfollows := Greedy.follows_accepted argmax (rows ++ [anchor]) drafts
  have hnext := Greedy.targets_accepted argmax (rows ++ [anchor]) drafts
  unfold commitCycle acceptedDrafts
  generalize Greedy.accepted drafts (Greedy.targets argmax (rows ++ [anchor]) drafts) = accepted
    at hle hfollows hnext ⊢
  have hlength : (anchor :: drafts.take accepted).length = 1 + accepted := by
    simp [hle, Nat.add_comm]
  refine Ensures.bind ((commitAppend_ensures (fun _ => True) (P := fun _ t => t =
    { s with cache := ⟨rows ++ anchor :: drafts.take accepted, none⟩ }) ?_).mono
    (fun _ _ ht => ht) fun _ _ he => he.mono (fun _ => .inl) (fun _ _ => False.elim) id)
    fun _ t ht => ?_
  · rw [hcache, CacheEntry.commit, Nat.add_comm 1]
    rfl
  refine Ensures.bind (P := fun _ u => u = t) ?_ fun _ u hu => ?_
  · unfold reachWhen
    split
    · exact reach_ensures rfl fun hfault =>
        ⟨_, _, hfault, .inr (.inr (.inr (.inr rfl))), rfl, fun _ => True.intro⟩
    · exact rfl
  subst hu
  have hgrown : u.drafter = replicate layers (rows.length + (1 + drafts.length)) := by
    rw [ht]
    exact hdrafter
  refine (truncateDrafter_ensures (P := fun _ v => v =
      { u with drafter := replicate layers (rows.length + 1 + accepted) })
    (by omega) hgrown rfl).bind fun _ v hv => ?_
  refine modify_bind ?_
  refine (dflashPosition_ensures (rows.length + 1 + accepted) hlayers
    (by rw [hv])).bind fun position w hw => ?_
  obtain ⟨rfl, hw⟩ := hw
  rw [hnext]
  refine ⟨⟨?_, ?_, ?_, ?_⟩, ⟨drafts.take accepted, rfl, hfollows, ?_⟩, ?_, ?_, ?_, ?_⟩
  · rw [hw, hv, ht]
    exact hcapacity
  · rw [hw, hv, ht]
  · rw [hw, length_append, hlength, Nat.add_assoc]
  · rw [hw, hv, length_append, hlength, Nat.add_assoc]
  · simp [hle]
  · rw [hlength]
    omega
  · simp
  · simp only [hlength, Nat.add_assoc]
  · simp only [hlength, Nat.add_assoc]

theorem dflashCycle_ensures [DecidableEq τ] {argmax : List τ → τ} {block : DraftBlock τ}
    {anchor : τ} (h : Settled capacity layers rows s) (hlayers : 0 < layers)
    (hroom : rows.length + blockSize ≤ capacity) :
    Ensures (dflashCycle fault argmax block anchor) s (Cycled argmax capacity layers rows anchor)
      (Failed fault cycleSites never fun _ => True) := by
  have hposition := h.position
  have hcapacity := h.capacity
  have hlength : 1 + block.tokens.length = blockSize := by rw [block.length_tokens]; rfl
  have hblock : (anchor :: block.tokens).length = blockSize := by
    rw [length_cons, Nat.add_comm]
    exact hlength
  refine get_bind ?_
  refine (attempt_rejectIf (P := fun _ t => t = s) (by omega) rfl).bind fun _ t ht => ?_
  subst ht
  refine Ensures.bind (reach_ensures (P := fun _ u => u = t) rfl
    fun hfault => ⟨_, _, hfault, .inr (.inl rfl), rfl, fun _ => True.intro⟩) fun _ u hu => ?_
  subst hu
  refine (draftRows_ensures (P := fun _ t => t = u) (by omega) (hposition ▸ h.drafter) rfl
    fun layer lengths hfault _ =>
      ⟨_, _, hfault, .inr (.inr (.inl ⟨layer, rfl⟩)), rfl, fun _ => True.intro⟩).bind fun _ t ht => ?_
  subst ht
  refine modify_bind ?_
  have hstart : Settled capacity layers rows { t with batchLogitsRow := none } := { h with }
  refine ((reserveDflashTargetRows_ensures hstart (by rw [hblock]; decide) (by omega)).mono
    (fun _ _ ht => ht) fun _ _ he =>
      he.mono (fun _ => .inl) (fun _ _ => False.elim) fun _ => True.intro).bind fun _ u hu => ?_
  refine Ensures.bind (reach_ensures (P := fun _ v => v = u) rfl
    fun hfault => ⟨_, _, hfault, .inr (.inr (.inr (.inl rfl))), rfl, fun _ => True.intro⟩)
    fun _ v hv => ?_
  subst hv
  refine get_bind ?_
  have htargets : v.rows.map argmax = Greedy.targets argmax (rows ++ [anchor]) block.tokens := by
    rw [hu, ← blockRows_map]
    rfl
  rw [htargets, hposition]
  refine commitCycle_ensures hlayers ?_ ?_ ?_ (by omega)
  · rw [hu]
    exact hcapacity
  · rw [hu]
    rfl
  · rw [hu, Nat.add_comm 1]
    rfl

end

end Eider.Guarantees.MuseSequence
