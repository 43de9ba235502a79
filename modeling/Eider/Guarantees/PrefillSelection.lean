import Eider.Guarantees.SequenceCursor

/-!
The prefill selection of the Qwen3.6 scheduler, from every queue and with every prompt
position and prefix target.

A chunk is never empty, leaves the last prompt token to the decode phase and ends at the
prefix target at the latest while that is not retained. The chunks fit the token capacity
and their requests the sequence capacity, and the loop stays within `usize` on the way.

A request whose prefix target is retained only where the request has reached it stands at
the target at the end of one of its phases. With retention disabled the checkpoint marks
it in front of the target, and the next chunk goes past.
-/
namespace Eider.Guarantees.PrefillSelection
open Lib Lib.ByteReader Source Source.Qwen36 List Ensures
open Guarantees.SchedulerLedger
open Guarantees.SequenceCursor
open Guarantees.BatchAtomicity

variable {n : Nat} {β κ φ C R K : Type}
variable {r r' : Request K φ} {selected : List (Request K φ)} {chunks : List Nat}
variable {first : Request K φ} {seen : List (Request K φ)}

/-- Every request of the scheduler is kept under its own id and stands within its prompt. -/
def Standing (s : Scheduler n β φ C K) : Prop :=
  ∀ id r, s.requests.get id = some r → r.id = id ∧ r.promptPosition ≤ r.promptTokens.length

/-! ## The selection with checked arithmetic -/

/-- The selection of `run_prefill_phase`. -/
def selection : Scheduling n β φ C K (List (Request K φ × Nat)) := do
  let s ← get
  let eligible ← eligiblePrefills s.prefilling s.config.prefillSequenceCapacity
  selectPrefill s.prefilling.length eligible s.config.prefillTokenCapacity

/-- A subtraction of `usize`. -/
def checkedSub (a b : Nat) : Scheduling n β φ C K Nat :=
  if a < b then throw (.panicked "attempt to subtract with overflow") else pure (a - b)

/-- `div_ceil`. -/
def checkedDivCeil (a b : Nat) : Scheduling n β φ C K Nat :=
  if b = 0 then throw (.panicked "attempt to divide by zero") else pure (fairShare a b)

/-- `prefillable_tokens`. -/
def checkedPrefillable (r : Request K φ) : Scheduling n β φ C K Nat := do
  let remaining ← checkedSub r.promptTokens.length r.promptPosition
  return remaining - 1

/-- `prefill_chunk_tokens`. -/
def checkedChunk (available fairShare promptPosition checkpointTarget : Nat)
    (checkpointed : Bool) : Scheduling n β φ C K Nat :=
  let chunk := min available fairShare
  if checkpointed = false ∧ promptPosition < checkpointTarget ∧
      checkpointTarget < promptPosition + chunk then
    checkedSub checkpointTarget promptPosition
  else pure chunk

/-- The selection loop with the counters of the source, where arithmetic that leaves
`usize` is a panic. -/
def checkedSelect (eligible : Nat) :
    Nat → Nat → Nat → Nat → Scheduling n β φ C K (List (Request K φ × Nat))
  | 0, _, _, _ => pure []
  | scan + 1, selected, slots, tokenBudget =>
    if selected = eligible ∨ tokenBudget = 0 then pure []
    else do
      match (← get).prefilling with
      | [] => throw (.panicked "prefilling scan has a request")
      | id :: rest =>
        let request ← expect ((← get).requests.get id) "prefilling request is retained"
        let available ← checkedPrefillable request
        if available = 0 then
          modify fun s => { s with prefilling := rest ++ [id] }
          checkedSelect eligible scan selected slots tokenBudget
        else
          let fairShare ← checkedDivCeil tokenBudget slots
          let chunk ← checkedChunk available fairShare request.promptPosition
            request.prefixTarget request.prefixRetained
          let tokenBudget ← checkedSub tokenBudget chunk
          let slots ← checkedSub slots 1
          modify fun s => { s with prefilling := rest }
          let request ← takeRequest id "prefilling request is retained"
          let selected ← checkedSelect eligible scan (selected + 1) slots tokenBudget
          return (request, chunk) :: selected

/-- `selection` with checked arithmetic. -/
def checkedSelection : Scheduling n β φ C K (List (Request K φ × Nat)) := do
  let s ← get
  let eligible ← eligiblePrefills s.prefilling s.config.prefillSequenceCapacity
  checkedSelect eligible s.prefilling.length 0 eligible s.config.prefillTokenCapacity

/-! ## One chunk -/

theorem fairShare_pos (budget slots : Nat) (hbudget : budget ≠ 0) (hslots : slots ≠ 0) :
    0 < fairShare budget slots := by
  apply Nat.div_pos
  · omega
  · omega

theorem fairShare_le (budget slots : Nat) (hslots : slots ≠ 0) : fairShare budget slots ≤ budget := by
  unfold fairShare
  by_cases hbudget : budget = 0
  · rw [hbudget, Nat.zero_add]
    exact (Nat.div_eq_of_lt (by omega)).le
  · rw [Nat.div_le_iff_le_mul_add_pred (by omega)]
    have hmul : budget + slots ≤ slots * budget + 1 := by
      obtain ⟨k, rfl⟩ := Nat.exists_eq_succ_of_ne_zero hslots
      obtain ⟨b, rfl⟩ := Nat.exists_eq_succ_of_ne_zero hbudget
      have hexpand : (k + 1) * (b + 1) = k * b + k + b + 1 := by ring
      simp only [Nat.succ_eq_add_one, hexpand]
      omega
    omega

/-- What a chunk of a request may be. -/
structure Fits (r : Request K φ) (chunk : Nat) : Prop where
  pos : 1 ≤ chunk
  prefillable : chunk ≤ r.prefillableTokens
  final : r.promptPosition + chunk < r.promptTokens.length
  target : r.prefixRetained = false → r.promptPosition < r.prefixTarget →
    r.promptPosition + chunk ≤ r.prefixTarget

theorem prefillChunkTokens_fits {share : Nat} (hshare : 0 < share)
    (havailable : r.prefillableTokens ≠ 0) :
    Fits r (prefillChunkTokens r.prefillableTokens share r.promptPosition r.prefixTarget
        r.prefixRetained) ∧
      prefillChunkTokens r.prefillableTokens share r.promptPosition r.prefixTarget
        r.prefixRetained ≤ share := by
  have hremaining : r.promptPosition + r.prefillableTokens < r.promptTokens.length := by
    unfold Request.prefillableTokens Request.remainingPromptTokens at havailable ⊢
    omega
  unfold prefillChunkTokens
  dsimp only
  split
  · exact ⟨⟨by omega, by omega, by omega, fun _ _ => by omega⟩, by omega⟩
  · rename_i hwhole
    refine ⟨⟨by omega, by omega, by omega, fun hunretained hbefore => ?_⟩, by omega⟩
    by_contra hpast
    exact hwhole ⟨hunretained, hbefore, by omega⟩

/-! ## The loop -/

section
variable {s : Scheduler n β φ C K}

variable {t : Scheduler n β φ C K}

theorem Standing.keep (h : Standing s) (hsame : t.requests = s.requests) : Standing t := by
  intro id r hget
  rw [hsame] at hget
  exact h id r hget

theorem Standing.erase {id : Nat} (h : Standing s)
    (herased : t.requests = s.requests.erase id) : Standing t := by
  intro other r hget
  rw [herased, BTreeMap.get_erase] at hget
  split at hget
  · cases hget
  · exact h other r hget

theorem checkedPrefillable_eq (h : r.promptPosition ≤ r.promptTokens.length) :
    (checkedPrefillable r : Scheduling n β φ C K Nat) = pure r.prefillableTokens := by
  unfold checkedPrefillable checkedSub
  rw [if_neg (by omega)]
  rfl

theorem checkedChunk_eq (available share position target : Nat) (retained : Bool) :
    (checkedChunk available share position target retained : Scheduling n β φ C K Nat) =
      pure (prefillChunkTokens available share position target retained) := by
  unfold checkedChunk prefillChunkTokens checkedSub
  dsimp only
  split
  · rw [if_neg (by omega)]
  · rfl

theorem checkedSub_eq {a b : Nat} (h : b ≤ a) :
    (checkedSub a b : Scheduling n β φ C K Nat) = pure (a - b) := if_neg (by omega)

theorem checkedDivCeil_eq {a b : Nat} (h : b ≠ 0) :
    (checkedDivCeil a b : Scheduling n β φ C K Nat) = pure (fairShare a b) := if_neg h

/-- Two programs that agree from every state their first part ends in. -/
theorem bind_congr_ensures {α γ : Type} {m : Scheduling n β φ C K α}
    {f g : α → Scheduling n β φ C K γ}
    (h : Ensures m s (fun a t => f a t = g a t) (fun _ _ => True)) : (m >>= f) s = (m >>= g) s := by
  change EStateM.bind m f s = EStateM.bind m g s
  unfold Ensures at h
  unfold EStateM.bind
  generalize m s = ended at h
  cases ended with
  | ok a t => exact h
  | error e t => rfl

theorem expect_ensures {σ α : Type} {t : σ} (value : Option α) (message : String) :
    Ensures (expect value message : EStateM (Fault CudaError) σ α) t
      (fun a u => value = some a ∧ u = t) (fun e _ => e = .panicked message) := by
  cases value with
  | none => exact rfl
  | some a => exact ⟨rfl, rfl⟩

theorem takeRequest_ensures (id : Nat) (message : String) :
    Ensures (takeRequest id message) s
      (fun r t => s.requests.get id = some r ∧ t = { s with requests := s.requests.erase id })
      (fun e _ => e = .panicked message) := by
  apply get_bind
  refine (expect_ensures _ _).bind fun r t ht => ?_
  apply set_bind
  exact Ensures.pure ⟨ht.1, rfl⟩

/-- Some request under these ids has tokens to prefill. -/
def Pending (s : Scheduler n β φ C K) (ids : List Nat) : Prop :=
  ∃ id ∈ ids, ∃ r, s.requests.get id = some r ∧ r.prefillableTokens ≠ 0

/-- The loop fails only where a queued request is not in the map. -/
def MissingRequest : Fault CudaError → Scheduler n β φ C K → Prop :=
  fun fault _ => fault = .panicked "prefilling request is retained"

theorem eligiblePrefills_counts (ids : List Nat) (rows : Nat) :
    Ensures (eligiblePrefills ids rows) s
      (fun eligible t => t = s ∧ eligible ≤ rows ∧ (rows ≠ 0 → Pending s ids → eligible ≠ 0))
      MissingRequest := by
  induction ids generalizing rows with
  | nil => exact ⟨rfl, Nat.zero_le _, fun _ hpending => by simp [Pending] at hpending⟩
  | cons id rest ih =>
    cases rows with
    | zero => exact ⟨rfl, Nat.le_refl _, fun hrows => absurd rfl hrows⟩
    | succ rows =>
      apply get_bind
      refine (expect_ensures _ _).bind fun r t ht => ?_
      obtain ⟨hget, rfl⟩ := ht
      split
      · refine (ih rows).bind fun eligible u hu => ?_
        exact Ensures.pure ⟨hu.1, by omega, fun _ _ => by omega⟩
      · refine (ih (rows + 1)).imp fun eligible u hu => ⟨hu.1, hu.2.1, fun hrows hpending => ?_⟩
        obtain ⟨other, hmem, r', hget', hsome⟩ := hpending
        refine hu.2.2 hrows ⟨other, ?_, r', hget', hsome⟩
        obtain rfl | hmem := mem_cons.mp hmem
        · rw [hget] at hget'
          cases hget'
          omega
        · exact hmem

/-- What a selection takes out of the queue of `s`. -/
structure Chosen (s : Scheduler n β φ C K) (slots tokenBudget : Nat)
    (chosen : List (Request K φ × Nat)) : Prop where
  fits : ∀ entry ∈ chosen, Fits entry.1 entry.2
  queued : ∀ entry ∈ chosen, entry.1.id ∈ s.prefilling ∧ s.requests.get entry.1.id = some entry.1
  tokens : (chosen.map Prod.snd).sum ≤ tokenBudget
  sequences : chosen.length ≤ slots

theorem Chosen.nil (slots tokenBudget : Nat) : Chosen s slots tokenBudget [] := by
  refine ⟨forall_mem_nil _, forall_mem_nil _, Nat.zero_le _, Nat.zero_le _⟩

/-- The requests of `t` are requests of `s`. -/
def Fewer (s t : Scheduler n β φ C K) : Prop :=
  ∀ id r, t.requests.get id = some r → s.requests.get id = some r

theorem Fewer.erase {id : Nat} {rest : List Nat}
    (h : Fewer { s with prefilling := rest, requests := s.requests.erase id } t) : Fewer s t := by
  intro other r hget
  have herased := h other r hget
  rw [BTreeMap.get_erase] at herased
  split at herased
  · cases herased
  · exact herased

theorem selectPrefill_chosen (scan slots tokenBudget : Nat) (h : Standing s)
    (hscan : scan ≤ s.prefilling.length) :
    Ensures (selectPrefill scan slots tokenBudget) s
      (fun chosen t => Chosen s slots tokenBudget chosen ∧ Fewer s t ∧
        (slots ≠ 0 → tokenBudget ≠ 0 → Pending s (s.prefilling.take scan) → chosen ≠ []))
      MissingRequest := by
  induction scan generalizing s slots tokenBudget with
  | zero => exact ⟨.nil _ _, fun _ _ hget => hget, fun _ _ hpending => by simp [Pending] at hpending⟩
  | succ scan ih =>
    unfold selectPrefill
    split
    · refine ⟨.nil _ _, fun _ _ hget => hget, fun hslots hbudget => ?_⟩
      rename_i hended
      exact absurd hended (by omega)
    · apply get_bind
      split
      · rename_i hempty
        rw [hempty, length_nil] at hscan
        exact absurd hscan (Nat.not_succ_le_zero scan)
      · rename_i id rest hqueue
        rw [hqueue, length_cons] at hscan
        apply get_bind
        refine (expect_ensures _ _).bind fun r t ht => ?_
        obtain ⟨hget, rfl⟩ := ht
        split
        · rename_i hnone
          apply modify_bind
          have hturned := ih (s := { t with prefilling := rest ++ [id] }) slots tokenBudget
            (h.keep rfl) (by simp only [length_append]; omega)
          refine hturned.imp fun chosen u hu => ⟨?_, hu.2.1, ?_⟩
          · refine { hu.1 with queued := fun entry hentry => ?_ }
            obtain ⟨hmem, hkept⟩ := hu.1.queued entry hentry
            refine ⟨?_, hkept⟩
            rw [hqueue]
            exact (perm_append_singleton id rest).mem_iff.mp hmem
          · intro hslots hbudget hpending
            refine hu.2.2 hslots hbudget ?_
            obtain ⟨other, hmem, r', hget', hsome⟩ := hpending
            refine ⟨other, ?_, r', hget', hsome⟩
            rw [hqueue, take_succ_cons] at hmem
            rw [take_append_of_le_length (by omega)]
            obtain rfl | hmem := mem_cons.mp hmem
            · rw [hget] at hget'
              cases hget'
              exact absurd hnone hsome
            · exact hmem
        · rename_i havailable
          apply modify_bind
          refine (takeRequest_ensures id _).bind fun r' u hu => ?_
          obtain ⟨hget', rfl⟩ := hu
          obtain rfl : r = r' := Option.some.inj (hget.symm.trans hget')
          obtain ⟨hfits, hshare⟩ := prefillChunkTokens_fits (r := r)
            (fairShare_pos tokenBudget slots (by omega) (by omega)) havailable
          have hbudget := hshare.trans (fairShare_le tokenBudget slots (by omega))
          have hrest := ih (s := { t with prefilling := rest, requests := t.requests.erase id })
            (slots - 1) (tokenBudget - prefillChunkTokens r.prefillableTokens
              (fairShare tokenBudget slots) r.promptPosition r.prefixTarget r.prefixRetained)
            (h.erase rfl) (Nat.le_of_succ_le_succ hscan)
          refine hrest.bind fun chosen v hv => ?_
          obtain ⟨hchosen, hfewer, -⟩ := hv
          refine Ensures.pure ⟨⟨?_, ?_, ?_, ?_⟩, hfewer.erase, fun _ _ _ => by simp⟩
          · exact forall_mem_cons.mpr ⟨hfits, hchosen.fits⟩
          · refine forall_mem_cons.mpr ⟨?_, fun entry hentry => ?_⟩
            · rw [hqueue, (h id r hget).1]
              exact ⟨mem_cons_self .., hget⟩
            · obtain ⟨hmem, hkept⟩ := hchosen.queued entry hentry
              rw [hqueue]
              exact ⟨mem_cons_of_mem _ hmem,
                Fewer.erase (fun _ _ hsame => hsame) _ _ hkept⟩
          · have htokens := hchosen.tokens
            rw [map_cons, sum_cons]
            omega
          · have hsequences := hchosen.sequences
            rw [length_cons]
            omega

theorem selection_chosen (h : Standing s) :
    Ensures selection s
      (fun chosen t =>
        Chosen s s.config.prefillSequenceCapacity s.config.prefillTokenCapacity chosen ∧ Fewer s t ∧
        (s.config.validate = .ok () → Pending s s.prefilling → chosen ≠ []))
      MissingRequest := by
  apply get_bind
  refine (eligiblePrefills_counts _ _).bind fun eligible t ht => ?_
  obtain ⟨rfl, hrows, hsome⟩ := ht
  refine (selectPrefill_chosen _ _ _ h (Nat.le_refl _)).imp fun chosen u hu => ?_
  obtain ⟨hchosen, hfewer, hnonempty⟩ := hu
  refine ⟨{ hchosen with sequences := hchosen.sequences.trans hrows }, hfewer, ?_⟩
  intro hvalid hpending
  have hcapacities := rejectIf_ok hvalid
  refine hnonempty (hsome (by omega) hpending) (by omega) ?_
  rwa [take_length]

theorem checkedSelect_eq {eligible : Nat} (scan : Nat) {selected slots tokenBudget : Nat}
    (h : Standing s) (hcount : selected + slots = eligible) :
    checkedSelect eligible scan selected slots tokenBudget s = selectPrefill scan slots tokenBudget s := by
  induction scan generalizing s selected slots tokenBudget with
  | zero => rfl
  | succ scan ih =>
    unfold checkedSelect selectPrefill
    have hbreak : (selected = eligible ∨ tokenBudget = 0) ↔ (slots = 0 ∨ tokenBudget = 0) := by omega
    simp only [hbreak]
    split
    · rfl
    · apply bind_congr_ensures
      change _ = _
      cases s.prefilling with
      | nil => rfl
      | cons id rest =>
        apply bind_congr_ensures
        apply bind_congr_ensures
        refine (expect_ensures _ _).mono (fun r t ht => ?_) fun _ _ _ => trivial
        obtain ⟨hget, rfl⟩ := ht
        rw [checkedPrefillable_eq (h id r hget).2, pure_bind]
        split
        · apply bind_congr_ensures
          apply Ensures.modify
          exact ih (h.keep rfl) hcount
        · rename_i havailable
          have hfits := prefillChunkTokens_fits (r := r)
            (fairShare_pos tokenBudget slots (by omega) (by omega)) havailable
          have hshare := fairShare_le tokenBudget slots (by omega)
          rw [checkedDivCeil_eq (by omega), pure_bind, checkedChunk_eq, pure_bind,
            checkedSub_eq (hfits.2.trans hshare), pure_bind, checkedSub_eq (by omega), pure_bind]
          apply bind_congr_ensures
          apply Ensures.modify
          apply bind_congr_ensures
          refine (takeRequest_ensures id _).mono (fun taken u hu => ?_) fun _ _ _ => trivial
          change EStateM.bind _ _ u = EStateM.bind _ _ u
          unfold EStateM.bind
          have hrest : Standing u := by
            rw [hu.2]
            exact h.erase rfl
          rw [ih hrest (by omega)]

theorem checkedSelection_eq (h : Standing s) : checkedSelection s = selection s := by
  apply bind_congr_ensures
  apply bind_congr_ensures
  refine (eligiblePrefills_counts _ _).mono (fun eligible t ht => ?_) fun _ _ _ => trivial
  obtain ⟨rfl, -⟩ := ht
  exact checkedSelect_eq _ h (Nat.zero_add eligible)

end

/-! ## A phase -/

/-- Two states of a request between which it has not been prefilled. -/
structure Alike (r r' : Request K φ) : Prop where
  id : r'.id = r.id
  tokens : r'.promptTokens = r.promptTokens
  position : r'.promptPosition = r.promptPosition
  target : r'.prefixTarget = r.prefixTarget
  retained : r'.prefixRetained = r.prefixRetained

/-- What a phase does to where a request stands. -/
structure Moves (r r' : Request K φ) : Prop where
  tokens : r'.promptTokens = r.promptTokens
  target : r'.prefixTarget = r.prefixTarget
  moved : r'.promptPosition = r.promptPosition ∨
    ∃ chunk, Fits r chunk ∧ r'.promptPosition = r.promptPosition + chunk

/-- Every request of `t` comes from the one of `s` under its id. -/
def Kept (s t : Scheduler n β φ C K) : Prop :=
  ∀ id r', t.requests.get id = some r' → ∃ r, s.requests.get id = some r ∧ r'.id = id ∧ Moves r r'

theorem Alike.refl (r : Request K φ) : Alike r r := ⟨rfl, rfl, rfl, rfl, rfl⟩

theorem Alike.trans {r'' : Request K φ} (h : Alike r r') (h' : Alike r' r'') : Alike r r'' :=
  ⟨h'.id.trans h.id, h'.tokens.trans h.tokens, h'.position.trans h.position,
    h'.target.trans h.target, h'.retained.trans h.retained⟩

theorem Alike.symm (h : Alike r r') : Alike r' r :=
  ⟨h.id.symm, h.tokens.symm, h.position.symm, h.target.symm, h.retained.symm⟩

theorem Alike.fits {chunk : Nat} (h : Alike r r') (hfits : Fits r' chunk) : Fits r chunk := by
  obtain ⟨-, htokens, hposition, htarget, hretained⟩ := h
  obtain ⟨hpos, hprefillable, hfinal, hnotpast⟩ := hfits
  unfold Request.prefillableTokens Request.remainingPromptTokens at hprefillable
  rw [htokens, hposition] at hprefillable hfinal
  rw [hretained, hposition, htarget] at hnotpast
  exact ⟨hpos, hprefillable, hfinal, hnotpast⟩

theorem Alike.moves (h : Alike r r') : Moves r r' :=
  ⟨h.tokens, h.target, .inl h.position⟩

section
variable {model : TextModel n β κ φ C R K} {input : TickInput φ} {s t : Scheduler n β φ C K}

theorem Kept.same {u : Scheduler n β φ C K} (h : Kept s t) (hsame : u.requests = t.requests) :
    Kept s u := by
  unfold Kept
  rw [hsame]
  exact h

theorem Fewer.kept (h : Fewer s t) (hstanding : Standing s) : Kept s t := by
  intro id r hget
  exact ⟨r, h id r hget, (hstanding id r (h id r hget)).1, (Alike.refl r).moves⟩

/-- A request that comes from `s` goes back into the map. -/
theorem Kept.put (h : Kept s t) (hget : s.requests.get r'.id = some r) (hmoves : Moves r r') :
    Kept s { t with requests := t.requests.insert r'.id r' } := by
  intro id other hother
  rw [BTreeMap.get_insert] at hother
  split at hother
  · rename_i hid
    subst hid
    cases hother
    exact ⟨r, hget, rfl, hmoves⟩
  · exact h id other hother

/-- A request that is held outside the map, as it is in `s`. -/
def Held (s : Scheduler n β φ C K) (r : Request K φ) : Prop :=
  ∃ r₀, s.requests.get r.id = some r₀ ∧ Alike r₀ r

theorem Held.alike (h : Held s r) (hsame : Alike r r') : Held s r' := by
  obtain ⟨r₀, hget, hfirst⟩ := h
  refine ⟨r₀, ?_, hfirst.trans hsame⟩
  rwa [hsame.id]

theorem alike_withoutFrontier (h : Alike r r') : Alike r (withoutFrontier r') :=
  h.trans ⟨rfl, rfl, rfl, rfl, rfl⟩

theorem warmupRequest_alike (row : Nat) (r : Request K φ) :
    Alike r (warmupRequest input row r) := by
  have hdflash2 : Alike r (followDflash2 input row r) := by
    unfold followDflash2
    split
    · exact alike_withoutFrontier ⟨rfl, rfl, rfl, rfl, rfl⟩
    · exact .refl r
  refine hdflash2.trans ?_
  unfold warmupRequest followMtp
  split
  · exact alike_withoutFrontier ⟨rfl, rfl, rfl, rfl, rfl⟩
  · exact .refl _

variable {E : Fault CudaError → Scheduler n β φ C K → Prop}

theorem warmupMtp_alike :
    Ensures (warmupMtp input selected) t
      (fun selected' u => u.requests = t.requests ∧ List.Forall₂ Alike selected selected') E := by
  have hrefl : List.Forall₂ Alike selected selected := forall₂_same.mpr fun r _ => .refl r
  unfold warmupMtp
  split
  · apply get_bind
    apply set_bind
    split
    · exact Ensures.pure ⟨rfl, hrefl⟩
    · refine Ensures.pure ⟨rfl, forall₂_map_right_iff.mpr (hrefl.imp fun r r' hsame => ?_)⟩
      exact alike_withoutFrontier (hsame.trans ⟨rfl, rfl, rfl, rfl, rfl⟩)
  · exact Ensures.pure ⟨rfl, hrefl⟩

/-- The checkpoint marks the target of a request only with retention disabled, or where
the sequence of the request stands at the target or is gone. -/
def Marks (model : TextModel n β κ φ C R K) (s : Scheduler n β φ C K) (r : Request K φ) : Prop :=
  model.prefixes.maxPrefixEntries = some 0 ∨
    ∃ sequenceId, r.sequenceId = some sequenceId ∧
      ∀ sequence, s.sequences.get sequenceId = some sequence →
        sequence.state.position = r.prefixTarget

theorem retainRequestCheckpoint_marks (r : Request K φ) :
    Ensures (retainRequestCheckpoint model input r) s
      (fun r' t => t.requests = s.requests ∧
        (r' = r ∨ r' = { r with prefixRetained := true } ∧ Marks model s r))
      (fun _ _ => False) := by
  unfold retainRequestCheckpoint
  split
  · exact ⟨rfl, .inl rfl⟩
  · split
    · rename_i hdisabled
      exact ⟨rfl, .inr ⟨rfl, .inl hdisabled⟩⟩
    · split
      · exact ⟨rfl, .inl rfl⟩
      · rename_i sequenceId hid
        apply get_bind
        split
        · rename_i hnone
          refine ⟨rfl, .inr ⟨rfl, .inr ⟨sequenceId, hid, fun sequence hsome => ?_⟩⟩⟩
          rw [hnone] at hsome
          cases hsome
        · rename_i sequence hsequence
          split
          · exact ⟨rfl, .inl rfl⟩
          · rename_i hposition
            have hmarks : Marks model s r := by
              refine .inr ⟨sequenceId, hid, fun other hother => ?_⟩
              rw [hsequence] at hother
              cases hother
              exact not_not.mp hposition
            split
            · exact ⟨rfl, .inr ⟨rfl, hmarks⟩⟩
            · split
              · exact ⟨rfl, .inr ⟨rfl, hmarks⟩⟩
              · split
                · exact ⟨rfl, .inr ⟨rfl, hmarks⟩⟩
                · exact ⟨rfl, .inr ⟨rfl, hmarks⟩⟩

theorem held_alike {selected' : List (Request K φ)} (hsame : List.Forall₂ Alike selected selected')
    (hheld : List.Forall₂ (fun r chunk => Held s r ∧ Fits r chunk) selected chunks) :
    List.Forall₂ (fun r chunk => Held s r ∧ Fits r chunk) selected' chunks := by
  induction hsame generalizing chunks with
  | nil => exact hheld
  | cons hfirst _ ih =>
    cases hheld with
    | cons hentry hrest => exact .cons ⟨hentry.1.alike hfirst, hfirst.symm.fits hentry.2⟩ (ih hrest)

theorem allocatePrefillDflash2_kept {needed : Bool} (h : Kept s t) :
    Ensures (allocatePrefillDflash2 input needed) t (fun _ => Kept s) (OnFailure (Kept s)) := by
  apply get_bind
  split
  · refine SchedulerLedger.reach_bind ?_ fun _ => h
    exact h.same rfl
  · exact h

theorem settlePrefills_kept {held : List (Request K φ × Nat)} (h : Kept s t)
    (hheld : ∀ entry ∈ held, Held s entry.1 ∧ Fits entry.1 entry.2) :
    Ensures (settlePrefills model input held) t (fun _ => Kept s) (OnFailure (Kept s)) := by
  induction held generalizing t with
  | nil => exact h
  | cons entry rest ih =>
    obtain ⟨r, chunk⟩ := entry
    obtain ⟨⟨⟨r₀, hget, hsame⟩, hfits⟩, hrest⟩ := forall_mem_cons.mp hheld
    refine Ensures.bind ((retainRequestCheckpoint_marks _).mono (fun _ _ hmarks => hmarks)
      fun _ _ hnever => hnever.elim) fun r' u hu => ?_
    have hkept : Kept s u := h.same hu.1
    have hfirst := hsame.fits hfits
    have hmoved : r'.id = r.id ∧ Moves r₀ r' := by
      obtain rfl | ⟨rfl, -⟩ := hu.2
      · exact ⟨rfl, hsame.tokens, hsame.target, .inr ⟨chunk, hfirst, by rw [← hsame.position]⟩⟩
      · exact ⟨rfl, hsame.tokens, hsame.target, .inr ⟨chunk, hfirst, by rw [← hsame.position]⟩⟩
    apply modify_bind
    apply modify_bind
    refine ih (Kept.put (hkept.same rfl) ?_ hmoved.2) hrest
    rwa [hmoved.1]

/-- An error hands the selected requests back as they were. -/
theorem requeuePrefills_kept (h : Kept s t) (hheld : ∀ r ∈ selected, Held s r) :
    Ensures (selected.forM requeuePrefill) t (fun _ => Kept s) E := by
  have hloop : Ensures (selected.forM requeuePrefill) t
      (fun _ u => Kept s u ∧ ∀ r ∈ ([] : List (Request K φ)), Held s r) E := by
    refine Ensures.forM (I := fun rest u => Kept s u ∧ ∀ r ∈ rest, Held s r)
      (fun r rest u hu => ?_) ⟨h, hheld⟩
    obtain ⟨⟨r₀, hget, hsame⟩, hrest⟩ := forall_mem_cons.mp hu.2
    apply modify_bind
    exact ⟨Kept.put (hu.1.same rfl) hget hsame.moves, hrest⟩
  exact hloop.imp fun _ _ hu => hu.1

theorem finishPrefill_kept {warmup : Bool} {result : Except CudaError Unit} (h : Kept s t)
    (hheld : List.Forall₂ (fun r chunk => Held s r ∧ Fits r chunk) selected chunks) :
    Ensures (finishPrefill model input warmup selected chunks result) t (fun _ => Kept s)
      (OnFailure (Kept s)) := by
  cases result with
  | error e =>
    have hback : ∀ r ∈ selected.reverse, Held s r := by
      intro r hr
      obtain ⟨i, hi, rfl⟩ := mem_iff_getElem.mp (mem_reverse.mp hr)
      exact ((forall₂_iff_get.mp hheld).2 i hi (hheld.length_eq ▸ hi)).1
    exact (requeuePrefills_kept h hback).bind fun _ u hu => hu
  | ok _ =>
    have hwarmed : List.Forall₂ (fun r chunk => Held s r ∧ Fits r chunk)
        (selected.zipIdx.map fun entry => warmupRequest input entry.2 entry.1) chunks := by
      refine held_alike ?_ hheld
      rw [forall₂_iff_get]
      refine ⟨by simp, fun i hi hi' => ?_⟩
      simp only [get_eq_getElem, getElem_map, getElem_zipIdx]
      exact warmupRequest_alike _ _
    refine CursorPrefill.reachWhen_bind ?_ h
    apply settlePrefills_kept h
    intro entry hentry
    exact forall₂_zip hwarmed hentry

theorem prefillSelected_kept {chosen : List (Request K φ)} (h : Kept s t)
    (hheld : List.Forall₂ (fun r chunk => Held s r ∧ Fits r chunk) chosen chunks) :
    Ensures (prefillSelected model input chosen chunks) t (fun _ => Kept s)
      (OnFailure (Kept s)) := by
  refine warmupMtp_alike.bind fun selected u hu => ?_
  have hselected := held_alike hu.2 hheld
  have hkept : Kept s u := h.same hu.1
  refine Ensures.bind (allocatePrefillDflash2_kept hkept) fun _ v hv => ?_
  refine attempt_bind (fun ids _ => ?_) hv
  apply get_bind
  refine attempt_bind (fun leased _ => ?_) hv
  apply get_bind
  apply set_bind
  exact finishPrefill_kept (hv.same rfl) hselected

theorem runPrefillPhase_kept (h : Standing s) :
    Ensures (runPrefillPhase model input) s (fun _ => Kept s) (OnFailure (Kept s)) := by
  have hphase : runPrefillPhase model input = (selection >>= fun chosen =>
      if chosen.isEmpty then pure ()
      else do
        report fun tick =>
          { tick with scheduled := tick.scheduled ++ chosen.map fun entry => entry.1.id }
        prefillSelected model input (chosen.map Prod.fst) (chosen.map Prod.snd)) := by
    unfold runPrefillPhase selection
    simp only [bind_assoc]
  rw [hphase]
  refine ((selection_chosen h).mono (fun _ _ hu => hu) fun fault _ hmissing => ?_).bind
    fun chosen u hu => ?_
  · rw [hmissing]
    exact trivial
  · have hkept := hu.2.1.kept h
    split
    · exact hkept
    · apply modify_bind
      refine prefillSelected_kept (hkept.same rfl) ?_
      rw [forall₂_map_left_iff, forall₂_map_right_iff, forall₂_same]
      intro entry hentry
      exact ⟨⟨entry.1, (hu.1.queued entry hentry).2, .refl _⟩, hu.1.fits entry hentry⟩

end

/-! ## From phase to phase -/

section
variable {model : TextModel n β κ φ C R K}

/-- The call returns in `t` or fails in `t`. -/
def Ends (call : Scheduling n β φ C K Unit) (s t : Scheduler n β φ C K) : Prop :=
  call s = .ok () t ∨ ∃ e, call s = .error (.failed e) t

theorem Ends.of_ensures {call : Scheduling n β φ C K Unit} {s t : Scheduler n β φ C K}
    {P : Scheduler n β φ C K → Prop} (hends : Ends call s t)
    (h : Ensures call s (fun _ => P) (OnFailure P)) : P t := by
  unfold Ensures at h
  obtain hreturns | ⟨e, hfails⟩ := hends
  · rw [hreturns] at h
    exact h
  · rw [hfails] at h
    exact h

/-- The request `id` over phases of any scheduler: `seen` is what it was before each of
them. Between two phases only what the prefill does not look at changes. -/
inductive Prefills (model : TextModel n β κ φ C R K) (id : Nat) (first : Request K φ) :
    List (Request K φ) → Request K φ → Prop
  | start : Prefills model id first [] first
  | other {seen : List (Request K φ)} {r r' : Request K φ} (before : Prefills model id first seen r)
      (alike : Alike r r') : Prefills model id first seen r'
  | phase {seen : List (Request K φ)} {r r' : Request K φ} {s t : Scheduler n β φ C K}
      {input : TickInput φ} (before : Prefills model id first seen r) (standing : Standing s)
      (queued : s.requests.get id = some r) (ends : Ends (runPrefillPhase model input) s t)
      (kept : t.requests.get id = some r') : Prefills model id first (seen ++ [r]) r'

/-- The prompt and the target of a request do not change, and as long as the request has
not stood at the target it is in front of it. -/
structure Approaches (first : Request K φ) (seen : List (Request K φ)) (last : Request K φ) :
    Prop where
  tokens : last.promptTokens = first.promptTokens
  target : last.prefixTarget = first.prefixTarget
  before : last.promptPosition < first.prefixTarget ∨
    ∃ r ∈ seen ++ [last], r.promptPosition = first.prefixTarget

/-- The target of a request is retained only where the request has reached it. -/
def RetainedAtTarget (seen : List (Request K φ)) : Prop :=
  ∀ r ∈ seen, r.prefixRetained = true → r.prefixTarget ≤ r.promptPosition

theorem Approaches.phase (h : Approaches first seen r) (hmoves : Moves r r')
    (hretained : r.prefixRetained = true → r.prefixTarget ≤ r.promptPosition) :
    Approaches first (seen ++ [r]) r' := by
  refine ⟨hmoves.tokens.trans h.tokens, hmoves.target.trans h.target, ?_⟩
  obtain hbefore | ⟨other, hmem, hat⟩ := h.before
  · have hunretained : r.prefixRetained = false := by
      by_contra hmarked
      have hreached := hretained (Bool.eq_true_of_not_eq_false hmarked)
      rw [h.target] at hreached
      omega
    have hposition : r'.promptPosition ≤ first.prefixTarget := by
      obtain hstays | ⟨chunk, hfits, hmoved⟩ := hmoves.moved
      · omega
      · have hclipped := hfits.target hunretained (by rw [h.target]; exact hbefore)
        rw [h.target] at hclipped
        omega
    obtain hbefore' | hat := hposition.lt_or_eq
    · exact .inl hbefore'
    · exact .inr ⟨r', by simp, hat⟩
  · exact .inr ⟨other, mem_append_left _ hmem, hat⟩

theorem Prefills.approaches {id : Nat} {last : Request K φ}
    (h : Prefills model id first seen last) (hfirst : first.promptPosition ≤ first.prefixTarget)
    (hretained : RetainedAtTarget seen) : Approaches first seen last := by
  induction h with
  | start =>
    refine ⟨rfl, rfl, ?_⟩
    obtain hbefore | hat := hfirst.lt_or_eq
    · exact .inl hbefore
    · exact .inr ⟨first, by simp, hat⟩
  | @other seen r r' before alike ih =>
    obtain ⟨htokens, htarget, hreached⟩ := ih hretained
    refine ⟨alike.tokens.trans htokens, alike.target.trans htarget, ?_⟩
    obtain hbefore | ⟨reached, hmem, hat⟩ := hreached
    · exact .inl (by rw [alike.position]; exact hbefore)
    · obtain hmem | hmem := mem_append.mp hmem
      · exact .inr ⟨reached, mem_append_left _ hmem, hat⟩
      · obtain rfl := mem_singleton.mp hmem
        exact .inr ⟨r', by simp, alike.position.trans hat⟩
  | @phase seen r r' s t input before standing queued ends kept ih =>
    have hseen : RetainedAtTarget seen := fun other hmem => hretained other (mem_append_left _ hmem)
    obtain ⟨r₀, hget, -, hmoves⟩ := ends.of_ensures (runPrefillPhase_kept standing) id r' kept
    obtain rfl : r = r₀ := Option.some.inj (queued.symm.trans hget)
    exact (ih hseen).phase hmoves (hretained r (by simp))

/-- A request that has prefilled its prompt has stood at its prefix target. -/
def ReachesTarget (first : Request K φ) (seen : List (Request K φ)) (last : Request K φ) : Prop :=
  first.promptPosition ≤ first.prefixTarget → first.prefixTarget < first.promptTokens.length →
    last.prefillableTokens = 0 → ∃ r ∈ seen ++ [last], r.promptPosition = first.prefixTarget

theorem Approaches.reaches {last : Request K φ} (h : Approaches first seen last) :
    ReachesTarget first seen last := by
  intro _ hwithin hended
  obtain hbefore | hreached := h.before
  · unfold Request.prefillableTokens Request.remainingPromptTokens at hended
    rw [h.tokens] at hended
    exact ⟨last, by simp, by omega⟩
  · exact hreached

end

theorem retainedPromptPrefixTokens_lt {promptTokens : Nat} (pageTokens : Nat) (h : 0 < promptTokens) :
    retainedPromptPrefixTokens promptTokens pageTokens < promptTokens := by
  unfold retainedPromptPrefixTokens
  split
  · exact h
  · have hle := Nat.div_mul_le_self (promptTokens - 1) pageTokens
    omega

/-- Every selection is within its capacities and its requests, with arithmetic that never
leaves `usize`. A request whose target is retained only where it has reached it stands at
its target before its prompt is prefilled, and the target is marked elsewhere only with
retention disabled, or where the sequence of the request does not stand with it. -/
theorem prefill_selection_laws :
    (∀ s : Scheduler n β φ C K, s.config.validate = .ok () → Standing s →
      checkedSelection s = selection s ∧
      Ensures selection s
        (fun chosen _ =>
          Chosen s s.config.prefillSequenceCapacity s.config.prefillTokenCapacity chosen ∧
          (Pending s s.prefilling → chosen ≠ [])) MissingRequest) ∧
    (∀ (model : TextModel n β κ φ C R K) (id : Nat) (seen : List (Request K φ))
      (first last : Request K φ), Prefills model id first seen last → RetainedAtTarget seen →
        ReachesTarget first seen last) ∧
    (∀ (model : TextModel n β κ φ C R K) (input : TickInput φ) (r : Request K φ)
      (s : Scheduler n β φ C K), Ensures (retainRequestCheckpoint model input r) s
        (fun r' _ => r'.prefixRetained = true → r.prefixRetained = true ∨ Marks model s r)
        (fun _ _ => False)) ∧
    ∀ promptTokens pageTokens : Nat, 0 < promptTokens →
      retainedPromptPrefixTokens promptTokens pageTokens < promptTokens := by
  refine ⟨fun s hvalid hstanding => ⟨checkedSelection_eq hstanding, ?_⟩, ?_, ?_, ?_⟩
  · exact (selection_chosen hstanding).imp fun chosen t ht => ⟨ht.1, ht.2.2 hvalid⟩
  · intro model id seen first last hphases hretained hfirst
    exact (hphases.approaches hfirst hretained).reaches hfirst
  · intro model input r s
    refine (retainRequestCheckpoint_marks r).imp fun r' t ht hmarked => ?_
    obtain rfl | ⟨-, hmarks⟩ := ht.2
    · exact .inl hmarked
    · exact .inr hmarks
  · exact fun promptTokens pageTokens h => retainedPromptPrefixTokens_lt pageTokens h

/-! ## A prompt behind its target -/

variable (maxPrefixEntries : Option Nat)

/-- The small model with a cache that keeps at most so many prefixes. -/
def retainingModel : TextModel 0 Unit Nat Nat (Nat → CacheEntry Nat) (Nat × Nat) Unit :=
  { steadyModel with prefixes := { singleCache with maxPrefixEntries := maxPrefixEntries } }

/-- A tick input in which nothing fails. -/
def quiet : TickInput Nat :=
  ⟨fun _ => false, none, none, none, fun _ => ⟨0, 0⟩, fun _ => 0, fun _ => false⟩

/-- What a call that returns leaves of the scheduler. -/
def returned {α : Type} (call : Scheduling n β φ C K α) (s : Scheduler n β φ C K) :
    Option (Scheduler n β φ C K) :=
  match call s with
  | .ok _ t => some t
  | .error _ _ => none

/-- A scheduler that has admitted one prompt of 140 tokens, for prefills of 100. -/
def admitted :
    Option (Scheduler 0 Unit Nat (Nat → CacheEntry Nat) Unit) := do
  let s ← (Scheduler.new ⟨1, 1, 1, 100, 2, 256, 0⟩ emptyCache).toOption
  let model := retainingModel maxPrefixEntries
  let s ← returned (addRequest model (List.replicate 140 1) greedy none) s
  returned (admitWaiting model quiet) s

variable (s : Scheduler 0 Unit Nat (Nat → CacheEntry Nat) Unit)

/-- A phase of that scheduler. -/
def prefilled : Option (Scheduler 0 Unit Nat (Nat → CacheEntry Nat) Unit) :=
  returned (runPrefillPhase (retainingModel maxPrefixEntries) quiet) s

theorem ends_of_returned {call : Scheduling n β φ C K Unit} {s t : Scheduler n β φ C K}
    (h : returned call s = some t) : Ends call s t := by
  unfold returned at h
  split at h
  · rename_i hok
    cases h
    exact .inl hok
  · cases h

theorem standing_of_entries {s : Scheduler n β φ C K} (h : ∀ entry ∈ s.requests.entries,
      entry.2.id = entry.1 ∧ entry.2.promptPosition ≤ entry.2.promptTokens.length) : Standing s :=
  fun id r hget => h (id, r) (BTreeMap.mem_entries_iff.mpr hget)

/-- Where the prompt of a request stands. -/
structure Place where
  position : Nat
  target : Nat
  retained : Bool
  length : Nat
deriving DecidableEq

def placeOf (r : Request Unit Nat) : Place :=
  ⟨r.promptPosition, r.prefixTarget, r.prefixRetained, r.promptTokens.length⟩

/-- Whether the scheduler is standing, and the place of its request. -/
def placed : Bool × Option Place :=
  (s.requests.entries.all fun entry =>
    entry.2.id = entry.1 ∧ entry.2.promptPosition ≤ entry.2.promptTokens.length,
    (s.requests.get 0).map placeOf)

/-- The places of the request before, between and behind two phases. -/
def twoPhases : Option (List (Bool × Option Place)) := do
  let s ← admitted maxPrefixEntries
  let t ← prefilled maxPrefixEntries s
  let u ← prefilled maxPrefixEntries t
  return [placed s, placed t, placed u]

theorem placed_eq {s : Scheduler 0 Unit Nat (Nat → CacheEntry Nat) Unit} {place : Place}
    (h : placed s = (true, some place)) :
    Standing s ∧ ∃ r, s.requests.get 0 = some r ∧ placeOf r = place := by
  obtain ⟨hall, hplace⟩ := Prod.mk.inj h
  refine ⟨standing_of_entries fun entry hentry => ?_, Option.map_eq_some_iff.mp hplace⟩
  simpa using all_eq_true.mp hall entry hentry

theorem two_phases (first second last : Place) (h : twoPhases maxPrefixEntries =
      some [(true, some first), (true, some second), (true, some last)]) :
    ∃ s, admitted maxPrefixEntries = some s ∧ Standing s ∧
      ∃ r r' r'', s.requests.get 0 = some r ∧
        Prefills (retainingModel maxPrefixEntries) 0 r [r, r'] r'' ∧
        placeOf r = first ∧ placeOf r' = second ∧ placeOf r'' = last := by
  unfold twoPhases at h
  obtain ⟨s, hs, h⟩ := Option.bind_eq_some_iff.mp h
  obtain ⟨t, ht, h⟩ := Option.bind_eq_some_iff.mp h
  obtain ⟨u, hu, h⟩ := Option.bind_eq_some_iff.mp h
  obtain ⟨hfirst, hsecond, hlast⟩ : placed s = _ ∧ placed t = _ ∧ placed u = _ := by
    simpa using h
  obtain ⟨hstanding, r, hget, hplace⟩ := placed_eq hfirst
  obtain ⟨hstanding', r', hget', hplace'⟩ := placed_eq hsecond
  obtain ⟨-, r'', hget'', hplace''⟩ := placed_eq hlast
  have hphase : Prefills (retainingModel maxPrefixEntries) 0 r ([] ++ [r]) r' :=
    .phase .start hstanding hget (ends_of_returned ht) hget'
  exact ⟨s, hs, hstanding, r, r', r'', hget,
    hphase.phase hstanding' hget' (ends_of_returned hu) hget'', hplace, hplace', hplace''⟩

/-- Two phases with retention: the second chunk ends at the target. -/
theorem two_chunks_reach_target : (∃ s, admitted none = some s ∧ checkedSelection s = selection s) ∧
    ∃ r r' r'' : Request Unit Nat, Prefills (retainingModel none) 0 r [r, r'] r'' ∧
      ReachesTarget r [r, r'] r'' ∧ placeOf r'' = ⟨128, 128, true, 140⟩ := by
  obtain ⟨s, hs, hstanding, r, r', r'', -, hphases, hplace, hplace', hplace''⟩ :=
    two_phases none ⟨0, 128, false, 140⟩ ⟨100, 128, false, 140⟩ ⟨128, 128, true, 140⟩
      (by decide +kernel)
  have hconfig : (admitted none).map Scheduler.config = some ⟨1, 1, 1, 100, 2, 256, 0⟩ := by
    decide +kernel
  have hvalid : s.config.validate = .ok () := by
    rw [hs] at hconfig
    rw [Option.some.inj hconfig]
    rfl
  have hretained : RetainedAtTarget [r, r'] := by
    have hr : r.prefixRetained = false := congrArg Place.retained hplace
    have hr' : r'.prefixRetained = false := congrArg Place.retained hplace'
    simp [RetainedAtTarget, hr, hr']
  have hlaws := @prefill_selection_laws 0 Unit Nat Nat (Nat → CacheEntry Nat) (Nat × Nat) Unit
  exact ⟨⟨s, hs, (hlaws.1 s hvalid hstanding).1⟩, r, r', r'', hphases,
    hlaws.2.1 _ _ _ _ _ hphases hretained, hplace''⟩

/-- With retention disabled the first chunk marks the target, and the second goes past. -/
theorem disabled_retention_passes_target :
    ¬ ∀ (model : TextModel 0 Unit Nat Nat (Nat → CacheEntry Nat) (Nat × Nat) Unit) (id : Nat)
      (seen : List (Request Unit Nat)) (first last : Request Unit Nat),
      Prefills model id first seen last → first.prefixRetained = false →
        ReachesTarget first seen last := by
  intro hall
  obtain ⟨-, -, -, r, r', r'', -, hphases, hplace, hplace', hplace''⟩ :=
    two_phases (some 0) ⟨0, 128, false, 140⟩ ⟨100, 128, true, 140⟩ ⟨139, 128, true, 140⟩
      (by decide +kernel)
  have hreached := hall _ _ _ _ _ hphases (congrArg Place.retained hplace)
  simp only [placeOf, Place.mk.injEq] at hplace hplace' hplace''
  unfold ReachesTarget Request.prefillableTokens Request.remainingPromptTokens at hreached
  obtain ⟨reached, hmem, hat⟩ := hreached (by omega) (by omega) (by omega)
  simp only [cons_append, nil_append, mem_cons, not_mem_nil, or_false] at hmem
  obtain rfl | rfl | rfl := hmem
  · omega
  · omega
  · omega

end Eider.Guarantees.PrefillSelection
