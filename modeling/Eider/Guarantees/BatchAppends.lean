import Eider.Source.AppendBatch

/-!
Failing calls of the batched appends of Gemma 4, Step 3.7 and Laguna, and of `forward_token` of
Gemma 4. Each reserves every row, runs, and commits every row.

A reservation that fails and a forward pass that fails are taken back. A commit that fails is
not: its row keeps the reservation, so do the rows behind it, and the rows before it have
advanced. An abort that fails leaves the reservations from its row on open. `Late` names the two
cases, and `Settled.atomic_iff` shows that nothing else does it.
-/
namespace Eider.Guarantees.BatchAppends
open Lib Lib.Faults Source.AppendBatch List
open Source (CudaError CacheEntry checkEach tokenRows length_tokenRows)

variable {κ : Type} {row : Row κ}

/-! ## The property -/

/-- No reservation of the row is open, and state and cache stand at one position. -/
structure Settled (row : Row κ) : Prop where
  pending : row.sequence.entry.pending = none
  position : row.sequence.entry.rows.length = row.sequence.position

/-- The row advanced by its tokens. -/
def Advanced (before after : Row κ) : Prop :=
  after.sequence.position = before.sequence.position + before.tokenIds.length

/-- The row did not advance. -/
def Unmoved (before after : Row κ) : Prop :=
  after.sequence.position = before.sequence.position

/-- An error settles every row and advances all or none, and success advances every row. -/
def Atomic (call : Appending κ Unit) (rows : List (Row κ)) : Prop :=
  match call rows with
  | .ok () after => (∀ row ∈ after, Settled row) ∧ List.Forall₂ Advanced rows after
  | .error _ after => (∀ row ∈ after, Settled row) ∧
      (List.Forall₂ Advanced rows after ∨ List.Forall₂ Unmoved rows after)

/-- A commit fails, or an abort fails behind a check that rejects the batch. -/
def Late (checks : Except CudaError Unit) (rows : List (Row κ)) (failing : Option Call) : Prop :=
  (checks = .ok () ∧ ∃ row < rows.length, failing = some (.commitAppend row)) ∨
    (checks ≠ .ok () ∧ ∃ row < rows.length, failing = some (.abortAppend row))

/-- Rows of which one is not settled. -/
def Unsettled (rows : List (Row κ)) : Prop := ∃ row ∈ rows, ¬ Settled row

/-- A call that leaves its rows as they were unless a late cause fails it. -/
theorem atomic_iff {call : Appending κ Unit} {rows : List (Row κ)} {Wrong : Prop}
    (hidle : ∀ row ∈ rows, Settled row)
    (h : Ensures call rows
      (fun _ after => ((∀ row ∈ after, Settled row) ∧ List.Forall₂ Advanced rows after) ∧ ¬ Wrong)
      fun _ after => (after = rows ∧ ¬ Wrong) ∨ (Unsettled after ∧ Wrong)) :
    Atomic call rows ↔ ¬ Wrong := by
  unfold Ensures at h
  unfold Atomic
  cases hrun : call rows with
  | ok u after =>
    rw [hrun] at h
    exact ⟨fun _ => h.2, fun _ => h.1⟩
  | error e after =>
    rw [hrun] at h
    obtain ⟨rfl, hright⟩ | ⟨⟨row, hrow, hbroken⟩, hwrong⟩ := h
    · refine ⟨fun _ => hright, fun _ => ⟨hidle, .inr ?_⟩⟩
      exact forall₂_same.mpr fun row _ => rfl
    · exact ⟨fun hatomic => absurd (hatomic.1 row hrow) hbroken, fun hnot => absurd hwrong hnot⟩

/-! ## One row -/

/-- An open reservation that an abort takes back. -/
structure Open (before after : Row κ) : Prop where
  abort : after.abort = before
  pending : after.sequence.entry.pending ≠ none

theorem Open.not_settled {before after : Row κ} (h : Open before after) : ¬ Settled after :=
  fun hsettled => h.pending hsettled.pending

/-- The row behind the layers. -/
def passed (device : Device κ) (row : Row κ) : Row κ := row.reserve.pass device

/-- The row behind its commit. -/
def committed (device : Device κ) (row : Row κ) : Row κ := (passed device row).commit

theorem Settled.mapEntry_eq (h : Settled row) (f : CacheEntry κ → CacheEntry κ)
    (hrows : (f row.sequence.entry).rows = row.sequence.entry.rows)
    (hpending : (f row.sequence.entry).pending = none) : row.mapEntry f = row := by
  obtain ⟨tokenIds, modelId, position, maxTokens, rows, pending⟩ := row
  obtain rfl : pending = none := h.pending
  simp only [Row.mapEntry] at hrows hpending ⊢
  generalize f ⟨rows, none⟩ = entry at hrows hpending ⊢
  obtain ⟨rows', pending'⟩ := entry
  cases hrows
  cases hpending
  rfl

theorem Settled.reserve (h : Settled row) : Open row row.reserve where
  abort := h.mapEntry_eq (fun entry => entry.reserve.abort) rfl rfl
  pending := nofun

theorem Settled.passed (h : Settled row) (device : Device κ) : Open row (passed device row) where
  abort := h.mapEntry_eq
    (fun entry => (entry.reserve.write (device.write entry.reserve.rows row.tokenIds)).abort)
    rfl rfl
  pending := nofun

theorem Settled.committed (h : Settled row) (device : Device κ) :
    Settled (committed device row) where
  pending := rfl
  position := by
    change (row.sequence.entry.rows ++
      (device.write row.sequence.entry.rows row.tokenIds).take row.tokenIds.length).length =
        row.sequence.position + row.tokenIds.length
    rw [length_append, length_take, device.length_write, Nat.min_self, h.position]

/-! ## The loops -/

section
variable (family : Family) (device : Device κ) (fails : Call → Bool)
variable {rows : List (Row κ)}

theorem onRows_ensures (loop : List (Row κ) → List (Row κ) × Except CudaError Unit)
    {P : List (Row κ) → Prop} {E : CudaError → List (Row κ) → Prop}
    (h : match loop rows with
      | (after, .ok ()) => P after
      | (after, .error e) => E e after) : Ensures (onRows loop) rows (fun _ => P) E := by
  unfold Ensures onRows
  generalize loop rows = outcome at h ⊢
  obtain ⟨after, result⟩ := outcome
  cases result with
  | ok _ => exact h
  | error e => exact h

theorem abortRows_cases {after : List (Row κ)} (h : List.Forall₂ Open rows after) :
    (abortRows family fails after = (rows, .ok ()) ∧
        ∀ i < rows.length, fails (.abortAppend i) = false) ∨
      ((abortRows family fails after).2 = .error (cacheError family "abort_append") ∧
        Unsettled (abortRows family fails after).1 ∧
        ∃ i < rows.length, fails (.abortAppend i) = true) := by
  have hback : after.map Row.abort = rows := by
    induction h with
    | nil => rfl
    | cons hhead _ ih => rw [map_cons, hhead.abort, ih]
  have hopen : ∀ row ∈ after, ¬ Settled row := by
    clear hback
    induction h with
    | nil => exact nofun
    | cons hhead _ ih => exact forall_mem_cons.mpr ⟨hhead.not_settled, ih⟩
  have hsweep := Ensures.sweep_failAt id id (fun row => fails (.abortAppend row))
    (cacheError family "abort_append") id Row.abort after (fun _ _ => True)
    (fun _ _ => trivial) (fun _ _ => trivial) fun _ _ => trivial
  have hfailed := sweepFrom_failAt_failed id id (fun row => fails (.abortAppend row))
    (cacheError family "abort_append") id Row.abort (cacheError family "abort_append") after 0
  unfold Ensures sweep at hsweep
  unfold abortRows
  generalize sweepFrom _ _ _ _ after = outcome at hsweep hfailed ⊢
  obtain ⟨rows', result⟩ := outcome
  rw [h.length_eq]
  cases result with
  | ok _ =>
    obtain ⟨rfl, hclear⟩ := hsweep
    exact .inl ⟨by rw [hback], hclear⟩
  | error e =>
    obtain ⟨-, rfl, hhit⟩ := hsweep
    obtain ⟨row, hrow, hmem⟩ := hfailed rfl
    exact .inr ⟨rfl, ⟨row, hmem, hopen row hrow⟩, hhit⟩

variable {failing : Option Call}

theorem reserveRows_cases (kept rows : List (Row κ)) (index : Nat)
    (hidle : ∀ row ∈ kept ++ rows, Settled row) :
    (reserveRows family (only failing) index (kept.map Row.reserve) rows =
        ((kept ++ rows).map Row.reserve, .ok ()) ∧
        ∀ i < rows.length, only failing (.reserveAppend (index + i)) = false) ∨
      (∃ e, reserveRows family (only failing) index (kept.map Row.reserve) rows =
        (kept ++ rows, .error e)) ∧
        ∃ i < rows.length, failing = some (.reserveAppend (index + i)) := by
  induction rows generalizing kept index with
  | nil => exact .inl ⟨by rw [append_nil]; rfl, nofun⟩
  | cons row rows ih =>
    rw [reserveRows]
    cases hfails : only failing (.reserveAppend index) with
    | true =>
      have hcall := only_eq_true.mp hfails
      have hopen : List.Forall₂ Open kept (kept.map Row.reserve) := by
        rw [forall₂_map_right_iff, forall₂_same]
        exact fun row hrow => (hidle row (mem_append_left _ hrow)).reserve
      obtain ⟨hback, -⟩ | ⟨-, -, i, -, hi⟩ := abortRows_cases family (only failing) hopen
      · refine .inr ⟨⟨cacheError family "reserve_append", ?_⟩, 0, Nat.succ_pos _, hcall⟩
        simp only [if_true, hback]
        rfl
      · rw [only_eq_true, hcall] at hi
        cases hi
    | false =>
      have hrest := ih (kept ++ [row]) (index + 1) (by rwa [append_assoc])
      rw [map_append, append_assoc] at hrest
      refine hrest.imp ?_ ?_
      · rintro ⟨heq, hclear⟩
        refine ⟨heq, fun i hi => ?_⟩
        cases i with
        | zero => exact hfails
        | succ i =>
          rw [show index + (i + 1) = index + 1 + i by omega]
          exact hclear i (Nat.lt_of_succ_lt_succ hi)
      · rintro ⟨heq, i, hi, hcall⟩
        refine ⟨heq, i + 1, Nat.succ_lt_succ hi, ?_⟩
        rwa [show index + (i + 1) = index + 1 + i by omega]

section
variable (hidle : ∀ row ∈ rows, Settled row) {checks : Except CudaError Unit}
variable {forward : Appending κ Unit}
include hidle

theorem reserve_ensures :
    Ensures (onRows (reserveRows family (only failing) 0 [])) rows
      (fun _ after => after = rows.map Row.reserve)
      (fun _ after => after = rows ∧ ∃ i, failing = some (.reserveAppend i)) := by
  apply onRows_ensures
  obtain ⟨heq, -⟩ | ⟨⟨e, heq⟩, i, -, hcall⟩ := reserveRows_cases family [] rows 0 hidle
  · rw [map_nil] at heq
    rw [heq]
    rfl
  · rw [map_nil] at heq
    rw [heq]
    exact ⟨rfl, _, hcall⟩

theorem commitRows_ensures :
    Ensures (commitRows family fails) (rows.map (passed device))
      (fun _ after => after = rows.map (committed device) ∧
        ∀ i < rows.length, fails (.commitAppend i) = false)
      (fun _ after => Unsettled after ∧ ∃ i < rows.length, fails (.commitAppend i) = true) := by
  have hsweep := Ensures.sweep_failAt id id (fun row => fails (.commitAppend row))
    (cacheError family "commit_append") id Row.commit (rows.map (passed device))
    (fun _ _ => True) (fun _ _ => trivial) (fun _ _ => trivial) fun _ _ => trivial
  have hfailed := sweepFrom_failAt_failed id id (fun row => fails (.commitAppend row))
    (cacheError family "commit_append") id Row.commit (cacheError family "commit_append")
    (rows.map (passed device)) 0
  unfold Ensures sweep at *
  unfold commitRows sweep
  generalize sweepFrom _ _ _ _ (rows.map (passed device)) = outcome at hsweep hfailed ⊢
  obtain ⟨after, result⟩ := outcome
  rw [length_map] at hsweep
  cases result with
  | ok _ => exact ⟨by rw [hsweep.1, map_map]; rfl, hsweep.2⟩
  | error e =>
    obtain ⟨-, rfl, hhit⟩ := hsweep
    obtain ⟨row, hrow, hmem⟩ := hfailed rfl
    obtain ⟨before, hbefore, rfl⟩ := mem_map.mp hrow
    exact ⟨⟨_, hmem, ((hidle before hbefore).passed device).not_settled⟩, hhit⟩

/-- The forward pass on reserved rows: it leaves the passed rows, or fails with every
reservation still open. -/
def Forwards (checks : Except CudaError Unit) (failing : Option Call)
    (forward : Appending κ Unit) (rows : List (Row κ)) : Prop :=
  Ensures forward (rows.map Row.reserve)
    (fun _ after => after = rows.map (passed device) ∧ checks = .ok ())
    (fun _ after => List.Forall₂ Open rows after ∧
      (checks ≠ .ok () ∨ ∃ call, failing = some call ∧
        (∀ row, call ≠ .abortAppend row) ∧ ∀ row, call ≠ .commitAppend row))

/-- How an append that fails leaves its rows: as they were, or unsettled by a late cause. It fails
by a check or by a call. -/
def Fails (checks : Except CudaError Unit) (rows : List (Row κ)) (failing : Option Call)
    (after : List (Row κ)) : Prop :=
  (after = rows ∧ ¬ Late checks rows failing ∧ (checks = .ok () → failing.isSome)) ∨
    (Unsettled after ∧ Late checks rows failing)

/-- The protocol around any forward pass: how the rows end. -/
theorem append_ensures (hforward : Forwards device checks failing forward rows) :
    Ensures (do
        onRows (reserveRows family (only failing) 0 [])
        orAbort family (only failing) forward
        commitRows family (only failing)) rows
      (fun _ after => after = rows.map (committed device) ∧ ¬ Late checks rows failing)
      (fun _ after => Fails checks rows failing after) := by
  refine ((reserve_ensures family hidle).mono (fun _ _ h => h) ?_).bind ?_
  · rintro _ _ ⟨rfl, i, rfl⟩
    exact .inl ⟨rfl, by simp [Late], fun _ => rfl⟩
  · rintro _ _ rfl
    refine (hforward.orUndo ?_).bind ?_
    · rintro e after ⟨hopen, hcause⟩
      apply onRows_ensures
      · obtain ⟨hback, hclear⟩ | ⟨herror, hbroken, i, hi, hfails⟩ :=
          abortRows_cases family (only failing) hopen
        · rw [hback]
          refine .inl ⟨rfl, ?_, ?_⟩
          · rintro (⟨haccepts, i, -, hcall⟩ | ⟨-, i, hi, hcall⟩)
            · obtain hrejects | ⟨call, hother, -, hcommit⟩ := hcause
              · exact hrejects haccepts
              · exact hcommit i (Option.some.inj (hother.symm.trans hcall))
            · have hnot := hclear i hi
              rw [← only_eq_true, hnot] at hcall
              cases hcall
          · intro haccepts
            obtain hrejects | ⟨call, hother, -⟩ := hcause
            · exact absurd haccepts hrejects
            · rw [hother]
              rfl
        · have hcall := only_eq_true.mp hfails
          have hrejects : checks ≠ .ok () := by
            obtain hrejects | ⟨call, hother, habort, -⟩ := hcause
            · exact hrejects
            · exact absurd (Option.some.inj (hother.symm.trans hcall)) (habort i)
          generalize abortRows family (only failing) after = outcome at herror hbroken ⊢
          obtain ⟨after', result⟩ := outcome
          obtain rfl : result = _ := herror
          exact .inr ⟨hbroken, .inr ⟨hrejects, i, hi, hcall⟩⟩
    · rintro _ _ ⟨rfl, haccepts⟩
      refine (commitRows_ensures family device (only failing) hidle).mono ?_ ?_
      · rintro _ _ ⟨rfl, hclear⟩
        refine ⟨rfl, ?_⟩
        rintro (⟨-, i, hi, hcall⟩ | ⟨hrejects, -⟩)
        · have hnot := hclear i hi
          rw [← only_eq_true, hnot] at hcall
          cases hcall
        · exact hrejects haccepts
      · rintro _ _ ⟨hbroken, i, hi, hfails⟩
        exact .inr ⟨hbroken, .inl ⟨haccepts, i, hi, only_eq_true.mp hfails⟩⟩

theorem committed_advanced : (∀ row ∈ rows.map (committed device), Settled row) ∧
      List.Forall₂ Advanced rows (rows.map (committed device)) := by
  constructor
  · intro row hrow
    obtain ⟨before, hbefore, rfl⟩ := mem_map.mp hrow
    exact (hidle before hbefore).committed device
  · rw [forall₂_map_right_iff, forall₂_same]
    exact fun row _ => rfl

theorem append_atomic_iff (hforward : Forwards device checks failing forward rows) :
    Atomic (do
        onRows (reserveRows family (only failing) 0 [])
        orAbort family (only failing) forward
        commitRows family (only failing)) rows ↔ ¬ Late checks rows failing := by
  apply atomic_iff hidle
  apply (append_ensures family device hidle hforward).mono
  · rintro _ _ ⟨rfl, hclear⟩
    exact ⟨committed_advanced device hidle, hclear⟩
  · rintro _ _ (⟨hsame, hclear, -⟩ | hbroken)
    · exact .inl ⟨hsame, hclear⟩
    · exact .inr hbroken

end

end

/-! ## The forward passes -/

section
variable (family : Family) (device : Device κ) (workspace : Workspace) (failing : Option Call)
variable {rows : List (Row κ)}

theorem checkEach_reserve (check : Row κ → Except CudaError Unit)
    (h : ∀ row, check row.reserve = check row) (rows : List (Row κ)) :
    checkEach check (rows.map Row.reserve) = checkEach check rows := by
  induction rows with
  | nil => rfl
  | cons row rows ih => simp only [map_cons, checkEach, h, ih]

theorem checkRows_reserve (rows : List (Row κ)) :
    checkRows family device workspace (rows.map Row.reserve) =
      checkRows family device workspace rows := by
  have htotal : totalTokens family (rows.map Row.reserve) = totalTokens family rows := by
    unfold totalTokens
    rw [foldlM_map]
    rfl
  unfold checkRows
  rw [htotal, checkEach_reserve _ (fun row => by cases family <;> rfl)]
  simp only [map_eq_nil_iff, length_map]

theorem checkDecode_reserve (rows : List (Row κ)) :
    checkEach (checkDecode device) (rows.map Row.reserve) =
      checkEach (checkDecode device) rows :=
  checkEach_reserve _ (fun _ => rfl) rows

theorem open_reserve (hidle : ∀ row ∈ rows, Settled row) :
    List.Forall₂ Open rows (rows.map Row.reserve) := by
  rw [forall₂_map_right_iff, forall₂_same]
  exact fun row hrow => (hidle row hrow).reserve

theorem open_passed (hidle : ∀ row ∈ rows, Settled row) :
    List.Forall₂ Open rows (rows.map (passed device)) := by
  rw [forall₂_map_right_iff, forall₂_same]
  exact fun row hrow => (hidle row hrow).passed device

theorem forwards_of_checks {checkAll : List (Row κ) → Except CudaError Unit}
    (head : List (Row κ) → Bool) (layers : String) (hidle : ∀ row ∈ rows, Settled row)
    (hcheck : checkAll (rows.map Row.reserve) = checkAll rows)
    (hhead : ∀ rows, head rows = true → ∃ row, failing = some (.head row)) :
    Forwards device (checkAll rows) failing (do
      check (checkAll (← get))
      reach (only failing .inputs) (.device "inputs")
      reach ((List.range device.layers).any fun index => only failing (.layer index))
        (.device layers)
      modify fun rows => rows.map (Row.pass device)
      reach (head (← get)) (.device "head")) rows := by
  apply Ensures.get_bind
  rw [hcheck]
  apply Ensures.check_bind
  · intro e hrejects
    exact ⟨open_reserve hidle, .inl (by rw [hrejects]; exact nofun)⟩
  · intro haccepts
    apply Ensures.reach_bind
    · intro hfails
      exact ⟨open_reserve hidle, .inr ⟨_, only_eq_true.mp hfails, nofun, nofun⟩⟩
    · intro _
      apply Ensures.reach_bind
      · intro hfails
        obtain ⟨index, -, hlayer⟩ := any_eq_true.mp hfails
        exact ⟨open_reserve hidle, .inr ⟨_, only_eq_true.mp hlayer, nofun, nofun⟩⟩
      · intro _
        apply Ensures.modify_bind
        apply Ensures.get_bind
        have hpassed : (rows.map Row.reserve).map (Row.pass device) = rows.map (passed device) :=
          map_map
        rw [hpassed]
        refine (Ensures.reach _ _ _).mono ?_ ?_
        · rintro _ _ ⟨rfl, -⟩
          exact ⟨rfl, haccepts⟩
        · rintro _ _ ⟨rfl, hfails⟩
          obtain ⟨row, hcall⟩ := hhead _ hfails
          exact ⟨open_passed device hidle, .inr ⟨_, hcall, nofun, nofun⟩⟩

theorem prefillBatchImpl_forwards (hidle : ∀ row ∈ rows, Settled row) :
    Forwards device (checkRows family device workspace rows) failing
      (prefillBatchImpl family device (only failing) workspace) rows := by
  refine forwards_of_checks device failing
    (fun rows => family = .gemma4 &&
      (range rows.length).any fun row => only failing (.head row))
    "run_layer_prefill" hidle (checkRows_reserve family device workspace rows) ?_
  intro rows hfails
  obtain ⟨row, -, hrow⟩ := any_eq_true.mp (Bool.and_elim_right hfails)
  exact ⟨row, only_eq_true.mp hrow⟩

theorem forwardTokenUncommitted_forwards (head : Bool) (hidle : ∀ row ∈ rows, Settled row) :
    Forwards device (checkEach (checkDecode device) rows) failing
      (forwardTokenUncommitted device (only failing) head) rows := by
  refine forwards_of_checks device failing (fun _ => head && only failing (.head 0))
    "run_decode_into" hidle (checkDecode_reserve device rows) ?_
  intro _ hfails
  exact ⟨0, only_eq_true.mp (Bool.and_elim_right hfails)⟩

end

/-! ## The calls -/

/-- `prefill_batch` of each family and `forward_token` are atomic exactly when neither a commit
fails nor an abort fails behind a rejected batch. -/
theorem append_calls_atomic_iff (device : Device κ) (failing : Option Call) :
    (∀ (family : Family) (workspace : Workspace) (rows : List (Row κ)),
      (∀ row ∈ rows, Settled row) →
      (Atomic (prefillBatch family device (only failing) workspace) rows ↔
        ¬ Late (checkRows family device workspace rows) rows failing)) ∧
    (∀ (head : Bool) (row : Row κ) (token : Nat), row.tokenIds = [token] → Settled row →
      (Atomic (forwardToken device (only failing) head) [row] ↔
        ¬ Late (checkEach (checkDecode device) [row]) [row] failing)) := by
  constructor
  · intro family workspace rows hidle
    exact append_atomic_iff family device hidle
      (prefillBatchImpl_forwards family device workspace failing hidle)
  · intro head row token _ hsettled
    have hidle : ∀ r ∈ [row], Settled r := by simpa using hsettled
    exact append_atomic_iff .gemma4 device hidle
      (forwardTokenUncommitted_forwards device failing head hidle)

/-! ## Two rows -/

/-- A device with two layers. Its K/V rows are the tokens. -/
def device : Device Nat where
  modelId := 1
  vocab := 100
  layers := 2
  write := tokenRows
  length_write := length_tokenRows

def workspace : Workspace where
  sequenceCapacity := 4
  tokenCapacity := 8
  maxContextTokens := 16

/-- A sequence that holds the tokens of `rows`. -/
def sequence (rows : List Nat) : Sequence Nat where
  modelId := 1
  position := rows.length
  maxTokens := 16
  entry := { rows := rows, pending := none }

def batch : List (Row Nat) :=
  [{ tokenIds := [7, 8], sequence := sequence [] }, { tokenIds := [9], sequence := sequence [3] }]

theorem settled_sequence (tokenIds rows : List Nat) :
    Settled { tokenIds := tokenIds, sequence := sequence rows } := ⟨rfl, rfl⟩

theorem batch_settled : ∀ row ∈ batch, Settled row := by
  intro row hrow
  obtain rfl | rfl := mem_pair.mp hrow
  · exact settled_sequence [7, 8] []
  · exact settled_sequence [9] [3]

theorem append_calls_atomic_two_rows :
    (∀ family, Atomic (prefillBatch family device (only (some (.layer 1))) workspace) batch) ∧
    Atomic (forwardToken device (only (some (.head 0))) true)
      [{ tokenIds := [9], sequence := sequence [3] }] := by
  constructor
  · intro family
    refine ((append_calls_atomic_iff device (some (.layer 1))).1 family workspace batch
      batch_settled).mpr ?_
    simp [Late]
  · refine ((append_calls_atomic_iff device (some (.head 0))).2 true _ 9 rfl
      (settled_sequence [9] [3])).mpr ?_
    simp [Late]

/-- The second commit of the batch fails: the first row has advanced, and the reservation of
the second stays open. -/
theorem failing_commit_leaves_reservation :
    ¬ ∀ (family : Family) (failing : Option Call),
      Atomic (prefillBatch family device (only failing) workspace) batch := by
  intro h
  have hatomic := h .gemma4 (some (.commitAppend 1))
  have hsettled := hatomic.1 _ (mem_cons_of_mem _ mem_cons_self)
  cases hsettled.pending

end Eider.Guarantees.BatchAppends
