import Mathlib.Data.List.Forall2
import Mathlib.Data.List.Nodup
import Eider.Source.Batch

/-!
Atomicity of the batch calls. Whichever call fails, a batch operation that
returns an error should leave every row's recurrent state and cache entry as they
were, with nothing open; one that returns a result should have advanced both by
the same number of tokens.

Two slips break this. The commit loop of a batch commits rows one by one, so a
`commit_append` that fails behind the first row leaves the rows before it
committed. The speculative calls answer a failed `commit_append` by rolling back
the recurrent state without aborting the reservation. `batch_calls_atomic_iff`
shows that nothing else does.
-/
namespace Eider.Guarantees.BatchAtomicity
open Source List Function

variable {n : Nat} {β κ φ C R : Type}
variable (cache : SequenceCache C R κ)
variable {reservations : List R} {index : Nat} {reserved : List R} {c' : C} {e : CudaError}
variable {before row : BatchRow n β} {befores begun rows' : List (BatchRow n β)}
variable {pairs : List (BatchRow n β × R)} {count : Nat} {c₁ : C} {reservation : R}

/-! ## The property -/

/-- No append of the row is open, neither on its state nor in the cache. -/
structure Idle (c : C) (row : BatchRow n β) : Prop where
  state : row.sequence.state.appendPending = false
  entry : (cache.entry c row.sequence.cacheId).pending = none

/-- What the callers hold between two calls: idle rows that own distinct
sequences. -/
structure Ready (c : C) (rows : List (BatchRow n β)) : Prop where
  idle : ∀ row ∈ rows, Idle cache c row
  nodup : (rows.map fun row => row.sequence.cacheId).Nodup

/-- The row is as it was, with nothing open. -/
structure RestoredRow (c c' : C) (before after : BatchRow n β) : Prop where
  cacheId : after.sequence.cacheId = before.sequence.cacheId
  state : after.sequence.state.SameState before.sequence.state
  rows : (cache.entry c' before.sequence.cacheId).rows =
    (cache.entry c before.sequence.cacheId).rows
  idle : Idle cache c' after

/-- State and cache advanced by `count` tokens, with nothing open. -/
structure AdvancedRow (count : Nat) (c c' : C) (before after : BatchRow n β) : Prop where
  cacheId : after.sequence.cacheId = before.sequence.cacheId
  position : after.sequence.state.position = before.sequence.state.position + count
  rows : (cache.entry c' before.sequence.cacheId).rows.length =
    (cache.entry c before.sequence.cacheId).rows.length + count
  idle : Idle cache c' after

/-- The transaction a batch operation promises on its rows. -/
def Atomic {α : Type} (rows : List (BatchRow n β)) (c : C)
    (outcome : (List (BatchRow n β) × C) × Except CudaError α) : Prop :=
  match outcome.2 with
  | .error _ => List.Forall₂ (RestoredRow cache c outcome.1.2) rows outcome.1.1
  | .ok _ => List.Forall₂ (fun before after => ∃ count,
      AdvancedRow cache count c outcome.1.2 before after) rows outcome.1.1

/-! ## Aborting reservations -/

theorem entry_abortReservations (c : C) (reservations : List R) (id : Nat) :
    cache.entry (abortReservations cache c reservations) id =
      if id ∈ reservations.map cache.owner then (cache.entry c id).abort else cache.entry c id := by
  induction reservations generalizing c with
  | nil => simp [abortReservations]
  | cons reservation rest ih =>
    have hstep : abortReservations cache c (reservation :: rest) =
        abortReservations cache (cache.abortAppend c reservation) rest := rfl
    rw [hstep, ih, cache.entry_abort]
    by_cases hid : id = cache.owner reservation
    · subst hid
      by_cases hrest : cache.owner reservation ∈ rest.map cache.owner <;>
        simp [hrest, CacheEntry.abort]
    · simp [hid]

theorem rows_abortReservations (c : C) (reservations : List R) (id : Nat) :
    (cache.entry (abortReservations cache c reservations) id).rows = (cache.entry c id).rows := by
  rw [entry_abortReservations]
  split <;> rfl

variable {c : C}

theorem pending_abortReservations {id : Nat} (h : id ∈ reservations.map cache.owner) :
    (cache.entry (abortReservations cache c reservations) id).pending = none := by
  rw [entry_abortReservations, if_pos h]
  rfl

/-! ## Reserving -/

theorem rows_reserve (c : C) (id rows other : Nat) :
    (cache.entry (cache.reserveAppend c id rows).2 other).rows = (cache.entry c other).rows := by
  rw [cache.entry_reserve]
  by_cases h : other = id
  · subst h
    simp [CacheEntry.reserve]
  · rw [update_of_ne h]

/-- What the reserve loop hands to the next stage. -/
structure Reserved (rows : List (BatchRow n β)) (c c' : C) (reservations : List R) : Prop where
  owners : reservations.map cache.owner = rows.map fun row => row.sequence.cacheId
  starts : reservations.map cache.startPosition =
    rows.map fun row => (cache.entry c row.sequence.cacheId).rows.length
  rows : ∀ id, (cache.entry c' id).rows = (cache.entry c id).rows

variable {failing : Option Call} {rows : List (BatchRow n β)}

theorem reserveRows_ok
    (h : reserveRows cache failing index rows reserved c = (c', .ok reservations)) :
    ∃ fresh, reservations = reserved ++ fresh ∧ Reserved cache rows c c' fresh := by
  induction rows generalizing index reserved c with
  | nil =>
    obtain ⟨rfl, rfl⟩ := h
    exact ⟨[], by simp, rfl, rfl, fun _ => rfl⟩
  | cons row rows ih =>
    unfold reserveRows at h
    split at h
    · simp at h
    · obtain ⟨fresh, rfl, hfresh⟩ := ih h
      refine ⟨(cache.reserveAppend c row.sequence.cacheId row.tokens.length).1 :: fresh,
        by simp, ?_, ?_, ?_⟩
      · simp [cache.owner_reserve, hfresh.owners]
      · simp [cache.start_reserve, hfresh.starts, rows_reserve]
      · intro id
        rw [hfresh.rows, rows_reserve]

section
variable (h : reserveRows cache failing index rows reserved c = (c', .error e))
include h

/-- A reserve loop that fails leaves no reservation of its own behind. -/
theorem reserveRows_error (id : Nat) : (cache.entry c' id).rows = (cache.entry c id).rows ∧
      (id ∈ reserved.map cache.owner ∨ (cache.entry c id).pending = none →
        (cache.entry c' id).pending = none) := by
  induction rows generalizing index reserved c with
  | nil => simp [reserveRows] at h
  | cons row rows ih =>
    unfold reserveRows at h
    split at h
    · obtain ⟨rfl, -⟩ := h
      refine ⟨rows_abortReservations cache c reserved id, fun hid => ?_⟩
      rw [entry_abortReservations]
      split
      · rfl
      · rename_i hnot
        exact hid.resolve_left hnot
    · obtain ⟨hrows, hpending⟩ := ih h
      refine ⟨hrows.trans (rows_reserve cache c _ _ id), fun hid => hpending ?_⟩
      -- The new reservation is aborted with the others; the rest is untouched.
      by_cases hrow : id = row.sequence.cacheId
      · left
        simp [cache.owner_reserve, hrow]
      · rw [cache.entry_reserve, update_of_ne hrow]
        exact hid.imp_left fun hmem => by simp [hmem]

theorem reserveRows_failing : ∃ row, failing = some (.reserveAppend row) := by
  induction rows generalizing index reserved c with
  | nil => simp [reserveRows] at h
  | cons row rows ih =>
    unfold reserveRows at h
    split at h
    · rename_i hfailing
      exact ⟨index, hfailing⟩
    · exact ih h

end

/-! ## Beginning the state appends -/

/-- The row is inside the append that was begun on `before`. -/
structure AppendingRow (before row : BatchRow n β) : Prop where
  cacheId : row.sequence.cacheId = before.sequence.cacheId
  tokens : row.tokens = before.tokens
  state : before.sequence.state.Appending row.sequence.state

/-- The append was begun and the pass has not run yet. -/
structure BegunRow (before row : BatchRow n β) : Prop extends AppendingRow before row where
  linear : row.sequence.state.linearStates = before.sequence.state.linearStates

/-- The state of the row is that of `before`, whatever its cache entry holds. -/
structure SameRow (before row : BatchRow n β) : Prop where
  cacheId : row.sequence.cacheId = before.sequence.cacheId
  state : row.sequence.state.SameState before.sequence.state

theorem SameRow.refl (row : BatchRow n β) : SameRow row row := ⟨rfl, .refl _⟩

theorem AppendingRow.abort (h : AppendingRow before row)
    (hidle : before.sequence.state.appendPending = false) : SameRow before row.abort :=
  ⟨h.cacheId, (h.state.abort hidle).2⟩

theorem AppendingRow.limits (h : AppendingRow before row) : row.limits = before.limits := by
  simp [BatchRow.limits, h.tokens, h.state.modelId, h.state.position, h.state.maxTokens]

theorem AppendingRow.withLinear (h : AppendingRow before row) (linear : LinearStates n β) :
    AppendingRow before (row.mapState fun s => s.withLinear linear) :=
  ⟨h.cacheId, h.tokens, h.state.withLinear linear⟩

theorem abort_all (hidle : ∀ before ∈ befores, before.sequence.state.appendPending = false)
    (h : List.Forall₂ AppendingRow befores rows) :
    List.Forall₂ SameRow befores (rows.map BatchRow.abort) := by
  induction h with
  | nil => exact .nil
  | cons hrow _ ih =>
    exact .cons (hrow.abort (hidle _ mem_cons_self))
      (ih fun before hmem => hidle before (mem_cons_of_mem _ hmem))

theorem begin_row {failing : Option Nat} (hidle : row.sequence.state.appendPending = false)
    (h : (row.sequence.state.beginAppend failing).2 = .ok ()) :
    BegunRow row (row.mapState fun _ => (row.sequence.state.beginAppend failing).1) := by
  cases failing with
  | none =>
    refine ⟨⟨rfl, rfl, (row.sequence.state.beginAppend_ok hidle).2⟩, ?_⟩
    simp [BatchRow.mapState, SequenceState.beginAppend, hidle]
  | some copy => simp [SequenceState.beginAppend, hidle] at h

theorem beginRows_ok (hidle : ∀ row ∈ rows, row.sequence.state.appendPending = false)
    (hbegun : List.Forall₂ BegunRow befores begun)
    (h : beginRows failing index begun rows = (rows', .ok ())) :
    List.Forall₂ BegunRow (befores ++ rows) rows' := by
  induction rows generalizing index befores begun with
  | nil =>
    simp only [beginRows, Prod.mk.injEq, and_true] at h
    subst h
    simpa using hbegun
  | cons row rows ih =>
    have hrow := hidle row mem_cons_self
    unfold beginRows at h
    simp only at h
    split at h
    · simp at h
    · rename_i hok
      have hbegins := begin_row hrow hok
      have hnext := ih (fun other hmem => hidle other (mem_cons_of_mem _ hmem))
        (rel_append hbegun (.cons hbegins .nil)) h
      simpa using hnext

theorem beginRows_error (hidle : ∀ row ∈ befores ++ rows, row.sequence.state.appendPending = false)
    (hbegun : List.Forall₂ BegunRow befores begun)
    (h : beginRows failing index begun rows = (rows', .error e)) :
    List.Forall₂ SameRow (befores ++ rows) rows' := by
  induction rows generalizing index befores begun with
  | nil => simp [beginRows] at h
  | cons row rows ih =>
    have hrow : row.sequence.state.appendPending = false := hidle row (by simp)
    unfold beginRows at h
    simp only at h
    split at h
    · rename_i hfailed
      obtain ⟨rfl, -⟩ := h
      have hsame : SameRow row (row.mapState fun _ =>
          (row.sequence.state.beginAppend (failingCopy failing index)).1) :=
        ⟨rfl, SequenceState.beginAppend_error hfailed⟩
      have hbefores := abort_all (fun before hmem => hidle before (by simp [hmem]))
        (hbegun.imp fun _ _ hrow => hrow.toAppendingRow)
      refine rel_append hbefores (.cons hsame ?_)
      exact forall₂_same.mpr fun other _ => SameRow.refl other
    · rename_i hok
      have hbegins := begin_row hrow hok
      have hidle' : ∀ other ∈ (befores ++ [row]) ++ rows,
          other.sequence.state.appendPending = false := by simpa using hidle
      have hnext := ih hidle' (rel_append hbegun (.cons hbegins .nil)) h
      simpa using hnext

theorem failingCopy_eq_some {copy : Nat}
    (h : failingCopy failing index = some copy) : failing = some (.beginAppend index copy) := by
  unfold failingCopy at h
  split at h
  · split at h
    · rename_i hrow
      rw [hrow, Option.some.inj h]
    · cases h
  · cases h

theorem beginRows_failing (hidle : ∀ row ∈ rows, row.sequence.state.appendPending = false)
    (h : beginRows failing index begun rows = (rows', .error e)) :
    ∃ row copy, failing = some (.beginAppend row copy) := by
  induction rows generalizing index begun with
  | nil => simp [beginRows] at h
  | cons row rows ih =>
    have hrow := hidle row mem_cons_self
    unfold beginRows at h
    simp only at h
    split at h
    · rename_i hfailed
      cases hcopy : failingCopy failing index with
      | none => simp [SequenceState.beginAppend, hrow, hcopy] at hfailed
      | some copy => exact ⟨index, copy, failingCopy_eq_some hcopy⟩
    · exact ih (fun other hmem => hidle other (mem_cons_of_mem _ hmem)) h

/-! ## The forward pass -/

theorem limits_all (h : List.Forall₂ AppendingRow befores rows) :
    rows.map BatchRow.limits = befores.map BatchRow.limits := by
  induction h with
  | nil => rfl
  | cons hrow _ ih => rw [map_cons, map_cons, hrow.limits, ih]

theorem rows_write (c : C) (r : R) (written : List κ) (id : Nat) :
    (cache.entry (cache.writeAppend c r written) id).rows = (cache.entry c id).rows := by
  rw [cache.entry_write]
  by_cases h : id = cache.owner r
  · subst h
    simp [CacheEntry.write]
  · rw [update_of_ne h]

variable (device : Device n β κ φ)

/-- The pass over the row is done: its state holds the recurrent states, and its
open append the K/V rows, of the contents that `before` has behind its tokens. -/
structure Forwarded (c c' : C) (before row : BatchRow n β) : Prop where
  appending : AppendingRow before row
  linear : row.sequence.state.linearStates =
    (device.feed (contentsOf cache before c) before.tokens).1
  pending : (cache.entry c' before.sequence.cacheId).pending = some
    ((device.feed (contentsOf cache before c) before.tokens).2.drop
      (contentsOf cache before c).2.length)

theorem forwardRows_spec (h : List.Forall₂ BegunRow befores rows)
    (howners : reservations.map cache.owner = befores.map fun row => row.sequence.cacheId)
    (hnodup : (befores.map fun row => row.sequence.cacheId).Nodup) :
    List.Forall₂ (Forwarded cache device c (forwardRows cache device (rows.zip reservations) c).2)
        befores (forwardRows cache device (rows.zip reservations) c).1 ∧
      ∀ id,
        (cache.entry (forwardRows cache device (rows.zip reservations) c).2 id).rows =
            (cache.entry c id).rows ∧
          (id ∉ reservations.map cache.owner →
            cache.entry (forwardRows cache device (rows.zip reservations) c).2 id =
              cache.entry c id) := by
  induction h generalizing reservations c with
  | nil => simp [forwardRows]
  | @cons before row befores rows hrow hrest ih =>
    cases reservations with
    | nil => simp at howners
    | cons reservation reservations =>
      obtain ⟨howner, howners⟩ := cons.inj howners
      obtain ⟨hfresh, hnodup⟩ := nodup_cons.mp hnodup
      have hcontents : contentsOf cache row c = contentsOf cache before c := by
        simp [contentsOf, hrow.linear, hrow.cacheId]
      obtain ⟨hothers, hframe⟩ := ih (c := (forwardRow cache device row reservation c).2)
        howners hnodup
      simp only [zip_cons_cons, forwardRows]
      refine ⟨.cons ⟨hrow.toAppendingRow.withLinear _, ?_, ?_⟩ ?_, fun id => ⟨?_, ?_⟩⟩
      · simp [forwardRow, BatchRow.mapState, SequenceState.withLinear, hcontents, hrow.tokens]
      · -- The rows behind this one own other entries.
        rw [(hframe _).2 (howners ▸ hfresh)]
        simp [forwardRow, cache.entry_write, howner, CacheEntry.write, hcontents, hrow.tokens]
      · refine hothers.imp fun other _ hother => ?_
        have hsame : contentsOf cache other (forwardRow cache device row reservation c).2 =
            contentsOf cache other c := by
          simp [contentsOf, forwardRow, rows_write]
        exact ⟨hother.appending, hsame ▸ hother.linear, hsame ▸ hother.pending⟩
      · rw [(hframe id).1]
        exact rows_write cache c reservation _ id
      · intro hid
        rw [map_cons, mem_cons, not_or] at hid
        rw [(hframe id).2 hid.2]
        unfold forwardRow
        rw [cache.entry_write, update_of_ne hid.1]

/-! ## Committing -/

/-- The cache behind the commits of some rows. -/
def commitAll (c : C) (pairs : List (BatchRow n β × R)) : C :=
  pairs.foldl (fun c pair => cache.commitAppend c pair.2 pair.1.tokens.length) c

theorem entry_commitAll_of_not_mem {id : Nat} (h : id ∉ pairs.map fun pair => cache.owner pair.2) :
    cache.entry (commitAll cache c pairs) id = cache.entry c id := by
  induction pairs generalizing c with
  | nil => rfl
  | cons pair pairs ih =>
    rw [map_cons, mem_cons, not_or] at h
    have hstep : commitAll cache c (pair :: pairs) =
        commitAll cache (cache.commitAppend c pair.2 pair.1.tokens.length) pairs := rfl
    rw [hstep, ih h.2, cache.entry_commit, update_of_ne h.1]

theorem entry_commitAll_of_mem {pair : BatchRow n β × R}
    (hnodup : (pairs.map fun pair => cache.owner pair.2).Nodup) (h : pair ∈ pairs) :
    cache.entry (commitAll cache c pairs) (cache.owner pair.2) =
      (cache.entry c (cache.owner pair.2)).commit pair.1.tokens.length := by
  induction pairs generalizing c with
  | nil => simp at h
  | cons first pairs ih =>
    obtain ⟨hfresh, hnodup⟩ := nodup_cons.mp hnodup
    have hstep : commitAll cache c (first :: pairs) =
        commitAll cache (cache.commitAppend c first.2 first.1.tokens.length) pairs := rfl
    rw [hstep]
    obtain rfl | hmem := mem_cons.mp h
    · rw [entry_commitAll_of_not_mem cache hfresh, cache.entry_commit, update_self]
    · have hne : cache.owner pair.2 ≠ cache.owner first.2 := fun heq =>
        hfresh (mem_map.mpr ⟨pair, hmem, heq⟩)
      rw [ih hnodup hmem, cache.entry_commit, update_of_ne hne]

theorem commitRows_ok (pairs : List (BatchRow n β × R)) (done : List (BatchRow n β)) (c : C)
    (h : ∀ row, failing = some (.commitAppend row) → index + pairs.length ≤ row ∨ row < index) :
    commitRows cache failing index done pairs c =
      ((done ++ pairs.map fun pair => pair.1.commit, commitAll cache c pairs), .ok ()) := by
  induction pairs generalizing index done c with
  | nil => simp [commitRows, commitAll]
  | cons pair pairs ih =>
    have hrow : ¬ failing = some (.commitAppend index) := by
      intro heq
      have hbounds := h index heq
      simp only [length_cons] at hbounds
      omega
    unfold commitRows
    rw [if_neg hrow, ih]
    · simp [commitAll]
    · intro row heq
      have hbounds := h row heq
      simp only [length_cons] at hbounds
      omega

/-- A commit that fails at row `count` of the list leaves the rows before it
committed and takes the others back. -/
theorem commitRows_error (done : List (BatchRow n β)) (c : C) (hcount : count < pairs.length)
    (h : failing = some (.commitAppend (index + count))) :
    ∃ e, commitRows cache failing index done pairs c =
      ((done ++ ((pairs.take count).map fun pair => pair.1.commit) ++
          ((pairs.drop count).map fun pair => pair.1.abort),
        abortReservations cache (commitAll cache c (pairs.take count))
          ((pairs.drop count).map Prod.snd)), .error e) := by
  induction pairs generalizing index count done c with
  | nil => exact absurd hcount (Nat.not_lt_zero _)
  | cons pair pairs ih =>
    unfold commitRows
    cases count with
    | zero =>
      rw [if_pos (by simpa using h)]
      exact ⟨(rollbackError (pair.1 :: pairs.map Prod.fst)).getD (cacheError "commit_append"),
        by simp [commitAll, comp_def]⟩
    | succ count =>
      have hne : ¬ failing = some (.commitAppend index) := by
        rw [h]
        simp
      rw [if_neg hne]
      have hnext : failing = some (.commitAppend (index + 1 + count)) := by
        rw [h, Nat.add_right_comm, Nat.add_assoc]
      obtain ⟨e, he⟩ := ih (done ++ [pair.1.commit])
        (cache.commitAppend c pair.2 pair.1.tokens.length) (Nat.lt_of_succ_lt_succ hcount) hnext
      exact ⟨e, by rw [he]; simp [commitAll]⟩

/-! ## The batch operations -/

section
variable (modelId : Nat) (failing : Option Call)
variable (check : List RowLimits → List Nat → Except CudaError Unit)

/-- The checks of the forward pass accept the batch, at the positions its rows
have in the cache. -/
def Accepts (rows : List (BatchRow n β)) (c : C) : Prop :=
  check (rows.map BatchRow.limits)
    (rows.map fun row => (cache.entry c row.sequence.cacheId).rows.length) = .ok ()

/-- The failing call is the commit of a row behind the first. -/
def FailsLate (count : Nat) : Prop :=
  ∃ row, failing = some (.commitAppend row) ∧ 0 < row ∧ row < count

theorem restored_of_same (hsame : List.Forall₂ SameRow befores rows)
    (hidle : ∀ before ∈ befores, before.sequence.state.appendPending = false)
    (hrows : ∀ id, (cache.entry c' id).rows = (cache.entry c id).rows)
    (hpending : ∀ before ∈ befores, (cache.entry c' before.sequence.cacheId).pending = none) :
    List.Forall₂ (RestoredRow cache c c') befores rows := by
  induction hsame with
  | nil => exact .nil
  | @cons before row befores rows hrow _ ih =>
    have hfirst : RestoredRow cache c c' before row := by
      refine ⟨hrow.cacheId, hrow.state, hrows _, ?_, ?_⟩
      · exact hrow.state.appendPending.trans (hidle before mem_cons_self)
      · rw [hrow.cacheId]
        exact hpending before mem_cons_self
    exact .cons hfirst (ih (fun other hmem => hidle other (mem_cons_of_mem _ hmem))
      fun other hmem => hpending other (mem_cons_of_mem _ hmem))

theorem Forwarded.commit (h : Forwarded cache device c c₁ before row)
    (hrows : (cache.entry c₁ before.sequence.cacheId).rows =
      (cache.entry c before.sequence.cacheId).rows)
    (hentry : cache.entry c' before.sequence.cacheId =
      (cache.entry c₁ before.sequence.cacheId).commit row.tokens.length) :
    AdvancedRow cache before.tokens.length c c' before row.commit := by
  have hwritten : ((device.feed (contentsOf cache before c) before.tokens).2.drop
      (contentsOf cache before c).2.length).length = before.tokens.length := by
    rw [length_drop, device.length_feed]
    omega
  constructor
  · exact h.appending.cacheId
  · have hposition := h.appending.state.commit_position row.tokens.length
    simpa [BatchRow.commit, BatchRow.mapState, h.appending.tokens] using hposition
  · rw [hentry, CacheEntry.commit, h.pending, hrows, h.appending.tokens]
    simp only [Option.getD_some, length_append, length_take, hwritten, min_self]
  · constructor
    · rfl
    · have hid : row.commit.sequence.cacheId = before.sequence.cacheId := h.appending.cacheId
      rw [hid, hentry]
      rfl

theorem owners_zip (hrows : befores.length = rows.length)
    (howners : reservations.map cache.owner = befores.map fun row => row.sequence.cacheId) :
    (rows.zip reservations).map (fun pair => cache.owner pair.2) =
      befores.map fun row => row.sequence.cacheId := by
  have hlength : reservations.length = befores.length := by
    simpa using congrArg length howners
  have hsnd : (rows.zip reservations).map Prod.snd = reservations := map_snd_zip (by omega)
  calc (rows.zip reservations).map (fun pair => cache.owner pair.2)
      = ((rows.zip reservations).map Prod.snd).map cache.owner := by rw [map_map]; rfl
    _ = reservations.map cache.owner := by rw [hsnd]
    _ = befores.map fun row => row.sequence.cacheId := howners

section
variable (h : List.Forall₂ (Forwarded cache device c c₁) befores rows)
include h

theorem committed_all
    (howners : reservations.map cache.owner = befores.map fun row => row.sequence.cacheId)
    (hnodup : (befores.map fun row => row.sequence.cacheId).Nodup)
    (hrows : ∀ id, (cache.entry c₁ id).rows = (cache.entry c id).rows) :
    List.Forall₂ (fun before after => ∃ count, AdvancedRow cache count c
        (commitAll cache c₁ (rows.zip reservations)) before after)
      befores ((rows.zip reservations).map fun pair => pair.1.commit) := by
  obtain ⟨hlength, hget⟩ := forall₂_iff_get.mp h
  have hreservations : reservations.length = befores.length := by
    simpa using congrArg length howners
  have hpairs := owners_zip cache hlength howners
  refine forall₂_iff_get.mpr ⟨by simp; omega, fun i hbefore hafter => ?_⟩
  have hi : i < (rows.zip reservations).length := by simpa using hafter
  have hrow := hget i hbefore (by omega)
  have howner : cache.owner ((rows.zip reservations)[i]).2 =
      (befores[i]).sequence.cacheId := by
    have hreservation : i < reservations.length := by omega
    have hith := congrArg (fun owners => owners[i]?) howners
    simpa [hreservation, hbefore] using hith
  have hentry := entry_commitAll_of_mem cache (c := c₁) (hpairs ▸ hnodup) (getElem_mem hi)
  rw [howner] at hentry
  simp only [get_eq_getElem, getElem_map, getElem_zip] at hrow hentry ⊢
  exact ⟨_, hrow.commit cache device (hrows _) hentry⟩

theorem forwarded_appending :
    List.Forall₂ AppendingRow befores rows := h.imp fun _ _ hrow => hrow.appending

end

theorem rollback_restores (hready : Ready cache c befores)
    (h : List.Forall₂ AppendingRow befores rows)
    (howners : reservations.map cache.owner = befores.map fun row => row.sequence.cacheId)
    (hrows : ∀ id, (cache.entry c₁ id).rows = (cache.entry c id).rows) :
    List.Forall₂ (RestoredRow cache c (abortReservations cache c₁ reservations)) befores
      (rows.map BatchRow.abort) := by
  have hidle : ∀ before ∈ befores, before.sequence.state.appendPending = false :=
    fun before hmem => (hready.idle before hmem).state
  refine restored_of_same cache (abort_all hidle h) hidle (fun id => ?_) fun before hmem => ?_
  · rw [rows_abortReservations, hrows]
  · apply pending_abortReservations
    rw [howners]
    exact mem_map_of_mem hmem

theorem commitRows_atomic_iff (hready : Ready cache c befores)
    (htokens : ∀ before ∈ befores, before.tokens ≠ [])
    (h : List.Forall₂ (Forwarded cache device c c₁) befores rows)
    (howners : reservations.map cache.owner = befores.map fun row => row.sequence.cacheId)
    (hrows : ∀ id, (cache.entry c₁ id).rows = (cache.entry c id).rows) :
    Atomic cache befores c (commitRows cache failing 0 [] (rows.zip reservations) c₁) ↔
      ¬ FailsLate failing befores.length := by
  have hlength := h.length_eq
  have hreservations : reservations.length = befores.length := by
    simpa using congrArg length howners
  have hzip : (rows.zip reservations).length = befores.length := by
    simp [length_zip]
    omega
  by_cases hcommit : ∃ row, failing = some (.commitAppend row) ∧ row < befores.length
  · obtain ⟨row, hfailing, hrow⟩ := hcommit
    have hindex : failing = some (.commitAppend (0 + row)) := by
      rw [hfailing, Nat.zero_add]
    obtain ⟨e, he⟩ := commitRows_error cache [] c₁ (hzip ▸ hrow) hindex
    rw [he]
    simp only [Atomic, nil_append]
    cases row with
    | zero =>
      -- Nothing was committed yet: the rollback covers every row.
      have hfst : (rows.zip reservations).map (fun pair => pair.1.abort) =
          rows.map BatchRow.abort := by
        have hfst : (rows.zip reservations).map Prod.fst = rows := map_fst_zip (by omega)
        rw [← congrArg (map BatchRow.abort) hfst, map_map]
        rfl
      have hsnd : (rows.zip reservations).map Prod.snd = reservations := map_snd_zip (by omega)
      have hrestored := rollback_restores cache hready (forwarded_appending cache device h)
        howners hrows
      constructor
      · rintro - ⟨late, hlate, hpos, -⟩
        rw [hfailing] at hlate
        simp only [Option.some.injEq, Call.commitAppend.injEq] at hlate
        omega
      · intro _
        simpa [commitAll, hfst, hsnd] using hrestored
    | succ row =>
      refine iff_of_false (fun hatomic => ?_) (not_not_intro ⟨row + 1, hfailing, by omega, hrow⟩)
      -- The first row is committed, so its position moved.
      cases h with
      | nil => simp at hrow
      | @cons before first befores rows hfirst hrest =>
        cases reservations with
        | nil => simp at hreservations
        | cons reservation reservations =>
          obtain ⟨hrestored, -⟩ := forall₂_cons.mp hatomic
          have hposition := hfirst.appending.state.commit_position first.tokens.length
          have hsame := hrestored.state.position
          have hnonempty := length_pos_iff.mpr (htokens before mem_cons_self)
          simp only [BatchRow.commit, BatchRow.mapState] at hsame
          rw [hposition, hfirst.appending.tokens] at hsame
          omega
  · have hnone : ∀ row, failing = some (.commitAppend row) →
        0 + (rows.zip reservations).length ≤ row ∨ row < 0 := by
      intro row hrow
      left
      by_contra hlt
      exact hcommit ⟨row, hrow, by omega⟩
    rw [commitRows_ok cache (rows.zip reservations) [] c₁ hnone]
    refine iff_of_true ?_ fun hlate => ?_
    · simpa [Atomic] using committed_all cache device h howners hready.nodup hrows
    · obtain ⟨row, hfailing, -, hlt⟩ := hlate
      exact hcommit ⟨row, hfailing, hlt⟩

/-- The checks of the pass see the rows and positions of the call. -/
theorem check_eq (hreserved : Reserved cache befores c c₁ reservations)
    (h : List.Forall₂ BegunRow befores rows) :
    check (rows.map BatchRow.limits) (reservations.map cache.startPosition) = .ok () ↔
      Accepts cache check befores c := by
  have hlimits := limits_all (h.imp fun _ _ hrow => hrow.toAppendingRow)
  rw [hlimits, hreserved.starts, Accepts]

theorem appendBatch_atomic_iff (hready : Ready cache c rows)
    (htokens : Accepts cache check rows c → ∀ row ∈ rows, row.tokens ≠ []) :
    Atomic cache rows c (appendBatch cache device failing check rows c) ↔
      ¬ (FailsLate failing rows.length ∧ Accepts cache check rows c) := by
  have hidle : ∀ row ∈ rows, row.sequence.state.appendPending = false :=
    fun row hmem => (hready.idle row hmem).state
  unfold appendBatch
  split
  · rename_i c₁ e hreserve
    obtain ⟨row, hfailing⟩ := reserveRows_failing cache hreserve
    refine iff_of_true ?_ ?_
    · refine restored_of_same cache (forall₂_same.mpr fun row _ => SameRow.refl row) hidle
        (fun id => (reserveRows_error cache hreserve id).1) fun before hmem => ?_
      exact (reserveRows_error cache hreserve _).2 (.inr (hready.idle before hmem).entry)
    · rintro ⟨⟨late, hlate, -⟩, -⟩
      simp [hfailing] at hlate
  · rename_i c₁ reservations hreserve
    obtain ⟨fresh, hfresh, hreserved⟩ := reserveRows_ok cache hreserve
    subst hfresh
    split
    · rename_i rows' e hbegin
      obtain ⟨row, copy, hfailing⟩ := beginRows_failing hidle hbegin
      have hsame := beginRows_error hidle (List.Forall₂.nil : List.Forall₂ BegunRow [] []) hbegin
      refine iff_of_true (restored_of_same cache hsame hidle (fun id => ?_) fun before hmem => ?_) ?_
      · rw [rows_abortReservations, hreserved.rows]
      · apply pending_abortReservations
        rw [hreserved.owners]
        exact mem_map_of_mem hmem
      · rintro ⟨⟨late, hlate, -⟩, -⟩
        simp [hfailing] at hlate
    · rename_i rows' hbegin
      have hbegun := beginRows_ok hidle (List.Forall₂.nil : List.Forall₂ BegunRow [] []) hbegin
      have happending := hbegun.imp fun _ _ hrow => hrow.toAppendingRow
      have hcheck := check_eq cache check hreserved hbegun
      unfold forward
      cases hresult : check (rows'.map BatchRow.limits)
          (reservations.map cache.startPosition) with
      | error e =>
        refine iff_of_true (rollback_restores cache hready happending hreserved.owners
          hreserved.rows) fun hlate => ?_
        have hok := hcheck.mpr hlate.2
        rw [hresult] at hok
        cases hok
      | ok _ =>
        have haccepts := hcheck.mp hresult
        by_cases hforward : failing = some .forward
        · rw [if_pos hforward]
          refine iff_of_true ?_ ?_
          · have hinterrupted : List.Forall₂ AppendingRow rows
                (rows'.map fun row => row.mapState fun s =>
                  s.withLinear (device.interrupted s.linearStates row.tokens)) := by
              rw [forall₂_map_right_iff]
              exact happending.imp fun _ _ hrow => hrow.withLinear _
            exact rollback_restores cache hready hinterrupted hreserved.owners hreserved.rows
          · rintro ⟨⟨late, hlate, -⟩, -⟩
            simp [hforward] at hlate
        · rw [if_neg hforward]
          obtain ⟨hforwarded, hframe⟩ := forwardRows_spec cache device hbegun hreserved.owners
            hready.nodup
          have hsame : ∀ before : BatchRow n β,
              contentsOf cache before c₁ = contentsOf cache before c := fun before => by
            simp [contentsOf, hreserved.rows]
          have hforwarded' : List.Forall₂ (Forwarded cache device c _) rows _ :=
            hforwarded.imp fun before _ hrow =>
              ⟨hrow.appending, hsame before ▸ hrow.linear, hsame before ▸ hrow.pending⟩
          have hiff := commitRows_atomic_iff cache device failing hready (htokens haccepts)
            hforwarded' hreserved.owners fun id => ((hframe id).1).trans (hreserved.rows id)
          simpa [haccepts] using hiff

end

/-! ## The speculative append -/

section
variable {γ : Type} (modelId : Nat) (failing : Option Call) (workspace : SpeculativeWorkspace)
variable (onHost : Bool) (selector : Option (LogitSelector γ φ))

/-- The row that a speculative call appends. -/
def speculativeRow (drafted : List Nat) (frontier : SpeculativeFrontier φ)
    (sequence : Sequence n β) : BatchRow n β := ⟨sequence, frontier.token :: drafted⟩

/-- The verification of a pass over the row. -/
def verifyRow (drafted : List Nat) (frontier : SpeculativeFrontier φ) (sequence : Sequence n β)
    (c : C) : Except CudaError (SpeculativeVerification φ) :=
  let row := speculativeRow drafted frontier sequence
  verification device failing selector frontier drafted
    ((device.trace (contentsOf cache row c) row.tokens).map device.logitsOf)

/-- The checks of the verification pass accept the row. -/
abbrev AcceptsRow (row : BatchRow n β) (c : C) : Prop :=
  Accepts cache (checkPrefill device modelId workspace.verify onHost) [row] c

/-- What the append of `[frontier, drafts..]` can do. -/
inductive AppendResult (drafted : List Nat) (frontier : SpeculativeFrontier φ)
    (sequence : Sequence n β) (c : C) :
    (Sequence n β × C) × Except CudaError (SpeculativeVerification φ) → Prop
  | restored (s : Sequence n β) (c' : C) (e : CudaError)
      (state : RestoredRow cache c c' (speculativeRow drafted frontier sequence)
        (speculativeRow drafted frontier s))
      (cause : failing ≠ some (.commitAppend 0) ∧ failing ≠ some .copyFrontier ∨
        ¬ AcceptsRow cache device modelId workspace onHost
          (speculativeRow drafted frontier sequence) c ∨
        ∃ e, verifyRow cache device failing selector drafted frontier sequence c = .error e) :
      AppendResult drafted frontier sequence c ((s, c'), .error e)
  | leftOpen (s : Sequence n β) (c' : C) (e : CudaError) (v : SpeculativeVerification φ)
      (cause : failing = some (.commitAppend 0))
      (accepts : AcceptsRow cache device modelId workspace onHost
        (speculativeRow drafted frontier sequence) c)
      (verified : verifyRow cache device failing selector drafted frontier sequence c = .ok v)
      (cacheId : s.cacheId = sequence.cacheId)
      (pending : (cache.entry c' sequence.cacheId).pending ≠ none) :
      AppendResult drafted frontier sequence c ((s, c'), .error e)
  | advanced (s : Sequence n β) (c' : C) (v : SpeculativeVerification φ)
      (cause : failing ≠ some (.commitAppend 0))
      (accepts : AcceptsRow cache device modelId workspace onHost
        (speculativeRow drafted frontier sequence) c)
      (verified : verifyRow cache device failing selector drafted frontier sequence c = .ok v)
      (state : AdvancedRow cache (v.accepted + 1) c c' (speculativeRow drafted frontier sequence)
        (speculativeRow drafted frontier s))
      (contents : contentsOf cache (speculativeRow drafted frontier s) c' =
        device.feed (contentsOf cache (speculativeRow drafted frontier sequence) c)
          ((frontier.token :: drafted).take (v.accepted + 1))) :
      AppendResult drafted frontier sequence c ((s, c'), .ok v)

theorem verification_accepted_le {failing : Option Call} {selector : Option (LogitSelector γ φ)}
    {frontier : SpeculativeFrontier φ} {drafted : List Nat} {logits : List (List φ)}
    {v : SpeculativeVerification φ}
    (h : verification device failing selector frontier drafted logits = .ok v) :
    v.accepted ≤ drafted.length := by
  unfold verification at h
  split at h
  · cases h
  · obtain ⟨targets, -, h⟩ := bind_ok h
    simp only [pure, Except.pure, Except.ok.injEq] at h
    subst h
    exact acceptedDrafts_le _ _

theorem commit_first_rows (h : Forwarded cache device c c₁ before row)
    (hcount : count ≤ before.tokens.length)
    (howner : cache.owner reservation = before.sequence.cacheId)
    (hrows : (cache.entry c₁ before.sequence.cacheId).rows =
      (cache.entry c before.sequence.cacheId).rows) :
    let c' := cache.commitAppend c₁ reservation count
    let after := (row.mapState fun s => s.withLinear
      (device.feed (contentsOf cache before c) (before.tokens.take count)).1).mapState fun s =>
        s.commitAppend count
    AdvancedRow cache count c c' before after ∧
      contentsOf cache after c' =
        device.feed (contentsOf cache before c) (before.tokens.take count) := by
  intro c' after
  have hid : after.sequence.cacheId = before.sequence.cacheId := h.appending.cacheId
  have hentry : cache.entry c' before.sequence.cacheId =
      (cache.entry c₁ before.sequence.cacheId).commit count := by
    rw [cache.entry_commit, howner, update_self]
  have hcommitted : (cache.entry c' before.sequence.cacheId).rows =
      (device.feed (contentsOf cache before c) (before.tokens.take count)).2 := by
    rw [hentry, CacheEntry.commit, h.pending, hrows]
    exact device.feed_take (contentsOf cache before c) before.tokens hcount
  refine ⟨⟨hid, ?_, ?_, rfl, ?_⟩, ?_⟩
  · exact (h.appending.state.withLinear _).commit_position count
  · rw [hcommitted, device.length_feed, length_take, Nat.min_eq_left hcount]
    rfl
  · rw [hid, hentry]
    rfl
  · have hrows' : (cache.entry c' after.sequence.cacheId).rows = _ := hid ▸ hcommitted
    exact Prod.ext rfl hrows'

theorem abort_restores (hidle : Idle cache c before) (hsame : SameRow before row)
    (howner : cache.owner reservation = before.sequence.cacheId)
    (hrows : (cache.entry c₁ before.sequence.cacheId).rows =
      (cache.entry c before.sequence.cacheId).rows) :
    RestoredRow cache c (cache.abortAppend c₁ reservation) before row := by
  have hentry : cache.entry (cache.abortAppend c₁ reservation) before.sequence.cacheId =
      (cache.entry c₁ before.sequence.cacheId).abort := by
    rw [cache.entry_abort, howner, update_self]
  refine ⟨hsame.cacheId, hsame.state, ?_, hsame.state.appendPending.trans hidle.state, ?_⟩
  · rw [hentry]
    exact hrows
  · rw [hsame.cacheId, hentry]
    rfl

theorem mapState_withLinear_self {linear : LinearStates n β}
    (h : row.sequence.state.linearStates = linear) :
    (row.mapState fun s => s.withLinear linear) = row := by
  subst h
  rfl

variable {drafted : List Nat} {frontier : SpeculativeFrontier φ} {sequence : Sequence n β} {c : C}

section
variable (hidle : Idle cache c (speculativeRow drafted frontier sequence))
include hidle

/-- Behind the forward pass the append ends in one of the three results. -/
theorem commitSpeculative_result (haccepts : AcceptsRow cache device modelId workspace onHost
      (speculativeRow drafted frontier sequence) c)
    (h : Forwarded cache device c c₁ (speculativeRow drafted frontier sequence) row)
    (howner : cache.owner reservation = sequence.cacheId)
    (hrows : (cache.entry c₁ sequence.cacheId).rows = (cache.entry c sequence.cacheId).rows) :
    AppendResult cache device modelId failing workspace onHost selector drafted frontier sequence c
      (commitSpeculative cache device failing selector drafted frontier
        (contentsOf cache (speculativeRow drafted frontier sequence) c) row reservation c₁) := by
  have htokens : row.tokens = frontier.token :: drafted := h.appending.tokens
  have haborted : SameRow (speculativeRow drafted frontier sequence)
      (speculativeRow drafted frontier row.abort.sequence) :=
    ⟨h.appending.cacheId, (h.appending.abort hidle.state).state⟩
  have hrestored := abort_restores cache hidle haborted howner hrows
  unfold commitSpeculative
  rw [htokens]
  cases hverify : verification device failing selector frontier drafted
      ((device.trace (contentsOf cache (speculativeRow drafted frontier sequence) c)
        (frontier.token :: drafted)).map device.logitsOf) with
  | error e => exact .restored _ _ _ hrestored (.inr (.inr ⟨e, hverify⟩))
  | ok v =>
    have haccepted := verification_accepted_le device hverify
    simp only
    by_cases hrestore : v.accepted < drafted.length ∧ failing = some .restoreSnapshot
    · rw [if_pos hrestore]
      exact .restored _ _ _ hrestored (.inl (by simp [hrestore.2]))
    rw [if_neg hrestore]
    by_cases hcommit : failing = some (.commitAppend 0)
    · rw [if_pos hcommit]
      refine .leftOpen _ _ _ v hcommit haccepts hverify ?_ ?_
      · split <;> exact h.appending.cacheId
      · have hpending := h.pending
        simp only [speculativeRow] at hpending
        simp [hpending]
    · rw [if_neg hcommit]
      have hcount : v.accepted + 1 ≤ (speculativeRow drafted frontier sequence).tokens.length := by
        simpa [speculativeRow] using haccepted
      have hcommitted := commit_first_rows cache device h hcount howner hrows
      -- With every draft accepted the pass itself left the last state.
      have hrow : (if v.accepted < drafted.length then
            row.mapState fun s => s.withLinear (device.feed
              (contentsOf cache (speculativeRow drafted frontier sequence) c)
              ((frontier.token :: drafted).take (v.accepted + 1))).1
          else row) = row.mapState fun s => s.withLinear (device.feed
              (contentsOf cache (speculativeRow drafted frontier sequence) c)
              ((frontier.token :: drafted).take (v.accepted + 1))).1 := by
        split
        · rfl
        · have hfull : (frontier.token :: drafted).take (v.accepted + 1) =
              frontier.token :: drafted := take_of_length_le (by simp; omega)
          rw [hfull]
          exact (mapState_withLinear_self h.linear).symm
      rw [hrow]
      obtain ⟨hadvanced, hcontents⟩ := hcommitted
      exact .advanced _ _ v hcommit haccepts hverify
        ⟨hadvanced.cacheId, hadvanced.position, hadvanced.rows,
          hadvanced.idle.state, hadvanced.idle.entry⟩ hcontents

theorem runSpeculative_result
    (hreserved : Reserved cache [speculativeRow drafted frontier sequence] c c₁ [reservation]) :
    AppendResult cache device modelId failing workspace onHost selector drafted frontier sequence c
      (runSpeculative cache device modelId failing workspace onHost selector drafted frontier
        sequence reservation c₁) := by
  have howner : cache.owner reservation = sequence.cacheId := (cons.inj hreserved.owners).1
  unfold runSpeculative
  cases hbegin : sequence.state.beginAppend (failingCopy failing 0) with
  | mk state result =>
  cases result with
  | error e =>
    have hstate := SequenceState.beginAppend_error (congrArg Prod.snd hbegin)
    rw [hbegin] at hstate
    refine .restored _ _ _ (abort_restores cache hidle ⟨rfl, hstate⟩ howner (hreserved.rows _))
      (.inl ?_)
    obtain ⟨copy, hfailing⟩ : ∃ copy, failing = some (.beginAppend 0 copy) := by
      cases hcopy : failingCopy failing 0 with
      | none =>
        have hok := (sequence.state.beginAppend_ok hidle.state).1
        rw [← hcopy, hbegin] at hok
        cases hok
      | some copy => exact ⟨copy, failingCopy_eq_some hcopy⟩
    simp [hfailing]
  | ok _ =>
    have hbegun : BegunRow (speculativeRow drafted frontier sequence)
        ⟨{ sequence with state := state }, frontier.token :: drafted⟩ := by
      have hrow := begin_row hidle.state (congrArg Prod.snd hbegin)
      have hstate : ((speculativeRow drafted frontier sequence).sequence.state.beginAppend
          (failingCopy failing 0)).1 = state := congrArg Prod.fst hbegin
      rw [hstate] at hrow
      exact hrow
    simp only
    generalize (⟨{ sequence with state := state }, frontier.token :: drafted⟩ :
      BatchRow n β) = begun at hbegun ⊢
    have hcheck := check_eq cache (checkPrefill device modelId workspace.verify onHost) hreserved
      (List.Forall₂.cons hbegun .nil)
    have hrestores : ∀ row, AppendingRow (speculativeRow drafted frontier sequence) row →
        RestoredRow cache c (cache.abortAppend c₁ reservation)
          (speculativeRow drafted frontier sequence)
          (speculativeRow drafted frontier row.abort.sequence) := fun row hrow =>
      abort_restores cache hidle ⟨hrow.cacheId, (hrow.abort hidle.state).state⟩ howner
        (hreserved.rows _)
    unfold forward
    cases hresult : checkPrefill device modelId workspace.verify onHost
        ([begun].map BatchRow.limits) ([reservation].map cache.startPosition) with
    | error e =>
      refine .restored _ _ _ (hrestores begun hbegun.toAppendingRow) (.inr (.inl fun haccepts => ?_))
      rw [hcheck.mpr haccepts] at hresult
      cases hresult
    | ok _ =>
      by_cases hforward : failing = some .forward
      · rw [if_pos hforward]
        exact .restored _ _ _ (hrestores _ (hbegun.toAppendingRow.withLinear _))
          (.inl (by simp [hforward]))
      · rw [if_neg hforward]
        obtain ⟨hforwarded, hframe⟩ := forwardRows_spec cache device
          (c := c₁) (List.Forall₂.cons hbegun .nil) hreserved.owners (by simp)
        obtain ⟨hrow, -⟩ := forall₂_cons.mp hforwarded
        have hcontents : contentsOf cache (speculativeRow drafted frontier sequence) c₁ =
            contentsOf cache (speculativeRow drafted frontier sequence) c := by
          simp [contentsOf, hreserved.rows]
        have hbegan : contentsOf cache begun c₁ =
            contentsOf cache (speculativeRow drafted frontier sequence) c := by
          rw [← hcontents]
          simp [contentsOf, hbegun.linear, hbegun.cacheId]
        rw [hbegan]
        exact commitSpeculative_result cache device modelId failing workspace onHost selector hidle
          (hcheck.mp hresult) ⟨hrow.appending, hcontents ▸ hrow.linear, hcontents ▸ hrow.pending⟩
          howner (((hframe _).1).trans (hreserved.rows _))

theorem speculativeAppend_result :
    AppendResult cache device modelId failing workspace onHost selector drafted frontier sequence c
      (speculativeAppend cache device modelId failing workspace onHost selector drafted frontier
        sequence c) := by
  unfold speculativeAppend
  split
  · rename_i hreserve
    exact .restored _ _ _ ⟨rfl, .refl _, rfl, hidle⟩ (.inl (by simp [hreserve]))
  · apply runSpeculative_result cache device modelId failing workspace onHost selector hidle
    constructor
    · simp [cache.owner_reserve, speculativeRow]
    · simp [cache.start_reserve, speculativeRow]
    · exact rows_reserve cache c sequence.cacheId _

end

/-- The outcome of a speculative call, as one on a batch of one row. -/
def asBatch {α : Type} (tokens : List Nat)
    (outcome : (Sequence n β × C × SpeculativeFrontier φ) × Except CudaError α) :
    (List (BatchRow n β) × C) × Except CudaError α :=
  (([⟨outcome.1.1, tokens⟩], outcome.1.2.1), outcome.2)

/-- The failing call comes too late for the rollback of a speculative call: the
row passes the checks and the verification, and then `commit_append` fails, or
the copy of the next frontier behind it, if verification yields one. -/
def FailsVerified (drafted : List Nat) (frontier : SpeculativeFrontier φ)
    (sequence : Sequence n β) (c : C) : Prop :=
  AcceptsRow cache device modelId workspace onHost (speculativeRow drafted frontier sequence) c ∧
    ∃ v, verifyRow cache device none selector drafted frontier sequence c = .ok v ∧
      (failing = some (.commitAppend 0) ∨
        failing = some .copyFrontier ∧ v.accepted < v.argmax.length)

theorem verifyRow_eq (h : failing ≠ some .verification) :
    verifyRow cache device failing selector drafted frontier sequence c =
      verifyRow cache device none selector drafted frontier sequence c := by
  simp [verifyRow, verification, h]

theorem verification_lengths {failing : Option Call} {logits : List (List φ)}
    {v : SpeculativeVerification φ}
    (h : verification device failing selector frontier drafted logits = .ok v) :
    v.argmax.length = v.nextLogits.length := by
  unfold verification at h
  split at h
  · cases h
  · obtain ⟨targets, -, h⟩ := bind_ok h
    simp only [pure, Except.pure, Except.ok.injEq] at h
    subst h
    simp

/-- A row whose append is still open in the cache is not restored. -/
theorem not_restored_of_pending {s : Sequence n β} (hid : s.cacheId = sequence.cacheId)
    (hpending : (cache.entry c' sequence.cacheId).pending ≠ none) :
    ¬ RestoredRow cache c c' (speculativeRow drafted frontier sequence)
      (speculativeRow drafted frontier s) := fun hrestored => by
  have hentry := hrestored.idle.entry
  simp only [speculativeRow, hid] at hentry
  exact hpending hentry

theorem not_restored_of_advanced {after : BatchRow n β}
    (h : AdvancedRow cache (count + 1) c c' before after) :
    ¬ RestoredRow cache c c' before after := fun hrestored => by
  have hposition := h.position
  rw [hrestored.state.position] at hposition
  omega

section
variable (hready : Ready cache c [speculativeRow drafted frontier sequence])
include hready

theorem verifyExternalSpeculative_atomic_iff :
    Atomic cache [speculativeRow drafted frontier sequence] c
        (asBatch (frontier.token :: drafted) (verifyExternalSpeculative cache device modelId failing
          workspace onHost selector drafted frontier sequence c)) ↔
      ¬ (0 < drafted.length ∧ drafted.length ≤ workspace.drafts ∧
        FailsVerified cache device modelId failing workspace onHost selector drafted frontier
          sequence c) := by
  have hidle := hready.idle _ mem_cons_self
  unfold verifyExternalSpeculative
  split
  · refine iff_of_true (.cons ⟨rfl, .refl _, rfl, hidle⟩ .nil) ?_
    rintro ⟨hpos, hle, -⟩
    omega
  have hbounds : 0 < drafted.length ∧ drafted.length ≤ workspace.drafts := by omega
  have hresult := speculativeAppend_result cache device modelId failing workspace onHost selector
    hidle
  generalize speculativeAppend cache device modelId failing workspace onHost selector drafted
    frontier sequence c = appended at hresult ⊢
  cases hresult with
  | restored s c' e hstate hcause =>
    refine iff_of_true (.cons hstate .nil) ?_
    rintro ⟨-, -, haccepts, v, hverified, hfailing⟩
    obtain ⟨hcommit, hcopy⟩ | hrejects | ⟨e, herror⟩ := hcause
    · exact hfailing.elim hcommit fun h => hcopy h.1
    · exact hrejects haccepts
    · rw [verifyRow_eq cache device failing selector, hverified] at herror
      · cases herror
      · rintro rfl
        simp at hfailing
  | leftOpen s c' e v hcommit haccepts hverified hid hpending =>
    refine iff_of_false (fun hatomic => ?_) (not_not_intro ⟨hbounds.1, hbounds.2, haccepts, v, ?_,
      .inl hcommit⟩)
    · exact not_restored_of_pending cache hid hpending (forall₂_cons.mp hatomic).1
    · rw [← verifyRow_eq cache device failing selector (by simp [hcommit])]
      exact hverified
  | advanced s c' v hcommit haccepts hverified hstate hcontents =>
    have hlengths := verification_lengths device selector hverified
    simp only
    by_cases hnext : v.accepted < v.argmax.length
    · rw [getElem?_eq_getElem hnext, getElem?_eq_getElem (hlengths ▸ hnext)]
      simp only
      by_cases hcopy : failing = some .copyFrontier
      · rw [if_pos hcopy]
        refine iff_of_false (fun hatomic => ?_) (not_not_intro ⟨hbounds.1, hbounds.2, haccepts, v,
          ?_, .inr ⟨hcopy, hnext⟩⟩)
        · exact not_restored_of_advanced cache hstate (forall₂_cons.mp hatomic).1
        · rw [← verifyRow_eq cache device failing selector (by simp [hcopy])]
          exact hverified
      · rw [if_neg hcopy]
        refine iff_of_true (.cons ⟨_, hstate⟩ .nil) ?_
        rintro ⟨-, -, -, v', -, hlate⟩
        exact hlate.elim hcommit fun h => hcopy h.1
    · rw [getElem?_eq_none (by omega)]
      refine iff_of_true (.cons ⟨_, hstate⟩ .nil) ?_
      rintro ⟨-, -, -, v', hverified', hlate⟩
      obtain hlate | ⟨hcopy, hlt⟩ := hlate
      · exact hcommit hlate
      · rw [← verifyRow_eq cache device failing selector (by simp [hcopy]), hverified] at hverified'
        cases hverified'
        exact hnext hlt

theorem speculativeCycleArgmax_atomic_iff :
    Atomic cache [speculativeRow drafted frontier sequence] c
        (asBatch (frontier.token :: drafted) (speculativeCycleArgmax cache device modelId failing
          workspace drafted frontier sequence c)) ↔
      ¬ (workspace.mtp = true ∧ 0 < drafted.length ∧ drafted.length ≤ workspace.drafts ∧
        AcceptsRow cache device modelId workspace true
          (speculativeRow drafted frontier sequence) c ∧
        failing = some (.commitAppend 0)) := by
  have hidle := hready.idle _ mem_cons_self
  have hrestored : RestoredRow cache c c (speculativeRow drafted frontier sequence)
      (speculativeRow drafted frontier sequence) := ⟨rfl, .refl _, rfl, hidle⟩
  unfold speculativeCycleArgmax
  split
  · rename_i hmtp
    refine iff_of_true (.cons hrestored .nil) ?_
    rintro ⟨hmtp', -⟩
    simp [hmtp] at hmtp'
  split
  · refine iff_of_true (.cons hrestored .nil) ?_
    rintro ⟨-, hpos, hle, -⟩
    omega
  split
  · rename_i hdraft
    refine iff_of_true (.cons hrestored .nil) ?_
    rintro ⟨-, -, -, -, hcommit⟩
    simp [hdraft] at hcommit
  rename_i hmtp hbounds hdraft
  have hresult := speculativeAppend_result cache device modelId failing workspace true
    (none : Option (LogitSelector Unit φ)) hidle
  generalize speculativeAppend cache device modelId failing workspace true
    (none : Option (LogitSelector Unit φ)) drafted frontier sequence c = appended at hresult ⊢
  cases hresult with
  | restored s c' e hstate hcause =>
    refine iff_of_true (.cons hstate .nil) ?_
    rintro ⟨-, -, -, haccepts, hcommit⟩
    obtain ⟨hnot, -⟩ | hrejects | ⟨e, herror⟩ := hcause
    · exact hnot hcommit
    · exact hrejects haccepts
    · -- Without a selector the verification has a target for every row.
      simp [verifyRow, verification, hcommit, verificationTargets, bind, Except.bind, pure,
        Except.pure] at herror
  | leftOpen s c' e v hcommit haccepts hverified hid hpending =>
    refine iff_of_false (fun hatomic => ?_) (not_not_intro ⟨by simpa using hmtp, by omega,
      by omega, haccepts, hcommit⟩)
    exact not_restored_of_pending cache hid hpending (forall₂_cons.mp hatomic).1
  | advanced s c' v hcommit haccepts hverified hstate hcontents =>
    refine iff_of_true (.cons ⟨_, hstate⟩ .nil) ?_
    rintro ⟨-, -, -, -, hcommit'⟩
    exact hcommit hcommit'

end

end

/-! ## The four calls -/

theorem checkPrefill_tokens {modelId : Nat} {workspace : PrefillWorkspace} {onHost : Bool}
    {rows : List RowLimits} {starts : List Nat}
    (h : checkPrefill device modelId workspace onHost rows starts = .ok ()) :
    ∀ row ∈ rows, row.tokens ≠ [] := by
  intro row hmem
  obtain ⟨_, -, h⟩ := bind_ok h
  obtain ⟨_, -, h⟩ := bind_ok h
  obtain ⟨_, -, h⟩ := bind_ok h
  obtain ⟨_, -, h⟩ := bind_ok h
  obtain ⟨_, -, h⟩ := bind_ok h
  obtain ⟨_, hrows, -⟩ := bind_ok h
  obtain ⟨_, hempty, -⟩ := bind_ok (checkEach_ok hrows row hmem)
  simpa using rejectIf_ok hempty

/-- Every call that appends to sequences is atomic unless the failing call comes
behind what its rollback covers: for a batch, the commit of a row behind the
first; for a speculative call, the commit or the copy of the next frontier. -/
theorem batch_calls_atomic_iff {γ : Type} (modelId : Nat) (failing : Option Call) :
    (∀ (workspace : PrefillWorkspace) (rows : List (BatchRow n β)) (c : C),
      Ready cache c rows →
        (Atomic cache rows c (prefillBatch cache device modelId failing workspace rows c) ↔
          ¬ (FailsLate failing rows.length ∧
            Accepts cache (checkPrefill device modelId workspace true) rows c))) ∧
    (∀ (workspace : DecodeWorkspace) (rows : List (DecodeRow n β)) (c : C),
      Ready cache c (rows.map DecodeRow.toBatchRow) →
        (Atomic cache (rows.map DecodeRow.toBatchRow) c
            (executeDecodeBatch cache device modelId failing workspace rows c) ↔
          ¬ (FailsLate failing rows.length ∧
            Accepts cache (checkDecode device modelId workspace)
              (rows.map DecodeRow.toBatchRow) c))) ∧
    (∀ (workspace : SpeculativeWorkspace) (onHost : Bool) (selector : Option (LogitSelector γ φ))
        (drafted : List Nat) (frontier : SpeculativeFrontier φ) (sequence : Sequence n β) (c : C),
      Ready cache c [speculativeRow drafted frontier sequence] →
        (Atomic cache [speculativeRow drafted frontier sequence] c
            (asBatch (frontier.token :: drafted) (verifyExternalSpeculative cache device modelId
              failing workspace onHost selector drafted frontier sequence c)) ↔
          ¬ (0 < drafted.length ∧ drafted.length ≤ workspace.drafts ∧
            FailsVerified cache device modelId failing workspace onHost selector drafted frontier
              sequence c))) ∧
    (∀ (workspace : SpeculativeWorkspace) (drafted : List Nat) (frontier : SpeculativeFrontier φ)
        (sequence : Sequence n β) (c : C),
      Ready cache c [speculativeRow drafted frontier sequence] →
        (Atomic cache [speculativeRow drafted frontier sequence] c
            (asBatch (frontier.token :: drafted) (speculativeCycleArgmax cache device modelId
              failing workspace drafted frontier sequence c)) ↔
          ¬ (workspace.mtp = true ∧ 0 < drafted.length ∧ drafted.length ≤ workspace.drafts ∧
            AcceptsRow cache device modelId workspace true
              (speculativeRow drafted frontier sequence) c ∧
            failing = some (.commitAppend 0)))) := by
  refine ⟨?_, ?_, ?_, ?_⟩
  · intro workspace rows c hready
    apply appendBatch_atomic_iff cache device failing _ hready
    intro haccepts row hrow
    exact checkPrefill_tokens device haccepts row.limits (mem_map_of_mem hrow)
  · intro workspace rows c hready
    have hiff := appendBatch_atomic_iff cache device failing
      (checkDecode device modelId workspace) hready ?_
    · rw [length_map] at hiff
      exact hiff
    · intro _ row hrow
      obtain ⟨decodeRow, -, rfl⟩ := mem_map.mp hrow
      exact cons_ne_nil _ _
  · intro workspace onHost selector drafted frontier sequence c hready
    exact verifyExternalSpeculative_atomic_iff cache device modelId failing workspace onHost
      selector hready
  · intro workspace drafted frontier sequence c hready
    exact speculativeCycleArgmax_atomic_iff cache device modelId failing workspace hready

/-! ## A small instance -/

/-- A cache that keeps its entries in a function, with reservations that hold
their owner and start. -/
def tableCache : SequenceCache (Nat → CacheEntry Nat) (Nat × Nat) Nat where
  entry c := c
  owner := Prod.fst
  startPosition := Prod.snd
  reserveAppend c id _ := ((id, (c id).rows.length), update c id (c id).reserve)
  writeAppend c r written := update c r.1 ((c r.1).write written)
  commitAppend c r rows := update c r.1 ((c r.1).commit rows)
  abortAppend c r := update c r.1 (c r.1).abort
  owner_reserve _ _ _ := rfl
  start_reserve _ _ _ := rfl
  entry_reserve _ _ _ := rfl
  entry_write _ _ _ := rfl
  entry_commit _ _ _ := rfl
  entry_abort _ _ := rfl

/-- A device whose K/V row is the token and whose argmax is the next number. -/
def countingDevice : Device 0 Unit Nat Nat where
  vocab := 10
  advance linear _ token := (linear, token)
  logits _ rows := rows.getLast?.toList
  top1 logits := ⟨logits.headD 0 + 1, 0⟩
  interrupted linear _ := linear

def emptySequence (cacheId : Nat) : Sequence 0 Unit where
  cacheId := cacheId
  state :=
    { modelId := 1, linearStates := fun _ => ⟨(), ()⟩, rollbackLinearStates := fun _ => ⟨(), ()⟩,
      rollbackPosition := 0, appendPending := false, position := 0, maxTokens := 8 }

def emptyCache : Nat → CacheEntry Nat := fun _ => ⟨[], none⟩

def twoRows : List (BatchRow 0 Unit) := [⟨emptySequence 0, [3]⟩, ⟨emptySequence 1, [4, 5]⟩]

def smallWorkspace : PrefillWorkspace := ⟨1, 2, 8, 8⟩

theorem twoRows_ready : Ready tableCache emptyCache twoRows := by
  refine ⟨?_, by decide⟩
  intro row hrow
  simp only [twoRows, mem_cons, not_mem_nil, or_false] at hrow
  obtain rfl | rfl := hrow <;> exact ⟨rfl, rfl⟩

/-- A batch of two rows whose second state append fails to begin is atomic. -/
theorem two_rows_atomic : Ready tableCache emptyCache twoRows ∧
    Atomic tableCache twoRows emptyCache (prefillBatch tableCache countingDevice 1
      (some (.beginAppend 1 0)) smallWorkspace twoRows emptyCache) := by
  refine ⟨twoRows_ready, ?_⟩
  have hiff := (batch_calls_atomic_iff (γ := Unit) tableCache countingDevice 1
    (some (.beginAppend 1 0))).1 smallWorkspace twoRows emptyCache twoRows_ready
  refine hiff.mpr ?_
  rintro ⟨⟨row, hrow, -⟩, -⟩
  cases hrow

/-- A commit that fails on the second of two rows leaves the first committed, and
a commit that fails in a speculative call leaves its reservation open. -/
theorem late_commits_not_atomic :
    ¬ Atomic tableCache twoRows emptyCache (prefillBatch tableCache countingDevice 1
        (some (.commitAppend 1)) smallWorkspace twoRows emptyCache) ∧
      ¬ Atomic tableCache [speculativeRow [4] ⟨3, 0⟩ (emptySequence 0)] emptyCache
        (asBatch [3, 4] (speculativeCycleArgmax tableCache countingDevice 1
          (some (.commitAppend 0)) ⟨2, smallWorkspace, true⟩ [4] ⟨3, 0⟩ (emptySequence 0)
          emptyCache)) := by
  constructor
  · intro hatomic
    have hiff := appendBatch_atomic_iff tableCache countingDevice (some (.commitAppend 1))
      (checkPrefill countingDevice 1 smallWorkspace true) twoRows_ready fun _ => by decide
    exact hiff.mp hatomic ⟨⟨1, rfl, by decide, by decide⟩, rfl⟩
  · intro hatomic
    have hready : Ready tableCache emptyCache [speculativeRow [4] ⟨3, 0⟩ (emptySequence 0)] :=
      ⟨by simpa using ⟨rfl, rfl⟩, by simp⟩
    have hiff := speculativeCycleArgmax_atomic_iff tableCache countingDevice 1
      (some (.commitAppend 0)) ⟨2, smallWorkspace, true⟩ hready
    exact hiff.mp hatomic ⟨rfl, by decide, by decide, rfl, rfl⟩

end Eider.Guarantees.BatchAtomicity
