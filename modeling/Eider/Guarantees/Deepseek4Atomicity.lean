import Eider.Source.Deepseek4.Model

/-!
Failing calls of the DeepSeek V4 batches. A batch that returns an error should leave every
target sequence as it was, with no append open, and every MTP sequence in step with its
target.

The rollback helper is called behind the decoder and behind one synchronize only. The
copies and kernels of the head return early and leave both appends open; a commit that
fails behind the first row leaves the rows before it committed; and whatever fails behind
the first MTP commit, or behind the target commit that the MTP rows follow, leaves the two
stores out of step. `append_calls_restore_iff` shows that nothing else does.
-/
namespace Eider.Guarantees.Deepseek4Atomicity
open Lib Source.Deepseek4 List Ensures Function
open Source (CudaError rejectIf checkEach)

variable {L κ H Φ α : Type}
variable {β : Type} {row : BatchRow L κ H} {σ : Type} {call : TargetCall} {lane : Lane L κ H}

/-! ## The property -/

/-- No append of the sequence is open, and state and cache stand at one position. -/
structure Idle (q : Sequence L κ) : Prop where
  appendPending : q.state.appendPending = false
  transactional : q.state.rollbackLayers.length = q.state.layers.length
  pending : q.entry.pending = none
  position : q.entry.rows.length = q.state.position

/-- The sequence is as it was, with nothing open. -/
structure Restored (before after : Sequence L κ) : Prop where
  layers : after.state.layers = before.state.layers
  position : after.state.position = before.state.position
  maxTokens : after.state.maxTokens = before.state.maxTokens
  rows : after.entry.rows = before.entry.rows
  idle : Idle after

/-- The MTP sequence is in step with its target, with nothing open. -/
structure InStep (q : Sequence L κ) (m : MtpSequence H) : Prop where
  pending : m.entry.pending = none
  position : m.position + m.deferredToken.toList.length = q.state.position

/-- The oracle of a single failing call. -/
def only {ι : Type} [DecidableEq ι] (failing : Option ι) (call : ι) : Bool :=
  decide (failing = some call)

/-- Whenever the program fails on `rows`, what it leaves is related to them by `R`. -/
def Restores {β : Type} (R : β → β → Prop) (m : EStateM CudaError (List β) α) (rows : List β) :
    Prop :=
  ∀ e after, m rows = .error e after → List.Forall₂ R rows after

theorem only_eq_true {ι : Type} [DecidableEq ι] {failing : Option ι} {call : ι} :
    only failing call = true ↔ failing = some call := by
  exact decide_eq_true_iff

/-- The first row is not as `R` wants it. -/
def Broken {β : Type} (R : β → β → Prop) (rows after : List β) : Prop :=
  ∃ row row', rows.head? = some row ∧ after.head? = some row' ∧ ¬ R row row'

theorem Broken.not_forall₂ {R : β → β → Prop} {rows after : List β} (h : Broken R rows after) :
    ¬ List.Forall₂ R rows after := by
  obtain ⟨row, row', hrow, hrow', hbroken⟩ := h
  intro hall
  cases hall with
  | nil => cases hrow
  | cons hhead _ =>
    cases hrow
    cases hrow'
    exact hbroken hhead

/-- A program that restores its rows unless a late cause fails it. -/
theorem restores_iff {R : β → β → Prop} {m : EStateM CudaError (List β) α} {rows : List β}
    {Late : Prop} (h : Ensures m rows (fun _ _ => ¬ Late) fun _ after =>
      (List.Forall₂ R rows after ∧ ¬ Late) ∨ (Broken R rows after ∧ Late)) :
    Restores R m rows ↔ ¬ Late := by
  unfold Ensures at h
  unfold Restores
  cases hrun : m rows with
  | ok a after =>
    rw [hrun] at h
    simpa using h
  | error e after =>
    rw [hrun] at h
    obtain ⟨hrestored, hlate⟩ | ⟨hrestored, hlate⟩ := h
    · refine ⟨fun _ => hlate, fun _ _ _ heq => ?_⟩
      cases heq
      exact hrestored
    · exact ⟨fun hall => absurd (hall e after rfl) hrestored.not_forall₂,
        fun hnot => absurd hlate hnot⟩

/-! ## One row -/

/-- A row whose state append is open. -/
def openState (row : BatchRow L κ H) : BatchRow L κ H :=
  row.mapState fun s => { s with
    rollbackLayers := s.layers
    rollbackPosition := s.position
    appendPending := true }

/-- A row whose appends are both open. -/
def opened (row : BatchRow L κ H) : BatchRow L κ H := openState row.reserve

variable (device : Device L κ H Φ) {before after : BatchRow L κ H}

/-- The row behind the decoder. -/
def passed (row : BatchRow L κ H) : BatchRow L κ H :=
  (opened row).pass device

/-- The row behind its commit. -/
def appended (row : BatchRow L κ H) : BatchRow L κ H :=
  (passed device row).commit row.tokenIds.length

/-- What an open append keeps of the row before it. -/
structure Open (before after : BatchRow L κ H) : Prop where
  rollbackLayers : after.sequence.state.rollbackLayers = before.sequence.state.layers
  rollbackPosition : after.sequence.state.rollbackPosition = before.sequence.state.position
  appendPending : after.sequence.state.appendPending = true
  maxTokens : after.sequence.state.maxTokens = before.sequence.state.maxTokens
  rows : after.sequence.entry.rows = before.sequence.entry.rows

/-- Rows and their sequences as they were. -/
abbrev RestoredRow (before after : BatchRow L κ H) : Prop :=
  Restored before.sequence after.sequence

theorem Idle.restored {q : Sequence L κ} (h : Idle q) : Restored q q := ⟨rfl, rfl, rfl, rfl, h⟩

theorem opened_open (row : BatchRow L κ H) : Open row (opened row) := ⟨rfl, rfl, rfl, rfl, rfl⟩

theorem passed_open (row : BatchRow L κ H) :
    Open row (passed device row) := ⟨rfl, rfl, rfl, rfl, rfl⟩

theorem Open.abort (h : Open before after)
    (hidle : Idle before.sequence) : RestoredRow before after.abort := by
  have hstate : after.sequence.state.abortAppend.1 = { after.sequence.state with
      layers := after.sequence.state.rollbackLayers
      position := after.sequence.state.rollbackPosition
      appendPending := false } := by
    simp [SequenceState.abortAppend, h.appendPending]
  constructor
  · change after.sequence.state.abortAppend.1.layers = _
    rw [hstate, ← h.rollbackLayers]
  · change after.sequence.state.abortAppend.1.position = _
    rw [hstate, ← h.rollbackPosition]
  · change after.sequence.state.abortAppend.1.maxTokens = _
    rw [hstate, ← h.maxTokens]
  · exact h.rows
  · constructor
    · change after.sequence.state.abortAppend.1.appendPending = false
      rw [hstate]
    · change after.sequence.state.abortAppend.1.rollbackLayers.length =
        after.sequence.state.abortAppend.1.layers.length
      rw [hstate]
    · rfl
    · change after.sequence.entry.rows.length = after.sequence.state.abortAppend.1.position
      rw [hstate, h.rows, hidle.position, ← h.rollbackPosition]

theorem Open.not_restored (h : Open before after) : ¬ RestoredRow before after := by
  intro hrestored
  have hpending := hrestored.idle.appendPending
  rw [h.appendPending] at hpending
  cases hpending

theorem appended_not_restored {device : Device L κ H Φ} (h : row.tokenIds ≠ []) :
    ¬ RestoredRow row (appended device row) := by
  intro hrestored
  have hposition : row.sequence.state.position + row.tokenIds.length =
      row.sequence.state.position := hrestored.position
  have hlength := length_pos_iff.mpr h
  omega

theorem abortReservation_restored (hidle : Idle row.sequence) (s : SequenceState L)
    (hlayers : s.layers = row.sequence.state.layers)
    (hrollback : s.rollbackLayers.length = row.sequence.state.rollbackLayers.length)
    (hposition : s.position = row.sequence.state.position)
    (hmax : s.maxTokens = row.sequence.state.maxTokens) (hpending : s.appendPending = false) :
    RestoredRow row (row.reserve.mapState fun _ => s).abortReservation := by
  refine ⟨hlayers, hposition, hmax, rfl, hpending, ?_, rfl, ?_⟩
  · change s.rollbackLayers.length = s.layers.length
    rw [hrollback, hlayers, hidle.transactional]
  · change row.sequence.entry.rows.length = s.position
    rw [hposition, hidle.position]

theorem begin_cases (hidle : Idle row.sequence) (fails : Nat → Bool) :
    (row.reserve.begin fails = (opened row, .ok ()) ∧
      ∀ layer < row.sequence.state.layers.length, fails layer = false) ∨
    ∃ s e, row.reserve.begin fails = (row.reserve.mapState fun _ => s, .error e) ∧
      RestoredRow row (row.reserve.mapState fun _ => s).abortReservation ∧
      ∃ layer < row.sequence.state.layers.length, fails layer = true := by
  have hguard : ¬ (row.sequence.state.appendPending ∨
      row.sequence.state.rollbackLayers.length ≠ row.sequence.state.layers.length) := by
    simp [hidle.appendPending, hidle.transactional]
  have hbegin : row.reserve.begin fails =
      (row.reserve.mapState fun _ => (row.sequence.state.beginAppend fails).1,
        (row.sequence.state.beginAppend fails).2) := rfl
  rw [hbegin, SequenceState.beginAppend, if_neg hguard]
  cases hfind : (range row.sequence.state.layers.length).find? fails with
  | none =>
    left
    refine ⟨rfl, fun layer hlayer => ?_⟩
    have hnone := find?_eq_none.mp hfind layer (mem_range.mpr hlayer)
    exact Bool.eq_false_iff.mpr hnone
  | some layer =>
    right
    have hlayer := mem_range.mp (mem_of_find?_eq_some hfind)
    refine ⟨_, _, rfl, ?_, layer, hlayer, find?_some hfind⟩
    refine abortReservation_restored hidle _ rfl ?_ rfl rfl hidle.appendPending
    simp only [length_append, length_take, length_drop]
    omega

/-! ## Calls that change no row -/

theorem reach_ensures (fails : Bool) (call : String) (s : σ) :
    Ensures (reach fails call) s (fun _ t => t = s ∧ fails = false)
      (fun _ t => t = s ∧ fails = true) := by
  cases fails
  · exact ⟨rfl, rfl⟩
  · exact ⟨rfl, rfl⟩

theorem reachRows_ensures (fails : Nat → Bool) (call : String) (count : Nat) (s : σ) :
    Ensures (reachRows fails call count) s (fun _ t => t = s ∧ ∀ i < count, fails i = false)
      (fun _ t => t = s ∧ ∃ i < count, fails i = true) := by
  refine (reach_ensures _ call s).mono ?_ ?_
  · rintro _ t ⟨rfl, hany⟩
    refine ⟨rfl, fun i hi => ?_⟩
    have hnone := any_eq_false.mp hany i (mem_range.mpr hi)
    exact Bool.eq_false_iff.mpr hnone
  · rintro _ t ⟨rfl, hany⟩
    obtain ⟨i, hi, hfails⟩ := any_eq_true.mp hany
    exact ⟨rfl, i, mem_range.mp hi, hfails⟩

theorem check_ensures (result : Except CudaError Unit) (s : σ) :
    Ensures (check result) s (fun _ t => t = s ∧ result = .ok ())
      (fun _ t => t = s ∧ result ≠ .ok ()) := by
  cases result with
  | ok _ => exact ⟨rfl, rfl⟩
  | error e => exact ⟨rfl, nofun⟩

/-! ## The phases of a target batch -/

inductive Phase where
  | opening
  | decoding
  | projecting
  | synchronizing
  | committing
deriving DecidableEq

def phase : TargetCall → Phase
  | .reserveAppend _ | .beginAppend _ _ => .opening
  | .embedding | .layer _ => .decoding
  | .finalStream _ | .hyperHead | .finalNorm | .lmHead => .projecting
  | .synchronize => .synchronizing
  | .commitAppend _ => .committing

theorem eq_synchronize (h : phase call = .synchronizing) : call = .synchronize := by
  cases call <;> first | rfl | cases h

/-- The calls that a batch of these rows makes when none before them fails. -/
def Reached (rows : List (BatchRow L κ H)) : TargetCall → Prop
  | .reserveAppend row | .finalStream row | .commitAppend row => row < rows.length
  | .beginAppend row layer => ∃ r, rows[row]? = some r ∧ layer < r.sequence.state.layers.length
  | .layer index => index < device.layers
  | .embedding | .hyperHead | .finalNorm | .lmHead | .synchronize => True

section
variable (device : Device L κ H Φ) (fails : TargetCall → Bool) (workspace : BatchWorkspace)
variable (rows : List (BatchRow L κ H))

/-- No call of the phase fails. -/
def Clear (p : Phase) : Prop :=
  ∀ call, phase call = p → Reached device rows call → fails call = false

/-- A call of the phase fails. -/
def Hit (p : Phase) : Prop :=
  ∃ call, phase call = p ∧ Reached device rows call ∧ fails call = true

/-- The rows pass `validate_model_rows`. -/
def Accepts : Prop := validateModelRows device workspace rows = .ok ()

variable {rows}

section
variable (hidle : ∀ row ∈ rows, Idle row.sequence) {after : List (BatchRow L κ H)}
include hidle

theorem reserveModelRows_ensures :
    Ensures (reserveModelRows fails) rows
      (fun _ after => after = rows.map opened ∧ Clear device fails rows .opening)
      (fun _ after => List.Forall₂ RestoredRow rows after ∧ Hit device fails rows .opening) := by
  have hback : ∀ row ∈ rows, RestoredRow row row.reserve.abortReservation := fun row hrow =>
    abortReservation_restored (hidle row hrow) _ rfl rfl rfl rfl (hidle row hrow).appendPending
  have hreserve := Ensures.sweep_failAt BatchRow.abortReservation id
    (fun row => fails (.reserveAppend row)) (cacheError "reserve_append") id BatchRow.reserve rows
    RestoredRow hback
    (fun row hrow => (hidle row hrow).restored) fun row hrow => (hidle row hrow).restored
  refine hreserve.bind_mono ?_ ?_
  · rintro e after ⟨hrestored, -, i, hi, hfails⟩
    exact ⟨hrestored, .reserveAppend i, rfl, hi, hfails⟩
  · rintro _ _ ⟨rfl, hreserved⟩
    have hbegin := Ensures.sweep
      (fun index row => row.begin fun layer => fails (.beginAppend index layer))
      BatchRow.abortState id rows BatchRow.reserve opened
      (fun row after => RestoredRow row after.abortReservation)
      (fun i row => ∀ layer < row.sequence.state.layers.length,
        fails (.beginAppend i layer) = false)
      (fun i row _ => ∃ layer < row.sequence.state.layers.length,
        fails (.beginAppend i layer) = true)
      (fun i row hrow => (begin_cases (hidle row hrow) _).imp id
        fun ⟨_, e, hstep, hrestored, hhit⟩ => ⟨_, e, hstep, hrestored, hhit⟩)
      (fun row hrow => (opened_open row).abort (hidle row hrow)) hback
    refine (hbegin.imp ?_).onError ?_
    · rintro _ _ ⟨rfl, hbegun⟩
      refine ⟨rfl, ?_⟩
      rintro (i | ⟨i, layer⟩ | _ | _ | _ | _ | _ | _ | _ | _) hphase hreached
      case reserveAppend => exact hreserved i hreached
      case beginAppend =>
        obtain ⟨row, hget, hlayer⟩ := hreached
        exact hbegun i row hget layer hlayer
      all_goals cases hphase
    · rintro e after ⟨hrows, i, row, hget, layer, hlayer, hfails⟩
      refine ⟨?_, .beginAppend i layer, rfl, ⟨row, hget, hlayer⟩, hfails⟩
      rwa [forall₂_map_right_iff]

omit hidle in
theorem checkEach_map {γ : Type} (f : γ → Except CudaError Unit) (g : β → γ) (xs : List β) :
    checkEach f (xs.map g) = checkEach (fun x => f (g x)) xs := by
  induction xs with
  | nil => rfl
  | cons x xs ih => simp only [map_cons, checkEach, ih]

omit hidle in
theorem validate_opened :
    validateModelRows device workspace (rows.map opened) =
      validateModelRows device workspace rows := by
  unfold validateModelRows
  rw [checkEach_map]
  simp only [map_map, length_map, map_eq_nil_iff]
  rfl

omit hidle in
theorem Accepts.rows_ne_nil {device : Device L κ H Φ} {workspace : BatchWorkspace}
    (h : Accepts device workspace rows) : rows ≠ [] :=
  ((validateModelRows_ok_iff ..).mp h).1

omit hidle in
theorem Accepts.tokens_ne_nil {device : Device L κ H Φ} {workspace : BatchWorkspace}
    (h : Accepts device workspace rows) : ∀ row ∈ rows, row.tokenIds ≠ [] := by
  obtain ⟨-, -, hrows, -⟩ := (validateModelRows_ok_iff ..).mp h
  exact fun row hrow => ((validateModelRow_ok_iff ..).mp (hrows row hrow)).1

omit hidle in
theorem runLayers_ensures :
    Ensures (runLayers device fails) (rows.map opened)
      (fun _ after => after = rows.map (passed device) ∧
        ∀ layer < device.layers, fails (.layer layer) = false)
      (fun _ after => List.Forall₂ Open rows after ∧
        ∃ layer < device.layers, fails (.layer layer) = true) := by
  unfold runLayers
  cases hfind : (range device.layers).find? fun layer => fails (.layer layer) with
  | none =>
    apply Ensures.modify
    refine ⟨map_map, fun layer hlayer => ?_⟩
    exact Bool.eq_false_iff.mpr (find?_eq_none.mp hfind layer (mem_range.mpr hlayer))
  | some layer =>
    apply modify_bind
    apply Ensures.throw
    refine ⟨?_, layer, mem_range.mp (mem_of_find?_eq_some hfind), ?_⟩
    · rw [map_map, forall₂_map_right_iff, forall₂_same]
      exact fun row _ => ⟨rfl, rfl, rfl, rfl, rfl⟩
    · have hfails := find?_some hfind
      exact hfails

omit hidle in
theorem runDecoderBatch_ensures :
    Ensures (runDecoderBatch device fails workspace) (rows.map opened)
      (fun _ after => after = rows.map (passed device) ∧ Accepts device workspace rows ∧
        Clear device fails rows .decoding)
      (fun _ after => List.Forall₂ Open rows after ∧
        (¬ Accepts device workspace rows ∨ Hit device fails rows .decoding)) := by
  have hopen : List.Forall₂ Open rows (rows.map opened) := by
    rw [forall₂_map_right_iff, forall₂_same]
    exact fun row _ => opened_open row
  apply get_bind
  refine (check_ensures _ _).bind_mono ?_ ?_
  · rintro _ _ ⟨rfl, hrejected⟩
    rw [validate_opened] at hrejected
    exact ⟨hopen, .inl hrejected⟩
  · rintro _ _ ⟨rfl, haccepts⟩
    rw [validate_opened] at haccepts
    refine (reach_ensures _ _ _).bind_mono ?_ ?_
    · rintro _ _ ⟨rfl, hfails⟩
      exact ⟨hopen, .inr ⟨.embedding, rfl, trivial, hfails⟩⟩
    · rintro _ _ ⟨rfl, hembedding⟩
      refine (runLayers_ensures device fails).mono ?_ ?_
      · rintro _ _ ⟨rfl, hlayers⟩
        refine ⟨rfl, haccepts, ?_⟩
        rintro (_ | _ | _ | i | _ | _ | _ | _ | _ | _) hphase hreached
        case embedding => exact hembedding
        case layer => exact hlayers i hreached
        all_goals cases hphase
      · rintro _ _ ⟨hrows, layer, hlayer, hfails⟩
        exact ⟨hrows, .inr ⟨.layer layer, rfl, hlayer, hfails⟩⟩

theorem abortModelRows_restores (h : List.Forall₂ Open rows after) :
    List.Forall₂ RestoredRow rows (abortModelRows after).1 := by
  change List.Forall₂ RestoredRow rows (after.map BatchRow.abort)
  induction h with
  | nil => exact .nil
  | cons hhead _ ih =>
    exact .cons (hhead.abort (hidle _ mem_cons_self))
      (ih fun row hrow => hidle row (mem_cons_of_mem _ hrow))

omit hidle in
theorem broken_of_open (hrows : rows ≠ [])
    (h : List.Forall₂ Open rows after) : Broken RestoredRow rows after := by
  cases h with
  | nil => exact absurd rfl hrows
  | cons hhead _ => exact ⟨_, _, rfl, rfl, hhead.not_restored⟩

omit hidle in
theorem clear_committing :
    Clear device fails rows .committing ↔ ∀ i < rows.length, fails (.commitAppend i) = false := by
  constructor
  · exact fun h i hi => h (.commitAppend i) rfl hi
  · rintro h (_ | _ | _ | _ | _ | _ | _ | _ | _ | i) hphase hreached
    case commitAppend => exact h i hreached
    all_goals cases hphase

theorem commitModelRows_ensures (htokens : ∀ row ∈ rows, row.tokenIds ≠ []) :
    Ensures (commitModelRows fails) (rows.map (passed device))
      (fun _ after => after = rows.map (appended device) ∧ Clear device fails rows .committing)
      (fun _ after => (List.Forall₂ RestoredRow rows after ∧ fails (.commitAppend 0) = true ∧
          0 < rows.length) ∨
        (Broken RestoredRow rows after ∧
          ∃ i, 0 < i ∧ i < rows.length ∧ fails (.commitAppend i) = true)) := by
  rw [clear_committing]
  cases rows with
  | nil => exact ⟨rfl, fun i hi => absurd hi (Nat.not_lt_zero i)⟩
  | cons row rows =>
    unfold Ensures commitModelRows sweep
    rw [map_cons, sweepFrom]
    by_cases hfirst : fails (.commitAppend 0) = true
    · have hstep : commitModelRow fails 0 (passed device row) = ((passed device row).abort,
          .error ((passed device row).rollbackError.getD (cacheError "commit_append"))) := by
        simp [commitModelRow, failAt, hfirst]
      simp only [hstep]
      refine .inl ⟨.cons ?_ ?_, hfirst, Nat.succ_pos _⟩
      · exact (passed_open device row).abort (hidle row mem_cons_self)
      · rw [map_map, forall₂_map_right_iff, forall₂_same]
        exact fun r hr => (passed_open device r).abort (hidle r (mem_cons_of_mem _ hr))
    · have hstep : commitModelRow fails 0 (passed device row) = (appended device row, .ok ()) := by
        simp [commitModelRow, failAt, hfirst]
        rfl
      have hrest := sweepFrom_map (commitModelRow fails) id BatchRow.abort rows (passed device)
        (appended device) (fun _ _ => True) (fun i _ => fails (.commitAppend i) = false)
        (fun i _ _ => fails (.commitAppend i) = true) 1
        (fun i row _ => (failAt_cases _ _ _ _ i (passed device row)).imp id
          fun h => ⟨_, _, h.1, trivial, h.2⟩)
        (fun _ _ => trivial) (fun _ _ => trivial)
      simp only [hstep]
      generalize sweepFrom (commitModelRow fails) id BatchRow.abort 1 (rows.map (passed device)) =
        outcome at hrest ⊢
      obtain ⟨after, result⟩ := outcome
      cases result with
      | ok _ =>
        obtain ⟨rfl, hclear⟩ := hrest
        refine ⟨rfl, fun i hi => ?_⟩
        cases i with
        | zero => exact Bool.eq_false_iff.mpr hfirst
        | succ i =>
          have hthis := hclear i _ (getElem?_eq_getElem hi)
          rwa [Nat.add_comm] at hthis
      | error e =>
        obtain ⟨-, i, r, hget, hfails⟩ := hrest
        have hi := (List.getElem?_eq_some_iff.mp hget).1
        rw [Nat.add_comm] at hfails
        exact .inr ⟨⟨row, _, rfl, rfl, appended_not_restored (htokens row List.mem_cons_self)⟩,
          i + 1, Nat.succ_pos i, Nat.succ_lt_succ hi, hfails⟩

variable (rows)

/-- The causes of a failure that the batch answers with a rollback. -/
def RolledBack : Prop :=
  Hit device fails rows .opening ∨ ¬ Accepts device workspace rows ∨
    Hit device fails rows .decoding ∨ fails .synchronize = true ∨
    (fails (.commitAppend 0) = true ∧ 0 < rows.length)

/-- A commit behind the first row fails. -/
def CommitsLate : Prop := ∃ i, 0 < i ∧ i < rows.length ∧ fails (.commitAppend i) = true

variable {rows}

/-- Opening the appends, then a part that is rolled back when it fails. -/
theorem opened_ensures {m : EStateM CudaError (List (BatchRow L κ H)) Unit} {done cause : Prop}
    (hm : Ensures m (rows.map opened) (fun _ after => after = rows.map (passed device) ∧ done)
      (fun _ after => List.Forall₂ Open rows after ∧ cause)) :
    Ensures (reserveModelRows fails >>= fun _ => onError m abortModelRows) rows
      (fun _ after => after = rows.map (passed device) ∧ Clear device fails rows .opening ∧ done)
      (fun _ after => List.Forall₂ RestoredRow rows after ∧
        (Hit device fails rows .opening ∨ cause)) := by
  refine (reserveModelRows_ensures device fails hidle).bind_mono ?_ ?_
  · rintro _ _ ⟨hrestored, hhit⟩
    exact ⟨hrestored, .inl hhit⟩
  · rintro _ _ ⟨rfl, hopening⟩
    refine (hm.imp ?_).onError ?_
    · rintro _ _ ⟨rfl, hdone⟩
      exact ⟨rfl, hopening, hdone⟩
    · rintro _ after ⟨hopen, hcause⟩
      exact ⟨abortModelRows_restores hidle hopen, .inr hcause⟩

omit hidle in
theorem passed_all_open : List.Forall₂ Open rows (rows.map (passed device)) := by
  rw [forall₂_map_right_iff, forall₂_same]
  exact fun row _ => passed_open device row

theorem prefillBatch_ensures :
    Ensures (prefillBatch device fails workspace) rows
      (fun _ after => after = rows.map (appended device) ∧ Accepts device workspace rows ∧
        ∀ call, phase call ≠ .projecting → Reached device rows call → fails call = false)
      (fun _ after =>
        (List.Forall₂ RestoredRow rows after ∧ RolledBack device fails workspace rows) ∨
        (Broken RestoredRow rows after ∧ Accepts device workspace rows ∧
          CommitsLate fails rows)) := by
  have hbody : Ensures (runDecoderBatch device fails workspace >>= fun _ =>
      reach (fails .synchronize) "synchronize") (rows.map opened)
      (fun _ after => after = rows.map (passed device) ∧ Accepts device workspace rows ∧
        Clear device fails rows .decoding ∧ fails .synchronize = false)
      (fun _ after => List.Forall₂ Open rows after ∧ (¬ Accepts device workspace rows ∨
        Hit device fails rows .decoding ∨ fails .synchronize = true)) := by
    refine (runDecoderBatch_ensures device fails workspace).bind_mono ?_ ?_
    · rintro _ _ ⟨hopen, hcause⟩
      exact ⟨hopen, hcause.imp_right .inl⟩
    · rintro _ _ ⟨rfl, haccepts, hdecoding⟩
      refine (reach_ensures _ _ _).mono ?_ ?_
      · rintro _ _ ⟨rfl, hsync⟩
        exact ⟨rfl, haccepts, hdecoding, hsync⟩
      · rintro _ _ ⟨rfl, hsync⟩
        exact ⟨passed_all_open device, .inr (.inr hsync)⟩
  have heq : prefillBatch device fails workspace = (reserveModelRows fails >>= fun _ =>
      onError (runDecoderBatch device fails workspace >>= fun _ =>
        reach (fails .synchronize) "synchronize") abortModelRows) >>= fun _ =>
      commitModelRows fails := by
    rw [bind_assoc]
    rfl
  rw [heq]
  refine (opened_ensures device fails hidle hbody).bind_mono ?_ ?_
  · rintro _ _ ⟨hrestored, hopening | hrejected | hdecoding | hsync⟩
    · exact .inl ⟨hrestored, .inl hopening⟩
    · exact .inl ⟨hrestored, .inr (.inl hrejected)⟩
    · exact .inl ⟨hrestored, .inr (.inr (.inl hdecoding))⟩
    · exact .inl ⟨hrestored, .inr (.inr (.inr (.inl hsync)))⟩
  · rintro _ _ ⟨rfl, hopening, haccepts, hdecoding, hsync⟩
    refine (commitModelRows_ensures device fails hidle haccepts.tokens_ne_nil).mono ?_ ?_
    · rintro _ _ ⟨rfl, hcommitting⟩
      refine ⟨rfl, haccepts, fun call hphase hreached => ?_⟩
      cases hcall : phase call with
      | opening => exact hopening call hcall hreached
      | decoding => exact hdecoding call hcall hreached
      | projecting => exact absurd hcall hphase
      | synchronizing => rwa [eq_synchronize hcall]
      | committing => exact hcommitting call hcall hreached
    · rintro _ _ (⟨hrestored, hfirst⟩ | ⟨hrestored, hlate⟩)
      · exact .inl ⟨hrestored, .inr (.inr (.inr (.inr hfirst)))⟩
      · exact .inr ⟨hrestored, haccepts, hlate⟩

omit hidle in
theorem projectRows_ensures :
    Ensures (projectRows fails) (rows.map (passed device))
      (fun _ after => after = rows.map (passed device) ∧ Clear device fails rows .projecting)
      (fun _ after => after = rows.map (passed device) ∧ Hit device fails rows .projecting) := by
  apply get_bind
  rw [length_map]
  refine (reachRows_ensures _ _ _ _).bind_mono ?_ ?_
  · rintro _ _ ⟨rfl, i, hi, hfails⟩
    exact ⟨rfl, .finalStream i, rfl, hi, hfails⟩
  rintro _ _ ⟨rfl, hstreams⟩
  refine (reach_ensures _ _ _).bind_mono ?_ ?_
  · rintro _ _ ⟨rfl, hfails⟩
    exact ⟨rfl, .hyperHead, rfl, trivial, hfails⟩
  rintro _ _ ⟨rfl, hhead⟩
  refine (reach_ensures _ _ _).bind_mono ?_ ?_
  · rintro _ _ ⟨rfl, hfails⟩
    exact ⟨rfl, .finalNorm, rfl, trivial, hfails⟩
  rintro _ _ ⟨rfl, hnorm⟩
  refine (reach_ensures _ _ _).mono ?_ ?_
  · rintro _ _ ⟨rfl, hlm⟩
    refine ⟨rfl, ?_⟩
    rintro (_ | _ | _ | _ | i | _ | _ | _ | _ | _) hphase hreached
    case finalStream => exact hstreams i hreached
    case hyperHead => exact hhead
    case finalNorm => exact hnorm
    case lmHead => exact hlm
    all_goals cases hphase
  · rintro _ _ ⟨rfl, hfails⟩
    exact ⟨rfl, .lmHead, rfl, trivial, hfails⟩

/-- The logits that a batch of these rows returns. -/
def logitsOf (row : BatchRow L κ H) : Φ := device.logits ((appended device row).finalStream device)

theorem forwardBatch_ensures :
    Ensures (forwardBatch device fails workspace) rows
      (fun logits after => after = rows.map (appended device) ∧
        logits = rows.map (logitsOf device) ∧ Accepts device workspace rows ∧
        ∀ call, Reached device rows call → fails call = false)
      (fun _ after =>
        (List.Forall₂ RestoredRow rows after ∧ RolledBack device fails workspace rows) ∨
        (Broken RestoredRow rows after ∧ Accepts device workspace rows ∧
          (Hit device fails rows .projecting ∨ CommitsLate fails rows))) := by
  have heq : forwardBatch device fails workspace = (reserveModelRows fails >>= fun _ =>
      onError (runDecoderBatch device fails workspace) abortModelRows) >>= fun _ => do
        projectRows fails
        onError (reach (fails .synchronize) "synchronize") abortModelRows
        commitModelRows fails
        return (← get).map fun row => device.logits (row.finalStream device) := by
    rw [bind_assoc]
    rfl
  rw [heq]
  refine (opened_ensures device fails hidle
    (runDecoderBatch_ensures device fails workspace)).bind_mono ?_ ?_
  · rintro _ _ ⟨hrestored, hopening | hrejected | hdecoding⟩
    · exact .inl ⟨hrestored, .inl hopening⟩
    · exact .inl ⟨hrestored, .inr (.inl hrejected)⟩
    · exact .inl ⟨hrestored, .inr (.inr (.inl hdecoding))⟩
  rintro _ _ ⟨rfl, hopening, haccepts, hdecoding⟩
  refine (projectRows_ensures device fails).bind_mono ?_ ?_
  · rintro _ _ ⟨rfl, hhit⟩
    -- The head returns early, with every append open.
    exact .inr ⟨broken_of_open haccepts.rows_ne_nil (passed_all_open device), haccepts, .inl hhit⟩
  rintro _ _ ⟨rfl, hprojecting⟩
  refine ((reach_ensures _ _ _).onError ?_).bind ?_
  · rintro _ _ ⟨rfl, hsync⟩
    exact .inl ⟨abortModelRows_restores hidle (passed_all_open device),
      .inr (.inr (.inr (.inl hsync)))⟩
  rintro _ _ ⟨rfl, hsync⟩
  refine (commitModelRows_ensures device fails hidle haccepts.tokens_ne_nil).bind_mono ?_ ?_
  · rintro _ _ (⟨hrestored, hfirst⟩ | ⟨hrestored, hlate⟩)
    · exact .inl ⟨hrestored, .inr (.inr (.inr (.inr hfirst)))⟩
    · exact .inr ⟨hrestored, haccepts, .inr hlate⟩
  rintro _ _ ⟨rfl, hcommitting⟩
  apply get_bind
  apply Ensures.pure
  refine ⟨rfl, map_map, haccepts, fun call hreached => ?_⟩
  cases hcall : phase call with
  | opening => exact hopening call hcall hreached
  | decoding => exact hdecoding call hcall hreached
  | projecting => exact hprojecting call hcall hreached
  | synchronizing => rwa [eq_synchronize hcall]
  | committing => exact hcommitting call hcall hreached

end

end

section
variable (device : Device L κ H Φ) (workspace : BatchWorkspace)
variable {rows : List (BatchRow L κ H)}

theorem RolledBack.early {failing : Option TargetCall} {workspace : BatchWorkspace}
    (haccepts : Accepts device workspace rows)
    (h : RolledBack device (only failing) workspace rows) :
    ∃ call, failing = some call ∧ Reached device rows call ∧ phase call ≠ .projecting ∧
      ∀ i, call = .commitAppend i → i = 0 := by
  obtain ⟨call, hphase, hreached, hfails⟩ | hrejected | ⟨call, hphase, hreached, hfails⟩ | hsync |
    ⟨hfirst, hpos⟩ := h
  · exact ⟨call, only_eq_true.mp hfails, hreached, by simp [hphase], by rintro i rfl; cases hphase⟩
  · exact absurd haccepts hrejected
  · exact ⟨call, only_eq_true.mp hfails, hreached, by simp [hphase], by rintro i rfl; cases hphase⟩
  · exact ⟨.synchronize, only_eq_true.mp hsync, trivial, nofun, nofun⟩
  · exact ⟨.commitAppend 0, only_eq_true.mp hfirst, hpos, nofun, fun i hi => by cases hi; rfl⟩

variable (failing : Option TargetCall)

/-- The single call that leaves a prefill half committed. -/
def PrefillLate (rows : List (BatchRow L κ H)) : Prop :=
  Accepts device workspace rows ∧ ∃ i, 0 < i ∧ i < rows.length ∧ failing = some (.commitAppend i)

/-- The single call that leaves a forward pass open or half committed. -/
def ForwardLate (rows : List (BatchRow L κ H)) : Prop :=
  Accepts device workspace rows ∧
    ((∃ call, failing = some call ∧ phase call = .projecting ∧ Reached device rows call) ∨
      ∃ i, 0 < i ∧ i < rows.length ∧ failing = some (.commitAppend i))

theorem RolledBack.not_forwardLate {failing : Option TargetCall} {device : Device L κ H Φ}
    {workspace : BatchWorkspace} (h : RolledBack device (only failing) workspace rows) :
    ¬ ForwardLate device workspace failing rows := by
  rintro ⟨haccepts, hlate⟩
  obtain ⟨call, rfl, -, hproject, hzero⟩ := RolledBack.early device haccepts h
  obtain ⟨_, heq, hphase, -⟩ | ⟨i, hpos, -, heq⟩ := hlate
  · cases heq
    exact hproject hphase
  · cases heq
    have := hzero i rfl
    omega

theorem prefillBatch_restores_iff (hidle : ∀ row ∈ rows, Idle row.sequence) :
    Restores RestoredRow (prefillBatch device (only failing) workspace) rows ↔
      ¬ PrefillLate device workspace failing rows := by
  apply restores_iff
  refine (prefillBatch_ensures device (only failing) workspace hidle).mono ?_ ?_
  · rintro _ _ ⟨-, -, hclear⟩ ⟨-, i, -, hi, rfl⟩
    have hfalse := hclear (.commitAppend i) nofun hi
    rw [Bool.eq_false_iff, ne_eq, only_eq_true] at hfalse
    exact hfalse rfl
  · rintro _ _ (⟨hrestored, hcause⟩ | ⟨hrestored, haccepts, i, hpos, hi, hfails⟩)
    · refine .inl ⟨hrestored, ?_⟩
      rintro ⟨haccepts, i, hpos, -, rfl⟩
      obtain ⟨call, heq, -, -, hzero⟩ := RolledBack.early device haccepts hcause
      cases heq
      have := hzero i rfl
      omega
    · exact .inr ⟨hrestored, haccepts, i, hpos, hi, only_eq_true.mp hfails⟩

theorem forwardBatch_restores_iff (hidle : ∀ row ∈ rows, Idle row.sequence) :
    Restores RestoredRow (forwardBatch device (only failing) workspace) rows ↔
      ¬ ForwardLate device workspace failing rows := by
  apply restores_iff
  refine (forwardBatch_ensures device (only failing) workspace hidle).mono ?_ ?_
  · rintro _ _ ⟨-, -, -, hclear⟩ ⟨-, hlate⟩
    have hnone : ∀ call, Reached device rows call → failing ≠ some call := by
      intro call hreached heq
      have hfalse := hclear call hreached
      rw [only_eq_true.mpr heq] at hfalse
      cases hfalse
    obtain ⟨call, hfailing, -, hreached⟩ | ⟨i, -, hi, hfailing⟩ := hlate
    · exact hnone call hreached hfailing
    · exact hnone (.commitAppend i) hi hfailing
  · rintro _ _ (⟨hrestored, hcause⟩ | ⟨hrestored, haccepts, hcause⟩)
    · exact .inl ⟨hrestored, hcause.not_forwardLate⟩
    · refine .inr ⟨hrestored, haccepts, ?_⟩
      obtain ⟨call, hphase, hreached, hfails⟩ | ⟨i, hpos, hi, hfails⟩ := hcause
      · exact .inl ⟨call, only_eq_true.mp hfails, hphase, hreached⟩
      · exact .inr ⟨i, hpos, hi, only_eq_true.mp hfails⟩

end

/-! ## MTP rows -/

/-- The calls before the first MTP commit. -/
def early : MtpCall → Bool
  | .inputs | .reserveAppend _ | .layer | .head | .synchronize => true
  | .commitAppend _ | .previousHidden _ | .finish | .readback => false

/-- The calls that an MTP batch of `count` rows makes. -/
def MtpReached (project : Bool) (count : Nat) : MtpCall → Prop
  | .reserveAppend row | .commitAppend row | .previousHidden row => row < count
  | .head | .readback => project = true
  | .inputs | .layer | .synchronize | .finish => True

/-- An MTP row behind its layer, and behind its commit. -/
def written (device : Device L κ H Φ) (row : MtpBatchRow H) : MtpBatchRow H :=
  row.reserve.write device

def mtpAppended (device : Device L κ H Φ) (row : MtpBatchRow H) : MtpBatchRow H :=
  (written device row).commit.remember device

/-- An MTP row that is open or has moved on. -/
structure Moved (before after : MtpBatchRow H) : Prop where
  moved : after.sequence.entry.pending ≠ none ∨
    after.sequence.position = before.sequence.position + before.tokenIds.length
  deferredToken : after.sequence.deferredToken = before.sequence.deferredToken

section
variable (device : Device L κ H Φ) (fails : MtpCall → Bool) (workspace : MtpWorkspace)
variable (project : Bool) {rows : List (MtpBatchRow H)}

def MtpAccepts (rows : List (MtpBatchRow H)) : Prop := checkMtpRows workspace rows = .ok ()

/-- Aborting a row that was idle before its reservation gives it back. -/
theorem abort_reserve {row : MtpBatchRow H} (h : row.sequence.entry.pending = none) :
    row.reserve.abort = row := by
  obtain ⟨tokenIds, ⟨⟨kept, pending⟩, position, previous, deferred, token⟩, streams⟩ := row
  cases h
  rfl

section
variable (hidle : ∀ row ∈ rows, row.sequence.entry.pending = none)
include hidle

theorem map_abort_reserve : (rows.map MtpBatchRow.reserve).map MtpBatchRow.abort = rows := by
  rw [map_map]
  exact (map_congr_left fun row hrow => abort_reserve (hidle row hrow)).trans
    (map_id rows)

theorem map_abort_written : (rows.map (written device)).map MtpBatchRow.abort = rows := by
  have habort : (rows.map (written device)).map MtpBatchRow.abort =
      (rows.map MtpBatchRow.reserve).map MtpBatchRow.abort := by
    simp only [map_map]
    rfl
  exact habort.trans (map_abort_reserve hidle)

theorem runMtpLayer_ensures :
    Ensures (onError (runMtpLayer device fails project)
        fun rows => (rows.map MtpBatchRow.abort, none)) (rows.map MtpBatchRow.reserve)
      (fun _ after => after = rows.map (written device) ∧ fails .layer = false ∧
        (project && fails .head) = false ∧ fails .synchronize = false)
      (fun _ after => after = rows ∧
        ∃ call, early call = true ∧ MtpReached project rows.length call ∧ fails call = true) := by
  have hbody : Ensures (runMtpLayer device fails project) (rows.map MtpBatchRow.reserve)
      (fun _ after => after = rows.map (written device) ∧ fails .layer = false ∧
        (project && fails .head) = false ∧ fails .synchronize = false)
      (fun _ after => after.map MtpBatchRow.abort = rows ∧
        ∃ call, early call = true ∧ MtpReached project rows.length call ∧ fails call = true) := by
    refine (reach_ensures _ _ _).bind_mono ?_ ?_
    · rintro _ _ ⟨rfl, hfails⟩
      exact ⟨map_abort_reserve hidle, .layer, rfl, trivial, hfails⟩
    rintro _ _ ⟨rfl, hlayer⟩
    apply modify_bind
    rw [map_map]
    refine (reach_ensures _ _ _).bind_mono ?_ ?_
    · rintro _ _ ⟨rfl, hfails⟩
      obtain ⟨hproject, hhead⟩ := Bool.and_eq_true_iff.mp hfails
      exact ⟨map_abort_written device hidle, .head, rfl, hproject, hhead⟩
    rintro _ _ ⟨rfl, hhead⟩
    refine (reach_ensures _ _ _).mono ?_ ?_
    · rintro _ _ ⟨rfl, hsync⟩
      exact ⟨rfl, hlayer, hhead, hsync⟩
    · rintro _ _ ⟨rfl, hfails⟩
      exact ⟨map_abort_written device hidle, .synchronize, rfl, trivial, hfails⟩
  refine hbody.onError ?_
  rintro _ _ ⟨hback, hcause⟩
  exact ⟨hback, hcause⟩

omit hidle in
/-- Whatever fails in the commit loop leaves every row open or moved. -/
theorem commitMtpRows_ensures :
    Ensures (sweep (commitMtpRow device fails) id id) (rows.map (written device))
      (fun _ after => after = rows.map (mtpAppended device) ∧
        ∀ i < rows.length, fails (.commitAppend i) = false ∧ fails (.previousHidden i) = false)
      (fun _ after => List.Forall₂ Moved rows after ∧ ∃ i < rows.length,
        fails (.commitAppend i) = true ∨ fails (.previousHidden i) = true) := by
  have hsweep := Ensures.sweep (commitMtpRow device fails) id id rows (written device)
    (mtpAppended device) Moved
    (fun i _ => fails (.commitAppend i) = false ∧ fails (.previousHidden i) = false)
    (fun i _ _ => fails (.commitAppend i) = true ∨ fails (.previousHidden i) = true)
    (by
      intro i row _
      unfold commitMtpRow
      split
      · rename_i hcommit
        exact .inr ⟨_, _, rfl, ⟨.inl nofun, rfl⟩, .inl hcommit⟩
      · split
        · rename_i hprevious
          exact .inr ⟨_, _, rfl, ⟨.inr rfl, rfl⟩, .inr hprevious⟩
        · rename_i hcommit hprevious
          exact .inl ⟨rfl, Bool.eq_false_iff.mpr hcommit, Bool.eq_false_iff.mpr hprevious⟩)
    (fun _ _ => ⟨.inr rfl, rfl⟩) (fun _ _ => ⟨.inl nofun, rfl⟩)
  refine hsweep.mono ?_ ?_
  · rintro _ _ ⟨rfl, hclear⟩
    exact ⟨rfl, fun i hi => hclear i _ (getElem?_eq_getElem hi)⟩
  · rintro _ _ ⟨hmoved, i, row, hget, hhit⟩
    exact ⟨hmoved, i, (List.getElem?_eq_some_iff.mp hget).1, hhit⟩

/-- The tokens that an MTP batch of these rows drafts. -/
def draftOf (row : MtpBatchRow H) : Nat :=
  device.draft (mtpAppended device row).sequence.entry.rows

omit hidle in
theorem appended_all_moved : List.Forall₂ Moved rows (rows.map (mtpAppended device)) := by
  rw [forall₂_map_right_iff, forall₂_same]
  exact fun row _ => ⟨.inr rfl, rfl⟩

theorem appendMtpFromTarget_ensures :
    Ensures (appendMtpFromTarget device fails workspace project) rows
      (fun drafts after => after = rows.map (mtpAppended device) ∧
        drafts = rows.map (draftOf device) ∧ MtpAccepts workspace rows ∧
        ∀ call, MtpReached project rows.length call → fails call = false)
      (fun _ after =>
        (after = rows ∧ (¬ MtpAccepts workspace rows ∨
          ∃ call, early call = true ∧ MtpReached project rows.length call ∧ fails call = true)) ∨
        (List.Forall₂ Moved rows after ∧ MtpAccepts workspace rows ∧
          ∃ call, early call = false ∧ MtpReached project rows.length call ∧
            fails call = true)) := by
  apply get_bind
  refine (check_ensures _ _).bind_mono ?_ ?_
  · rintro _ _ ⟨rfl, hrejected⟩
    exact .inl ⟨rfl, .inl hrejected⟩
  rintro _ rows ⟨rfl, haccepts⟩
  refine (reach_ensures _ _ _).bind_mono ?_ ?_
  · rintro _ _ ⟨rfl, hfails⟩
    exact .inl ⟨rfl, .inr ⟨.inputs, rfl, trivial, hfails⟩⟩
  rintro _ rows ⟨rfl, hinputs⟩
  have hreserve := Ensures.sweep_failAt MtpBatchRow.abort id
    (fun row => fails (.reserveAppend row)) (cacheError "reserve_append") id MtpBatchRow.reserve
    rows (fun row after => after = row)
    (fun row hrow => abort_reserve (hidle row hrow)) (fun _ _ => rfl) fun _ _ => rfl
  refine hreserve.bind_mono ?_ ?_
  · rintro _ _ ⟨hrows, -, i, hi, hfails⟩
    exact .inl ⟨(forall₂_eq_eq_eq ▸ hrows.imp fun _ _ h => h.symm : rows = _).symm, .inr ⟨.reserveAppend i, rfl, hi, hfails⟩⟩
  rintro _ _ ⟨rfl, hreserved⟩
  refine (runMtpLayer_ensures device fails project hidle).bind_mono ?_ ?_
  · rintro _ _ ⟨rfl, hcause⟩
    exact .inl ⟨rfl, .inr hcause⟩
  rintro _ _ ⟨rfl, hlayer, hhead, hsync⟩
  refine (commitMtpRows_ensures device fails).bind_mono ?_ ?_
  · rintro _ _ ⟨hmoved, i, hi, hfails | hfails⟩
    · exact .inr ⟨hmoved, haccepts, .commitAppend i, rfl, hi, hfails⟩
    · exact .inr ⟨hmoved, haccepts, .previousHidden i, rfl, hi, hfails⟩
  rintro _ _ ⟨rfl, hcommits⟩
  refine (reach_ensures _ _ _).bind_mono ?_ ?_
  · rintro _ _ ⟨rfl, hfails⟩
    exact .inr ⟨appended_all_moved device, haccepts, .finish, rfl, trivial, hfails⟩
  rintro _ _ ⟨rfl, hfinish⟩
  refine (reach_ensures _ _ _).bind_mono ?_ ?_
  · rintro _ _ ⟨rfl, hfails⟩
    obtain ⟨hproject, hreadback⟩ := Bool.and_eq_true_iff.mp hfails
    exact .inr ⟨appended_all_moved device, haccepts, .readback, rfl, hproject, hreadback⟩
  rintro _ _ ⟨rfl, hreadback⟩
  apply get_bind
  apply Ensures.pure
  refine ⟨rfl, map_map, haccepts, ?_⟩
  rintro (_ | i | _ | _ | _ | i | i | _ | _) hreached
  · exact hinputs
  · exact hreserved i hreached
  · exact hlayer
  · rw [hreached] at hhead
    exact hhead
  · exact hsync
  · exact (hcommits i hreached).1
  · exact (hcommits i hreached).2
  · exact hfinish
  · rw [hreached] at hreadback
    exact hreadback

end

end

/-! ## Batches with MTP rows -/

/-- Target and MTP sequence of a pair after a failure. -/
structure PairRestored (before after : RowPair L κ H) : Prop where
  target : Restored before.1.sequence after.1.sequence
  inStep : InStep after.1.sequence after.2.sequence

/-- What the caller holds between two calls. -/
structure PairReady (pair : RowPair L κ H) : Prop where
  idle : Idle pair.1.sequence
  inStep : InStep pair.1.sequence pair.2.sequence

theorem PairReady.restored {pair : RowPair L κ H} (h : PairReady pair) : PairRestored pair pair :=
  ⟨h.idle.restored, h.inStep⟩

section
variable (device : Device L κ H Φ) (workspace : BatchWorkspace) (mtpWorkspace : MtpWorkspace)
variable {pairs : List (RowPair L κ H)}

/-- A program over the target rows, with what it means for the pairs. -/
theorem onTargets_ensures {m : EStateM CudaError (List (BatchRow L κ H)) α}
    {f : BatchRow L κ H → BatchRow L κ H} {P : α → Prop} {C D : Prop}
    (hready : ∀ pair ∈ pairs, PairReady pair) (h : Ensures m (pairs.map Prod.fst)
      (fun a after => after = (pairs.map Prod.fst).map f ∧ P a)
      (fun _ after => (List.Forall₂ RestoredRow (pairs.map Prod.fst) after ∧ C) ∨
        (Broken RestoredRow (pairs.map Prod.fst) after ∧ D))) :
    Ensures (onTargets m) pairs
      (fun a after => after = pairs.map (fun pair => (f pair.1, pair.2)) ∧ P a)
      (fun _ after => (List.Forall₂ PairRestored pairs after ∧ C) ∨
        (Broken PairRestored pairs after ∧ D)) := by
  apply Ensures.overRows
  refine h.mono ?_ ?_
  · rintro a after ⟨rfl, hP⟩
    exact ⟨zipWith_put_map f pairs, hP⟩
  · rintro _ after (⟨hrestored, hC⟩ | ⟨⟨row, row', hrow, hrow', hbroken⟩, hD⟩)
    · refine .inl ⟨?_, hC⟩
      rw [forall₂_map_left_iff] at hrestored
      have hpairs := forall₂_zipWith (fun (pair : RowPair L κ H) row => (row, pair.2)) hrestored
      refine ((forall₂_and_left _ _).mpr ⟨hready, hpairs⟩).imp ?_
      rintro pair _ ⟨hpair, row, hrow, rfl⟩
      refine ⟨hrow, hpair.inStep.pending, ?_⟩
      rw [hrow.position]
      exact hpair.inStep.position
    · refine .inr ⟨?_, hD⟩
      cases pairs with
      | nil => cases hrow
      | cons pair pairs =>
        cases after with
        | nil => cases hrow'
        | cons _ after =>
          cases hrow
          cases hrow'
          exact ⟨pair, _, rfl, rfl, fun hrestored => hbroken hrestored.target⟩

/-- The target call that fails. -/
def targetPart : Option ForwardCall → Option TargetCall
  | some (.target call) => some call
  | _ => none

theorem targetPart_eq_some {failing : Option ForwardCall} :
    targetPart failing = some call ↔ failing = some (.target call) := by
  unfold targetPart
  split <;> simp_all

variable (failing : Option ForwardCall)

theorem only_target : (fun call => only failing (.target call)) = only (targetPart failing) := by
  funext call
  match failing with
  | none => rfl
  | some .copyToHost => rfl
  | some (.mtp _) => rfl
  | some (.target c) => simp [only, targetPart]

/-- The single failure that leaves a forward pass with MTP rows out of step. -/
def WithMtpLate (pairs : List (RowPair L κ H)) : Prop :=
  (∀ pair ∈ pairs, pair.1.tokenIds = pair.2.tokenIds) ∧
    (ForwardLate device workspace (targetPart failing) (pairs.map Prod.fst) ∨
      Accepts device workspace (pairs.map Prod.fst) ∧
        (∀ call, failing = some (.target call) → ¬ Reached device (pairs.map Prod.fst) call) ∧
        (¬ MtpAccepts mtpWorkspace (pairs.map Prod.snd) ∨ failing = some .copyToHost ∨
          ∃ call, failing = some (.mtp call) ∧ MtpReached false pairs.length call))

theorem broken_of_appended {after : List (RowPair L κ H)}
    (haccepts : Accepts device workspace (pairs.map Prod.fst))
    (hafter : List.Forall₂ (fun pair pair' => pair'.1 = appended device pair.1) pairs after) :
    Broken PairRestored pairs after := by
  have hne := haccepts.rows_ne_nil
  have htokens := haccepts.tokens_ne_nil
  cases hafter with
  | nil => exact absurd rfl hne
  | cons hhead _ =>
    refine ⟨_, _, rfl, rfl, fun hrestored => ?_⟩
    have htarget := hrestored.target
    rw [hhead] at htarget
    exact appended_not_restored (htokens _ mem_cons_self) htarget

theorem mtpAccepts_congr {rows rows' : List (MtpBatchRow H)}
    (h : rows.map MtpBatchRow.tokenIds = rows'.map MtpBatchRow.tokenIds) :
    MtpAccepts mtpWorkspace rows ↔ MtpAccepts mtpWorkspace rows' := by
  have hiff : ∀ rows : List (MtpBatchRow H), MtpAccepts mtpWorkspace rows ↔
      rows.map MtpBatchRow.tokenIds ≠ [] ∧
      (rows.map MtpBatchRow.tokenIds).length ≤ mtpWorkspace.sequenceCapacity ∧
      (∀ tokens ∈ rows.map MtpBatchRow.tokenIds, tokens ≠ []) ∧
      ((rows.map MtpBatchRow.tokenIds).map length).sum ≤ mtpWorkspace.tokenCapacity := by
    intro rows
    rw [MtpAccepts, checkMtpRows_ok_iff]
    simp [comp_def]
  rw [hiff, hiff, h]

/-- Behind the target commit, every failure leaves the pairs out of step. -/
theorem appendBehindTarget_ensures {fails : MtpCall → Bool}
    (haccepts : Accepts device workspace (pairs.map Prod.fst))
    (hready : ∀ pair ∈ pairs, PairReady pair) :
    Ensures (onMtps (appendMtpFromTarget device fails mtpWorkspace false))
      (pairs.map fun pair => (appended device pair.1,
        { pair.2 with streams := (appended device pair.1).streams }))
      (fun _ _ => MtpAccepts mtpWorkspace (pairs.map Prod.snd) ∧
        ∀ call, MtpReached false pairs.length call → fails call = false)
      (fun _ after => Broken PairRestored pairs after ∧
        (¬ MtpAccepts mtpWorkspace (pairs.map Prod.snd) ∨
          ∃ call, MtpReached false pairs.length call ∧ fails call = true)) := by
  have hmtps : (pairs.map fun pair => (appended device pair.1,
      { pair.2 with streams := (appended device pair.1).streams })).map Prod.snd =
      pairs.map fun pair => { pair.2 with streams := (appended device pair.1).streams } :=
    map_map
  have htokens := mtpAccepts_congr (H := H) mtpWorkspace
    (show (pairs.map fun pair => { pair.2 with streams := (appended device pair.1).streams }).map
        MtpBatchRow.tokenIds = (pairs.map Prod.snd).map MtpBatchRow.tokenIds by
      simp [comp_def])
  apply Ensures.overRows
  rw [hmtps]
  have hpending : ∀ row ∈ pairs.map fun pair =>
      { pair.2 with streams := (appended device pair.1).streams },
      row.sequence.entry.pending = none := by
    intro row hrow
    obtain ⟨pair, hpair, rfl⟩ := mem_map.mp hrow
    exact (hready pair hpair).inStep.pending
  have happend := appendMtpFromTarget_ensures device fails mtpWorkspace false hpending
  rw [htokens, length_map] at happend
  refine happend.mono ?_ ?_
  · rintro _ _ ⟨-, -, hmtp, hclear⟩
    exact ⟨hmtp, hclear⟩
  · intro e after hcause
    have hlength : after.length = pairs.length := by
      obtain ⟨rfl, -⟩ | ⟨hmoved, -⟩ := hcause
      · exact length_map _
      · rw [← hmoved.length_eq, length_map]
    constructor
    · apply broken_of_appended device workspace haccepts
      rw [zipWith_map_left, forall₂_iff_get]
      refine ⟨by simp [hlength], fun i hi hi' => ?_⟩
      simp
    · obtain ⟨-, hrejected | ⟨call, -, hcall⟩⟩ | ⟨-, -, call, -, hcall⟩ := hcause
      · exact .inl hrejected
      · exact .inr ⟨call, hcall⟩
      · exact .inr ⟨call, hcall⟩

theorem forwardBatchWithMtp_restores_iff (hready : ∀ pair ∈ pairs, PairReady pair) :
    Restores PairRestored (forwardBatchWithMtp device (only failing) workspace mtpWorkspace) pairs ↔
      ¬ WithMtpLate device workspace mtpWorkspace failing pairs := by
  have hidle : ∀ row ∈ pairs.map Prod.fst, Idle row.sequence := by
    intro row hrow
    obtain ⟨pair, hpair, rfl⟩ := mem_map.mp hrow
    exact (hready pair hpair).idle
  apply restores_iff
  apply get_bind
  refine (check_ensures _ _).bind_mono ?_ ?_
  · rintro _ pairs ⟨rfl, hrejected⟩
    refine .inl ⟨forall₂_same.mpr fun pair hpair => (hready pair hpair).restored, ?_⟩
    rintro ⟨haligned, -⟩
    apply hrejected
    unfold checkAligned rejectIf
    rw [if_neg]
    rintro ⟨pair, hpair, hne⟩
    exact hne (haligned pair hpair)
  rintro _ pairs ⟨rfl, hchecked⟩
  have haligned : ∀ pair ∈ pairs, pair.1.tokenIds = pair.2.tokenIds := by
    intro pair hpair
    by_contra hne
    exact Eider.Source.rejectIf_ok hchecked ⟨pair, hpair, hne⟩
  rw [only_target]
  refine (onTargets_ensures (f := appended device)
    (P := fun _ => Accepts device workspace (pairs.map Prod.fst) ∧
      ∀ call, Reached device (pairs.map Prod.fst) call → only (targetPart failing) call = false)
    hready ((forwardBatch_ensures device (only (targetPart failing)) workspace hidle).imp
      fun _ _ h => ⟨h.1, h.2.2⟩)).bind_mono ?_ ?_
  · rintro _ after (⟨hrestored, hcause⟩ | ⟨hbroken, haccepts, hcause⟩)
    · refine .inl ⟨hrestored, ?_⟩
      rintro ⟨-, hlate | ⟨haccepts, hunreached, -⟩⟩
      · exact hcause.not_forwardLate hlate
      · obtain ⟨call, hcall, hreached, -⟩ := RolledBack.early device haccepts hcause
        exact hunreached call (targetPart_eq_some.mp hcall) hreached
    · refine .inr ⟨hbroken, haligned, .inl ⟨haccepts, ?_⟩⟩
      obtain ⟨call, hphase, hreached, hfails⟩ | ⟨i, hpos, hi, hfails⟩ := hcause
      · exact .inl ⟨call, only_eq_true.mp hfails, hphase, hreached⟩
      · exact .inr ⟨i, hpos, hi, only_eq_true.mp hfails⟩
  rintro _ _ ⟨rfl, haccepts, hclear⟩
  have hunreached : ∀ call, failing = some (.target call) →
      ¬ Reached device (pairs.map Prod.fst) call := by
    intro call hfailing hreached
    have hfalse := hclear call hreached
    rw [only_eq_true.mpr (targetPart_eq_some.mpr hfailing)] at hfalse
    cases hfalse
  have hnotForward : ¬ ForwardLate device workspace (targetPart failing) (pairs.map Prod.fst) := by
    rintro ⟨-, ⟨call, hcall, -, hreached⟩ | ⟨i, -, hi, hcall⟩⟩
    · exact hunreached call (targetPart_eq_some.mp hcall) hreached
    · exact hunreached (.commitAppend i) (targetPart_eq_some.mp hcall) hi
  refine (reach_ensures _ _ _).bind_mono ?_ ?_
  · rintro _ _ ⟨rfl, hfails⟩
    refine .inr ⟨broken_of_appended device workspace haccepts ?_, haligned,
      .inr ⟨haccepts, hunreached, .inr (.inl (only_eq_true.mp hfails))⟩⟩
    rw [forall₂_map_right_iff, forall₂_same]
    exact fun _ _ => rfl
  rintro _ _ ⟨rfl, hcopy⟩
  apply modify_bind
  rw [map_map]
  refine (appendBehindTarget_ensures device workspace mtpWorkspace haccepts hready).bind_mono ?_ ?_
  · rintro _ after ⟨hbroken, hcause⟩
    refine .inr ⟨hbroken, haligned, .inr ⟨haccepts, hunreached, ?_⟩⟩
    obtain hrejected | ⟨call, hreached, hfails⟩ := hcause
    · exact .inl hrejected
    · exact .inr (.inr ⟨call, only_eq_true.mp hfails, hreached⟩)
  · rintro _ _ ⟨hmtp, hmtpClear⟩
    apply Ensures.pure
    rintro ⟨-, hlate | ⟨-, -, hrejected | rfl | ⟨call, rfl, hreached⟩⟩⟩
    · exact hnotForward hlate
    · exact hrejected hmtp
    · cases hcopy
    · have hfalse := hmtpClear call hreached
      rw [only_eq_true.mpr rfl] at hfalse
      cases hfalse

end

/-! ## The draft of a cycle -/

/-- Target and MTP sequence of a lane after a failure. -/
structure LaneRestored (before after : Lane L κ H) : Prop where
  target : Restored before.target.sequence after.target.sequence
  inStep : InStep after.target.sequence after.mtp.sequence

structure LaneReady (lane : Lane L κ H) : Prop where
  idle : Idle lane.target.sequence
  inStep : InStep lane.target.sequence lane.mtp.sequence

/-- The draft row of a lane. -/
def draftRow (lane : Lane L κ H) : MtpBatchRow H :=
  { lane.drafting.mtp with
    streams := match lane.mtp.sequence.deferredToken with
      | some _ => [lane.mtp.sequence.deferredHidden, lane.mtp.sequence.deferredHidden]
      | none => [lane.mtp.sequence.previousHidden] }

/-- The lane behind its draft. -/
def drafted (device : Device L κ H Φ) (lane : Lane L κ H) : Lane L κ H :=
  let row := mtpAppended device (draftRow lane)
  { lane with
    mtp := { row with sequence := { row.sequence with deferredToken := none } }
    draft := draftOf device (draftRow lane)
    target := { lane.target with tokenIds := [lane.input, draftOf device (draftRow lane)] } }

section
variable (device : Device L κ H Φ) (fails : CycleCall → Bool) (mtpWorkspace : MtpWorkspace)
variable {lanes : List (Lane L κ H)}

theorem draftStreams_cases (lane : Lane L κ H) (index : Nat) :
    (draftStreams fails index lane.drafting.mtp = (draftRow lane, .ok ()) ∧
      lane.mtp.sequence.position ≠ 0 ∧ fails (.draftStream index) = false) ∨
    ∃ e, draftStreams fails index lane.drafting.mtp = (lane.drafting.mtp, .error e) ∧
      (lane.mtp.sequence.position = 0 ∨ fails (.draftStream index) = true) := by
  obtain ⟨input, target, ⟨tokenIds, ⟨entry, position, previous, deferredHidden, deferred⟩,
    streams⟩, draft, accepted, next⟩ := lane
  by_cases hposition : position = 0
  · exact .inr ⟨_, by simp [draftStreams, Lane.drafting, hposition]; rfl, .inl hposition⟩
  · cases deferred with
    | none =>
      by_cases hfails : fails (.draftStream index) = true
      · exact .inr ⟨_, by simp [draftStreams, Lane.drafting, hposition, failAt, hfails]; rfl,
          .inr hfails⟩
      · left
        refine ⟨?_, hposition, Bool.eq_false_iff.mpr hfails⟩
        simp [draftStreams, Lane.drafting, hposition, failAt, hfails, draftRow]
    | some token =>
      by_cases hfails : fails (.draftStream index) = true
      · exact .inr ⟨_, by simp [draftStreams, Lane.drafting, hposition, failAt, hfails]; rfl,
          .inr hfails⟩
      · left
        refine ⟨?_, hposition, Bool.eq_false_iff.mpr hfails⟩
        simp [draftStreams, Lane.drafting, hposition, failAt, hfails, draftRow]

section
variable (lanes : List (Lane L κ H))

/-- The draft rows pass their checks. -/
def DraftAccepts : Prop :=
  (∀ lane ∈ lanes, lane.mtp.sequence.position ≠ 0) ∧ MtpAccepts mtpWorkspace (lanes.map draftRow)

/-- The calls of a cycle before its first MTP commit. -/
def EarlyReached : CycleCall → Prop
  | .draftStream row => row < lanes.length
  | .mtp call => early call = true ∧ MtpReached true lanes.length call
  | _ => False

/-- The calls of the draft from its first MTP commit on. -/
def DraftReached : CycleCall → Prop
  | .mtp call => early call = false ∧ MtpReached true lanes.length call
  | _ => False

end

theorem draftStreams_ensures :
    Ensures (sweep (draftStreams fails) id id) (lanes.map fun lane => lane.drafting.mtp)
      (fun _ after => after = lanes.map draftRow ∧
        (∀ lane ∈ lanes, lane.mtp.sequence.position ≠ 0) ∧
        ∀ i < lanes.length, fails (.draftStream i) = false)
      (fun _ after => List.Forall₂ (fun lane row => row.sequence = lane.mtp.sequence) lanes after ∧
        ((∃ lane ∈ lanes, lane.mtp.sequence.position = 0) ∨
          ∃ i < lanes.length, fails (.draftStream i) = true)) := by
  have hsweep := Ensures.sweep (draftStreams fails) id id lanes (fun lane => lane.drafting.mtp)
    draftRow (fun lane row => row.sequence = lane.mtp.sequence)
    (fun i lane => lane.mtp.sequence.position ≠ 0 ∧ fails (.draftStream i) = false)
    (fun i lane _ => lane.mtp.sequence.position = 0 ∨ fails (.draftStream i) = true)
    (fun i lane _ => (draftStreams_cases fails lane i).imp id
      fun ⟨e, hstep, hhit⟩ => ⟨_, e, hstep, rfl, hhit⟩)
    (fun _ _ => rfl) (fun _ _ => rfl)
  refine hsweep.mono ?_ ?_
  · rintro _ _ ⟨rfl, hclear⟩
    refine ⟨rfl, fun lane hlane => ?_, fun i hi => (hclear i _ (getElem?_eq_getElem hi)).2⟩
    obtain ⟨i, hget⟩ := mem_iff_getElem?.mp hlane
    exact (hclear i lane hget).1
  · rintro _ _ ⟨hrows, i, lane, hget, hzero | hfails⟩
    · exact ⟨hrows, .inl ⟨lane, List.mem_of_getElem? hget, hzero⟩⟩
    · exact ⟨hrows, .inr ⟨i, (List.getElem?_eq_some_iff.mp hget).1, hfails⟩⟩

/-- The MTP row of a lane behind its draft, with its deferred token caught up. -/
def caughtUp (lane : Lane L κ H) : MtpBatchRow H :=
  let row := mtpAppended device (draftRow lane)
  { row with sequence := { row.sequence with deferredToken := none } }

theorem draftMtpArgmax_ensures (hready : ∀ lane ∈ lanes, LaneReady lane) :
    Ensures (draftMtpArgmax device fails mtpWorkspace) (lanes.map fun lane => lane.drafting.mtp)
      (fun drafts after => after = lanes.map (caughtUp device) ∧
        drafts = lanes.map (fun lane => draftOf device (draftRow lane)) ∧
        DraftAccepts mtpWorkspace lanes ∧
        ∀ call, EarlyReached lanes call ∨ DraftReached lanes call → fails call = false)
      (fun _ after =>
        (List.Forall₂ (fun lane row => row.sequence = lane.mtp.sequence) lanes after ∧
          (¬ DraftAccepts mtpWorkspace lanes ∨
            ∃ call, EarlyReached lanes call ∧ fails call = true)) ∨
        (List.Forall₂ (fun lane row => Moved (draftRow lane) row) lanes after ∧
          DraftAccepts mtpWorkspace lanes ∧
          ∃ call, DraftReached lanes call ∧ fails call = true)) := by
  refine (draftStreams_ensures fails).bind_mono ?_ ?_
  · rintro _ _ ⟨hsame, ⟨lane, hlane, hzero⟩ | ⟨i, hi, hfails⟩⟩
    · exact .inl ⟨hsame, .inl fun haccepts => haccepts.1 lane hlane hzero⟩
    · exact .inl ⟨hsame, .inr ⟨.draftStream i, hi, hfails⟩⟩
  rintro _ _ ⟨rfl, hpositions, hstreams⟩
  have hpending : ∀ row ∈ lanes.map draftRow, row.sequence.entry.pending = none := by
    intro row hrow
    obtain ⟨lane, hlane, rfl⟩ := mem_map.mp hrow
    exact (hready lane hlane).inStep.pending
  have happend := appendMtpFromTarget_ensures device (fun call => fails (.mtp call)) mtpWorkspace
    true hpending
  rw [length_map] at happend
  refine happend.bind_mono ?_ ?_
  · rintro _ after (⟨rfl, hcause⟩ | ⟨hmoved, haccepts, call, hearly, hreached, hfails⟩)
    · refine .inl ⟨?_, ?_⟩
      · rw [forall₂_map_right_iff, forall₂_same]
        exact fun _ _ => rfl
      · obtain hrejected | ⟨call, hearly, hreached, hfails⟩ := hcause
        · exact .inl fun haccepts => hrejected haccepts.2
        · exact .inr ⟨.mtp call, ⟨hearly, hreached⟩, hfails⟩
    · rw [forall₂_map_left_iff] at hmoved
      exact .inr ⟨hmoved, ⟨hpositions, haccepts⟩, .mtp call, ⟨hearly, hreached⟩, hfails⟩
  rintro drafts _ ⟨rfl, rfl, haccepts, hclear⟩
  apply modify_bind
  apply Ensures.pure
  refine ⟨by simp [caughtUp, comp_def], by simp [comp_def],
    ⟨hpositions, haccepts⟩, ?_⟩
  rintro call hcall
  cases call with
  | draftStream i => exact hstreams i (hcall.resolve_right id)
  | mtp call => exact hclear call (hcall.elim And.right And.right)
  | _ => exact absurd hcall (not_or.mpr ⟨id, id⟩)

theorem moved_not_restored {after : Lane L κ H} (hready : LaneReady lane)
    (hmoved : Moved (draftRow lane) after.mtp) (htarget : after.target = lane.target) :
    ¬ LaneRestored lane after := by
  intro hrestored
  obtain hpending | hposition := hmoved.moved
  · exact hpending hrestored.inStep.pending
  · have hbefore := hready.inStep.position
    have hafter := hrestored.inStep.position
    have hdeferred : after.mtp.sequence.deferredToken = lane.mtp.sequence.deferredToken :=
      hmoved.deferredToken
    have hrow : (draftRow lane).sequence.position = lane.mtp.sequence.position := rfl
    have htokens : 0 < (draftRow lane).tokenIds.length := by
      unfold draftRow Lane.drafting
      cases lane.mtp.sequence.deferredToken <;> simp
    rw [hdeferred, htarget] at hafter
    omega

theorem draftLanes_ensures (hne : lanes ≠ []) (hready : ∀ lane ∈ lanes, LaneReady lane) :
    Ensures (draftLanes device fails mtpWorkspace) lanes
      (fun _ after => after = lanes.map (drafted device) ∧ DraftAccepts mtpWorkspace lanes ∧
        ∀ call, EarlyReached lanes call ∨ DraftReached lanes call → fails call = false)
      (fun _ after =>
        (List.Forall₂ LaneRestored lanes after ∧ (¬ DraftAccepts mtpWorkspace lanes ∨
          ∃ call, EarlyReached lanes call ∧ fails call = true)) ∨
        (Broken LaneRestored lanes after ∧ DraftAccepts mtpWorkspace lanes ∧
          ∃ call, DraftReached lanes call ∧ fails call = true)) := by
  have hrows : (lanes.map Lane.drafting).map Lane.mtp = lanes.map fun lane => lane.drafting.mtp :=
    map_map
  apply modify_bind
  have hdraft : Ensures (onLaneMtps (draftMtpArgmax device fails mtpWorkspace))
      (lanes.map Lane.drafting)
      (fun drafts after => (after = lanes.map fun lane =>
          { lane.drafting with mtp := caughtUp device lane }) ∧
        drafts = lanes.map (fun lane => draftOf device (draftRow lane)) ∧
        DraftAccepts mtpWorkspace lanes ∧
        ∀ call, EarlyReached lanes call ∨ DraftReached lanes call → fails call = false)
      (fun _ after =>
        (List.Forall₂ LaneRestored lanes after ∧ (¬ DraftAccepts mtpWorkspace lanes ∨
          ∃ call, EarlyReached lanes call ∧ fails call = true)) ∨
        (Broken LaneRestored lanes after ∧ DraftAccepts mtpWorkspace lanes ∧
          ∃ call, DraftReached lanes call ∧ fails call = true)) := by
    apply Ensures.overRows
    rw [hrows]
    refine (draftMtpArgmax_ensures device fails mtpWorkspace hready).mono ?_ ?_
    · rintro drafts _ ⟨rfl, hdrafts⟩
      refine ⟨?_, hdrafts⟩
      rw [zipWith_map, zipWith_self]
    · rintro _ after (⟨hsame, hcause⟩ | ⟨hmoved, haccepts, hcause⟩)
      · refine .inl ⟨?_, hcause⟩
        rw [zipWith_map_left]
        refine ((forall₂_and_left _ _).mpr ⟨hready, forall₂_zipWith _ hsame⟩).imp ?_
        rintro lane _ ⟨hlane, row, hrow, rfl⟩
        refine ⟨hlane.idle.restored, ?_⟩
        rw [hrow]
        exact hlane.inStep
      · refine .inr ⟨?_, haccepts, hcause⟩
        cases hmoved with
        | nil => exact absurd rfl hne
        | cons hhead _ =>
          exact ⟨_, _, rfl, rfl, moved_not_restored (hready _ mem_cons_self) hhead rfl⟩
  refine hdraft.bind ?_
  rintro drafts _ ⟨rfl, rfl, haccepts, hclear⟩
  apply Ensures.modify
  refine ⟨?_, haccepts, hclear⟩
  rw [zipWith_map, zipWith_self]
  rfl

end

/-! ## The cycle behind its draft -/

/-- The target's token behind the input of the lane is the one the MTP layer proposes. -/
def Confirms (device : Device L κ H Φ) (lane : Lane L κ H) : Prop :=
  device.top1 (device.logits (device.advance lane.target.sequence.state.layers
    lane.target.sequence.entry.rows lane.input).2.2) = draftOf device (draftRow lane)

instance (device : Device L κ H Φ) (lane : Lane L κ H) : Decidable (Confirms device lane) :=
  inferInstanceAs (Decidable (_ = _))

/-- The MTP sequence of the lane is one token ahead of where its target was. -/
def Ahead (before after : Lane L κ H) : Prop :=
  after.mtp.sequence.position = before.target.sequence.state.position + 1

theorem drafted_ahead (device : Device L κ H Φ) (h : LaneReady lane) :
    Ahead lane (drafted device lane) := by
  have hposition := h.inStep.position
  have htokens : (draftRow lane).tokenIds.length =
      1 + lane.mtp.sequence.deferredToken.toList.length := by
    unfold draftRow Lane.drafting
    cases lane.mtp.sequence.deferredToken <;> rfl
  change lane.mtp.sequence.position + (draftRow lane).tokenIds.length = _
  omega

theorem broken_of_ahead {lanes after : List (Lane L κ H)} (hne : lanes ≠ [])
    (h : List.Forall₂ Ahead lanes after) : Broken LaneRestored lanes after := by
  cases h with
  | nil => exact absurd rfl hne
  | cons hhead _ =>
    refine ⟨_, _, rfl, rfl, fun hrestored => ?_⟩
    have hposition := hrestored.inStep.position
    have htarget := hrestored.target.position
    unfold Ahead at hhead
    omega

section
variable (device : Device L κ H Φ) (fails : CycleCall → Bool) (workspace : BatchWorkspace)
variable {lanes : List (Lane L κ H)}

/-- Two rows behind the position of each lane pass the target's checks. -/
def VerifyAccepts (lanes : List (Lane L κ H)) : Prop :=
  Accepts device workspace
    (lanes.map fun lane => { lane.target with tokenIds := [lane.input, lane.input] })

/-- The calls behind the draft that a cycle over these lanes makes. -/
def LateReached (lanes : List (Lane L κ H)) : CycleCall → Prop
  | .draftStream _ => False
  | .mtp call => early call = false ∧ MtpReached true lanes.length call
  | .target call => (phase call = .opening ∨ phase call = .decoding) ∧
      Reached device (lanes.map Lane.target) call
  | .verificationStreams | .hyperHead | .finalNorm | .lmHead | .synchronize | .readback => True
  | .commitAppend row => ∃ lane, lanes[row]? = some lane ∧ Confirms device lane
  | .abortState row => ∃ lane, lanes[row]? = some lane ∧ ¬ Confirms device lane
  | .rerun row call => ∃ lane, lanes[row]? = some lane ∧ ¬ Confirms device lane ∧
      Reached device [lane.target] call
  | .rerunStream row => ∃ lane, lanes[row]? = some lane ∧ ¬ Confirms device lane
  | .previousHidden row => row < lanes.length
  | .deferredHidden row => ∃ lane, lanes[row]? = some lane ∧ Confirms device lane
  | .rerunSynchronize | .lastSynchronize => True

/-- What a cycle leaves that fails behind its draft, with its cause. -/
abbrev FailsLate (lanes after : List (Lane L κ H)) : Prop :=
  List.Forall₂ Ahead lanes after ∧ (¬ VerifyAccepts device workspace lanes ∨
    ∃ call, LateReached device lanes call ∧ fails call = true)

theorem reached_map_congr {ι : Type} (f g : ι → BatchRow L κ H) (items : List ι)
    (h : ∀ x, (f x).sequence.state.layers = (g x).sequence.state.layers) :
    Reached device (items.map f) call ↔ Reached device (items.map g) call := by
  cases call with
  | beginAppend row layer =>
    simp only [Reached, getElem?_map, Option.map_eq_some_iff, exists_exists_and_eq_and, h]
  | _ => simp [Reached]

theorem verifyAccepts_iff : Accepts device workspace (lanes.map fun lane =>
    (drafted device lane).target) ↔ VerifyAccepts device workspace lanes := by
  unfold VerifyAccepts Accepts
  rw [validateModelRows_ok_iff, validateModelRows_ok_iff]
  simp only [forall_mem_map, validateModelRow_ok_iff]
  have hdraft := fun lane : Lane L κ H => device.draft_lt
    (mtpAppended device (draftRow lane)).sequence.entry.rows
  simp [drafted, draftOf, comp_def, hdraft]

/-- The lane behind its verification. -/
def verified (lane : Lane L κ H) : Lane L κ H :=
  Lane.verified device { drafted device lane with
    target := passed device (drafted device lane).target }

theorem verified_accepted (lane : Lane L κ H) :
    (verified device lane).accepted = decide (Confirms device lane) := rfl

theorem verifyTargets_ensures (hready : ∀ lane ∈ lanes, LaneReady lane) :
    Ensures (onLaneTargets (reserveModelRows (fun call => fails (.target call)) >>= fun _ =>
        onError (runDecoderBatch device (fun call => fails (.target call)) workspace)
          abortModelRows)) (lanes.map (drafted device))
      (fun _ after => after = lanes.map (fun lane => { drafted device lane with
          target := passed device (drafted device lane).target }) ∧
        VerifyAccepts device workspace lanes ∧
        ∀ call, LateReached device lanes (.target call) → fails (.target call) = false)
      (fun _ => FailsLate device fails workspace lanes) := by
  have hrows : (lanes.map (drafted device)).map Lane.target =
      lanes.map fun lane => (drafted device lane).target := map_map
  have hreached : ∀ call, Reached device (lanes.map fun lane => (drafted device lane).target) call ↔
      Reached device (lanes.map Lane.target) call := fun call =>
    reached_map_congr device _ _ _ fun _ => rfl
  have hidle : ∀ row ∈ lanes.map (fun lane => (drafted device lane).target),
      Idle row.sequence := by
    intro row hrow
    obtain ⟨lane, hlane, rfl⟩ := mem_map.mp hrow
    exact (hready lane hlane).idle
  apply Ensures.overRows
  rw [hrows]
  refine (opened_ensures device (fun call => fails (.target call)) hidle
    (runDecoderBatch_ensures device _ workspace)).mono ?_ ?_
  · rintro _ _ ⟨rfl, hopening, haccepts, hdecoding⟩
    refine ⟨?_, (verifyAccepts_iff device workspace).mp haccepts, ?_⟩
    · rw [map_map, zipWith_map, zipWith_self]
      rfl
    · rintro call ⟨hphase | hphase, hcall⟩
      · exact hopening call hphase ((hreached call).mpr hcall)
      · exact hdecoding call hphase ((hreached call).mpr hcall)
  · rintro _ after ⟨hrestored, hcause⟩
    constructor
    · rw [forall₂_map_left_iff] at hrestored
      rw [zipWith_map_left]
      refine ((forall₂_and_left _ _).mpr ⟨hready, forall₂_zipWith _ hrestored⟩).imp ?_
      rintro lane _ ⟨hlane, row, -, rfl⟩
      exact drafted_ahead device hlane
    · obtain ⟨call, hphase, hcall, hfails⟩ | hrejected | ⟨call, hphase, hcall, hfails⟩ := hcause
      · exact .inr ⟨.target call, ⟨.inl hphase, (hreached call).mp hcall⟩, hfails⟩
      · exact .inl fun haccepts => hrejected ((verifyAccepts_iff device workspace).mpr haccepts)
      · exact .inr ⟨.target call, ⟨.inr hphase, (hreached call).mp hcall⟩, hfails⟩

theorem reachBehind_ensures {f : Lane L κ H → Lane L κ H} (call : CycleCall) (name : String)
    (hahead : ∀ lane ∈ lanes, Ahead lane (f lane)) (hreached : LateReached device lanes call) :
    Ensures (reach (fails call) name) (lanes.map f)
      (fun _ after => after = lanes.map f ∧ fails call = false)
      (fun _ => FailsLate device fails workspace lanes) := by
  refine (reach_ensures _ _ _).mono (fun _ _ h => h) ?_
  rintro _ _ ⟨rfl, hfails⟩
  refine ⟨?_, .inr ⟨call, hreached, hfails⟩⟩
  rw [forall₂_map_right_iff, forall₂_same]
  exact hahead

theorem verifyLanes_ensures (hready : ∀ lane ∈ lanes, LaneReady lane) :
    Ensures (verifyLanes device fails workspace) (lanes.map (drafted device))
      (fun _ after => after = lanes.map (verified device) ∧
        VerifyAccepts device workspace lanes ∧
        (∀ call, LateReached device lanes (.target call) → fails (.target call) = false) ∧
        fails .verificationStreams = false ∧ fails .hyperHead = false ∧
        fails .finalNorm = false ∧ fails .lmHead = false ∧ fails .synchronize = false ∧
        fails .readback = false) (fun _ => FailsLate device fails workspace lanes) := by
  have hahead : ∀ lane ∈ lanes, Ahead lane { drafted device lane with
      target := passed device (drafted device lane).target } := fun lane hlane =>
    drafted_ahead device (hready lane hlane)
  refine (verifyTargets_ensures device fails workspace hready).bind ?_
  rintro _ _ ⟨rfl, haccepts, htarget⟩
  refine (reachBehind_ensures device fails workspace .verificationStreams _ hahead trivial).bind ?_
  rintro _ _ ⟨rfl, hstreams⟩
  refine (reachBehind_ensures device fails workspace .hyperHead _ hahead trivial).bind ?_
  rintro _ _ ⟨rfl, hhead⟩
  refine (reachBehind_ensures device fails workspace .finalNorm _ hahead trivial).bind ?_
  rintro _ _ ⟨rfl, hnorm⟩
  refine (reachBehind_ensures device fails workspace .lmHead _ hahead trivial).bind ?_
  rintro _ _ ⟨rfl, hlm⟩
  refine (reachBehind_ensures device fails workspace .synchronize _ hahead trivial).bind ?_
  rintro _ _ ⟨rfl, hsync⟩
  refine (reachBehind_ensures device fails workspace .readback _ hahead trivial).bind ?_
  rintro _ _ ⟨rfl, hreadback⟩
  apply Ensures.modify
  refine ⟨?_, haccepts, htarget, hstreams, hhead, hnorm, hlm, hsync, hreadback⟩
  rw [map_map]
  rfl

/-- The lane behind its commit or its rollback. -/
def settled (lane : Lane L κ H) : Lane L κ H :=
  let lane' := verified device lane
  if Confirms device lane then { lane' with target := lane'.target.commit 2 }
  else { lane' with target := lane'.target.abort }

/-- The row of a rejected input. -/
def rejected (lane : Lane L κ H) : BatchRow L κ H :=
  { (passed device (drafted device lane).target).abort with tokenIds := [lane.input] }

/-- The lane behind the pass over a rejected input. -/
def rerun (lane : Lane L κ H) : Lane L κ H :=
  if Confirms device lane then settled device lane
  else { settled device lane with target := appended device (rejected device lane) }

theorem sweepBehind_ensures {f g : Lane L κ H → Lane L κ H} {clear : Nat → Lane L κ H → Prop}
    {step : Nat → Lane L κ H → Lane L κ H × Except CudaError Unit}
    (hf : ∀ lane ∈ lanes, Ahead lane (f lane)) (hg : ∀ lane ∈ lanes, Ahead lane (g lane))
    (work : ∀ i, ∀ lane ∈ lanes, (step i (f lane) = (g lane, .ok ()) ∧ clear i lane) ∨
      ∃ a e, step i (f lane) = (a, .error e) ∧ Ahead lane a ∧ (lanes[i]? = some lane →
        ∃ call, LateReached device lanes call ∧ fails call = true)) :
    Ensures (sweep step id id) (lanes.map f)
      (fun _ after => after = lanes.map g ∧ ∀ i lane, lanes[i]? = some lane → clear i lane)
      (fun _ => FailsLate device fails workspace lanes) := by
  have hsweep := Ensures.sweep step id id lanes f g Ahead clear
    (fun i lane _ => lanes[i]? = some lane →
      ∃ call, LateReached device lanes call ∧ fails call = true) work hg hf
  apply hsweep.mono (fun _ _ h => h)
  rintro _ after ⟨hahead, i, lane, hget, hhit⟩
  exact ⟨hahead, .inr (hhit hget)⟩

theorem settle_ensures (hready : ∀ lane ∈ lanes, LaneReady lane) :
    Ensures (sweep (Lane.settle fails) id id) (lanes.map (verified device))
      (fun _ after => after = lanes.map (settled device) ∧ ∀ i lane, lanes[i]? = some lane →
        (Confirms device lane → fails (.commitAppend i) = false) ∧
        (¬ Confirms device lane → fails (.abortState i) = false))
      (fun _ => FailsLate device fails workspace lanes) := by
  have hahead : ∀ lane ∈ lanes, Ahead lane (verified device lane) := fun lane hlane =>
    drafted_ahead device (hready lane hlane)
  refine sweepBehind_ensures device fails workspace hahead ?_ ?_
  · intro lane hlane
    unfold settled
    split
    · exact hahead lane hlane
    · exact hahead lane hlane
  · intro i lane hlane
    by_cases hconfirms : Confirms device lane
    · have haccepted : (verified device lane).accepted = true := by
        rw [verified_accepted, decide_eq_true hconfirms]
      rw [Lane.settle, if_pos haccepted, settled, if_pos hconfirms]
      obtain ⟨hstep, hclear⟩ | ⟨hstep, hfails⟩ := failAt_cases
        (fun row => fails (.commitAppend row)) (cacheError "commit_append") id
        (fun lane : Lane L κ H => { lane with target := lane.target.commit 2 }) i
        (verified device lane)
      · exact .inl ⟨hstep, fun _ => hclear, fun hnot => absurd hconfirms hnot⟩
      · exact .inr ⟨_, _, hstep, hahead lane hlane, fun hget =>
          ⟨.commitAppend i, ⟨lane, hget, hconfirms⟩, hfails⟩⟩
    · have haccepted : ¬ (verified device lane).accepted = true := by
        rw [verified_accepted, decide_eq_false hconfirms]
        exact Bool.false_ne_true
      rw [Lane.settle, if_neg haccepted, settled, if_neg hconfirms]
      obtain ⟨hstep, hclear⟩ | ⟨hstep, hfails⟩ := failAt_cases
        (fun row => fails (.abortState row)) (CudaError.device "copy_from_on_stream") id
        (fun lane : Lane L κ H => { lane with target := lane.target.abort }) i
        (verified device lane)
      · exact .inl ⟨hstep, fun h => absurd h hconfirms, fun _ => hclear⟩
      · exact .inr ⟨_, _, hstep, hahead lane hlane, fun hget =>
          ⟨.abortState i, ⟨lane, hget, hconfirms⟩, hfails⟩⟩

theorem rejected_restored (h : LaneReady lane) :
    Restored lane.target.sequence (rejected device lane).sequence := by
  have hrestored := (passed_open device (drafted device lane).target).abort h.idle
  exact ⟨hrestored.layers, hrestored.position, hrestored.maxTokens, hrestored.rows, hrestored.idle⟩

theorem rejected_accepts (haccepts : VerifyAccepts device workspace lanes) (hlane : lane ∈ lanes)
    (hready : LaneReady lane) : Accepts device workspace [rejected device lane] := by
  have hrestored := rejected_restored device hready
  obtain ⟨-, hcount, hrows, htotal⟩ := (validateModelRows_ok_iff ..).mp haccepts
  obtain ⟨-, htokens, hoverflow, hend, hcontext⟩ := (validateModelRow_ok_iff ..).mp
    (hrows _ (mem_map_of_mem hlane))
  have hlength := length_pos_of_mem hlane
  simp only [length_map, map_map, comp_def, length_cons, length_nil,
    map_const', sum_replicate_nat] at hcount htotal hoverflow hend
  refine (validateModelRows_ok_iff ..).mpr ⟨cons_ne_nil _ _, ?_, ?_, ?_⟩
  · simp only [length_cons, length_nil]
    omega
  · intro row hrow
    rw [mem_singleton.mp hrow, validateModelRow_ok_iff, hrestored.position, hrestored.maxTokens]
    have hlast : (rejected device lane).tokenIds.length = 1 := rfl
    refine ⟨cons_ne_nil _ _, ?_, by omega, by omega, hcontext⟩
    exact forall_mem_singleton.mpr (htokens lane.input mem_cons_self)
  · have hsum : ([rejected device lane].map fun row => row.tokenIds.length).sum = 1 := rfl
    omega

/-- The pass over a rejected input, with the calls that may fail in it. -/
theorem forwardRejected_cases (fails : TargetCall → Bool)
    (haccepts : Accepts device workspace [rejected device lane]) (hready : LaneReady lane) :
    (∃ logits, forwardBatch device fails workspace [rejected device lane] =
        .ok logits [appended device (rejected device lane)] ∧
      ∀ call, Reached device [lane.target] call → fails call = false) ∨
    ∃ e rows, forwardBatch device fails workspace [rejected device lane] = .error e rows ∧
      ∃ call, Reached device [lane.target] call ∧ fails call = true := by
  have hreached : ∀ call, Reached device [rejected device lane] call ↔
      Reached device [lane.target] call := fun call =>
    reached_map_congr device (fun _ => rejected device lane) (fun _ => lane.target) [()] fun _ => (rejected_restored device hready).layers
  have hidle : ∀ row ∈ [rejected device lane], Idle row.sequence := by
    exact forall_mem_singleton.mpr ((rejected_restored device hready).idle)
  have hforward := forwardBatch_ensures device fails workspace hidle
  unfold Ensures at hforward
  cases hrun : forwardBatch device fails workspace [rejected device lane] with
  | ok logits rows =>
    rw [hrun] at hforward
    obtain ⟨rfl, -, -, hclear⟩ := hforward
    exact .inl ⟨logits, rfl, fun call hcall => hclear call ((hreached call).mpr hcall)⟩
  | error e rows =>
    rw [hrun] at hforward
    refine .inr ⟨e, rows, rfl, ?_⟩
    obtain ⟨-, ⟨call, -, hcall, hfails⟩ | hrejected | ⟨call, -, hcall, hfails⟩ | hsync |
      ⟨hfirst, hpos⟩⟩ | ⟨-, -, ⟨call, -, hcall, hfails⟩ | ⟨i, hpos, hi, -⟩⟩ := hforward
    · exact ⟨call, (hreached call).mp hcall, hfails⟩
    · exact absurd haccepts hrejected
    · exact ⟨call, (hreached call).mp hcall, hfails⟩
    · exact ⟨.synchronize, trivial, hsync⟩
    · exact ⟨.commitAppend 0, Nat.one_pos, hfirst⟩
    · exact ⟨call, (hreached call).mp hcall, hfails⟩
    · simp only [length_cons, length_nil] at hi
      omega

theorem rerun_ensures (hready : ∀ lane ∈ lanes, LaneReady lane)
    (haccepts : VerifyAccepts device workspace lanes) :
    Ensures (sweep (Lane.rerun device fails workspace) id id) (lanes.map (settled device))
      (fun _ after => after = lanes.map (rerun device) ∧ ∀ i lane, lanes[i]? = some lane →
        ¬ Confirms device lane → fails (.rerunStream i) = false ∧
          ∀ call, Reached device [lane.target] call → fails (.rerun i call) = false)
      (fun _ => FailsLate device fails workspace lanes) := by
  have hsettled : ∀ lane ∈ lanes, Ahead lane (settled device lane) := by
    intro lane hlane
    unfold settled
    split <;> exact drafted_ahead device (hready lane hlane)
  refine sweepBehind_ensures device fails workspace hsettled ?_ ?_
  · intro lane hlane
    unfold rerun
    split <;> exact hsettled lane hlane
  · intro i lane hlane
    have haccepted : (settled device lane).accepted = decide (Confirms device lane) := by
      unfold settled
      split <;> rfl
    by_cases hconfirms : Confirms device lane
    · left
      rw [decide_eq_true hconfirms] at haccepted
      rw [Lane.rerun, if_pos haccepted, rerun, if_pos hconfirms]
      exact ⟨rfl, fun hnot => absurd hconfirms hnot⟩
    · rw [decide_eq_false hconfirms] at haccepted
      have hrow : { (settled device lane).target with tokenIds := [(settled device lane).input] } =
          rejected device lane := by
        unfold settled
        rw [if_neg hconfirms]
        rfl
      rw [Lane.rerun, if_neg (Bool.eq_false_iff.mp haccepted), rerun, if_neg hconfirms, hrow]
      obtain ⟨logits, hrun, hclear⟩ | ⟨e, rows, hrun, call, hcall, hfails⟩ :=
        forwardRejected_cases device workspace (fun call => fails (.rerun i call))
          (rejected_accepts device workspace haccepts hlane (hready lane hlane))
          (hready lane hlane)
      · simp only [hrun]
        by_cases hstream : fails (.rerunStream i) = true
        · rw [if_pos hstream]
          exact .inr ⟨_, _, rfl, hsettled lane hlane, fun hget =>
            ⟨.rerunStream i, ⟨lane, hget, hconfirms⟩, hstream⟩⟩
        · rw [if_neg hstream]
          exact .inl ⟨rfl, fun _ => ⟨Bool.eq_false_iff.mpr hstream, hclear⟩⟩
      · simp only [hrun]
        exact .inr ⟨_, _, rfl, hsettled lane hlane, fun hget =>
          ⟨.rerun i call, ⟨lane, hget, hconfirms, hcall⟩, hfails⟩⟩

/-- The lane at the end of its cycle. -/
def realigned (lane : Lane L κ H) : Lane L κ H :=
  let lane' := rerun device lane
  let sequence := { lane'.mtp.sequence with
    previousHidden := lane'.target.streams.getD 0 device.zeroStream }
  if Confirms device lane then
    { lane' with mtp := { lane'.mtp with sequence := { sequence with
        deferredHidden := lane'.target.streams.getD 1 device.zeroStream
        deferredToken := some lane'.draft } } }
  else
    { lane' with mtp := { lane'.mtp with sequence := { sequence with deferredToken := none } } }

theorem rerun_accepted (lane : Lane L κ H) :
    (rerun device lane).accepted = decide (Confirms device lane) := by
  unfold rerun settled
  split <;> rfl

theorem rerun_ahead (hready : LaneReady lane) : Ahead lane (rerun device lane) := by
  unfold rerun settled
  split <;> exact drafted_ahead device hready

theorem realigned_ahead (hready : LaneReady lane) : Ahead lane (realigned device lane) := by
  unfold realigned
  split <;> exact rerun_ahead device hready

theorem realign_ensures (hready : ∀ lane ∈ lanes, LaneReady lane) :
    Ensures (sweep (Lane.realign device fails) id id) (lanes.map (rerun device))
      (fun _ after => after = lanes.map (realigned device) ∧ ∀ i lane, lanes[i]? = some lane →
        fails (.previousHidden i) = false ∧
        (Confirms device lane → fails (.deferredHidden i) = false))
      (fun _ => FailsLate device fails workspace lanes) := by
  refine sweepBehind_ensures device fails workspace
    (fun lane hlane => rerun_ahead device (hready lane hlane))
    (fun lane hlane => realigned_ahead device (hready lane hlane)) ?_
  intro i lane hlane
  have haccepted := rerun_accepted device lane
  have hahead := rerun_ahead device (hready lane hlane)
  rw [Lane.realign]
  by_cases hprevious : fails (.previousHidden i) = true
  · rw [if_pos hprevious]
    exact .inr ⟨_, _, rfl, hahead, fun hget =>
      ⟨.previousHidden i, (List.getElem?_eq_some_iff.mp hget).1, hprevious⟩⟩
  rw [if_neg hprevious, realigned]
  by_cases hconfirms : Confirms device lane
  · rw [decide_eq_true hconfirms] at haccepted
    simp only [if_pos haccepted, if_pos hconfirms]
    by_cases hdeferred : fails (.deferredHidden i) = true
    · rw [if_pos hdeferred]
      exact .inr ⟨_, _, rfl, hahead, fun hget =>
        ⟨.deferredHidden i, ⟨lane, hget, hconfirms⟩, hdeferred⟩⟩
    · rw [if_neg hdeferred]
      exact .inl ⟨rfl, Bool.eq_false_iff.mpr hprevious, fun _ => Bool.eq_false_iff.mpr hdeferred⟩
  · rw [decide_eq_false hconfirms] at haccepted
    simp only [if_neg (Bool.eq_false_iff.mp haccepted), if_neg hconfirms]
    exact .inl ⟨trivial, Bool.eq_false_iff.mpr hprevious, fun h => absurd h hconfirms⟩

end

section
variable (device : Device L κ H Φ) (workspace : BatchWorkspace) (mtpWorkspace : MtpWorkspace)
variable {lanes : List (Lane L κ H)}

theorem behindDraft_ensures (fails : CycleCall → Bool) (hready : ∀ lane ∈ lanes, LaneReady lane)
    (hdraft : ∀ call, DraftReached lanes call → fails call = false) :
    Ensures (do
        verifyLanes device fails workspace
        sweep (Lane.settle fails) id id
        sweep (Lane.rerun device fails workspace) id id
        reach (fails .rerunSynchronize) "synchronize"
        sweep (Lane.realign device fails) id id
        reach (fails .lastSynchronize) "synchronize") (lanes.map (drafted device))
      (fun _ after => after = lanes.map (realigned device) ∧
        VerifyAccepts device workspace lanes ∧
        ∀ call, LateReached device lanes call → fails call = false)
      (fun _ => FailsLate device fails workspace lanes) := by
  refine (verifyLanes_ensures device fails workspace hready).bind ?_
  rintro _ _ ⟨rfl, haccepts, htarget, hstreams, hhead, hnorm, hlm, hsync, hreadback⟩
  refine (settle_ensures device fails workspace hready).bind ?_
  rintro _ _ ⟨rfl, hsettle⟩
  refine (rerun_ensures device fails workspace hready haccepts).bind ?_
  rintro _ _ ⟨rfl, hrerun⟩
  refine (reachBehind_ensures device fails workspace .rerunSynchronize _
    (fun lane hlane => rerun_ahead device (hready lane hlane)) trivial).bind ?_
  rintro _ _ ⟨rfl, hrerunSync⟩
  refine (realign_ensures device fails workspace hready).bind ?_
  rintro _ _ ⟨rfl, hrealign⟩
  refine (reachBehind_ensures device fails workspace .lastSynchronize _
    (fun lane hlane => realigned_ahead device (hready lane hlane)) trivial).imp ?_
  rintro _ _ ⟨rfl, hlast⟩
  refine ⟨rfl, haccepts, fun call hcall => ?_⟩
  cases call with
  | draftStream _ => exact hcall.elim
  | mtp call => exact hdraft (.mtp call) hcall
  | target call => exact htarget call hcall
  | verificationStreams => exact hstreams
  | hyperHead => exact hhead
  | finalNorm => exact hnorm
  | lmHead => exact hlm
  | synchronize => exact hsync
  | readback => exact hreadback
  | commitAppend i =>
    obtain ⟨lane, hget, hconfirms⟩ := hcall
    exact (hsettle i lane hget).1 hconfirms
  | abortState i =>
    obtain ⟨lane, hget, hconfirms⟩ := hcall
    exact (hsettle i lane hget).2 hconfirms
  | rerun i call =>
    obtain ⟨lane, hget, hconfirms, hreached⟩ := hcall
    exact (hrerun i lane hget hconfirms).2 call hreached
  | rerunStream i =>
    obtain ⟨lane, hget, hconfirms⟩ := hcall
    exact (hrerun i lane hget hconfirms).1
  | rerunSynchronize => exact hrerunSync
  | previousHidden i => exact (hrealign i _ (getElem?_eq_getElem hcall)).1
  | deferredHidden i =>
    obtain ⟨lane, hget, hconfirms⟩ := hcall
    exact (hrealign i lane hget).2 hconfirms
  | lastSynchronize => exact hlast

/-- The lanes pass the checks in front of the first MTP commit. -/
def CycleAccepts (lanes : List (Lane L κ H)) : Prop :=
  checkCycle workspace mtpWorkspace lanes = .ok () ∧ DraftAccepts mtpWorkspace lanes

/-- The single failure that leaves a cycle out of step: a call from the first MTP commit
on, or the target's refusal of the two verification rows. -/
def CycleLate (failing : Option CycleCall) (lanes : List (Lane L κ H)) : Prop :=
  CycleAccepts workspace mtpWorkspace lanes ∧
    ((∃ call, failing = some call ∧ LateReached device lanes call) ∨
      (¬ VerifyAccepts device workspace lanes ∧
        ∀ call, failing = some call → ¬ EarlyReached lanes call))

theorem late_of_draft {call : CycleCall} (h : DraftReached lanes call) :
    LateReached device lanes call := by
  cases call with
  | mtp call => exact h
  | _ => exact h.elim

theorem not_early_of_late {call : CycleCall} (h : LateReached device lanes call) :
    ¬ EarlyReached lanes call := by
  cases call with
  | mtp call =>
    rintro ⟨hearly, -⟩
    rw [h.1] at hearly
    cases hearly
  | draftStream row => exact h.elim
  | _ => exact id

theorem speculativeCycle_restores_iff (failing : Option CycleCall)
    (hready : ∀ lane ∈ lanes, LaneReady lane) :
    Restores LaneRestored
        (speculativeCycleArgmax device (only failing) workspace mtpWorkspace) lanes ↔
      ¬ CycleLate device workspace mtpWorkspace failing lanes := by
  have hrestored : List.Forall₂ LaneRestored lanes lanes :=
    forall₂_same.mpr fun lane hlane => ⟨(hready lane hlane).idle.restored,
      (hready lane hlane).inStep⟩
  apply restores_iff
  apply get_bind
  refine (check_ensures _ _).bind_mono ?_ ?_
  · rintro _ lanes ⟨rfl, hrejected⟩
    exact .inl ⟨hrestored, fun hlate => hrejected hlate.1.1⟩
  rintro _ lanes ⟨rfl, hchecked⟩
  have hne : lanes ≠ [] := by
    have hcount := Eider.Source.rejectIf_ok hchecked
    rintro rfl
    exact hcount (.inl rfl)
  refine (draftLanes_ensures device (only failing) mtpWorkspace hne hready).bind_mono ?_ ?_
  · rintro _ after (⟨hback, hcause⟩ | ⟨hbroken, haccepts, call, hcall, hfails⟩)
    · refine .inl ⟨hback, ?_⟩
      rintro ⟨⟨-, hdraft⟩, hlate⟩
      obtain hrejected | ⟨call, hcall, hfails⟩ := hcause
      · exact hrejected hdraft
      · cases only_eq_true.mp hfails
        obtain ⟨_, heq, hreached⟩ | ⟨-, hunreached⟩ := hlate
        · cases heq
          exact not_early_of_late device hreached hcall
        · exact hunreached call rfl hcall
    · exact .inr ⟨hbroken, ⟨hchecked, haccepts⟩, .inl ⟨call, only_eq_true.mp hfails,
        late_of_draft device hcall⟩⟩
  rintro _ _ ⟨rfl, haccepts, hclear⟩
  have hunreached : ∀ call, failing = some call → ¬ EarlyReached lanes call := by
    rintro call rfl hcall
    have hfalse := hclear call (.inl hcall)
    rw [only_eq_true.mpr rfl] at hfalse
    cases hfalse
  refine (behindDraft_ensures device workspace (only failing) hready
    fun call hcall => hclear call (.inr hcall)).mono ?_ ?_
  · rintro _ _ ⟨-, hverify, hlate⟩ ⟨-, ⟨call, rfl, hcall⟩ | ⟨hrejected, -⟩⟩
    · have hfalse := hlate call hcall
      rw [only_eq_true.mpr rfl] at hfalse
      cases hfalse
    · exact hrejected hverify
  · rintro _ after ⟨hahead, hcause⟩
    refine .inr ⟨broken_of_ahead hne hahead, ⟨hchecked, haccepts⟩, ?_⟩
    obtain hrejected | ⟨call, hcall, hfails⟩ := hcause
    · exact .inr ⟨hrejected, hunreached⟩
    · exact .inl ⟨call, only_eq_true.mp hfails, hcall⟩

end

/-! ## All four calls -/

/-- For every batch and every single failing call: a call that returns an error leaves its
sequences restored and in step, unless the failure is a late one. -/
theorem append_calls_restore_iff (device : Device L κ H Φ) (workspace : BatchWorkspace)
    (mtpWorkspace : MtpWorkspace) :
    (∀ (failing : Option TargetCall) (rows : List (BatchRow L κ H)),
      (∀ row ∈ rows, Idle row.sequence) →
      (Restores RestoredRow (prefillBatch device (only failing) workspace) rows ↔
        ¬ PrefillLate device workspace failing rows)) ∧
    (∀ (failing : Option TargetCall) (rows : List (BatchRow L κ H)),
      (∀ row ∈ rows, Idle row.sequence) →
      (Restores RestoredRow (forwardBatch device (only failing) workspace) rows ↔
        ¬ ForwardLate device workspace failing rows)) ∧
    (∀ (failing : Option ForwardCall) (pairs : List (RowPair L κ H)),
      (∀ pair ∈ pairs, PairReady pair) →
      (Restores PairRestored
          (forwardBatchWithMtp device (only failing) workspace mtpWorkspace) pairs ↔
        ¬ WithMtpLate device workspace mtpWorkspace failing pairs)) ∧
    ∀ (failing : Option CycleCall) (lanes : List (Lane L κ H)),
      (∀ lane ∈ lanes, LaneReady lane) →
      (Restores LaneRestored
          (speculativeCycleArgmax device (only failing) workspace mtpWorkspace) lanes ↔
        ¬ CycleLate device workspace mtpWorkspace failing lanes) := by
  refine ⟨?_, ?_, ?_, ?_⟩
  · exact fun failing _ hidle => prefillBatch_restores_iff device workspace failing hidle
  · exact fun failing _ hidle => forwardBatch_restores_iff device workspace failing hidle
  · exact fun failing _ hready =>
      forwardBatchWithMtp_restores_iff device workspace mtpWorkspace failing hready
  · exact fun failing _ hready =>
      speculativeCycle_restores_iff device workspace mtpWorkspace failing hready

/-- A device of one layer whose state counts the tokens. -/
def countingDevice : Device Nat Nat Nat Nat where
  layers := 1
  vocab := 100
  maxPositionEmbeddings := 64
  newLayers := [0]
  advance states _ token := (states.map (· + 1), token, token)
  interrupted _ states _ := states
  logits := id
  top1 logits := (logits + 1) % 100
  zeroStream := 0
  mtpInput token previous := token + previous
  draft streams := streams.sum % 100
  length_advance _ _ _ := List.length_map _
  top1_lt _ := Nat.mod_lt _ (by decide)
  draft_lt _ := Nat.mod_lt _ (by decide)

def freshRow (token : Nat) : BatchRow Nat Nat Nat where
  tokenIds := [token]
  sequence := ⟨⟨[0], [0], 0, false, 0, 8⟩, ⟨[], none⟩⟩
  streams := []

def smallWorkspace : BatchWorkspace := ⟨2, 4, 16⟩

theorem freshRows_idle : ∀ row ∈ [freshRow 7, freshRow 8], Idle row.sequence := by
  rw [forall_mem_cons, forall_mem_singleton]
  exact ⟨⟨rfl, rfl, rfl, rfl⟩, rfl, rfl, rfl, rfl⟩

/-- A row with its MTP row, at the first position. -/
def freshPair : RowPair Nat Nat Nat := (freshRow 7, ⟨[7], ⟨⟨[], none⟩, 0, 0, 0, none⟩, []⟩)

/-- A sequence behind its first token. -/
def secondLane : Lane Nat Nat Nat where
  input := 8
  target := ⟨[], ⟨⟨[1], [1], 0, false, 1, 8⟩, ⟨[7], none⟩⟩, []⟩
  mtp := ⟨[], ⟨⟨[7], none⟩, 1, 7, 0, none⟩, []⟩
  draft := 0
  accepted := false
  nextToken := 0

/-- A synchronize that fails is rolled back, in a prefill, in a forward pass with and without
MTP rows, and in the draft of a cycle. -/
theorem synchronize_restores :
    Restores RestoredRow (prefillBatch countingDevice (only (some .synchronize)) smallWorkspace)
      [freshRow 7, freshRow 8] ∧
    Restores RestoredRow (forwardBatch countingDevice (only (some .synchronize)) smallWorkspace)
      [freshRow 7, freshRow 8] ∧
    Restores PairRestored (forwardBatchWithMtp countingDevice
      (only (some (.target .synchronize))) smallWorkspace ⟨2, 4⟩) [freshPair] ∧
    Restores LaneRestored (speculativeCycleArgmax countingDevice
      (only (some (.mtp .synchronize))) smallWorkspace ⟨2, 4⟩) [secondLane] := by
  have hall := append_calls_restore_iff countingDevice smallWorkspace ⟨2, 4⟩
  refine ⟨?_, ?_, ?_, ?_⟩
  · refine (hall.1 _ _ freshRows_idle).mpr ?_
    rintro ⟨-, i, -, -, hcall⟩
    cases hcall
  · refine (hall.2.1 _ _ freshRows_idle).mpr ?_
    rintro ⟨-, ⟨call, hcall, hphase, -⟩ | ⟨i, -, -, hcall⟩⟩
    · cases hcall
      cases hphase
    · cases hcall
  · refine (hall.2.2.1 _ _ (forall_mem_singleton.mpr ⟨⟨rfl, rfl, rfl, rfl⟩, rfl, rfl⟩)).mpr ?_
    rintro ⟨-, ⟨-, ⟨call, hcall, hphase, -⟩ | ⟨i, -, -, hcall⟩⟩ | ⟨-, hclear, -⟩⟩
    · cases hcall
      cases hphase
    · cases hcall
    · exact hclear .synchronize rfl trivial
  · refine (hall.2.2.2 _ _ (forall_mem_singleton.mpr ⟨⟨rfl, rfl, rfl, rfl⟩, rfl, rfl⟩)).mpr ?_
    rintro ⟨-, ⟨call, hcall, hlate⟩ | ⟨-, hclear⟩⟩
    · cases hcall
      cases hlate.1
    · exact hclear _ rfl ⟨rfl, trivial⟩

/-- A hyper head that fails leaves the row with both appends open. -/
theorem hyper_head_leaves_row_open : (∀ row ∈ [freshRow 7], Idle row.sequence) ∧
    ¬ Restores RestoredRow (forwardBatch countingDevice (only (some .hyperHead)) smallWorkspace)
      [freshRow 7] := by
  refine ⟨forall_mem_singleton.mpr ⟨rfl, rfl, rfl, rfl⟩, fun hrestores => ?_⟩
  obtain ⟨e, row, hrun, hpending⟩ : ∃ e row,
      forwardBatch countingDevice (only (some .hyperHead)) smallWorkspace [freshRow 7] =
        .error e [row] ∧ row.sequence.state.appendPending = true := ⟨_, _, rfl, rfl⟩
  cases hrestores e _ hrun with
  | cons hrow _ =>
    have hidle := hrow.idle.appendPending
    rw [hpending] at hidle
    cases hidle

end Eider.Guarantees.Deepseek4Atomicity
