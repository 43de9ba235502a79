import Eider.Source.Flint.Append

/-!
Failing calls of `forward` and `forward_decode_batch` of Flint. A sequence is marked invalid
before anything runs, and every failure is answered with the aborts of its rows. A batch whose
commit fails behind the first row has advanced the rows before it.
-/
namespace Eider.Guarantees.FlintAppend
open Lib Lib.Faults List Ensures
open Source (CudaError CacheEntry rejectIf check_bind_eq_ok_iff checkEach_ok rejectIf_ok)
open Source.Flint.Append

variable {κ : Type}

/-- State, cache and local rings stand at one position, and no reservation is open. -/
structure At (s : Sequence κ) (place : Nat) : Prop where
  pending : s.entry.pending = none
  position : s.position = place
  rows : s.entry.rows.length = place
  rings : ∀ ring, some ring ∈ s.caches → ring = place

/-- What a call finds: a sequence at its position, or one that is marked invalid. -/
structure Idle (s : Sequence κ) : Prop where
  pending : s.entry.pending = none
  at_position : s.valid = true → At s s.position

/-- The sequence is as it was or marked invalid, with nothing open. -/
structure Safe (before after : Sequence κ) : Prop where
  pending : after.entry.pending = none
  kept : after = before ∨ after.valid = false

/-- The call advances the sequence by `count` tokens, leaves it or marks it invalid. -/
def Keeps (call : Appending κ Unit) (s : Sequence κ) (count : Nat) : Prop :=
  Ensures call s (fun _ after => At after (s.position + count)) fun _ after => Safe s after

/-- The same for a batch. -/
def BatchKeeps (call : Decoding κ Unit) (requests : List (Request κ)) : Prop :=
  Ensures call requests
    (fun _ after => List.Forall₂
      (fun r r' : Request κ => At r'.sequence (r.sequence.position + 1)) requests after)
    fun _ after => List.Forall₂ (fun r r' : Request κ => Safe r.sequence r'.sequence)
      requests after

/-- A sequence whose append is under way. -/
structure Underway (before after : Sequence κ) : Prop where
  rows : after.entry.rows = before.entry.rows
  position : after.position = before.position
  valid : after.valid = false

variable {device : Device κ} {w : Workspace} {failing : Option Call} {s t : Sequence κ}

section
variable (h : Underway s t)
include h

theorem Underway.abort : Safe s (t.mapEntry CacheEntry.abort) where
  pending := rfl
  kept := .inr h.valid

omit h in
theorem underway_open (s : Sequence κ) : Underway s (s.mapEntry CacheEntry.reserve).open' :=
  ⟨rfl, rfl, rfl⟩

/-! ## One sequence -/

theorem Underway.reach_ensures (fails : Bool) (error : CudaError) :
    Ensures (reach fails error) t (fun _ => Underway s) (fun _ => Underway s) := by
  refine (Ensures.reach _ _ _).mono ?_ ?_
  · rintro _ _ ⟨rfl, -⟩
    exact h
  · rintro _ _ ⟨rfl, -⟩
    exact h

variable (fails : Call → Bool)

theorem Underway.forwardReserved_ensures (rows : Nat) :
    Ensures (forwardReserved device fails rows) t (fun _ => Underway s) (fun _ => Underway s) := by
  have hlayers : Ensures (forwardLayers device fails rows) t (fun _ => Underway s)
      (fun _ => Underway s) := by
    refine Ensures.forM (I := fun _ => Underway s) ?_ h
    intro index _ t₀ h₀
    refine (h₀.reach_ensures _ _).bind ?_
    intro _ t₁ h₁
    have hmoved : Underway s (t₁.advanceRing index (t₁.position + rows)) :=
      ⟨h₁.rows, h₁.position, h₁.valid⟩
    apply modify_bind
    exact hmoved.reach_ensures _ _
  exact hlayers.bind fun _ _ h₁ => h₁.reach_ensures _ _

/-- The sequence behind the layers. -/
structure Executed (before : Sequence κ) (count : Nat) (after : Sequence κ) : Prop where
  underway : Underway before after
  written : (after.entry.pending.getD []).length = count

theorem Underway.runKernels_ensures (rows : Nat) (graphs : Bool) :
    Ensures (runKernels device w fails rows graphs) t (fun _ => Underway s)
      (fun _ => Underway s) := by
  unfold runKernels
  split
  · apply get_bind
    have hcapture : Ensures (captureGraph device w fails (graphBound w (t.position + 1))) t
        (fun _ => Underway s) (fun _ => Underway s) := by
      apply get_bind
      split
      · exact h
      · apply modify_bind
        have hcleared : Underway s { t with graph := none } := ⟨h.rows, h.position, h.valid⟩
        refine (hcleared.forwardReserved_ensures fails 1).bind ?_
        intro _ t₁ h₁
        refine (h₁.reach_ensures _ _).bind ?_
        intro _ t₂ h₂
        apply Ensures.modify
        exact ⟨h₂.rows, h₂.position, h₂.valid⟩
    exact hcapture.bind fun _ _ h₁ => h₁.reach_ensures _ _
  · exact h.forwardReserved_ensures fails rows

theorem Underway.execute_ensures (tokens : List Nat) (graphs : Bool) :
    Ensures (execute device w fails tokens graphs) t (fun _ => Executed s tokens.length)
      (fun _ => Underway s) := by
  refine (h.reach_ensures _ _).bind ?_
  intro _ t₁ h₁
  refine (h₁.reach_ensures _ _).bind ?_
  intro _ t₂ h₂
  refine (h₂.runKernels_ensures fails tokens.length graphs).bind ?_
  intro _ t₃ h₃
  have hexecuted : Executed s tokens.length (t₃.pass device tokens) :=
    ⟨⟨h₃.rows, h₃.position, h₃.valid⟩, device.length_write _ _⟩
  apply modify_bind
  refine (Ensures.reach _ _ _).mono ?_ ?_
  · rintro _ _ ⟨rfl, -⟩
    exact hexecuted
  · rintro _ _ ⟨rfl, -⟩
    exact hexecuted.underway

end

/-- The rings of a state whose positions were recorded. -/
theorem recordPositions_cases (s : Sequence κ) :
    (∃ e, s.recordPositions = (s, .error e) ∧ u32Max < s.position) ∨
      s.recordPositions =
        ({ s with caches := s.caches.map fun ring => ring.map fun _ => s.position }, .ok ()) := by
  unfold Sequence.recordPositions
  split
  · rename_i h
    exact .inl ⟨_, rfl, h.2⟩
  · exact .inr rfl

theorem recorded_rings (caches : List (Option Nat)) (place : Nat) :
    ∀ ring, some ring ∈ caches.map (fun ring => ring.map fun _ => place) → ring = place := by
  intro ring hring
  obtain ⟨before, -, hmap⟩ := mem_map.mp hring
  obtain ⟨_, -, hplace⟩ := Option.map_eq_some_iff.mp hmap
  exact hplace.symm

theorem Executed.finish {count : Nat} (h : Executed s count t)
    (hrows : s.entry.rows.length = s.position) :
    At ({ t.commit count with
      caches := (t.commit count).caches.map fun ring => ring.map fun _ => (t.commit count).position }
        : Sequence κ).finish (s.position + count) := by
  have hposition : (t.commit count).position = s.position + count := by
    change t.position + count = _
    rw [h.underway.position]
  refine ⟨rfl, hposition, ?_, ?_⟩
  · change (t.entry.rows ++ (t.entry.pending.getD []).take count).length = s.position + count
    rw [length_append, length_take, h.written, h.underway.rows, Nat.min_self, hrows]
  · rw [← hposition]
    exact recorded_rings _ _

theorem checkForward_valid {tokens : List Nat} (h : checkForward device w s tokens = .ok ()) :
    s.valid = true := by
  have hguard := (check_bind_eq_ok_iff.mp h).1
  have hnot := rejectIf_ok hguard
  simp only [not_or] at hnot
  exact Bool.eq_true_of_not_eq_false hnot.2.2.1

theorem Executed.commit_ensures {count : Nat} (h : Executed s count t) (hat : At s s.position)
    (fails : Call → Bool) :
    Ensures (commitForward fails count) t (fun _ after => At after (s.position + count))
      (fun _ => Safe s) := by
  have hcommit : Ensures (orUndo (reach (fails (.commitAppend 0)) (cacheError "commit_append"))
      (modify fun s => s.mapEntry CacheEntry.abort)) t (fun _ after => after = t)
      (fun _ => Safe s) := by
    refine ((Ensures.reach _ _ _).mono (fun _ _ ht => ht.1) fun _ _ ht => ht).orUndo ?_
    rintro _ _ ⟨rfl, -⟩
    exact h.underway.abort
  refine hcommit.bind ?_
  rintro _ t' rfl
  apply modify_bind
  apply get_bind
  obtain ⟨e, hrecord, -⟩ | hrecord := recordPositions_cases (t'.commit count)
  · rw [hrecord]
    exact ⟨rfl, .inr h.underway.valid⟩
  · rw [hrecord]
    exact h.finish hat.rows

theorem forwardImpl_keeps (hidle : Idle s) (fails : Call → Bool) (tokens : List Nat)
    (graphs : Bool) : Keeps (forwardImpl device w fails tokens graphs) s tokens.length := by
  have hsafe : Safe s s := ⟨hidle.pending, .inl rfl⟩
  apply get_bind
  apply Ensures.check_bind
  · exact fun _ _ => hsafe
  · intro haccepts
    have hat := hidle.at_position (checkForward_valid haccepts)
    apply Ensures.reach_bind
    · exact fun _ => hsafe
    · intro _
      apply modify_bind
      refine (((underway_open s).execute_ensures fails tokens graphs).orUndo ?_).bind ?_
      · intro _ t ht
        exact ht.abort
      · intro _ t ht
        exact ht.commit_ensures hat fails

/-! ## Several sequences -/

variable {requests : List (Request κ)} {r : Request κ}

/-- The request behind its reservation. -/
def opened (r : Request κ) : Request κ := r.reserve.map Sequence.open'

/-- The request behind the layers. -/
def executed (device : Device κ) (r : Request κ) : Request κ :=
  (opened r).map fun s => s.pass device [r.token]

/-- The request behind its commit. -/
def committed (device : Device κ) (r : Request κ) : Request κ :=
  (executed device r).map fun s =>
    ({ s.commit 1 with
      caches := (s.commit 1).caches.map fun ring => ring.map fun _ => (s.commit 1).position }
        : Sequence κ).finish

/-- Requests of which each is under way. -/
abbrev Pending (requests after : List (Request κ)) : Prop :=
  List.Forall₂ (fun r r' : Request κ => Underway r.sequence r'.sequence) requests after

/-- Requests of which each is safe. -/
abbrev AllSafe (requests after : List (Request κ)) : Prop :=
  List.Forall₂ (fun r r' : Request κ => Safe r.sequence r'.sequence) requests after

theorem executed_executed (device : Device κ) (r : Request κ) :
    Executed r.sequence 1 (executed device r).sequence :=
  ⟨⟨rfl, rfl, rfl⟩, device.length_write _ _⟩

theorem Pending.abort {after : List (Request κ)} (h : Pending requests after) :
    AllSafe requests (after.map Request.abort) :=
  forall₂_map_right_iff.mpr (h.imp fun _ _ hr => hr.abort)

theorem pending_opened : Pending requests (requests.map opened) := by
  refine forall₂_map_right_iff.mpr (forall₂_same.mpr ?_)
  exact fun r _ => underway_open r.sequence

theorem pending_executed : Pending requests (requests.map (executed device)) := by
  refine forall₂_map_right_iff.mpr (forall₂_same.mpr ?_)
  exact fun r _ => (executed_executed device r).underway

/-- No commit is the failing call. -/
def NoCommit (failing : Option Call) : Prop := ∀ row, failing ≠ some (.commitAppend row)

theorem noCommit {call : Call} (hfails : only failing call = true)
    (h : ∀ row, call ≠ .commitAppend row) : NoCommit failing := by
  intro row hcall
  rw [only_eq_true.mp hfails] at hcall
  exact h row (Option.some.inj hcall)

/-- Every position has a device position behind it. -/
def InRange (requests : List (Request κ)) : Prop := ∀ r ∈ requests, r.sequence.position < u32Max

/-- `set_row` leaves the requests and rejects a position that is out of range. -/
theorem setRows_ensures (row : Nat) (rows state : List (Request κ)) :
    Ensures (setRows (only failing) row rows) state (fun _ after => after = state ∧ InRange rows)
      (fun _ after => after = state ∧ (¬ InRange rows ∨ NoCommit failing)) := by
  induction rows generalizing row with
  | nil => exact ⟨rfl, fun r hr => by cases hr⟩
  | cons r rows ih =>
    apply Ensures.check_bind
    · intro e hrejects
      refine ⟨rfl, .inl fun hrange => ?_⟩
      rw [rejectIf, if_neg (Nat.not_le.mpr (hrange r mem_cons_self))] at hrejects
      cases hrejects
    · intro haccepts
      have hposition := Nat.not_le.mp (rejectIf_ok haccepts)
      apply Ensures.reach_bind
      · exact fun hfails => ⟨rfl, .inr (noCommit hfails fun n h => by cases h)⟩
      · intro _
        refine (ih (row + 1)).mono ?_ ?_
        · rintro _ _ ⟨rfl, hrest⟩
          exact ⟨rfl, forall_mem_cons.mpr ⟨hposition, hrest⟩⟩
        · rintro _ _ ⟨rfl, hcause⟩
          refine ⟨rfl, hcause.imp_left fun hout hrange => hout fun r' hr' => ?_⟩
          exact hrange r' (mem_cons_of_mem _ hr')

theorem reach_batch {fails : Bool} (error : CudaError) (state : List (Request κ))
    (h : fails = true → NoCommit failing) :
    Ensures (reach fails error) state (fun _ after => after = state)
      (fun _ after => after = state ∧ NoCommit failing) :=
  (Ensures.reach fails error state).mono (fun _ _ ht => ht.1) fun _ _ ht => ⟨ht.1, h ht.2⟩

theorem reach_call (call : Call) (error : CudaError) (state : List (Request κ))
    (h : ∀ row, call ≠ .commitAppend row) :
    Ensures (reach (only failing call) error) state (fun _ after => after = state)
      (fun _ after => after = state ∧ NoCommit failing) :=
  reach_batch error state fun hfails => noCommit hfails h

theorem any_noCommit {count : Nat} {fails : Nat → Bool}
    (h : ∀ i, fails i = true → NoCommit failing) :
    ((List.range count).any fun i => fails i) = true → NoCommit failing := by
  intro hany
  obtain ⟨i, -, hfails⟩ := any_eq_true.mp hany
  exact h i hfails

theorem captureBatch_ensures (rows bound : Nat) (state : List (Request κ)) :
    Ensures (captureBatch device w (only failing) rows bound) state (fun _ after => after = state)
      (fun _ after => after = state ∧ NoCommit failing) := by
  unfold captureBatch
  split
  · exact rfl
  · refine (reach_batch _ _ (any_noCommit fun index hfails => ?_)).bind ?_
    · obtain hlayer | hattention := Bool.or_eq_true_iff.mp hfails
      · exact noCommit hlayer nofun
      · exact noCommit hattention nofun
    · rintro _ _ rfl
      refine (reach_call .head _ _ nofun).bind ?_
      rintro _ _ rfl
      exact reach_call .capture _ _ nofun

theorem executeBatch_ensures :
    Ensures (executeBatch device w (only failing)) (requests.map opened)
      (fun _ after => after = requests.map (executed device) ∧ InRange requests)
      (fun _ after => Pending requests after ∧ (¬ InRange requests ∨ NoCommit failing)) := by
  have hopen : ∀ after, after = requests.map opened ∧ NoCommit failing →
      Pending requests after ∧ (¬ InRange requests ∨ NoCommit failing) := by
    rintro _ ⟨rfl, hcause⟩
    exact ⟨pending_opened, .inr hcause⟩
  have hdone : ∀ after, after = requests.map (executed device) ∧ NoCommit failing →
      Pending requests after ∧ (¬ InRange requests ∨ NoCommit failing) := by
    rintro _ ⟨rfl, hcause⟩
    exact ⟨pending_executed, .inr hcause⟩
  have hrange : InRange (requests.map opened) ↔ InRange requests := by
    unfold InRange
    rw [forall_mem_map]
    rfl
  refine ((reach_call .begin _ _ nofun).mono (fun _ _ h => h) fun _ => hopen).bind ?_
  rintro _ _ rfl
  apply get_bind
  refine (setRows_ensures 0 _ _).bind_mono ?_ ?_
  · rintro _ _ ⟨rfl, hcause⟩
    rw [hrange] at hcause
    exact ⟨pending_opened, hcause⟩
  rintro _ _ ⟨rfl, hpositions⟩
  rw [hrange] at hpositions
  refine ((reach_call .inputs _ _ nofun).mono (fun _ _ h => h) fun _ => hopen).bind ?_
  rintro _ _ rfl
  refine ((captureBatch_ensures _ _ _).mono (fun _ _ h => h) fun _ => hopen).bind ?_
  rintro _ _ rfl
  refine ((reach_call .launch _ _ nofun).mono (fun _ _ h => h) fun _ => hopen).bind ?_
  rintro _ _ rfl
  apply modify_bind
  have hexecuted : (requests.map opened).map (fun r => r.map fun s => s.pass device [r.token]) =
      requests.map (executed device) := map_map
  rw [hexecuted]
  refine ((reach_batch _ _ (any_noCommit ?_)).mono (fun _ _ h => h) fun _ => hdone).bind ?_
  · exact fun row hfails => noCommit hfails nofun
  · rintro _ _ rfl
    exact (reach_call .synchronize _ _ nofun).mono (fun _ _ h => ⟨h, hpositions⟩) fun _ => hdone

theorem commitRequest_executed {fails : Call → Bool} {row : Nat}
    (hclear : fails (.commitAppend row) = false) (hrange : r.sequence.position < u32Max) :
    commitRequest fails row (executed device r) = (committed device r, .ok ()) := by
  unfold commitRequest
  rw [hclear]
  obtain ⟨e, -, hover⟩ | hrecord := recordPositions_cases ((executed device r).sequence.commit 1)
  · have hposition : ((executed device r).sequence.commit 1).position =
        r.sequence.position + 1 := rfl
    omega
  · rw [hrecord]
    rfl

theorem commitRequests_cases (device : Device κ) (failing : Option Call)
    (hrange : InRange requests) (row : Nat) :
    (commitRequests (only failing) row (requests.map (executed device)) =
        (requests.map (committed device), .ok ()) ∧
      ∀ i < requests.length, failing ≠ some (.commitAppend (row + i))) ∨
    ∃ i < requests.length, failing = some (.commitAppend (row + i)) ∧
      ∃ e, commitRequests (only failing) row (requests.map (executed device)) =
        ((requests.take i).map (committed device) ++
          ((requests.drop i).map (executed device)).map Request.abort, .error e) := by
  induction requests generalizing row with
  | nil => exact .inl ⟨rfl, nofun⟩
  | cons r requests ih =>
    rw [map_cons, commitRequests]
    cases hfails : only failing (.commitAppend row) with
    | true =>
      have hcommit : commitRequest (only failing) row (executed device r) =
          ((executed device r).abort, .error (cacheError "commit_append")) := by
        rw [commitRequest, if_pos hfails]
      refine .inr ⟨0, Nat.succ_pos _, only_eq_true.mp hfails, cacheError "commit_append", ?_⟩
      rw [hcommit]
      rfl
    | false =>
      have hhead := hrange r mem_cons_self
      simp only [commitRequest_executed hfails hhead]
      obtain ⟨hrest, hclear⟩ | ⟨i, hi, hcall, e, hrest⟩ :=
        ih (fun r' hr' => hrange r' (mem_cons_of_mem _ hr')) (row + 1)
      · refine .inl ⟨by rw [hrest]; rfl, fun i hi => ?_⟩
        cases i with
        | zero => exact only_eq_false.mp hfails
        | succ i =>
          rw [show row + (i + 1) = row + 1 + i by omega]
          exact hclear i (Nat.lt_of_succ_lt_succ hi)
      · refine .inr ⟨i + 1, Nat.succ_lt_succ hi, ?_, e, by rw [hrest]; rfl⟩
        rw [hcall]
        congr 2
        omega

theorem checkBatch_valid (h : checkBatch device w requests = .ok ()) :
    ∀ r ∈ requests, r.sequence.valid = true := by
  have hall := (check_bind_eq_ok_iff.mp h).2
  intro r hr
  have hguard := (check_bind_eq_ok_iff.mp (checkEach_ok hall r hr)).1
  have hnot := rejectIf_ok hguard
  simp only [not_or] at hnot
  exact Bool.eq_true_of_not_eq_false hnot.2.1

/-- The commit of a row behind the first one fails, in a batch that reaches its commits. -/
def Late (device : Device κ) (w : Workspace) (requests : List (Request κ))
    (failing : Option Call) : Prop :=
  checkBatch device w requests = .ok () ∧ InRange requests ∧
    ∃ row, 1 ≤ row ∧ row < requests.length ∧ failing = some (.commitAppend row)

theorem Idle.reserve_abort (h : Idle r.sequence) : r.reserve.abort = r := by
  obtain ⟨⟨modelId, caches, graph, cacheId, cacheIdentity, position, capacity, valid, logitsReady,
    rows, pending⟩, token⟩ := r
  obtain rfl : pending = none := h.pending
  rfl

theorem reserveRequests_ensures (hidle : ∀ r ∈ requests, Idle r.sequence) :
    Ensures (reserveRequests (only failing)) requests
      (fun _ after => after = requests.map Request.reserve)
      (fun _ after => after = requests ∧ ∃ row, failing = some (.reserveAppend row)) := by
  have hsweep := Ensures.sweep_failAt Request.abort id
    (fun row => only failing (.reserveAppend row)) (cacheError "reserve_append") id
    Request.reserve requests (· = ·) (fun r hr => (hidle r hr).reserve_abort.symm)
    (fun _ _ => rfl) fun _ _ => rfl
  refine hsweep.mono (fun _ _ h => h.1) ?_
  rintro _ after ⟨hback, -, row, -, hfails⟩
  rw [forall₂_eq_eq_eq] at hback
  exact ⟨hback.symm, row, only_eq_true.mp hfails⟩

/-- A row that was committed is neither as it was nor marked invalid. -/
theorem committed_not_safe (device : Device κ) (r : Request κ) :
    ¬ Safe r.sequence (committed device r).sequence := by
  rintro ⟨-, hkept | hinvalid⟩
  · have hposition : r.sequence.position + 1 = r.sequence.position :=
      congrArg Sequence.position hkept
    omega
  · cases hinvalid

theorem committed_at (hat : At r.sequence r.sequence.position) :
    At (committed device r).sequence (r.sequence.position + 1) :=
  (executed_executed device r).finish hat.rows

theorem commitRequests_ensures (hidle : ∀ r ∈ requests, Idle r.sequence)
    (haccepts : checkBatch device w requests = .ok ()) (hrange : InRange requests) :
    Ensures (do
        set (commitRequests (only failing) 0 (requests.map (executed device))).1
        check (commitRequests (only failing) 0 (requests.map (executed device))).2)
      (requests.map (executed device))
      (fun _ after => List.Forall₂
        (fun r r' : Request κ => At r'.sequence (r.sequence.position + 1)) requests after ∧
        ¬ Late device w requests failing)
      (fun _ after => (AllSafe requests after ∧ ¬ Late device w requests failing) ∨
        (¬ AllSafe requests after ∧ Late device w requests failing)) := by
  apply set_bind
  obtain ⟨hrun, hclear⟩ | ⟨row, hrow, hcall, e, hrun⟩ :=
    commitRequests_cases device failing hrange 0
  · rw [hrun]
    refine ⟨forall₂_map_right_iff.mpr (forall₂_same.mpr fun r hr => ?_), ?_⟩
    · exact committed_at ((hidle r hr).at_position (checkBatch_valid haccepts r hr))
    · rintro ⟨-, -, row, -, hrow, hcall⟩
      have hnot := hclear row hrow
      rw [Nat.zero_add] at hnot
      exact hnot hcall
  · rw [hrun]
    rw [Nat.zero_add] at hcall
    cases row with
    | zero =>
      refine .inl ⟨pending_executed.abort, ?_⟩
      rintro ⟨-, -, row, hone, -, hother⟩
      rw [hcall] at hother
      cases hother
      omega
    | succ row =>
      refine .inr ⟨?_, haccepts, hrange, row + 1, Nat.succ_pos _, hrow, hcall⟩
      cases requests with
      | nil => exact absurd hrow (Nat.not_lt_zero _)
      | cons r requests =>
        intro hall
        cases hall with
        | cons hhead _ => exact committed_not_safe device r hhead

theorem forwardDecodeBatch_ensures (device : Device κ) (w : Workspace) (failing : Option Call)
    (hidle : ∀ r ∈ requests, Idle r.sequence) :
    Ensures (forwardDecodeBatch device w (only failing)) requests
      (fun _ after => List.Forall₂
        (fun r r' : Request κ => At r'.sequence (r.sequence.position + 1)) requests after ∧
        ¬ Late device w requests failing)
      (fun _ after => (AllSafe requests after ∧ ¬ Late device w requests failing) ∨
        (¬ AllSafe requests after ∧ Late device w requests failing)) := by
  have hsafe : AllSafe requests requests :=
    forall₂_same.mpr fun r hr => ⟨(hidle r hr).pending, .inl rfl⟩
  apply get_bind
  apply Ensures.check_bind
  · intro e hrejects
    exact .inl ⟨hsafe, fun hlate => nomatch hrejects.symm.trans hlate.1⟩
  · intro haccepts
    refine (reserveRequests_ensures hidle).bind_mono ?_ ?_
    · rintro _ _ ⟨rfl, row, rfl⟩
      exact .inl ⟨hsafe, by simp [Late]⟩
    · rintro _ _ rfl
      apply modify_bind
      have hopened : (requests.map Request.reserve).map (fun r => r.map Sequence.open') =
          requests.map opened := map_map
      rw [hopened]
      refine (executeBatch_ensures.orUndo ?_).bind ?_
      · rintro _ after ⟨hpending, hcause⟩
        refine .inl ⟨hpending.abort, ?_⟩
        rintro ⟨-, hrange, row, -, -, hcall⟩
        obtain hout | hother := hcause
        · exact hout hrange
        · exact hother row hcall
      · rintro _ _ ⟨rfl, hrange⟩
        apply get_bind
        exact commitRequests_ensures hidle haccepts hrange

theorem forwardDecodeBatch_keeps_iff (hidle : ∀ r ∈ requests, Idle r.sequence) :
    BatchKeeps (forwardDecodeBatch device w (only failing)) requests ↔
      ¬ Late device w requests failing := by
  have hcall := forwardDecodeBatch_ensures device w failing hidle
  unfold Ensures at hcall
  unfold BatchKeeps Ensures
  generalize forwardDecodeBatch device w (only failing) requests = outcome at hcall ⊢
  cases outcome with
  | ok u after => exact ⟨fun _ => hcall.2, fun _ => hcall.1⟩
  | error e after =>
    obtain ⟨hsafe, hright⟩ | ⟨hbroken, hlate⟩ := hcall
    · exact ⟨fun _ => hright, fun _ => hsafe⟩
    · exact ⟨fun hkeeps => absurd hkeeps hbroken, fun hnot => absurd hlate hnot⟩

/-- An invalid sequence stays as it is: every call on it is rejected. -/
theorem forwardImpl_invalid (hinvalid : s.valid = false) (fails : Call → Bool)
    (tokens : List Nat) (graphs : Bool) :
    Ensures (forwardImpl device w fails tokens graphs) s (fun _ _ => False)
      fun _ after => after = s := by
  apply get_bind
  apply Ensures.check_bind
  · exact fun _ _ => rfl
  · intro haccepts
    rw [checkForward_valid haccepts] at hinvalid
    cases hinvalid

theorem forwardDecodeBatch_invalid (hinvalid : ∃ r ∈ requests, r.sequence.valid = false)
    (fails : Call → Bool) :
    Ensures (forwardDecodeBatch device w fails) requests (fun _ _ => False)
      fun _ after => after = requests := by
  obtain ⟨r, hr, hinvalid⟩ := hinvalid
  apply get_bind
  apply Ensures.check_bind
  · exact fun _ _ => rfl
  · intro haccepts
    rw [checkBatch_valid haccepts r hr] at hinvalid
    cases hinvalid

end Eider.Guarantees.FlintAppend
