import Eider.Source.Sequence

/-!
The four model calls that append to sequences (`qwen3/qwen36/batch.rs`):
`prefill_batch` (lines 3219 to 3352), `execute_decode_batch` (4261 to 4403),
`verify_external_speculative` (4898 to 5123) and `speculative_cycle_argmax`
(5134 to 5380).

Each opens an append on two resources per row, the reservation in the sequence
cache and the rollback copy of the recurrent state, runs a forward pass, and
then commits both or takes both back. `failing` is the call that fails, if one
does. The calls that only undo (`abort_append` on either resource) do not fail.
-/
namespace Eider.Source

/-- The calls of a batch operation that may fail. Rows are numbered from 0;
`beginAppend` also names the copy that fails. -/
inductive Call where
  | draft
  | reserveAppend (row : Nat)
  | beginAppend (row copy : Nat)
  | forward
  | verification
  | restoreSnapshot
  | commitAppend (row : Nat)
  | copyFrontier
  | catchup
deriving DecidableEq, Repr

def cacheError (call : String) : CudaError := .format "Qwen3.6 sequence cache" call

/-- One row of a batch: a sequence and the tokens to append to it. -/
structure BatchRow (n : Nat) (β : Type) where
  sequence : Sequence n β
  tokens : List Nat

namespace BatchRow
variable {n : Nat} {β : Type} (row : BatchRow n β)

def mapState (f : SequenceState n β → SequenceState n β) : BatchRow n β :=
  { row with sequence := { row.sequence with state := f row.sequence.state } }

/-- `row.sequence.state.abort_append(..)`. -/
def abort : BatchRow n β := row.mapState fun s => s.abortAppend.1

/-- `row.sequence.state.commit_append(tokens)`. -/
def commit : BatchRow n β :=
  row.mapState fun s => s.commitAppend row.tokens.length

end BatchRow

/-- What the checks of a forward pass read of a row. -/
structure RowLimits where
  tokens : List Nat
  modelId : Nat
  position : Nat
  maxTokens : Nat

def BatchRow.limits {n : Nat} {β : Type} (row : BatchRow n β) : RowLimits where
  tokens := row.tokens
  modelId := row.sequence.state.modelId
  position := row.sequence.state.position
  maxTokens := row.sequence.state.maxTokens

structure PrefillWorkspace where
  modelId : Nat
  sequenceCapacity : Nat
  tokenCapacity : Nat
  maxContextTokens : Nat

structure DecodeWorkspace where
  modelId : Nat
  capacity : Nat
  maxContextTokens : Nat

/-- `if condition { return Err(error) }`. -/
def rejectIf (condition : Prop) [Decidable condition] (error : CudaError) : Except CudaError Unit :=
  if condition then .error error else .ok ()

/-- A loop of checks that ends at the first error. -/
def checkEach {α : Type} (check : α → Except CudaError Unit) : List α → Except CudaError Unit
  | [] => .ok ()
  | x :: xs => do
    check x
    checkEach check xs

theorem rejectIf_ok {condition : Prop} [Decidable condition] {error : CudaError}
    (h : rejectIf condition error = .ok ()) : ¬ condition := by
  unfold rejectIf at h
  split at h
  · cases h
  · assumption

theorem checkEach_ok {α : Type} {check : α → Except CudaError Unit} {xs : List α}
    (h : checkEach check xs = .ok ()) : ∀ x ∈ xs, check x = .ok () := by
  induction xs with
  | nil => simp
  | cons x xs ih =>
    obtain ⟨_, hx, hxs⟩ := bind_ok h
    exact List.forall_mem_cons.mpr ⟨hx, ih hxs⟩

theorem rejectIf_eq_ok_iff {condition : Prop} [Decidable condition] {error : CudaError} :
    rejectIf condition error = .ok () ↔ ¬ condition := by
  refine ⟨rejectIf_ok, fun h => ?_⟩
  rw [rejectIf, if_neg h]

theorem checkEach_eq_ok_iff {α : Type} {check : α → Except CudaError Unit} {xs : List α} :
    checkEach check xs = .ok () ↔ ∀ x ∈ xs, check x = .ok () := by
  refine ⟨checkEach_ok, fun h => ?_⟩
  induction xs with
  | nil => rfl
  | cons x xs ih =>
    rw [checkEach, h x List.mem_cons_self]
    exact ih fun y hy => h y (List.mem_cons_of_mem _ hy)

/-- K/V rows that are the tokens themselves. -/
def tokenRows (_ tokens : List Nat) : List Nat := tokens

theorem length_tokenRows (rows tokens : List Nat) :
    (tokenRows rows tokens).length = tokens.length := rfl

/-- What a mapping that succeeds has found for each element. -/
theorem mapM_ok {ε α γ : Type} {f : α → Except ε γ} {xs : List α} {ys : List γ}
    (h : xs.mapM f = .ok ys) : List.Forall₂ (fun x y => f x = .ok y) xs ys := by
  induction xs generalizing ys with
  | nil =>
    rw [List.mapM_nil] at h
    cases h
    exact .nil
  | cons x xs ih =>
    rw [List.mapM_cons] at h
    obtain ⟨y, hy, h⟩ := bind_ok h
    obtain ⟨rest, hrest, h⟩ := bind_ok h
    cases h
    exact .cons hy (ih hrest)

theorem mapM_eq_ok {ε α γ : Type} {f : α → Except ε γ} {g : α → γ} {xs : List α}
    (h : ∀ x ∈ xs, f x = .ok (g x)) : xs.mapM f = .ok (xs.map g) := by
  induction xs with
  | nil => rfl
  | cons x xs ih =>
    rw [List.mapM_cons, h x List.mem_cons_self, ih fun y hy => h y (List.mem_cons_of_mem _ hy)]
    rfl

theorem check_bind_eq_ok_iff {x y : Except CudaError Unit} :
    (x >>= fun _ => y) = .ok () ↔ x = .ok () ∧ y = .ok () := by
  cases x with
  | error e => exact ⟨nofun, nofun⟩
  | ok u => exact ⟨fun h => ⟨rfl, h⟩, fun h => h.2⟩

section
variable {n : Nat} {β κ φ C R : Type}
variable (cache : SequenceCache C R κ) (device : Device n β κ φ) (modelId : Nat)
variable (failing : Option Call)

/-- `cache.abort_append` on each reservation in turn. -/
def abortReservations (c : C) (reservations : List R) : C :=
  reservations.foldl cache.abortAppend c

/-- The `reserve_append` loop; `reserved` holds the rows before this one. -/
def reserveRows : Nat → List (BatchRow n β) → List R → C → C × Except CudaError (List R)
  | _, [], reserved, c => (c, .ok reserved)
  | index, row :: rows, reserved, c =>
    if failing = some (.reserveAppend index) then
      (abortReservations cache c reserved, .error (cacheError "reserve_append"))
    else
      let reservation := cache.reserveAppend c row.sequence.cacheId row.tokens.length
      reserveRows (index + 1) rows (reserved ++ [reservation.1]) reservation.2

/-- The copy of `begin_append` that fails on row `index`. -/
def failingCopy (index : Nat) : Option Nat :=
  match failing with
  | some (.beginAppend row copy) => if row = index then some copy else none
  | _ => none

/-- The `begin_append` loop; `begun` holds the rows before this one, whose state
appends a failure takes back. -/
def beginRows : Nat → List (BatchRow n β) → List (BatchRow n β) →
    List (BatchRow n β) × Except CudaError Unit
  | _, begun, [] => (begun, .ok ())
  | index, begun, row :: rows =>
    let (state, result) := row.sequence.state.beginAppend (failingCopy failing index)
    let row := row.mapState fun _ => state
    match result with
    | .error e => (begun.map BatchRow.abort ++ row :: rows, .error e)
    | .ok () => beginRows (index + 1) (begun ++ [row]) rows

def unknownToken (tokens : List Nat) : Option Nat :=
  tokens.find? fun token => device.vocab ≤ token

variable (workspace : PrefillWorkspace)

/-- One row of the checks of `prefill_batch_impl`. -/
def checkPrefillRow (onHost : Bool) (row : RowLimits) :
    Except CudaError Unit := do
  let count := row.tokens.length
  let last := row.position + count
  rejectIf (count = 0) (.shape "Qwen3.6 prefill row" "at least one token" "0 tokens")
  rejectIf (row.modelId ≠ modelId) (.format "Qwen3.6 prefill sequence state"
    "state was created by a different model instance")
  rejectIf (onHost = true ∧ unknownToken device row.tokens ≠ none)
    (.shape "Qwen3.6 prefill token id" s!"token < {device.vocab}"
      (toString ((unknownToken device row.tokens).getD 0)))
  rejectIf (2 ^ 64 ≤ last) (.shape "Qwen3.6 prefill sequence capacity"
    "position + tokens without overflow" s!"position={row.position} tokens={count}")
  rejectIf (row.maxTokens < last ∨ workspace.maxContextTokens < row.maxTokens)
    (.shape "Qwen3.6 prefill sequence capacity"
      s!"end <= sequence max_tokens <= {workspace.maxContextTokens}"
      s!"end={last} max_tokens={row.maxTokens}")

/-- The check of `enqueue_prefill_cache` on the reservation of a row, which
starts at `start`. Its row count is the one it was reserved with. -/
def checkPrefillAppend (row : RowLimits) (start : Nat) : Except CudaError Unit :=
  let count := row.tokens.length
  rejectIf (start ≠ row.position) (.format "Qwen3.6 prefill append"
    (s!"reservation at {start} for {count} rows " ++
      s!"does not cover position {row.position} and {count} rows"))

/-- The checks of `prefill_batch_impl`, before and inside its layers; `starts`
holds the start positions of the reservations. -/
def checkPrefill (onHost : Bool) (rows : List RowLimits)
    (starts : List Nat) : Except CudaError Unit := do
  let count := rows.length
  let total := (rows.map fun row => row.tokens.length).sum
  rejectIf (workspace.modelId ≠ modelId) (.format "Qwen3.6 prefill batch workspace"
    "workspace was created by a different model instance")
  rejectIf (count = 0 ∨ workspace.sequenceCapacity < count)
    (.shape "Qwen3.6 prefill batch rows" s!"1..={workspace.sequenceCapacity}" s!"{count}")
  rejectIf (starts.length ≠ count) (.shape "Qwen3.6 prefill append rows"
    s!"{count} append descriptors" s!"{starts.length}")
  rejectIf (2 ^ 64 ≤ total) (.shape "Qwen3.6 prefill token count"
    "total token count without overflow" s!"{total}")
  rejectIf (total = 0 ∨ workspace.tokenCapacity < total)
    (.shape "Qwen3.6 prefill token count" s!"1..={workspace.tokenCapacity}" s!"{total}")
  checkEach (checkPrefillRow device modelId workspace onHost) rows
  checkEach (fun pair => checkPrefillAppend pair.1 pair.2) (rows.zip starts)

/-- One row of the checks of `decode_batch_impl`. -/
def checkDecodeRow (workspace : DecodeWorkspace) (row : RowLimits) : Except CudaError Unit := do
  rejectIf (row.modelId ≠ modelId) (.format "Qwen3.6 sequence state"
    "state was created by a different model instance")
  rejectIf (unknownToken device row.tokens ≠ none)
    (.shape "Qwen3.6 batch token id" s!"token < {device.vocab}"
      (toString ((unknownToken device row.tokens).getD 0)))
  rejectIf (row.maxTokens ≤ row.position ∨ workspace.maxContextTokens < row.maxTokens)
    (.shape "Qwen3.6 batch sequence capacity"
      s!"position < sequence max_tokens <= {workspace.maxContextTokens}"
      s!"position={row.position} max_tokens={row.maxTokens}")

/-- The check of `enqueue_batch_cache` on the reservation of a row. -/
def checkDecodeAppend (row : RowLimits) (start : Nat) : Except CudaError Unit :=
  rejectIf (start ≠ row.position) (.format "Qwen3.6 decode append"
    "reservation does not cover exactly one decode row")

/-- The checks of `decode_batch_impl`, before and inside its layers. -/
def checkDecode (workspace : DecodeWorkspace) (rows : List RowLimits) (starts : List Nat) :
    Except CudaError Unit := do
  let count := rows.length
  rejectIf (workspace.modelId ≠ modelId) (.format "Qwen3.6 decode batch workspace"
    "workspace was created by a different model instance")
  rejectIf (count = 0 ∨ workspace.capacity < count)
    (.shape "Qwen3.6 decode batch rows" s!"1..={workspace.capacity}" s!"{count}")
  rejectIf (starts.length ≠ count) (.shape "Qwen3.6 decode append rows"
    s!"{count} append descriptors" s!"{starts.length}")
  checkEach (checkDecodeRow device modelId workspace) rows
  checkEach (fun pair => checkDecodeAppend pair.1 pair.2) (rows.zip starts)

/-- The contents a row's kernels read. -/
def contentsOf (row : BatchRow n β) (c : C) : Device.Contents n β κ :=
  (row.sequence.state.linearStates, (cache.entry c row.sequence.cacheId).rows)

/-- What the kernels write for one row: the recurrent states, and its K/V rows
into the reserved pages. -/
def forwardRow (row : BatchRow n β) (reservation : R) (c : C) : BatchRow n β × C :=
  let contents := device.feed (contentsOf cache row c) row.tokens
  (row.mapState fun s => s.withLinear contents.1,
    cache.writeAppend c reservation (contents.2.drop (contentsOf cache row c).2.length))

def forwardRows : List (BatchRow n β × R) → C → List (BatchRow n β) × C
  | [], c => ([], c)
  | (row, reservation) :: rest, c =>
    let written := forwardRow cache device row reservation c
    let others := forwardRows rest written.2
    (written.1 :: others.1, others.2)

variable (check : List RowLimits → List Nat → Except CudaError Unit) (rows : List (BatchRow n β))
variable {γ : Type}

/-- `prefill_batch_impl` and `decode_batch_impl` behind their `check`. -/
def forward (reservations : List R) (c : C) : (List (BatchRow n β) × C) × Except CudaError Unit :=
  match check (rows.map BatchRow.limits) (reservations.map cache.startPosition) with
  | .error e => ((rows, c), .error e)
  | .ok () =>
    if failing = some .forward then
      ((rows.map fun row => row.mapState fun s =>
          s.withLinear (device.interrupted s.linearStates row.tokens), c),
        .error (.device "forward"))
    else (forwardRows cache device (rows.zip reservations) c, .ok ())

/-- `rollback_error`: the first error of the state rollbacks. -/
def rollbackError : Option CudaError :=
  rows.findSome? fun row => match row.sequence.state.abortAppend.2 with
    | .error e => some e
    | .ok () => none

/-- The commit loop; `done` holds the rows that are already committed. -/
def commitRows : Nat → List (BatchRow n β) → List (BatchRow n β × R) → C →
    (List (BatchRow n β) × C) × Except CudaError Unit
  | _, done, [], c => ((done, c), .ok ())
  | index, done, (row, reservation) :: rest, c =>
    if failing = some (.commitAppend index) then
      let rows := row :: rest.map Prod.fst
      ((done ++ rows.map BatchRow.abort,
          abortReservations cache c (reservation :: rest.map Prod.snd)),
        .error ((rollbackError rows).getD (cacheError "commit_append")))
    else
      commitRows (index + 1) (done ++ [row.commit]) rest
        (cache.commitAppend c reservation row.tokens.length)

attribute [grind =] reserveRows beginRows forwardRows commitRows

/-- The body that `prefill_batch` and `execute_decode_batch` share. -/
def appendBatch (c : C) : (List (BatchRow n β) × C) × Except CudaError Unit :=
  match reserveRows cache failing 0 rows [] c with
  | (c, .error e) => ((rows, c), .error e)
  | (c, .ok reservations) =>
    match beginRows failing 0 [] rows with
    | (rows, .error e) => ((rows, abortReservations cache c reservations), .error e)
    | (rows, .ok ()) =>
      match forward cache device failing check rows reservations c with
      | ((rows, c), .error e) =>
        ((rows.map BatchRow.abort, abortReservations cache c reservations),
          .error ((rollbackError rows).getD e))
      | ((rows, c), .ok ()) => commitRows cache failing 0 [] (rows.zip reservations) c

def prefillBatch (c : C) : (List (BatchRow n β) × C) × Except CudaError Unit :=
  appendBatch cache device failing (checkPrefill device modelId workspace true) rows c

/-- `Qwen36DecodeRow`: one token for a sequence. -/
structure DecodeRow (n : Nat) (β : Type) where
  tokenId : Nat
  sequence : Sequence n β

def DecodeRow.toBatchRow (row : DecodeRow n β) : BatchRow n β := ⟨row.sequence, [row.tokenId]⟩

def executeDecodeBatch (workspace : DecodeWorkspace) (rows : List (DecodeRow n β)) (c : C) :
    (List (BatchRow n β) × C) × Except CudaError Unit :=
  appendBatch cache device failing (checkDecode device modelId workspace)
    (rows.map DecodeRow.toBatchRow) c

/-- `Qwen36SpeculativeFrontier`; its hidden row only steers the drafts. -/
structure SpeculativeFrontier (φ : Type) where
  token : Nat
  logit : φ
deriving DecidableEq, Repr

structure SpeculativeVerification (φ : Type) where
  argmax : List Nat
  accepted : Nat
  nextLogits : List φ
  committedLogits : List φ

structure SpeculativeCycleOutcome (φ : Type) where
  committed : List Nat
  committedLogits : List φ
  acceptedDrafts : Nat
  speculationReady : Bool

/-- The limits of a `Qwen36SpeculativeCycleWorkspace`. -/
structure SpeculativeWorkspace where
  drafts : Nat
  verify : PrefillWorkspace
  mtp : Bool

/-- `Qwen36LogitSelector`: a closure over a state `γ`. -/
structure LogitSelector (γ φ : Type) where
  state : γ
  select : γ → List φ → Except CudaError (Option (NextToken φ) × γ)

/-- Selection over the logit rows; it ends at the first row without a token. -/
def selectRows (select : γ → List φ → Except CudaError (Option (NextToken φ) × γ)) :
    γ → List (List φ) → Except CudaError (List (NextToken φ))
  | _, [] => .ok []
  | state, logits :: rest => do
    match ← select state logits with
    | (none, _) => return []
    | (some token, state) => return token :: (← selectRows select state rest)

/-- How many drafts the targets confirm. -/
def acceptedDrafts : List Nat → List Nat → Nat
  | draft :: drafts, target :: targets =>
    if draft = target then acceptedDrafts drafts targets + 1 else 0
  | _, _ => 0

theorem acceptedDrafts_le (drafts targets : List Nat) :
    acceptedDrafts drafts targets ≤ drafts.length := by
  fun_induction acceptedDrafts drafts targets with
  | case1 drafts target targets ih => simpa using ih
  | case2 => omega
  | case3 => omega

def alignSpeculativeCommittedLogits (frontierLogit : φ) (nextLogits : List φ) (accepted : Nat) :
    List φ := frontierLogit :: nextLogits.take accepted

/-- The target of each row: what the selector picks, or the argmax. -/
def verificationTargets (selector : Option (LogitSelector γ φ))
    (logits : List (List φ)) : Except CudaError (List (NextToken φ)) :=
  match selector with
  | some selector => selectRows selector.select selector.state logits
  | none => .ok (logits.map device.top1)

/-- The verification closure: targets for every row, and the drafts they
confirm. -/
def verification (selector : Option (LogitSelector γ φ))
    (frontier : SpeculativeFrontier φ) (drafted : List Nat) (logits : List (List φ)) :
    Except CudaError (SpeculativeVerification φ) :=
  if failing = some .verification then .error (.device "verification")
  else do
    let targets ← verificationTargets device selector logits
    let argmax := targets.map NextToken.id
    let nextLogits := targets.map NextToken.value
    let accepted := acceptedDrafts drafted argmax
    return {
      argmax := argmax
      accepted := accepted
      nextLogits := nextLogits
      committedLogits := alignSpeculativeCommittedLogits frontier.logit nextLogits accepted
    }

/-- The part of a speculative append behind its forward pass: verify, restore,
commit. `contents` is what the pass started from. A `commit_append` that fails
takes back the recurrent state only. -/
def commitSpeculative (selector : Option (LogitSelector γ φ)) (drafted : List Nat)
    (frontier : SpeculativeFrontier φ) (contents : Device.Contents n β κ) (row : BatchRow n β)
    (reservation : R) (c : C) : (Sequence n β × C) × Except CudaError (SpeculativeVerification φ) :=
  match verification device failing selector frontier drafted
      ((device.trace contents row.tokens).map device.logitsOf) with
  | .error e => ((row.abort.sequence, cache.abortAppend c reservation), .error e)
  | .ok verification =>
    let committedRows := verification.accepted + 1
    if verification.accepted < drafted.length ∧ failing = some .restoreSnapshot then
      ((row.abort.sequence, cache.abortAppend c reservation),
        .error (.device "restore_state_snapshot"))
    else
      -- The snapshot that the pass captured behind the last committed row.
      let row := if verification.accepted < drafted.length then
          row.mapState fun s =>
            s.withLinear (device.feed contents (row.tokens.take committedRows)).1
        else row
      if failing = some (.commitAppend 0) then
        ((row.abort.sequence, c), .error (cacheError "commit_append"))
      else
        (((row.mapState fun s => s.commitAppend committedRows).sequence,
            cache.commitAppend c reservation committedRows),
          .ok verification)

variable (workspace : SpeculativeWorkspace) (onHost : Bool) {γ : Type}

/-- The part of a speculative append behind its reservation: begin, forward, and
then `commitSpeculative`. -/
def runSpeculative (selector : Option (LogitSelector γ φ)) (drafted : List Nat)
    (frontier : SpeculativeFrontier φ) (sequence : Sequence n β) (reservation : R) (c : C) :
    (Sequence n β × C) × Except CudaError (SpeculativeVerification φ) :=
  match sequence.state.beginAppend (failingCopy failing 0) with
  | (state, .error e) =>
    (({ sequence with state := state }, cache.abortAppend c reservation), .error e)
  | (state, .ok ()) =>
    let begun : BatchRow n β := ⟨{ sequence with state := state }, frontier.token :: drafted⟩
    match forward cache device failing
        (checkPrefill device modelId workspace.verify onHost) [begun] [reservation] c with
    | ((rows, after), .error e) =>
      (((rows.headD begun).abort.sequence, cache.abortAppend after reservation), .error e)
    | ((rows, after), .ok ()) =>
      commitSpeculative cache device failing selector drafted frontier (contentsOf cache begun c)
        (rows.headD begun) reservation after

/-- The append that both speculative functions run for the tokens
`[frontier, drafts..]`. -/
def speculativeAppend (selector : Option (LogitSelector γ φ)) (drafted : List Nat)
    (frontier : SpeculativeFrontier φ) (sequence : Sequence n β) (c : C) :
    (Sequence n β × C) × Except CudaError (SpeculativeVerification φ) :=
  if failing = some (.reserveAppend 0) then ((sequence, c), .error (cacheError "reserve_append"))
  else
    let reservation := cache.reserveAppend c sequence.cacheId (drafted.length + 1)
    runSpeculative cache device modelId failing workspace onHost selector drafted frontier sequence
      reservation.1 reservation.2

def verifyExternalSpeculative (selector : Option (LogitSelector γ φ)) (drafted : List Nat)
    (frontier : SpeculativeFrontier φ) (sequence : Sequence n β) (c : C) :
    (Sequence n β × C × SpeculativeFrontier φ) ×
      Except CudaError (SpeculativeCycleOutcome φ) :=
  if drafted.length = 0 ∨ workspace.drafts < drafted.length then
    ((sequence, c, frontier), .error (.shape "Qwen3.8 external speculative proposal"
      s!"1..={workspace.drafts} draft tokens" s!"{drafted.length} draft tokens"))
  else
    match speculativeAppend cache device modelId failing workspace onHost selector drafted frontier
        sequence c with
    | ((sequence, c), .error e) => ((sequence, c, frontier), .error e)
    | ((sequence, c), .ok verification) =>
      let outcome : SpeculativeCycleOutcome φ := {
        committed := (frontier.token :: drafted).take (verification.accepted + 1)
        committedLogits := verification.committedLogits
        acceptedDrafts := verification.accepted
        speculationReady := true
      }
      match verification.argmax[verification.accepted]?,
          verification.nextLogits[verification.accepted]? with
      | some token, some logit =>
        if failing = some .copyFrontier then
          ((sequence, c, ⟨token, logit⟩), .error (.device "copy_range_from_device_on_stream"))
        else ((sequence, c, ⟨token, logit⟩), .ok outcome)
      | _, _ => ((sequence, c, frontier), .ok outcome)

/-- `speculative_cycle_argmax`. `drafted` is the chain that
`mtp_draft_chain_argmax` returns for `activeDrafts` tokens. Catching up the
drafter behind the commit only decides whether speculation goes on. -/
def speculativeCycleArgmax (drafted : List Nat)
    (frontier : SpeculativeFrontier φ) (sequence : Sequence n β) (c : C) :
    (Sequence n β × C × SpeculativeFrontier φ) ×
      Except CudaError (SpeculativeCycleOutcome φ) :=
  if workspace.mtp = false then
    ((sequence, c, frontier), .error (.format "Qwen3.8 MTP speculative workspace"
      "MTP scratch was not allocated for this external-drafter workspace"))
  else if drafted.length = 0 ∨ workspace.drafts < drafted.length then
    ((sequence, c, frontier), .error (.shape "Qwen3.8 speculative active drafts"
      s!"between 1 and {workspace.drafts} drafts" s!"{drafted.length} drafts"))
  else if failing = some .draft then
    ((sequence, c, frontier), .error (.device "mtp_draft_chain_argmax"))
  else
    match speculativeAppend cache device modelId failing workspace true
        (none : Option (LogitSelector Unit φ)) drafted frontier sequence c with
    | ((sequence, c), .error e) => ((sequence, c, frontier), .error e)
    | ((sequence, c), .ok verification) =>
      let next : SpeculativeFrontier φ := {
        token := (verification.argmax[verification.accepted]?).getD frontier.token
        logit := (verification.nextLogits[verification.accepted]?).getD frontier.logit
      }
      ((sequence, c, next), .ok {
        committed := (frontier.token :: drafted).take (verification.accepted + 1)
        committedLogits := verification.committedLogits
        acceptedDrafts := verification.accepted
        speculationReady := decide (failing ≠ some .catchup)
      })

end

end Eider.Source
