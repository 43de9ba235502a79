import Mathlib.Logic.Function.Basic
import Mathlib.Data.Fintype.Basic
import Eider.Source.Text

/-!
One sequence of the Qwen3.6 model: the recurrent state with its append
transaction (`qwen36.rs`, lines 8405 to 8585) and the row it owns in the shared
sequence cache.

Device buffers are values of a type `β` and one K/V row of the paged cache is a
value of a type `κ`. The cache itself is the third-party `seqcache`, so it is a
parameter: `SequenceCache` names the calls the model makes and what it relies
on in them.
-/
namespace Eider.Source
open Function

/-- `Qwen36LinearAttentionState`. -/
@[ext] structure LinearAttentionState (β : Type) where
  convState : β
  recurrentState : β

/-- The recurrent state of the `n` linear-attention layers. -/
abbrev LinearStates (n : Nat) (β : Type) := Fin n → LinearAttentionState β

/-- `Qwen36SequenceState`. The active and the rollback states have the same
layers, so the mismatch that the source calls unreachable cannot be written. -/
structure SequenceState (n : Nat) (β : Type) where
  modelId : Nat
  linearStates : LinearStates n β
  rollbackLinearStates : LinearStates n β
  rollbackPosition : Nat
  appendPending : Bool
  position : Nat
  maxTokens : Nat

/-- `eider_cuda::Error`, with the calls of the device that the model does not
look into as `device`. -/
inductive CudaError where
  | shape (label expected actual : String)
  | format (label detail : String)
  | device (call : String)
deriving DecidableEq, Repr

/-- The destination of a copy loop over the layers that made `copies` of its two
copies per layer. -/
def copyLayers {n : Nat} {β : Type} (copies : Nat) (source destination : LinearStates n β) :
    LinearStates n β := fun layer =>
  { convState := if 2 * layer.val < copies then (source layer).convState
      else (destination layer).convState
    recurrentState := if 2 * layer.val + 1 < copies then (source layer).recurrentState
      else (destination layer).recurrentState }

theorem copyLayers_all {n copies : Nat} {β : Type} (source destination : LinearStates n β)
    (h : 2 * n ≤ copies) : copyLayers copies source destination = source := by
  funext layer
  have hlayer := layer.isLt
  have hconv : 2 * layer.val < copies := by omega
  have hrecurrent : 2 * layer.val + 1 < copies := by omega
  simp [copyLayers, hconv, hrecurrent]

namespace SequenceState
variable {n : Nat} {β : Type} (s : SequenceState n β)

/-- `begin_append`. `failing` is the copy that fails, if one does. -/
def beginAppend (failing : Option Nat) : SequenceState n β × Except CudaError Unit :=
  if s.appendPending then
    (s, .error (.format "Qwen3.6 recurrent transaction" "an append transaction is already pending"))
  else
    match failing with
    | some copies =>
      ({ s with rollbackLinearStates := copyLayers copies s.linearStates s.rollbackLinearStates },
        .error (.device "copy_prefix_from_device_on_stream"))
    | none =>
      ({ s with
          rollbackLinearStates := copyLayers (2 * n) s.linearStates s.rollbackLinearStates
          rollbackPosition := s.position
          appendPending := true }, .ok ())

def commitAppend (rows : Nat) : SequenceState n β :=
  { s with position := s.rollbackPosition + rows, appendPending := false }

/-- `abort_append`, with every copy made. -/
def abortAppend : SequenceState n β × Except CudaError Unit :=
  if s.appendPending then
    ({ s with
        linearStates := copyLayers (2 * n) s.rollbackLinearStates s.linearStates
        position := s.rollbackPosition
        appendPending := false }, .ok ())
  else
    (s, .error (.format "Qwen3.6 recurrent transaction" "no append transaction is pending"))

/-- What the forward pass writes through the state tables. -/
def withLinear (linear : LinearStates n β) : SequenceState n β :=
  { s with linearStates := linear }

/-- `position` and the layer buffers of `s` are those of `t`. -/
structure SameState (s t : SequenceState n β) : Prop where
  modelId : s.modelId = t.modelId
  linearStates : s.linearStates = t.linearStates
  position : s.position = t.position
  maxTokens : s.maxTokens = t.maxTokens
  appendPending : s.appendPending = t.appendPending

theorem SameState.refl : s.SameState s := ⟨rfl, rfl, rfl, rfl, rfl⟩

/-- An append of `before` that is still open in `s`: what `abort_append` puts
back is `before`. -/
structure Appending (before s : SequenceState n β) : Prop where
  modelId : s.modelId = before.modelId
  maxTokens : s.maxTokens = before.maxTokens
  rollbackLinearStates : s.rollbackLinearStates = before.linearStates
  rollbackPosition : s.rollbackPosition = before.position
  position : s.position = before.position
  appendPending : s.appendPending = true

theorem beginAppend_ok (h : s.appendPending = false) :
    (s.beginAppend none).2 = .ok () ∧ s.Appending (s.beginAppend none).1 := by
  unfold beginAppend
  simp only [h, Bool.false_eq_true, if_false, true_and]
  exact ⟨rfl, rfl, copyLayers_all _ _ le_rfl, rfl, rfl, rfl⟩

/-- A begin that fails leaves the active state as it was. -/
theorem beginAppend_error {s : SequenceState n β} {failing : Option Nat} {e : CudaError}
    (h : (s.beginAppend failing).2 = .error e) : (s.beginAppend failing).1.SameState s := by
  unfold beginAppend at h ⊢
  split
  · exact SameState.refl s
  · rename_i hpending
    cases failing with
    | none => simp [hpending] at h
    | some copies => exact ⟨rfl, rfl, rfl, rfl, rfl⟩

variable {before s : SequenceState n β}

theorem Appending.withLinear (h : before.Appending s)
    (linear : LinearStates n β) : before.Appending (s.withLinear linear) :=
  ⟨h.modelId, h.maxTokens, h.rollbackLinearStates, h.rollbackPosition, h.position, h.appendPending⟩

theorem Appending.abort (h : before.Appending s) (hidle : before.appendPending = false) :
    s.abortAppend.2 = .ok () ∧ s.abortAppend.1.SameState before := by
  unfold abortAppend
  simp only [h.appendPending, if_true, true_and]
  constructor
  · exact h.modelId
  · exact (copyLayers_all _ _ le_rfl).trans h.rollbackLinearStates
  · exact h.rollbackPosition
  · exact h.maxTokens
  · exact hidle.symm

theorem Appending.commit_position (h : before.Appending s)
    (rows : Nat) : (s.commitAppend rows).position = before.position + rows := by
  simp [commitAppend, h.rollbackPosition]

end SequenceState

/-- What one sequence owns in the cache: its committed K/V rows, and the rows
written under an append that is still open. -/
structure CacheEntry (κ : Type) where
  rows : List κ
  pending : Option (List κ)

namespace CacheEntry
variable {κ : Type} (e : CacheEntry κ)

def reserve : CacheEntry κ := { e with pending := some [] }

def write (written : List κ) : CacheEntry κ := { e with pending := some written }

def commit (rows : Nat) : CacheEntry κ :=
  { rows := e.rows ++ (e.pending.getD []).take rows, pending := none }

def abort : CacheEntry κ := { e with pending := none }

end CacheEntry

/-- The append calls of `seqcache` when they succeed. `C` is the cache and `R` an
append reservation. What a call does is stated through the entry that each
sequence owns in the cache. -/
structure SequenceCache (C R κ : Type) where
  entry : C → Nat → CacheEntry κ
  /-- The cache id a reservation is for. -/
  owner : R → Nat
  /-- `AppendReservation::start_position`. -/
  startPosition : R → Nat
  /-- `reserve_append`, for a cache id and a number of rows. -/
  reserveAppend : C → Nat → Nat → R × C
  /-- `with_append_pages`: the K/V rows that a forward pass writes. -/
  writeAppend : C → R → List κ → C
  commitAppend : C → R → Nat → C
  /-- `abort_append`. -/
  abortAppend : C → R → C
  owner_reserve : ∀ c id rows, owner (reserveAppend c id rows).1 = id
  start_reserve : ∀ c id rows,
    startPosition (reserveAppend c id rows).1 = (entry c id).rows.length
  entry_reserve : ∀ c id rows,
    entry (reserveAppend c id rows).2 = update (entry c) id (entry c id).reserve
  entry_write : ∀ c r written,
    entry (writeAppend c r written) = update (entry c) (owner r) ((entry c (owner r)).write written)
  entry_commit : ∀ c r rows,
    entry (commitAppend c r rows) = update (entry c) (owner r) ((entry c (owner r)).commit rows)
  entry_abort : ∀ c r,
    entry (abortAppend c r) = update (entry c) (owner r) (entry c (owner r)).abort

/-- `Qwen36Sequence`: the cache id and the recurrent state. -/
structure Sequence (n : Nat) (β : Type) where
  cacheId : Nat
  state : SequenceState n β

structure NextToken (φ : Type) where
  id : Nat
  value : φ
deriving DecidableEq, Repr

/-- What the kernels compute. `advance` is one row of a forward pass over the
recurrent states and the K/V rows before it, `logits` is the language head behind
that row and `top1` the argmax kernel over its logits. `interrupted` is what a
pass that fails leaves in the recurrent states. -/
structure Device (n : Nat) (β κ φ : Type) where
  vocab : Nat
  advance : LinearStates n β → List κ → Nat → LinearStates n β × κ
  logits : LinearStates n β → List κ → List φ
  top1 : List φ → NextToken φ
  interrupted : LinearStates n β → List Nat → LinearStates n β

namespace Device
variable {n : Nat} {β κ φ : Type}

/-- Recurrent states and K/V rows of a sequence. -/
abbrev Contents (n : Nat) (β κ : Type) := LinearStates n β × List κ

variable (d : Device n β κ φ) (c : Contents n β κ)

/-- One row of a forward pass. -/
def push (token : Nat) : Contents n β κ :=
  ((d.advance c.1 c.2 token).1, c.2 ++ [(d.advance c.1 c.2 token).2])

variable (tokens : List Nat)

/-- A forward pass over several rows. -/
def feed : Contents n β κ :=
  tokens.foldl d.push c

/-- The contents after each row of a pass. -/
def trace : Contents n β κ → List Nat → List (Contents n β κ)
  | _, [] => []
  | c, token :: tokens => d.push c token :: trace (d.push c token) tokens

def logitsOf : List φ := d.logits c.1 c.2

@[simp] theorem feed_nil : d.feed c [] = c := rfl

@[simp] theorem feed_cons (token : Nat)
    (tokens : List Nat) : d.feed c (token :: tokens) = d.feed (d.push c token) tokens := rfl

theorem feed_append (xs ys : List Nat) :
    d.feed c (xs ++ ys) = d.feed (d.feed c xs) ys := List.foldl_append

/-- A pass appends one K/V row for each token. -/
theorem length_feed : (d.feed c tokens).2.length = c.2.length + tokens.length := by
  induction tokens generalizing c with
  | nil => rfl
  | cons token tokens ih =>
    rw [feed_cons, ih, List.length_cons]
    simp only [push, List.length_append, List.length_cons, List.length_nil]
    omega

/-- The K/V rows before a pass stay in front of those it appends. -/
theorem take_feed : (d.feed c tokens).2.take c.2.length = c.2 := by
  induction tokens generalizing c with
  | nil => exact List.take_length
  | cons token tokens ih =>
    have hpush := congrArg (List.take c.2.length) (ih (d.push c token))
    rw [List.take_take] at hpush
    simpa [push] using hpush

/-- A pass that keeps its first `count` rows has the K/V rows of the shorter
pass. -/
theorem feed_take {count : Nat} (h : count ≤ tokens.length) :
    c.2 ++ ((d.feed c tokens).2.drop c.2.length).take count = (d.feed c (tokens.take count)).2 := by
  have hlength : (d.feed c (tokens.take count)).2.length = c.2.length + count := by
    rw [length_feed, List.length_take, Nat.min_eq_left h]
  have hlong : (d.feed c tokens).2.take (c.2.length + count) =
      (d.feed c (tokens.take count)).2 := by
    have hsplit := d.take_feed (d.feed c (tokens.take count)) (tokens.drop count)
    rwa [← feed_append, List.take_append_drop, hlength] at hsplit
  calc c.2 ++ ((d.feed c tokens).2.drop c.2.length).take count
      = (d.feed c tokens).2.take c.2.length ++ ((d.feed c tokens).2.drop c.2.length).take count := by
        rw [take_feed]
    _ = (d.feed c tokens).2.take (c.2.length + count) := (List.take_add ..).symm
    _ = (d.feed c (tokens.take count)).2 := hlong

end Device

end Eider.Source
