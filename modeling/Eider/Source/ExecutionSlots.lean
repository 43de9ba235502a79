import Mathlib.Data.List.Basic

/-!
Bounded execution slots over a deferred backend (`eider-cuda/src/deferred.rs`,
lines 82 to 333, and `eider-cuda/src/deferred/slots.rs`, lines 17 to 251).

Resources and fences are owned objects that move between owners. An object is
known by the number it was made under, and the backend keeps what it knows of a
fence in its own state `β`, so that it may answer `poll` and `wait` in any way.
`Domain.trace` lists what happens at the boundary: which resource a recording
closure is given, which fence covers a resource, which fence was seen complete.

`unreachable!` and `expect` leave the slot as it stands at the panic, in
`transition`.
-/
namespace Eider.Source

inductive CompletionStatus where
  | pending
  | complete
deriving DecidableEq, Repr

/-- `DeferredBackend`, with encoders `E` and errors `X`. `discard` returns a fence
or none. -/
structure DeferredBackend (β E X : Type) where
  begin : String → β → Except X E × β
  submit : E → Nat → β → β
  poll : Nat → β → Except X CompletionStatus × β
  wait : Nat → β → Except X Unit × β
  discard : E → Nat → β → Bool × β

/-- What happens at the boundary of the slots. -/
inductive Boundary where
  | given (resource : Nat)
  | fenced (resource fence : Nat)
  | observed (fence : Nat)
deriving DecidableEq, Repr

/-- The backend's state, the fences made so far, and the trace. -/
structure Domain (β : Type) where
  state : β
  fences : Nat
  trace : List Boundary

structure Resource (R : Type) where
  id : Nat
  value : R

structure Recording (E R : Type) where
  encoder : E
  resources : Resource R
  latestSegment : Option Nat

structure InFlight (R : Type) where
  fence : Nat
  resources : Resource R
  complete : Bool

inductive SlotState (R : Type) where
  | ready (resources : Resource R)
  | inFlight (submission : InFlight R)
  | completed (resources : Resource R)
  | transition

inductive SlotSubmitError (X Y : Type) where
  | begin (error : X)
  | record (error : Y)

/-- What a recording closure leaves: the encoder, the resource, and its result. No
result is a closure that unwinds. -/
structure Recorded (E R Y : Type) where
  encoder : E
  value : R
  result : Option (Except Y Unit)

structure BoundedExecutionSlots (β R : Type) where
  domain : Domain β
  slots : List (SlotState R)

section
variable {β E X R Y : Type} (calls : DeferredBackend β E X)

namespace Domain

def log (d : Domain β) (event : Boundary) : Domain β := { d with trace := d.trace ++ [event] }

end Domain

namespace Recording

variable (r : Recording E R) (d : Domain β)

def tryNew (resources : Resource R) (label : String) :
    Except (X × Resource R) (Recording E R) × Domain β :=
  match calls.begin label d.state with
  | (.error e, state) => (.error (e, resources), { d with state := state })
  | (.ok encoder, state) => (.ok ⟨encoder, resources, none⟩, { d with state := state })

def record (closure : E → R → Recorded E R Y) : Option (Except Y Unit) × Recording E R × Domain β :=
  let recorded := closure r.encoder r.resources.value
  (recorded.result,
    { r with
      encoder := recorded.encoder
      resources := { r.resources with value := recorded.value } },
    d.log (.given r.resources.id))

/-- `Recording::discard`: the fence of the backend, or else that of the latest
segment. -/
def discard : SlotState R × Domain β :=
  let (fenced, state) := calls.discard r.encoder d.fences d.state
  if fenced then
    (.inFlight ⟨d.fences, r.resources, false⟩,
      Domain.log ⟨state, d.fences + 1, d.trace⟩ (.fenced r.resources.id d.fences))
  else
    match r.latestSegment with
    | some fence => (.inFlight ⟨fence, r.resources, false⟩, { d with state := state })
    | none => (.ready r.resources, { d with state := state })

def submit : InFlight R × Domain β :=
  (⟨d.fences, r.resources, false⟩,
    Domain.log ⟨calls.submit r.encoder d.fences d.state, d.fences + 1, d.trace⟩
      (.fenced r.resources.id d.fences))

end Recording

namespace InFlight

def poll (s : InFlight R) (d : Domain β) : Except X CompletionStatus × InFlight R × Domain β :=
  if s.complete then (.ok .complete, s, d)
  else
    match calls.poll s.fence d.state with
    | (.error e, state) => (.error e, s, { d with state := state })
    | (.ok .pending, state) => (.ok .pending, s, { d with state := state })
    | (.ok .complete, state) =>
      (.ok .complete, { s with complete := true },
        Domain.log { d with state := state } (.observed s.fence))

def wait (s : InFlight R) (d : Domain β) : Except X Unit × InFlight R × Domain β :=
  if s.complete then (.ok (), s, d)
  else
    match calls.wait s.fence d.state with
    | (.error e, state) => (.error e, s, { d with state := state })
    | (.ok (), state) =>
      (.ok (), { s with complete := true },
        Domain.log { d with state := state } (.observed s.fence))

def tryReclaim (s : InFlight R) : Except (InFlight R) (Resource R) :=
  if s.complete then .ok s.resources else .error s

end InFlight

namespace BoundedExecutionSlots

/-- `new`. The resources are numbered in their order. -/
def new (state : β) (resources : List R) : Except String (BoundedExecutionSlots β R) :=
  if resources.isEmpty then .error "bounded execution slots require at least one resource set"
  else .ok ⟨⟨state, 0, []⟩, resources.zipIdx.map fun r => .ready ⟨r.2, r.1⟩⟩

/-- `matches!(state, SlotState::Ready(_))`. -/
def isReady : SlotState R → Bool
  | .ready _ => true
  | _ => false

variable (s : BoundedExecutionSlots β R)

def put (index : Nat) (state : SlotState R) (d : Domain β) : BoundedExecutionSlots β R :=
  ⟨d, s.slots.set index state⟩

/-- `try_submit`. No result is a closure that unwinds through the call; the guard
`RecordingRestore` discards the recording then, as it does when the closure fails. -/
def trySubmit (label : String) (closure : E → R → Recorded E R Y) :
    Option (Except (SlotSubmitError X Y) (Option Nat)) × BoundedExecutionSlots β R :=
  match s.slots.findIdx? isReady with
  | none => (some (.ok none), s)
  | some index =>
    match s.slots[index]? with
    | some (.ready resources) =>
      match Recording.tryNew calls s.domain resources label with
      | (.error (e, resources), d) =>
        (some (.error (.begin e)), s.put index (.ready resources) d)
      | (.ok recording, d) =>
        match recording.record d closure with
        | (none, recording, d) =>
          let (state, d) := recording.discard calls d
          (none, s.put index state d)
        | (some (.error e), recording, d) =>
          let (state, d) := recording.discard calls d
          (some (.error (.record e)), s.put index state d)
        | (some (.ok ()), recording, d) =>
          let (submission, d) := recording.submit calls d
          (some (.ok (some index)), s.put index (.inFlight submission) d)
    | _ => (none, s.put index .transition s.domain)

/-- The slot behind an observed completion. -/
def reclaimed (submission : InFlight R) : SlotState R :=
  match submission.tryReclaim with
  | .ok resources => .completed resources
  | .error _ => .transition

/-- The slot loop of `poll`, from one index on. -/
def pollFrom : Nat → Nat → Nat → BoundedExecutionSlots β R →
    Except X Nat × BoundedExecutionSlots β R
  | 0, _, completed, s => (.ok completed, s)
  | rest + 1, index, completed, s =>
    match s.slots[index]? with
    | some (.inFlight submission) =>
      match submission.poll calls s.domain with
      | (.error e, submission, d) => (.error e, s.put index (.inFlight submission) d)
      | (.ok .pending, submission, d) =>
        pollFrom rest (index + 1) completed (s.put index (.inFlight submission) d)
      | (.ok .complete, submission, d) =>
        pollFrom rest (index + 1) (completed + 1) (s.put index (reclaimed submission) d)
    | _ => pollFrom rest (index + 1) completed s

def poll : Except X Nat × BoundedExecutionSlots β R :=
  pollFrom calls s.slots.length 0 0 s

def wait (index : Nat) : Except X Bool × BoundedExecutionSlots β R :=
  match s.slots[index]? with
  | some (.inFlight submission) =>
    match submission.wait calls s.domain with
    | (.error e, submission, d) => (.error e, s.put index (.inFlight submission) d)
    | (.ok (), submission, d) => (.ok true, s.put index (reclaimed submission) d)
  | _ => (.ok false, s)

/-- `recycle_completed`. The slot is ready before the callback runs. -/
def recycleCompleted {T : Type} (index : Nat)
    (complete : R → R × T) : Option T × BoundedExecutionSlots β R :=
  match s.slots[index]? with
  | some (.completed resources) =>
    let (value, result) := complete resources.value
    (some result, s.put index (.ready { resources with value := value }) s.domain)
  | _ => (none, s)

end BoundedExecutionSlots

end

end Eider.Source
