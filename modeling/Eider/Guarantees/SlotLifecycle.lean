import Eider.Lib.Run
import Eider.Source.ExecutionSlots

/-!
# The lifecycle of execution slots

Over any sequence of submissions, polls, waits and recycles, with a backend that
answers in any way and recording closures that succeed, fail or unwind, slot `i`
holds resource `i` and nothing else, so that no resource is lost, none is in two
slots, and the transient state is never seen between two calls; and a recording
closure is given a resource only behind the completion of every fence that covered
it before (`slots_hold_their_resources`).
-/
namespace Eider.Guarantees.SlotLifecycle
open Lib.Run Source List Option

/-! ## Traces -/

/-- Every fence that covered the resource was seen complete afterwards. -/
def Observed (trace : List Boundary) (resource : Nat) : Prop :=
  ∀ before after fence, trace = before ++ .fenced resource fence :: after → .observed fence ∈ after

/-- The same, except for one fence. -/
def ObservedBut (trace : List Boundary) (resource last : Nat) : Prop :=
  ∀ before after fence, trace = before ++ .fenced resource fence :: after →
    fence = last ∨ .observed fence ∈ after

/-- A closure was given a resource only when its earlier fences were observed. -/
def GivenObserved (trace : List Boundary) : Prop :=
  ∀ before after resource, trace = before ++ .given resource :: after → Observed before resource

theorem append_singleton_split {α : Type} {l before after : List α} {a b : α}
    (h : l ++ [a] = before ++ b :: after) :
    (∃ rest, after = rest ++ [a] ∧ l = before ++ b :: rest) ∨
      after = [] ∧ l = before ∧ b = a := by
  rcases eq_nil_or_concat after with rfl | ⟨rest, c, rfl⟩
  · obtain ⟨hl, hab⟩ := append_inj' h rfl
    exact .inr ⟨rfl, hl, (cons.inj hab).1.symm⟩
  · rw [concat_eq_append] at h ⊢
    have hassoc : l ++ [a] = (before ++ b :: rest) ++ [c] := by
      rw [h, append_assoc, cons_append]
    obtain ⟨hl, hac⟩ := append_inj' hassoc rfl
    obtain rfl := (cons.inj hac).1
    exact .inl ⟨rest, rfl, hl⟩

section
variable {trace : List Boundary} {event : Boundary} {resource fence : Nat}

theorem Observed.append (h : Observed trace resource)
    (hevent : ∀ fence, event ≠ .fenced resource fence) : Observed (trace ++ [event]) resource := by
  intro before after fence hsplit
  rcases append_singleton_split hsplit with ⟨rest, rfl, hrest⟩ | ⟨-, -, hlast⟩
  · exact mem_append_left _ (h before rest fence hrest)
  · exact absurd hlast.symm (hevent fence)

theorem ObservedBut.append (h : ObservedBut trace resource fence)
    (hevent : ∀ fence, event ≠ .fenced resource fence) :
    ObservedBut (trace ++ [event]) resource fence := by
  intro before after other hsplit
  rcases append_singleton_split hsplit with ⟨rest, rfl, hrest⟩ | ⟨-, -, hlast⟩
  · exact (h before rest other hrest).imp_right (mem_append_left _)
  · exact absurd hlast.symm (hevent other)

theorem ObservedBut.observed (h : ObservedBut trace resource fence) :
    Observed (trace ++ [.observed fence]) resource := by
  intro before after other hsplit
  rcases append_singleton_split hsplit with ⟨rest, rfl, hrest⟩ | ⟨-, -, hlast⟩
  · rcases h before rest other hrest with rfl | hobserved
    · exact mem_append_right _ (mem_singleton_self _)
    · exact mem_append_left _ hobserved
  · cases hlast

theorem Observed.fenced (h : Observed trace resource) (fence : Nat) :
    ObservedBut (trace ++ [.fenced resource fence]) resource fence := by
  intro before after other hsplit
  rcases append_singleton_split hsplit with ⟨rest, rfl, hrest⟩ | ⟨-, -, hlast⟩
  · exact .inr (mem_append_left _ (h before rest other hrest))
  · cases hlast
    exact .inl rfl

theorem GivenObserved.append (h : GivenObserved trace)
    (hevent : ∀ resource, event = .given resource → Observed trace resource) :
    GivenObserved (trace ++ [event]) := by
  intro before after resource hsplit
  rcases append_singleton_split hsplit with ⟨rest, rfl, hrest⟩ | ⟨-, rfl, hlast⟩
  · exact h before rest resource hrest
  · exact hevent resource hlast.symm

end

/-! ## The invariant -/

section
variable {β E X R Y T : Type}
variable {recording : Recording E R}

/-- The resource that a slot holds. -/
def heldResource : SlotState R → Option Nat
  | .ready resources => some resources.id
  | .inFlight submission => some submission.resources.id
  | .completed resources => some resources.id
  | .transition => none

/-- The fences of the slot's resource were observed, but for the one that it is in
flight behind. -/
def Settled (trace : List Boundary) : SlotState R → Prop
  | .ready resources => Observed trace resources.id
  | .inFlight submission =>
    if submission.complete then Observed trace submission.resources.id
    else ObservedBut trace submission.resources.id submission.fence
  | .completed resources => Observed trace resources.id
  | .transition => False

theorem Settled.append {trace : List Boundary} {event : Boundary} {slot : SlotState R}
    (h : Settled trace slot)
    (hevent : ∀ resource fence, event = .fenced resource fence →
      heldResource slot ≠ some resource) : Settled (trace ++ [event]) slot := by
  cases slot with
  | ready resources => exact Observed.append h fun fence heq => hevent _ _ heq rfl
  | completed resources => exact Observed.append h fun fence heq => hevent _ _ heq rfl
  | inFlight submission =>
    rw [Settled] at h ⊢
    split at h
    · rename_i hcomplete
      rw [if_pos hcomplete]
      exact h.append fun fence heq => hevent _ _ heq rfl
    · rename_i hcomplete
      rw [if_neg hcomplete]
      exact h.append fun fence heq => hevent _ _ heq rfl
  | transition => exact h

/-- Slot `i` of `n` holds resource `i`, settled. -/
structure Sound (n : Nat) (s : BoundedExecutionSlots β R) : Prop where
  length : s.slots.length = n
  holds : ∀ {i : Nat} {slot : SlotState R}, s.slots[i]? = some slot → heldResource slot = some i
  settled : ∀ {i : Nat} {slot : SlotState R}, s.slots[i]? = some slot → Settled s.domain.trace slot
  given : GivenObserved s.domain.trace

variable {n : Nat} {s : BoundedExecutionSlots β R} {index : Nat} {old new : SlotState R}
  {d : Domain β}

theorem Sound.put (h : Sound n s) (hold : s.slots[index]? = some old)
    (hsame : heldResource new = heldResource old) (hnew : Settled d.trace new)
    (hothers : ∀ slot : SlotState R, heldResource slot ≠ some index →
      Settled s.domain.trace slot → Settled d.trace slot)
    (hgiven : GivenObserved d.trace) : Sound n (s.put index new d) where
  length := by
    rw [BoundedExecutionSlots.put, length_set]
    exact h.length
  holds {i slot} hslot := by
    simp only [BoundedExecutionSlots.put, getElem?_set] at hslot
    split at hslot
    · rename_i heq
      subst heq
      split at hslot
      · cases hslot
        exact hsame.trans (h.holds hold)
      · cases hslot
    · exact h.holds hslot
  settled {i slot} hslot := by
    simp only [BoundedExecutionSlots.put, getElem?_set] at hslot
    split at hslot
    · split at hslot
      · cases hslot
        exact hnew
      · cases hslot
    · rename_i hne
      refine hothers slot ?_ (h.settled hslot)
      rw [h.holds hslot]
      exact fun heq => hne (some.inj heq).symm
  given := hgiven

theorem Sound.put_silent (h : Sound n s) (hold : s.slots[index]? = some old)
    (hsame : heldResource new = heldResource old) (hnew : Settled s.domain.trace new)
    (htrace : d.trace = s.domain.trace) : Sound n (s.put index new d) := by
  refine h.put hold hsame ?_ ?_ ?_
  · rw [htrace]
    exact hnew
  · intro slot _ hslot
    rw [htrace]
    exact hslot
  · rw [htrace]
    exact h.given

/-! ## Operations -/

variable (calls : DeferredBackend β E X)

/-- A recording of the resource of a slot, just after the closure ran on it. -/
structure RecordingOf (s : BoundedExecutionSlots β R) (index : Nat) (recording : Recording E R)
    (d : Domain β) : Prop where
  resource : recording.resources.id = index
  segment : recording.latestSegment = none
  trace : d.trace = s.domain.trace ++ [.given index]

section
variable (hrecording : RecordingOf s index recording d)
include hrecording

theorem RecordingOf.observed (hready : Observed s.domain.trace index) : Observed d.trace index := by
  rw [hrecording.trace]
  exact hready.append (by simp)

theorem RecordingOf.given (h : Sound n s)
    (hready : Observed s.domain.trace index) : GivenObserved d.trace := by
  rw [hrecording.trace]
  refine h.given.append ?_
  intro resource heq
  cases heq
  exact hready

theorem RecordingOf.others {slot : SlotState R}
    (hslot : Settled s.domain.trace slot) : Settled d.trace slot := by
  rw [hrecording.trace]
  exact hslot.append (by simp)

end

/-- Submitting the recording puts its resource behind a new fence. -/
theorem submit_sound (h : Sound n s) (hold : s.slots[index]? = some old)
    (hready : Observed s.domain.trace index) (hrecording : RecordingOf s index recording d) :
    Sound n (s.put index (.inFlight (recording.submit calls d).1) (recording.submit calls d).2) := by
  have htrace : (recording.submit calls d).2.trace = d.trace ++ [.fenced index d.fences] := by
    rw [← hrecording.resource]
    rfl
  refine h.put hold ?_ ?_ ?_ ?_
  · rw [h.holds hold, ← hrecording.resource]
    rfl
  · rw [htrace, Settled, if_neg (by simp [Recording.submit])]
    have hfenced := (hrecording.observed hready).fenced d.fences
    simpa only [Recording.submit, hrecording.resource] using hfenced
  · intro slot hother hslot
    rw [htrace]
    refine (hrecording.others hslot).append ?_
    intro resource fence heq
    cases heq
    exact hother
  · exact (hrecording.given h hready).append (by simp)

/-- Discarding it puts the resource behind the backend's fence, or back. -/
theorem discard_sound (h : Sound n s) (hold : s.slots[index]? = some old)
    (hready : Observed s.domain.trace index) (hrecording : RecordingOf s index recording d) :
    Sound n (s.put index (recording.discard calls d).1 (recording.discard calls d).2) := by
  rw [Recording.discard]
  cases hdiscard : calls.discard recording.encoder d.fences d.state with
  | mk fenced state =>
    cases fenced with
    | true =>
      refine h.put hold ?_ ?_ ?_ ?_
      · rw [h.holds hold, ← hrecording.resource]
        rfl
      · have hfenced := (hrecording.observed hready).fenced d.fences
        simpa [Settled, Domain.log, hrecording.resource] using hfenced
      · intro slot hother hslot
        refine (hrecording.others hslot).append ?_
        intro resource fence heq
        cases heq
        rw [hrecording.resource]
        exact hother
      · exact (hrecording.given h hready).append (by simp)
    | false =>
      rw [hrecording.segment]
      refine h.put hold ?_ ?_ ?_ ?_
      · rw [h.holds hold, ← hrecording.resource]
        rfl
      · simpa [Settled, hrecording.resource] using hrecording.observed hready
      · exact fun slot _ hslot => hrecording.others hslot
      · exact hrecording.given h hready

theorem trySubmit_sound (h : Sound n s) (label : String) (closure : E → R → Recorded E R Y) :
    Sound n (s.trySubmit calls label closure).2 := by
  rw [BoundedExecutionSlots.trySubmit]
  split
  · exact h
  · rename_i index hindex
    obtain ⟨hlt, hfound, -⟩ := findIdx?_eq_some_iff_getElem.mp hindex
    have hget : s.slots[index]? = some s.slots[index] := getElem?_eq_getElem hlt
    cases hslot : s.slots[index] with
    | ready resources =>
      rw [hslot] at hget
      have hready : Observed s.domain.trace resources.id := h.settled hget
      obtain rfl : resources.id = index := some.inj (h.holds hget)
      simp only [hget]
      rw [Recording.tryNew]
      cases hbegin : calls.begin label s.domain.state with
      | mk result state =>
        cases result with
        | error e => exact h.put_silent hget rfl hready rfl
        | ok encoder =>
          have hrecording : RecordingOf s resources.id
              (Recording.record ⟨encoder, resources, none⟩ { s.domain with state := state }
                closure).2.1
              (Recording.record ⟨encoder, resources, none⟩ { s.domain with state := state }
                closure).2.2 := ⟨rfl, rfl, rfl⟩
          dsimp only
          split
          · rename_i recording d heq
            rw [heq] at hrecording
            exact discard_sound calls h hget hready hrecording
          · rename_i e recording d heq
            rw [heq] at hrecording
            exact discard_sound calls h hget hready hrecording
          · rename_i recording d heq
            rw [heq] at hrecording
            exact submit_sound calls h hget hready hrecording
    | inFlight submission => rw [hslot] at hfound; cases hfound
    | completed resources => rw [hslot] at hfound; cases hfound
    | transition => rw [hslot] at hfound; cases hfound

theorem observed_sound {submission : InFlight R} {state : β} (h : Sound n s)
    (hold : s.slots[index]? = some (.inFlight submission)) (hcomplete : submission.complete = false) :
    Sound n (s.put index (BoundedExecutionSlots.reclaimed { submission with complete := true })
      (Domain.log { s.domain with state := state } (.observed submission.fence))) := by
  have hsettled := h.settled hold
  rw [Settled, if_neg (by simp [hcomplete])] at hsettled
  refine h.put hold rfl ?_ ?_ ?_
  · exact hsettled.observed
  · intro slot _ hslot
    exact hslot.append (by simp)
  · exact h.given.append (by simp)

theorem reclaimed_sound {submission : InFlight R} (h : Sound n s)
    (hold : s.slots[index]? = some (.inFlight submission)) (hcomplete : submission.complete = true) :
    Sound n (s.put index (BoundedExecutionSlots.reclaimed submission) s.domain) := by
  have hsettled := h.settled hold
  rw [Settled, if_pos hcomplete] at hsettled
  have hreclaimed : BoundedExecutionSlots.reclaimed submission =
      .completed submission.resources := by
    rw [BoundedExecutionSlots.reclaimed, InFlight.tryReclaim, if_pos hcomplete]
  rw [hreclaimed]
  exact h.put_silent hold rfl hsettled rfl

theorem pollFrom_sound {rest index completed : Nat} {s : BoundedExecutionSlots β R}
    (h : Sound n s) : Sound n (BoundedExecutionSlots.pollFrom calls rest index completed s).2 := by
  induction rest generalizing index completed s with
  | zero => exact h
  | succ rest ih =>
    rw [BoundedExecutionSlots.pollFrom]
    split
    · rename_i submission hold
      cases hcomplete : submission.complete with
      | true =>
        rw [InFlight.poll, if_pos hcomplete]
        exact ih (reclaimed_sound h hold hcomplete)
      | false =>
        rw [InFlight.poll, if_neg (by simp [hcomplete])]
        cases hpoll : calls.poll submission.fence s.domain.state with
        | mk result state =>
          cases result with
          | error e => exact h.put_silent hold rfl (h.settled hold) rfl
          | ok status =>
            cases status with
            | pending => exact ih (h.put_silent hold rfl (h.settled hold) rfl)
            | complete => exact ih (observed_sound h hold hcomplete)
    · exact ih h

theorem wait_sound (h : Sound n s) (index : Nat) : Sound n (s.wait calls index).2 := by
  rw [BoundedExecutionSlots.wait]
  split
  · rename_i submission hold
    cases hcomplete : submission.complete with
    | true =>
      rw [InFlight.wait, if_pos hcomplete]
      exact reclaimed_sound h hold hcomplete
    | false =>
      rw [InFlight.wait, if_neg (by simp [hcomplete])]
      cases hwait : calls.wait submission.fence s.domain.state with
      | mk result state =>
        cases result with
        | error e => exact h.put_silent hold rfl (h.settled hold) rfl
        | ok done => exact observed_sound h hold hcomplete
  · exact h

theorem recycleCompleted_sound (h : Sound n s) (index : Nat) (complete : R → R × T) :
    Sound n (s.recycleCompleted index complete).2 := by
  rw [BoundedExecutionSlots.recycleCompleted]
  split
  · rename_i resources hold
    have hsettled : Observed s.domain.trace resources.id := h.settled hold
    exact h.put_silent hold rfl hsettled rfl
  · exact h

/-! ## Runs -/

/-- One call on the slots. -/
inductive Operation (E R Y T : Type) where
  | trySubmit (label : String) (closure : E → R → Recorded E R Y)
  | poll
  | wait (index : Nat)
  | recycleCompleted (index : Nat) (complete : R → R × T)

/-- The slots behind a call, successful or not. -/
def step (s : BoundedExecutionSlots β R) : Operation E R Y T → BoundedExecutionSlots β R
  | .trySubmit label closure => (s.trySubmit calls label closure).2
  | .poll => (s.poll calls).2
  | .wait index => (s.wait calls index).2
  | .recycleCompleted index complete => (s.recycleCompleted index complete).2

theorem step_sound (h : Sound n s) (operation : Operation E R Y T) :
    Sound n (step calls s operation) := by
  cases operation with
  | trySubmit label closure => exact trySubmit_sound calls h label closure
  | poll => exact pollFrom_sound calls h
  | wait index => exact wait_sound calls h index
  | recycleCompleted index complete => exact recycleCompleted_sound h index complete

theorem new_sound {state : β} {resources : List R}
    (h : BoundedExecutionSlots.new state resources = .ok s) : Sound resources.length s := by
  rw [BoundedExecutionSlots.new] at h
  split at h
  · cases h
  · cases h
    refine ⟨?_, ?_, ?_, ?_⟩
    · simp
    · intro i slot hslot
      simp only [getElem?_map, getElem?_zipIdx, Option.map_map] at hslot
      obtain ⟨value, -, rfl⟩ := Option.map_eq_some_iff.mp hslot
      simp [heldResource]
    · intro i slot hslot
      simp only [getElem?_map, getElem?_zipIdx, Option.map_map] at hslot
      obtain ⟨value, -, rfl⟩ := Option.map_eq_some_iff.mp hslot
      intro before after fence hsplit
      simp at hsplit
    · intro before after resource hsplit
      simp at hsplit

/-- **Slots hold their resources.** Behind any calls on slots made for some
resources, whatever the backend and the closures do: each slot holds the resource it
was made with, so their number is the same, no resource is lost or in two slots, and
no slot is in transition; and every closure was given a resource whose earlier fences
had all been observed complete. -/
theorem slots_hold_their_resources {state : β} {resources : List R}
    (made : BoundedExecutionSlots.new state resources = .ok s)
    {operations : List (Operation E R Y T)} {s' : BoundedExecutionSlots β R}
    (path : Path (fun s operation => some (step calls s operation)) (fun _ _ => True)
      s operations s') :
    s'.slots.map heldResource = (List.range resources.length).map some ∧
      GivenObserved s'.domain.trace := by
  have hkeeps : ∀ {s t : BoundedExecutionSlots β R} {operation : Operation E R Y T},
      Sound resources.length s → True → some (step calls s operation) = some t →
      Sound resources.length t := by
    intro s t operation h _ hstep
    cases hstep
    exact step_sound calls h operation
  have hsound := path.invariant hkeeps (new_sound made)
  refine ⟨?_, hsound.given⟩
  refine ext_getElem? fun i => ?_
  rw [getElem?_map, getElem?_map]
  cases hslot : s'.slots[i]? with
  | none =>
    have hbeyond := getElem?_eq_none_iff.mp hslot
    rw [hsound.length] at hbeyond
    rw [getElem?_eq_none (by simpa using hbeyond)]
    rfl
  | some slot =>
    have hlt := (List.getElem?_eq_some_iff.mp hslot).1
    rw [hsound.length] at hlt
    rw [List.getElem?_range hlt, map_some, map_some, hsound.holds hslot]

end

/-- An eager backend: its recordings cannot be taken back. Polls see completion. -/
def eagerBackend : DeferredBackend Unit Unit String where
  begin _ state := (.ok (), state)
  submit _ _ state := state
  poll _ state := (.ok .complete, state)
  wait _ state := (.ok (), state)
  discard _ _ state := (true, state)

/-- A recording fails, another is submitted, both complete, and one slot is used
again. -/
theorem failed_recording_then_reuse :
    ∃ s s' : BoundedExecutionSlots Unit Nat,
      BoundedExecutionSlots.new () [7, 8] = .ok s ∧
      Path (fun s operation => some (step eagerBackend s operation)) (fun _ _ => True) s
        ([.trySubmit "first" fun _ value => ⟨(), value, some (.error "rejected")⟩,
          .trySubmit "second" fun _ value => ⟨(), value + 1, some (.ok ())⟩,
          .poll, .recycleCompleted 0 fun value => (value, ()),
          .trySubmit "third" fun _ value => ⟨(), value, none⟩] :
          List (Operation Unit Nat String Unit)) s' ∧
      s'.slots.map heldResource = (List.range [7, 8].length).map some ∧
      GivenObserved s'.domain.trace := by
  have hpath : ∃ s s' : BoundedExecutionSlots Unit Nat,
      BoundedExecutionSlots.new () [7, 8] = .ok s ∧
      Path (fun s operation => some (step eagerBackend s operation)) (fun _ _ => True) s
        ([.trySubmit "first" fun _ value => ⟨(), value, some (.error "rejected")⟩,
          .trySubmit "second" fun _ value => ⟨(), value + 1, some (.ok ())⟩,
          .poll, .recycleCompleted 0 fun value => (value, ()),
          .trySubmit "third" fun _ value => ⟨(), value, none⟩] :
          List (Operation Unit Nat String Unit)) s' :=
    ⟨_, _, rfl, .of_run rfl⟩
  obtain ⟨s, s', made, path⟩ := hpath
  exact ⟨s, s', made, path, slots_hold_their_resources eagerBackend made path⟩

end Eider.Guarantees.SlotLifecycle
