import Eider.Guarantees.SchedulerLedger
import Eider.Lib.Custody
import Eider.Lib.Run
import Eider.Source.Step37Scheduler

/-!
The books of the Step-3.7 scheduler: every unfinished request stands in exactly one
queue, every sequence of the pool has exactly one owner, and every generated token has
been reported by exactly one tick that returned `Ok`.

They balance in every run whose ticks fail only where the phases put everything back: at
the first request of a decode batch, or in the batched prefill of a tick that decodes
nothing. Admission pops a request before it makes its calls, and the report of a tick is
lost as a whole, so a failure elsewhere strands a request or swallows a token.
-/
namespace Eider.Guarantees.Step37Account
open Lib.Ensures Prod
open Lib Lib.ByteReader Lib.Run Source Source.Step37 List BTreeMap
open Source.Qwen36 (SchedulerConfig RequestConfig attempt)
open Guarantees.SchedulerLedger (OnFailure attempt_bind expect_bind forall_mem_of_forall₂)

variable {S C : Type}
variable {α : Type} {E : Fault CudaError → Scheduler S C → Prop} {session : Session S C}

/-! ## The books -/

/-- The place in a queue that a request claims. -/
def slot (r : Request) : List Nat := if r.lifecycle = .finished then [] else [r.id]

/-- The sequence that a request claims. -/
def sequencesOf (r : Request) : List Nat := r.sequenceId.toList

/-- What the books are about; `generated` are the tokens that have been reported. -/
structure View where
  requests : BTreeMap Nat Request
  waiting : List Nat
  prefilling : List Nat
  decoding : List Nat
  nextId : Nat
  pool : List Nat
  nextSequenceId : Nat
  generated : List ScheduledToken

def viewOf (generated : List ScheduledToken) (s : Scheduler S C) : View where
  requests := s.requests
  waiting := s.waiting
  prefilling := s.prefilling
  decoding := s.decoding
  nextId := s.nextId
  pool := s.sequences.keys
  nextSequenceId := s.nextSequenceId
  generated := generated

/-- The queued ids. -/
def View.queues (v : View) : List Nat := v.waiting ++ v.prefilling ++ v.decoding

/-- What a request's fields say about each other. -/
structure Consistent (r : Request) : Prop where
  unadmitted : r.lifecycle = .waiting ∨ r.lifecycle = .finished → r.sequenceId = none
  admitted : r.lifecycle = .prefilling ∨ r.lifecycle = .decoding → r.sequenceId.isSome
  decoding : r.lifecycle = .decoding → r.lastToken.isSome

/-- The request is consistent and its tokens have been reported. -/
structure Settled (generated : List ScheduledToken) (r : Request) : Prop where
  consistent : Consistent r
  reported : (generated.filter fun token => token.requestId = r.id) = r.generatedTokens

/-- The books, with the requests `hand` taken out of the map and the ids `popped` taken
from the queues. -/
structure Sound (v : View) (hand : List Request) (popped : List Nat) : Prop where
  keyed : ∀ id r, v.requests.get id = some r → r.id = id
  ids : ((v.requests.values ++ hand).map Request.id).Nodup
  known : ∀ r ∈ v.requests.values ++ hand, r.id < v.nextId
  queued : Balanced slot v.requests [] (v.queues ++ popped)
  owned : Balanced sequencesOf v.requests hand v.pool
  distinct : v.pool.Nodup
  allocated : ∀ id ∈ v.pool, id < v.nextSequenceId
  settled : ∀ r ∈ v.requests.values ++ hand, Settled v.generated r
  told : ∀ token ∈ v.generated, token.requestId < v.nextId
  waiting : ∀ id ∈ v.waiting, ∀ r, v.requests.get id = some r → r.lifecycle = .waiting
  prefilling : ∀ id ∈ v.prefilling, ∀ r, v.requests.get id = some r → r.lifecycle = .prefilling
  decoding : ∀ id ∈ v.decoding, ∀ r, v.requests.get id = some r → r.lifecycle = .decoding

variable {pool : List Nat}

section
variable {v : View} {hand : List Request} {popped popped' : List Nat} {r r' : Request} {id : Nat}

section
variable (h : Sound v hand popped)
include h

theorem Sound.of_get (hget : v.requests.get id = some r) :
    r.id = id ∧ Settled v.generated r ∧ id < v.nextId := by
  have hmem : r ∈ v.requests.values ++ hand := mem_append_left _ (mem_values_iff.mpr ⟨id, hget⟩)
  have hid := h.keyed id r hget
  exact ⟨hid, h.settled r hmem, hid ▸ h.known r hmem⟩

theorem Sound.get_none (hr : r ∈ hand) : v.requests.get r.id = none := by
  cases hget : v.requests.get r.id with
  | none => rfl
  | some other =>
    have hids := h.ids
    rw [map_append, nodup_append] at hids
    have hmem : other ∈ v.requests.values := mem_values_iff.mpr ⟨r.id, hget⟩
    exact absurd (h.keyed r.id other hget)
      (hids.2.2 _ (mem_map_of_mem hmem) _ (mem_map_of_mem hr))

theorem Sound.not_queued (hr : r ∈ hand) : r.id ∉ v.queues := by
  intro hmem
  have hclaimed := h.queued.mem_iff.mpr (mem_append_left popped hmem)
  obtain ⟨x, hx, hslot⟩ := mem_flatMap.mp hclaimed
  rw [append_nil] at hx
  obtain ⟨id, hget⟩ := mem_values_iff.mp hx
  have hid : r.id = id := by
    rw [slot] at hslot
    split at hslot
    · cases hslot
    · rw [mem_singleton.mp hslot, h.keyed id x hget]
  rw [← hid, h.get_none hr] at hget
  cases hget

theorem Sound.perm {hand' : List Request} (hperm : hand'.Perm hand)
    (hpopped : popped'.Perm popped) : Sound v hand' popped' := by
  have hall : (v.requests.values ++ hand').Perm (v.requests.values ++ hand) := hperm.append_left _
  exact {
    h with
    ids := (hall.map _).nodup_iff.mpr h.ids
    known := fun r hr => h.known r (hall.mem_iff.mp hr)
    queued := h.queued.perm (List.Perm.refl _) (hpopped.symm.append_left _)
    owned := h.owned.perm hperm (List.Perm.refl _)
    settled := fun r hr => h.settled r (hall.mem_iff.mp hr)
  }

end

/-- An unfinished request whose place in a queue was popped is taken from the map. -/
theorem Sound.take (h : Sound v hand (id :: popped)) (hget : v.requests.get id = some r)
    (hunfinished : r.lifecycle ≠ .finished) :
    Sound { v with requests := v.requests.erase id } (r :: hand) popped := by
  have hid := (h.of_get hget).1
  have hall : ((v.requests.erase id).values ++ r :: hand).Perm (v.requests.values ++ hand) :=
    perm_middle.trans ((values_erase_perm hget).symm.append_right hand)
  have hslot : slot r = [id] := by
    rw [slot, if_neg hunfinished, hid]
  have hqueued : Balanced slot (v.requests.erase id) [r] (slot r ++ (v.queues ++ popped)) := by
    apply (h.queued.take hget).perm (List.Perm.refl _)
    rw [hslot]
    exact perm_middle
  have herased : ∀ {other : Nat} {x : Request}, (v.requests.erase id).get other = some x →
      v.requests.get other = some x := by
    intro other x hx
    rw [get_erase] at hx
    split at hx
    · cases hx
    · exact hx
  exact {
    h with
    keyed := fun other x hx => h.keyed other x (herased hx)
    ids := (hall.map _).nodup_iff.mpr h.ids
    known := fun x hx => h.known x (hall.mem_iff.mp hx)
    queued := hqueued.drop
    owned := h.owned.take hget
    settled := fun x hx => h.settled x (hall.mem_iff.mp hx)
    waiting := fun other hmem x hx => h.waiting other hmem x (herased hx)
    prefilling := fun other hmem x hx => h.prefilling other hmem x (herased hx)
    decoding := fun other hmem x hx => h.decoding other hmem x (herased hx)
  }

section
variable (h : Sound v (r :: hand) popped)
include h

/-- A request in hand goes back into the map; an unfinished one is still to be queued. -/
theorem Sound.put :
    Sound { v with requests := v.requests.insert r.id r } hand (slot r ++ popped) := by
  have hnone := h.get_none mem_cons_self
  have hqueues := h.not_queued mem_cons_self
  have hall : ((v.requests.insert r.id r).values ++ hand).Perm (v.requests.values ++ r :: hand) :=
    ((values_insert_perm (v := r) hnone).append_right hand).trans perm_middle.symm
  have hlookup : ∀ {other : Nat} {x : Request}, (v.requests.insert r.id r).get other = some x →
      other = r.id ∧ x = r ∨ v.requests.get other = some x := by
    intro other x hx
    rw [get_insert] at hx
    split at hx
    · rename_i heq
      exact .inl ⟨heq.symm, (Option.some.inj hx).symm⟩
    · exact .inr hx
  have hqueue : ∀ {other : Nat} {x : Request}, other ∈ v.queues →
      (v.requests.insert r.id r).get other = some x → v.requests.get other = some x := by
    intro other x hmem hx
    obtain ⟨rfl, -⟩ | hx := hlookup hx
    · exact absurd hmem hqueues
    · exact hx
  have hqueued : Balanced slot (v.requests.insert r.id r) [] (v.queues ++ (slot r ++ popped)) := by
    apply (h.queued.add (v := r)).put hnone |>.perm (List.Perm.refl _)
    exact perm_append_comm_assoc _ _ _
  exact {
    h with
    keyed := fun other x hx => by
      obtain ⟨rfl, rfl⟩ | hx := hlookup hx
      · rfl
      · exact h.keyed other x hx
    ids := (hall.map _).nodup_iff.mpr h.ids
    known := fun x hx => h.known x (hall.mem_iff.mp hx)
    queued := hqueued
    owned := h.owned.put hnone
    settled := fun x hx => h.settled x (hall.mem_iff.mp hx)
    waiting := fun other hmem x hx => h.waiting other hmem x
      (hqueue (mem_append_left _ (mem_append_left _ hmem)) hx)
    prefilling := fun other hmem x hx => h.prefilling other hmem x
      (hqueue (mem_append_left _ (mem_append_right _ hmem)) hx)
    decoding := fun other hmem x hx => h.decoding other hmem x
      (hqueue (mem_append_right _ hmem) hx)
  }

omit h in
theorem Sound.requeue (h : Sound v hand popped) (waiting prefilling decoding popped' : List Nat)
    (hperm : (v.queues ++ popped).Perm (waiting ++ prefilling ++ decoding ++ popped'))
    (hwaiting : ∀ id ∈ waiting, id ∈ v.waiting ∨
      ∀ r, v.requests.get id = some r → r.lifecycle = .waiting)
    (hprefilling : ∀ id ∈ prefilling, id ∈ v.prefilling ∨
      ∀ r, v.requests.get id = some r → r.lifecycle = .prefilling)
    (hdecoding : ∀ id ∈ decoding, id ∈ v.decoding ∨
      ∀ r, v.requests.get id = some r → r.lifecycle = .decoding) :
    Sound { v with waiting := waiting, prefilling := prefilling, decoding := decoding } hand
      popped' := { h with
  queued := h.queued.perm (List.Perm.refl _) hperm
  waiting := fun id hmem r hget => (hwaiting id hmem).elim (fun hold => h.waiting id hold r hget)
    fun hnew => hnew r hget
  prefilling := fun id hmem r hget => (hprefilling id hmem).elim
    (fun hold => h.prefilling id hold r hget) fun hnew => hnew r hget
  decoding := fun id hmem r hget => (hdecoding id hmem).elim
    (fun hold => h.decoding id hold r hget) fun hnew => hnew r hget }

omit h in
theorem Sound.queues_nodup (h : Sound v hand popped) : (v.queues ++ popped).Nodup := by
  apply h.queued.nodup_iff.mp
  have hids : (v.requests.values.map Request.id).Nodup := by
    have hall := h.ids
    rw [map_append, nodup_append] at hall
    exact hall.1
  rw [append_nil]
  have hslots : (v.requests.values.flatMap slot).Sublist (v.requests.values.map Request.id) := by
    generalize v.requests.values = values
    induction values with
    | nil => exact List.Sublist.refl _
    | cons x xs ih =>
      rw [flatMap_cons, map_cons, slot]
      split
      · exact ih.cons _
      · exact ih.cons_cons _
  exact hids.sublist hslots

theorem Sound.change (hid : r'.id = r.id)
    (hsequence : r'.sequenceId = r.sequenceId) (hsettled : Settled v.generated r') :
    Sound v (r' :: hand) popped := by
  have hids : (v.requests.values ++ r' :: hand).map Request.id =
      (v.requests.values ++ r :: hand).map Request.id := by
    rw [map_append, map_append, map_cons, map_cons, hid]
  have hmem : ∀ {x : Request}, x ∈ v.requests.values ++ r' :: hand →
      x = r' ∨ x ∈ v.requests.values ++ r :: hand := by
    intro x hx
    simp only [mem_append, mem_cons] at hx ⊢
    tauto
  have hmem' : r ∈ v.requests.values ++ r :: hand := mem_append_right _ mem_cons_self
  exact {
    h with
    ids := hids ▸ h.ids
    known := fun x hx => by
      obtain rfl | hx := hmem hx
      · exact hid ▸ h.known r hmem'
      · exact h.known x hx
    owned := h.owned.same (by rw [sequencesOf, sequencesOf, hsequence])
    settled := fun x hx => by
      obtain rfl | hx := hmem hx
      · exact hsettled
      · exact h.settled x hx
  }

/-- A request in hand generates a token that is reported with it, and may lose its
sequence. -/
theorem Sound.sample (r' : Request) (token : ScheduledToken)
    (htoken : token.requestId = r.id) (hid : r'.id = r.id)
    (hgenerated : r'.generatedTokens = r.generatedTokens ++ [token]) (hconsistent : Consistent r')
    (howned : Balanced sequencesOf v.requests (r' :: hand) pool) (hpool : pool.Subperm v.pool) :
    Sound { v with generated := v.generated ++ [token], pool := pool } (r' :: hand) popped := by
  have hmem : r ∈ v.requests.values ++ r :: hand := mem_append_right _ mem_cons_self
  have hknown := h.known r hmem
  have hother : ∀ x ∈ v.requests.values ++ hand, x.id ≠ r.id := by
    intro x hx heq
    have hids := h.ids
    have hperm : (v.requests.values ++ r :: hand).Perm (r :: (v.requests.values ++ hand)) :=
      perm_middle
    rw [(hperm.map _).nodup_iff, map_cons, nodup_cons] at hids
    exact hids.1 (mem_map.mpr ⟨x, hx, heq⟩)
  have hsettled : Settled (v.generated ++ [token]) r' := by
    constructor
    · exact hconsistent
    · rw [filter_append, hid, (h.settled r hmem).reported, hgenerated]
      simp [htoken]
  have hkept : ∀ x ∈ v.requests.values ++ hand, Settled (v.generated ++ [token]) x := by
    intro x hx
    have hx' : x ∈ v.requests.values ++ r :: hand := by
      simp only [mem_append, mem_cons] at hx ⊢
      tauto
    have hsame := h.settled x hx'
    have hne : ¬ token.requestId = x.id := by
      rw [htoken]
      exact (hother x hx).symm
    constructor
    · exact hsame.consistent
    · rw [filter_append, hsame.reported]
      simp [hne]
  have hids : (v.requests.values ++ r' :: hand).map Request.id =
      (v.requests.values ++ r :: hand).map Request.id := by
    rw [map_append, map_append, map_cons, map_cons, hid]
  exact {
    h with
    ids := hids ▸ h.ids
    known := fun x hx => by
      simp only [mem_append, mem_cons] at hx
      obtain hx | rfl | hx := hx
      · exact h.known x (mem_append_left _ hx)
      · exact hid ▸ hknown
      · exact h.known x (mem_append_right _ (mem_cons_of_mem _ hx))
    owned := howned
    distinct := by
      obtain ⟨l, hperm, hsub⟩ := hpool
      exact hperm.nodup_iff.mp (h.distinct.sublist hsub)
    allocated := fun x hx => h.allocated x (hpool.subset hx)
    settled := fun x hx => by
      simp only [mem_append, mem_cons] at hx
      obtain hx | rfl | hx := hx
      · exact hkept x (mem_append_left _ hx)
      · exact hsettled
      · exact hkept x (mem_append_right _ hx)
    told := fun other hother => by
      obtain hother | hother := mem_append.mp hother
      · exact h.told other hother
      · rw [mem_singleton.mp hother, htoken]
        exact hknown
  }

/-- A request in hand that owns no sequence gets a new one. -/
theorem Sound.assign (r' : Request) (hid : r'.id = r.id)
    (hnone : r.sequenceId = none) (hsome : r'.sequenceId = some v.nextSequenceId)
    (hsettled : Settled v.generated r') (hpool : pool.Perm (v.nextSequenceId :: v.pool)) :
    Sound { v with pool := pool, nextSequenceId := v.nextSequenceId + 1 } (r' :: hand) popped := by
  have hclaim : Balanced sequencesOf v.requests (r' :: hand) pool := by
    have hchanged : Balanced sequencesOf v.requests (r' :: hand) (sequencesOf r' ++ v.pool) := by
      apply Balanced.change (v := r)
      rw [sequencesOf, hnone]
      exact h.owned
    rw [sequencesOf, hsome] at hchanged
    exact hchanged.perm (List.Perm.refl _) hpool.symm
  have hmem : r ∈ v.requests.values ++ r :: hand := mem_append_right _ mem_cons_self
  have hids : (v.requests.values ++ r' :: hand).map Request.id =
      (v.requests.values ++ r :: hand).map Request.id := by
    rw [map_append, map_append, map_cons, map_cons, hid]
  have hother : ∀ {x : Request}, x ∈ v.requests.values ++ r' :: hand →
      x = r' ∨ x ∈ v.requests.values ++ r :: hand := by
    intro x hx
    simp only [mem_append, mem_cons] at hx ⊢
    tauto
  exact {
    h with
    ids := hids ▸ h.ids
    known := fun x hx => by
      obtain rfl | hx := hother hx
      · exact hid ▸ h.known r hmem
      · exact h.known x hx
    owned := hclaim
    distinct := by
      rw [hpool.nodup_iff, nodup_cons]
      exact ⟨fun hold => Nat.lt_irrefl _ (h.allocated _ hold), h.distinct⟩
    allocated := fun x hx => by
      rw [hpool.mem_iff, mem_cons] at hx
      obtain rfl | hx := hx
      · exact Nat.lt_succ_self _
      · exact Nat.lt_succ_of_lt (h.allocated x hx)
    settled := fun x hx => by
      obtain rfl | hx := hother hx
      · exact hsettled
      · exact h.settled x hx
  }

/-- A request that the system lets go, with the sequence it owned. -/
theorem Sound.drop (hpool : v.pool.Perm (sequencesOf r ++ pool)) :
    Sound { v with pool := pool } hand popped := by
  have hsub : (v.requests.values ++ hand).Sublist (v.requests.values ++ r :: hand) :=
    (sublist_cons_self r hand).append_left _
  have hnodup := hpool.nodup_iff.mp h.distinct
  exact {
    h with
    ids := h.ids.sublist (hsub.map _)
    known := fun x hx => h.known x (hsub.subset hx)
    owned := (h.owned.perm (List.Perm.refl _) hpool).drop
    distinct := (nodup_append.mp hnodup).2.1
    allocated := fun x hx => h.allocated x (hpool.mem_iff.mpr (mem_append_right _ hx))
    settled := fun x hx => h.settled x (hsub.subset hx)
  }

end

theorem Sound.join (h : Sound v hand popped) (hid : r.id = v.nextId) (hnone : r.sequenceId = none)
    (hconsistent : Consistent r) (hgenerated : r.generatedTokens = []) :
    Sound { v with nextId := v.nextId + 1 } (r :: hand) popped := by
  have hall : (v.requests.values ++ r :: hand).Perm (r :: (v.requests.values ++ hand)) :=
    perm_middle
  have hfilter : v.generated.filter (fun token => token.requestId = r.id) = [] := by
    rw [filter_eq_nil_iff]
    intro token htoken
    have hlt := h.told token htoken
    rw [decide_eq_true_eq]
    intro heq
    rw [heq, hid] at hlt
    exact Nat.lt_irrefl _ hlt
  exact {
    h with
    ids := by
      rw [(hall.map _).nodup_iff, map_cons, nodup_cons]
      constructor
      · intro hmem
        obtain ⟨x, hx, heq⟩ := mem_map.mp hmem
        have hlt := h.known x hx
        omega
      · exact h.ids
    known := fun x hx => by
      obtain rfl | hx := mem_cons.mp (hall.mem_iff.mp hx)
      · simp only [hid, Nat.lt_succ_self]
      · exact Nat.lt_succ_of_lt (h.known x hx)
    owned := by
      have hadded := h.owned.add (v := r)
      rwa [sequencesOf, hnone] at hadded
    settled := fun x hx => by
      obtain rfl | hx := mem_cons.mp (hall.mem_iff.mp hx)
      · exact ⟨hconsistent, by rw [hfilter, hgenerated]⟩
      · exact h.settled x hx
    told := fun token htoken => Nat.lt_succ_of_lt (h.told token htoken)
  }

end

/-! ## Calls -/

section
variable {γ : Type} {s : Scheduler S C} {Q : γ → Scheduler S C → Prop} {P : Scheduler S C → Prop}
variable {model : TextModel S C} {input : TickInput} {f : Unit → Scheduling S C γ}

theorem reach_bind {site : Site} {call : String}
    (hok : Ensures (f ()) s Q (OnFailure P)) (hfails : input.fails site = false) :
    Ensures (reach model input site call >>= f) s Q (OnFailure P) := by
  rw [Step37.reach, hfails]
  exact hok

theorem reachWhen_bind {needed : Bool} {site : Site} {call : String}
    (hok : Ensures (f ()) s Q (OnFailure P)) (hfails : input.fails site = false) :
    Ensures (reachWhen needed model input site call >>= f) s Q (OnFailure P) := by
  cases needed with
  | true => exact reach_bind hok hfails
  | false => exact hok

theorem takeRequest_bind {id : Nat} {message : String} {f : Request → Scheduling S C γ}
    (h : ∀ r, s.requests.get id = some r →
      Ensures (f r) { s with requests := s.requests.erase id } Q (OnFailure P)) :
    Ensures (takeRequest id message >>= f) s Q (OnFailure P) := by
  unfold takeRequest
  rw [bind_assoc]
  apply get_bind
  rw [bind_assoc]
  apply expect_bind
  intro r hr
  exact h r hr

theorem releaseSequence_bind {id : Nat} {f : S → Scheduling S C γ} (hmem : id ∈ s.sequences.keys)
    (h : ∀ sequence, s.sequences.get id = some sequence →
      Ensures (f sequence) { s with sequences := s.sequences.erase id } Q (OnFailure P)) :
    Ensures (releaseSequence id >>= f) s Q (OnFailure P) := by
  unfold releaseSequence
  rw [bind_assoc]
  apply get_bind
  rw [mem_keys_iff] at hmem
  cases hget : s.sequences.get id with
  | none =>
    rw [hget] at hmem
    cases hmem
  | some sequence => exact h sequence hget

theorem insertSequence_bind {sequence : S} {f : Nat → Scheduling S C γ}
    (hspace : s.nextSequenceId + 1 < 2 ^ 64)
    (h : Ensures (f s.nextSequenceId) { s with
      sequences := s.sequences.insert s.nextSequenceId sequence
      nextSequenceId := s.nextSequenceId + 1 } Q (OnFailure P)) :
    Ensures (insertSequence sequence >>= f) s Q (OnFailure P) := by
  unfold insertSequence
  rw [bind_assoc]
  apply get_bind
  rw [if_pos hspace]
  exact h

end

theorem keys_endLease {pool : BTreeMap Nat S} {ids : List Nat} {entries : List S}
    (h : ∀ id ∈ ids, id ∈ pool.keys) : (endLease pool ids entries).keys = pool.keys := by
  induction ids generalizing pool entries with
  | nil => rfl
  | cons id ids ih =>
    cases entries with
    | nil => rfl
    | cons entry entries =>
      have hmem := h id mem_cons_self
      rw [mem_keys_iff, Option.isSome_iff_exists] at hmem
      obtain ⟨old, hold⟩ := hmem
      have hkeys : (pool.insert id entry).keys = pool.keys := keys_insert_of_mem hold
      have hstep : endLease pool (id :: ids) (entry :: entries) =
          endLease (pool.insert id entry) ids entries := rfl
      rw [hstep, ih, hkeys]
      intro other hother
      rw [hkeys]
      exact h other (mem_cons_of_mem _ hother)

/-! ## Admission -/

section
variable {model : TextModel S C} {input : TickInput} {s : Scheduler S C}
variable {log : List ScheduledToken} {P : Scheduler S C → Prop}

/-- No call of an admission fails. -/
structure Admits (input : TickInput) : Prop where
  newSequenceState : ∀ id, input.fails (.newSequenceState id) = false
  newPageTable : ∀ id, input.fails (.newPageTable id) = false
  deviceTokenCounts : ∀ id, input.fails (.deviceTokenCounts id) = false
  admission : ∀ id, input.fails (.admission id) = false
  admissionSynchronize : ∀ id, input.fails (.admissionSynchronize id) = false
  insertSequence : ∀ id, input.fails (.insertSequence id) = false

/-- A waiting request whose place was popped gets a sequence and joins the prefilling
queue. -/
theorem Sound.install {v : View} {id : Nat} {r r' : Request} (h : Sound v [] [id])
    (hget : v.requests.get id = some r) (hwaiting : r.lifecycle = .waiting) (hid : r'.id = r.id)
    (hsome : r'.sequenceId = some v.nextSequenceId) (hlifecycle : r'.lifecycle = .prefilling)
    (hgenerated : r'.generatedTokens = r.generatedTokens)
    (hpool : pool.Perm (v.nextSequenceId :: v.pool)) :
    Sound { v with
      requests := v.requests.insert id r'
      prefilling := v.prefilling ++ [id]
      pool := pool
      nextSequenceId := v.nextSequenceId + 1 } [] [] := by
  obtain ⟨hkey, hsettled, -⟩ := h.of_get hget
  have hunfinished : r.lifecycle ≠ .finished := by
    rw [hwaiting]
    decide
  have hsettled' : Settled v.generated r' := by
    constructor
    · constructor
      · rw [hlifecycle]
        rintro (hcase | hcase) <;> cases hcase
      · intro _
        rw [hsome]
        rfl
      · rw [hlifecycle]
        intro hcase
        cases hcase
    · rw [hid, hsettled.reported, hgenerated]
  have hassigned := (h.take hget hunfinished).assign r' hid
    (hsettled.consistent.unadmitted (.inl hwaiting)) hsome hsettled' hpool
  have hput := hassigned.put
  have hslot : slot r' = [id] := by
    rw [slot, hlifecycle, hid, hkey]
    rfl
  rw [hslot, hid, hkey] at hput
  rw [insert_erase] at hput
  have hnew : ∀ x ∈ v.prefilling ++ [id], x ∈ v.prefilling ∨
      ∀ y, (v.requests.insert id r').get x = some y → y.lifecycle = .prefilling := by
    intro x hx
    obtain hx | hx := mem_append.mp hx
    · exact .inl hx
    · right
      intro y hy
      rw [mem_singleton.mp hx, get_insert_self] at hy
      cases hy
      exact hlifecycle
  refine hput.requeue v.waiting (v.prefilling ++ [id]) v.decoding [] ?_ (fun _ hx => .inl hx) hnew
    fun _ hx => .inl hx
  simp only [View.queues, perm_iff_count, count_append, count_nil]
  intro x
  omega

theorem Sound.get_nextSequenceId {v : View} {hand : List Request} {popped : List Nat}
    (h : Sound v hand popped) {m : BTreeMap Nat S} (hpool : v.pool = m.keys) : m.get v.nextSequenceId = none := by
  cases hold : m.get v.nextSequenceId with
  | none => rfl
  | some sequence =>
    have hmem : v.nextSequenceId ∈ v.pool := by
      rw [hpool, mem_keys_iff, hold]
      rfl
    exact absurd (h.allocated _ hmem) (Nat.lt_irrefl _)

theorem installRequest_ensures {request : Request} {cacheId cached id : Nat}
    (hadmits : Admits input) (h : Sound (viewOf log s) [] [id])
    (hget : s.requests.get id = some request) (hwaiting : request.lifecycle = .waiting)
    (hspace : s.nextSequenceId + 1 < 2 ^ 64) :
    Ensures (installRequest model input request cacheId cached) s
      (fun _ t => Sound (viewOf log t) [] [] ∧ t.tick.generated = s.tick.generated ∧
        t.waiting = s.waiting ∧ t.nextSequenceId = s.nextSequenceId + 1) (OnFailure P) := by
  obtain rfl := (h.of_get hget).1
  have hfresh : s.sequences.get s.nextSequenceId = none := h.get_nextSequenceId rfl
  refine reach_bind ?_ (hadmits.admissionSynchronize _)
  apply modify_bind
  refine reach_bind ?_ (hadmits.insertSequence _)
  refine insertSequence_bind hspace ?_
  apply modify_bind
  apply Ensures.modify
  refine ⟨?_, rfl, rfl, rfl⟩
  simp only [viewOf, insert_insert]
  exact h.install hget hwaiting rfl rfl rfl rfl (keys_insert_perm hfresh)

theorem admitRequest_ensures {id : Nat} (hadmits : Admits input) (h : Sound (viewOf log s) [] [id])
    (hwaiting : ∀ r, s.requests.get id = some r → r.lifecycle = .waiting)
    (hspace : s.nextSequenceId + 1 < 2 ^ 64) :
    Ensures (admitRequest model input id) s
      (fun goes t => Sound (viewOf log t) [] [] ∧ t.tick.generated = s.tick.generated ∧
        (goes = true → t.waiting = s.waiting ∧ t.nextSequenceId = s.nextSequenceId + 1))
      (OnFailure P) := by
  apply get_bind
  apply expect_bind
  intro request hget
  have hlifecycle := hwaiting request hget
  apply get_bind
  apply modify_bind
  refine reach_bind ?_ (hadmits.newSequenceState _)
  refine reach_bind ?_ (hadmits.newPageTable _)
  refine reachWhen_bind ?_ (hadmits.deviceTokenCounts _)
  refine reach_bind ?_ (hadmits.admission _)
  apply get_bind
  apply modify_bind
  split
  · apply modify_bind
    refine ⟨?_, rfl, fun hgoes => by cases hgoes⟩
    have hlookup : ∀ x ∈ id :: s.waiting, x ∈ s.waiting ∨
        ∀ r, s.requests.get x = some r → r.lifecycle = .waiting := by
      intro x hx
      obtain rfl | hx := mem_cons.mp hx
      · exact .inr hwaiting
      · exact .inl hx
    refine h.requeue (id :: s.waiting) s.prefilling s.decoding [] ?_ hlookup (fun _ hx => .inl hx)
      fun _ hx => .inl hx
    simp only [View.queues, viewOf, perm_iff_count, count_append, count_cons, count_nil]
    intro x
    omega
  · refine Ensures.bind (installRequest_ensures hadmits h hget hlifecycle hspace) fun _ t ht => ?_
    exact ⟨ht.1, ht.2.1, fun _ => ht.2.2⟩

theorem admitLoop_ensures (turns : Nat) (hadmits : Admits input) (h : Sound (viewOf log s) [] [])
    (hspace : s.nextSequenceId + s.waiting.length < 2 ^ 64) :
    Ensures (admitLoop model input turns) s
      (fun _ t => Sound (viewOf log t) [] [] ∧ t.tick.generated = s.tick.generated)
      (OnFailure P) := by
  induction turns generalizing s with
  | zero => exact ⟨h, rfl⟩
  | succ turns ih =>
    apply get_bind
    split
    · split
      · exact ⟨h, rfl⟩
      · rename_i id rest hqueue
        apply set_bind
        have hmem : id ∈ s.waiting := by simp [hqueue]
        have hpopped : Sound (viewOf log { s with waiting := rest }) [] [id] := by
          have hold : ∀ x ∈ rest, x ∈ s.waiting ∨
              ∀ r, s.requests.get x = some r → r.lifecycle = .waiting := fun x hx => .inl (by
            rw [hqueue]
            exact mem_cons_of_mem _ hx)
          refine h.requeue rest s.prefilling s.decoding [id] ?_ hold (fun _ hx => .inl hx)
            fun _ hx => .inl hx
          simp only [View.queues, viewOf, hqueue, perm_iff_count, count_append,
            count_cons, count_nil]
          intro x
          omega
        rw [hqueue, length_cons] at hspace
        have hroom : s.nextSequenceId + 1 < 2 ^ 64 := by omega
        refine Ensures.bind (admitRequest_ensures hadmits hpopped
          (fun r hget => h.waiting id hmem r hget) hroom) fun goes t ht => ?_
        cases goes with
        | false => exact ⟨ht.1, ht.2.1⟩
        | true =>
          obtain ⟨hwaiting, hnext⟩ := ht.2.2 rfl
          refine (ih ht.1 ?_).imp fun _ u hu => ⟨hu.1, hu.2.trans ht.2.1⟩
          rw [hwaiting, hnext]
          dsimp only
          omega
    · exact ⟨h, rfl⟩

theorem admitWaiting_ensures (hadmits : Admits input) (h : Sound (viewOf log s) [] [])
    (hspace : s.nextSequenceId + s.waiting.length < 2 ^ 64) :
    Ensures (admitWaiting model input) s
      (fun _ t => Sound (viewOf log t) [] [] ∧ t.tick.generated = s.tick.generated) (OnFailure P) :=
  admitLoop_ensures _ hadmits h hspace

end

/-! ## Decode -/

section
variable {model : TextModel S C} {input : TickInput} {s : Scheduler S C}
variable {log : List ScheduledToken} {P : Scheduler S C → Prop} {hand : List Request} {r : Request}

/-- A request that the phase may decode: it goes on decoding, or stands before its last
prompt token. -/
def Decodable (r : Request) : Prop :=
  r.lifecycle = .decoding ∨ r.lifecycle = .prefilling ∧ r.remainingPromptTokens = 1

theorem Decodable.unfinished (h : Decodable r) : r.lifecycle ≠ .finished := by
  obtain h | ⟨h, -⟩ := h <;> rw [h] <;> decide

theorem selectDecoding_ensures (rows : Nat) (h : Sound (viewOf log s) hand []) :
    Ensures (selectDecoding rows) s
      (fun selected t => Sound (viewOf log t) (selected ++ hand) [] ∧ t.tick = s.tick ∧
        ∀ r ∈ selected, Decodable r) (OnFailure P) := by
  induction rows generalizing s hand with
  | zero => exact ⟨h, rfl, forall_mem_nil _⟩
  | succ rows ih =>
    apply get_bind
    split
    · exact ⟨h, rfl, forall_mem_nil _⟩
    · rename_i id rest hqueue
      apply modify_bind
      apply takeRequest_bind
      intro r hget
      have hlifecycle := h.decoding id (by simp [viewOf, hqueue]) r hget
      have hdecodable : Decodable r := .inl hlifecycle
      have hpopped : Sound (viewOf log { s with decoding := rest }) hand [id] := by
        refine h.requeue s.waiting s.prefilling rest [id] ?_ (fun _ hx => .inl hx)
          (fun _ hx => .inl hx) fun x hx => .inl ?_
        · simp only [View.queues, viewOf, hqueue, perm_iff_count, count_append,
            count_cons, count_nil]
          intro x
          omega
        · simp only [viewOf, hqueue]
          exact mem_cons_of_mem _ hx
      have htaken := hpopped.take hget hdecodable.unfinished
      refine Ensures.bind (ih htaken) fun selected t ht => ?_
      refine ⟨ht.1.perm perm_middle.symm (List.Perm.refl _), ht.2.1, ?_⟩
      exact forall_mem_cons.mpr ⟨hdecodable, ht.2.2⟩

theorem Sound.rotatePrefilling {id : Nat} {rest popped : List Nat}
    (h : Sound (viewOf log s) hand popped) (hqueue : s.prefilling = id :: rest) :
    Sound (viewOf log { s with prefilling := rest ++ [id] }) hand popped := by
  refine h.requeue s.waiting (rest ++ [id]) s.decoding popped ?_ (fun _ hx => .inl hx)
    (fun x hx => .inl ?_) fun _ hx => .inl hx
  · simp only [View.queues, viewOf, hqueue, perm_iff_count, count_append, count_cons, count_nil]
    intro x
    omega
  · simp only [viewOf, hqueue, mem_cons]
    simp only [mem_append, mem_singleton] at hx
    tauto

theorem Sound.popPrefilling {id : Nat} {rest popped : List Nat}
    (h : Sound (viewOf log s) hand popped) (hqueue : s.prefilling = id :: rest) :
    Sound (viewOf log { s with prefilling := rest }) hand (id :: popped) := by
  refine h.requeue s.waiting rest s.decoding (id :: popped) ?_ (fun _ hx => .inl hx)
    (fun x hx => .inl ?_) fun _ hx => .inl hx
  · simp only [View.queues, viewOf, hqueue, perm_iff_count, count_append, count_cons]
    intro x
    omega
  · simp only [viewOf, hqueue]
    exact mem_cons_of_mem _ hx

theorem scanPrefilling_ensures (scan : Nat) {selected : List Request}
    (h : Sound (viewOf log s) selected []) (hdecodable : ∀ r ∈ selected, Decodable r) :
    Ensures (scanPrefilling scan selected) s
      (fun selected t => Sound (viewOf log t) selected [] ∧ t.tick = s.tick ∧
        ∀ r ∈ selected, Decodable r) (OnFailure P) := by
  induction scan generalizing s selected with
  | zero => exact ⟨h, rfl, hdecodable⟩
  | succ scan ih =>
    apply get_bind
    split
    · exact ⟨h, rfl, hdecodable⟩
    · rename_i id rest hqueue
      have hturned := h.rotatePrefilling hqueue
      split
      · apply expect_bind
        intro r hget
        split
        · rename_i hremaining
          apply set_bind
          have hlifecycle := h.prefilling id (by simp [viewOf, hqueue]) r hget
          have hr : Decodable r := .inr ⟨hlifecycle, hremaining⟩
          have htaken := (h.popPrefilling hqueue).take hget hr.unfinished
          refine ih (htaken.perm (perm_append_singleton r selected) (List.Perm.refl _)) ?_
          exact forall_mem_append.mpr ⟨hdecodable, forall_mem_singleton.mpr hr⟩
        · exact set_bind (ih hturned hdecodable)
      · exact set_bind (ih hturned hdecodable)

theorem selectBatch_ensures (h : Sound (viewOf log s) [] []) :
    Ensures selectBatch s
      (fun selected t => Sound (viewOf log t) selected [] ∧ t.tick = s.tick ∧
        ∀ r ∈ selected, Decodable r) (OnFailure P) := by
  apply get_bind
  refine Ensures.bind (selectDecoding_ensures _ h) fun selected t ht => ?_
  apply get_bind
  have hsound := ht.1
  rw [append_nil] at hsound
  refine (scanPrefilling_ensures _ hsound ht.2.2).imp fun _ u hu => ?_
  exact ⟨hu.1, hu.2.1.trans ht.2.1, hu.2.2⟩

theorem caught_ensures {call : Scheduling S C α} {Q : α → Scheduler S C → Prop}
    {R : Scheduler S C → Prop} (h : Ensures call s Q (OnFailure R)) :
    Ensures (caught call) s (fun result t => match result with
      | .ok a => Q a t
      | .error _ => R t) (OnFailure P) := by
  unfold Ensures at h ⊢
  unfold caught
  cases hrun : call s with
  | ok a t =>
    rw [hrun] at h
    exact h
  | error fault t =>
    rw [hrun] at h
    cases fault with
    | failed e => exact h
    | panicked message => exact trivial

theorem decodeInputToken_ok (h : Decodable r) (hconsistent : Consistent r) :
    ∃ token, r.decodeInputToken = .ok token := by
  unfold Request.decodeInputToken
  split
  · exact ⟨_, rfl⟩
  · rename_i hremaining
    obtain hdecoding | ⟨-, hone⟩ := h
    · obtain ⟨token, htoken⟩ := Option.isSome_iff_exists.mp (hconsistent.decoding hdecoding)
      rw [htoken]
      exact ⟨token, rfl⟩
    · exact absurd hone hremaining

theorem Sound.sequence_mem {popped : List Nat}
    (h : Sound (viewOf log s) hand popped) (hr : r ∈ hand) (hdecodable : Decodable r) :
    ∃ sequenceId sequence, r.sequenceId = some sequenceId ∧
      s.sequences.get sequenceId = some sequence := by
  have hconsistent := (h.settled r (mem_append_right _ hr)).consistent
  have hsome : r.sequenceId.isSome := hconsistent.admitted (by
    obtain hdecoding | ⟨hprefilling, -⟩ := hdecodable
    · exact .inr hdecoding
    · exact .inl hprefilling)
  obtain ⟨sequenceId, hid⟩ := Option.isSome_iff_exists.mp hsome
  have hmem : sequenceId ∈ s.sequences.keys := h.owned.mem_hand hr (by simp [sequencesOf, hid])
  rw [mem_keys_iff, Option.isSome_iff_exists] at hmem
  obtain ⟨sequence, hsequence⟩ := hmem
  exact ⟨sequenceId, sequence, hid, hsequence⟩

theorem executeDecode_ensures (h : Sound (viewOf log s) hand []) (hr : r ∈ hand)
    (hdecodable : Decodable r) :
    Ensures (executeDecode model input r) s
      (fun _ t => viewOf log t = viewOf log s ∧ t.tick = s.tick)
      (OnFailure fun t => viewOf log t = viewOf log s ∧ t.tick = s.tick ∧
        input.fails (.decodeOne r.id) = true) := by
  have hconsistent := (h.settled r (mem_append_right _ hr)).consistent
  obtain ⟨token, htoken⟩ := decodeInputToken_ok hdecodable hconsistent
  obtain ⟨sequenceId, sequence, hid, hsequence⟩ := h.sequence_mem hr hdecodable
  unfold executeDecode
  rw [htoken, hid, show attempt (.ok token) = (pure token : Scheduling S C Nat) from rfl, pure_bind]
  apply get_bind
  simp only [hsequence]
  have hkeys : ∀ entries : List S, (endLease s.sequences [sequenceId] entries).keys =
      s.sequences.keys := fun entries => keys_endLease fun other hother => by
    rw [mem_singleton.mp hother, mem_keys_iff, hsequence]
    rfl
  split
  · rename_i hfails
    apply set_bind
    refine ⟨?_, rfl, hfails⟩
    simp only [viewOf, hkeys]
  · apply set_bind
    refine ⟨?_, rfl⟩
    simp only [viewOf, keys_insert_of_mem hsequence]

theorem restoreRequest_ensures (h : Sound (viewOf log s) (r :: hand) [])
    (hdecodable : Decodable r) :
    Ensures (restoreRequest r) s (fun _ t => Sound (viewOf log t) hand [] ∧ t.tick = s.tick) E := by
  have hput := h.put
  have hslot : slot r = [r.id] := by
    rw [slot, if_neg hdecodable.unfinished]
  rw [hslot] at hput
  have hmine : ∀ y, (s.requests.insert r.id r).get r.id = some y → y = r := by
    intro y hy
    rw [get_insert_self] at hy
    exact (Option.some.inj hy).symm
  apply modify_bind
  apply Ensures.modify
  obtain hdecoding | ⟨hprefilling, -⟩ := hdecodable
  · rw [if_pos hdecoding]
    refine ⟨hput.requeue s.waiting s.prefilling (r.id :: s.decoding) [] ?_ (fun _ hx => .inl hx)
      (fun _ hx => .inl hx) fun x hx => ?_, rfl⟩
    · simp only [View.queues, viewOf, perm_iff_count, count_append, count_cons, count_nil]
      intro x
      omega
    · obtain rfl | hx := mem_cons.mp hx
      · exact .inr fun y hy => by rw [hmine y hy, hdecoding]
      · exact .inl hx
  · rw [if_neg (by rw [hprefilling]; decide)]
    refine ⟨hput.requeue s.waiting (r.id :: s.prefilling) s.decoding [] ?_ (fun _ hx => .inl hx)
      (fun x hx => ?_) fun _ hx => .inl hx, rfl⟩
    · simp only [View.queues, viewOf, perm_iff_count, count_append, count_cons, count_nil]
      intro x
      omega
    · obtain rfl | hx := mem_cons.mp hx
      · exact .inr fun y hy => by rw [hmine y hy, hprefilling]
      · exact .inl hx

theorem restore_ensures {batch : List Request} (h : Sound (viewOf log s) batch [])
    (hdecodable : ∀ r ∈ batch, Decodable r) :
    Ensures (batch.reverse.forM restoreRequest) s
      (fun _ t => Sound (viewOf log t) [] [] ∧ t.tick = s.tick) E := by
  have hloop : Ensures (batch.reverse.forM restoreRequest) s
      (fun _ t => Sound (viewOf log t) [] [] ∧ t.tick = s.tick ∧
        ∀ r ∈ ([] : List Request), Decodable r) E := by
    refine Ensures.forM (I := fun rest t => Sound (viewOf log t) rest [] ∧ t.tick = s.tick ∧
      ∀ r ∈ rest, Decodable r) (fun r rest t ht => ?_) ?_
    · obtain ⟨hr, hrest⟩ := forall_mem_cons.mp ht.2.2
      exact (restoreRequest_ensures ht.1 hr).imp fun _ u hu => ⟨hu.1, hu.2.trans ht.2.1, hrest⟩
    · exact ⟨h.perm (reverse_perm batch) (List.Perm.refl _), rfl,
        fun r hr => hdecodable r (mem_reverse.mp hr)⟩
  exact hloop.imp fun _ _ ht => ⟨ht.1, ht.2.1⟩

theorem settleRequest_ensures {sampled : Nat}
    (h : Sound (viewOf log s) (r :: hand) []) (hdecodable : Decodable r)
    (hfinish : ∀ id, input.fails (.finishSequence id) = false) :
    Ensures (settleRequest model input (r.applySample sampled).1) s
      (fun _ t => Sound (viewOf (log ++ [(r.applySample sampled).2]) t) hand [] ∧
        t.tick.generated = s.tick.generated) (OnFailure P) := by
  obtain ⟨sequenceId, sequence, hid, hsequence⟩ := h.sequence_mem mem_cons_self hdecodable
  have hperm := keys_erase_perm hsequence
  unfold settleRequest
  split
  · rename_i hfinished
    have hgone : Balanced sequencesOf s.requests
        ({ (r.applySample sampled).1 with sequenceId := none } :: hand)
        (s.sequences.erase sequenceId).keys := by
      apply Balanced.change (v := r)
      rw [sequencesOf, hid]
      exact h.owned.perm (List.Perm.refl _) hperm
    have hconsistent : Consistent { (r.applySample sampled).1 with sequenceId := none } := by
      constructor
      · exact fun _ => rfl
      · rw [hfinished]
        rintro (hcase | hcase) <;> cases hcase
      · rw [hfinished]
        intro hcase
        cases hcase
    have hpool : (s.sequences.erase sequenceId).keys.Subperm s.sequences.keys :=
      ((sublist_cons_self _ _).subperm).trans hperm.symm.subperm
    have hsampled := h.sample { (r.applySample sampled).1 with sequenceId := none }
      (r.applySample sampled).2 rfl rfl rfl hconsistent hgone hpool
    have hput := hsampled.put
    have hslot : slot { (r.applySample sampled).1 with sequenceId := none } = [] := by
      rw [slot, if_pos hfinished]
    rw [hslot] at hput
    apply expect_bind
    intro sequenceId' hid'
    obtain rfl : sequenceId' = sequenceId := Option.some.inj (hid'.symm.trans hid)
    refine releaseSequence_bind (by rw [mem_keys_iff, hsequence]; rfl) fun _ _ => ?_
    apply modify_bind
    refine reach_bind ?_ (hfinish _)
    apply modify_bind
    apply Ensures.modify
    exact ⟨hput, rfl⟩
  · rename_i hunfinished
    have hlifecycle : (r.applySample sampled).1.lifecycle = .decoding := by
      simp only [Request.applySample] at hunfinished ⊢
      split at hunfinished
      · exact absurd rfl hunfinished
      · rename_i hnone
        rw [if_neg hnone]
    have hconsistent : Consistent (r.applySample sampled).1 := by
      constructor
      · rw [hlifecycle]
        rintro (hcase | hcase) <;> cases hcase
      · intro _
        change r.sequenceId.isSome
        rw [hid]
        rfl
      · exact fun _ => rfl
    have hkept : Balanced sequencesOf s.requests ((r.applySample sampled).1 :: hand)
        s.sequences.keys := h.owned.same rfl
    have hput := (h.sample (r.applySample sampled).1 (r.applySample sampled).2 rfl rfl rfl hconsistent hkept
      (List.Subperm.refl _)).put
    have hslot : slot (r.applySample sampled).1 = [r.id] := by
      rw [slot, if_neg hunfinished]
      rfl
    rw [hslot] at hput
    apply modify_bind
    apply Ensures.modify
    refine ⟨hput.requeue s.waiting s.prefilling (s.decoding ++ [r.id]) [] ?_ (fun _ hx => .inl hx)
      (fun _ hx => .inl hx) fun x hx => ?_, rfl⟩
    · simp only [View.queues, viewOf, perm_iff_count, count_append, count_nil]
      intro x
      omega
    · obtain hx | hx := mem_append.mp hx
      · exact .inl hx
      · right
        intro y hy
        rw [mem_singleton.mp hx] at hy
        have hy' : some (r.applySample sampled).1 = some y := by
          rw [← hy]
          exact (get_insert_self _ _ _).symm
        cases hy'
        exact hlifecycle

/-- The loop over the batch: only its first request may fail, before a token is reported. -/
theorem decodeSelected_ensures {batch : List Request}
    (h : Sound (viewOf (log ++ s.tick.generated) s) batch []) (hdecodable : ∀ r ∈ batch, Decodable r)
    (hfinish : ∀ id, input.fails (.finishSequence id) = false)
    (hfirst : s.tick.generated = [] ∨ ∀ r ∈ batch, input.fails (.decodeOne r.id) = false)
    (hbehind : ∀ r ∈ batch.tail, input.fails (.decodeOne r.id) = false) :
    Ensures (decodeSelected model input batch) s
      (fun _ t => Sound (viewOf (log ++ t.tick.generated) t) [] [] ∧
        (batch = [] → t.tick.generated = s.tick.generated))
      (OnFailure fun t => Sound (viewOf log t) [] []) := by
  induction batch generalizing s with
  | nil => exact ⟨h, fun _ => rfl⟩
  | cons r rest ih =>
    obtain ⟨hr, hrest⟩ := forall_mem_cons.mp hdecodable
    apply modify_bind
    refine Ensures.bind (caught_ensures
      (executeDecode_ensures (s := { s with
        tick := { s.tick with scheduled := s.tick.scheduled ++ [r.id] } })
        h mem_cons_self hr)) fun result t ht => ?_
    cases result with
    | error e =>
      obtain ⟨hview, htick, hfails⟩ := ht
      have hnone : s.tick.generated = [] := by
        obtain hnone | hall := hfirst
        · exact hnone
        · rw [hall r mem_cons_self] at hfails
          cases hfails
      have hsound : Sound (viewOf (log ++ s.tick.generated) t) (r :: rest) [] := hview ▸ h
      rw [hnone, append_nil] at hsound
      refine (restore_ensures hsound hdecodable).bind fun _ u hu => ?_
      exact hu.1
    | ok sampled =>
      obtain ⟨hview, htick⟩ := ht
      have hgenerated : t.tick.generated = s.tick.generated := by rw [htick]
      have hsound : Sound (viewOf (log ++ s.tick.generated) t) (r :: rest) [] := hview ▸ h
      apply modify_bind
      refine (settleRequest_ensures (P := fun t => Sound (viewOf log t) [] [])
        (s := { t with tick := { t.tick with
          generated := t.tick.generated ++ [(r.applySample sampled).2] } })
        hsound hr hfinish).bind fun _ u hu => ?_
      have hreported : u.tick.generated = s.tick.generated ++ [(r.applySample sampled).2] := by
        rw [hu.2, hgenerated]
      refine (ih ?_ hrest (.inr hbehind) fun x hx => hbehind x (mem_of_mem_tail hx)).imp
        fun _ w hw => ⟨hw.1, fun hcons => by cases hcons⟩
      rw [hreported, ← append_assoc]
      exact hu.1

end

/-! ## Prefill -/

section
variable {model : TextModel S C} {input : TickInput} {s : Scheduler S C}
variable {log : List ScheduledToken} {P : Scheduler S C → Prop} {hand : List Request}

theorem eligiblePrefills_ensures (ids : List Nat) (rows : Nat) :
    Ensures (eligiblePrefills ids rows) s (fun _ t => t = s) (OnFailure P) := by
  induction ids generalizing rows with
  | nil => exact rfl
  | cons id rest ih =>
    cases rows with
    | zero => exact rfl
    | succ rows =>
      apply get_bind
      apply expect_bind
      intro r _
      split
      · refine Ensures.bind (ih rows) fun _ t ht => ?_
        exact ht
      · exact ih (rows + 1)

theorem selectPrefill_ensures (scan slots tokenBudget : Nat) {popped : List Nat}
    (h : Sound (viewOf log s) hand popped) :
    Ensures (selectPrefill scan slots tokenBudget) s
      (fun selected t => Sound (viewOf log t) hand (selected.map fst ++ popped) ∧
        t.tick = s.tick ∧ t.requests = s.requests ∧ t.sequences = s.sequences ∧
        ∀ id ∈ selected.map fst, ∃ r, s.requests.get id = some r ∧ r.lifecycle = .prefilling)
      (OnFailure P) := by
  induction scan generalizing s slots tokenBudget popped with
  | zero => exact ⟨h, rfl, rfl, rfl, forall_mem_nil _⟩
  | succ scan ih =>
    unfold selectPrefill
    split
    · exact ⟨h, rfl, rfl, rfl, forall_mem_nil _⟩
    apply get_bind
    split
    · exact trivial
    · rename_i id rest hqueue
      apply get_bind
      apply expect_bind
      intro r hget
      split
      · apply modify_bind
        exact ih _ _ (h.rotatePrefilling hqueue)
      · have hlifecycle := h.prefilling id (by simp [viewOf, hqueue]) r hget
        apply modify_bind
        refine Ensures.bind (ih _ _ (h.popPrefilling hqueue)) fun selected t ht => ?_
        refine ⟨ht.1.perm (List.Perm.refl _) perm_middle.symm, ht.2.1, ht.2.2.1, ht.2.2.2.1, ?_⟩
        exact forall_mem_cons.mpr ⟨⟨r, hget, hlifecycle⟩, ht.2.2.2.2⟩

theorem takeRequests_ensures {message : String} (ids : List Nat) {popped : List Nat}
    (h : Sound (viewOf log s) hand (ids ++ popped))
    (hprefilling : ∀ id ∈ ids, ∃ r, s.requests.get id = some r ∧ r.lifecycle = .prefilling) :
    Ensures (takeRequests message ids) s
      (fun requests t => Sound (viewOf log t) (requests ++ hand) popped ∧ t.tick = s.tick ∧
        t.sequences = s.sequences ∧ requests.length = ids.length ∧
        ∀ r ∈ requests, r.lifecycle = .prefilling) (OnFailure P) := by
  induction ids generalizing s hand with
  | nil => exact ⟨h, rfl, rfl, rfl, forall_mem_nil _⟩
  | cons id rest ih =>
    have hnodup : id ∉ rest := by
      have hqueues := h.queues_nodup
      rw [cons_append, nodup_append, nodup_cons] at hqueues
      exact fun hmem => hqueues.2.1.1 (mem_append_left _ hmem)
    obtain ⟨⟨r, hget, hlifecycle⟩, hrest⟩ := forall_mem_cons.mp hprefilling
    apply takeRequest_bind
    intro r' hget'
    obtain rfl : r = r' := Option.some.inj (hget.symm.trans hget')
    have htaken := h.take hget (by rw [hlifecycle]; decide)
    refine Ensures.bind (ih htaken ?_) fun requests t ht => ?_
    · intro other hother
      obtain ⟨x, hx, hxl⟩ := hrest other hother
      have hne : other ≠ id := fun heq => hnodup (heq ▸ hother)
      exact ⟨x, by rwa [get_erase_of_ne _ hne], hxl⟩
    · refine ⟨ht.1.perm perm_middle.symm (List.Perm.refl _), ht.2.1, ht.2.2.1, ?_, ?_⟩
      · rw [length_cons, length_cons, ht.2.2.2.1]
      · exact forall_mem_cons.mpr ⟨hlifecycle, ht.2.2.2.2⟩

theorem exists_mapM {ε γ : Type} {f : α → Except ε γ} {xs : List α}
    (h : ∀ x ∈ xs, ∃ y, f x = .ok y) : ∃ ys, xs.mapM f = .ok ys := by
  induction xs with
  | nil => exact ⟨[], mapM_nil⟩
  | cons x xs ih =>
    obtain ⟨⟨y, hy⟩, hxs⟩ := forall_mem_cons.mp h
    obtain ⟨ys, hys⟩ := ih hxs
    refine ⟨y :: ys, ?_⟩
    rw [mapM_cons, hy, hys]
    rfl

/-- Distinct elements that share no relative have distinct relatives. -/
theorem nodup_of_forall₂ {γ : Type} {rel : α → γ → Prop} {xs : List α} {ys : List γ}
    (h : List.Forall₂ rel xs ys) (hnodup : xs.Nodup) (hinj : ∀ a b y, rel a y → rel b y → a = b) :
    ys.Nodup := by
  induction h with
  | nil => exact nodup_nil
  | cons hhead htail ih =>
    rename_i x y xs ys
    obtain ⟨hx, hxs⟩ := nodup_cons.mp hnodup
    refine nodup_cons.mpr ⟨fun hy => ?_, ih hxs⟩
    have hne : ∀ z ∈ ys, z ≠ y := by
      refine forall_mem_of_forall₂ (p := fun a => a ∈ xs) htail (fun _ ha => ha) ?_
      rintro a z hrel ha rfl
      exact hx (hinj a x z hrel hhead ▸ ha)
    exact hne y hy rfl

/-- The sequences of distinct admitted requests can be leased together. -/
theorem Sound.lease {ids popped : List Nat} (h : Sound (viewOf log s) [] (ids ++ popped))
    (hprefilling : ∀ id ∈ ids, ∃ r, s.requests.get id = some r ∧ r.lifecycle = .prefilling) :
    ∃ sequenceIds entries, ids.mapM (sequenceIdOf s.requests) = .ok sequenceIds ∧
      leaseMany s.sequences sequenceIds = .ok entries ∧ ∀ id ∈ sequenceIds, id ∈ s.sequences.keys := by
  have hnodup : ids.Nodup := by
    have hqueues := h.queues_nodup
    rw [nodup_append] at hqueues
    exact (nodup_append.mp hqueues.2.1).1
  obtain ⟨sequenceIds, hids⟩ : ∃ sequenceIds, ids.mapM (sequenceIdOf s.requests) = .ok sequenceIds := by
    apply exists_mapM
    intro id hid
    obtain ⟨r, hget, hlifecycle⟩ := hprefilling id hid
    have hsome := (h.of_get hget).2.1.consistent.admitted (.inl hlifecycle)
    obtain ⟨sequenceId, hsequence⟩ := Option.isSome_iff_exists.mp hsome
    exact ⟨sequenceId, by simp [sequenceIdOf, hget, hsequence]⟩
  have howners : List.Forall₂ (fun id sequenceId => ∃ r, s.requests.get id = some r ∧
      r.sequenceId = some sequenceId) ids sequenceIds := by
    refine (mapM_ok hids).imp fun id sequenceId hok => ?_
    unfold sequenceIdOf at hok
    split at hok
    · rename_i found hfound
      cases hok
      obtain ⟨r, hget, hr⟩ := Option.bind_eq_some_iff.mp hfound
      exact ⟨r, hget, hr⟩
    · cases hok
  have hmem : ∀ id ∈ sequenceIds, id ∈ s.sequences.keys := by
    refine forall_mem_of_forall₂ howners (fun _ _ => trivial) fun id sequenceId howner _ => ?_
    obtain ⟨r, hget, hr⟩ := howner
    exact h.owned.mem hget (by simp [sequencesOf, hr])
  have hdistinct : sequenceIds.Nodup := by
    refine nodup_of_forall₂ howners hnodup fun a b sequenceId ha hb => ?_
    obtain ⟨r, hget, hr⟩ := ha
    obtain ⟨x, hx, hxr⟩ := hb
    have hin : sequenceId ∈ s.sequences.keys := h.owned.mem hget (by simp [sequencesOf, hr])
    exact (h.owned.existsUnique h.distinct hin).unique ⟨r, hget, by simp [sequencesOf, hr]⟩
      ⟨x, hx, by simp [sequencesOf, hxr]⟩
  obtain ⟨entries, hentries⟩ : ∃ entries, leaseMany s.sequences sequenceIds = .ok entries := by
    unfold leaseMany
    rw [if_pos hdistinct]
    apply exists_mapM
    intro id hid
    have hsome := hmem id hid
    rw [mem_keys_iff, Option.isSome_iff_exists] at hsome
    obtain ⟨sequence, hsequence⟩ := hsome
    exact ⟨sequence, by rw [hsequence]⟩
  exact ⟨sequenceIds, entries, hids, hentries, hmem⟩

/-- Retaining a checkpoint marks the request and changes contents only. -/
theorem retainRequestCheckpoint_ensures (log : List ScheduledToken) {r : Request} :
    Ensures (retainRequestCheckpoint model r) s
      (fun r' t => viewOf log t = viewOf log s ∧ t.tick = s.tick ∧
        (r' = r ∨ r' = { r with prefixRetained := true })) (OnFailure P) := by
  unfold retainRequestCheckpoint
  split
  · exact ⟨rfl, rfl, .inl rfl⟩
  split
  · exact ⟨rfl, rfl, .inr rfl⟩
  split
  · exact ⟨rfl, rfl, .inl rfl⟩
  apply get_bind
  split
  · exact ⟨rfl, rfl, .inl rfl⟩
  rename_i sequenceId _ _ sequence hsequence
  split
  · exact ⟨rfl, rfl, .inl rfl⟩
  split
  · exact ⟨rfl, rfl, .inr rfl⟩
  apply set_bind
  refine ⟨?_, rfl, .inr rfl⟩
  simp only [viewOf, keys_insert_of_mem hsequence]

/-- A prefilling request in hand goes to either end of its queue. -/
theorem Sound.putPrefilling {r : Request} {queue : List Nat}
    (h : Sound (viewOf log s) (r :: hand) []) (hlifecycle : r.lifecycle = .prefilling)
    (hqueue : queue.Perm (r.id :: s.prefilling)) :
    Sound (viewOf log { s with
      prefilling := queue
      requests := s.requests.insert r.id r }) hand [] := by
  have hput := h.put
  have hslot : slot r = [r.id] := by
    rw [slot, hlifecycle]
    rfl
  rw [hslot] at hput
  refine hput.requeue s.waiting queue s.decoding [] ?_ (fun _ hx => .inl hx) (fun x hx => ?_)
    fun _ hx => .inl hx
  · have hcount := perm_iff_count.mp hqueue
    simp only [View.queues, viewOf, perm_iff_count, count_append, count_nil, hcount, count_cons]
    intro x
    omega
  · rw [hqueue.mem_iff, mem_cons] at hx
    obtain rfl | hx := hx
    · right
      intro y hy
      have hy' : some r = some y := by
        rw [← hy]
        exact (get_insert_self _ _ _).symm
      cases hy'
      exact hlifecycle
    · exact .inl hx

theorem settlePrefills_ensures (log : List ScheduledToken) {selected : List (Request × Nat)}
    (h : Sound (viewOf log s) (selected.map fst) [])
    (hprefilling : ∀ r ∈ selected.map fst, r.lifecycle = .prefilling) :
    Ensures (settlePrefills model selected) s
      (fun _ t => Sound (viewOf log t) [] [] ∧ t.tick.generated = s.tick.generated)
      (OnFailure P) := by
  induction selected generalizing s with
  | nil => exact ⟨h, rfl⟩
  | cons entry rest ih =>
    obtain ⟨r, chunk⟩ := entry
    obtain ⟨hr, hrest⟩ := forall_mem_cons.mp hprefilling
    have hsettled := h.settled r (mem_append_right _ mem_cons_self)
    refine Ensures.bind (retainRequestCheckpoint_ensures log) fun r' t ht => ?_
    obtain ⟨hview, htick, hretained⟩ := ht
    have hsame : r'.id = r.id ∧ r'.sequenceId = r.sequenceId ∧ r'.lifecycle = r.lifecycle ∧
        r'.generatedTokens = r.generatedTokens := by
      obtain rfl | rfl := hretained <;> exact ⟨rfl, rfl, rfl, rfl⟩
    obtain ⟨hid, hsequence, hlifecycle, hgenerated⟩ := hsame
    rw [hr] at hlifecycle
    have hconsistent : Consistent r' := by
      constructor
      · rw [hlifecycle]
        rintro (hcase | hcase) <;> cases hcase
      · intro _
        rw [hsequence]
        exact hsettled.consistent.admitted (.inl hr)
      · rw [hlifecycle]
        intro hcase
        cases hcase
    have hchanged : Sound (viewOf log t) (r' :: rest.map fst) [] := by
      rw [hview]
      exact h.change hid hsequence ⟨hconsistent, by rw [hid, hgenerated]; exact hsettled.reported⟩
    have hput := hchanged.putPrefilling hlifecycle
      (perm_append_singleton r'.id t.prefilling)
    apply modify_bind
    apply modify_bind
    apply modify_bind
    have hticks : t.tick.generated = s.tick.generated := by rw [htick]
    refine Ensures.imp (ih ?_ hrest) fun _ u hu => ?_
    · exact hput
    · exact ⟨hu.1, hu.2.trans hticks⟩

theorem requeuePrefills_ensures (log : List ScheduledToken) {requests : List Request}
    (h : Sound (viewOf log s) requests [])
    (hprefilling : ∀ r ∈ requests, r.lifecycle = .prefilling) :
    Ensures (requests.reverse.forM fun request => do
      modify fun s => { s with prefilling := request.id :: s.prefilling }
      putRequest request) s (fun _ t => Sound (viewOf log t) [] []) E := by
  have hloop : Ensures (requests.reverse.forM fun request => do
      modify fun s => { s with prefilling := request.id :: s.prefilling }
      putRequest request) s (fun _ t => Sound (viewOf log t) [] [] ∧
        ∀ r ∈ ([] : List Request), r.lifecycle = .prefilling) E := by
    refine Ensures.forM (I := fun rest t => Sound (viewOf log t) rest [] ∧
      ∀ r ∈ rest, r.lifecycle = .prefilling) (fun r rest t ht => ?_) ?_
    · obtain ⟨hr, hrest⟩ := forall_mem_cons.mp ht.2
      apply modify_bind
      apply Ensures.modify
      exact ⟨ht.1.putPrefilling hr (List.Perm.refl _), hrest⟩
    · exact ⟨h.perm (reverse_perm requests) (List.Perm.refl _),
        fun r hr => hprefilling r (mem_reverse.mp hr)⟩
  exact hloop.imp fun _ _ ht => ht.1

theorem prefillSelected_ensures {selected : List (Nat × Nat)}
    (h : Sound (viewOf (log ++ s.tick.generated) s) [] (selected.map fst ++ []))
    (hprefilling : ∀ id ∈ selected.map fst,
      ∃ r, s.requests.get id = some r ∧ r.lifecycle = .prefilling)
    (hfails : input.fails .prefillBatch = true → s.tick.generated = []) :
    Ensures (prefillSelected model input selected) s
      (fun _ t => Sound (viewOf (log ++ t.tick.generated) t) [] [])
      (OnFailure fun t => Sound (viewOf log t) [] []) := by
  obtain ⟨sequenceIds, entries, hids, hentries, hmem⟩ := h.lease hprefilling
  apply get_bind
  rw [hids, show attempt (.ok sequenceIds) = (pure sequenceIds : Scheduling S C (List Nat)) from rfl,
    pure_bind, hentries, show attempt (.ok entries) = (pure entries : Scheduling S C (List S)) from rfl,
    pure_bind]
  refine Ensures.bind (takeRequests_ensures _ h hprefilling) fun requests t ht => ?_
  obtain ⟨hsound, htick, hsequences, hlength, hlifecycle⟩ := ht
  rw [append_nil] at hsound
  have hkeys : ∀ entries : List S, (endLease t.sequences sequenceIds entries).keys =
      t.sequences.keys := fun entries => keys_endLease fun id hid => by
    rw [hsequences]
    exact hmem id hid
  apply modify_bind
  split
  · rename_i hfailed
    apply modify_bind
    have hnone := hfails hfailed
    rw [hnone, append_nil] at hsound
    refine Ensures.bind (requeuePrefills_ensures log ?_ hlifecycle) fun _ u hu => hu
    simp only [viewOf, hkeys]
    exact hsound
  · apply modify_bind
    have hzip : (requests.zip (selected.map snd)).map fst = requests := by
      apply map_fst_zip
      rw [hlength, length_map, length_map]
    refine (settlePrefills_ensures (log ++ s.tick.generated) ?_ ?_).imp fun _ u hu => ?_
    · rw [hzip]
      simp only [viewOf, hkeys]
      exact hsound
    · rw [hzip]
      exact hlifecycle
    · rw [hu.2]
      rw [htick]
      exact hu.1

theorem runPrefillPhase_ensures (h : Sound (viewOf (log ++ s.tick.generated) s) [] [])
    (hfails : input.fails .prefillBatch = true → s.tick.generated = []) :
    Ensures (runPrefillPhase model input) s
      (fun _ t => Sound (viewOf (log ++ t.tick.generated) t) [] [])
      (OnFailure fun t => Sound (viewOf log t) [] []) := by
  apply get_bind
  refine Ensures.bind (eligiblePrefills_ensures _ _) fun eligible t ht => ?_
  subst ht
  split
  · exact h
  refine Ensures.bind (selectPrefill_ensures _ _ _ h) fun selected u hu => ?_
  obtain ⟨hsound, htick, hrequests, -, hprefilling⟩ := hu
  split
  · rename_i hempty
    rw [hempty, ← htick] at hsound
    exact hsound
  · apply prefillSelected_ensures
    · rw [htick]
      exact hsound
    · rw [hrequests]
      exact hprefilling
    · rw [htick]
      exact hfails

end

/-! ## Runs -/

section
variable {model : TextModel S C} {s : Scheduler S C} {log : List ScheduledToken}

/-- The requests that a tick selects for its decode batch. -/
def decodeBatch (model : TextModel S C) (input : TickInput) (s : Scheduler S C) : List Nat :=
  match (admitWaiting model input >>= fun _ => selectBatch) { s with tick := .empty } with
  | .ok batch _ => batch.map Request.id
  | .error _ _ => []

/-- A tick fails at most at the first request of its decode batch, or in the batched
prefill of a tick that decodes nothing. -/
structure Timely (model : TextModel S C) (s : Scheduler S C) (input : TickInput) : Prop where
  admits : Admits input
  finish : ∀ id, input.fails (.finishSequence id) = false
  behind : ∀ id ∈ (decodeBatch model input s).tail, input.fails (.decodeOne id) = false
  prefill : input.fails .prefillBatch = true → decodeBatch model input s = []
  space : s.nextSequenceId + s.waiting.length < 2 ^ 64

theorem tick_ensures {input : TickInput} (htimely : Timely model s input)
    (h : Sound (viewOf log s) [] []) :
    Ensures (tick model input) s (fun _ t => Sound (viewOf (log ++ t.tick.generated) t) [] [])
      (OnFailure fun t => Sound (viewOf log t) [] []) := by
  apply modify_bind
  refine Ensures.bind_run (admitWaiting_ensures (s := { s with tick := .empty }) htimely.admits h
    htimely.space) fun _ t hadmitted ht => ?_
  unfold runDecodePhase
  rw [bind_assoc]
  refine Ensures.bind_run (selectBatch_ensures ht.1) fun batch u hselected hu => ?_
  have hbatch : decodeBatch model input s = batch.map Request.id := by
    change (match EStateM.bind (admitWaiting model input) (fun _ => selectBatch)
      { s with tick := .empty } with
      | .ok batch _ => batch.map Request.id
      | .error _ _ => []) = _
    rw [EStateM.bind, hadmitted]
    dsimp only
    rw [hselected]
  have hnone : u.tick.generated = [] := by
    rw [hu.2.1, ht.2]
    rfl
  have hbehind : ∀ r ∈ batch.tail, input.fails (.decodeOne r.id) = false := by
    intro r hr
    apply htimely.behind
    rw [hbatch, ← map_tail]
    exact mem_map_of_mem hr
  have hsound : Sound (viewOf (log ++ u.tick.generated) u) batch [] := by
    rw [hnone, append_nil]
    exact hu.1
  refine Ensures.bind (decodeSelected_ensures hsound hu.2.2 htimely.finish (.inl hnone) hbehind)
    fun _ w hw => runPrefillPhase_ensures hw.1 fun hfails => ?_
  have hempty := htimely.prefill hfails
  rw [hbatch, map_eq_nil_iff] at hempty
  rw [hw.2 hempty, hnone]

section
variable (h : Sound (viewOf log s) [] []) {id : Nat} {P : Scheduler S C → Prop}
include h

theorem addRequest_ensures {promptTokens : List Nat} {config : RequestConfig} :
    Ensures (addRequest model promptTokens config) s (fun _ t => Sound (viewOf log t) [] [])
      (OnFailure fun t => Sound (viewOf log t) [] []) := by
  apply get_bind
  refine attempt_bind (fun _ _ => ?_) h
  apply get_bind
  split
  · have hconsistent : Consistent (newRequest s.nextId promptTokens config) := by
      constructor
      · exact fun _ => rfl
      · simp only [newRequest]
        split <;> simp
      · simp only [newRequest]
        split <;> simp
    have hput := (h.join (r := newRequest s.nextId promptTokens config) rfl rfl hconsistent rfl).put
    by_cases hzero : config.maxNewTokens = 0
    · have hslot : slot (newRequest s.nextId promptTokens config) = [] := by
        simp [slot, newRequest, hzero]
      rw [hslot] at hput
      simp only [hzero, if_true]
      exact hput
    · have hslot : slot (newRequest s.nextId promptTokens config) = [s.nextId] := by
        simp [slot, newRequest, hzero]
      rw [hslot] at hput
      simp only [hzero, if_false]
      refine hput.requeue (s.waiting ++ [s.nextId]) s.prefilling s.decoding [] ?_ (fun x hx => ?_)
        (fun _ hx => .inl hx) fun _ hx => .inl hx
      · simp only [View.queues, viewOf, perm_iff_count, count_append, count_nil]
        intro x
        omega
      · obtain hx | hx := mem_append.mp hx
        · exact .inl hx
        · right
          intro y hy
          rw [mem_singleton.mp hx] at hy
          have hy' : some (newRequest s.nextId promptTokens config) = some y := by
            rw [← hy]
            exact (get_insert_self _ _ _).symm
          cases hy'
          simp [newRequest, hzero]
  · exact h

theorem Sound.unqueue {r : Request}
    (hget : s.requests.get id = some r) (hunfinished : r.lifecycle ≠ .finished) :
    Sound (viewOf log { s with
      waiting := s.waiting.filter fun queued => queued ≠ id
      prefilling := s.prefilling.filter fun queued => queued ≠ id
      decoding := s.decoding.filter fun queued => queued ≠ id }) [] [id] := by
  have hid := (h.of_get hget).1
  have hmem : id ∈ (viewOf log s).queues ++ [] := by
    apply h.queued.mem hget
    rw [slot, if_neg hunfinished, hid]
    exact mem_cons_self
  have hperm := perm_cons_filter_ne h.queues_nodup hmem
  simp only [View.queues, viewOf, append_nil, filter_append] at hperm
  refine h.requeue _ _ _ [id] ?_ (fun _ hx => .inl (mem_of_mem_filter hx))
    (fun _ hx => .inl (mem_of_mem_filter hx)) fun _ hx => .inl (mem_of_mem_filter hx)
  simp only [View.queues, viewOf, append_nil]
  exact hperm.trans (perm_append_singleton _ _).symm

theorem cancelRequest_ensures :
    Ensures (cancelRequest model id) s (fun _ t => Sound (viewOf log t) [] []) (OnFailure P) := by
  refine Ensures.modify ?_
  split
  · exact h
  · rename_i request hget
    split
    · exact h
    · rename_i hunfinished
      have htaken := (h.unqueue hget hunfinished).take hget hunfinished
      cases hsequence : request.sequenceId with
      | none =>
        refine htaken.drop ?_
        rw [sequencesOf, hsequence]
        exact List.Perm.refl _
      | some sequenceId =>
        have hmem : sequenceId ∈ s.sequences.keys := h.owned.mem hget (by
          rw [sequencesOf, hsequence]
          exact mem_cons_self)
        rw [mem_keys_iff, Option.isSome_iff_exists] at hmem
        obtain ⟨sequence, hfound⟩ := hmem
        simp only [Option.bind_some, hfound, Option.map_some]
        refine htaken.drop ?_
        rw [sequencesOf, hsequence]
        exact keys_erase_perm hfound

theorem Sound.forget {r : Request}
    (hget : s.requests.get id = some r) (hfinished : r.lifecycle = .finished) :
    Sound (viewOf log { s with requests := s.requests.erase id }) [] [] := by
  have hnone := (h.of_get hget).2.1.consistent.unadmitted (.inr hfinished)
  have hvalues := values_erase_perm hget
  have hsub : ∀ x ∈ (s.requests.erase id).values ++ [], x ∈ s.requests.values ++ [] := by
    intro x hx
    rw [append_nil] at hx ⊢
    exact hvalues.mem_iff.mpr (mem_cons_of_mem _ hx)
  have herased : ∀ {other : Nat} {x : Request}, (s.requests.erase id).get other = some x →
      s.requests.get other = some x := by
    intro other x hx
    rw [get_erase] at hx
    split at hx
    · cases hx
    · exact hx
  have hqueued : Balanced slot (s.requests.erase id) [r] (slot r ++ ((viewOf log s).queues ++ [])) := by
    rw [slot, if_pos hfinished]
    exact h.queued.take hget
  have howned : Balanced sequencesOf (s.requests.erase id) [r] (sequencesOf r ++ s.sequences.keys) := by
    rw [sequencesOf, hnone]
    exact h.owned.take hget
  exact {
    h with
    keyed := fun other x hx => h.keyed other x (herased hx)
    ids := by
      have hids : (s.requests.values.map Request.id).Nodup := by
        have hall := h.ids
        rwa [append_nil] at hall
      rw [(hvalues.map _).nodup_iff, map_cons, nodup_cons] at hids
      rw [append_nil]
      exact hids.2
    known := fun x hx => h.known x (hsub x hx)
    queued := hqueued.drop
    owned := howned.drop
    settled := fun x hx => h.settled x (hsub x hx)
    waiting := fun other hmem x hx => h.waiting other hmem x (herased hx)
    prefilling := fun other hmem x hx => h.prefilling other hmem x (herased hx)
    decoding := fun other hmem x hx => h.decoding other hmem x (herased hx)
  }

theorem removeFinished_ensures :
    Ensures (removeFinished id) s (fun _ t => Sound (viewOf log t) [] []) (OnFailure P) := by
  refine Ensures.modify ?_
  split
  · rename_i request hget
    split
    · rename_i hfinished
      exact h.forget hget hfinished
    · exact h
  · exact h

end

/-- The calls of a run that are allowed to fail. -/
def Recoverable (model : TextModel S C) (session : Session S C) : Action → Prop
  | .tick input => Timely model session.scheduler input
  | _ => True

/-- The books of a session between two calls. -/
def Kept (session : Session S C) : Prop :=
  Sound (viewOf session.reported session.scheduler) [] []

theorem call_ensures {action : Action} (hallowed : Recoverable model session action)
    (h : Kept session) :
    Ensures (action.call model) session.scheduler
      (fun _ t => Kept ⟨t, session.reported ++ action.reports t⟩)
      (OnFailure fun t => Kept ⟨t, session.reported⟩) := by
  cases action with
  | addRequest promptTokens config =>
    refine (addRequest_ensures h).imp fun _ t ht => ?_
    simp only [Kept, Action.reports, append_nil]
    exact ht
  | tick input => exact tick_ensures hallowed h
  | cancelRequest id =>
    refine (cancelRequest_ensures h).imp fun _ t ht => ?_
    simp only [Kept, Action.reports, append_nil]
    exact ht
  | removeFinished id =>
    refine (removeFinished_ensures h).imp fun _ t ht => ?_
    simp only [Kept, Action.reports, append_nil]
    exact ht

theorem step_kept {next : Session S C} {action : Action} (h : Kept session)
    (hallowed : Recoverable model session action) (hstep : step model session action = some next) :
    Kept next := by
  have hcall := call_ensures hallowed h
  unfold step at hstep
  unfold Ensures at hcall
  split at hstep
  · rename_i heq
    rw [heq] at hcall
    cases hstep
    exact hcall
  · rename_i heq
    rw [heq] at hcall
    cases hstep
    exact hcall
  · cases hstep

theorem new_kept {config : SchedulerConfig} {cache : C} {s : Scheduler S C}
    (h : Scheduler.new config cache = .ok s) : Kept ⟨s, []⟩ := by
  obtain ⟨_, -, h⟩ := bind_ok h
  cases h
  exact {
    keyed := fun id r hget => by cases hget
    ids := nodup_nil
    known := fun r hr => by cases hr
    queued := Balanced.empty
    owned := Balanced.empty
    distinct := nodup_nil
    allocated := fun id hid => by cases hid
    settled := fun r hr => by cases hr
    told := fun token htoken => by cases htoken
    waiting := fun id hid => by cases hid
    prefilling := fun id hid => by cases hid
    decoding := fun id hid => by cases hid
  }

/-- Every unfinished request stands in exactly one queue, every sequence has exactly one
owner, and the tokens of a request are those that `Ok` ticks reported for it, in order. -/
structure Accounted (session : Session S C) : Prop where
  queued : ∀ id r, session.scheduler.requests.get id = some r → r.lifecycle ≠ .finished →
    (session.scheduler.waiting ++ session.scheduler.prefilling ++
      session.scheduler.decoding).count id = 1
  owned : ∀ sequenceId ∈ session.scheduler.sequences.keys,
    ∃! id, ∃ r, session.scheduler.requests.get id = some r ∧ r.sequenceId = some sequenceId
  reported : ∀ id r, session.scheduler.requests.get id = some r →
    (session.reported.filter fun token => token.requestId = id) = r.generatedTokens

theorem Kept.accounted (h : Kept session) : Accounted session where
  queued := fun id r hget hunfinished => by
    have hnodup := Sound.queues_nodup h
    rw [append_nil] at hnodup
    apply count_eq_one_of_mem hnodup
    have hmem : id ∈ (viewOf session.reported session.scheduler).queues ++ [] := by
      apply (Sound.queued h).mem hget
      rw [slot, if_neg hunfinished, (Sound.of_get h hget).1]
      exact mem_cons_self
    rwa [append_nil] at hmem
  owned := fun sequenceId hmem => by
    obtain ⟨id, ⟨r, hget, hr⟩, hunique⟩ := (Sound.owned h).existsUnique (Sound.distinct h) hmem
    refine ⟨id, ⟨r, hget, by simpa [sequencesOf] using hr⟩, ?_⟩
    rintro other ⟨x, hx, hxr⟩
    exact hunique other ⟨x, hx, by simp [sequencesOf, hxr]⟩
  reported := fun id r hget => by
    obtain ⟨hid, hsettled, -⟩ := Sound.of_get h hget
    rw [← hid]
    exact hsettled.reported

/-- In every run whose ticks fail only where everything is put back, the books balance. -/
theorem every_token_reported_once {config : SchedulerConfig} {cache : C} {s : Scheduler S C}
    {session : Session S C} {actions : List Action} (hnew : Scheduler.new config cache = .ok s)
    (path : Path (step model) (Recoverable model) ⟨s, []⟩ actions session) : Accounted session :=
  Kept.accounted (path.invariant (fun h hallowed hstep => step_kept h hallowed hstep)
    (new_kept hnew))

end

/-! ## A small instance -/

/-- A model whose sequences are their lengths. -/
def steadyModel : TextModel Nat Unit where
  vocab := 10
  maxPrefixEntries := some 0
  lookupPrefix c _ := (c, none)
  admission c _ _ := (c, .admitted 0 0)
  fromAdmission _ _ position := position
  position sequence := sequence
  decodeOne sequence c _ := (sequence + 1, c)
  prefillBatch rows c := (rows.map fun row => row.2 + row.1.length, c)
  finish _ c := c
  containsPrefix _ _ _ := false
  retainPrefix sequence c _ := (sequence, c)
  interrupted _ sequences c := (sequences, c)

def smallConfig : SchedulerConfig := ⟨2, 1, 1, 4, 2, 16, 0⟩

def greedy : RequestConfig := ⟨⟨true, true, true, false⟩, 4, []⟩

/-- A tick in which the sites of `failing` fail. -/
def quietTick (failing : List Site) : Action :=
  .tick ⟨fun site => failing.contains site, fun _ => 5⟩

/-- The part of `Timely` that depends on the state, as a check. -/
def timelyCheck (session : Session Nat Unit) : Action → Bool
  | .tick input =>
    let batch := decodeBatch steadyModel input session.scheduler
    (batch.tail.all fun id => !input.fails (.decodeOne id)) && !input.fails .prefillBatch &&
      session.scheduler.nextSequenceId + session.scheduler.waiting.length < 2 ^ 64
  | _ => true

theorem quietTick_recoverable {failing : List Site} {session : Session Nat Unit}
    (honly : ∀ site ∈ failing, ∃ id, site = .decodeOne id)
    (h : timelyCheck session (quietTick failing) = true) :
    Recoverable steadyModel session (quietTick failing) := by
  have hquiet : ∀ site, (∀ id, site ≠ .decodeOne id) → failing.contains site = false := by
    intro site hsite
    rw [contains_eq_mem, decide_eq_false_iff_not]
    intro hmem
    obtain ⟨id, hid⟩ := honly site hmem
    exact hsite id hid
  simp only [timelyCheck, quietTick, Bool.and_eq_true, all_eq_true, Bool.not_eq_true',
    decide_eq_true_eq] at h
  obtain ⟨⟨hbehind, hprefill⟩, hspace⟩ := h
  constructor
  · constructor <;> exact fun id => hquiet _ fun _ heq => by cases heq
  · exact fun id => hquiet _ fun _ heq => by cases heq
  · exact hbehind
  · intro hfails
    cases hprefill.symm.trans hfails
  · exact hspace

/-- Two requests with prompts of one token, a tick that fails at the first of them and one
that succeeds: both tokens are reported. -/
theorem first_failure_reports_both : ∃ (s : Scheduler Nat Unit) (session : Session Nat Unit),
    Scheduler.new smallConfig () = .ok s ∧
    Path (step steadyModel) (Recoverable steadyModel) ⟨s, []⟩
      [.addRequest [1] greedy, .addRequest [2] greedy, quietTick [.decodeOne 0], quietTick []]
      session ∧
    session.reported = [⟨0, 5, none⟩, ⟨1, 5, none⟩] ∧ Accounted session := by
  have hrun : ∃ s : Scheduler Nat Unit, Scheduler.new smallConfig () = .ok s ∧
      (runWhere (step steadyModel) timelyCheck ⟨s, []⟩ [.addRequest [1] greedy,
        .addRequest [2] greedy, quietTick [.decodeOne 0], quietTick []]).map Session.reported =
        some [⟨0, 5, none⟩, ⟨1, 5, none⟩] := ⟨_, rfl, by decide +kernel⟩
  obtain ⟨s, hnew, hmap⟩ := hrun
  obtain ⟨session, hsession, hreported⟩ := Option.map_eq_some_iff.mp hmap
  have hpath : Path (step steadyModel) (Recoverable steadyModel) ⟨s, []⟩ [.addRequest [1] greedy,
      .addRequest [2] greedy, quietTick [.decodeOne 0], quietTick []] session := by
    apply Path.of_runWhere hsession
    intro action haction u hcheck
    simp only [mem_cons, not_mem_nil, or_false] at haction
    obtain rfl | rfl | rfl | rfl := haction
    · exact trivial
    · exact trivial
    · exact quietTick_recoverable (fun site hsite => ⟨0, mem_singleton.mp hsite⟩) hcheck
    · exact quietTick_recoverable (fun site hsite => by cases hsite) hcheck
  exact ⟨s, session, hnew, hpath, hreported, every_token_reported_once hnew hpath⟩

/-- The second request of a decode batch fails: the first has generated a token that no
tick reports. -/
theorem second_failure_loses_token : ∃ (s : Scheduler Nat Unit) (session : Session Nat Unit),
    Scheduler.new smallConfig () = .ok s ∧
    Path (step steadyModel) (fun _ _ => True) ⟨s, []⟩
      [.addRequest [1] greedy, .addRequest [2] greedy, quietTick [.decodeOne 1]] session ∧
    ¬ Accounted session := by
  have hrun : ∃ s : Scheduler Nat Unit, Scheduler.new smallConfig () = .ok s ∧
      (run (step steadyModel) ⟨s, []⟩
        [.addRequest [1] greedy, .addRequest [2] greedy, quietTick [.decodeOne 1]]).map
        (fun session => ((session.scheduler.requests.get 0).map Request.generatedTokens,
          session.reported)) = some (some [⟨0, 5, none⟩], []) := ⟨_, rfl, by decide +kernel⟩
  obtain ⟨s, hnew, hmap⟩ := hrun
  obtain ⟨session, hsession, heq⟩ := Option.map_eq_some_iff.mp hmap
  simp only [Prod.mk.injEq] at heq
  obtain ⟨hrequest, hreported⟩ := heq
  obtain ⟨r, hget, hgenerated⟩ := Option.map_eq_some_iff.mp hrequest
  refine ⟨s, session, hnew, Path.of_run hsession, fun haccounted => ?_⟩
  have hlost := haccounted.reported 0 r hget
  rw [hreported, hgenerated] at hlost
  cases hlost

end Eider.Guarantees.Step37Account
