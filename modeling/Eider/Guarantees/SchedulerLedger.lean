import Eider.Guarantees.BatchPositions
import Eider.Lib.Stays
import Eider.Source.Scheduler.Tick

/-!
The books of the Qwen3.6 scheduler: which request is retained, in which queue it stands,
and which sequence it owns. A phase takes requests and decision groups out of their maps,
so the ledger is stated of the maps together with what a phase holds.

`Ledger` holds whatever fails: no request, queue entry or sequence is ever there twice,
every sequence in the pool is outside an append, and the requests in the map stand at the
positions their cursors say. What a phase holds may be ahead of its cursor.
-/
namespace Eider.Guarantees.SchedulerLedger
open Lib Lib.ByteReader Source Source.Qwen36 List BTreeMap Ensures
open Guarantees.BatchPositions

variable {n words : Nat} {β κ φ C R K : Type}
variable {lead : Nat} {out' : List (Request K φ)} {rest : List Nat} {sequence : Sequence n β}
variable {befores rows : List (BatchRow n β)}

/-- The fields of a scheduler that the ledger is about. -/
structure Books (n : Nat) (β φ K : Type) where
  requests : BTreeMap Nat (Request K φ)
  waiting : List Nat
  prefilling : List Nat
  decoding : List Nat
  decisions : BTreeMap Nat (DecisionGroup φ)
  nextId : Nat
  sequences : BTreeMap Nat (Sequence n β)
  nextSequenceId : Nat

def booksOf (s : Scheduler n β φ C K) : Books n β φ K where
  requests := s.requests
  waiting := s.waiting
  prefilling := s.prefilling
  decoding := s.decoding
  decisions := s.decisions
  nextId := s.nextId
  sequences := s.sequences
  nextSequenceId := s.nextSequenceId

namespace Books
variable (b : Books n β φ K) (out : List (Request K φ)) (gone : List (DecisionGroup φ))

/-- The requests in the map and those that a phase holds. -/
def allRequests : List (Request K φ) := b.requests.values ++ out

/-- The decision groups in the map and those that a phase holds. -/
def allGroups : List (DecisionGroup φ) := b.decisions.values ++ gone

/-- The queued ids. -/
def queues : List Nat := b.waiting ++ b.prefilling ++ b.decoding

/-- The sequences that requests and decision groups own. -/
def owned : List Nat :=
  (b.allRequests out).filterMap Request.sequenceId ++
    (b.allGroups gone).flatMap DecisionGroup.sequences

end Books

/-- The tokens that a request has consumed according to its own cursor. A frontier that
was not yet emitted has been consumed once speculation has started. -/
def consumed (r : Request K φ) : Nat :=
  if r.lifecycle = .decoding then
    r.promptTokens.length + r.generatedTokens.length - (if r.specStarted then 0 else 1)
  else r.promptPosition

/-- What a request's own fields say about each other; `words` is the size of a mask. -/
structure Consistent (words : Nat) (r : Request K φ) : Prop where
  fresh : r.lifecycle = .waiting ∨ r.lifecycle = .prefilling →
    r.generatedTokens = [] ∧ r.lastToken = none ∧ r.specReady = false
  decoding : r.lifecycle = .decoding →
    r.lastToken = r.generatedTokens.getLast?.map ScheduledToken.id ∧ r.generatedTokens ≠ [] ∧
      r.remainingPromptTokens = 0
  started : r.specStarted = true → r.specReady = true
  grammar : ∀ g, r.toolGrammar = some g → g.maskWords = words

/-- The sequence of an unfinished request stands `lead` tokens behind its cursor. -/
def Leads (pool : BTreeMap Nat (Sequence n β)) (lead : Nat) (r : Request K φ) : Prop :=
  r.lifecycle ≠ .finished → ∀ id, r.sequenceId = some id →
    ∃ sequence, pool.get id = some sequence ∧ sequence.state.position = consumed r + lead

/-- The request is consistent and its sequence stands at its cursor. -/
structure Settled (words : Nat) (pool : BTreeMap Nat (Sequence n β)) (r : Request K φ) :
    Prop where
  consistent : Consistent words r
  leads : Leads pool 0 r

/-- Two versions of a request that stand at the same place. -/
structure SameCursor (r r' : Request K φ) : Prop where
  id : r'.id = r.id
  sequenceId : r'.sequenceId = r.sequenceId
  lifecycle : r'.lifecycle = r.lifecycle
  promptTokens : r'.promptTokens = r.promptTokens
  promptPosition : r'.promptPosition = r.promptPosition
  generatedTokens : r'.generatedTokens = r.generatedTokens
  lastToken : r'.lastToken = r.lastToken
  specStarted : r'.specStarted = r.specStarted

namespace SameCursor
variable {r r' r'' : Request K φ}

theorem refl (r : Request K φ) : SameCursor r r := ⟨rfl, rfl, rfl, rfl, rfl, rfl, rfl, rfl⟩

section
variable (h : SameCursor r r')
include h

theorem trans (h' : SameCursor r' r'') : SameCursor r r'' :=
  ⟨h'.id.trans h.id, h'.sequenceId.trans h.sequenceId, h'.lifecycle.trans h.lifecycle,
    h'.promptTokens.trans h.promptTokens, h'.promptPosition.trans h.promptPosition,
    h'.generatedTokens.trans h.generatedTokens, h'.lastToken.trans h.lastToken,
    h'.specStarted.trans h.specStarted⟩

theorem consumed_eq : consumed r' = consumed r := by
  unfold consumed
  rw [h.lifecycle, h.promptTokens, h.generatedTokens, h.specStarted, h.promptPosition]

theorem remaining_eq : r'.remainingPromptTokens = r.remainingPromptTokens := by
  unfold Request.remainingPromptTokens
  rw [h.promptTokens, h.promptPosition]

theorem leads {pool : BTreeMap Nat (Sequence n β)}
    (hleads : Leads pool lead r) : Leads pool lead r' := by
  intro hunfinished id hid
  rw [h.consumed_eq]
  exact hleads (h.lifecycle ▸ hunfinished) id (h.sequenceId ▸ hid)

theorem consistent (hconsistent : Consistent words r) (hready : r'.specReady = r.specReady)
    (hgrammar : ∀ g, r'.toolGrammar = some g → g.maskWords = words) : Consistent words r' where
  fresh := fun hlifecycle => by
    rw [h.generatedTokens, h.lastToken, hready]
    exact hconsistent.fresh (h.lifecycle ▸ hlifecycle)
  decoding := fun hlifecycle => by
    rw [h.lastToken, h.generatedTokens, h.remaining_eq]
    exact hconsistent.decoding (h.lifecycle ▸ hlifecycle)
  started := fun hstarted => by
    rw [hready]
    exact hconsistent.started (h.specStarted ▸ hstarted)
  grammar := hgrammar

end

end SameCursor

/-- The invariant of the books, with the requests `out` and the groups `gone` held. -/
structure Ledger (words : Nat) (b : Books n β φ K) (out : List (Request K φ))
    (gone : List (DecisionGroup φ)) : Prop where
  keyed : ∀ id r, b.requests.get id = some r → r.id = id
  ids : ((b.allRequests out).map Request.id).Nodup
  fresh : ∀ r ∈ b.allRequests out, r.id < b.nextId
  queued : b.queues.Nodup
  known : ∀ id ∈ b.queues, id < b.nextId
  apart : ∀ r ∈ out, r.id ∉ b.queues
  waiting : ∀ id ∈ b.waiting, ∀ r, b.requests.get id = some r →
    r.lifecycle = .waiting ∧ r.sequenceId = none
  prefilling : ∀ id ∈ b.prefilling, ∀ r, b.requests.get id = some r → r.lifecycle = .prefilling
  decoding : ∀ id ∈ b.decoding, ∀ r, b.requests.get id = some r → r.lifecycle = .decoding
  owned : (b.owned out gone).Nodup
  live : ∀ id ∈ b.owned out gone, id < b.nextSequenceId
  allocated : ∀ id sequence, b.sequences.get id = some sequence →
    id < b.nextSequenceId ∧ sequence.state.appendPending = false
  settled : ∀ id r, b.requests.get id = some r → Settled words b.sequences r

/-! ## Requests in and out of the map -/

variable {id : Nat}

section
variable {b : Books n β φ K} {out : List (Request K φ)} {gone : List (DecisionGroup φ)}
variable {r r' : Request K φ}

theorem owned_perm (gone : List (DecisionGroup φ)) {b' : Books n β φ K}
    (hrequests : (b'.allRequests out').Perm (b.allRequests out))
    (hgroups : b'.decisions = b.decisions) : (b'.owned out' gone).Perm (b.owned out gone) := by
  unfold Books.owned Books.allGroups
  rw [hgroups]
  exact (hrequests.filterMap _).append_right _

theorem Ledger.perm (h : Ledger words b out gone) (hperm : out'.Perm out) :
    Ledger words b out' gone := by
  have hall : (b.allRequests out').Perm (b.allRequests out) := hperm.append_left _
  have howned := owned_perm gone hall rfl
  exact {
    h with
    ids := (hall.map _).nodup_iff.mpr h.ids
    fresh := fun r hr => h.fresh r (hall.mem_iff.mp hr)
    apart := fun r hr => h.apart r (hperm.mem_iff.mp hr)
    owned := howned.nodup_iff.mpr h.owned
    live := fun id hid => h.live id (howned.mem_iff.mp hid)
  }

theorem Ledger.lose {lost : List (Request K φ)} (h : Ledger words b (lost ++ out) gone) :
    Ledger words b out gone := by
  have hall : (b.allRequests out).Sublist (b.allRequests (lost ++ out)) :=
    (sublist_append_right lost out).append_left _
  have howned : (b.owned out gone).Sublist (b.owned (lost ++ out) gone) :=
    (hall.filterMap _).append_right _
  exact {
    h with
    ids := h.ids.sublist (hall.map _)
    fresh := fun r hr => h.fresh r (hall.subset hr)
    apart := fun r hr => h.apart r (mem_append_right _ hr)
    owned := h.owned.sublist howned
    live := fun id hid => h.live id (howned.subset hid)
  }

theorem Ledger.take (h : Ledger words b out gone) (hget : b.requests.get id = some r)
    (hqueues : id ∉ b.queues) :
    Ledger words { b with requests := b.requests.erase id } (r :: out) gone ∧
      Settled words b.sequences r ∧ r.id = id := by
  have hid := h.keyed id r hget
  have hall : (Books.allRequests { b with requests := b.requests.erase id } (r :: out)).Perm
      (b.allRequests out) := by
    have hvalues := (values_erase_perm hget).append_right out
    exact (perm_middle.trans hvalues.symm)
  have howned := owned_perm gone hall rfl
  have hget' : ∀ {other : Nat} {r' : Request K φ},
      (b.requests.erase id).get other = some r' → b.requests.get other = some r' := by
    intro other r' hr'
    rw [get_erase] at hr'
    split at hr'
    · cases hr'
    · exact hr'
  refine ⟨?_, h.settled id r hget, hid⟩
  exact { h with
    keyed := fun other r' hr' => h.keyed other r' (hget' hr')
    ids := (hall.map _).nodup_iff.mpr h.ids
    fresh := fun r hr => h.fresh r (hall.mem_iff.mp hr)
    apart := fun r' hr' => by
      obtain rfl | hr' := mem_cons.mp hr'
      · rwa [hid]
      · exact h.apart r' hr'
    waiting := fun other hother r' hr' => h.waiting other hother r' (hget' hr')
    prefilling := fun other hother r' hr' => h.prefilling other hother r' (hget' hr')
    decoding := fun other hother r' hr' => h.decoding other hother r' (hget' hr')
    owned := howned.nodup_iff.mpr h.owned
    live := fun id hid => h.live id (howned.mem_iff.mp hid)
    settled := fun other r' hr' => h.settled other r' (hget' hr') }

section
variable (h : Ledger words b (r :: out) gone)
include h

theorem Ledger.get_held : b.requests.get r.id = none := by
  by_contra hget
  obtain ⟨r', hr'⟩ := Option.ne_none_iff_exists'.mp hget
  have hid := h.keyed _ _ hr'
  have hnodup := h.ids
  rw [Books.allRequests, map_append, nodup_append] at hnodup
  have hmem : r.id ∈ b.requests.values.map Request.id :=
    mem_map.mpr ⟨r', mem_values_iff.mpr ⟨_, hr'⟩, hid⟩
  exact hnodup.2.2 _ hmem r.id (by simp) rfl

/-- A held request goes back into the map, in no queue. -/
theorem Ledger.put (hsettled : Settled words b.sequences r) :
    Ledger words { b with requests := b.requests.insert r.id r } out gone := by
  have hall : (Books.allRequests { b with requests := b.requests.insert r.id r } out).Perm
      (b.allRequests (r :: out)) := by
    have hvalues := (values_insert_perm (v := r) h.get_held).append_right out
    exact hvalues.trans perm_middle.symm
  have howned := owned_perm gone hall rfl
  have hget' : ∀ {other : Nat} {r' : Request K φ}, other ∈ b.queues →
      (b.requests.insert r.id r).get other = some r' → b.requests.get other = some r' := by
    intro other r' hother hr'
    have hne : other ≠ r.id := fun heq => h.apart r mem_cons_self (heq ▸ hother)
    rwa [get_insert_of_ne _ _ hne] at hr'
  exact { h with
    keyed := fun other r' hr' => by
      rw [get_insert] at hr'
      split at hr'
      · cases hr'
        assumption
      · exact h.keyed other r' hr'
    ids := (hall.map _).nodup_iff.mpr h.ids
    fresh := fun r' hr' => h.fresh r' (hall.mem_iff.mp hr')
    apart := fun r' hr' => h.apart r' (mem_cons_of_mem _ hr')
    waiting := fun other hother r' hr' => h.waiting other hother r'
      (hget' (by simp [Books.queues, hother]) hr')
    prefilling := fun other hother r' hr' => h.prefilling other hother r'
      (hget' (by simp [Books.queues, hother]) hr')
    decoding := fun other hother r' hr' => h.decoding other hother r'
      (hget' (by simp [Books.queues, hother]) hr')
    owned := howned.nodup_iff.mpr h.owned
    live := fun id hid => h.live id (howned.mem_iff.mp hid)
    settled := fun other r' hr' => by
      rw [get_insert] at hr'
      split at hr'
      · cases hr'
        exact hsettled
      · exact h.settled other r' hr' }

omit h in
theorem owned_cons (b : Books n β φ K) (out : List (Request K φ)) (gone : List (DecisionGroup φ))
    (r : Request K φ) :
    (b.owned (r :: out) gone).Perm (r.sequenceId.toList ++ b.owned out gone) := by
  have hall : (b.allRequests (r :: out)).Perm (r :: b.allRequests out) := perm_middle
  have hperm := (hall.filterMap Request.sequenceId).append_right
    ((b.allGroups gone).flatMap DecisionGroup.sequences)
  unfold Books.owned
  cases hsequence : r.sequenceId with
  | none => simpa [filterMap_cons, hsequence] using hperm
  | some id => simpa [filterMap_cons, hsequence] using hperm

/-- A phase changes a request that it holds, within the sequences it may own. -/
theorem Ledger.replace (hid : r'.id = r.id)
    (howned : (r'.sequenceId.toList ++ b.owned out gone).Nodup)
    (hlive : ∀ id, r'.sequenceId = some id → id < b.nextSequenceId) : Ledger words b (r' :: out) gone := by
  have hids : (b.allRequests (r' :: out)).map Request.id =
      (b.allRequests (r :: out)).map Request.id := by
    simp [Books.allRequests, hid]
  exact {
    h with
    ids := hids ▸ h.ids
    fresh := fun r'' hr'' => by
      rw [Books.allRequests, mem_append, mem_cons] at hr''
      obtain hr'' | rfl | hr'' := hr''
      · exact h.fresh r'' (mem_append_left _ hr'')
      · exact hid ▸ h.fresh r (by simp [Books.allRequests])
      · exact h.fresh r'' (by simp [Books.allRequests, hr''])
    apart := fun r'' hr'' => by
      obtain rfl | hr'' := mem_cons.mp hr''
      · exact hid ▸ h.apart r mem_cons_self
      · exact h.apart r'' (mem_cons_of_mem _ hr'')
    owned := (owned_cons b out gone r').nodup_iff.mpr howned
    live := fun id hmem => by
      obtain hid | hmem := mem_append.mp ((owned_cons b out gone r').mem_iff.mp hmem)
      · exact hlive id (Option.mem_toList.mp hid)
      · exact h.live id ((owned_cons b out gone r).mem_iff.mpr (mem_append_right _ hmem))
  }

theorem Ledger.change (r' : Request K φ) (hid : r'.id = r.id)
    (hsequence : r'.sequenceId = r.sequenceId) : Ledger words b (r' :: out) gone := by
  have howned := (owned_cons b out gone r).nodup_iff.mp h.owned
  apply h.replace hid
  · rwa [hsequence]
  · intro id hsome
    rw [hsequence] at hsome
    apply h.live id ((owned_cons b out gone r).mem_iff.mpr _)
    exact mem_append_left _ (Option.mem_toList.mpr hsome)

omit h in
/-- A phase changes the requests that it holds, each of which keeps its sequence. -/
theorem Ledger.changeAll {rest : List (Request K φ)} (h : Ledger words b (out ++ rest) gone)
    (hsame : List.Forall₂ (fun r r' => r'.id = r.id ∧ r'.sequenceId = r.sequenceId) out out') :
    Ledger words b (out' ++ rest) gone := by
  induction hsame generalizing rest with
  | nil => exact h
  | cons hhead _ ih =>
    have hchanged := h.change _ hhead.1 hhead.2
    exact (ih (hchanged.perm perm_middle)).perm perm_middle.symm

theorem Ledger.release (r' : Request K φ) (hid : r'.id = r.id)
    (hnone : r'.sequenceId = none) : Ledger words b (r' :: out) gone := by
  have howned := (owned_cons b out gone r).nodup_iff.mp h.owned
  apply h.replace hid
  · rw [hnone]
    exact howned.of_append_right
  · intro id hsome
    rw [hnone] at hsome
    cases hsome

/-- A held request takes over a sequence that nobody owns. -/
theorem Ledger.assign (hid : r'.id = r.id)
    (hsome : r'.sequenceId = some id) (hnew : id ∉ b.owned out gone)
    (hlive : id < b.nextSequenceId) : Ledger words b (r' :: out) gone := by
  have howned := (owned_cons b out gone r).nodup_iff.mp h.owned
  apply h.replace hid
  · rw [hsome]
    exact nodup_cons.mpr ⟨hnew, howned.of_append_right⟩
  · intro other hother
    rw [hsome] at hother
    exact Option.some.inj hother ▸ hlive

end

/-- A request of the map that stands in no queue is changed in place. -/
theorem Ledger.update (h : Ledger words b out gone) (hget : b.requests.get id = some r)
    (hqueues : id ∉ b.queues)
    (hchange : Ledger words { b with requests := b.requests.erase id } (r :: out) gone →
      Ledger words { b with requests := b.requests.erase id } (r' :: out) gone)
    (hid : r'.id = r.id) (hsettled : Settled words b.sequences r') :
    Ledger words { b with requests := b.requests.insert id r' } out gone := by
  obtain ⟨htaken, -, hkey⟩ := h.take hget hqueues
  have hput := (hchange htaken).put hsettled
  rw [hid, hkey] at hput
  rwa [insert_erase] at hput

theorem Ledger.join {r : Request K φ} (h : Ledger words b [] [])
    (hid : r.id = b.nextId) (hnone : r.sequenceId = none) :
    Ledger words { b with nextId := b.nextId + 1 } [r] [] := by
  have hnew : r.id ∉ (b.allRequests []).map Request.id := by
    intro hmem
    obtain ⟨other, hother, hsame⟩ := mem_map.mp hmem
    have hfresh := h.fresh other hother
    omega
  have hall : (b.allRequests [r]).Perm (r :: b.allRequests []) := perm_middle
  have howned : (b.owned [r] []).Perm (b.owned [] []) := by
    have hperm := owned_cons b [] [] r
    rwa [hnone] at hperm
  exact { h with
    ids := (hall.map _).nodup_iff.mpr (nodup_cons.mpr ⟨hnew, h.ids⟩)
    fresh := fun other hother => by
      obtain rfl | hother := mem_cons.mp (hall.mem_iff.mp hother)
      · exact hid ▸ Nat.lt_succ_self _
      · exact Nat.lt_succ_of_lt (h.fresh other hother)
    known := fun id hmem => Nat.lt_succ_of_lt (h.known id hmem)
    apart := fun other hother hmem => by
      have hknown := h.known _ hmem
      rw [mem_singleton.mp hother, hid] at hknown
      exact Nat.lt_irrefl _ hknown
    owned := howned.nodup_iff.mpr h.owned
    live := fun id hmem => h.live id (howned.mem_iff.mp hmem) }

end

/-! ## Queues -/

section
variable {b : Books n β φ K} {out : List (Request K φ)} {gone : List (DecisionGroup φ)}

variable {prefilling : List Nat}

section
variable (h : Ledger words b out gone) {r : Request K φ} {waiting decoding : List Nat}
include h

theorem Ledger.requeue (hwaiting : waiting ⊆ b.waiting) (hprefilling : prefilling ⊆ b.prefilling)
    (hdecoding : decoding ⊆ b.decoding) (hnodup : (waiting ++ prefilling ++ decoding).Nodup) :
    Ledger words { b with waiting := waiting, prefilling := prefilling, decoding := decoding }
      out gone := by
  have hsubset : waiting ++ prefilling ++ decoding ⊆ b.queues := by
    intro id hid
    simp only [Books.queues, mem_append] at hid ⊢
    exact hid.imp (Or.imp (fun hid => hwaiting hid) fun hid => hprefilling hid)
      fun hid => hdecoding hid
  exact { h with
    queued := hnodup
    known := fun id hid => h.known id (hsubset hid)
    apart := fun r hr hid => h.apart r hr (hsubset hid)
    waiting := fun id hid => h.waiting id (hwaiting hid)
    prefilling := fun id hid => h.prefilling id (hprefilling hid)
    decoding := fun id hid => h.decoding id (hdecoding hid) }

theorem Ledger.popWaiting (hqueue : b.waiting = id :: rest) :
    Ledger words { b with waiting := rest } out gone ∧ id ∉ Books.queues { b with waiting := rest } := by
  have hnodup := h.queued
  rw [Books.queues, hqueue, cons_append, cons_append, nodup_cons] at hnodup
  refine ⟨h.requeue ?_ (List.Subset.refl _) (List.Subset.refl _) hnodup.2, hnodup.1⟩
  rw [hqueue]
  exact subset_cons_self id rest

theorem Ledger.popPrefilling
    (hqueue : b.prefilling = id :: rest) : Ledger words { b with prefilling := rest } out gone ∧
      id ∉ Books.queues { b with prefilling := rest } := by
  have hperm : b.queues.Perm (id :: (b.waiting ++ rest ++ b.decoding)) := by
    rw [Books.queues, hqueue]
    exact perm_middle.append_right _
  have hnodup := nodup_cons.mp (hperm.nodup_iff.mp h.queued)
  refine ⟨h.requeue (List.Subset.refl _) ?_ (List.Subset.refl _) hnodup.2, hnodup.1⟩
  rw [hqueue]
  exact subset_cons_self id rest

theorem Ledger.popDecoding (hqueue : b.decoding = id :: rest) :
    Ledger words { b with decoding := rest } out gone ∧ id ∉ Books.queues { b with decoding := rest } := by
  have hperm : b.queues.Perm (id :: (b.waiting ++ b.prefilling ++ rest)) := by
    rw [Books.queues, hqueue]
    exact perm_middle
  have hnodup := nodup_cons.mp (hperm.nodup_iff.mp h.queued)
  refine ⟨h.requeue (List.Subset.refl _) (List.Subset.refl _) ?_ hnodup.2, hnodup.1⟩
  rw [hqueue]
  exact subset_cons_self id rest

theorem Ledger.turnPrefilling (hqueue : b.prefilling = id :: rest) :
    Ledger words { b with prefilling := rest ++ [id] } out gone := by
  have hperm : (rest ++ [id]).Perm b.prefilling := by
    rw [hqueue]
    exact perm_append_singleton id rest
  have hnodup := ((hperm.append_left b.waiting).append_right b.decoding).nodup_iff.mpr h.queued
  exact h.requeue (List.Subset.refl _) hperm.subset (List.Subset.refl _) hnodup

theorem Ledger.enqueue (hget : b.requests.get id = some r) (hnew : id ∉ b.queues)
    (hperm : (waiting ++ prefilling ++ decoding).Perm (id :: b.queues))
    (hwaiting : ∀ other ∈ waiting, other ∈ b.waiting ∨
      other = id ∧ r.lifecycle = .waiting ∧ r.sequenceId = none)
    (hprefilling : ∀ other ∈ prefilling, other ∈ b.prefilling ∨
      other = id ∧ r.lifecycle = .prefilling)
    (hdecoding : ∀ other ∈ decoding, other ∈ b.decoding ∨ other = id ∧ r.lifecycle = .decoding) :
    Ledger words { b with waiting := waiting, prefilling := prefilling, decoding := decoding }
      out gone := by
  have hid := h.keyed id r hget
  have hvalue : r ∈ b.requests.values := mem_values_iff.mpr ⟨id, hget⟩
  have hsame : ∀ {other : Nat} {r' : Request K φ}, other = id →
      b.requests.get other = some r' → r' = r := by
    intro other r' hother hr'
    rw [hother, hget] at hr'
    exact (Option.some.inj hr').symm
  exact { h with
    queued := hperm.nodup_iff.mpr (nodup_cons.mpr ⟨hnew, h.queued⟩)
    known := fun other hother => by
      obtain rfl | hother := mem_cons.mp (hperm.mem_iff.mp hother)
      · exact hid ▸ h.fresh r (mem_append_left _ hvalue)
      · exact h.known other hother
    apart := fun r' hr' hmem => by
      obtain hother | hother := mem_cons.mp (hperm.mem_iff.mp hmem)
      · have hnodup := h.ids
        rw [Books.allRequests, map_append, nodup_append] at hnodup
        exact hnodup.2.2 _ (mem_map_of_mem hvalue) _ (mem_map_of_mem hr')
          (hid.trans hother.symm)
      · exact h.apart r' hr' hother
    waiting := fun other hother r' hr' => by
      obtain hother | ⟨hother, hlifecycle⟩ := hwaiting other hother
      · exact h.waiting other hother r' hr'
      · rwa [hsame hother hr']
    prefilling := fun other hother r' hr' => by
      obtain hother | ⟨hother, hlifecycle⟩ := hprefilling other hother
      · exact h.prefilling other hother r' hr'
      · rwa [hsame hother hr']
    decoding := fun other hother r' hr' => by
      obtain hother | ⟨hother, hlifecycle⟩ := hdecoding other hother
      · exact h.decoding other hother r' hr'
      · rwa [hsame hother hr'] }

omit h in
/-- A held request goes back into the map and into the decoding queue. -/
theorem Ledger.putDecoding {decoding : List Nat}
    (h : Ledger words b (r :: out) gone) (hsettled : Settled words b.sequences r)
    (hlifecycle : r.lifecycle = .decoding) (hperm : decoding.Perm (r.id :: b.decoding)) :
    Ledger words { b with decoding := decoding, requests := b.requests.insert r.id r } out gone := by
  have hnew := h.apart r mem_cons_self
  have hqueues : (b.waiting ++ b.prefilling ++ decoding).Perm (r.id :: b.queues) :=
    (hperm.append_left _).trans perm_middle
  exact (h.put hsettled).enqueue (get_insert_self _ _ _) hnew hqueues
    (fun _ hother => .inl hother) (fun _ hother => .inl hother) fun other hother =>
      (mem_cons.mp (hperm.mem_iff.mp hother)).symm.imp_right fun heq => ⟨heq, hlifecycle⟩

omit h in
/-- A held request goes back into the map and into the prefilling queue. -/
theorem Ledger.putPrefilling (h : Ledger words b (r :: out) gone)
    (hsettled : Settled words b.sequences r) (hlifecycle : r.lifecycle = .prefilling)
    (hperm : prefilling.Perm (r.id :: b.prefilling)) :
    Ledger words { b with prefilling := prefilling, requests := b.requests.insert r.id r }
      out gone := by
  have hnew := h.apart r mem_cons_self
  have hqueues : (b.waiting ++ prefilling ++ b.decoding).Perm (r.id :: b.queues) :=
    ((hperm.append_left _).trans perm_middle).append_right _
  exact (h.put hsettled).enqueue (get_insert_self _ _ _) hnew hqueues
    (fun _ hother => .inl hother) (fun other hother =>
      (mem_cons.mp (hperm.mem_iff.mp hother)).symm.imp_right fun heq => ⟨heq, hlifecycle⟩)
    fun _ hother => .inl hother

theorem Ledger.unqueue (id : Nat) :
    Ledger words { b with
      waiting := b.waiting.filter fun queued => queued ≠ id
      prefilling := b.prefilling.filter fun queued => queued ≠ id
      decoding := b.decoding.filter fun queued => queued ≠ id } out gone := by
  apply h.requeue
  · exact filter_subset_self _
  · exact filter_subset_self _
  · exact filter_subset_self _
  · have hqueues : b.waiting.filter (fun queued => queued ≠ id) ++
        b.prefilling.filter (fun queued => queued ≠ id) ++
        b.decoding.filter (fun queued => queued ≠ id) =
        b.queues.filter fun queued => queued ≠ id := by
      rw [Books.queues, filter_append, filter_append]
    rw [hqueues]
    exact h.queued.filter _

end

end

/-! ## Sequences -/

section
variable {b : Books n β φ K} {out : List (Request K φ)} {gone : List (DecisionGroup φ)}
variable {pool : BTreeMap Nat (Sequence n β)} {pool' : BTreeMap Nat (Sequence n β)}
variable {r : Request K φ}

theorem mem_owned_of_get {sequenceId : Nat} (hget : b.requests.get id = some r)
    (hsequence : r.sequenceId = some sequenceId) : sequenceId ∈ b.owned out gone := by
  have hvalue : r ∈ b.requests.values := mem_values_iff.mpr ⟨id, hget⟩
  exact mem_append_left _
    (mem_filterMap.mpr ⟨r, mem_append_left _ hvalue, hsequence⟩)

theorem Leads.congr
    (h : Leads pool lead r) (hsame : ∀ id, r.sequenceId = some id → pool'.get id = pool.get id) :
    Leads pool' lead r := by
  intro hunfinished id hid
  obtain ⟨sequence, hget, hposition⟩ := h hunfinished id hid
  exact ⟨sequence, (hsame id hid).trans hget, hposition⟩

theorem Leads.moved {count : Nat}
    {before after : Sequence n β} (h : Leads pool lead r) (hid : r.sequenceId = some id)
    (hbefore : pool.get id = some before) (hafter : pool'.get id = some after)
    (hmoved : Moved count before after) : Leads pool' (lead + count) r := by
  intro hunfinished other hother
  obtain rfl : id = other := Option.some.inj (hid.symm.trans hother)
  obtain ⟨sequence, hget, hposition⟩ := h hunfinished id hid
  obtain rfl : before = sequence := Option.some.inj (hbefore.symm.trans hget)
  exact ⟨after, hafter, by rw [hmoved.position, hposition, Nat.add_assoc]⟩

/-- The pool changes only at sequences that no request of the map owns. -/
theorem Ledger.withSequences (h : Ledger words b out gone)
    (hsame : ∀ id r sequenceId, b.requests.get id = some r → r.sequenceId = some sequenceId →
      pool.get sequenceId = b.sequences.get sequenceId)
    (hallocated : ∀ id sequence, pool.get id = some sequence →
      id < b.nextSequenceId ∧ sequence.state.appendPending = false) :
    Ledger words { b with sequences := pool } out gone := { h with
  allocated := hallocated
  settled := fun id r hr => ⟨(h.settled id r hr).consistent,
    (h.settled id r hr).leads.congr fun sequenceId hid => hsame id r sequenceId hr hid⟩ }

theorem Ledger.allocate (h : Ledger words b out gone)
    (hidle : sequence.state.appendPending = false) :
    Ledger words { b with
      sequences := b.sequences.insert b.nextSequenceId sequence
      nextSequenceId := b.nextSequenceId + 1 } out gone := { h with
  live := fun id hid => Nat.lt_succ_of_lt (h.live id hid)
  allocated := fun id other hget => by
    rw [get_insert] at hget
    split at hget
    · rename_i heq
      cases hget
      exact ⟨heq ▸ Nat.lt_succ_self _, hidle⟩
    · exact ⟨Nat.lt_succ_of_lt (h.allocated id other hget).1, (h.allocated id other hget).2⟩
  settled := fun id r hr => ⟨(h.settled id r hr).consistent,
    (h.settled id r hr).leads.congr fun sequenceId hid => by
      have hlive := h.live sequenceId (mem_owned_of_get hr hid)
      exact get_insert_of_ne _ _ (by omega)⟩ }

end

/-! ## Decision groups -/

section
variable {b : Books n β φ K} {out : List (Request K φ)} {gone : List (DecisionGroup φ)}
variable {g g' : DecisionGroup φ}

theorem owned_cons_group (b : Books n β φ K) (out : List (Request K φ))
    (gone : List (DecisionGroup φ)) (g : DecisionGroup φ) :
    (b.owned out (g :: gone)).Perm (g.sequences ++ b.owned out gone) := by
  have hall : (b.allGroups (g :: gone)).Perm (g :: b.allGroups gone) := perm_middle
  have hperm := (hall.flatMap_right DecisionGroup.sequences).append_left
    ((b.allRequests out).filterMap Request.sequenceId)
  unfold Books.owned
  rw [flatMap_cons] at hperm
  refine hperm.trans ?_
  rw [← append_assoc, ← append_assoc]
  exact perm_append_comm.append_right _

section
variable (h : Ledger words b out (g :: gone))
include h

/-- A phase changes a group that it holds, within the sequences it may own. -/
theorem Ledger.replaceGroup (howned : (g'.sequences ++ b.owned out gone).Nodup)
    (hlive : ∀ id ∈ g'.sequences, id < b.nextSequenceId) : Ledger words b out (g' :: gone) :=
  { h with
    owned := (owned_cons_group b out gone g').nodup_iff.mpr howned
    live := fun id hmem => by
      obtain hid | hmem := mem_append.mp ((owned_cons_group b out gone g').mem_iff.mp hmem)
      · exact hlive id hid
      · exact h.live id ((owned_cons_group b out gone g).mem_iff.mpr (mem_append_right _ hmem)) }

theorem Ledger.changeGroup
    (hsequences : g'.sequences.Subperm g.sequences) : Ledger words b out (g' :: gone) := by
  have howned := (owned_cons_group b out gone g).nodup_iff.mp h.owned
  apply h.replaceGroup
  · obtain ⟨l, hperm, hsub⟩ := hsequences
    have hnodup := howned.sublist (hsub.append_right (b.owned out gone))
    exact (hperm.append_right _).nodup_iff.mp hnodup
  · intro id hid
    apply h.live id ((owned_cons_group b out gone g).mem_iff.mpr _)
    exact mem_append_left _ (hsequences.subset hid)

/-- A held group takes over a sequence that nobody owns. -/
theorem Ledger.assignGroup
    (hsequences : g'.sequences.Perm (id :: g.sequences)) (hnew : id ∉ b.owned out (g :: gone))
    (hlive : id < b.nextSequenceId) : Ledger words b out (g' :: gone) := by
  have hperm := owned_cons_group b out gone g
  have howned := hperm.nodup_iff.mp h.owned
  apply h.replaceGroup
  · rw [(hsequences.append_right _).nodup_iff, cons_append, nodup_cons]
    exact ⟨fun hmem => hnew (hperm.mem_iff.mpr hmem), howned⟩
  · intro other hother
    obtain rfl | hother := mem_cons.mp (hsequences.mem_iff.mp hother)
    · exact hlive
    · exact h.live other (hperm.mem_iff.mpr (mem_append_left _ hother))

theorem Ledger.loseGroup : Ledger words b out gone :=
  { h with
    owned := ((owned_cons_group b out gone g).nodup_iff.mp h.owned).of_append_right
    live := fun id hid =>
      h.live id ((owned_cons_group b out gone g).mem_iff.mpr (mem_append_right _ hid)) }

omit h in
theorem owned_of_groups {b' : Books n β φ K} {gone' : List (DecisionGroup φ)}
    (hrequests : b'.requests = b.requests)
    (hgroups : (b'.allGroups gone').Perm (b.allGroups gone)) :
    (b'.owned out gone').Perm (b.owned out gone) := by
  unfold Books.owned Books.allRequests
  rw [hrequests]
  exact (hgroups.flatMap_right _).append_left _

omit h in
theorem Ledger.takeGroup (h : Ledger words b out gone) (hget : b.decisions.get id = some g) :
    Ledger words { b with decisions := b.decisions.erase id } out (g :: gone) := by
  have hall : (Books.allGroups { b with decisions := b.decisions.erase id } (g :: gone)).Perm
      (b.allGroups gone) := by
    have hvalues := (values_erase_perm hget).append_right gone
    exact perm_middle.trans hvalues.symm
  have howned : (Books.owned { b with decisions := b.decisions.erase id } out (g :: gone)).Perm
      (b.owned out gone) := owned_of_groups rfl hall
  exact { h with
    owned := howned.nodup_iff.mpr h.owned
    live := fun id hid => h.live id (howned.mem_iff.mp hid) }

theorem Ledger.putGroup (hget : b.decisions.get id = none) :
    Ledger words { b with decisions := b.decisions.insert id g } out gone := by
  have hall : (Books.allGroups { b with decisions := b.decisions.insert id g } gone).Perm
      (b.allGroups (g :: gone)) := by
    have hvalues := (values_insert_perm (v := g) hget).append_right gone
    exact hvalues.trans perm_middle.symm
  have howned : (Books.owned { b with decisions := b.decisions.insert id g } out gone).Perm
      (b.owned out (g :: gone)) := owned_of_groups rfl hall
  exact { h with
    owned := howned.nodup_iff.mpr h.owned
    live := fun id hid => h.live id (howned.mem_iff.mp hid) }

end

theorem Ledger.joinGroup (h : Ledger words b out []) (id : Nat) (hempty : g.sequences = []) :
    Ledger words { b with nextId := b.nextId + 1, decisions := b.decisions.insert id g } out [] := by
  -- A group under that id would be dropped.
  have herased : Ledger words { b with decisions := b.decisions.erase id } out [] := by
    cases hget : b.decisions.get id with
    | none =>
      have hsame : b.decisions.erase id = b.decisions := by
        apply BTreeMap.ext_get
        intro x
        rw [BTreeMap.get_erase]
        split
        · rename_i heq
          rw [← heq, hget]
        · rfl
      rw [hsame]
      exact h
    | some old => exact (h.takeGroup hget).loseGroup
  have hheld : Ledger words { b with decisions := b.decisions.erase id } out [g] :=
    { herased with
      owned := (owned_cons_group _ out [] g).nodup_iff.mpr (by rw [hempty]; exact herased.owned)
      live := fun id hmem => by
        have hmem := (owned_cons_group _ out [] g).mem_iff.mp hmem
        rw [hempty] at hmem
        exact herased.live id hmem }
  have hput := hheld.putGroup (get_erase_self _ _)
  rw [insert_erase] at hput
  exact { hput with
    fresh := fun r hr => Nat.lt_succ_of_lt (hput.fresh r hr)
    known := fun id hmem => Nat.lt_succ_of_lt (hput.known id hmem) }

end

/-! ## Leases -/

section
variable {b : Books n β φ K} {out : List (Request K φ)} {gone : List (DecisionGroup φ)}
variable {pool : BTreeMap Nat (Sequence n β)} {ids : List Nat} {entries : List (Sequence n β)}
variable {α γ : Type} {ys : List γ} {xs : List α}

theorem forall_mem_of_forall₂ {rel : α → γ → Prop} {p : α → Prop} {q : γ → Prop}
    (h : List.Forall₂ rel xs ys) (hxs : ∀ x ∈ xs, p x)
    (himp : ∀ x y, rel x y → p x → q y) : ∀ y ∈ ys, q y := by
  induction h with
  | nil => exact forall_mem_nil _
  | cons hhead _ ih =>
    obtain ⟨hx, hxs⟩ := forall_mem_cons.mp hxs
    exact forall_mem_cons.mpr ⟨himp _ _ hhead hx, ih hxs⟩

theorem forall_left_of_forall₂ {rel : α → γ → Prop} {p : α → Prop} (h : List.Forall₂ rel xs ys)
    (himp : ∀ x y, rel x y → p x) : ∀ x ∈ xs, p x := by
  induction h with
  | nil => exact forall_mem_nil _
  | cons hhead _ ih => exact forall_mem_cons.mpr ⟨himp _ _ hhead, ih⟩

theorem exists_mem_zip (hlength : ys.length = xs.length)
    {x : α} (h : x ∈ xs) : ∃ y, (x, y) ∈ xs.zip ys := by
  have hfst : (xs.zip ys).map Prod.fst = xs := map_fst_zip hlength.ge
  rw [← hfst] at h
  obtain ⟨⟨_, y⟩, hmem, rfl⟩ := mem_map.mp h
  exact ⟨y, hmem⟩

theorem leaseMany_ok (h : leaseMany pool ids = .ok entries) :
    ids.Nodup ∧ List.Forall₂ (fun id entry => pool.get id = some entry) ids entries := by
  unfold leaseMany at h
  split at h
  · rename_i hnodup
    refine ⟨hnodup, (mapM_ok h).imp fun id entry hentry => ?_⟩
    split at hentry
    · cases hentry
      assumption
    · cases hentry
  · cases h

theorem get_endLease_of_not_mem (h : id ∉ ids) :
    (endLease pool ids entries).get id = pool.get id := by
  unfold endLease
  induction ids generalizing pool entries with
  | nil => rfl
  | cons first rest ih =>
    rw [mem_cons, not_or] at h
    cases entries with
    | nil => rfl
    | cons entry entries =>
      rw [zip_cons_cons, foldl_cons, ih h.2, get_insert_of_ne _ _ h.1]

theorem get_endLease_of_mem {entry : Sequence n β} (hnodup : ids.Nodup)
    (h : (id, entry) ∈ ids.zip entries) : (endLease pool ids entries).get id = some entry := by
  induction ids generalizing pool entries with
  | nil => cases h
  | cons first rest ih =>
    obtain ⟨hfirst, hrest⟩ := nodup_cons.mp hnodup
    cases entries with
    | nil => cases h
    | cons head entries =>
      rw [zip_cons_cons, mem_cons] at h
      have hstep : endLease pool (first :: rest) (head :: entries) =
          endLease (pool.insert first head) rest entries := rfl
      rw [hstep]
      obtain h | h := h
      · cases h
        rw [get_endLease_of_not_mem hfirst, get_insert_self]
      · exact ih hrest h

/-- The sequences of what a phase holds. -/
def heldSequences (out : List (Request K φ)) (gone : List (DecisionGroup φ)) : List Nat :=
  out.filterMap Request.sequenceId ++ gone.flatMap DecisionGroup.sequences

section
variable (h : Ledger words b out gone)
include h

/-- A request of the map does not own a sequence of what a phase holds. -/
theorem Ledger.not_held {sequenceId : Nat} {r : Request K φ}
    (hget : b.requests.get id = some r) (hsequence : r.sequenceId = some sequenceId) :
    sequenceId ∉ heldSequences out gone := by
  have hvalue : sequenceId ∈ b.requests.values.filterMap Request.sequenceId :=
    mem_filterMap.mpr ⟨r, mem_values_iff.mpr ⟨id, hget⟩, hsequence⟩
  have hnodup := h.owned
  simp only [Books.owned, Books.allRequests, Books.allGroups, filterMap_append,
    flatMap_append, nodup_append, mem_append] at hnodup
  intro hheld
  obtain hheld | hheld := mem_append.mp hheld
  · exact hnodup.1.2.2 _ hvalue _ hheld rfl
  · exact hnodup.2.2 _ (.inl hvalue) _ (.inr hheld) rfl

omit h in
theorem Ledger.ne_of_held {r other : Request K φ} (h : Ledger words b (r :: out) gone)
    (hr : r.sequenceId = some id) (hother : other ∈ out) : other.sequenceId ≠ some id := by
  have hnodup : (id :: b.owned out gone).Nodup := by
    have hperm := owned_cons b out gone r
    rw [hr] at hperm
    exact hperm.nodup_iff.mp h.owned
  intro hsame
  apply (nodup_cons.mp hnodup).1
  apply mem_append_left
  exact mem_filterMap.mpr ⟨other, mem_append_right _ hother, hsame⟩

theorem Ledger.eraseSequence (hheld : id ∈ heldSequences out gone) :
    Ledger words { b with sequences := b.sequences.erase id } out gone := by
  apply h.withSequences
  · intro key r sequenceId hget hsequence
    have hne : sequenceId ≠ id := fun heq => h.not_held hget hsequence (heq ▸ hheld)
    exact get_erase_of_ne _ hne
  · intro other sequence hget
    rw [get_erase] at hget
    split at hget
    · cases hget
    · exact h.allocated other sequence hget

theorem Ledger.endLease {before : List (Sequence n β)}
    (hlease : leaseMany b.sequences ids = .ok before)
    (hheld : ∀ id ∈ ids, id ∈ heldSequences out gone) (hlength : entries.length = ids.length)
    (hidle : ∀ entry ∈ entries, entry.state.appendPending = false) :
    Ledger words { b with sequences := Qwen36.endLease b.sequences ids entries } out gone := by
  obtain ⟨hnodup, hbefore⟩ := leaseMany_ok hlease
  apply h.withSequences
  · intro id r sequenceId hget hsequence
    apply get_endLease_of_not_mem
    exact fun hmem => h.not_held hget hsequence (hheld sequenceId hmem)
  · intro id sequence hget
    by_cases hmem : id ∈ ids
    · obtain ⟨entry, hentry⟩ := exists_mem_zip hlength hmem
      rw [get_endLease_of_mem hnodup hentry] at hget
      cases hget
      obtain ⟨old, hold⟩ := exists_mem_zip hbefore.length_eq.symm hmem
      have hlive := h.allocated id old ((forall₂_iff_zip.mp hbefore).2 hold)
      exact ⟨hlive.1, hidle sequence (of_mem_zip hentry).2⟩
    · rw [get_endLease_of_not_mem hmem] at hget
      exact h.allocated id sequence hget

theorem Ledger.idle_of_lease (hlease : leaseMany b.sequences ids = .ok entries) :
    ∀ entry ∈ entries, entry.state.appendPending = false := by
  refine forall_mem_of_forall₂ (leaseMany_ok hlease).2 (p := fun _ => True) (fun _ _ => trivial) ?_
  exact fun id entry hget _ => (h.allocated id entry hget).2

/-- A batch over sequences that a phase holds keeps the ledger, whatever has failed. -/
theorem Ledger.batch {failing : Option Call} {c : C} {result : Except CudaError Unit}
    (hlease : leaseMany b.sequences ids = .ok (befores.map BatchRow.sequence))
    (hheld : ∀ id ∈ ids, id ∈ heldSequences out gone)
    (hmoves : BatchMoves failing befores ((rows, c), result)) :
    Ledger words { b with
      sequences := Qwen36.endLease b.sequences ids (rows.map BatchRow.sequence) } out gone := by
  have hlength := (leaseMany_ok hlease).2.length_eq
  rw [length_map] at hlength
  apply h.endLease hlease hheld
  · rw [length_map, hmoves.length, hlength]
  · intro entry hentry
    obtain ⟨row, hrow, rfl⟩ := mem_map.mp hentry
    exact hmoves.idle row hrow

end

variable {selected : List (Request K φ)} {count : BatchRow n β → Nat}

theorem leads_endLease (hids : List.Forall₂ (fun r id => r.sequenceId = some id) selected ids)
    (hlease : leaseMany pool ids = .ok (befores.map BatchRow.sequence))
    (hmoved : List.Forall₂ (fun before row => Moved (count before) before.sequence row.sequence)
      befores rows) :
    List.Forall₂ (fun r before => Leads pool 0 r →
      Leads (Qwen36.endLease pool ids (rows.map BatchRow.sequence)) (count before) r)
      selected befores := by
  obtain ⟨hnodup, hbefore⟩ := leaseMany_ok hlease
  have hleased := forall₂_map_right_iff.mp hbefore
  rw [forall₂_iff_get] at hids hleased hmoved ⊢
  refine ⟨hids.1.trans hleased.1, fun i hselected hbefores hleads => ?_⟩
  have hi : i < ids.length := hids.1 ▸ hselected
  have hrow : i < rows.length := hmoved.1 ▸ hbefores
  have hentry : (ids.get ⟨i, hi⟩, (rows.get ⟨i, hrow⟩).sequence) ∈
      ids.zip (rows.map BatchRow.sequence) := by
    rw [mem_iff_getElem]
    exact ⟨i, by simp [hi, hrow], by simp⟩
  rw [← Nat.zero_add (count _)]
  exact hleads.moved (hids.2 i hselected hi) (hleased.2 i hi hbefores)
    (get_endLease_of_mem hnodup hentry) (hmoved.2 i hbefores hrow)

theorem leads_of_moved (hids : List.Forall₂ (fun r id => r.sequenceId = some id) selected ids)
    (hlease : leaseMany pool ids = .ok (befores.map BatchRow.sequence))
    (hmoved : List.Forall₂ (fun before row => Moved (count before) before.sequence row.sequence)
      befores rows) (hcount : ∀ before ∈ befores, count before = lead)
    (hleads : ∀ r ∈ selected, Leads pool 0 r) :
    ∀ r ∈ selected, Leads (Qwen36.endLease pool ids (rows.map BatchRow.sequence)) lead r := by
  have hrows := (forall₂_and_left _ _).mpr ⟨hleads, leads_endLease hids hlease hmoved⟩
  refine forall_mem_of_forall₂ hrows.flip hcount fun before r hrow hlead => ?_
  rw [← hlead]
  exact hrow.2 hrow.1

end

/-! ## Calls -/

/-- What holds behind an error; a panic ends the scheduler. -/
def OnFailure {σ : Type} (P : σ → Prop) : Fault CudaError → σ → Prop
  | .failed _, s => P s
  | .panicked _, _ => True

section
variable {σ α γ : Type} {s : σ} {Q Q' : γ → σ → Prop} {P P' : σ → Prop}
variable {f : α → EStateM (Fault CudaError) σ γ} {result : Except CudaError α}

theorem ensures_imp {m : EStateM (Fault CudaError) σ γ} (h : Ensures m s Q (OnFailure P))
    (returns : ∀ a t, Q a t → Q' a t) (fails : ∀ t, P t → P' t) :
    Ensures m s Q' (OnFailure P') := by
  refine h.mono returns fun fault t ht => ?_
  cases fault with
  | failed e => exact fails t ht
  | panicked message => exact trivial

theorem attempt_bind (hok : ∀ a, result = .ok a → Ensures (f a) s Q (OnFailure P)) (hfailed : P s) :
    Ensures (attempt result >>= f) s Q (OnFailure P) := by
  cases result with
  | ok a => exact hok a rfl
  | error e => exact hfailed

theorem expect_bind {value : Option α} {message : String}
    (hsome : ∀ a, value = some a → Ensures (f a) s Q (OnFailure P)) :
    Ensures (expect value message >>= f) s Q (OnFailure P) := by
  cases value with
  | some a => exact hsome a rfl
  | none => exact trivial

theorem attempt_stays :
    Stays P (attempt result : EStateM (Fault CudaError) σ α) := by
  cases result with
  | ok a => exact .pure a
  | error e => exact .throw _

theorem expect_stays {value : Option α} {message : String} :
    Stays P (expect value message : EStateM (Fault CudaError) σ α) := by
  cases value with
  | some a => exact .pure a
  | none => exact .throw _

theorem reach_bind {input : TickInput φ} {site : Site} {call : String}
    {f : Unit → EStateM (Fault CudaError) σ γ}
    (hok : Ensures (f ()) s Q (OnFailure P)) (hfailed : input.fails site = true → P s) :
    Ensures (reach input site call >>= f) s Q (OnFailure P) := by
  unfold Qwen36.reach
  split
  · rename_i hfails
    exact hfailed hfails
  · exact hok

end

section
variable {γ : Type} {s : Scheduler n β φ C K} {Q : γ → Scheduler n β φ C K → Prop}
variable {P : Scheduler n β φ C K → Prop}

theorem takeRequest_bind {message : String} {f : Request K φ → Scheduling n β φ C K γ}
    (h : ∀ r, s.requests.get id = some r →
      Ensures (f r) { s with requests := s.requests.erase id } Q (OnFailure P)) :
    Ensures (takeRequest id message >>= f) s Q (OnFailure P) := by
  unfold takeRequest
  rw [bind_assoc]
  apply get_bind
  rw [bind_assoc]
  apply expect_bind
  intro r hr
  exact h r hr

theorem releaseSequence_bind {f : Sequence n β → Scheduling n β φ C K γ}
    (hsome : ∀ sequence, s.sequences.get id = some sequence →
      Ensures (f sequence) { s with sequences := s.sequences.erase id } Q (OnFailure P))
    (hfailed : P s) : Ensures (releaseSequence id >>= f) s Q (OnFailure P) := by
  unfold releaseSequence
  rw [bind_assoc]
  apply get_bind
  split
  · exact hfailed
  · rename_i sequence hget
    exact hsome sequence hget

theorem finishSequence_ensures {model : TextModel n β κ φ C R K}
    {Q : Unit → Scheduler n β φ C K → Prop} (h : ∀ c, Q () { s with cache := c })
    (hfailed : ∀ c, P { s with cache := c }) :
    Ensures (finishSequence model sequence) s Q (OnFailure P) := by
  apply get_bind
  apply set_bind
  cases (model.prefixes.finish s.cache sequence.cacheId).2 with
  | ok _ => exact h _
  | error e => exact hfailed _

theorem insertSequence_bind {f : Nat → Scheduling n β φ C K γ}
    (hok : Ensures (f s.nextSequenceId) { s with
      sequences := s.sequences.insert s.nextSequenceId sequence
      nextSequenceId := s.nextSequenceId + 1 } Q (OnFailure P)) (hfailed : P s) :
    Ensures (insertSequence sequence >>= f) s Q (OnFailure P) := by
  unfold insertSequence
  rw [bind_assoc]
  apply get_bind
  split
  · exact hok
  · exact hfailed

end

end Eider.Guarantees.SchedulerLedger
