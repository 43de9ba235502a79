import Mathlib.Data.List.Perm.Lattice
import Eider.Lib.Run
import Eider.Lib.SlotPool
import Eider.Source.PageBackends

/-!
# The slots of the DeepSeek V4, Ling 3 and Nemotron 3 page backends

The sequence cache calls a backend in any order, any call on the device may fail,
and the cache hands back a page only while it holds it. The free list, the bits and
the pages that the cache holds then say the same, as long as no page copy fails with
the synchronisation behind it failing too: `copy_partial_page` returns there before it
rolls its allocation back, and the slot is lost. `pools_keep_their_slots`.

A failed call hands over no page in either direction.
-/
namespace Eider.Guarantees.BackendSlots
open Lib Lib.Run Lib.SlotPool Source List

variable {released : List Sm12xPage} {alloc : Nat → Except CudaError Unit} {slots : Nat}

/-! ## The record of the slots -/

/-- The free list has no slot twice, the bits mark exactly the slots that are not free,
and every marked slot is held by exactly one page. -/
structure Consistent (n : Nat) (s : SlotRecord) (live : List Sm12xPage) : Prop where
  size : s.usedSlots.length = n
  free_nodup : s.freeSlots.Nodup
  free_lt : ∀ slot ∈ s.freeSlots, slot < n
  used_iff : ∀ slot < n, s.usedSlots[slot]? = some true ↔ slot ∉ s.freeSlots
  held_iff : ∀ slot, s.usedSlots[slot]? = some true ↔ ∃ page ∈ live, page.slot = slot
  held_once : (live.map Sm12xPage.slot).Nodup

/-- The slots of a pool of `n` are free or held by one of the pages, and the bits
mark the held ones. -/
structure Parted (n : Nat) (s : SlotRecord) (live : List Sm12xPage) : Prop where
  partition : Partition n s.freeSlots (live.map Sm12xPage.slot)
  marks : Marks s.usedSlots (live.map Sm12xPage.slot)
  size : s.usedSlots.length = n

variable {n : Nat} {s t : SlotRecord} {live : List Sm12xPage} (errors : BackendErrors)

theorem Parted.consistent (h : Parted n s live) : Consistent n s live where
  size := h.size
  free_nodup := h.partition.free_nodup
  free_lt slot hfree := h.partition.lt_iff.mpr (.inl hfree)
  used_iff slot hslot := by
    have hfree : slot ∈ s.freeSlots ↔ slot < n ∧ slot ∉ live.map Sm12xPage.slot :=
      h.partition.mem_free_iff
    rw [h.marks slot, hfree]
    simp [hslot]
  held_iff slot := by
    rw [h.marks slot, mem_map]
  held_once := h.partition.held_nodup

theorem new_parted : Parted n (.new n) [] where
  partition := Partition.initial (reverse_perm _)
  marks := Marks.initial
  size := length_replicate

theorem Parted.release {page : Sm12xPage} (h : Parted n s live) (hpage : page ∈ live) :
    Parted n (s.release page) (live.erase page) where
  partition := by
    rw [map_erase slot_injective]
    exact h.partition.give (mem_map_of_mem hpage)
  marks := by
    rw [map_erase slot_injective]
    exact h.marks.give h.partition.held_nodup
  size := by
    rw [SlotRecord.release, length_set]
    exact h.size

/-- The release loops give back one held page after the other. -/
theorem Parted.releaseAll (h : Parted n s live) (hreleased : released.Subperm live) :
    Parted n (s.releaseAll released) (live.diff released) := by
  induction released generalizing s live with
  | nil => simpa [SlotRecord.releaseAll] using h
  | cons page rest ih =>
    have hpage : page ∈ live := hreleased.subset mem_cons_self
    have hrest := hreleased.erase page
    rw [erase_cons_head] at hrest
    rw [diff_cons]
    exact ih (h.release hpage) hrest

/-- The pages held behind a call that hands one out. -/
def received (live : List Sm12xPage) : Except CudaError PageAllocation → List Sm12xPage
  | .ok allocation => allocation.page :: live
  | .error _ => live

/-- The pages held behind a call that takes some back. -/
def returned (live released : List Sm12xPage) : Except CudaError Unit → List Sm12xPage
  | .ok () => live.diff released
  | .error _ => live

theorem allocatePage_parted (h : Parted n s live) :
    Parted n (s.allocatePage errors).2 (received live (s.allocatePage errors).1) := by
  rw [SlotRecord.allocatePage]
  cases hlast : s.freeSlots.getLast? with
  | none => exact h
  | some slot =>
    obtain ⟨free, hfree⟩ := getLast?_eq_some_iff.mp hlast
    have hpartition := h.partition
    rw [hfree] at hpartition
    have hlt : slot < n := hpartition.lt_iff.mpr (.inl (mem_append_right _ (by simp)))
    refine ⟨?_, ?_, ?_⟩
    · simp only [received, hfree, dropLast_concat, map_cons]
      exact hpartition.take
    · exact h.marks.take (by rw [h.size]; exact hlt)
    · simpa using h.size

section
variable {D S T : Type} (calls : BufferDevice D S) {copy : Nat → Nat → D → Outcome D Unit}
  {source : Sm12xPage} {validTokens : Nat} {device : D}

/-- The call allocates a page, the copy into it fails, and so does the synchronisation
behind the failed copy. -/
def LosesPage (copy : Nat → Nat → D → Outcome D Unit) (s : SlotRecord) (source : Sm12xPage)
    (validTokens : Nat) (device : D) : Prop :=
  s.validate errors source = .ok () ∧ 0 < validTokens ∧ validTokens < sm12xKvPageTokens ∧
    ∃ (allocation : PageAllocation) (t : SlotRecord) (e sync : CudaError) (failed left : D),
      s.allocatePage errors = (.ok allocation, t) ∧
      copy source.slot allocation.page.slot device = (.error e, failed) ∧
      calls.synchronize failed = (.error sync, left)

theorem copyPartialPage_parted (h : Parted n s live)
    (hkept : ¬ LosesPage errors calls copy s source validTokens device) :
    Parted n (SlotRecord.copyPartialPage calls errors copy s source validTokens device).2.1
      (received live
        (SlotRecord.copyPartialPage calls errors copy s source validTokens device).1) := by
  rw [SlotRecord.copyPartialPage]
  split
  · exact h
  · rename_i hvalid
    split
    · exact h
    · rename_i htokens
      simp only [Bool.or_eq_true, decide_eq_true_eq, not_or] at htokens
      have hallocated := allocatePage_parted errors h
      split
      · rename_i e t heq
        rw [heq] at hallocated
        exact hallocated
      · rename_i allocation t heq
        rw [heq] at hallocated
        split
        · exact hallocated
        · rename_i e failed hcopy
          split
          · rename_i sync left hsync
            exact absurd ⟨hvalid, by omega, by omega, allocation, t, e, sync, failed, left, heq,
              hcopy, hsync⟩ hkept
          · have hback := hallocated.release mem_cons_self
            rw [received, erase_cons_head] at hback
            exact hback

/-- A call that loses a page leaves a slot marked that no page holds. -/
theorem copyPartialPage_lost (h : Parted n s live)
    (hlost : LosesPage errors calls copy s source validTokens device) :
    ¬ Consistent n (SlotRecord.copyPartialPage calls errors copy s source validTokens device).2.1
      (received live
        (SlotRecord.copyPartialPage calls errors copy s source validTokens device).1) := by
  obtain ⟨hvalid, hpos, htokens, allocation, t, e, sync, failed, left, hallocated, hcopy, hsync⟩ :=
    hlost
  have hrange : ¬ (decide (validTokens = 0) || decide (validTokens ≥ sm12xKvPageTokens)) = true := by
    simp only [Bool.or_eq_true, decide_eq_true_eq, not_or]
    omega
  have hcall : SlotRecord.copyPartialPage calls errors copy s source validTokens device =
      (.error sync, t, left) := by
    simp only [SlotRecord.copyPartialPage, hvalid, if_neg hrange, hallocated, hcopy, hsync]
  have hparted := allocatePage_parted errors h
  rw [hallocated] at hparted
  have hnew : allocation.page.slot ∉ live.map Sm12xPage.slot :=
    (nodup_cons.mp hparted.partition.held_nodup).1
  have hmarked : t.usedSlots[allocation.page.slot]? = some true :=
    (hparted.marks allocation.page.slot).mpr mem_cons_self
  rw [hcall]
  intro hconsistent
  exact hnew (mem_map.mpr ((hconsistent.held_iff _).mp hmarked))

theorem finishAppend_parted {a : BackendState T D} {pages : List Sm12xPage} {position : Nat}
    (h : Parted n a.slots live) (hreleased : released.Subperm live) :
    Parted n (SlotRecord.finishAppend calls a pages released position).2.slots
      (returned live released (SlotRecord.finishAppend calls a pages released position).1) := by
  rw [SlotRecord.finishAppend]
  split
  · exact h
  · exact h.releaseAll hreleased

variable (restore : T → D → Outcome D Unit)

theorem abortAppend_parted (a : BackendState T D)
    (restored : List Sm12xPage) (position : Nat) (h : Parted n a.slots live)
    (hreleased : released.Subperm live) :
    Parted n (SlotRecord.abortAppend calls errors restore a restored released position).2.slots
      (returned live released
        (SlotRecord.abortAppend calls errors restore a restored released position).1) := by
  rw [SlotRecord.abortAppend]
  split
  · exact h
  · split
    · exact h
    · split
      · exact h
      · exact finishAppend_parted calls h hreleased

theorem commitAppend_parted (a : BackendState T D)
    {commit : BackendAppendCommit} (h : Parted n a.slots live)
    (hreleased : commit.releasedPages.Subperm live) :
    Parted n (SlotRecord.commitAppend calls errors restore a commit).2.slots
      (returned live commit.releasedPages
        (SlotRecord.commitAppend calls errors restore a commit).1) := by
  rw [SlotRecord.commitAppend]
  split
  · exact h
  · split
    · exact h
    · dsimp only
      split
      · exact h
      · exact finishAppend_parted calls h hreleased

theorem retirePages_parted (settle : D → Outcome D Unit) (device : D) {pages : List Sm12xPage}
    (h : Parted n s live) (hpages : pages.Subperm live) :
    Parted n (s.retirePages errors settle pages device).2.1
      (returned live pages (s.retirePages errors settle pages device).1) := by
  rw [SlotRecord.retirePages]
  split
  · exact h
  · split
    · exact h
    · exact h.releaseAll hpages

end

/-! ## Histories -/

/-- The backend, the device, and the pages that the cache holds. -/
structure World (B D : Type) where
  backend : B
  device : D
  live : List Sm12xPage

/-- One call of the backend. An append is aborted or committed with the transaction
that the cache kept and the page table of the sequence. -/
inductive Operation (T : Type) where
  | allocatePage
  | rollbackPage (page : Sm12xPage)
  | prepareAppend (pages : List BackendAppendPage)
  | abortAppend (transaction : T) (table : PageTable) (restored released : List Sm12xPage)
      (position : Nat)
  | copyPartialPage (source : Sm12xPage) (validTokens : Nat)
  | commitAppend (transaction : T) (table : PageTable) (commit : BackendAppendCommit)
  | updatePageTable (table : PageTable) (pages : List Sm12xPage) (position : Nat)
  | retirePages (pages : List Sm12xPage)

section
variable {B D S T : Type} (calls : BufferDevice D S) (errors : BackendErrors)
  (copies : B → Nat → Nat → D → Outcome D Unit) (backend : PageBackendCalls B T D)

/-- One call, successful or not. -/
def step (w : World B D) : Operation T → World B D
  | .allocatePage =>
    let (result, b) := backend.allocatePage w.backend
    ⟨b, w.device, received w.live result⟩
  | .rollbackPage page => ⟨backend.rollbackPage w.backend page, w.device, w.live.erase page⟩
  | .prepareAppend pages =>
    let (_, b, device) := backend.prepareAppend w.backend pages w.device
    ⟨b, device, w.live⟩
  | .abortAppend transaction table restored released position =>
    let (result, b, _, context) :=
      backend.abortAppend w.backend transaction restored released position ⟨w.device, table⟩
    ⟨b, context.device, returned w.live released result⟩
  | .copyPartialPage source validTokens =>
    let (result, b, device) := backend.copyPartialPage w.backend source validTokens w.device
    ⟨b, device, received w.live result⟩
  | .commitAppend transaction table commit =>
    let (result, b, _, context) :=
      backend.commitAppend w.backend transaction commit ⟨w.device, table⟩
    ⟨b, context.device, returned w.live commit.releasedPages result⟩
  | .updatePageTable table pages position =>
    let (_, context) := backend.updatePageTable w.backend pages position ⟨w.device, table⟩
    ⟨w.backend, context.device, w.live⟩
  | .retirePages pages =>
    let (result, b, device) := backend.retirePages w.backend pages w.device
    ⟨b, device, returned w.live pages result⟩

/-- The cache hands back pages that it holds, each once. -/
def HandsBackHeld (w : World B D) : Operation T → Prop
  | .rollbackPage page => page ∈ w.live
  | .abortAppend _ _ _ released _ => released.Subperm w.live
  | .commitAppend _ _ commit => commit.releasedPages.Subperm w.live
  | .retirePages pages => pages.Subperm w.live
  | _ => True

/-- The call is a page copy that fails with the synchronisation behind it. -/
def Strands (w : World B D) : Operation T → Prop
  | .copyPartialPage source validTokens =>
    LosesPage errors calls (copies w.backend) (backend.slots w.backend) source validTokens w.device
  | _ => False

/-- A backend whose calls treat its slots as the shared record says. -/
structure Follows : Prop where
  allocatePage : ∀ b, ((backend.allocatePage b).1, backend.slots (backend.allocatePage b).2) =
    (backend.slots b).allocatePage errors
  rollbackPage : ∀ b page,
    backend.slots (backend.rollbackPage b page) = (backend.slots b).release page
  prepareAppend : ∀ b pages device,
    backend.slots (backend.prepareAppend b pages device).2.1 = backend.slots b
  abortAppend : ∀ b transaction restored released position context,
    ∃ restore : T → D → Outcome D Unit,
      ((backend.abortAppend b transaction restored released position context).1,
        backend.slots (backend.abortAppend b transaction restored released position context).2.1) =
      (fun left => (left.1, left.2.slots)) (SlotRecord.abortAppend calls errors restore
        ⟨backend.slots b, transaction, context⟩ restored released position)
  copyPartialPage : ∀ b source validTokens device,
    ((backend.copyPartialPage b source validTokens device).1,
      backend.slots (backend.copyPartialPage b source validTokens device).2.1) =
    (fun left => (left.1, left.2.1)) (SlotRecord.copyPartialPage calls errors (copies b)
      (backend.slots b) source validTokens device)
  commitAppend : ∀ b transaction commit context, ∃ restore : T → D → Outcome D Unit,
    ((backend.commitAppend b transaction commit context).1,
      backend.slots (backend.commitAppend b transaction commit context).2.1) =
    (fun left => (left.1, left.2.slots)) (SlotRecord.commitAppend calls errors restore
      ⟨backend.slots b, transaction, context⟩ commit)
  retirePages : ∀ b pages device, ∃ settle : D → Outcome D Unit,
    ((backend.retirePages b pages device).1, backend.slots (backend.retirePages b pages device).2.1)
      = (fun left => (left.1, left.2.1))
        (SlotRecord.retirePages errors settle (backend.slots b) pages device)

variable {calls errors copies backend}

theorem step_parted (follows : Follows calls errors copies backend) {w : World B D}
    {operation : Operation T} (h : Parted n (backend.slots w.backend) w.live)
    (hback : HandsBackHeld w operation)
    (hkept : ¬ Strands calls errors copies backend w operation) :
    Parted n (backend.slots (step backend w operation).backend)
      (step backend w operation).live := by
  cases operation with
  | allocatePage =>
    have hresult := congrArg Prod.fst (follows.allocatePage w.backend)
    have hslots := congrArg Prod.snd (follows.allocatePage w.backend)
    have hparted := allocatePage_parted errors h
    rw [← hresult, ← hslots] at hparted
    exact hparted
  | rollbackPage page =>
    have hslots := follows.rollbackPage w.backend page
    have hparted := h.release hback
    rw [← hslots] at hparted
    exact hparted
  | prepareAppend pages =>
    have hslots := follows.prepareAppend w.backend pages w.device
    rw [← hslots] at h
    exact h
  | abortAppend transaction table restored released position =>
    obtain ⟨restore, heq⟩ := follows.abortAppend w.backend transaction restored released position
      ⟨w.device, table⟩
    obtain ⟨hresult, hslots⟩ := Prod.mk.inj heq
    have hparted := abortAppend_parted errors calls restore
      ⟨backend.slots w.backend, transaction, ⟨w.device, table⟩⟩ restored position h hback
    rw [← hresult, ← hslots] at hparted
    exact hparted
  | copyPartialPage source validTokens =>
    obtain ⟨hresult, hslots⟩ :=
      Prod.mk.inj (follows.copyPartialPage w.backend source validTokens w.device)
    have hparted := copyPartialPage_parted errors calls h hkept
    rw [← hresult, ← hslots] at hparted
    exact hparted
  | commitAppend transaction table commit =>
    obtain ⟨restore, heq⟩ := follows.commitAppend w.backend transaction commit ⟨w.device, table⟩
    obtain ⟨hresult, hslots⟩ := Prod.mk.inj heq
    have hparted := commitAppend_parted errors calls restore
      ⟨backend.slots w.backend, transaction, ⟨w.device, table⟩⟩ h hback
    rw [← hresult, ← hslots] at hparted
    exact hparted
  | updatePageTable table pages position => exact h
  | retirePages pages =>
    obtain ⟨settle, heq⟩ := follows.retirePages w.backend pages w.device
    obtain ⟨hresult, hslots⟩ := Prod.mk.inj heq
    have hparted := retirePages_parted errors settle w.device h hback
    rw [← hresult, ← hslots] at hparted
    exact hparted

/-- A page copy that fails with the synchronisation behind it breaks the record. -/
theorem step_strands (follows : Follows calls errors copies backend) {w : World B D}
    {operation : Operation T} (h : Parted n (backend.slots w.backend) w.live)
    (hstrands : Strands calls errors copies backend w operation) :
    ¬ Consistent n (backend.slots (step backend w operation).backend)
      (step backend w operation).live := by
  cases operation with
  | copyPartialPage source validTokens =>
    obtain ⟨hresult, hslots⟩ :=
      Prod.mk.inj (follows.copyPartialPage w.backend source validTokens w.device)
    have hlost := copyPartialPage_lost errors calls h hstrands
    rw [← hresult, ← hslots] at hlost
    exact hlost
  | _ => exact hstrands.elim

/-- A device whose synchronisations succeed strands nothing. -/
theorem not_strands (settles : ∀ device, (calls.synchronize device).1 = .ok ()) (w : World B D)
    (operation : Operation T) : ¬ Strands calls errors copies backend w operation := by
  cases operation with
  | copyPartialPage source validTokens =>
    rintro ⟨-, -, -, allocation, t, e, sync, failed, left, -, -, hsync⟩
    have hok := settles failed
    rw [hsync] at hok
    cases hok
  | _ => exact id

variable (calls errors copies backend) in
/-- Over every history of calls from a new backend of `n` slots in which no page copy
failed with the synchronisation behind it, the record is consistent; and one more call
keeps it so exactly if it is not such a page copy. -/
def KeepsSlots (n : Nat) (b : B) : Prop :=
  ∀ (device : D) (operations : List (Operation T)) (w : World B D),
    Path (fun w operation => some (step backend w operation))
      (fun w operation => HandsBackHeld w operation ∧
        ¬ Strands calls errors copies backend w operation) ⟨b, device, []⟩ operations w →
    Consistent n (backend.slots w.backend) w.live ∧
      ∀ operation : Operation T, HandsBackHeld w operation →
        (Consistent n (backend.slots (step backend w operation).backend)
            (step backend w operation).live ↔
          ¬ Strands calls errors copies backend w operation)

theorem Follows.keepsSlots (follows : Follows calls errors copies backend) {b : B}
    (fresh : backend.slots b = .new n) : KeepsSlots calls errors copies backend n b := by
  intro device operations w path
  have hparted : Parted n (backend.slots w.backend) w.live := by
    have hkeeps : ∀ {w w' : World B D} {operation : Operation T},
        Parted n (backend.slots w.backend) w.live →
        (HandsBackHeld w operation ∧ ¬ Strands calls errors copies backend w operation) →
        some (step backend w operation) = some w' → Parted n (backend.slots w'.backend) w'.live := by
      intro w w' operation h hguard hstep
      cases hstep
      exact step_parted follows h hguard.1 hguard.2
    refine path.invariant hkeeps ?_
    rw [fresh]
    exact new_parted
  refine ⟨hparted.consistent, ?_⟩
  intro operation hback
  constructor
  · intro hconsistent hstrands
    exact step_strands follows hparted hstrands hconsistent
  · intro hkept
    exact (step_parted follows hparted hback hkept).consistent

end

/-! ## The three backends -/

section
variable {D S : Type} (calls : BufferDevice D S)

theorem deepseek4_follows : Follows calls Deepseek4PageBackend.errors
    (Deepseek4PageBackend.copyPages calls) (Deepseek4PageBackend.pageBackend calls) where
  allocatePage _ := rfl
  rollbackPage _ _ := rfl
  prepareAppend _ _ _ := rfl
  abortAppend _ _ _ _ _ _ := ⟨fun _ device => (.ok (), device), rfl⟩
  copyPartialPage _ _ _ _ := rfl
  commitAppend _ _ _ _ := ⟨fun _ device => (.ok (), device), rfl⟩
  retirePages _ _ _ := ⟨calls.synchronize, rfl⟩

theorem ling3_follows : Follows calls Ling3PageBackend.errors
    (Ling3PageBackend.copyPages calls) (Ling3PageBackend.pageBackend calls) where
  allocatePage _ := rfl
  rollbackPage _ _ := rfl
  prepareAppend _ _ _ := rfl
  abortAppend _ _ _ _ _ _ := ⟨fun _ device => (.ok (), device), rfl⟩
  copyPartialPage _ _ _ _ := rfl
  commitAppend _ _ _ _ := ⟨fun _ device => (.ok (), device), rfl⟩
  retirePages _ _ _ := ⟨calls.synchronize, rfl⟩

variable (b : Nemotron3PageBackend S)

theorem recycleTransaction_slots (transaction : PageTransaction S) :
    (Nemotron3PageBackend.recycleTransaction b transaction).1.slots = b.slots := by
  rw [Nemotron3PageBackend.recycleTransaction]
  split <;> rfl

theorem recycleAppend_slots (left : Outcome (BackendState (PageTransaction S) D) Unit) :
    ((Nemotron3PageBackend.recycleAppend b left).1,
      (Nemotron3PageBackend.recycleAppend b left).2.1.slots) = (left.1, left.2.slots) := by
  obtain ⟨result, left⟩ := left
  cases result with
  | error e => rfl
  | ok =>
    have hslots := recycleTransaction_slots { b with slots := left.slots } left.transaction
    exact congrArg (Prod.mk _) hslots

theorem nemotron3_prepareAppend_slots (pages : List BackendAppendPage) (device : D) :
    (Nemotron3PageBackend.prepareAppend calls b pages device).2.1.slots = b.slots := by
  rw [Nemotron3PageBackend.prepareAppend]
  split
  · rfl
  · split
    · rfl
    · split
      · rfl
      · dsimp only
        split
        · rfl
        · split <;> rfl

theorem nemotron3_follows : Follows calls Nemotron3PageBackend.errors
    (Nemotron3PageBackend.copyPages calls) (Nemotron3PageBackend.pageBackend (S := S) calls) where
  allocatePage _ := rfl
  rollbackPage _ _ := rfl
  prepareAppend b pages device := nemotron3_prepareAppend_slots calls b pages device
  abortAppend b _ _ _ _ _ := ⟨_, recycleAppend_slots b _⟩
  copyPartialPage _ _ _ _ := rfl
  commitAppend b _ _ _ := ⟨_, recycleAppend_slots b _⟩
  retirePages _ _ _ := ⟨fun device => (.ok (), device), rfl⟩

theorem deepseek4_new_slots {layers width : Nat} {b : Deepseek4PageBackend}
    (h : Deepseek4PageBackend.new alloc layers width slots = .ok b) : b.slots = .new slots := by
  simp only [Deepseek4PageBackend.new, bind, Except.bind, pure, Except.pure] at h
  repeat' split at h
  all_goals cases h
  all_goals rfl

theorem ling3_new_slots {layouts : List (Option (Nat × Nat))} {b : Ling3PageBackend}
    (h : Ling3PageBackend.new alloc layouts slots = .ok b) : b.slots = .new slots := by
  simp only [Ling3PageBackend.new, bind, Except.bind, pure, Except.pure] at h
  repeat' split at h
  all_goals cases h
  all_goals rfl

theorem nemotron3_new_slots {nvfp4Bytes : Except CudaError Nat} {layers : List Bool}
    {kvHeads headDim : Nat} {storage : Nemotron3KvCacheStorage} {b : Nemotron3PageBackend S}
    (h : Nemotron3PageBackend.new alloc nvfp4Bytes layers slots kvHeads headDim storage = .ok b) :
    b.slots = .new slots := by
  simp only [Nemotron3PageBackend.new, bind, Except.bind, pure, Except.pure] at h
  repeat' split at h
  all_goals cases h
  all_goals rfl

/-- **Page pools.** Every history of calls on a new backend keeps its slots, up to the
first page copy that fails with the synchronisation behind it. -/
theorem pools_keep_their_slots (alloc : Nat → Except CudaError Unit) (slots : Nat) :
    (∀ (layers width : Nat) (b : Deepseek4PageBackend),
      Deepseek4PageBackend.new alloc layers width slots = .ok b →
      KeepsSlots calls Deepseek4PageBackend.errors (Deepseek4PageBackend.copyPages calls)
        (Deepseek4PageBackend.pageBackend calls) slots b) ∧
    (∀ (layouts : List (Option (Nat × Nat))) (b : Ling3PageBackend),
      Ling3PageBackend.new alloc layouts slots = .ok b →
      KeepsSlots calls Ling3PageBackend.errors (Ling3PageBackend.copyPages calls)
        (Ling3PageBackend.pageBackend calls) slots b) ∧
    (∀ (nvfp4Bytes : Except CudaError Nat) (layers : List Bool) (kvHeads headDim : Nat)
      (storage : Nemotron3KvCacheStorage) (b : Nemotron3PageBackend S),
      Nemotron3PageBackend.new alloc nvfp4Bytes layers slots kvHeads headDim storage = .ok b →
      KeepsSlots calls Nemotron3PageBackend.errors (Nemotron3PageBackend.copyPages calls)
        (Nemotron3PageBackend.pageBackend calls) slots b) := by
  refine ⟨?_, ?_, ?_⟩
  · intro layers width b made
    exact (deepseek4_follows calls).keepsSlots (deepseek4_new_slots made)
  · intro layouts b made
    exact (ling3_follows calls).keepsSlots (ling3_new_slots made)
  · intro nvfp4Bytes layers kvHeads headDim storage b made
    exact (nemotron3_follows calls).keepsSlots (nemotron3_new_slots made)

end

/-- A device whose page copies fail; `sync` is what its synchronisations return. -/
def failingCopies (sync : Except CudaError Unit) : BufferDevice Unit Unit where
  tailSnapshot _ device := (.ok (), device)
  snapshotTailOnStream _ _ snapshot device := (.ok snapshot, device)
  restoreTailPrefixOnStream _ _ _ _ device := (.ok (), device)
  copyPageOnStream _ _ _ device := (.error (.device "copy_page_on_stream"), device)
  synchronize device := (sync, device)
  synchronizeUpload device := (.ok (), device)
  upload _ device := (.ok (), device)
  copyWithinOnStream _ _ _ _ _ device := (.error (.device "copy_within_on_stream"), device)

/-- A page is allocated, its copy fails, and the page retires: both slots are free. -/
theorem failed_copy_keeps_slots :
    ∃ (b : Deepseek4PageBackend) (w : World Deepseek4PageBackend Unit),
      Deepseek4PageBackend.new (fun _ => .ok ()) 1 1 2 = .ok b ∧
      w.backend.slots.freeSlots = [1, 0] ∧ Consistent 2 w.backend.slots w.live := by
  have hpath : ∃ (b : Deepseek4PageBackend) (w : World Deepseek4PageBackend Unit),
      Deepseek4PageBackend.new (fun _ => .ok ()) 1 1 2 = .ok b ∧
      w.backend.slots.freeSlots = [1, 0] ∧
      Path (fun w operation =>
          some (step (Deepseek4PageBackend.pageBackend (failingCopies (.ok ()))) w operation))
        (fun w operation => HandsBackHeld w operation ∧
          ¬ Strands (failingCopies (.ok ())) Deepseek4PageBackend.errors
            (Deepseek4PageBackend.copyPages (failingCopies (.ok ())))
            (Deepseek4PageBackend.pageBackend (failingCopies (.ok ()))) w operation)
        ⟨b, (), []⟩ [.allocatePage, .copyPartialPage ⟨0⟩ 5, .retirePages [⟨0⟩]] w := by
    have hsettles := fun device => (rfl : ((failingCopies (.ok ())).synchronize device).1 = .ok ())
    refine ⟨_, _, rfl, rfl, .cons ⟨trivial, not_strands hsettles _ _⟩ rfl
      (.cons ⟨trivial, not_strands hsettles _ _⟩ rfl
        (.cons ⟨?_, not_strands hsettles _ _⟩ rfl (.nil _)))⟩
    exact singleton_subperm_iff.mpr mem_cons_self
  obtain ⟨b, w, made, hfree, path⟩ := hpath
  have hkeeps := (pools_keep_their_slots (failingCopies (.ok ())) (fun _ => .ok ()) 2).1 1 1 b made
  exact ⟨b, w, made, hfree, (hkeeps () _ w path).1⟩

/-- The same history on any of the three backends, with the synchronisation failing too:
slot 1 is marked and not free, and no page holds it. -/
theorem failed_synchronisation_loses_slot :
    let calls := failingCopies (.error (.device "synchronize"))
    let history : List (Operation Unit) := [.allocatePage, .copyPartialPage ⟨0⟩ 5]
    (∃ (b : Deepseek4PageBackend) (w : World Deepseek4PageBackend Unit),
      Deepseek4PageBackend.new (fun _ => .ok ()) 1 1 2 = .ok b ∧
      Path (fun w operation => some (step (Deepseek4PageBackend.pageBackend calls) w operation))
        HandsBackHeld ⟨b, (), []⟩ history w ∧
      w.live = [⟨0⟩] ∧ w.backend.slots = ⟨[], [true, true], [true, true]⟩ ∧
      ¬ Consistent 2 w.backend.slots w.live) ∧
    (∃ (b : Ling3PageBackend) (w : World Ling3PageBackend Unit),
      Ling3PageBackend.new (fun _ => .ok ()) [some (1, 1)] 2 = .ok b ∧
      Path (fun w operation => some (step (Ling3PageBackend.pageBackend calls) w operation))
        HandsBackHeld ⟨b, (), []⟩ history w ∧
      w.live = [⟨0⟩] ∧ w.backend.slots = ⟨[], [true, true], [true, true]⟩ ∧
      ¬ Consistent 2 w.backend.slots w.live) ∧
    (∃ (b : Nemotron3PageBackend Unit) (w : World (Nemotron3PageBackend Unit) Unit),
      Nemotron3PageBackend.new (fun _ => .ok ()) (.ok 1) [true] 2 1 1 .f32 = .ok b ∧
      Path (fun w operation => some (step (Nemotron3PageBackend.pageBackend calls) w operation))
        HandsBackHeld ⟨b, (), []⟩ [.allocatePage, .copyPartialPage ⟨0⟩ 5] w ∧
      w.live = [⟨0⟩] ∧ w.backend.slots = ⟨[], [true, true], [true, true]⟩ ∧
      ¬ Consistent 2 w.backend.slots w.live) := by
  have hlost : ¬ Consistent 2 ⟨[], [true, true], [true, true]⟩ [⟨0⟩] := by
    intro hconsistent
    have hheld := (hconsistent.held_iff 1).mp rfl
    simp at hheld
  exact ⟨⟨_, _, rfl, .cons trivial rfl (.cons trivial rfl (.nil _)), rfl, rfl, hlost⟩,
    ⟨_, _, rfl, .cons trivial rfl (.cons trivial rfl (.nil _)), rfl, rfl, hlost⟩,
    ⟨_, _, rfl, .cons trivial rfl (.cons trivial rfl (.nil _)), rfl, rfl, hlost⟩⟩

end Eider.Guarantees.BackendSlots
