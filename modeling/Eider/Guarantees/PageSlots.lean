import Mathlib.Data.List.Perm.Lattice
import Eider.Lib.Run
import Eider.Lib.SlotPool
import Eider.Source.PageBackend

/-!
# The slots of the page backend

The sequence cache calls the backend in any order, any call on the device may
fail, and the cache hands back a page only while it holds it. Then the free list
of the backend is the complement of the slots of the pages that the cache holds,
without a slot twice on either side: `free_slots_complement_live_pages`.

A step of the system is one call of the backend, with the pages that the cache
holds afterwards. A failed call hands over no page in either direction.
-/
namespace Eider.Guarantees.PageSlots
open Lib Lib.Run Lib.SlotPool Source List

/-- The backend, the device, and the pages that the cache holds. -/
structure World (D S : Type) where
  backend : PageBackend S
  device : D
  live : List Sm12xPage

/-- One call of the backend. An append is aborted or committed with the
transaction that the cache kept and the page table of the sequence. -/
inductive Operation (S : Type) where
  | allocatePage
  | rollbackPage (page : Sm12xPage)
  | prepareAppend (pages : List BackendAppendPage)
  | abortAppend (transaction : PageTransaction S) (table : PageTable)
      (restored released : List Sm12xPage) (position : Nat)
  | copyPartialPage (source : Sm12xPage) (validTokens : Nat)
  | commitAppend (transaction : PageTransaction S) (table : PageTable)
      (commit : BackendAppendCommit)
  | updatePageTable (table : PageTable) (pages : List Sm12xPage) (position : Nat)
  | retirePages (pages : List Sm12xPage)

/-- The pages held behind a call that hands one out. -/
def received (live : List Sm12xPage) : Except CudaError PageAllocation → List Sm12xPage
  | .ok allocation => allocation.page :: live
  | .error _ => live

/-- The pages held behind a call that takes some back. -/
def returned (live released : List Sm12xPage) : Except CudaError Unit → List Sm12xPage
  | .ok () => live.diff released
  | .error _ => live

section
variable {D S : Type} (calls : PageDevice D S)

/-- One call, successful or not. -/
def step (w : World D S) : Operation S → World D S
  | .allocatePage =>
    let (result, backend) := w.backend.allocatePage
    ⟨backend, w.device, received w.live result⟩
  | .rollbackPage page => ⟨w.backend.rollbackPage page, w.device, w.live.erase page⟩
  | .prepareAppend pages =>
    let (_, backend, device) := w.backend.prepareAppend calls pages w.device
    ⟨backend, device, w.live⟩
  | .abortAppend transaction table restored pages position =>
    let (result, left) := PageBackend.abortAppend calls ⟨w.backend, transaction, ⟨w.device, table⟩⟩
      restored pages position
    ⟨left.backend, left.context.device, returned w.live pages result⟩
  | .copyPartialPage source validTokens =>
    let (result, backend, device) := w.backend.copyPartialPage calls source validTokens w.device
    ⟨backend, device, received w.live result⟩
  | .commitAppend transaction table commit =>
    let (result, left) := PageBackend.commitAppend calls ⟨w.backend, transaction, ⟨w.device, table⟩⟩
      commit
    ⟨left.backend, left.context.device, returned w.live commit.releasedPages result⟩
  | .updatePageTable table pages position =>
    let (_, context) := w.backend.updatePageTable calls pages position ⟨w.device, table⟩
    ⟨w.backend, context.device, w.live⟩
  | .retirePages pages =>
    let (result, backend) := w.backend.retirePages pages
    ⟨backend, w.device, returned w.live pages result⟩

/-- The cache hands back pages that it holds, each once. -/
def HandsBackHeld (w : World D S) : Operation S → Prop
  | .rollbackPage page => page ∈ w.live
  | .abortAppend _ _ _ released _ => released.Subperm w.live
  | .commitAppend _ _ commit => commit.releasedPages.Subperm w.live
  | .retirePages pages => pages.Subperm w.live
  | _ => True

/-! ## The invariant -/

/-- The slots of a pool of `n` are free or held by one of the pages, and the bits
mark the held ones. -/
structure Partitioned (n : Nat) (b : PageBackend S) (live : List Sm12xPage) : Prop where
  partition : Partition n b.freeSlots (live.map Sm12xPage.slot)
  marks : Marks b.usedSlots (live.map Sm12xPage.slot)
  size : b.usedSlots.length = n

/-- Two backends with the same free list and the same bits. -/
structure SameSlots (b c : PageBackend S) : Prop where
  free : c.freeSlots = b.freeSlots
  used : c.usedSlots = b.usedSlots

theorem SameSlots.trans {a b c : PageBackend S} (h : SameSlots a b) (h' : SameSlots b c) :
    SameSlots a c := ⟨h'.free.trans h.free, h'.used.trans h.used⟩

variable {n : Nat} {b c : PageBackend S} {live : List Sm12xPage}

section
variable (h : Partitioned n b live)
include h

theorem Partitioned.sameSlots (hsame : SameSlots b c) : Partitioned n c live where
  partition := by
    rw [hsame.free]
    exact h.partition
  marks := by
    rw [hsame.used]
    exact h.marks
  size := by
    rw [hsame.used]
    exact h.size

theorem Partitioned.release {page : Sm12xPage} (hpage : page ∈ live) :
    Partitioned n (b.release page) (live.erase page) where
  partition := by
    rw [map_erase slot_injective]
    exact h.partition.give (mem_map_of_mem hpage)
  marks := by
    rw [map_erase slot_injective]
    exact h.marks.give h.partition.held_nodup
  size := by
    rw [PageBackend.release, length_set]
    exact h.size

/-- The release loops give back one held page after the other. -/
theorem Partitioned.releaseAll {released : List Sm12xPage} (hreleased : released.Subperm live) :
    Partitioned n (b.releaseAll released) (live.diff released) := by
  induction released generalizing b live with
  | nil => simpa [PageBackend.releaseAll] using h
  | cons page rest ih =>
    have hpage : page ∈ live := hreleased.subset mem_cons_self
    have hrest := hreleased.erase page
    rw [erase_cons_head] at hrest
    rw [diff_cons]
    exact ih (h.release hpage) hrest

/-! ## Operations -/

theorem allocatePage_partitioned :
    Partitioned n b.allocatePage.2 (received live b.allocatePage.1) := by
  rw [PageBackend.allocatePage]
  cases hlast : b.freeSlots.getLast? with
  | none => exact h
  | some slot =>
    obtain ⟨free, hfree⟩ := getLast?_eq_some_iff.mp hlast
    have hpartition := h.partition
    rw [hfree] at hpartition
    have hlt : slot < n := hpartition.lt_iff.mpr (.inl (mem_append_right _ (by simp)))
    refine ⟨?_, ?_, ?_⟩
    · simp only [received, hfree, dropLast_concat, map_cons]
      exact hpartition.take
    · exact h.marks.take (by rw [h.size]; exact hlt)
    · simpa using h.size

/-- What an allocation hands out is held, so it can be rolled back. -/
theorem allocatePage_rollback {allocation : PageAllocation}
    (hallocated : b.allocatePage = (.ok allocation, c)) :
    Partitioned n (c.rollbackPage allocation.page) live := by
  have hheld := allocatePage_partitioned h
  rw [hallocated] at hheld
  have hback := hheld.release mem_cons_self
  rw [received, erase_cons_head] at hback
  exact hback

theorem copyPartialPage_partitioned {source : Sm12xPage} {validTokens : Nat} {device : D} :
    Partitioned n (b.copyPartialPage calls source validTokens device).2.1
      (received live (b.copyPartialPage calls source validTokens device).1) := by
  rw [PageBackend.copyPartialPage]
  split
  · exact h
  · split
    · exact h
    · have hallocated := allocatePage_partitioned h
      split
      · rename_i e c heq
        rw [heq] at hallocated
        exact hallocated
      · rename_i allocation c heq
        rw [heq] at hallocated
        split
        · exact allocatePage_rollback h heq
        · exact hallocated

end

theorem snapshotLayer_sameSlots (layer slot : Nat) (b : PageBackend S) (device : D) :
    SameSlots b (PageBackend.snapshotLayer calls layer slot b device).2.1 := by
  rw [PageBackend.snapshotLayer]
  cases (b.tailSnapshotReuse.getD layer []).getLast? with
  | some snapshot => exact ⟨rfl, rfl⟩
  | none =>
    dsimp only
    split <;> exact ⟨rfl, rfl⟩

theorem snapshotLayers_sameSlots (slot : Nat) (pools : List Bool) (layer : Nat)
    (b : PageBackend S) (device : D) (snapshots : List (Option S)) :
    SameSlots b (PageBackend.snapshotLayers calls slot pools layer b device snapshots).2.1 := by
  induction pools generalizing layer b device snapshots with
  | nil => exact ⟨rfl, rfl⟩
  | cons pool pools ih =>
    cases pool with
    | false => exact ih (layer + 1) b device (snapshots ++ [none])
    | true =>
      have hlayer := snapshotLayer_sameSlots calls layer slot b device
      rw [PageBackend.snapshotLayers]
      split
      · rename_i e c d heq
        rw [heq] at hlayer
        exact hlayer
      · rename_i snapshot c d heq
        rw [heq] at hlayer
        exact hlayer.trans (ih (layer + 1) c d (snapshots ++ [some snapshot]))

theorem prepareAppend_sameSlots (b : PageBackend S) (pages : List BackendAppendPage) (device : D) :
    SameSlots b (b.prepareAppend calls pages device).2.1 := by
  rw [PageBackend.prepareAppend]
  split
  · exact ⟨rfl, rfl⟩
  · split
    · exact ⟨rfl, rfl⟩
    · rename_i page _
      split
      · exact ⟨rfl, rfl⟩
      · dsimp only
        split
        · exact ⟨rfl, rfl⟩
        · have hlayers :=
            snapshotLayers_sameSlots calls page.page.slot b.pools 0 b device []
          split
          · rename_i e c d heq
            rw [heq] at hlayers
            exact hlayers
          · rename_i snapshots c d heq
            rw [heq] at hlayers
            exact hlayers

theorem recycleTransaction_sameSlots (b : PageBackend S) (transaction : PageTransaction S) :
    SameSlots b (b.recycleTransaction transaction).1 := by
  rw [PageBackend.recycleTransaction]
  split <;> exact ⟨rfl, rfl⟩

variable {a : PageBackend.AppendState D S}

/-- The released slots return only behind the page-table update. -/
theorem finishAppend_partitioned {pages released : List Sm12xPage} {position : Nat}
    (h : Partitioned n a.backend live) (hreleased : released.Subperm live) :
    Partitioned n (PageBackend.finishAppend calls a pages released position).2.backend
      (returned live released (PageBackend.finishAppend calls a pages released position).1) := by
  rw [PageBackend.finishAppend]
  split
  · exact h
  · exact (h.releaseAll hreleased).sameSlots (recycleTransaction_sameSlots _ a.transaction)

theorem abortAppend_partitioned {restored released : List Sm12xPage} {position : Nat}
    (h : Partitioned n a.backend live) (hreleased : released.Subperm live) :
    Partitioned n (PageBackend.abortAppend calls a restored released position).2.backend
      (returned live released (PageBackend.abortAppend calls a restored released position).1) := by
  rw [PageBackend.abortAppend]
  split
  · exact h
  · split
    · exact h
    · split
      · exact h
      · exact finishAppend_partitioned calls h hreleased

theorem commitAppend_partitioned {commit : BackendAppendCommit} (h : Partitioned n a.backend live)
    (hreleased : commit.releasedPages.Subperm live) :
    Partitioned n (PageBackend.commitAppend calls a commit).2.backend
      (returned live commit.releasedPages (PageBackend.commitAppend calls a commit).1) := by
  rw [PageBackend.commitAppend]
  split
  · exact h
  · dsimp only
    split
    · exact h
    · split
      · exact h
      · exact finishAppend_partitioned calls h hreleased

theorem retirePages_partitioned {pages : List Sm12xPage} (h : Partitioned n b live)
    (hpages : pages.Subperm live) :
    Partitioned n (b.retirePages pages).2 (returned live pages (b.retirePages pages).1) := by
  rw [PageBackend.retirePages]
  split
  · exact h
  · exact h.releaseAll hpages

theorem step_partitioned {w : World D S} {operation : Operation S}
    (h : Partitioned n w.backend w.live) (hback : HandsBackHeld w operation) :
    Partitioned n (step calls w operation).backend (step calls w operation).live := by
  cases operation with
  | allocatePage => exact allocatePage_partitioned h
  | rollbackPage page => exact h.release hback
  | prepareAppend pages => exact h.sameSlots (prepareAppend_sameSlots calls w.backend pages w.device)
  | abortAppend transaction table restored released position =>
    exact abortAppend_partitioned calls h hback
  | copyPartialPage source validTokens => exact copyPartialPage_partitioned calls h
  | commitAppend transaction table commit => exact commitAppend_partitioned calls h hback
  | updatePageTable table pages position => exact h
  | retirePages pages => exact retirePages_partitioned h hback

theorem new_partitioned {poolBytes : Nat × Nat → Except CudaError Nat}
    {geometries : List (Option (Nat × Nat))}
    (h : PageBackend.new poolBytes geometries n = .ok b) : Partitioned n b [] := by
  rw [PageBackend.new] at h
  split at h
  · cases h
  · split at h
    · cases h
    · cases h
      refine ⟨Partition.initial (reverse_perm _), Marks.initial, ?_⟩
      exact length_replicate

/-- **Free slots.** Over every history of calls from a new backend with `n` slots,
the free list has no slot twice, holds exactly the slots below `n` that no held
page has, and no two held pages share a slot. -/
theorem free_slots_complement_live_pages {poolBytes : Nat × Nat → Except CudaError Nat}
    {geometries : List (Option (Nat × Nat))}
    (made : PageBackend.new poolBytes geometries n = .ok b) (device : D)
    {operations : List (Operation S)} {w : World D S}
    (path : Path (fun w operation => some (step calls w operation)) HandsBackHeld
      ⟨b, device, []⟩ operations w) :
    w.backend.freeSlots.Nodup ∧
      (∀ slot, slot ∈ w.backend.freeSlots ↔ slot < n ∧ ∀ page ∈ w.live, page.slot ≠ slot) ∧
      (w.live.map Sm12xPage.slot).Nodup := by
  have hpartitioned : Partitioned n w.backend w.live := by
    have hkeeps : ∀ {w w' : World D S} {operation : Operation S},
        Partitioned n w.backend w.live → HandsBackHeld w operation →
        some (step calls w operation) = some w' → Partitioned n w'.backend w'.live := by
      intro w w' operation h hback hstep
      cases hstep
      exact step_partitioned calls h hback
    exact path.invariant hkeeps (new_partitioned made)
  refine ⟨hpartitioned.partition.free_nodup, ?_, hpartitioned.partition.held_nodup⟩
  intro slot
  rw [hpartitioned.partition.mem_free_iff, mem_map]
  simp only [not_exists, not_and, ne_eq]

end

/-- A device whose page copies fail. -/
def failingCopies : PageDevice Unit Unit where
  tailSnapshot _ device := (.ok (), device)
  snapshotTailOnStream _ _ snapshot device := (.ok snapshot, device)
  restoreTailPrefixOnStream _ _ _ _ device := (.ok (), device)
  copyPageOnStream _ _ _ device := (.error (.device "copy_page_on_stream"), device)
  synchronize device := (.ok (), device)
  synchronizeUpload device := (.ok (), device)
  upload _ device := (.ok (), device)

/-- A page is allocated, its copy fails, an append on it is prepared and aborted with
a new page released, and the first page retires. -/
theorem failed_copy_then_retire :
    ∃ (b : PageBackend Unit) (w : World Unit Unit),
      PageBackend.new (fun _ => .ok 1) [some (1, 64), none] 2 = .ok b ∧
      Path (fun w operation => some (step failingCopies w operation)) HandsBackHeld ⟨b, (), []⟩
        [.allocatePage, .copyPartialPage ⟨0⟩ 5, .allocatePage,
          .prepareAppend [⟨⟨0⟩, 123, 5, true⟩, ⟨⟨1⟩, 2, 0, false⟩],
          .abortAppend ⟨some ⟨0, 5, [some (), none]⟩, 125⟩ ⟨[], [], 2, 0⟩ [⟨0⟩] [⟨1⟩] 5,
          .retirePages [⟨0⟩]] w ∧
      w.backend.freeSlots.Nodup ∧
      (∀ slot, slot ∈ w.backend.freeSlots ↔ slot < 2 ∧ ∀ page ∈ w.live, page.slot ≠ slot) ∧
      (w.live.map Sm12xPage.slot).Nodup := by
  have hpath : ∃ (b : PageBackend Unit) (w : World Unit Unit),
      PageBackend.new (fun _ => .ok 1) [some (1, 64), none] 2 = .ok b ∧
      Path (fun w operation => some (step failingCopies w operation)) HandsBackHeld ⟨b, (), []⟩
        [.allocatePage, .copyPartialPage ⟨0⟩ 5, .allocatePage,
          .prepareAppend [⟨⟨0⟩, 123, 5, true⟩, ⟨⟨1⟩, 2, 0, false⟩],
          .abortAppend ⟨some ⟨0, 5, [some (), none]⟩, 125⟩ ⟨[], [], 2, 0⟩ [⟨0⟩] [⟨1⟩] 5,
          .retirePages [⟨0⟩]] w := by
    refine ⟨_, _, rfl, .cons trivial rfl (.cons trivial rfl (.cons trivial rfl (.cons trivial rfl
      (.cons ?_ rfl (.cons ?_ rfl (.nil _))))))⟩
    · exact singleton_subperm_iff.mpr mem_cons_self
    · exact singleton_subperm_iff.mpr mem_cons_self
  obtain ⟨b, w, made, path⟩ := hpath
  exact ⟨b, w, made, path, free_slots_complement_live_pages failingCopies made () path⟩

end Eider.Guarantees.PageSlots
