import Eider.Guarantees.CompactPages
import Eider.Lib.Run

/-!
# Append transactions keep the compact pages serial

Speculative rows go through the same circular tail as the committed ones. A commit of some
of the reserved rows puts the old rows of the tail back if it stays in their block, and
relies on the discarded rows not having wrapped over the committed ones.
-/
namespace Eider.Guarantees.TailTransactions
open Lib Lib.Ring Lib.Run Source Source.Sm12x List Option Function
open Guarantees.CompactPages

variable {K V TK TV : Type}

/-! ## The backend's calls on the pools -/

variable {pages : List BackendAppendPage} {pools : KvPools K V TK TV}

section

/-- The snapshots that `prepare_append` takes of a slot. -/
def snapshotsOf (pools : KvPools K V TK TV) (slot : Nat) : Nat → List Bool →
    List (Option (TailSnapshot K V))
  | _, [] => []
  | layer, paged :: rest =>
    (if paged then some (pools layer slot).tails else none) ::
      snapshotsOf pools slot (layer + 1) rest

theorem snapshotsOf_get (pools : KvPools K V TK TV) (slot first index : Nat) (paged : List Bool)
    (h : paged[index]? = some true) :
    (snapshotsOf pools slot first paged)[index]? = some (some (pools (first + index) slot).tails) := by
  induction paged generalizing first index with
  | nil => simp at h
  | cons head rest ih =>
    cases index with
    | zero =>
      simp only [getElem?_cons_zero, some.injEq] at h
      subst h
      rfl
    | succ index =>
      rw [snapshotsOf, getElem?_cons_succ, ih (first + 1) index h,
        show first + 1 + index = first + (index + 1) by omega]

/-- A layer of the page of a slot, behind the restore of its tail. -/
def restoredPage (slot rows : Nat) (pairs : List (Bool × Option (TailSnapshot K V)))
    (first : Nat) (pools : KvPools K V TK TV) (layer s : Nat) : KvPage K V TK TV :=
  if s = slot ∧ first ≤ layer then
    match pairs[layer - first]? with
    | some (true, some snapshot) => (pools layer s).restoreTailPrefix snapshot rows
    | _ => pools layer s
  else pools layer s

variable [Inhabited K] [Inhabited V]

theorem snapshotLayer_eq (layer slot : Nat) (b : PageBackend (TailSnapshot K V))
    (pools : KvPools K V TK TV) :
    ∃ b', PageBackend.snapshotLayer (kvDevice K V TK TV) layer slot b pools =
      (.ok (pools layer slot).tails, b', pools) ∧ b'.pools = b.pools := by
  unfold PageBackend.snapshotLayer
  cases hreuse : (b.tailSnapshotReuse.getD layer []).getLast? with
  | none =>
    dsimp only
    rw [hreuse]
    exact ⟨b, rfl, rfl⟩
  | some snapshot =>
    dsimp only
    rw [hreuse]
    exact ⟨_, rfl, rfl⟩

theorem snapshotLayers_eq (slot : Nat) (paged : List Bool) (layer : Nat)
    (b : PageBackend (TailSnapshot K V)) (pools : KvPools K V TK TV)
    (taken : List (Option (TailSnapshot K V))) :
    ∃ b', PageBackend.snapshotLayers (kvDevice K V TK TV) slot paged layer b pools taken =
      (.ok (taken ++ snapshotsOf pools slot layer paged), b', pools) ∧ b'.pools = b.pools := by
  induction paged generalizing layer b taken with
  | nil => exact ⟨b, by rw [snapshotsOf, append_nil]; rfl, rfl⟩
  | cons head rest ih =>
    cases head with
    | false =>
      obtain ⟨b', hrun, hpools⟩ := ih (layer + 1) b (taken ++ [none])
      refine ⟨b', ?_, hpools⟩
      rw [PageBackend.snapshotLayers, hrun, append_assoc]
      rfl
    | true =>
      obtain ⟨b', hlayer, hpools⟩ := snapshotLayer_eq layer slot b pools
      obtain ⟨b'', hrun, hpools'⟩ := ih (layer + 1) b' (taken ++ [some (pools layer slot).tails])
      refine ⟨b'', ?_, hpools'.trans hpools⟩
      rw [PageBackend.snapshotLayers, hlayer]
      dsimp only
      rw [hrun, append_assoc]
      rfl

theorem restoreLayers_eq {slot rows : Nat} (hrows : rows ≤ compactTailRows)
    (pairs : List (Bool × Option (TailSnapshot K V))) (first : Nat) (pools : KvPools K V TK TV) :
    PageBackend.restoreLayers (kvDevice K V TK TV) slot rows pairs first pools =
      (.ok (), restoredPage slot rows pairs first pools) := by
  induction pairs generalizing first pools with
  | nil =>
    rw [PageBackend.restoreLayers]
    congr 1
    funext layer s
    simp [restoredPage]
  | cons pair pairs ih =>
    have hskip : ∀ pools' : KvPools K V TK TV,
        (∀ layer s, layer ≠ first ∨ s ≠ slot → pools' layer s = pools layer s) →
        (∀ layer s, layer = first → s = slot →
          pools' layer s = restoredPage slot rows (pair :: pairs) first pools layer s) →
        restoredPage slot rows pairs (first + 1) pools' =
          restoredPage slot rows (pair :: pairs) first pools := by
      intro pools' hother hhere
      funext layer s
      by_cases hslot : s = slot
      · by_cases hlayer : layer = first
        · rw [← hhere layer s hlayer hslot]
          simp [restoredPage, hlayer]
        · have hsame := hother layer s (.inl hlayer)
          by_cases hfirst : first ≤ layer
          · obtain ⟨d, rfl⟩ := Nat.exists_eq_add_of_le hfirst
            obtain ⟨k, rfl⟩ := Nat.exists_eq_succ_of_ne_zero (show d ≠ 0 by omega)
            have hindex : first + (k + 1) - (first + 1) = k := by omega
            simp [restoredPage, hslot, hindex, show first + 1 ≤ first + (k + 1) by omega]
            rw [← hslot, hsame]
          · simp [restoredPage, hfirst, show ¬ first + 1 ≤ layer by omega, hsame]
      · simp [restoredPage, hslot, hother layer s (.inr hslot)]
    obtain ⟨paged, saved⟩ := pair
    cases paged with
    | false =>
      rw [PageBackend.restoreLayers, ih]
      · rw [hskip pools (fun _ _ _ => rfl)]
        intro layer s hlayer hslot
        simp [restoredPage, hlayer]
      · simp
    | true =>
      cases saved with
      | none =>
        rw [PageBackend.restoreLayers, ih]
        · rw [hskip pools (fun _ _ _ => rfl)]
          intro layer s hlayer hslot
          simp [restoredPage, hlayer]
        · simp
      | some snapshot =>
        rw [PageBackend.restoreLayers]
        have hcall : (kvDevice K V TK TV).restoreTailPrefixOnStream first slot snapshot rows pools =
            (.ok (), pools.set first slot ((pools first slot).restoreTailPrefix snapshot rows)) :=
          if_neg (Nat.not_lt.mpr hrows)
        rw [hcall]
        dsimp only
        rw [ih, hskip]
        · intro layer s hne
          unfold KvPools.set
          rw [if_neg (by tauto)]
        · intro layer s hlayer hslot
          subst hlayer hslot
          simp [restoredPage, KvPools.set]

theorem reservedRows_ok {rows total : Nat} (h : PageBackend.reservedRows pages rows = .ok total) :
    total = rows + (pages.map BackendAppendPage.rows).sum := by
  induction pages generalizing rows with
  | nil =>
    cases h
    rfl
  | cons page pages ih =>
    unfold PageBackend.reservedRows at h
    split at h
    · rw [ih h, map_cons, sum_cons, Nat.add_assoc]
    · cases h

variable {transaction : PageTransaction (TailSnapshot K V)}

theorem prepareAppend_ok {b b' : PageBackend (TailSnapshot K V)} {pools' : KvPools K V TK TV}
    (h : b.prepareAppend (kvDevice K V TK TV) pages pools = (.ok transaction, b', pools')) :
    pools' = pools ∧ b'.pools = b.pools ∧
    transaction.reservedRows = (pages.map BackendAppendPage.rows).sum ∧
    transaction.existingTail =
      (pages.find? (·.existedBeforeReservation)).bind fun page =>
        if page.pageOffset % compactTailRows = 0 then none
        else some ⟨page.page.slot, page.pageOffset % compactTailRows,
          snapshotsOf pools page.page.slot 0 b.pools⟩ := by
  unfold PageBackend.prepareAppend at h
  split at h
  · cases h
  · rename_i total htotal
    have hrows := reservedRows_ok htotal
    rw [Nat.zero_add] at hrows
    split at h
    · rename_i hfind
      cases h
      exact ⟨rfl, rfl, hrows, by rw [hfind]; rfl⟩
    · rename_i page hfind
      split at h
      · cases h
      · dsimp only at h
        split at h
        · rename_i hzero
          cases h
          exact ⟨rfl, rfl, hrows, by rw [hfind, bind_some, if_pos hzero]⟩
        · rename_i hzero
          obtain ⟨b₁, hrun, hpools⟩ := snapshotLayers_eq page.page.slot b.pools 0 b pools []
          rw [hrun] at h
          cases h
          refine ⟨rfl, hpools, hrows, ?_⟩
          rw [hfind, bind_some, if_neg hzero]
          rfl

/-- The pools behind the restore of a transaction's tail. -/
def restoredPools (b : PageBackend (TailSnapshot K V))
    (transaction : PageTransaction (TailSnapshot K V)) (pools : KvPools K V TK TV) :
    KvPools K V TK TV :=
  match transaction.existingTail with
  | none => pools
  | some tail => restoredPage tail.slot tail.rows (b.pools.zip tail.snapshots) 0 pools

theorem restoreTail_eq {b : PageBackend (TailSnapshot K V)} (pools : KvPools K V TK TV)
    (h : ∀ tail, transaction.existingTail = some tail → tail.rows ≤ compactTailRows) :
    b.restoreTail (kvDevice K V TK TV) transaction pools =
      (.ok (), restoredPools b transaction pools) := by
  unfold PageBackend.restoreTail restoredPools
  cases htail : transaction.existingTail with
  | none => rfl
  | some tail => exact restoreLayers_eq (h tail htail) _ 0 pools

theorem releaseAll_pools {S : Type} (b : PageBackend S) (pages : List Sm12xPage) :
    (b.releaseAll pages).pools = b.pools := by
  induction pages generalizing b with
  | nil => rfl
  | cons page pages ih => exact ih (b.release page)

theorem recycleTransaction_pools {S : Type} (b : PageBackend S) (transaction : PageTransaction S) :
    (b.recycleTransaction transaction).1.pools = b.pools := by
  unfold PageBackend.recycleTransaction
  split <;> rfl

theorem update_device {pages : List Sm12xPage} {position : Nat}
    {c c' : CacheContext (KvPools K V TK TV)} {result : Except CudaError Unit}
    (h : PageTable.update (kvDevice K V TK TV) pages position c = (result, c')) :
    c'.device = c.device := by
  unfold PageTable.update at h
  dsimp only at h
  split at h
  · cases h
    rfl
  · simp only [kvDevice] at h
    split at h
    · cases h
      rfl
    · cases h
      rfl

variable {a after : PageBackend.AppendState (KvPools K V TK TV) (TailSnapshot K V)}

theorem finishAppend_ok {pages released : List Sm12xPage} {position : Nat}
    (h : PageBackend.finishAppend (kvDevice K V TK TV) a pages released position =
      (.ok (), after)) :
    after.context.device = a.context.device ∧ after.backend.pools = a.backend.pools := by
  unfold PageBackend.finishAppend at h
  split at h
  · cases h
  · rename_i context hupdate
    cases h
    exact ⟨update_device hupdate,
      (recycleTransaction_pools _ a.transaction).trans (releaseAll_pools a.backend released)⟩

section
variable (htail : ∀ tail, a.transaction.existingTail = some tail → tail.rows ≤ compactTailRows)
include htail

theorem commitAppend_ok {commit : BackendAppendCommit}
    (h : PageBackend.commitAppend (kvDevice K V TK TV) a commit = (.ok (), after)) :
    after.context.device =
      (if PageBackend.keepsCompactTail a.transaction commit then
        restoredPools a.backend a.transaction a.context.device
      else a.context.device) ∧
    after.backend.pools = a.backend.pools := by
  unfold PageBackend.commitAppend at h
  split at h
  · cases h
  · have hsynchronize : ∀ pools : KvPools K V TK TV,
        (if commit.releasedPages.isEmpty then (Except.ok (), pools)
          else (kvDevice K V TK TV).synchronize pools) = (.ok (), pools) := by
      intro pools
      split <;> rfl
    rw [restoreTail_eq _ htail] at h
    by_cases hkeeps : PageBackend.keepsCompactTail a.transaction commit
    · rw [if_pos hkeeps] at h ⊢
      dsimp only at h
      rw [hsynchronize] at h
      exact finishAppend_ok h
    · rw [if_neg hkeeps] at h ⊢
      dsimp only at h
      rw [hsynchronize] at h
      exact finishAppend_ok h

theorem abortAppend_ok {restored released : List Sm12xPage} {position : Nat}
    (h : PageBackend.abortAppend (kvDevice K V TK TV) a restored released position =
      (.ok (), after)) :
    after.context.device = restoredPools a.backend a.transaction a.context.device ∧
    after.backend.pools = a.backend.pools := by
  unfold PageBackend.abortAppend at h
  split at h
  · cases h
  · rw [restoreTail_eq _ htail] at h
    exact finishAppend_ok h

end

end

/-! ## The rows of a page -/

/-- The rows of a layer that page `index` holds. -/
def pageRows (layer index : Nat) (rows : List (TokenRows K V)) : List (KvRow K V) :=
  ((rows.drop (128 * index)).take 128).map (· layer)

/-- The first row of the page's last block. -/
def pageLow (position index : Nat) : Nat := min 128 (position - 128 * index) / 16 * 16

section
variable {rows more : List (TokenRows K V)}

theorem pageRows_length (layer index : Nat) (rows : List (TokenRows K V)) :
    (pageRows layer index rows).length = min 128 (rows.length - 128 * index) := by
  simp [pageRows]

theorem pageLow_le (layer index : Nat) (rows more : List (TokenRows K V)) :
    pageLow rows.length index ≤ (pageRows layer index (rows ++ more)).length := by
  rw [pageRows_length, length_append, pageLow]
  omega

variable (layer : Nat)

theorem pageRows_append_full {index : Nat} (h : 128 * index + 128 ≤ rows.length) :
    pageRows layer index (rows ++ more) = pageRows layer index rows := by
  unfold pageRows
  rw [drop_append_of_le_length (by omega),
    take_append_of_le_length (by rw [length_drop]; omega)]

theorem pageRows_eq_nil {index : Nat} (h : rows.length ≤ 128 * index) :
    pageRows layer index rows = [] := by
  rw [← length_eq_zero_iff, pageRows_length]
  omega

theorem pageRows_append_same (h : rows.length % 128 + more.length ≤ 128) :
    pageRows layer (rows.length / 128) (rows ++ more) =
      pageRows layer (rows.length / 128) rows ++ more.map (· layer) := by
  unfold pageRows
  rw [drop_append_of_le_length (by omega),
    take_of_length_le (by rw [length_append, length_drop]; omega),
    take_of_length_le (by rw [length_drop]; omega), map_append]

theorem pageRows_append_other {index : Nat}
    (h : rows.length % 128 + more.length ≤ 128) (hindex : index ≠ rows.length / 128) :
    pageRows layer index (rows ++ more) = pageRows layer index rows := by
  by_cases hless : index < rows.length / 128
  · exact pageRows_append_full layer (by omega)
  · rw [pageRows_eq_nil layer (by rw [length_append]; omega), pageRows_eq_nil layer (by omega)]

theorem pageRows_take (layer index kept : Nat) (rows : List (TokenRows K V)) :
    pageRows layer index (rows.take kept) =
      (pageRows layer index rows).take (min 128 (kept - 128 * index)) := by
  unfold pageRows
  rw [drop_take, take_take, ← map_take, take_take]
  congr 2
  omega

end

/-! ## Transactions -/

/-- No discarded row lands in the ring slot of a row that is committed with it, lies behind
the last complete block and is on the same page. `first` is the first such row; the rows that
can reach its slot begin a turn later. -/
def Spares (position reserved committed : Nat) : Prop :=
  let first := max position ((position + committed) / 16 * 16)
  first < position + committed → position + reserved ≤ first + 16 ∨ (first + 16) / 128 ≠ first / 128

theorem spares_of_le {position reserved committed : Nat} (h : reserved ≤ 16) :
    Spares position reserved committed := by
  intro _
  omega

section
variable {pack : Packing K V TK TV} {page : KvPage K V TK TV} {log rows : List (TokenRows K V)}
variable {layer index committed : Nat}

theorem pageRows_commit :
    pageRows layer index (log ++ rows.take committed) =
      (pageRows layer index (log ++ rows)).take
        (min 128 (log.length + committed - 128 * index)) := by
  rw [← pageRows_take, take_length_add_append]

theorem spared_on_page (hcommitted : committed ≤ rows.length)
    (hspares : Spares log.length rows.length committed)
    {p q : Nat} (hnew : log.length ≤ 128 * index + p)
    (hlow : pageLow (log.length + committed) index ≤ p)
    (hp : p < min 128 (log.length + committed - 128 * index))
    (hq : min 128 (log.length + committed - 128 * index) ≤ q)
    (hlength : q < (pageRows layer index (log ++ rows)).length) :
    p % compactTailRows ≠ q % compactTailRows := by
  rw [pageRows_length, length_append] at hlength
  unfold pageLow at hlow
  unfold compactTailRows
  unfold Spares at hspares
  omega

/-- A commit without a restore: every live row that it keeps is new, or nothing is
discarded. -/
theorem keep_page (h : Stored pack page (pageLow log.length index)
      (pageRows layer index (log ++ rows)))
    (hcommitted : committed ≤ rows.length) (hspares : Spares log.length rows.length committed)
    (hnew : committed = rows.length ∨ log.length ≤ (log.length + committed) / 16 * 16) :
    Stored pack page (pageLow (log.length + committed) index)
      (pageRows layer index (log ++ rows.take committed)) := by
  have hlow : pageLow log.length index ≤ pageLow (log.length + committed) index := by
    unfold pageLow
    omega
  have hkept : min 128 (log.length + committed - 128 * index) ≤
      pageLow (log.length + committed) index + compactTailRows := by
    unfold pageLow compactTailRows
    omega
  have hspared : ∀ p q, pageLow (log.length + committed) index ≤ p →
      p < min 128 (log.length + committed - 128 * index) →
      min 128 (log.length + committed - 128 * index) ≤ q →
      q < (pageRows layer index (log ++ rows)).length →
      p % compactTailRows ≠ q % compactTailRows := by
    intro p q hlow hp hq hlength
    refine spared_on_page hcommitted hspares ?_ hlow hp hq hlength
    rw [pageRows_length, length_append] at hlength
    unfold pageLow at hlow
    omega
  rw [pageRows_commit]
  refine h.retract rfl rfl ?_ ?_
  · rw [map_take]
    refine h.keyTail.take_of_spared hlow hkept ?_
    rw [length_map]
    exact hspared
  · rw [map_take]
    refine h.valueTail.take_of_spared hlow hkept ?_
    rw [length_map]
    exact hspared

/-- The tail of the page at the position, when a commit that stays in the block of the old rows
puts them back. -/
theorem restore_tail {β : Type} {f : KvRow K V → β} {ring saved : Nat → β}
    (h : Recent compactTailRows ring (pageLow log.length (log.length / 128))
      ((pageRows layer (log.length / 128) (log ++ rows)).map f))
    (hsaved : Recent compactTailRows saved (pageLow log.length (log.length / 128))
      ((pageRows layer (log.length / 128) log).map f))
    (hcommitted : committed ≤ rows.length) (hspares : Spares log.length rows.length committed)
    (hblock : log.length % 16 + committed ≤ 16) :
    Recent compactTailRows (restore (log.length % 16) saved ring)
      (pageLow (log.length + committed) (log.length / 128))
      ((pageRows layer (log.length / 128) (log ++ rows.take committed)).map f) := by
  have hold : pageRows layer (log.length / 128) log =
      (pageRows layer (log.length / 128) (log ++ rows)).take (log.length % 128) := by
    have htake := pageRows_take layer (log.length / 128) log.length (log ++ rows)
    rw [take_left] at htake
    rw [htake]
    congr 1
    omega
  rw [hold, map_take] at hsaved
  by_cases hfull : log.length % 16 + committed = 16
  · -- The block is complete, so that no row of the tail is live.
    refine recent_of_length_le ?_
    rw [length_map, pageRows_length, length_append, length_take, pageLow]
    omega
  · rw [pageRows_commit, map_take]
    have hmod : log.length % 16 = log.length % 128 % compactTailRows := by
      unfold compactTailRows
      omega
    rw [hmod]
    refine h.take_restore hsaved ?_ ?_ ?_ ?_ ?_ ?_
    · unfold pageLow
      omega
    · unfold pageLow compactTailRows
      omega
    · unfold pageLow
      omega
    · omega
    · unfold pageLow compactTailRows
      omega
    · intro p q hnew hp hq hlength
      rw [length_map] at hlength
      refine spared_on_page hcommitted hspares ?_ ?_ hp hq hlength
      · omega
      · unfold pageLow
        omega

/-- A commit that stays in the block of the old rows puts them back. -/
theorem restore_page {snapshot : TailSnapshot K V}
    (h : Stored pack page (pageLow log.length (log.length / 128))
      (pageRows layer (log.length / 128) (log ++ rows)))
    (hkey : Recent compactTailRows snapshot.key (pageLow log.length (log.length / 128))
      ((pageRows layer (log.length / 128) log).map KvRow.key))
    (hvalue : Recent compactTailRows snapshot.value (pageLow log.length (log.length / 128))
      ((pageRows layer (log.length / 128) log).map KvRow.value))
    (hcommitted : committed ≤ rows.length) (hspares : Spares log.length rows.length committed)
    (hblock : log.length % 16 + committed ≤ 16) :
    Stored pack (page.restoreTailPrefix snapshot (log.length % 16))
      (pageLow (log.length + committed) (log.length / 128))
      (pageRows layer (log.length / 128) (log ++ rows.take committed)) := by
  have hkeyTail := restore_tail h.keyTail hkey hcommitted hspares hblock
  have hvalueTail := restore_tail h.valueTail hvalue hcommitted hspares hblock
  rw [pageRows_commit] at hkeyTail hvalueTail ⊢
  exact h.retract rfl rfl hkeyTail hvalueTail

end

/-! ## Runs -/

variable (s : PagedSequence K V TK TV)

/-- The pages of a sequence, those of an open reservation included. -/
def allSlots : List Nat :=
  match s.reservation with
  | none => s.slots
  | some r => r.slots

/-- The rows that an open reservation has appended to a layer. -/
def written (layer : Nat) : List (TokenRows K V) :=
  match s.reservation with
  | none => []
  | some r => r.rows.take (r.appended layer)

/-- Whether the backend pages a layer. -/
def Paged (layer : Nat) : Prop :=
  s.backend.pools[layer]? = some true

/-- The pages that `seqcache` reserves: the last page if it has room, and new pages for the rest. -/
structure Reserves (s : PagedSequence K V TK TV) (pages : List BackendAppendPage)
    (rows : List (TokenRows K V)) : Prop where
  total : (pages.map BackendAppendPage.rows).sum = rows.length
  fresh : (s.slots ++ newSlots pages).Nodup
  covered : (s.slots ++ newSlots pages).length = pagesFor (s.position + rows.length)
  existing : match pages.find? (·.existedBeforeReservation) with
    | none => rows = [] ∨ s.position % sm12xKvPageTokens = 0
    | some page => s.slots[s.position / sm12xKvPageTokens]? = some page.page.slot ∧
      page.pageOffset = s.position % sm12xKvPageTokens

/-- What the rest of the system grants: reservations are as `seqcache` makes them, and other
sequences keep to their own pages. -/
def Granted (x : PagedSequence K V TK TV × List (TokenRows K V)) : Action K V TK TV → Prop
  | .reserve pages rows => Reserves x.1 pages rows
  | .elsewhere backend pools => backend.pools = x.1.backend.pools ∧
      ∀ layer, ∀ slot ∈ allSlots x.1, pools layer slot = x.1.pools layer slot
  | _ => True

/-- What the caller has to see to: the rows that a call packs in bulk are finite, and the rows
that a commit discards spare those that it keeps. -/
def Spared (pack : Packing K V TK TV) (x : PagedSequence K V TK TV × List (TokenRows K V)) :
    Action K V TK TV → Prop
  | .append layer chunk => ∀ r, x.1.reservation = some r →
      ChunkFinite pack ((x.1.position + r.appended layer) % sm12xKvPageTokens)
        (((r.rows.drop (r.appended layer)).take chunk.count).map (· layer)) chunk
  | .commit committed => ∀ r, x.1.reservation = some r → Spares x.1.position r.rows.length committed
  | _ => True

/-- The tails that a reservation has saved of the last page. -/
def Saved (r : Reservation K V) (log : List (TokenRows K V)) : Prop :=
  match r.transaction.existingTail with
  | none => r.rows = [] ∨ log.length % 16 = 0
  | some tail => log.length % 16 ≠ 0 ∧ tail.rows = log.length % 16 ∧
      s.slots[log.length / 128]? = some tail.slot ∧
      ∀ layer, Paged s layer → ∃ snapshot, tail.snapshots[layer]? = some (some snapshot) ∧
        Recent compactTailRows snapshot.key (pageLow log.length (log.length / 128))
          ((pageRows layer (log.length / 128) log).map KvRow.key) ∧
        Recent compactTailRows snapshot.value (pageLow log.length (log.length / 128))
          ((pageRows layer (log.length / 128) log).map KvRow.value)

/-- An open reservation on top of the committed rows. -/
structure Reserved (s : PagedSequence K V TK TV) (r : Reservation K V)
    (log : List (TokenRows K V)) : Prop where
  slots : ∃ added, r.slots = s.slots ++ added
  covered : r.slots.length = pagesFor (log.length + r.rows.length)
  reservedRows : r.transaction.reservedRows = r.rows.length
  appended : ∀ layer, r.appended layer ≤ r.rows.length
  saved : Saved s r log

/-- The pages hold the committed rows and what the reservation has appended. -/
structure Held (pack : Packing K V TK TV) (s : PagedSequence K V TK TV)
    (log : List (TokenRows K V)) : Prop where
  position : s.position = log.length
  pages : s.slots.length = pagesFor log.length
  nodup : (allSlots s).Nodup
  stored : ∀ layer, Paged s layer → ∀ index slot, (allSlots s)[index]? = some slot →
    Stored pack (s.pools layer slot) (pageLow log.length index)
      (pageRows layer index (log ++ written s layer))
  reserved : ∀ r, s.reservation = some r → Reserved s r log

section
variable {pack : Packing K V TK TV} {s t : PagedSequence K V TK TV} {log : List (TokenRows K V)}

theorem allSlots_idle (h : s.reservation = none) : allSlots s = s.slots := by
  rw [allSlots, h]

theorem written_idle (h : s.reservation = none) (layer : Nat) : written s layer = [] := by
  rw [written, h]

variable {r : Reservation K V}

theorem allSlots_open (h : s.reservation = some r) : allSlots s = r.slots := by
  rw [allSlots, h]

theorem written_open (h : s.reservation = some r) (layer : Nat) :
    written s layer = r.rows.take (r.appended layer) := by
  rw [written, h]

section
variable (h : Held pack s log)
include h

theorem Held.last_page (hidle : s.reservation = none) {layer slot : Nat}
    (hpaged : Paged s layer) (hslot : s.slots[log.length / 128]? = some slot) :
    Stored pack (s.pools layer slot) (pageLow log.length (log.length / 128))
      (pageRows layer (log.length / 128) log) := by
  have hstored := h.stored layer hpaged (log.length / 128) slot (by
    rw [allSlots_idle hidle]
    exact hslot)
  rw [written_idle hidle, append_nil] at hstored
  exact hstored

theorem Held.saved (hidle : s.reservation = none) (hreserves : Reserves s pages r.rows)
    (htail : r.transaction.existingTail = (pages.find? (·.existedBeforeReservation)).bind fun page =>
      if page.pageOffset % compactTailRows = 0 then none
      else some ⟨page.page.slot, page.pageOffset % compactTailRows,
        snapshotsOf s.pools page.page.slot 0 s.backend.pools⟩) : Saved s r log := by
  have hexisting := hreserves.existing
  rw [h.position] at hexisting
  unfold sm12xKvPageTokens at hexisting
  unfold Saved
  rw [htail]
  cases hfind : pages.find? (·.existedBeforeReservation) with
  | none =>
    rw [hfind] at hexisting
    refine hexisting.imp_right fun hzero => ?_
    omega
  | some page =>
    rw [hfind] at hexisting
    obtain ⟨hslot, hoffset⟩ := hexisting
    have hmod : page.pageOffset % compactTailRows = log.length % 16 := by
      rw [hoffset, compactTailRows]
      omega
    rw [bind_some, hmod]
    split
    · rename_i heq
      split at heq
      · rename_i hzero
        exact .inr hzero
      · cases heq
    · rename_i tail heq
      split at heq
      · cases heq
      · rename_i hunfinished
        cases heq
        refine ⟨hunfinished, rfl, hslot, fun layer hpaged => ?_⟩
        have hstored := h.last_page hidle hpaged hslot
        have hsnapshot := snapshotsOf_get s.pools page.page.slot 0 layer s.backend.pools hpaged
        rw [Nat.zero_add] at hsnapshot
        exact ⟨_, hsnapshot, hstored.keyTail, hstored.valueTail⟩

omit h in
theorem Saved.frame {r' : Reservation K V} (h : Saved s r log) (hslots : t.slots = s.slots)
    (hpaged : t.backend.pools = s.backend.pools) (htransaction : r'.transaction = r.transaction)
    (hrows : r'.rows = r.rows) : Saved t r' log := by
  unfold Saved Paged at *
  rw [htransaction, hrows, hslots, hpaged]
  exact h

omit h in
theorem index_eq_of_slot {slots : List Nat} {i j slot : Nat} (hnodup : slots.Nodup)
    (hi : slots[i]? = some slot) (hj : slots[j]? = some slot) : i = j := by
  obtain ⟨hlt, -⟩ := List.getElem?_eq_some_iff.mp hi
  exact (List.getElem?_inj hlt hnodup).mp (hi.trans hj.symm)

omit h in
/-- A call extends the page at the end of the rows and no other. -/
theorem append_page {slots : List Nat} {rows more : List (TokenRows K V)}
    {layer index slot here low : Nat} {chunk : Chunk} (hnodup : slots.Nodup)
    (hhere : slots[rows.length / 128]? = some here) (hslot : slots[index]? = some slot)
    (hstored : Stored pack (pools layer slot) low (pageRows layer index rows)) (hlow : low % 16 = 0)
    (hbound : low ≤ (pageRows layer index rows).length) (hcount : more.length = chunk.count)
    (hpage : rows.length % 128 + more.length ≤ 128)
    (hfinite : ChunkFinite pack (rows.length % 128) (more.map (· layer)) chunk) :
    Stored pack (pools.set layer here (chunk.perform pack (pools layer here) (rows.length % 128)
      (more.map (· layer))) layer slot) low (pageRows layer index (rows ++ more)) := by
  by_cases hindex : index = rows.length / 128
  · subst hindex
    obtain rfl : here = slot := some.inj (hhere.symm.trans hslot)
    have hlength : (pageRows layer (rows.length / 128) rows).length = rows.length % 128 := by
      rw [pageRows_length]
      omega
    rw [pageRows_append_same layer hpage]
    unfold KvPools.set
    rw [if_pos ⟨rfl, rfl⟩, ← hlength]
    refine hstored.chunk hlow hbound chunk (by rw [length_map]; exact hcount) ?_
    rw [hlength]
    exact hfinite
  · have hother : slot ≠ here := by
      intro heq
      subst heq
      exact hindex (index_eq_of_slot hnodup hslot hhere)
    rw [pageRows_append_other layer hpage hindex]
    unfold KvPools.set
    rw [if_neg (fun heq => hother heq.2)]
    exact hstored

section
variable (hopen : s.reservation = some r) {layer index slot committed : Nat}
variable {commit : BackendAppendCommit}
include hopen

/-- The pages of the new position, with the tail put back: the commit stays in the block of
the old rows. -/
theorem Held.settle_restored (hpaged : Paged s layer)
    (hslot : r.slots[index]? = some slot) (hcommitted : committed ≤ r.appended layer)
    (hspares : Spares log.length (r.appended layer) committed)
    (hindex : index < pagesFor (log.length + committed))
    (hblock : log.length % 16 + committed ≤ 16) :
    Stored pack (restoredPools s.backend r.transaction s.pools layer slot)
      (pageLow (log.length + committed) index)
      (pageRows layer index (log ++ r.rows.take committed)) := by
  have hreserved := h.reserved r hopen
  have hrows : (r.rows.take (r.appended layer)).length = r.appended layer :=
    length_take_of_le (hreserved.appended layer)
  have hstored := h.stored layer hpaged index slot (by rw [allSlots_open hopen]; exact hslot)
  rw [written_open hopen] at hstored
  have htake : r.rows.take committed = (r.rows.take (r.appended layer)).take committed := by
    rw [take_take, Nat.min_eq_left hcommitted]
  have hsaved := hreserved.saved
  unfold Saved at hsaved
  unfold restoredPools
  rw [htake]
  unfold pagesFor sm12xKvPageTokens at hindex
  cases htail : r.transaction.existingTail with
  | none =>
    rw [htail] at hsaved
    refine keep_page hstored (by omega) (by rw [hrows]; exact hspares) ?_
    rcases hsaved with hempty | hzero
    · have hzero := hreserved.appended layer
      rw [hempty, length_nil] at hzero
      omega
    · omega
  | some tail =>
    rw [htail] at hsaved
    obtain ⟨hunfinished, htailRows, htailSlot, hsnapshots⟩ := hsaved
    obtain ⟨snapshot, hsnapshot, hkey, hvalue⟩ := hsnapshots layer hpaged
    obtain ⟨added, hadded⟩ := hreserved.slots
    have htailIndex : r.slots[log.length / 128]? = some tail.slot := by
      rw [hadded, List.getElem?_append_left (List.getElem?_eq_some_iff.mp htailSlot).1]
      exact htailSlot
    by_cases hhere : index = log.length / 128
    · obtain rfl : tail.slot = slot := by
        rw [hhere, htailIndex] at hslot
        exact some.inj hslot
      have hpair : (s.backend.pools.zip tail.snapshots)[layer]? = some (true, some snapshot) :=
        getElem?_zip_eq_some.mpr ⟨hpaged, hsnapshot⟩
      have hpage : restoredPage tail.slot tail.rows (s.backend.pools.zip tail.snapshots) 0 s.pools
          layer tail.slot = (s.pools layer tail.slot).restoreTailPrefix snapshot tail.rows := by
        unfold restoredPage
        rw [if_pos ⟨rfl, Nat.zero_le _⟩, Nat.sub_zero, hpair]
      dsimp only
      rw [hpage, htailRows]
      subst hhere
      exact restore_page hstored hkey hvalue (by omega) (by rw [hrows]; exact hspares) hblock
    · -- The other pages of the new position were full before.
      have hother : slot ≠ tail.slot := by
        intro heq
        have hnodup := h.nodup
        rw [allSlots_open hopen] at hnodup
        rw [heq] at hslot
        exact hhere (index_eq_of_slot hnodup hslot htailIndex)
      have hpage : restoredPage tail.slot tail.rows (s.backend.pools.zip tail.snapshots) 0 s.pools
          layer slot = s.pools layer slot := by
        unfold restoredPage
        rw [if_neg (fun heq => hother heq.1)]
      dsimp only
      rw [hpage]
      rw [pageRows_append_full layer (by omega)] at hstored ⊢
      have hlow : pageLow (log.length + committed) index = pageLow log.length index := by
        unfold pageLow
        omega
      rw [hlow]
      exact hstored

theorem Held.settle_kept (hpaged : Paged s layer)
    (hslot : r.slots[index]? = some slot) (hcommitted : committed ≤ r.rows.length)
    (happended : r.appended layer = r.rows.length)
    (hspares : Spares log.length r.rows.length committed)
    (hnew : committed = r.rows.length ∨ log.length ≤ (log.length + committed) / 16 * 16) :
    Stored pack (s.pools layer slot) (pageLow (log.length + committed) index)
      (pageRows layer index (log ++ r.rows.take committed)) := by
  have hstored := h.stored layer hpaged index slot (by rw [allSlots_open hopen]; exact hslot)
  rw [written_open hopen, happended, take_length] at hstored
  exact keep_page hstored hcommitted hspares hnew

theorem Held.new_of_not_keeps (hcommitted : commit.rows ≤ r.rows.length)
    (hkeeps : ¬ PageBackend.keepsCompactTail r.transaction commit) :
    commit.rows = r.rows.length ∨ log.length ≤ (log.length + commit.rows) / 16 * 16 := by
  have hreserved := h.reserved r hopen
  have hsaved := hreserved.saved
  unfold Saved at hsaved
  unfold PageBackend.keepsCompactTail at hkeeps
  rw [hreserved.reservedRows] at hkeeps
  cases htail : r.transaction.existingTail with
  | none =>
    rw [htail] at hsaved
    rcases hsaved with hempty | hzero
    · rw [hempty, length_nil] at hcommitted ⊢
      omega
    · omega
  | some tail =>
    rw [htail] at hsaved hkeeps
    simp only [any_some, Bool.and_eq_true, decide_eq_true_eq] at hkeeps
    unfold compactTailRows at hkeeps
    omega

theorem Held.block_of_keeps (hkeeps : PageBackend.keepsCompactTail r.transaction commit) :
    log.length % 16 + commit.rows ≤ 16 := by
  have hsaved := (h.reserved r hopen).saved
  unfold Saved at hsaved
  unfold PageBackend.keepsCompactTail at hkeeps
  cases htail : r.transaction.existingTail with
  | none => simp [htail] at hkeeps
  | some tail =>
    rw [htail] at hsaved hkeeps
    simp only [any_some, Bool.and_eq_true, decide_eq_true_eq] at hkeeps
    unfold compactTailRows at hkeeps
    omega

theorem Held.tail_le :
    ∀ tail, r.transaction.existingTail = some tail → tail.rows ≤ compactTailRows := by
  intro tail htail
  have hsaved := (h.reserved r hopen).saved
  unfold Saved at hsaved
  rw [htail] at hsaved
  rw [hsaved.2.1, compactTailRows]
  omega

/-- The sequence behind a transaction that keeps some rows. -/
theorem Held.settle {committed : Nat}
    (hcommitted : committed ≤ r.rows.length) (hidle : t.reservation = none)
    (hposition : t.position = s.position + committed)
    (hslots : t.slots = r.slots.take (pagesFor (s.position + committed)))
    (hpools : t.backend.pools = s.backend.pools)
    (hstored : ∀ layer, Paged s layer → ∀ index slot, r.slots[index]? = some slot →
      index < pagesFor (log.length + committed) →
      Stored pack (t.pools layer slot) (pageLow (log.length + committed) index)
        (pageRows layer index (log ++ r.rows.take committed))) :
    Held pack t (log ++ r.rows.take committed) := by
  have hreserved := h.reserved r hopen
  have hcovered := hreserved.covered
  have hlength : (log ++ r.rows.take committed).length = log.length + committed := by
    rw [length_append, length_take_of_le hcommitted]
  rw [h.position] at hposition hslots
  exact {
    position := by rw [hposition, hlength]
    pages := by
      rw [hslots, hlength, length_take, hcovered]
      unfold pagesFor sm12xKvPageTokens
      omega
    nodup := by
      have hnodup := h.nodup
      rw [allSlots_open hopen] at hnodup
      rw [allSlots_idle hidle, hslots]
      exact hnodup.sublist (take_sublist _ _)
    stored := by
      intro layer hpaged index slot hslot
      rw [allSlots_idle hidle, hslots, getElem?_take] at hslot
      rw [written_idle hidle, append_nil, hlength]
      split at hslot
      · rename_i hindex
        refine hstored layer ?_ index slot hslot hindex
        unfold Paged at hpaged ⊢
        rw [← hpools]
        exact hpaged
      · cases hslot
    reserved := by
      intro r' hr'
      rw [hidle] at hr'
      cases hr'
  }

end

theorem Held.elsewhere {backend : PageBackend (TailSnapshot K V)}
    (hpaged : backend.pools = s.backend.pools)
    (hown : ∀ layer, ∀ slot ∈ allSlots s, pools layer slot = s.pools layer slot) :
    Held pack { s with backend := backend, pools := pools } log := { h with
  stored := by
    intro layer hlayer index slot hslot
    have hmem : slot ∈ allSlots s := mem_of_getElem? hslot
    dsimp only
    rw [hown layer slot hmem]
    refine h.stored layer ?_ index slot hslot
    unfold Paged at hlayer ⊢
    rw [← hpaged]
    exact hlayer
  reserved := by
    intro r hr
    have hreserved := h.reserved r hr
    exact { hreserved with
      saved := hreserved.saved.frame rfl hpaged rfl rfl
    } }

variable [Inhabited K] [Inhabited V]

theorem Held.reserve {rows : List (TokenRows K V)} (hreserves : Reserves s pages rows)
    (hstep : step pack s (.reserve pages rows) = some t) : Held pack t log := by
  simp only [step] at hstep
  split at hstep
  · rename_i transaction backend pools hidle hprepare
    obtain ⟨hpools, hpaged, htotal, htail⟩ := prepareAppend_ok hprepare
    subst hpools
    cases hstep
    exact { h with
      nodup := hreserves.fresh
      stored := by
        intro layer hlayer index slot hslot
        have hpagedLayer : Paged s layer := by
          unfold Paged at hlayer ⊢
          rw [← hpaged]
          exact hlayer
        change (s.slots ++ newSlots pages)[index]? = some slot at hslot
        change Stored pack (s.pools layer slot) _ (pageRows layer index (log ++ []))
        by_cases hold : index < s.slots.length
        · rw [getElem?_append_left hold, ← allSlots_idle hidle] at hslot
          have hstored := h.stored layer hpagedLayer index slot hslot
          rw [written_idle hidle] at hstored
          exact hstored
        · have hpages := h.pages
          unfold pagesFor sm12xKvPageTokens at hpages
          rw [append_nil, pageRows_eq_nil layer (by omega)]
          exact stored_nil pack _ _
      reserved := by
        intro r hr
        cases hr
        exact {
          slots := ⟨newSlots pages, rfl⟩
          covered := by
            have hcovered := hreserves.covered
            rw [h.position] at hcovered
            exact hcovered
          reservedRows := htotal.trans hreserves.total
          appended := fun layer => Nat.zero_le _
          saved := by
            exact Saved.frame (s := s)
              (r := ⟨transaction, s.slots ++ newSlots pages, rows, fun _ => 0⟩)
              (h.saved hidle hreserves htail) rfl hpaged rfl rfl
        } }
  · cases hstep

theorem Held.append {layer : Nat} {chunk : Chunk} (hfinite : ∀ r, s.reservation = some r →
      ChunkFinite pack ((s.position + r.appended layer) % sm12xKvPageTokens)
        (((r.rows.drop (r.appended layer)).take chunk.count).map (· layer)) chunk)
    (hstep : step pack s (.append layer chunk) = some t) : Held pack t log := by
  simp only [step] at hstep
  split at hstep
  · cases hstep
  · rename_i r hopen
    have hreserved := h.reserved r hopen
    specialize hfinite r hopen
    split at hstep
    · cases hstep
    · rename_i slot hslot
      split at hstep
      · cases hstep
      · rename_i hbounds
        rw [not_or, not_or] at hbounds
        obtain ⟨hcount, hpage, hroom⟩ := hbounds
        cases hstep
        have hnodup := h.nodup
        rw [allSlots_open hopen] at hnodup
        have hlength : (log ++ r.rows.take (r.appended layer)).length =
            s.position + r.appended layer := by
          rw [length_append, length_take, h.position]
          omega
        have hmore : ((r.rows.drop (r.appended layer)).take chunk.count).length = chunk.count := by
          rw [length_take, length_drop]
          omega
        exact { h with
          nodup := hnodup
          stored := by
            intro layer' hpaged index slot' hslot'
            have hstored := h.stored layer' hpaged index slot' (by
              rw [allSlots_open hopen]
              exact hslot')
            rw [written_open hopen] at hstored
            rw [written_open rfl]
            by_cases hlayer : layer' = layer
            · subst hlayer
              dsimp only
              rw [update_self, take_add, ← append_assoc]
              rw [← hlength] at hslot hfinite hpage ⊢
              refine append_page hnodup hslot hslot' hstored ?_ (pageLow_le _ _ _ _) hmore ?_ hfinite
              · unfold pageLow
                omega
              · unfold sm12xKvPageTokens at hpage
                omega
            · dsimp only
              rw [update_of_ne hlayer]
              unfold KvPools.set
              rw [if_neg (fun heq => hlayer heq.1)]
              exact hstored
          reserved := by
            intro r' hr'
            cases hr'
            exact { hreserved with
              appended := by
                intro layer'
                by_cases hlayer : layer' = layer
                · subst hlayer
                  dsimp only
                  rw [update_self]
                  omega
                · dsimp only
                  rw [update_of_ne hlayer]
                  exact hreserved.appended layer'
            } }

theorem Held.commit {committed : Nat}
    (hspares : ∀ r, s.reservation = some r → Spares s.position r.rows.length committed)
    (hstep : step pack s (.commit committed) = some t) :
    Held pack t (log ++ committedRows s (.commit committed)) := by
  simp only [step] at hstep
  split at hstep
  · cases hstep
  · rename_i r hopen
    split at hstep
    · rename_i hready
      obtain ⟨hcommitted, hall⟩ := hready
      split at hstep
      · rename_i after hcommit
        cases hstep
        obtain ⟨hdevice, hpools⟩ := commitAppend_ok (h.tail_le hopen) hcommit
        have hout : committedRows s (.commit committed) = r.rows.take committed := by
          rw [committedRows, hopen]
          rfl
        have hspared := hspares r hopen
        rw [h.position] at hspared
        rw [hout]
        refine h.settle hopen hcommitted rfl rfl rfl hpools ?_
        intro layer hpaged index slot hslot hindex
        have happended : r.appended layer = r.rows.length :=
          hall layer (List.getElem?_eq_some_iff.mp hpaged).1 hpaged
        rw [hdevice]
        split
        · rename_i hkeeps
          exact h.settle_restored hopen hpaged hslot (by omega) (by rw [happended]; exact hspared)
            hindex (h.block_of_keeps hopen hkeeps)
        · rename_i hkeeps
          exact h.settle_kept hopen hpaged hslot hcommitted happended hspared
            (h.new_of_not_keeps hopen hcommitted hkeeps)
      · cases hstep
    · cases hstep

theorem Held.abort (hstep : step pack s .abort = some t) : Held pack t log := by
  simp only [step] at hstep
  split at hstep
  · cases hstep
  · rename_i r hopen
    split at hstep
    · rename_i after habort
      cases hstep
      obtain ⟨hdevice, hpools⟩ := abortAppend_ok (h.tail_le hopen) habort
      have hnothing : log = log ++ r.rows.take 0 := by rw [take_zero, append_nil]
      rw [hnothing]
      refine h.settle hopen (Nat.zero_le _) rfl rfl rfl hpools ?_
      intro layer hpaged index slot hslot hindex
      rw [hdevice]
      exact h.settle_restored hopen hpaged hslot (Nat.zero_le _) (by
        intro hlive
        omega) hindex (by omega)
    · cases hstep

theorem Held.step {action : Action K V TK TV}
    (granted : Granted (s, log) action) (spared : Spared pack (s, log) action)
    (hstep : Sm12x.step pack s action = some t) : Held pack t (log ++ committedRows s action) := by
  cases action with
  | reserve pages rows =>
    change Held pack t (log ++ [])
    rw [append_nil]
    exact h.reserve granted hstep
  | append layer chunk =>
    change Held pack t (log ++ [])
    rw [append_nil]
    exact h.append spared hstep
  | commit committed => exact h.commit spared hstep
  | abort =>
    change Held pack t (log ++ [])
    rw [append_nil]
    exact h.abort hstep
  | elsewhere backend pools =>
    change Held pack t (log ++ [])
    rw [append_nil]
    cases hstep
    exact h.elsewhere granted.1 granted.2

end

end

/-- Every page agrees with one to which exactly the rows were appended one at a time. -/
structure SerialPages (pack : Packing K V TK TV) (s : PagedSequence K V TK TV)
    (log : List (TokenRows K V)) : Prop where
  idle : s.reservation = none
  position : s.position = log.length
  pages : s.slots.length = pagesFor log.length
  nodup : s.slots.Nodup
  same : ∀ layer, Paged s layer → ∀ index slot, s.slots[index]? = some slot → ∀ blank,
    SameBelow (pageRows layer index log).length (s.pools layer slot)
      (serial pack blank 0 (pageRows layer index log))

section
variable {pack : Packing K V TK TV} {s : PagedSequence K V TK TV} {log : List (TokenRows K V)}

theorem pageLow_eq (layer index : Nat) (log : List (TokenRows K V)) :
    pageLow log.length index = (pageRows layer index log).length / 16 * 16 := by
  rw [pageRows_length, pageLow]

theorem SerialPages.held (h : SerialPages pack s log) : Held pack s log := { h with
  nodup := by
    rw [allSlots_idle h.idle]
    exact h.nodup
  stored := by
    intro layer hpaged index slot hslot
    rw [allSlots_idle h.idle] at hslot
    rw [written_idle h.idle, append_nil, pageLow_eq layer]
    exact (stored_iff_sameBelow (s.pools layer slot)).mpr (h.same layer hpaged index slot hslot _)
  reserved := by
    intro r hr
    rw [h.idle] at hr
    cases hr }

theorem Held.serialPages (h : Held pack s log) (hidle : s.reservation = none) :
    SerialPages pack s log := { h with
  idle := hidle
  nodup := by
    have hnodup := h.nodup
    rw [allSlots_idle hidle] at hnodup
    exact hnodup
  same := by
    intro layer hpaged index slot hslot blank
    have hstored := h.stored layer hpaged index slot (by rw [allSlots_idle hidle]; exact hslot)
    rw [written_idle hidle, append_nil, pageLow_eq layer] at hstored
    exact (stored_iff_sameBelow blank).mp hstored }

end

/-- Transactions whose commits spare the rows that they keep leave serial pages. -/
theorem run_serialPages [Inhabited K] [Inhabited V] {pack : Packing K V TK TV}
    {start s : PagedSequence K V TK TV} {before log : List (TokenRows K V)}
    {actions : List (Action K V TK TV)} (hstart : SerialPages pack start before)
    (path : Path (logging (step pack) committedRows)
      (fun x action => Granted x action ∧ Spared pack x action) (start, before) actions (s, log))
    (hidle : s.reservation = none) : SerialPages pack s log := by
  have hkeeps : ∀ {x y : PagedSequence K V TK TV × List (TokenRows K V)} {action : Action K V TK TV},
      Held pack x.1 x.2 → Granted x action ∧ Spared pack x action →
      logging (step pack) committedRows x action = some y → Held pack y.1 y.2 := by
    intro x y action hheld allowed hstep
    obtain ⟨hnext, hlog⟩ := logging_eq_some.mp hstep
    rw [hlog]
    exact hheld.step allowed.1 allowed.2 hnext
  exact (path.invariant hkeeps hstart.held).serialPages hidle

/-! ## A verification block that wraps -/

/-- Rows are numbers, and tiles and blocks are the rows themselves. -/
def plainPacking : Packing Nat Nat (List Nat) (List Nat) where
  packKey := id
  packValue := id
  finiteKey := id
  finiteValue := id

/-- One layer, and slot 0 for the sequence, which has no rows. -/
def emptySequence : PagedSequence Nat Nat (List Nat) (List Nat) where
  backend := ⟨[true], [[]], [], [true], [true], 0⟩
  pools := fun _ _ => ⟨fun _ => 0, fun _ => 0, fun _ => [], fun _ => []⟩
  pageTable := ⟨[u32Max], [u32Max], 1, 0⟩
  slots := []
  position := 0
  reservation := none

def numberedRows (count : Nat) : List (TokenRows Nat Nat) :=
  (List.range count).map fun i _ => ⟨i + 1, i + 1⟩

/-- Some rows are reserved and appended together, and one is committed. -/
def commitOne (count : Nat) : List (Action Nat Nat (List Nat) (List Nat)) :=
  [.reserve [⟨⟨0⟩, count, 0, false⟩] (numberedRows count), .append 0 (.rows count), .commit 1]

theorem emptySequence_serial : SerialPages plainPacking emptySequence [] where
  idle := rfl
  position := rfl
  pages := rfl
  nodup := nodup_nil
  same := by
    intro layer _ index slot hslot
    cases hslot

theorem commitOne_reserves {count : Nat} (h : pagesFor count = 1) :
    Reserves emptySequence [⟨⟨0⟩, count, 0, false⟩] (numberedRows count) where
  total := by simp [numberedRows]
  fresh := by simp [emptySequence, newSlots]
  covered := by simp [emptySequence, newSlots, numberedRows, h]
  existing := .inr rfl

/-- The next transaction begins inside the block that the first row is in. -/
def commitNext : List (Action Nat Nat (List Nat) (List Nat)) :=
  [.reserve [⟨⟨0⟩, 2, 1, true⟩] (numberedRows 2), .append 0 (.rows 2), .commit 1]

theorem run_serialPages_commitOne : ∃ s,
    Path (logging (step plainPacking) committedRows)
      (fun x action => Granted x action ∧ Spared plainPacking x action) (emptySequence, [])
      (commitOne 2 ++ commitNext) (s, numberedRows 1 ++ numberedRows 1) ∧
    SerialPages plainPacking s (numberedRows 1 ++ numberedRows 1) := by
  have path : ∃ s, Path (logging (step plainPacking) committedRows)
      (fun x action => Granted x action ∧ Spared plainPacking x action) (emptySequence, [])
      (commitOne 2 ++ commitNext) (s, numberedRows 1 ++ numberedRows 1) ∧
      s.reservation = none := by
    refine ⟨_, .cons ⟨commitOne_reserves rfl, trivial⟩ rfl (.cons ⟨trivial, ?_⟩ rfl
      (.cons ⟨trivial, ?_⟩ rfl (.cons ⟨⟨rfl, by decide, rfl, rfl, rfl⟩, trivial⟩ rfl
        (.cons ⟨trivial, ?_⟩ rfl (.cons ⟨trivial, ?_⟩ rfl (.nil _)))))), ?_⟩
    · intro r hr
      cases hr
      exact fun row _ => ⟨rfl, rfl⟩
    · intro r hr
      cases hr
      exact spares_of_le (by decide)
    · intro r hr
      cases hr
      exact fun row _ => ⟨rfl, rfl⟩
    · intro r hr
      cases hr
      exact spares_of_le (by decide)
    · rfl
  obtain ⟨s, path, hidle⟩ := path
  exact ⟨s, path, run_serialPages emptySequence_serial path hidle⟩

/-- Seventeen rows wrap: the last one takes the slot of the row that is committed. -/
theorem seventeen_rows_wrap : ¬ ∀ (actions : List (Action Nat Nat (List Nat) (List Nat)))
    (s : PagedSequence Nat Nat (List Nat) (List Nat)) (log : List (TokenRows Nat Nat)),
    Path (logging (step plainPacking) committedRows) Granted (emptySequence, []) actions (s, log) →
    s.reservation = none → SerialPages plainPacking s log := by
  intro h
  have path : ∃ s, Path (logging (step plainPacking) committedRows) Granted (emptySequence, [])
      (commitOne 17) (s, numberedRows 1) ∧ s.reservation = none ∧
      s.backend.pools[0]? = some true ∧ s.slots[0]? = some 0 ∧ (s.pools 0 0).keyTail 0 = 17 :=
    ⟨_, .cons (commitOne_reserves rfl) rfl (.cons trivial rfl (.cons trivial rfl (.nil _))),
      rfl, rfl, rfl, rfl⟩
  obtain ⟨s, path, hidle, hpaged, hslot, htail⟩ := path
  have hserial := h (commitOne 17) s (numberedRows 1) path hidle
  have hsame := (hserial.same 0 hpaged 0 0 hslot
    ⟨fun _ => 0, fun _ => 0, fun _ => [], fun _ => []⟩).keyTail 0 (by decide) (by decide)
  rw [show 0 % 16 = 0 from rfl, htail] at hsame
  exact absurd hsame (by decide)

end Eider.Guarantees.TailTransactions
