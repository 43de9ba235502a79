import Eider.Lib.Run
import Eider.Source.DoryPrefix

/-!
# Rows restored from the Dory prefix cache

Requests restore a prefix into a fresh or reset sequence, prefill the rest of their
prompt, retain it at its end and decode, in any interleaving and with any failures.
A restored prefix must leave the rows that attention can still read as a computation
from the start leaves them.

A snapshot of a sliding layer starts two windows before its end. A sequence that was
restored from one lacks the rows before that start, and `retain` does not know it: a
prompt that ends before the snapshot did is retained with rows that nobody computed
(`uncomputed_row_restored`). Where no such prompt is retained, every restored row is
genuine: `restored_rows_genuine`.
-/
namespace Eider.Guarantees.PrefixRows
open Lib.Run Source Source.Dory List Option

variable {position p : Nat} {tokens : List Nat} {k window : Nat} {exact : Bool}

/-! ## Genuine rows -/

section
variable {R : Type} (model : DoryModel R)

/-- The rows of a computation of the tokens from the start. -/
def genuine (tokens : List Nat) : Nat → Nat → R := forward model (fun _ _ => model.zero) 0 tokens

variable {model}

theorem forward_append (rows : Nat → Nat → R) (position : Nat) (first second : List Nat) :
    forward model rows position (first ++ second) =
      forward model (forward model rows position first) (position + first.length) second := by
  induction first generalizing rows position with
  | nil => rfl
  | cons token rest ih =>
    rw [cons_append, Dory.forward, ih, Dory.forward, length_cons]
    congr 1
    omega

variable {rows : Nat → Nat → R} {base : Nat → Nat}

theorem forward_below (tokens : List Nat) (layer : Nat) (h : p < position) :
    forward model rows position tokens layer p = rows layer p := by
  induction tokens generalizing rows position with
  | nil => rfl
  | cons token rest ih =>
    rw [Dory.forward, ih (by omega), append, if_neg (by omega)]

theorem genuine_append (tokens : List Nat) (token : Nat) :
    genuine model (tokens ++ [token]) = append model (genuine model tokens) tokens.length token := by
  rw [genuine, forward_append, Nat.zero_add]
  rfl

theorem genuine_take (layer : Nat) (hp : p < k) (hk : k ≤ tokens.length) :
    genuine model (tokens.take k) layer p = genuine model tokens layer p := by
  have hsplit : tokens = tokens.take k ++ tokens.drop k := (take_append_drop k tokens).symm
  have hlength : (tokens.take k).length = k := length_take_of_le hk
  conv_rhs => rw [hsplit, genuine, forward_append, Nat.zero_add, hlength]
  rw [forward_below _ _ hp]
  rfl

/-- The rows of the layers are genuine from `base` on. -/
def Holds (model : DoryModel R) (tokens : List Nat) (base : Nat → Nat) (rows : Nat → Nat → R) :
    Prop :=
  ∀ layer window, model.windows[layer]? = some window → ∀ p, base layer ≤ p → p < tokens.length →
    rows layer p = genuine model tokens layer p

/-- Attention at the position reads only rows from `base` on. -/
def Reads (model : DoryModel R) (base : Nat → Nat) (position : Nat) : Prop :=
  ∀ layer window, model.windows[layer]? = some window → base layer ≤ readStart window position

theorem readStart_mono {q : Nat} (h : p ≤ q) : readStart window p ≤ readStart window q := by
  unfold readStart
  split
  · omega
  · omega

theorem Reads.mono {q : Nat} (h : Reads model base p) (hpq : p ≤ q) : Reads model base q :=
  fun layer window hwindow => (h layer window hwindow).trans (readStart_mono hpq)

theorem Holds.take (h : Holds model tokens base rows)
    (hk : k ≤ tokens.length) : Holds model (tokens.take k) base rows := by
  intro layer window hwindow p hbase hp
  rw [length_take_of_le hk] at hp
  rw [genuine_take layer hp hk]
  exact h layer window hwindow p hbase (by omega)

theorem visible_congr {row other : Nat → R}
    (h : ∀ p, readStart window position ≤ p → p < position → row p = other p) :
    visible window position row = visible window position other := by
  apply map_congr_left
  intro p hp
  rw [mem_range'_1] at hp
  exact h p hp.1 (by omega)

/-- One more token keeps the rows genuine if attention reads only genuine rows. -/
theorem Holds.append (h : Holds model tokens base rows)
    (hreads : Reads model base tokens.length) (token : Nat) :
    Holds model (tokens ++ [token]) base (Dory.append model rows tokens.length token) := by
  have hvisible : (model.windows.mapIdx fun l window => visible window tokens.length (rows l)) =
      model.windows.mapIdx fun l window => visible window tokens.length (genuine model tokens l) := by
    apply ext_getElem?
    intro l
    rw [getElem?_mapIdx, getElem?_mapIdx]
    cases hwindow : model.windows[l]? with
    | none => rfl
    | some window =>
      refine congrArg some (visible_congr fun p hstart hp => ?_)
      exact h l window hwindow p ((hreads l window hwindow).trans hstart) hp
  intro layer window hwindow p hbase hp
  rw [length_append, length_singleton] at hp
  rw [genuine_append, Dory.append, Dory.append, hvisible]
  by_cases hlast : p = tokens.length
  · rw [if_pos hlast, if_pos hlast]
  · rw [if_neg hlast, if_neg hlast]
    exact h layer window hwindow p hbase (by omega)

theorem Holds.forward (h : Holds model tokens base rows)
    (hreads : Reads model base tokens.length) (chunk : List Nat) :
    Holds model (tokens ++ chunk) base (Dory.forward model rows tokens.length chunk) := by
  induction chunk generalizing tokens rows with
  | nil => simpa [Dory.forward] using h
  | cons token rest ih =>
    have hnext := h.append hreads token
    have hlength : (tokens ++ [token]).length = tokens.length + 1 := by simp
    have hrest := ih hnext (hreads.mono (by omega))
    rw [append_assoc, singleton_append, hlength] at hrest
    exact hrest

end

/-! ## Snapshots -/

section
variable {R : Type} {model : DoryModel R}

/-- A snapshot holds genuine rows from two windows before its end. -/
structure EntryGenuine (model : DoryModel R) (e : Entry R) : Prop where
  layers : ∀ layer window, model.windows[layer]? = some window →
    e.caches[layer]? = some (RetainedLayer.mk (retainStart e.tokens.length window)
      ((List.range' (retainStart e.tokens.length window)
        (e.tokens.length - retainStart e.tokens.length window)).map (genuine model e.tokens layer)))
  least : e.minPosition = minPosition model.windows e.tokens.length

/-- A snapshot serves no match before the windows behind its starts. -/
theorem le_minPosition {windows : List Nat} (h : window ∈ windows)
    (hstart : retainStart position window ≠ 0) :
    retainStart position window + window ≤ minPosition windows position := by
  have hmono : ∀ (windows : List Nat) (least : Nat), least ≤ windows.foldl (fun least window =>
      let start := retainStart position window
      if start ≠ 0 then max least (start + window) else least) least := by
    intro windows
    induction windows with
    | nil => exact fun least => le_refl least
    | cons first rest ih =>
      intro least
      refine le_trans ?_ (ih _)
      dsimp only
      split
      · exact le_max_left _ _
      · exact le_refl least
  have haux : ∀ (windows : List Nat) (least : Nat), window ∈ windows →
      retainStart position window + window ≤ windows.foldl (fun least window =>
        let start := retainStart position window
        if start ≠ 0 then max least (start + window) else least) least := by
    intro windows
    induction windows with
    | nil => simp
    | cons first rest ih =>
      intro least hmem
      rw [foldl_cons]
      rcases mem_cons.mp hmem with rfl | hrest
      · refine le_trans ?_ (hmono rest _)
        rw [if_pos hstart]
        exact le_max_right _ _
      · exact ih _ hrest
  exact haux windows 0 h

theorem commonPrefix_take (s t : List Nat) (h : k ≤ commonPrefix s t) :
    k ≤ s.length ∧ s.take k = t.take k := by
  induction s generalizing t k with
  | nil =>
    have hk : k = 0 := by
      simp only [commonPrefix] at h
      omega
    simp [hk]
  | cons a s ih =>
    cases t with
    | nil =>
      have hk : k = 0 := by
        simp only [commonPrefix] at h
        omega
      simp [hk]
    | cons b t =>
      rw [commonPrefix] at h
      split at h
      · rename_i hab
        cases k with
        | zero => simp
        | succ k =>
          have hrest := ih t (by omega : k ≤ commonPrefix s t)
          rw [take_succ_cons, take_succ_cons, hrest.2, hab, length_cons]
          exact ⟨by omega, rfl⟩
      · have hk : k = 0 := by omega
        simp [hk]

/-- What a match is: a shared prefix that the snapshot reaches far enough back for. -/
theorem matched_spec {e : Entry R} (he : EntryGenuine model e) (h : e.matched tokens exact ≠ 0) :
    e.matched tokens exact ≤ e.tokens.length ∧ e.matched tokens exact ≤ tokens.length ∧
      tokens.take (e.matched tokens exact) = e.tokens.take (e.matched tokens exact) ∧
      ∀ window ∈ model.windows,
        retainStart e.tokens.length window ≤ readStart window (e.matched tokens exact) := by
  have hreach : ∀ {k : Nat}, (∀ window ∈ model.windows, retainStart e.tokens.length window ≠ 0 →
      retainStart e.tokens.length window + window ≤ k) → ∀ window ∈ model.windows,
        retainStart e.tokens.length window ≤ readStart window k := by
    intro k hk window hwindow
    have := hk window hwindow
    unfold readStart
    split
    · rename_i hfull
      rw [retainStart, if_pos hfull]
    · omega
  unfold Entry.matched at h ⊢
  cases exact with
  | true =>
    simp only [if_true] at h ⊢
    split at h
    · rename_i heq
      rw [if_pos heq, heq]
      refine ⟨le_refl _, le_refl _, rfl, ?_⟩
      rw [heq] at hreach
      refine hreach fun window _ hstart => ?_
      unfold retainStart at hstart ⊢
      split at hstart
      · exact absurd rfl hstart
      · rename_i hsliding
        rw [if_neg hsliding]
        omega
    · exact absurd rfl h
  | false =>
    simp only [Bool.false_eq_true, if_false, Entry.matchedPrefix] at h ⊢
    split at h
    · rename_i hleast
      rw [if_pos hleast]
      have hcommon := commonPrefix_take e.tokens tokens
        (min_le_left (commonPrefix e.tokens tokens) (tokens.length - 1))
      refine ⟨hcommon.1, ?_, hcommon.2.symm, hreach fun window hwindow hstart => ?_⟩
      · exact (min_le_right _ _).trans (Nat.sub_le _ _)
      · have hminimum := le_minPosition hwindow hstart
        rw [he.least] at hleast
        exact hminimum.trans hleast
    · exact absurd rfl h

/-- The starts of a snapshot of a prefix of that length. -/
def startsOf (model : DoryModel R) (length layer : Nat) : Nat :=
  retainStart length (model.windows.getD layer 0)

theorem startsOf_eq {length layer : Nat} (h : model.windows[layer]? = some window) :
    startsOf model length layer = retainStart length window := by
  rw [startsOf, getD_eq_getElem?_getD, h]
  rfl

theorem restoreRows_holds {e : Entry R} (he : EntryGenuine model e)
    (h : e.matched tokens exact ≠ 0) (rows : Nat → Nat → R) :
    Holds model (tokens.take (e.matched tokens exact)) (startsOf model e.tokens.length)
        (restoreRows e (e.matched tokens exact) rows) ∧
      Reads model (startsOf model e.tokens.length) (e.matched tokens exact) := by
  obtain ⟨hentry, htokens, hshared, hreach⟩ := matched_spec he h
  constructor
  · intro layer window hwindow p hbase hp
    rw [length_take_of_le htokens] at hp
    rw [startsOf_eq hwindow] at hbase
    rw [restoreRows, he.layers layer window hwindow]
    dsimp only
    have hindex : p - retainStart e.tokens.length window <
        e.tokens.length - retainStart e.tokens.length window := by omega
    rw [if_pos ⟨hbase, hp⟩, getD_eq_getElem?_getD, getElem?_map,
      getElem?_range' hindex, hshared, genuine_take layer hp hentry]
    rw [map_some, getD_some]
    congr 1
    omega
  · intro layer window hwindow
    rw [startsOf_eq hwindow]
    exact hreach window (mem_of_getElem? hwindow)

theorem snapshot_genuine {s : DorySequence R} {base : Nat → Nat}
    (hlength : tokens.length = s.position) (hholds : Holds model tokens base s.rows)
    (hbase : ∀ layer window, model.windows[layer]? = some window →
      base layer ≤ retainStart s.position window) (bytes used : Nat) :
    EntryGenuine model
      ⟨tokens, snapshot model s, bytes, minPosition model.windows s.position, used⟩ where
  layers layer window hwindow := by
    rw [snapshot, getElem?_mapIdx, hwindow, map_some, hlength]
    refine congrArg some (congrArg (RetainedLayer.mk _) ?_)
    apply map_congr_left
    intro p hp
    rw [mem_range'_1] at hp
    have := hbase layer window hwindow
    exact hholds layer window hwindow p (by omega) (by omega)
  least := by
    rw [hlength]

end

/-! ## The cache -/

section
variable {R : Type} {model : DoryModel R} {c : DoryPrefixCache R}

def CacheGenuine (model : DoryModel R) (c : DoryPrefixCache R) : Prop :=
  ∀ e ∈ c.entries, EntryGenuine model e

theorem select_spec {entries : List (Entry R)} {index : Nat} {best : Option (Nat × Entry R)}
    {i : Nat} {e : Entry R} (h : select tokens exact index entries best = some (i, e)) :
    (e ∈ entries ∧ e.matched tokens exact ≠ 0) ∨ best = some (i, e) := by
  induction entries generalizing index best with
  | nil => exact .inr h
  | cons first rest ih =>
    rcases ih h with ⟨hmem, hmatched⟩ | hbest
    · exact .inl ⟨mem_cons_of_mem _ hmem, hmatched⟩
    · split at hbest
      · exact .inr hbest
      · rename_i hfirst
        cases best with
        | none =>
          cases hbest
          exact .inl ⟨mem_cons_self, hfirst⟩
        | some pair =>
          dsimp only at hbest
          split at hbest
          · cases hbest
            exact .inl ⟨mem_cons_self, hfirst⟩
          · exact .inr hbest

theorem restoreMatch_ok {run : DeviceRun R} {c c' : DoryPrefixCache R} {s s' : DorySequence R}
    {m : Nat} (h : restoreMatch model run c s tokens exact = (.ok m, c', s')) :
    (select tokens exact 0 c.entries none = none ∧ m = 0 ∧ c' = c ∧ s' = s) ∨
      ∃ index e, select tokens exact 0 c.entries none = some (index, e) ∧ e ∈ c.entries ∧
        m ≠ 0 ∧ m = e.matched tokens exact ∧
        c'.entries = c.entries.set index { e with used := c'.clock } ∧
        s' = { s with rows := restoreRows e m s.rows, position := m, valid := true } := by
  unfold restoreMatch at h
  split at h
  · rename_i hnone
    cases h
    exact .inl ⟨hnone, rfl, rfl, rfl⟩
  · rename_i index e hselect
    dsimp only at h
    split at h
    · cases h
    · cases run with
      | refused err => cases h
      | broken err rows => cases h
      | done =>
        cases h
        rcases select_spec hselect with ⟨hmem, hmatched⟩ | hbest
        · exact .inr ⟨index, e, hselect, hmem, hmatched, rfl, rfl, rfl⟩
        · cases hbest

theorem restoreMatch_cache (hcache : CacheGenuine model c)
    (run : DeviceRun R) (s : DorySequence R) (tokens : List Nat) (exact : Bool) :
    CacheGenuine model (restoreMatch model run c s tokens exact).2.1 := by
  unfold restoreMatch
  split
  · exact hcache
  · rename_i index e hselect
    dsimp only
    split
    · exact hcache
    · cases run with
      | refused err => exact hcache
      | broken err rows => exact hcache
      | done =>
        intro other hother
        rcases mem_or_eq_of_mem_set hother with hmem | rfl
        · exact hcache other hmem
        · rcases select_spec hselect with ⟨hmem, -⟩ | hbest
          · exact ⟨(hcache e hmem).layers, (hcache e hmem).least⟩
          · cases hbest

theorem mem_swapRemove {entries : List (Entry R)} {index : Nat} {e : Entry R}
    (h : e ∈ swapRemove entries index) : e ∈ entries := by
  unfold swapRemove at h
  split at h
  · cases h
  · rename_i last hlast
    rcases mem_or_eq_of_mem_set (mem_of_mem_dropLast h) with hmem | rfl
    · exact hmem
    · exact mem_of_getLast? hlast

theorem evict_genuine (needed fuel : Nat) (h : CacheGenuine model c) :
    CacheGenuine model (evict needed fuel c) := by
  induction fuel generalizing c with
  | zero => exact h
  | succ fuel ih =>
    rw [evict]
    split
    · split
      · exact h
      · exact ih fun e he => h e (mem_swapRemove he)
    · exact h

/-- The cache takes a prompt that it does not hold and that fits its budget, unless a device
call fails. -/
structure Stores (model : DoryModel R) (run : RetainRun) (c : DoryPrefixCache R)
    (prompt : List Nat) : Prop where
  enabled : c.enabled = true
  fresh : ∀ e ∈ c.entries, e.tokens ≠ prompt
  fits : (model.windows.map fun window =>
    (prompt.length - retainStart prompt.length window) * model.rowBytes).sum ≤ c.budget
  synchronized : run.synchronize = .ok ()
  copied : run.copies = .ok ()

theorem retain_genuine {run : RetainRun} {s : DorySequence R} (hcache : CacheGenuine model c)
    (hentry : s.valid = true → tokens.length = s.position → Stores model run c tokens →
      ∀ bytes used, EntryGenuine model
        ⟨tokens, snapshot model s, bytes, minPosition model.windows s.position, used⟩) :
    CacheGenuine model (retain model run c s tokens).2 := by
  unfold retain
  split
  · exact hcache
  · rename_i hkeep
    simp only [Bool.or_eq_true, Bool.not_eq_true', bne_iff_ne, ne_eq, not_or, Bool.not_eq_false,
      not_not] at hkeep
    dsimp only
    split
    · exact hcache
    · rename_i hfits
      split
      · exact hcache
      · rename_i hsynchronized
        split
        · exact evict_genuine _ _ hcache
        · rename_i hcopied
          intro e he
          rcases mem_append.mp he with hold | hnew
          · exact evict_genuine _ _ hcache e hold
          · rw [mem_singleton] at hnew
            rw [hnew]
            refine hentry hkeep.1.1.1.2 hkeep.1.2 ⟨hkeep.1.1.1.1, ?_, ?_, hsynchronized, hcopied⟩ _ _
            · intro e he heq
              exact hkeep.2 (any_eq_true.mpr ⟨e, he, beq_iff_eq.mpr heq⟩)
            · rw [hkeep.1.2]
              exact not_lt.mp hfits

end

/-! ## Requests -/

/-- A request: its sequence, its prompt or decision prefix, the tokens that the
sequence has computed, and the length of the snapshot it was restored from. -/
structure Session (R : Type) where
  sequence : DorySequence R
  prompt : List Nat
  fed : List Nat
  source : Option Nat

structure World (R : Type) where
  cache : DoryPrefixCache R
  sessions : Nat → Option (Session R)

/-- A request takes a new sequence, or the one that an earlier request left behind. -/
inductive Origin where
  | fresh (capacity : Nat)
  | reused

/-- Admission with a restore, a chunk of the prompt with the retention at its end, a
token behind the prompt, and the return to the end of a decision prefix. -/
inductive Action (R : Type) where
  | admitRequest (id : Nat) (origin : Origin) (prompt : List Nat) (exact : Bool) (run : DeviceRun R)
  | prefill (id count : Nat) (run : DeviceRun R) (retained : RetainRun)
  | decode (id token : Nat) (run : DeviceRun R)
  | rewind (id : Nat)

section
variable {R : Type} (model : DoryModel R)

/-- The sequence of a new request. -/
def Origin.sequence (w : World R) (id : Nat) : Origin → Option (DorySequence R)
  | .fresh capacity => (newSequence model capacity).toOption
  | .reused => (w.sessions id).map fun session => session.sequence.reset

/-- The prefix cache behind a chunk: a prompt is retained when it is complete. -/
def retainAtEnd (run : RetainRun) (c : DoryPrefixCache R) (s : DorySequence R)
    (prompt : List Nat) : DoryPrefixCache R :=
  if s.position = prompt.length then (retain model run c s prompt).2 else c

/-- A session behind a chunk. -/
def Session.advance (session : Session R) (run : DeviceRun R) (tokens : List Nat) :
    Except CudaError Unit × Session R :=
  match prefillHidden model run session.sequence tokens with
  | (.error e, sequence) => (.error e, { session with sequence := sequence })
  | (.ok (), sequence) =>
    (.ok (), { session with sequence := sequence, fed := session.fed ++ tokens })

def step (w : World R) : Action R → Option (World R)
  | .admitRequest id origin prompt exact run => (origin.sequence model w id).map fun sequence =>
    match restoreMatch model run w.cache sequence prompt exact with
    | (.error _, cache, _) => ⟨cache, Function.update w.sessions id none⟩
    | (.ok m, cache, sequence) =>
      ⟨cache, Function.update w.sessions id (some ⟨sequence, prompt, prompt.take m,
        (select prompt exact 0 w.cache.entries none).map fun best => best.2.tokens.length⟩)⟩
  | .prefill id count run retained => (w.sessions id).bind fun session =>
    if session.prompt.length ≤ session.sequence.position then none
    else
      match session.advance model run
          ((session.prompt.drop session.sequence.position).take count) with
      | (.error _, session) => some ⟨w.cache, Function.update w.sessions id (some session)⟩
      | (.ok (), session) => some ⟨retainAtEnd model retained w.cache session.sequence session.prompt,
          Function.update w.sessions id (some session)⟩
  | .decode id token run => (w.sessions id).bind fun session =>
    if session.sequence.position < session.prompt.length then none
    else some ⟨w.cache, Function.update w.sessions id (some (session.advance model run [token]).2)⟩
  | .rewind id => (w.sessions id).bind fun session =>
    if session.sequence.position < session.prompt.length then none
    else some ⟨w.cache, Function.update w.sessions id (some { session with
      sequence := { session.sequence with position := session.prompt.length }
      fed := session.fed.take session.prompt.length })⟩

/-- A prompt that the cache takes is at least as long as the snapshot that its sequence was
restored from, or that snapshot reaches back to the first token in every layer. -/
def RetainsWithinSnapshot (w : World R) : Action R → Prop
  | .prefill id count _ retained => ∀ session, w.sessions id = some session →
    session.prompt.length ≤ session.sequence.position + count →
    Stores model retained w.cache session.prompt → ∀ length, session.source = some length → length ≤ session.prompt.length ∨
        ∀ window ∈ model.windows, window ≠ 0 → length ≤ window * 2
  | _ => True

variable {model}

/-- The first genuine row of each layer. -/
def Session.base (model : DoryModel R) (session : Session R) : Nat → Nat :=
  match session.source with
  | none => fun _ => 0
  | some length => startsOf model length

/-- The rows of a valid sequence are those of the tokens it computed. -/
structure SessionGenuine (model : DoryModel R) (session : Session R) : Prop where
  length : session.fed.length = session.sequence.position
  prompt : session.fed.take session.prompt.length = session.prompt.take session.fed.length
  holds : Holds model session.fed (session.base model) session.sequence.rows
  reads : Reads model (session.base model) session.sequence.position
  rewinds : Reads model (session.base model) session.prompt.length

structure WorldGenuine (model : DoryModel R) (w : World R) : Prop where
  cache : CacheGenuine model w.cache
  sessions : ∀ id session, w.sessions id = some session → session.sequence.valid = true →
    SessionGenuine model session

theorem reads_zero (position : Nat) : Reads model (fun _ => 0) position :=
  fun _ _ _ => Nat.zero_le _

theorem prefillHidden_cases (run : DeviceRun R) (s : DorySequence R) (tokens : List Nat) :
    (∃ e s', prefillHidden model run s tokens = (.error e, s') ∧ (s' = s ∨ s'.valid = false)) ∨
      (s.valid = true ∧ prefillHidden model run s tokens = (.ok (), { s with
        rows := forward model s.rows s.position tokens
        position := s.position + tokens.length
        valid := true })) := by
  unfold prefillHidden
  split
  · exact .inl ⟨_, s, rfl, .inl rfl⟩
  · rename_i hcheck
    simp only [check, Bool.not_eq_true', Bool.not_eq_false, Bool.and_eq_true] at hcheck
    cases run with
    | refused e => exact .inl ⟨e, s, rfl, .inl rfl⟩
    | broken e rows => exact .inl ⟨e, _, rfl, .inr rfl⟩
    | done => exact .inr ⟨hcheck.1.1.1, rfl⟩

variable {session : Session R} {run : DeviceRun R}

theorem advance_ok {session' : Session R}
    (h : session.advance model run tokens = (.ok (), session')) :
    session'.prompt = session.prompt ∧ session'.source = session.source ∧
      session'.sequence.position = session.sequence.position + tokens.length := by
  unfold Session.advance at h
  rcases prefillHidden_cases run session.sequence tokens with ⟨e, s', heq, -⟩ | ⟨-, heq⟩
  · rw [heq] at h
    cases h
  · rw [heq] at h
    cases h
    exact ⟨rfl, rfl, rfl⟩

theorem advance_genuine (h : session.sequence.valid = true → SessionGenuine model session)
    (htokens : session.sequence.valid = true → (session.fed ++ tokens).take session.prompt.length =
      session.prompt.take (session.fed ++ tokens).length)
    (hvalid : (session.advance model run tokens).2.sequence.valid = true) :
    SessionGenuine model (session.advance model run tokens).2 := by
  unfold Session.advance at hvalid ⊢
  rcases prefillHidden_cases run session.sequence tokens with
    ⟨e, s', heq, hsame | hbroken⟩ | ⟨hbefore, heq⟩
  · rw [heq] at hvalid ⊢
    subst hsame
    exact h hvalid
  · rw [heq] at hvalid
    rw [hbroken] at hvalid
    cases hvalid
  · rw [heq]
    have hsession := h hbefore
    have hreads := hsession.reads
    have hlength := hsession.length
    rw [← hlength] at hreads
    constructor
    · rw [length_append, hlength]
    · exact htokens hbefore
    · have hforward := hsession.holds.forward hreads tokens
      rw [hlength] at hforward
      exact hforward
    · exact hsession.reads.mono (Nat.le_add_right _ _)
    · exact hsession.rewinds

theorem chunk_take {count : Nat} (h : SessionGenuine model session)
    (hmore : session.sequence.position < session.prompt.length) :
    (session.fed ++ (session.prompt.drop session.sequence.position).take count).take
        session.prompt.length =
      session.prompt.take
        (session.fed ++ (session.prompt.drop session.sequence.position).take count).length := by
  have hfed : session.fed = session.prompt.take session.sequence.position := by
    have hprompt := h.prompt
    rw [h.length] at hprompt
    rw [← hprompt, take_of_length_le]
    rw [h.length]
    omega
  have hall : session.fed ++ (session.prompt.drop session.sequence.position).take count =
      session.prompt.take (session.sequence.position + count) := by
    rw [hfed, take_add]
  rw [hall, take_take, length_take]
  congr 1
  omega

theorem token_take {token : Nat} (h : SessionGenuine model session)
    (hdone : session.prompt.length ≤ session.sequence.position) :
    (session.fed ++ [token]).take session.prompt.length =
      session.prompt.take (session.fed ++ [token]).length := by
  have hlength := h.length
  have hprompt : session.fed.take session.prompt.length = session.prompt := by
    rw [h.prompt]
    exact take_of_length_le (by omega)
  rw [take_append_of_le_length (by omega), hprompt, take_of_length_le]
  rw [length_append]
  omega

theorem admit_genuine {c c' : DoryPrefixCache R} {s s' : DorySequence R}
    {prompt : List Nat} {m : Nat} (hcache : CacheGenuine model c) (hposition : s.position = 0)
    (h : restoreMatch model run c s prompt exact = (.ok m, c', s')) :
    SessionGenuine model ⟨s', prompt, prompt.take m,
      (select prompt exact 0 c.entries none).map fun best => best.2.tokens.length⟩ := by
  rcases restoreMatch_ok h with ⟨hnone, rfl, -, rfl⟩ | ⟨index, e, hsome, hmem, hm, rfl, -, rfl⟩
  · rw [hnone]
    constructor
    · exact hposition.symm
    · simp
    · intro layer window _ p _ hp
      simp at hp
    · exact reads_zero _
    · exact reads_zero _
  · rw [hsome]
    obtain ⟨hholds, hreads⟩ := restoreRows_holds (hcache e hmem) hm s.rows
    have hle := (matched_spec (hcache e hmem) hm).2.1
    constructor
    · exact length_take_of_le hle
    · rw [length_take_of_le hle, take_take, Nat.min_eq_right hle]
    · exact hholds
    · exact hreads
    · exact hreads.mono hle

theorem retainAtEnd_genuine {run : RetainRun} {c : DoryPrefixCache R} {session : Session R}
    (hcache : CacheGenuine model c)
    (h : session.sequence.valid = true → SessionGenuine model session)
    (hguard : session.sequence.position = session.prompt.length →
      Stores model run c session.prompt → ∀ length, session.source = some length → length ≤ session.prompt.length ∨
        ∀ window ∈ model.windows, window ≠ 0 → length ≤ window * 2) :
    CacheGenuine model (retainAtEnd model run c session.sequence session.prompt) := by
  unfold retainAtEnd
  split
  · rename_i hend
    refine retain_genuine hcache fun hvalid hlength hstores bytes used => ?_
    have hsession := h hvalid
    have hfed : session.fed = session.prompt := by
      have hprompt := hsession.prompt
      have hsame := hsession.length
      rw [take_of_length_le (by omega), take_of_length_le (by omega)] at hprompt
      exact hprompt
    have hholds := hsession.holds
    rw [hfed] at hholds
    refine snapshot_genuine hlength hholds (fun layer window hwindow => ?_) bytes used
    cases hsource : session.source with
    | none =>
      simp only [Session.base, hsource]
      exact Nat.zero_le _
    | some length =>
      simp only [Session.base, hsource]
      rw [startsOf_eq hwindow, hend]
      have hwithin := hguard hend hstores length hsource
      unfold retainStart
      split
      · exact le_refl 0
      · rename_i hsliding
        rcases hwithin with hlonger | hshort
        · omega
        · have := hshort window (mem_of_getElem? hwindow) hsliding
          omega
  · exact hcache

theorem origin_position {w : World R} {id : Nat} {origin : Origin} {s : DorySequence R}
    (h : origin.sequence model w id = some s) : s.position = 0 := by
  cases origin with
  | fresh capacity =>
    rw [Origin.sequence, newSequence] at h
    split at h
    · cases h
    · cases h
      rfl
  | reused =>
    simp only [Origin.sequence, map_eq_some_iff] at h
    obtain ⟨session, -, rfl⟩ := h
    rfl

theorem WorldGenuine.update {w : World R} {c : DoryPrefixCache R} {id : Nat}
    {session : Option (Session R)} (h : WorldGenuine model w) (hcache : CacheGenuine model c)
    (hsession : ∀ s, session = some s → s.sequence.valid = true → SessionGenuine model s) :
    WorldGenuine model ⟨c, Function.update w.sessions id session⟩ := by
  refine ⟨hcache, fun other s hs hvalid => ?_⟩
  by_cases hother : other = id
  · subst hother
    simp only [Function.update_self] at hs
    exact hsession s hs hvalid
  · simp only [Function.update_of_ne hother] at hs
    exact h.sessions other s hs hvalid

theorem step_genuine {w w' : World R} {a : Action R} (h : WorldGenuine model w)
    (hguard : RetainsWithinSnapshot model w a) (hstep : step model w a = some w') :
    WorldGenuine model w' := by
  cases a with
  | admitRequest id origin prompt exact run =>
    simp only [step, map_eq_some_iff] at hstep
    obtain ⟨s, horigin, hstep⟩ := hstep
    have hcache := restoreMatch_cache h.cache run s prompt exact
    split at hstep
    · rename_i e cache s' heq
      rw [heq] at hcache
      rw [← hstep]
      exact h.update hcache (by simp)
    · rename_i m cache s' heq
      rw [heq] at hcache
      rw [← hstep]
      refine h.update hcache fun session hsession _ => ?_
      cases hsession
      exact admit_genuine h.cache (origin_position horigin) heq
  | prefill id count run retained =>
    simp only [step, bind_eq_some_iff] at hstep
    obtain ⟨session, hsession, hstep⟩ := hstep
    split at hstep
    · cases hstep
    rename_i hmore
    have hgenuine := h.sessions id session hsession
    have hadvance : ∀ s, (session.advance model run
        ((session.prompt.drop session.sequence.position).take count)).2 = s →
          s.sequence.valid = true → SessionGenuine model s := by
      rintro s rfl hvalid
      exact advance_genuine hgenuine
        (fun hbefore => chunk_take (hgenuine hbefore) (Nat.lt_of_not_le hmore)) hvalid
    split at hstep
    · rename_i e session' heq
      cases hstep
      refine h.update h.cache fun s hs => ?_
      cases hs
      exact hadvance _ (by rw [heq])
    · rename_i session' heq
      cases hstep
      have hsession' := hadvance session' (by rw [heq])
      obtain ⟨hprompt, hsource, hposition⟩ := advance_ok heq
      refine h.update (retainAtEnd_genuine h.cache hsession' fun hend => ?_) fun s hs => ?_
      · -- the chunk that completes the prompt is one that the condition is about
        rw [hprompt, hsource]
        rw [hprompt, hposition, length_take, length_drop] at hend
        exact hguard session hsession (by omega)
      · cases hs
        exact hsession'
  | decode id token run =>
    simp only [step, bind_eq_some_iff] at hstep
    obtain ⟨session, hsession, hstep⟩ := hstep
    split at hstep
    · cases hstep
    rename_i hdone
    cases hstep
    have hgenuine := h.sessions id session hsession
    refine h.update h.cache fun s hs hvalid => ?_
    cases hs
    exact advance_genuine hgenuine
      (fun hbefore => token_take (hgenuine hbefore) (Nat.le_of_not_lt hdone)) hvalid
  | rewind id =>
    simp only [step, bind_eq_some_iff] at hstep
    obtain ⟨session, hsession, hstep⟩ := hstep
    split at hstep
    · cases hstep
    cases hstep
    refine h.update h.cache fun s hs hvalid => ?_
    cases hs
    have hgenuine := h.sessions id session hsession hvalid
    have hlength := hgenuine.length
    constructor
    · exact length_take_of_le (by omega)
    · have hfed : session.fed.take session.prompt.length = session.prompt := by
        rw [hgenuine.prompt]
        exact take_of_length_le (by omega)
      rw [hfed]
    · exact hgenuine.holds.take (by omega)
    · exact hgenuine.rewinds
    · exact hgenuine.rewinds

/-- In every run from an empty cache whose retained prompts all keep within the
snapshots they started from: whatever is restored into whatever sequence, the rows that
attention can read from the restored position on are those of the matched tokens, and
the cache holds no row that was not computed for its entry's tokens. -/
theorem restored_rows_genuine {budget : Nat} {actions : List (Action R)} {w : World R}
    (path : Path (step model) (RetainsWithinSnapshot model) ⟨.new budget, fun _ => none⟩ actions w) :
    (∀ (run : DeviceRun R) (s : DorySequence R) (tokens : List Nat) (exact : Bool) (m : Nat)
        (c' : DoryPrefixCache R) (s' : DorySequence R),
      restoreMatch model run w.cache s tokens exact = (.ok m, c', s') → 0 < m →
        s'.position = m ∧ ∀ layer window, model.windows[layer]? = some window →
          ∀ p, readStart window m ≤ p → p < m →
            s'.rows layer p = genuine model (tokens.take m) layer p) ∧
    ∀ e ∈ w.cache.entries, EntryGenuine model e := by
  have hstart : WorldGenuine model ⟨.new budget, fun _ => none⟩ := by
    constructor
    · intro e he
      cases he
    · simp
  have hworld : WorldGenuine model w := path.invariant step_genuine hstart
  refine ⟨fun run s tokens exact m c' s' h hpos => ?_, hworld.cache⟩
  rcases restoreMatch_ok h with ⟨-, rfl, -, -⟩ | ⟨index, e, -, hmem, hm, rfl, -, rfl⟩
  · omega
  · obtain ⟨hholds, hreads⟩ := restoreRows_holds (hworld.cache e hmem) hm s.rows
    have hle := (matched_spec (hworld.cache e hmem) hm).2.1
    refine ⟨rfl, fun layer window hwindow p hstart hp => ?_⟩
    refine hholds layer window hwindow p ((hreads layer window hwindow).trans hstart) ?_
    rw [length_take_of_le hle]
    exact hp

end

/-! ## Rows that nobody computed -/

/-- One sliding layer with a window of four. A row is its token plus one, so that the
zero of a new buffer is no row. -/
def sampleModel : DoryModel Nat := ⟨[4], 1, 100, 100, 0, fun _ token _ _ => token + 1⟩

def sampleRetain : RetainRun := ⟨.ok (), .ok ()⟩

/-- A prompt of three windows is computed and retained. -/
def firstPrompt : List (Action Nat) :=
  [.admitRequest 0 (.fresh 20) [1, 2, 3, 4, 5, 6, 7, 8, 9, 10, 11, 12] false .done,
    .prefill 0 12 .done sampleRetain]

/-- The next turn is restored behind the prompt, computed and retained. -/
def secondTurn : List (Action Nat) :=
  [.admitRequest 1 (.fresh 20) [1, 2, 3, 4, 5, 6, 7, 8, 9, 10, 11, 12, 13, 14, 15] false .done,
    .prefill 1 3 .done sampleRetain]

theorem first_prompt_restored :
    ∃ w c' s', Path (step sampleModel) (RetainsWithinSnapshot sampleModel)
        ⟨.new 1000, fun _ => none⟩ (firstPrompt ++ secondTurn) w ∧
      restoreMatch sampleModel .done w.cache ⟨fun _ _ => 0, 20, 0, true⟩
        [1, 2, 3, 4, 5, 6, 7, 8, 9, 10, 11, 12, 13, 14, 70] false = (.ok 14, c', s') ∧
      s'.rows 0 11 = genuine sampleModel [1, 2, 3, 4, 5, 6, 7, 8, 9, 10, 11, 12, 13, 14] 0 11 := by
  have hpath : ∃ w, Path (step sampleModel) (RetainsWithinSnapshot sampleModel)
      ⟨.new 1000, fun _ => none⟩ (firstPrompt ++ secondTurn) w ∧
      ∃ c' s', restoreMatch sampleModel .done w.cache ⟨fun _ _ => 0, 20, 0, true⟩
        [1, 2, 3, 4, 5, 6, 7, 8, 9, 10, 11, 12, 13, 14, 70] false = (.ok 14, c', s') := by
    refine ⟨_, .cons trivial rfl (.cons ?_ rfl (.cons trivial rfl (.cons ?_ rfl (.nil _)))),
      _, _, rfl⟩
    · intro session hsession _ _ length hlength
      cases hsession
      cases hlength
    · intro session hsession _ _ length hlength
      cases hsession
      cases hlength
      exact .inl (by decide)
  obtain ⟨w, path, c', s', hrestore⟩ := hpath
  have hrows := ((restored_rows_genuine path).1 _ _ _ _ _ _ _ hrestore (by decide)).2
  exact ⟨w, c', s', path, hrestore, hrows 0 4 rfl 11 (by decide) (by decide)⟩

/-- A second prompt leaves the first after eight tokens and is retained with its
nine; a third leaves the second after five. The row at position 2, inside the window
of position 5, is the zero of the second prompt's buffer. -/
theorem uncomputed_row_restored :
    ∃ w c' s', run (step sampleModel) ⟨.new 1000, fun _ => none⟩ (firstPrompt ++
        [.admitRequest 1 (.fresh 20) [1, 2, 3, 4, 5, 6, 7, 8, 50] false .done,
          .prefill 1 9 .done sampleRetain]) = some w ∧
      restoreMatch sampleModel .done w.cache ⟨fun _ _ => 0, 20, 0, true⟩ [1, 2, 3, 4, 5, 60] false =
        (.ok 5, c', s') ∧
      readStart 4 5 ≤ 2 ∧ s'.rows 0 2 ≠ genuine sampleModel [1, 2, 3, 4, 5] 0 2 :=
  ⟨_, _, _, rfl, rfl, by decide, by decide⟩

end Eider.Guarantees.PrefixRows
