import Eider.Guarantees.Deepseek4Serving
import Eider.Lib.Run
import Eider.Source.PagedServing

/-!
The requests of the Ling 3, BitNet and Bonsai services, the sequences of their pools and the
active sequences of their caches. A request owns at most one sequence of the pool, a sequence
of the pool is one active sequence of the cache, and a request without a sequence waits.

Decoding and prefill change only what the books do not read, and a request that ends leaves
them together with its sequence. The admission takes an id off the queue before its calls,
so a tick keeps the books if no call of an admission fails.
-/
namespace Eider.Guarantees.PagedCustody
open Lib.BTreeMap Option
open Lib Lib.ByteReader Lib.Desk Lib.Run Source.PagedServing List
open Source (CudaError ChatFinishReason ActiveSequences)
open Source.Qwen36 (SchedulerConfig RequestConfig attempt)
open Guarantees.Deepseek4Serving (Failing ensures_mono attempt_rule expect_rule
  failing_of_stays)
open Guarantees.SchedulerLedger (attempt_stays expect_stays)

variable {S ω α β : Type}
variable {r : ActiveRequest ω} {q : Sequence S} {rest : List Nat} {x : ChatService S ω × List Nat}

/-! ## The books -/

/-- The requests, the queue and the pool of the service. -/
def deskOf (s : ChatService S ω) : Desk (ActiveRequest ω) where
  items := s.requests
  queue := s.waiting
  pool := s.sequences.keys
  nextId := s.nextId
  nextSlot := s.nextSequenceId

/-- The books of the service, with the requests `hand` taken out of the map and the places
`popped` taken off the queue. -/
abbrev Books (s : ChatService S ω) (hand : List (ActiveRequest ω)) (popped : List Nat) : Prop :=
  Sound ActiveRequest.id ActiveRequest.sequenceId (fun _ => True) (deskOf s) hand popped

/-- The sequences of the pool, with those in hand, are the active sequences of the cache. -/
structure Cached (sequences : BTreeMap Nat (Sequence S)) (cache : ActiveSequences)
    (hand : List (Sequence S)) : Prop where
  active : Balanced (fun sequence => [sequence.cacheId]) sequences hand cache.active.keys
  allocated : ∀ id ∈ cache.active.keys, id < cache.nextId

/-- What a call keeps, whether it returns or fails. -/
structure Kept (s : ChatService S ω) : Prop where
  books : Books s [] []
  cached : Cached s.sequences s.sequenceCache []

/-- A later state of the service: requests and sequences are the earlier ones or new, and
none has changed hands. -/
structure Onward (s t : ChatService S ω) : Prop where
  nextSequenceId : s.nextSequenceId ≤ t.nextSequenceId
  nextCacheId : s.sequenceCache.nextId ≤ t.sequenceCache.nextId
  requests : ∀ id r, t.requests.get id = some r → ∃ r₀, s.requests.get id = some r₀ ∧
    ∀ sid < s.nextSequenceId, r.sequenceId = some sid → r₀.sequenceId = some sid
  sequences : ∀ sid q, t.sequences.get sid = some q → sid < s.nextSequenceId →
    ∃ q₀, s.sequences.get sid = some q₀ ∧ q₀.cacheId = q.cacheId
  fresh : ∀ sid q, t.sequences.get sid = some q → s.nextSequenceId ≤ sid →
    s.sequenceCache.nextId ≤ q.cacheId

/-- What a program ensures that starts in the state `s` of the books. -/
structure Followed (s t : ChatService S ω) : Prop where
  kept : Kept t
  onward : Onward s t

/-- The work on admitted requests: the books read the same behind it. -/
structure Worked (s t : ChatService S ω) : Prop where
  config : t.config = s.config
  nextId : t.nextId = s.nextId
  waiting : t.waiting = s.waiting
  nextSequenceId : t.nextSequenceId = s.nextSequenceId
  sequenceCache : t.sequenceCache = s.sequenceCache
  requests : ∀ id, (t.requests.get id).map (fun r => (r.id, r.sequenceId)) =
    (s.requests.get id).map fun r => (r.id, r.sequenceId)
  sequences : ∀ sid, (t.sequences.get sid).map Sequence.cacheId =
    (s.sequences.get sid).map Sequence.cacheId

variable {id : Nat}

section
variable {s t u : ChatService S ω}

theorem Onward.refl (s : ChatService S ω) (h : Books s [] []) : Onward s s where
  nextSequenceId := Nat.le_refl _
  nextCacheId := Nat.le_refl _
  requests := fun _ r hget => ⟨r, hget, fun _ _ hsid => hsid⟩
  sequences := fun _ q hget _ => ⟨q, hget, rfl⟩
  fresh := fun sid q hget hle => by
    have hkey : sid ∈ s.sequences.keys := by
      rw [mem_keys_iff, hget]
      rfl
    exact absurd (h.allocated sid hkey) (Nat.not_lt.mpr hle)

theorem Onward.trans (h : Onward s t) (h' : Onward t u) : Onward s u where
  nextSequenceId := h.nextSequenceId.trans h'.nextSequenceId
  nextCacheId := h.nextCacheId.trans h'.nextCacheId
  requests := fun id r hget => by
    obtain ⟨r₁, hr₁, hback⟩ := h'.requests id r hget
    obtain ⟨r₀, hr₀, hback₀⟩ := h.requests id r₁ hr₁
    exact ⟨r₀, hr₀, fun sid hlt hsid =>
      hback₀ sid hlt (hback sid (hlt.trans_le h.nextSequenceId) hsid)⟩
  sequences := fun sid q hget hlt => by
    obtain ⟨q₁, hq₁, heq₁⟩ := h'.sequences sid q hget (hlt.trans_le h.nextSequenceId)
    obtain ⟨q₀, hq₀, heq₀⟩ := h.sequences sid q₁ hq₁ hlt
    exact ⟨q₀, hq₀, heq₀.trans heq₁⟩
  fresh := fun sid q hget hle => by
    by_cases hlt : sid < t.nextSequenceId
    · obtain ⟨q₁, hq₁, heq⟩ := h'.sequences sid q hget hlt
      exact heq ▸ h.fresh sid q₁ hq₁ hle
    · exact h.nextCacheId.trans (h'.fresh sid q hget (Nat.not_lt.mp hlt))

theorem Followed.start (h : Kept s) : Followed s s := ⟨h, Onward.refl s h.books⟩

theorem Followed.trans (h : Followed s t) (h' : Followed t u) : Followed s u :=
  ⟨h'.kept, h.onward.trans h'.onward⟩

theorem Worked.refl (s : ChatService S ω) : Worked s s :=
  ⟨rfl, rfl, rfl, rfl, rfl, fun _ => rfl, fun _ => rfl⟩

theorem Worked.get (h : Worked s t) (hget : t.requests.get id = some r) :
    ∃ r₀, s.requests.get id = some r₀ ∧ r₀.id = r.id ∧ r₀.sequenceId = r.sequenceId := by
  have hpair := h.requests id
  rw [hget] at hpair
  obtain ⟨r₀, hr₀, heq⟩ := map_eq_some_iff.mp hpair.symm
  exact ⟨r₀, hr₀, (Prod.mk.inj heq).1, (Prod.mk.inj heq).2⟩

theorem Worked.followed (h : Worked s t) (hkept : Kept s) : Followed s t := by
  have hpool : t.sequences.keys = s.sequences.keys := by
    apply keys_congr
    intro sid
    have hsome := congrArg isSome (h.sequences sid)
    rwa [isSome_map, isSome_map] at hsome
  have hback : ∀ sid q, t.sequences.get sid = some q →
      ∃ q₀, s.sequences.get sid = some q₀ ∧ q₀.cacheId = q.cacheId := by
    intro sid q hget
    have hsid := h.sequences sid
    rw [hget] at hsid
    exact map_eq_some_iff.mp hsid.symm
  constructor
  · constructor
    · have hbooks := hkept.books.remap h.requests fun _ _ => trivial
      have hdesk : deskOf t = { deskOf s with items := t.requests } := by
        simp only [deskOf, h.waiting, hpool, h.nextId, h.nextSequenceId]
      unfold Books
      rw [hdesk]
      exact hbooks
    · constructor
      · rw [h.sequenceCache]
        apply hkept.cached.active.remap
        intro sid
        have hsid := congrArg (Option.map fun id => [id]) (h.sequences sid)
        simpa only [Option.map_map, Function.comp_def] using hsid
      · rw [h.sequenceCache]
        exact hkept.cached.allocated
  · constructor
    · exact h.nextSequenceId.ge
    · exact h.sequenceCache ▸ Nat.le_refl _
    · intro id r hget
      obtain ⟨r₀, hr₀, -, hslot⟩ := h.get hget
      exact ⟨r₀, hr₀, fun _ _ hsid => hslot.trans hsid⟩
    · exact fun sid q hget _ => hback sid q hget
    · intro sid q hget hle
      obtain ⟨q₀, hq₀, heq⟩ := hback sid q hget
      exact heq ▸ (Onward.refl s hkept.books).fresh sid q₀ hq₀ hle

end

/-! ## Decoding and prefill -/

section
variable {s : ChatService S ω} {family : Family} {calls : Calls S ω}

theorem changeRequest_worked {f : ActiveRequest ω → ActiveRequest ω}
    (hf : ∀ r, (f r).id = r.id ∧ (f r).sequenceId = r.sequenceId) :
    Stays (Worked s) (changeRequest id f) := by
  refine .modify fun t h => ?_
  cases hget : t.requests.get id with
  | none => exact h
  | some r =>
    refine { h with requests := fun other => ?_ }
    rw [get_insert]
    split
    · rename_i heq
      subst heq
      rw [← h.requests, hget, map_some, map_some, (hf r).1, (hf r).2]
    · exact h.requests other

theorem withLease_worked {sid : Nat} {program : S → S × Except CudaError α} :
    Stays (Worked s) (withLease family sid program) := by
  refine .get_bind fun t h => ?_
  cases hget : t.sequences.get sid with
  | none => exact .throw _
  | some sequence =>
    refine .set_bind { h with sequences := fun other => ?_ } ?_
    · rw [get_insert]
      split
      · rename_i heq
        subst heq
        rw [← h.sequences, hget]
        rfl
      · exact h.sequences other
    · cases (program sequence.state).2 with
      | ok a => exact .pure _
      | error e => exact .throw _

theorem report_worked {f : Tick → Tick} : Stays (Worked s) (report f) :=
  .modify fun _ h => { h with }

theorem emitToken_worked {token : Nat} : Stays (Worked s) (emitToken calls id token) := by
  refine .bind (changeRequest_worked fun _ => ⟨rfl, rfl⟩) fun _ => report_worked.bind fun _ => ?_
  refine .get_bind fun _ _ => expect_stays.bind fun _ => ?_
  exact .bind (changeRequest_worked fun _ => ⟨rfl, rfl⟩) fun _ => attempt_stays.bind fun _ => .pure _

theorem advance_worked {sid : Nat} {request : ActiveRequest ω} :
    Stays (Worked s) (advance family calls id sid request) :=
  .ite (changeRequest_worked fun _ => ⟨rfl, rfl⟩) (expect_stays.bind fun _ => withLease_worked)

theorem generateOne_worked : Stays (Worked s) (generateOne family calls id) := by
  refine .get_bind fun _ _ => expect_stays.bind fun _ => expect_stays.bind fun _ => ?_
  refine withLease_worked.bind fun _ => advance_worked.bind fun _ => ?_
  exact withLease_worked.bind fun _ => emitToken_worked

theorem decodeLoop_worked (ids : List Nat) (terminal : BTreeMap Nat ChatFinishReason) :
    Stays (Worked s) (decodeLoop family calls ids terminal) := by
  induction ids generalizing terminal with
  | nil => exact .pure _
  | cons id ids ih =>
    refine generateOne_worked.bind fun reason => ?_
    cases reason with
    | some reason => exact ih _
    | none => exact ih _

theorem prefillLoop_worked (ids : List Nat) (budget : Nat) :
    Stays (Worked s) (prefillLoop family calls ids budget) := by
  induction ids generalizing budget with
  | nil => exact .pure _
  | cons id ids ih =>
    refine .get_bind fun _ _ => expect_stays.bind fun _ => ?_
    refine .ite (ih _) (expect_stays.bind fun _ => withLease_worked.bind fun _ => ?_)
    exact .bind (changeRequest_worked fun _ => ⟨rfl, rfl⟩) fun _ => report_worked.bind fun _ => ih _

theorem finishOutput_worked {output : ω} {reason : ChatFinishReason} :
    Stays (Worked s) (finishOutput calls id output reason) := by
  unfold finishOutput
  split
  · exact .bind (changeRequest_worked fun _ => ⟨rfl, rfl⟩) fun _ => attempt_stays.bind fun _ => .pure _
  · exact .bind (changeRequest_worked fun _ => ⟨rfl, rfl⟩) fun _ => attempt_stays.bind fun _ => .pure _
  · exact .pure _

end

/-! ## The end of a request -/

section
variable {s t : ChatService S ω} {family : Family} {calls : Calls S ω} {id sid : Nat}

theorem onward_of_fewer (h : Books s [] [])
    (hrequests : ∀ id r, t.requests.get id = some r → s.requests.get id = some r)
    (hsequences : ∀ sid q, t.sequences.get sid = some q → s.sequences.get sid = some q)
    (hsid : t.nextSequenceId = s.nextSequenceId)
    (hcache : t.sequenceCache.nextId = s.sequenceCache.nextId) : Onward s t where
  nextSequenceId := hsid.ge
  nextCacheId := hcache.ge
  requests := fun id r hget => ⟨r, hrequests id r hget, fun _ _ hslot => hslot⟩
  sequences := fun sid q hget _ => ⟨q, hsequences sid q hget, rfl⟩
  fresh := fun sid q hget hle => (Onward.refl s h).fresh sid q (hsequences sid q hget) hle

theorem Cached.finish {sequences : BTreeMap Nat (Sequence S)} {cache : ActiveSequences}
    (h : Cached sequences cache []) (hentry : sequences.get sid = some q) :
    Cached (sequences.erase sid) (cache.finish q.cacheId) [] := by
  have hactive : q.cacheId ∈ cache.active.keys := h.active.mem hentry (by simp)
  obtain ⟨bytes, hbytes⟩ := isSome_iff_exists.mp (mem_keys_iff.mp hactive)
  have hperm := keys_erase_perm hbytes
  constructor
  · have htaken := (h.active.take hentry).perm (List.Perm.refl _) hperm
    exact Balanced.drop (v := q) htaken
  · intro other hother
    exact h.allocated other (hperm.mem_iff.mpr (mem_cons_of_mem _ hother))

theorem finished_followed (h : Kept s) (hget : s.requests.get id = some r)
    (hsid : r.sequenceId = some sid) (hentry : s.sequences.get sid = some q) :
    Followed s { s with
      requests := s.requests.erase id
      sequences := s.sequences.erase sid
      sequenceCache := s.sequenceCache.finish q.cacheId } := by
  constructor
  · refine ⟨?_, h.cached.finish hentry⟩
    apply (h.books.take hget).drop
    · simp only [place, hsid]
      exact List.Perm.refl _
    · simp only [owns, hsid]
      exact keys_erase_perm hentry
  · apply onward_of_fewer h.books
    · exact fun other r hget => (get_of_get_erase hget).2
    · exact fun other q hget => (get_of_get_erase hget).2
    · rfl
    · rfl

theorem finishRequest_followed (h : Kept s) (id : Nat) (reason : ChatFinishReason) :
    Ensures (finishRequest family calls id reason) s (fun _ t => Followed s t)
      (Failing fun _ t => Followed s t) := by
  apply Ensures.get_bind
  apply expect_rule
  intro request hrequest
  apply (failing_of_stays finishOutput_worked (Worked.refl s) fun _ ht => ht.followed h).bind
  intro reason t ht
  have hfollowed := ht.followed h
  obtain ⟨r, hr⟩ : ∃ r, t.requests.get id = some r := by
    have hpair := ht.requests id
    rw [hrequest] at hpair
    obtain ⟨r, hr, -⟩ := map_eq_some_iff.mp hpair
    exact ⟨r, hr⟩
  apply Ensures.modify_bind
  apply expect_rule
  intro sid hsid
  have hslot : r.sequenceId = some sid := by
    obtain ⟨r₀, hr₀, -, hsame⟩ := ht.get hr
    cases hrequest.symm.trans hr₀
    exact hsame.symm.trans hsid
  -- The sequence of the request is in the pool, so its release cannot fail.
  obtain ⟨q, hq⟩ : ∃ q, t.sequences.get sid = some q := by
    have hpool : sid ∈ t.sequences.keys :=
      (hfollowed.kept.books.take hr).mem_pool mem_cons_self hslot
    exact isSome_iff_exists.mp (mem_keys_iff.mp hpool)
  have hdone := hfollowed.trans (finished_followed hfollowed.kept hr hslot hq)
  apply Ensures.bind (P := fun sequence u => sequence = q ∧
    u = { t with requests := t.requests.erase id, sequences := t.sequences.erase sid })
  · apply Ensures.get_bind
    rw [hq]
    exact ⟨rfl, rfl⟩
  rintro _ _ ⟨rfl, rfl⟩
  apply Ensures.modify_bind
  apply attempt_rule
  · intro _ _
    apply Ensures.modify
    exact ⟨⟨hdone.kept.books, hdone.kept.cached⟩, { hdone.onward with }⟩
  · intro _ _
    exact hdone

end

/-! ## Admission -/

/-- The cache admits the request. -/
def admits (calls : Calls S ω) (id : Nat) : Bool :=
  match calls.admission id with
  | .ok (some _) => true
  | .ok none => false
  | .error _ => false

/-- The requests that an admission with `free` slots takes off the queue: behind one that the
cache does not admit there is none. -/
def admissions (calls : Calls S ω) : Nat → List Nat → List Nat
  | 0, _ => []
  | _, [] => []
  | free + 1, id :: rest => id :: if admits calls id then admissions calls free rest else []

/-- The calls for an admission return. BitNet and Bonsai fail also where the cache would block. -/
def admissionReturns (family : Family) (calls : Calls S ω) (id capacity : Nat) : Bool :=
  match calls.newState id capacity with
  | .error _ => false
  | .ok state =>
    (calls.newPageTable id capacity).isOk && (calls.admission id).isOk &&
      if family = .ling3 then
        (calls.newWorkspace id).isOk && (calls.prepareDecodeGraphs id state).isOk
      else admits calls id && (calls.synchronizeAdmission id).isOk

/-- No call of an admission fails, and no sequence id runs out. -/
structure AdmissionClear (family : Family) (calls : Calls S ω)
    (requests : BTreeMap Nat (ActiveRequest ω)) (free : Nat) (waiting : List Nat)
    (nextSequenceId : Nat) : Prop where
  returns : ∀ id ∈ admissions calls free waiting, ∀ r, requests.get id = some r →
    admissionReturns family calls id (requestCapacity r) = true
  ids : nextSequenceId + ((admissions calls free waiting).filter (admits calls)).length < 2 ^ 64

theorem eq_ok_of_isOk {ε : Type} {x : Except ε α} (h : x.isOk = true) : ∃ a, x = .ok a := by
  cases x with
  | ok a => exact ⟨a, rfl⟩
  | error e => cases h

section
variable {s t : ChatService S ω} {family : Family} {calls : Calls S ω} {id : Nat}
variable {P : CudaError → ChatService S ω → Prop}

theorem AdmissionClear.tail {requests requests' : BTreeMap Nat (ActiveRequest ω)}
    {free nextSequenceId : Nat}
    (h : AdmissionClear family calls requests (free + 1) (id :: rest) nextSequenceId)
    (hadmits : admits calls id = true) (hsame : ∀ other r', requests'.get other = some r' →
      ∃ r, requests.get other = some r ∧ requestCapacity r' = requestCapacity r) :
    AdmissionClear family calls requests' free rest (nextSequenceId + 1) := by
  obtain ⟨hcalls, hids⟩ := h
  rw [admissions, if_pos hadmits] at hcalls hids
  constructor
  · intro other hother r' hr'
    obtain ⟨r, hr, hcapacity⟩ := hsame other r' hr'
    rw [hcapacity]
    exact hcalls other (mem_cons_of_mem _ hother) r hr
  · rw [filter_cons_of_pos hadmits, length_cons] at hids
    omega

/-- What an admission by the cache leaves behind. -/
def AdmittedToCache (calls : Calls S ω) (id : Nat) (s : ChatService S ω)
    (outcome : Option (Sequence S)) (t : ChatService S ω) : Prop :=
  (outcome = none ∧ t = s) ∨ (admits calls id = true ∧ ∃ bytes state,
    outcome = some ⟨s.sequenceCache.nextId, state⟩ ∧
    t = { s with sequenceCache := s.sequenceCache.enter bytes })

theorem admitToCache_ensures (state : S) (h : (calls.admission id).isOk = true) :
    Ensures (admitToCache calls id state) s (fun outcome t => AdmittedToCache calls id s outcome t ∧
      (admits calls id = true → outcome.isSome)) (Failing P) := by
  obtain ⟨outcome, houtcome⟩ := eq_ok_of_isOk h
  unfold admitToCache admits
  rw [houtcome]
  cases outcome with
  | none => exact ⟨.inl ⟨rfl, rfl⟩, nofun⟩
  | some bytes =>
    refine ⟨.inr ⟨?_, bytes, state, rfl, rfl⟩, fun _ => rfl⟩
    unfold admits
    rw [houtcome]

theorem admitSequence_ensures {capacity : Nat}
    (h : admissionReturns family calls id capacity = true) :
    Ensures (admitSequence family calls id capacity) s (AdmittedToCache calls id s)
      (Failing P) := by
  have hwaits {label : String} (hstate : ∃ state, calls.newState id capacity = .ok state)
      (htable : (calls.newPageTable id capacity).isOk = true)
      (hadmission : (calls.admission id).isOk = true) (hadmits : admits calls id = true)
      (hsynchronize : (calls.synchronizeAdmission id).isOk = true) :
      Ensures (some <$> admitSynchronized calls label id capacity) s (AdmittedToCache calls id s)
        (Failing P) := by
    obtain ⟨state, hstate⟩ := hstate
    obtain ⟨_, htable⟩ := eq_ok_of_isOk htable
    obtain ⟨_, hsynchronize⟩ := eq_ok_of_isOk hsynchronize
    apply Ensures.bind (P := fun sequence t => AdmittedToCache calls id s (some sequence) t)
    · unfold admitSynchronized
      rw [hstate, htable]
      apply (admitToCache_ensures state hadmission).bind
      intro outcome t ht
      cases outcome with
      | none => cases ht.2 hadmits
      | some sequence =>
        rw [hsynchronize]
        exact ht.1
    · exact fun _ _ ht => ht
  unfold admissionReturns at h
  split at h
  · cases h
  · rename_i state hstate
    simp only [Bool.and_eq_true] at h
    obtain ⟨⟨htable, hadmission⟩, hrest⟩ := h
    cases family with
    | ling3 =>
      simp only [if_true, Bool.and_eq_true] at hrest
      obtain ⟨_, hworkspace⟩ := eq_ok_of_isOk hrest.1
      obtain ⟨prepared, hgraphs⟩ := eq_ok_of_isOk hrest.2
      obtain ⟨_, htable⟩ := eq_ok_of_isOk htable
      unfold admitSequence admitLing3Sequence
      rw [hstate, hworkspace]
      change Ensures (attempt (calls.prepareDecodeGraphs id state) >>= _) s _ _
      rw [hgraphs, htable]
      exact (admitToCache_ensures prepared hadmission).imp fun _ _ ht => ht.1
    | bitNet =>
      simp only [reduceCtorEq, if_false, Bool.and_eq_true] at hrest
      exact hwaits ⟨state, hstate⟩ htable hadmission hrest.1 hrest.2
    | bonsai =>
      simp only [reduceCtorEq, if_false, Bool.and_eq_true] at hrest
      exact hwaits ⟨state, hstate⟩ htable hadmission hrest.1 hrest.2

theorem get_nextSequenceId {hand : List (ActiveRequest ω)} {popped : List Nat}
    (h : Books t hand popped) : t.sequences.get t.nextSequenceId = none := by
  cases hentry : t.sequences.get t.nextSequenceId with
  | none => rfl
  | some entry =>
    have hkeys : t.nextSequenceId ∈ t.sequences.keys := by
      rw [mem_keys_iff, hentry]
      rfl
    exact absurd (h.allocated _ hkeys) (Nat.lt_irrefl _)

theorem Cached.enter {sequences : BTreeMap Nat (Sequence S)} {cache : ActiveSequences}
    {sid bytes : Nat} {state : S} (h : Cached sequences cache [])
    (hnew : sequences.get sid = none) :
    Cached (sequences.insert sid ⟨cache.nextId, state⟩) (cache.enter bytes) [] := by
  have hunused : cache.active.get cache.nextId = none := by
    cases hbytes : cache.active.get cache.nextId with
    | none => rfl
    | some bytes =>
      have hkeys : cache.nextId ∈ cache.active.keys := by
        rw [mem_keys_iff, hbytes]
        rfl
      exact absurd (h.allocated _ hkeys) (Nat.lt_irrefl _)
  have hperm := keys_insert_perm (v := bytes) hunused
  constructor
  · have hadded := (h.active.add (v := ⟨cache.nextId, state⟩)).put hnew
    exact hadded.perm (List.Perm.refl _) hperm.symm
  · intro other hother
    obtain rfl | hother := mem_cons.mp (hperm.mem_iff.mp hother)
    · exact Nat.lt_succ_self _
    · exact Nat.lt_succ_of_lt (h.allocated other hother)

/-- The service behind the admission of a request that left the queue. -/
theorem assigned_followed {bytes : Nat} {state : S} (h : Kept s)
    (hwaiting : s.waiting = id :: rest) (hget : s.requests.get id = some r) :
    Followed s { s with
      waiting := rest
      requests := s.requests.insert id { r with sequenceId := some s.nextSequenceId }
      sequences := s.sequences.insert s.nextSequenceId ⟨s.sequenceCache.nextId, state⟩
      nextSequenceId := s.nextSequenceId + 1
      sequenceCache := s.sequenceCache.enter bytes } := by
  have hnew := get_nextSequenceId h.books
  have hbefore := Onward.refl s h.books
  constructor
  · refine ⟨?_, h.cached.enter hnew⟩
    have hpop : Books { s with waiting := rest } [] [id] := h.books.pop hwaiting
    exact hpop.assignKept hget rfl rfl (fun _ => trivial) (keys_insert_perm hnew)
  · constructor
    · exact Nat.le_succ _
    · exact Nat.le_succ _
    · intro other x hx
      rw [get_insert] at hx
      split at hx
      · rename_i heq
        subst heq
        cases hx
        refine ⟨r, hget, fun sid hlt hsid => ?_⟩
        cases hsid
        exact absurd hlt (Nat.lt_irrefl _)
      · exact ⟨x, hx, fun _ _ hslot => hslot⟩
    · intro sid q hq hlt
      rw [get_insert_of_ne _ _ (Nat.ne_of_lt hlt)] at hq
      exact ⟨q, hq, rfl⟩
    · intro sid q hq hle
      rw [get_insert] at hq
      split at hq
      · cases hq
        exact Nat.le_refl _
      · exact hbefore.fresh sid q hq hle

/-- What the loop of the admission goes on with. -/
structure Advanced (calls : Calls S ω) (id : Nat) (rest : List Nat) (s t : ChatService S ω) :
    Prop where
  admitted : admits calls id = true
  waiting : t.waiting = rest
  nextSequenceId : t.nextSequenceId = s.nextSequenceId + 1
  size : t.sequences.size = s.sequences.size + 1
  config : t.config = s.config
  capacity : ∀ other r', t.requests.get other = some r' →
    ∃ r, s.requests.get other = some r ∧ requestCapacity r' = requestCapacity r

theorem admitRequest_followed {free : Nat} (h : Kept s) (hwaiting : s.waiting = id :: rest)
    (hclear : AdmissionClear family calls s.requests (free + 1) (id :: rest) s.nextSequenceId) :
    Ensures (admitRequest family calls id) { s with waiting := rest }
      (fun goesOn t => Followed s t ∧ (goesOn = true → Advanced calls id rest s t))
      (Failing fun _ _ => False) := by
  have hmem : id ∈ admissions calls (free + 1) (id :: rest) := mem_cons_self
  apply Ensures.get_bind
  apply expect_rule
  intro request hget
  apply (admitSequence_ensures (hclear.returns id hmem request hget)).bind
  rintro outcome t (⟨rfl, rfl⟩ | ⟨hadmits, bytes, state, rfl, rfl⟩)
  · apply Ensures.modify_bind
    refine ⟨?_, nofun⟩
    rw [← hwaiting]
    exact Followed.start h
  · have hnew := get_nextSequenceId h.books
    have hroom : s.nextSequenceId + 1 < 2 ^ 64 := by
      have hids := hclear.ids
      have hone : 0 < ((admissions calls (free + 1) (id :: rest)).filter (admits calls)).length :=
        length_pos_of_mem (mem_filter.mpr ⟨hmem, hadmits⟩)
      omega
    apply Ensures.bind (P := fun sid t => sid = s.nextSequenceId ∧ t = { s with
      waiting := rest
      sequences := s.sequences.insert s.nextSequenceId ⟨s.sequenceCache.nextId, state⟩
      nextSequenceId := s.nextSequenceId + 1
      sequenceCache := s.sequenceCache.enter bytes })
    · apply Ensures.get_bind
      rw [if_pos hroom]
      exact ⟨rfl, rfl⟩
    rintro _ _ ⟨rfl, rfl⟩
    apply Ensures.modify_bind
    dsimp only at hget ⊢
    rw [hget]
    refine ⟨assigned_followed h hwaiting hget, fun _ => ?_⟩
    constructor
    · exact hadmits
    · rfl
    · rfl
    · exact size_insert hnew
    · rfl
    · intro other x hx
      rw [get_insert] at hx
      split at hx
      · rename_i heq
        subst heq
        cases hx
        exact ⟨request, hget, rfl⟩
      · exact ⟨x, hx, rfl⟩

theorem admitLoop_followed (turns : Nat) (h : Followed s t)
    (hclear : AdmissionClear family calls t.requests
      (t.config.maxActiveSequences - t.sequences.size) t.waiting t.nextSequenceId) :
    Ensures (admitLoop family calls turns) t (fun _ t' => Followed s t')
      (Failing fun _ t' => Followed s t') := by
  induction turns generalizing t with
  | zero => exact h
  | succ turns ih =>
    apply Ensures.get_bind
    split
    · split
      · exact h
      · rename_i id rest hwaiting
        obtain ⟨free, hfree⟩ :
            ∃ free, t.config.maxActiveSequences - t.sequences.size = free + 1 :=
          ⟨t.config.maxActiveSequences - t.sequences.size - 1, by omega⟩
        rw [hfree, hwaiting] at hclear
        apply Ensures.set_bind
        apply (ensures_mono (admitRequest_followed h.kept hwaiting hclear) (fun _ _ h => h)
          fun _ _ h => h.elim).bind
        rintro goesOn t' ⟨h', hmore⟩
        cases goesOn with
        | false => exact h.trans h'
        | true =>
          have hadvanced := hmore rfl
          apply ih (h.trans h')
          have hfree' : t'.config.maxActiveSequences - t'.sequences.size = free := by
            rw [hadvanced.config, hadvanced.size]
            omega
          rw [hfree', hadvanced.waiting, hadvanced.nextSequenceId]
          exact hclear.tail hadvanced.admitted hadvanced.capacity
    · exact h

end

/-! ## Ticks -/

/-- A tick during which no call of an admission fails. -/
def TickClear (family : Family) (calls : Calls S ω) (s : ChatService S ω) : Prop :=
  AdmissionClear family calls s.requests (s.config.maxActiveSequences - s.sequences.size)
    s.waiting s.nextSequenceId

/-- A tick whose admissions are clear keeps the books, also where another call fails. -/
theorem tick_followed {s : ChatService S ω} {family : Family} {calls : Calls S ω} (h : Kept s)
    (hclear : TickClear family calls s) :
    Ensures (tick family calls) s (fun _ t => Followed s t) (Failing fun _ t => Followed s t) := by
  apply Ensures.modify_bind
  have hreset : Worked s { s with tick := .empty } := { Worked.refl s with }
  have hstart := hreset.followed h
  apply Ensures.bind (admitLoop_followed _ hstart hclear)
  intro _ t ht
  apply Ensures.get_bind
  have hworked : ∀ u, Worked t u → Followed s u := fun _ hu => ht.trans (hu.followed ht.kept)
  apply (failing_of_stays (decodeLoop_worked _ _) (Worked.refl t) hworked).bind
  intro terminal u hu
  apply Ensures.get_bind
  apply (failing_of_stays (prefillLoop_worked _ _) hu hworked).bind
  intro _ v hv
  apply Ensures.get_bind
  apply Ensures.forM (I := fun _ w => Followed s w) _ (hworked v hv)
  intro entry _ w hw
  apply ensures_mono (finishRequest_followed hw.kept entry.1 entry.2)
  · exact fun _ x hx => hw.trans hx
  · exact fun _ x hx => hw.trans hx

/-! ## Requests from outside -/

section
variable {s t : ChatService S ω} {family : Family}

theorem addRequest_kept (tools : Bool) (rendered : Except CudaError (List Nat))
    (generation : RequestConfig) (output : Option ω) (h : Kept s) :
    Ensures (addRequest family tools rendered generation output) s
      (fun id t => Kept t ∧ ∀ other r, t.requests.get other = some r →
        other = id ∨ ∃ r, s.requests.get other = some r)
      (Failing fun _ t => Kept t ∧ t.requests = s.requests) := by
  apply attempt_rule _ fun _ _ => ⟨h, rfl⟩
  intro _ _
  apply attempt_rule _ fun _ _ => ⟨h, rfl⟩
  intro _ _
  apply attempt_rule _ fun _ _ => ⟨h, rfl⟩
  intro prompt _
  apply Ensures.get_bind
  apply attempt_rule _ fun _ _ => ⟨h, rfl⟩
  intro _ _
  apply attempt_rule _ fun _ _ => ⟨h, rfl⟩
  intro _ _
  apply Ensures.set_bind
  cases output with
  | none => exact ⟨⟨h.books.skip, h.cached⟩, rfl⟩
  | some output =>
    apply Ensures.modify_bind
    constructor
    · have hjoined := h.books.join (r := newRequest s.nextId prompt generation output)
        rfl rfl trivial
      exact ⟨hjoined.put, h.cached⟩
    · intro other r hget
      rw [get_insert] at hget
      split at hget
      · rename_i heq
        exact .inl heq.symm
      · exact .inr ⟨r, hget⟩

theorem Kept.sequence {id sid : Nat} (h : Kept s) (hget : s.requests.get id = some r)
    (hsid : r.sequenceId = some sid) : ∃ q, s.sequences.get sid = some q := by
  have hpool : sid ∈ s.sequences.keys := (h.books.take hget).mem_pool mem_cons_self hsid
  exact isSome_iff_exists.mp (mem_keys_iff.mp hpool)

theorem cancelRequest_desk (h : Kept s) (id : Nat) :
    ∃ t, cancelRequest id s = .ok ⟨⟩ t ∧ Kept t ∧
      deskOf t = (deskOf s).cancel ActiveRequest.sequenceId id := by
  refine ⟨_, rfl, ?_⟩
  have hbooks := h.books.cancel id
  unfold Desk.cancel at hbooks ⊢
  cases hget : s.requests.get id with
  | none => simp only [deskOf, hget]; exact ⟨h, trivial⟩
  | some r =>
    simp only [deskOf, hget] at hbooks ⊢
    cases hsid : r.sequenceId with
    | none =>
      simp only [hsid, bind_none] at hbooks ⊢
      simp only [ne_eq, reduceCtorEq, not_false_eq_true, decide_true, filter_true] at hbooks ⊢
      exact ⟨⟨hbooks, h.cached⟩, trivial⟩
    | some sid =>
      obtain ⟨q, hq⟩ := h.sequence hget hsid
      have hpool : s.sequences.keys.filter (fun slot => some sid ≠ some slot) =
          (s.sequences.erase sid).keys := by
        rw [keys_erase]
        apply filter_congr
        intro other _
        simp [eq_comm]
      simp only [hsid, hq, bind_some, map_some, hpool] at hbooks ⊢
      exact ⟨⟨hbooks, h.cached.finish hq⟩, trivial⟩

end

/-! ## Runs -/

/-- The sequence of the cache that a request owns. -/
def cacheSequence (s : ChatService S ω) (r : ActiveRequest ω) : Option Nat :=
  r.sequenceId.bind fun sid => (s.sequences.get sid).map Sequence.cacheId

/-- Every active sequence of the cache has one owner, and who owns none waits once. -/
structure Accounted (s : ChatService S ω) : Prop where
  owned : ∀ c ∈ s.sequenceCache.active.keys,
    ∃! id, ∃ r, s.requests.get id = some r ∧ cacheSequence s r = some c
  waits : ∀ id r, s.requests.get id = some r → cacheSequence s r = none → s.waiting.count id = 1

/-- The requests that are gone in `t` have had their sequences finished. -/
def Released (s t : ChatService S ω) : Prop :=
  ∀ id r c, s.requests.get id = some r → t.requests.get id = none →
    cacheSequence s r = some c → c ∉ t.sequenceCache.active.keys

/-- Cancelling every id that was returned leaves nothing active. -/
def Cancellable (x : ChatService S ω × List Nat) : Prop :=
  ∀ ids, x.2 ⊆ ids → ∃ t, ids.forM cancelRequest x.1 = .ok ⟨⟩ t ∧
    t.sequenceCache.active.keys = [] ∧ t.sequenceCache.chargedBytes = 0

/-- What a call must meet: no call of an admission fails in a tick. -/
def Clear (family : Family) (x : ChatService S ω × List Nat) : Action S ω → Prop
  | .tick calls => TickClear family calls x.1
  | .addRequest _ _ _ _ => True
  | .cancelRequest _ => True

section
variable {s t : ChatService S ω} {family : Family}

theorem Kept.owner {c : Nat} (h : Kept s) (hc : c ∈ s.sequenceCache.active.keys) :
    ∃ sid q, s.sequences.get sid = some q ∧ q.cacheId = c := by
  have hmem := h.cached.active.mem_iff.mpr hc
  rw [append_nil] at hmem
  obtain ⟨q, hq, hclaim⟩ := mem_flatMap.mp hmem
  obtain ⟨sid, hget⟩ := mem_values_iff.mp hq
  exact ⟨sid, q, hget, (mem_singleton.mp hclaim).symm⟩

/-- Two sequences of the pool are two active sequences. -/
theorem Kept.sequence_unique {sid sid' : Nat} {q' : Sequence S} (h : Kept s)
    (hget : s.sequences.get sid = some q) (hget' : s.sequences.get sid' = some q')
    (heq : q.cacheId = q'.cacheId) : sid = sid' := by
  have hactive : q.cacheId ∈ s.sequenceCache.active.keys := h.cached.active.mem hget (by simp)
  obtain ⟨_, -, hunique⟩ := h.cached.active.existsUnique (keys_nodup _) hactive
  exact (hunique sid ⟨q, hget, by simp⟩).trans (hunique sid' ⟨q', hget', by simp [heq]⟩).symm

theorem cacheSequence_eq_some {c : Nat} :
    cacheSequence s r = some c ↔
      ∃ sid q, r.sequenceId = some sid ∧ s.sequences.get sid = some q ∧ q.cacheId = c := by
  simp only [cacheSequence, bind_eq_some_iff, map_eq_some_iff]
  constructor
  · rintro ⟨sid, hsid, q, hq, hc⟩
    exact ⟨sid, q, hsid, hq, hc⟩
  · rintro ⟨sid, q, hsid, hq, hc⟩
    exact ⟨sid, hsid, q, hq, hc⟩

theorem Kept.accounted (h : Kept s) : Accounted s where
  owned := by
    intro c hc
    obtain ⟨sid, q, hq, rfl⟩ := h.owner hc
    have hpool : sid ∈ s.sequences.keys := by
      rw [mem_keys_iff, hq]
      rfl
    obtain ⟨id, ⟨r, hget, hsid⟩, hunique⟩ := h.books.existsUnique_owner hpool
    refine ⟨id, ⟨r, hget, cacheSequence_eq_some.mpr ⟨sid, q, hsid, hq, rfl⟩⟩, ?_⟩
    rintro other ⟨r', hget', hc'⟩
    obtain ⟨sid', q', hsid', hq', heq⟩ := cacheSequence_eq_some.mp hc'
    obtain rfl := h.sequence_unique hq' hq heq
    exact hunique other ⟨r', hget', hsid'⟩
  waits := by
    intro id r hget hnone
    have hslot : r.sequenceId = none := by
      cases hsid : r.sequenceId with
      | none => rfl
      | some sid =>
        obtain ⟨q, hq⟩ := h.sequence hget hsid
        rw [cacheSequence, hsid, bind_some, hq] at hnone
        cases hnone
    have hnodup := h.books.queue_nodup
    rw [append_nil] at hnodup
    exact count_eq_one_of_mem hnodup (h.books.mem_queue hget hslot)

theorem Followed.released (h : Kept s) (hfollowed : Followed s t) : Released s t := by
  intro id r c hget hgone hc hactive
  obtain ⟨sid, q, hsid, hq, rfl⟩ := cacheSequence_eq_some.mp hc
  -- An active sequence of the later state belongs to a request that is still there.
  obtain ⟨sid', q', hq', heq⟩ := hfollowed.kept.owner hactive
  have hlt : sid' < s.nextSequenceId := by
    by_contra hle
    have hallocated := h.cached.allocated _ (h.cached.active.mem hq (mem_singleton.mpr rfl))
    have hfresh := hfollowed.onward.fresh sid' q' hq' (Nat.not_lt.mp hle)
    omega
  obtain ⟨q₀, hq₀, heq₀⟩ := hfollowed.onward.sequences sid' q' hq' hlt
  obtain rfl := h.sequence_unique hq₀ hq (heq₀.trans heq)
  have hpool : sid' ∈ t.sequences.keys := by
    rw [mem_keys_iff, hq']
    rfl
  obtain ⟨other, ⟨r', hget', hsid'⟩, -⟩ := hfollowed.kept.books.existsUnique_owner hpool
  obtain ⟨r₀, hget₀, hback⟩ := hfollowed.onward.requests other r' hget'
  have hearlier : sid' ∈ s.sequences.keys := by
    rw [mem_keys_iff, hq]
    rfl
  obtain ⟨_, -, hunique⟩ := h.books.existsUnique_owner hearlier
  have hsame : other = id := (hunique other ⟨r₀, hget₀, hback sid' hlt hsid'⟩).trans
    (hunique id ⟨r, hget, hsid⟩).symm
  rw [hsame] at hget'
  cases hgone.symm.trans hget'

/-- The service, with the ids it has returned to its callers. -/
structure Registered (x : ChatService S ω × List Nat) : Prop where
  kept : Kept x.1
  returned : ∀ id r, x.1.requests.get id = some r → id ∈ x.2

theorem cancelAll_desk (ids : List Nat) (h : Kept s) :
    ∃ t, ids.forM cancelRequest s = .ok ⟨⟩ t ∧ Kept t ∧
      deskOf t = ids.foldl (Desk.cancel ActiveRequest.sequenceId) (deskOf s) := by
  induction ids generalizing s with
  | nil => exact ⟨s, rfl, h, rfl⟩
  | cons id ids ih =>
    obtain ⟨t, hrun, hkept, hdesk⟩ := cancelRequest_desk h id
    obtain ⟨u, hrest, hkept', hdesk'⟩ := ih hkept
    refine ⟨u, ?_, hkept', ?_⟩
    · change EStateM.bind (cancelRequest id) (fun _ => ids.forM cancelRequest) s = _
      unfold EStateM.bind
      rw [hrun]
      exact hrest
    · rw [hdesk', hdesk]
      rfl

theorem Registered.cancellable (h : Registered x) : Cancellable x := by
  intro ids hids
  obtain ⟨t, hrun, hkept, hdesk⟩ := cancelAll_desk ids h.kept
  obtain ⟨-, -, hpool⟩ := h.kept.books.cancelAll fun id r hget => hids (h.returned id r hget)
  rw [← hdesk] at hpool
  have hempty : t.sequences.values = [] := by
    have hentries : t.sequences.entries = [] := map_eq_nil_iff.mp hpool
    rw [values, hentries]
    rfl
  have hactive : t.sequenceCache.active.keys = [] := by
    have hperm := hkept.cached.active
    unfold Lib.Balanced at hperm
    rw [hempty] at hperm
    exact hperm.nil_eq.symm
  exact ⟨t, hrun, hactive, ActiveSequences.chargedBytes_eq_zero hactive⟩

theorem step_registered {y : ChatService S ω × List Nat} {action : Action S ω} (h : Registered x)
    (hclear : Clear family x action) (hstep : step family x action = some y) : Registered y := by
  obtain ⟨s, returned⟩ := x
  have hkept : Kept s := h.kept
  have hcall : Ensures (action.call family) s
      (fun id t => Registered (t, returned ++ id.toList))
      (Failing fun _ t => Registered (t, returned)) := by
    cases action with
    | addRequest tools rendered generation output =>
      apply Ensures.bind (ensures_mono (addRequest_kept tools rendered generation output hkept)
        (fun _ _ h => h) ?_)
      · rintro id t ⟨ht, hrequests⟩
        refine ⟨ht, fun other r hget => ?_⟩
        obtain rfl | ⟨r₀, hr₀⟩ := hrequests other r hget
        · simp
        · exact mem_append_left _ (h.returned other r₀ hr₀)
      · rintro _ t ⟨ht, hrequests⟩
        refine ⟨ht, fun other r hget => ?_⟩
        rw [hrequests] at hget
        exact h.returned other r hget
    | tick calls =>
      have hsame : ∀ t, Followed s t → Registered (t, returned) := by
        intro t ht
        refine ⟨ht.kept, fun id r hget => ?_⟩
        obtain ⟨r₀, hr₀, -⟩ := ht.onward.requests id r hget
        exact h.returned id r₀ hr₀
      apply Ensures.bind (ensures_mono (tick_followed hkept hclear) (fun _ _ h => h)
        fun _ t ht => hsame t ht)
      intro _ t ht
      have hregistered := hsame t ht
      exact ⟨hregistered.kept, fun id r hget =>
        mem_append_left _ (hregistered.returned id r hget)⟩
    | cancelRequest id =>
      obtain ⟨t, hrun, ht, hdesk⟩ := cancelRequest_desk hkept id
      apply Ensures.bind (Ensures.of_ok (P := fun _ t' => t' = t) hrun rfl)
      rintro _ _ rfl
      refine ⟨ht, fun other r hget => mem_append_left _ ?_⟩
      have hitems := congrArg Desk.items hdesk
      unfold Desk.cancel at hitems
      dsimp only [deskOf] at hitems
      rw [hitems] at hget
      split at hget
      · exact h.returned other r hget
      · exact h.returned other r (get_of_get_erase hget).2
  unfold step at hstep
  unfold Ensures at hcall
  split at hstep
  · rename_i hrun
    rw [hrun] at hcall
    cases hstep
    exact hcall
  · rename_i hrun
    rw [hrun] at hcall
    cases hstep
    exact hcall
  · cases hstep

theorem new_registered (family : Family) (config : SchedulerConfig) :
    Registered (ChatService.new (S := S) (ω := ω) family config, []) where
  kept := ⟨Sound.empty _ _, Balanced.empty, nofun⟩
  returned := nofun

theorem run_registered {config : SchedulerConfig} {actions : List (Action S ω)}
    (hrun : Path (step family) (Clear family) (.new family config, []) actions x) : Registered x :=
  hrun.invariant step_registered (new_registered family config)

end

end Eider.Guarantees.PagedCustody
