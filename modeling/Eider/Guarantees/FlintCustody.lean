import Eider.Guarantees.Deepseek4Serving
import Eider.Lib.Run
import Eider.Source.Flint.Service

/-!
The requests of the Flint service and the active sequences of its cache. A request holds its
sequence itself, so the slots of its desk are the active sequences.

The admission takes an id off the queue and lets the cache admit its sequence before the last
calls that may fail, and the end of a request removes it before its last text is decoded. A
tick keeps the books if no such call fails.
-/
namespace Eider.Guarantees.FlintCustody
open Option
open Lib Lib.ByteReader Lib.Desk Lib.Run Source.Flint List BTreeMap
open Source (CudaError ChatFinishReason ActiveSequences)
open Source.Qwen36 (SchedulerConfig RequestConfig)
open Guarantees.Deepseek4Serving (Failing ensures_mono attempt_rule expect_rule
  failing_of_stays)
open Guarantees.SchedulerLedger (attempt_stays expect_stays)

variable {S ω α : Type}
variable {r : Request S ω} {free : Nat} {rest : List Nat} {x : FlintChatService S ω × List Nat}

/-! ## The books -/

/-- The sequence of the cache that a request owns. -/
def cacheSequence (r : Request S ω) : Option Nat := r.state.map FlintSequence.cacheId

/-- The requests, the queue and the active sequences of the service. -/
def deskOf (s : FlintChatService S ω) : Desk (Request S ω) where
  items := s.requests
  queue := s.waiting
  pool := s.cache.active.keys
  nextId := s.nextId
  nextSlot := s.cache.nextId

/-- The books of the service, with the requests `hand` taken out of the map and the places
`popped` taken off the queue. -/
abbrev Books (s : FlintChatService S ω) (hand : List (Request S ω)) (popped : List Nat) : Prop :=
  Sound Request.id cacheSequence (fun _ => True) (deskOf s) hand popped

/-- What a call keeps, whether it returns or fails. -/
abbrev Kept (s : FlintChatService S ω) : Prop := Books s [] []

/-- A later state of the service: requests are the earlier ones, and no earlier sequence has
changed hands. -/
structure Onward (s t : FlintChatService S ω) : Prop where
  nextCacheId : s.cache.nextId ≤ t.cache.nextId
  requests : ∀ id r, t.requests.get id = some r → ∃ r₀, s.requests.get id = some r₀ ∧
    ∀ c < s.cache.nextId, cacheSequence r = some c → cacheSequence r₀ = some c

/-- What a program ensures that starts in the state `s` of the books. -/
structure Followed (s t : FlintChatService S ω) : Prop where
  kept : Kept t
  onward : Onward s t

/-- The work on admitted requests: the books read the same behind it. -/
structure Worked (s t : FlintChatService S ω) : Prop where
  config : t.config = s.config
  nextId : t.nextId = s.nextId
  waiting : t.waiting = s.waiting
  cache : t.cache = s.cache
  requests : ∀ id, (t.requests.get id).map (fun r => (r.id, cacheSequence r)) =
    (s.requests.get id).map fun r => (r.id, cacheSequence r)

variable {id : Nat}

section
variable {s t u : FlintChatService S ω}

theorem Onward.refl (s : FlintChatService S ω) : Onward s s where
  nextCacheId := Nat.le_refl _
  requests := fun _ r hget => ⟨r, hget, fun _ _ hslot => hslot⟩

theorem Onward.trans (h : Onward s t) (h' : Onward t u) : Onward s u where
  nextCacheId := h.nextCacheId.trans h'.nextCacheId
  requests := fun id r hget => by
    obtain ⟨r₁, hr₁, hback⟩ := h'.requests id r hget
    obtain ⟨r₀, hr₀, hback₀⟩ := h.requests id r₁ hr₁
    exact ⟨r₀, hr₀, fun c hlt hc => hback₀ c hlt (hback c (hlt.trans_le h.nextCacheId) hc)⟩

theorem Followed.start (h : Kept s) : Followed s s := ⟨h, Onward.refl s⟩

theorem Followed.trans (h : Followed s t) (h' : Followed t u) : Followed s u :=
  ⟨h'.kept, h.onward.trans h'.onward⟩

theorem Worked.refl (s : FlintChatService S ω) : Worked s s := ⟨rfl, rfl, rfl, rfl, fun _ => rfl⟩

theorem Worked.get (h : Worked s t) (hget : t.requests.get id = some r) :
    ∃ r₀, s.requests.get id = some r₀ ∧ r₀.id = r.id ∧ cacheSequence r₀ = cacheSequence r := by
  have hpair := h.requests id
  rw [hget] at hpair
  obtain ⟨r₀, hr₀, heq⟩ := map_eq_some_iff.mp hpair.symm
  exact ⟨r₀, hr₀, (Prod.mk.inj heq).1, (Prod.mk.inj heq).2⟩

theorem Worked.followed (h : Worked s t) (hkept : Kept s) : Followed s t := by
  constructor
  · have hbooks := hkept.remap h.requests fun _ _ => trivial
    have hdesk : deskOf t = { deskOf s with items := t.requests } := by
      simp only [deskOf, h.waiting, h.cache, h.nextId]
    unfold Kept Books
    rw [hdesk]
    exact hbooks
  · constructor
    · exact h.cache ▸ Nat.le_refl _
    · intro id r hget
      obtain ⟨r₀, hr₀, -, hslot⟩ := h.get hget
      exact ⟨r₀, hr₀, fun _ _ hc => hslot.trans hc⟩

end

/-! ## Decoding and prefill -/

section
variable {s t : FlintChatService S ω} {calls : Calls S ω}

theorem changeRequest_worked {f : Request S ω → Request S ω}
    (hf : ∀ r, (f r).id = r.id ∧ cacheSequence (f r) = cacheSequence r) :
    Stays (Worked s) (changeRequest id f) := by
  refine .modify fun t h => ?_
  cases hget : t.requests.get id with
  | none => exact h
  | some r =>
    refine { h with requests := fun other => ?_ }
    rw [get_insert]
    split
    · rename_i heq
      subst heq
      rw [← h.requests, hget, map_some, map_some, (hf r).1, (hf r).2]
    · exact h.requests other

theorem withState_same (state : S) (r : Request S ω) :
    (r.withState state).id = r.id ∧ cacheSequence (r.withState state) = cacheSequence r := by
  refine ⟨rfl, ?_⟩
  simp [cacheSequence, Request.withState, Function.comp_def]

theorem onState_worked {message : String} {program : S → S × Except CudaError α} :
    Stays (Worked s) (onState id message program) := by
  refine .get_bind fun _ _ => expect_stays.bind fun _ => expect_stays.bind fun sequence => ?_
  refine (changeRequest_worked (withState_same _)).bind fun _ => ?_
  cases (program sequence.state).2 with
  | ok a => exact .pure _
  | error e => exact .throw _

theorem report_worked {f : Tick → Tick} : Stays (Worked s) (report f) :=
  .modify fun _ h => { h with }

theorem mem_of_mem_rotateRequests {ids : List Nat} {cursor : Option Nat} {capacity : Nat}
    (h : id ∈ (rotateRequests ids cursor capacity).1) : id ∈ ids := by
  have hmem := mem_of_mem_take h
  cases cursor with
  | none => exact hmem
  | some previous =>
    obtain hmem | hmem := mem_append.mp hmem
    · exact mem_of_mem_drop hmem
    · exact mem_of_mem_take hmem

theorem packedStep_worked {decode : List Nat} : Stays (Worked s) (packedStep calls decode) := by
  refine .get_bind fun _ _ => .ite ?_ (.pure _)
  refine (Stays.forM fun _ => changeRequest_worked (withState_same _)).bind fun _ => ?_
  exact attempt_stays.bind fun _ => .pure _

theorem emitToken_worked {token : Nat} : Stays (Worked s) (emitToken calls id token) := by
  refine .bind (changeRequest_worked fun _ => ⟨rfl, rfl⟩) fun _ => report_worked.bind fun _ => ?_
  refine .get_bind fun _ _ => expect_stays.bind fun _ => .ite (.pure _) ?_
  refine .bind (changeRequest_worked fun _ => ⟨rfl, rfl⟩) fun _ => attempt_stays.bind fun reason => ?_
  cases reason with
  | some reason => exact .pure _
  | none => exact .ite (.pure _) (.pure _)

theorem decodeRequest_worked {packed : Bool} :
    Stays (Worked s) (decodeRequest calls packed id) := by
  refine .get_bind fun _ _ => expect_stays.bind fun request => ?_
  have hrest : Stays (Worked s)
      (onState id "active state" (calls.sample id request.history) >>= emitToken calls id) :=
    onState_worked.bind fun _ => emitToken_worked
  cases request.last with
  | some token => exact .ite hrest (onState_worked.bind fun _ => hrest)
  | none => exact hrest

theorem decodeLoop_worked (packed : Bool) (ids : List Nat)
    (terminal : BTreeMap Nat ChatFinishReason) (h : Worked s t) :
    Ensures (decodeLoop calls packed ids terminal) t
      (fun ended t' => Worked s t' ∧ ∀ id ∈ ended.keys, id ∈ ids ∨ id ∈ terminal.keys)
      (Failing fun _ t' => Worked s t') := by
  induction ids generalizing t terminal with
  | nil => exact ⟨h, fun _ hid => .inr hid⟩
  | cons id ids ih =>
    apply (failing_of_stays decodeRequest_worked h fun _ ht => ht).bind
    intro reason t ht
    cases reason with
    | some reason =>
      apply (ih _ ht).imp
      rintro ended t' ⟨ht', hended⟩
      refine ⟨ht', fun other hother => ?_⟩
      obtain hmem | hother := hended other hother
      · exact .inl (mem_cons_of_mem _ hmem)
      · rw [mem_keys_insert] at hother
        obtain rfl | hother := hother
        · exact .inl mem_cons_self
        · exact .inr hother
    | none =>
      apply (ih _ ht).imp
      rintro ended t' ⟨ht', hended⟩
      exact ⟨ht', fun other hother => (hended other hother).imp_left (mem_cons_of_mem _)⟩

theorem decodePhase_worked (h : Worked s t) :
    Ensures (decodePhase calls) t
      (fun terminal t' => Worked s t' ∧ ∀ id ∈ terminal.keys, id ∈ decodable t)
      (Failing fun _ t' => Worked s t') := by
  apply Ensures.get_bind
  apply Ensures.set_bind
  have hcursor : Worked s { t with
      decodeCursor := (rotateRequests (decodable t) t.decodeCursor t.config.decodeCapacity).2 } :=
    { h with }
  apply (failing_of_stays packedStep_worked hcursor fun _ hu => hu).bind
  intro packed u hu
  apply (decodeLoop_worked packed _ _ hu).imp
  rintro terminal v ⟨hv, hended⟩
  refine ⟨hv, fun id hid => ?_⟩
  obtain hid | hid := hended id hid
  · exact mem_of_mem_rotateRequests hid
  · cases hid

theorem prefilledRequest_same (rows : Nat) (r : Request S ω) :
    (prefilledRequest calls rows r).id = r.id ∧
      cacheSequence (prefilledRequest calls rows r) = cacheSequence r := by
  unfold prefilledRequest
  dsimp only
  split
  · refine ⟨rfl, ?_⟩
    simp [cacheSequence, Function.comp_def]
  · exact ⟨rfl, rfl⟩

theorem prefillLoop_worked (ids : List Nat) (budget : Nat) :
    Stays (Worked s) (prefillLoop calls ids budget) := by
  induction ids generalizing budget with
  | nil => exact .pure _
  | cons id ids ih =>
    refine .get_bind fun _ _ => expect_stays.bind fun _ => .ite (ih _) ?_
    refine onState_worked.bind fun _ => ?_
    refine (changeRequest_worked (prefilledRequest_same _)).bind fun _ => ?_
    exact report_worked.bind fun _ => ih _

theorem prefillPhase_worked : Stays (Worked s) (prefillPhase calls) :=
  .get_bind fun _ h => .set_bind { h with } (prefillLoop_worked _ _)

end

/-! ## The end of a request -/

section
variable {s t : FlintChatService S ω} {calls : Calls S ω} {id : Nat}

theorem finished_followed {sequence : FlintSequence S} (h : Kept s)
    (hget : s.requests.get id = some r) (hstate : r.state = some sequence) :
    Followed s { s with
      requests := s.requests.erase id
      cache := s.cache.finish sequence.cacheId } := by
  have hslot : cacheSequence r = some sequence.cacheId := by rw [cacheSequence, hstate]; rfl
  have hactive : sequence.cacheId ∈ s.cache.active.keys :=
    (h.take hget).mem_pool mem_cons_self hslot
  obtain ⟨bytes, hbytes⟩ := isSome_iff_exists.mp (mem_keys_iff.mp hactive)
  constructor
  · apply (h.take hget).drop
    · simp only [place, hslot]
      exact List.Perm.refl _
    · simp only [owns, hslot]
      exact keys_erase_perm hbytes
  · constructor
    · exact Nat.le_refl _
    · exact fun other r hget => ⟨r, (get_of_get_erase hget).2, fun _ _ hc => hc⟩

/-- The end of a request whose last text decodes. A request without a sequence would stay on
the queue, but the ended ones have been admitted. -/
theorem finishRequest_followed (h : Kept s) {reason : ChatFinishReason}
    (hadmitted : ∀ r, s.requests.get id = some r → r.state.isSome)
    (houtput : ∀ output truncated, (calls.finishOutput id output truncated).2.isOk = true) :
    Ensures (finishRequest calls id reason) s
      (fun _ t => Followed s t ∧ ∀ other, other ≠ id → t.requests.get other = s.requests.get other)
      (Failing fun _ t => Followed s t) := by
  apply Ensures.get_bind
  apply expect_rule
  intro request hrequest
  apply Ensures.modify_bind
  apply attempt_rule
  · intro last _
    obtain ⟨sequence, hsequence⟩ := isSome_iff_exists.mp (hadmitted request hrequest)
    have hdone := finished_followed h hrequest hsequence
    rw [hsequence]
    apply Ensures.bind (P := fun _ t => t = { s with
      requests := s.requests.erase id
      cache := s.cache.finish sequence.cacheId })
    · apply Ensures.modify_bind
      cases calls.finishSequence id with
      | ok a => rfl
      | error e => exact hdone
    rintro _ _ rfl
    apply Ensures.modify
    refine ⟨⟨hdone.kept, { hdone.onward with }⟩, fun other hne => ?_⟩
    exact get_erase_of_ne _ hne
  · intro e hfailed
    have hok := houtput request.output (reason = .length)
    rw [hfailed] at hok
    cases hok

end

/-! ## Admission -/

/-- The answer of the cache for a request, where its state can be built. -/
def admission (calls : Calls S ω) (id : Nat) (r : Request S ω) :
    Except CudaError (Option (Nat × S)) := do
  let state ← calls.newSequenceState id (requestCapacity r)
  calls.admission id state

/-- The cache admits the request. -/
def admits (calls : Calls S ω) (id : Nat) (r : Request S ω) : Bool :=
  match admission calls id r with
  | .ok (some _) => true
  | .ok none => false
  | .error _ => false

/-- The requests that an admission with `free` slots takes off the queue: behind one that the
cache does not admit there is none. -/
def admissions (calls : Calls S ω) (requests : BTreeMap Nat (Request S ω)) :
    Nat → List Nat → List Nat
  | 0, _ => []
  | _, [] => []
  | free + 1, id :: rest =>
    id :: if (requests.get id).any (admits calls id) then admissions calls requests free rest
      else []

/-- The calls for an admission return, also those behind the admission by the cache. -/
def admissionReturns (calls : Calls S ω) (id : Nat) (r : Request S ω) : Bool :=
  match admission calls id r with
  | .error _ => false
  | .ok none => true
  | .ok (some (_, state)) =>
    (calls.synchronizeAdmission id).isOk && (initializeSampling calls id r state).isOk

/-- No call of an admission fails. -/
def AdmissionClear (calls : Calls S ω) (requests : BTreeMap Nat (Request S ω)) (free : Nat)
    (waiting : List Nat) : Prop :=
  ∀ id ∈ admissions calls requests free waiting, ∀ r, requests.get id = some r →
    admissionReturns calls id r = true

section
variable {s t : FlintChatService S ω} {calls : Calls S ω} {id : Nat}

variable {requests : BTreeMap Nat (Request S ω)} {requests' : BTreeMap Nat (Request S ω)}

theorem admissions_congr {waiting : List Nat}
    (h : ∀ id ∈ waiting, requests'.get id = requests.get id) :
    admissions calls requests' free waiting = admissions calls requests free waiting := by
  induction waiting generalizing free with
  | nil => cases free <;> rfl
  | cons id rest ih =>
    cases free with
    | zero => rfl
    | succ free =>
      rw [admissions, admissions, h id mem_cons_self,
        ih fun other hother => h other (mem_cons_of_mem _ hother)]

theorem mem_of_mem_admissions {waiting : List Nat}
    (h : id ∈ admissions calls requests free waiting) : id ∈ waiting := by
  induction waiting generalizing free with
  | nil => cases free <;> cases h
  | cons other rest ih =>
    cases free with
    | zero => cases h
    | succ free =>
      obtain rfl | h := mem_cons.mp h
      · exact mem_cons_self
      · split at h
        · exact mem_cons_of_mem _ (ih h)
        · cases h

theorem AdmissionClear.tail
    (h : AdmissionClear calls requests (free + 1) (id :: rest)) (hget : requests.get id = some r)
    (hadmits : admits calls id r = true)
    (hsame : ∀ other ∈ rest, requests'.get other = requests.get other) :
    AdmissionClear calls requests' free rest := by
  intro other hother x hx
  rw [admissions_congr hsame] at hother
  rw [hsame other (mem_of_mem_admissions hother)] at hx
  apply h other _ x hx
  have hany : (requests.get id).any (admits calls id) = true := by
    rw [hget]
    exact hadmits
  rw [admissions, if_pos hany]
  exact mem_cons_of_mem _ hother

theorem get_nextCacheId (h : Kept s) : s.cache.active.get s.cache.nextId = none := by
  cases hbytes : s.cache.active.get s.cache.nextId with
  | none => rfl
  | some bytes =>
    have hkeys : s.cache.nextId ∈ s.cache.active.keys := by
      rw [mem_keys_iff, hbytes]
      rfl
    exact absurd (h.allocated _ hkeys) (Nat.lt_irrefl _)

theorem activeSequenceCount_eq (h : Kept s) : s.activeSequenceCount = s.cache.active.size := by
  have hlength := h.owned.length_eq
  dsimp only [deskOf] at hlength
  rw [append_nil, BTreeMap.keys, length_map] at hlength
  unfold FlintChatService.activeSequenceCount size
  rw [← hlength]
  generalize s.requests.values = requests
  induction requests with
  | nil => rfl
  | cons r requests ih =>
    rw [flatMap_cons, length_append, ← ih]
    cases hstate : r.state with
    | none => simp [owns, cacheSequence, hstate]
    | some sequence =>
      simp only [filter_cons, owns, cacheSequence, hstate, isSome_some, if_true,
        length_cons, map_some, toList_some, length_nil]
      omega

/-- The service behind the admission of a request that left the queue. -/
theorem assigned_followed {r' : Request S ω} {bytes : Nat} (h : Kept s)
    (hwaiting : s.waiting = id :: rest) (hget : s.requests.get id = some r) (hid : r'.id = r.id)
    (hslot : cacheSequence r' = some s.cache.nextId) :
    Followed s { s with
      waiting := rest
      requests := s.requests.insert id r'
      cache := s.cache.enter bytes } := by
  have hunused := get_nextCacheId h
  constructor
  · have hpop : Books { s with waiting := rest } [] [id] := h.pop hwaiting
    exact hpop.assignKept hget hid hslot (fun _ => trivial) (keys_insert_perm hunused)
  · constructor
    · exact Nat.le_succ _
    · intro other x hx
      rw [get_insert] at hx
      split at hx
      · rename_i heq
        subst heq
        cases hx
        refine ⟨r, hget, fun c hlt hc => ?_⟩
        cases hslot.symm.trans hc
        exact absurd hlt (Nat.lt_irrefl _)
      · exact ⟨x, hx, fun _ _ hc => hc⟩

/-- What the loop of the admission goes on with. -/
structure Advanced (calls : Calls S ω) (id : Nat) (rest : List Nat)
    (s t : FlintChatService S ω) : Prop where
  admitted : ∃ r, s.requests.get id = some r ∧ admits calls id r = true
  waiting : t.waiting = rest
  config : t.config = s.config
  size : t.cache.active.size = s.cache.active.size + 1
  requests : ∀ other, other ≠ id → t.requests.get other = s.requests.get other

theorem admission_eq {state : S} (h : calls.newSequenceState id (requestCapacity r) = .ok state) :
    admission calls id r = calls.admission id state := by
  unfold admission
  rw [h]
  rfl

theorem admit_ensures {P : CudaError → FlintChatService S ω → Prop}
    (h : admissionReturns calls id r = true) :
    Ensures (admitSequence calls id (requestCapacity r)) s
      (fun outcome t => (outcome = none ∧ t = s) ∨ ∃ bytes state, admits calls id r = true ∧
        outcome = some ⟨s.cache.nextId, state⟩ ∧ t = { s with cache := s.cache.enter bytes } ∧
        (initializeSampling calls id r state).isOk = true) (Failing P) := by
  unfold admissionReturns at h
  apply attempt_rule
  · intro state hstate
    rw [admission_eq hstate] at h
    apply attempt_rule
    · intro outcome houtcome
      rw [houtcome] at h
      cases outcome with
      | none => exact .inl ⟨rfl, rfl⟩
      | some admitted =>
        obtain ⟨bytes, restored⟩ := admitted
        rw [Bool.and_eq_true] at h
        have hadmits : admits calls id r = true := by
          unfold admits
          rw [admission_eq hstate, houtcome]
        apply Ensures.get_bind
        apply Ensures.set_bind
        apply attempt_rule
        · intro _ _
          exact .inr ⟨bytes, restored, hadmits, rfl, rfl, h.2⟩
        · intro e hfailed
          rw [hfailed] at h
          cases h.1
    · intro e hfailed
      rw [hfailed] at h
      cases h
  · intro e hfailed
    unfold admission at h
    rw [hfailed] at h
    cases h

theorem admitRequest_followed (h : Kept s) (hwaiting : s.waiting = id :: rest)
    (hclear : AdmissionClear calls s.requests (free + 1) (id :: rest)) :
    Ensures (admitRequest calls id) { s with waiting := rest }
      (fun goesOn t => Followed s t ∧ (goesOn = true → Advanced calls id rest s t))
      (Failing fun _ _ => False) := by
  have hmem : id ∈ admissions calls s.requests (free + 1) (id :: rest) := mem_cons_self
  apply Ensures.get_bind
  apply expect_rule
  intro request hget
  apply (admit_ensures (hclear id hmem request hget)).bind
  rintro outcome t (⟨rfl, rfl⟩ | ⟨bytes, state, hadmits, rfl, rfl, hsampling⟩)
  · apply Ensures.modify_bind
    refine ⟨?_, nofun⟩
    rw [← hwaiting]
    exact Followed.start h
  · apply attempt_rule
    · intro sampled _
      apply Ensures.modify_bind
      dsimp only
      rw [hget]
      constructor
      · exact assigned_followed h hwaiting hget rfl rfl
      · intro _
        constructor
        · exact ⟨request, hget, hadmits⟩
        · rfl
        · rfl
        · exact size_insert (get_nextCacheId h)
        · exact fun other hne => get_insert_of_ne _ _ hne
    · intro e hfailed
      rw [hfailed] at hsampling
      cases hsampling

theorem admitLoop_followed (turns : Nat) (h : Followed s t)
    (hclear : AdmissionClear calls t.requests
      (t.config.maxActiveSequences - t.activeSequenceCount) t.waiting) :
    Ensures (admitLoop calls turns) t (fun _ t' => Followed s t')
      (Failing fun _ t' => Followed s t') := by
  induction turns generalizing t with
  | zero => exact h
  | succ turns ih =>
    apply Ensures.get_bind
    split
    · split
      · exact h
      · rename_i id rest hwaiting
        obtain ⟨free, hfree⟩ :
            ∃ free, t.config.maxActiveSequences - t.activeSequenceCount = free + 1 :=
          ⟨t.config.maxActiveSequences - t.activeSequenceCount - 1, by omega⟩
        rw [hfree, hwaiting] at hclear
        apply Ensures.set_bind
        apply (ensures_mono (admitRequest_followed h.kept hwaiting hclear) (fun _ _ h => h)
          fun _ _ h => h.elim).bind
        rintro goesOn t' ⟨h', hmore⟩
        cases goesOn with
        | false => exact h.trans h'
        | true =>
          have hadvanced := hmore rfl
          apply ih (h.trans h')
          have hfree' : t'.config.maxActiveSequences - t'.activeSequenceCount = free := by
            rw [activeSequenceCount_eq h.kept] at hfree
            rw [activeSequenceCount_eq h'.kept, hadvanced.config, hadvanced.size]
            omega
          have hnodup := h.kept.queue_nodup
          change (t.waiting ++ []).Nodup at hnodup
          rw [append_nil, hwaiting, nodup_cons] at hnodup
          obtain ⟨r, hget, hadmits⟩ := hadvanced.admitted
          rw [hfree', hadvanced.waiting]
          apply hclear.tail hget hadmits
          intro other hother
          exact hadvanced.requests other fun heq => hnodup.1 (heq ▸ hother)
    · exact h

end

/-! ## Ticks -/

/-- A tick during which no call of an admission fails and no last text of a request. -/
structure TickClear (calls : Calls S ω) (s : FlintChatService S ω) : Prop where
  admission : AdmissionClear calls s.requests
    (s.config.maxActiveSequences - s.activeSequenceCount) s.waiting
  outputs : ∀ id output truncated, (calls.finishOutput id output truncated).2.isOk = true

section
variable {s t : FlintChatService S ω} {calls : Calls S ω} {terminal : BTreeMap Nat ChatFinishReason}

theorem mem_withEmptyRequests {id : Nat} (h : id ∈ (withEmptyRequests s terminal).keys) :
    id ∈ terminal.keys ∨ ∃ r ∈ s.requests.values, r.id = id ∧ r.state.isSome := by
  unfold withEmptyRequests at h
  have hall : ∀ r ∈ s.requests.values.filter (fun request => request.state.isSome &&
      request.generation.maxNewTokens = 0), r ∈ s.requests.values ∧ r.state.isSome := by
    intro r hr
    obtain ⟨hr, hempty⟩ := mem_filter.mp hr
    rw [Bool.and_eq_true] at hempty
    exact ⟨hr, hempty.1⟩
  generalize s.requests.values.filter _ = empty at h hall
  induction empty generalizing terminal with
  | nil => exact .inl h
  | cons r empty ih =>
    obtain ⟨hhead, hrest⟩ := forall_mem_cons.mp hall
    obtain hmem | hempty := ih h hrest
    · rw [mem_keys_insert] at hmem
      obtain rfl | hmem := hmem
      · exact .inr ⟨r, hhead.1, rfl, hhead.2⟩
      · exact .inl hmem
    · exact .inr hempty

theorem ended_admitted {start v : FlintChatService S ω}
    (hkept : Kept start) (hworked : Worked start v)
    (hended : ∀ id ∈ terminal.keys, id ∈ decodable start) :
    ∀ id ∈ (withEmptyRequests v terminal).keys, ∀ r, v.requests.get id = some r →
      r.state.isSome := by
  have hlater := (hworked.followed hkept).kept
  intro id hid r hget
  obtain hid | ⟨r', hr', hkey, hsome⟩ := mem_withEmptyRequests hid
  · obtain ⟨r', hr', hkey⟩ := mem_map.mp (hended id hid)
    obtain ⟨hr', hdecodable⟩ := mem_filter.mp hr'
    simp only [Bool.and_eq_true] at hdecodable
    obtain ⟨key, hget'⟩ := mem_values_iff.mp hr'
    obtain ⟨r₀, hget₀, -, hslot⟩ := hworked.get hget
    have hsame : key = id := (hkept.keyed key r' hget').symm.trans hkey
    rw [hsame] at hget'
    cases hget₀.symm.trans hget'
    have hisSome := congrArg isSome hslot
    unfold cacheSequence at hisSome
    rw [isSome_map, isSome_map] at hisSome
    exact hisSome ▸ hdecodable.1.1
  · obtain ⟨key, hget'⟩ := mem_values_iff.mp hr'
    have hsame : key = id := (hlater.keyed key r' hget').symm.trans hkey
    rw [hsame] at hget'
    cases hget.symm.trans hget'
    exact hsome

/-- A clear tick keeps the books, also where another call fails. -/
theorem tick_followed (h : Kept s) (hclear : TickClear calls s) :
    Ensures (tick calls) s (fun _ t => Followed s t) (Failing fun _ t => Followed s t) := by
  apply Ensures.modify_bind
  have hreset : Worked s { s with tick := .empty } := { Worked.refl s with }
  have hstart := hreset.followed h
  apply Ensures.get_bind
  apply Ensures.bind (admitLoop_followed _ hstart hclear.admission)
  intro _ t ht
  apply (ensures_mono (decodePhase_worked (Worked.refl t)) (fun _ u hu => hu)
    fun _ u hu => ht.trans (hu.followed ht.kept)).bind
  rintro terminal u ⟨hu, hended⟩
  apply (failing_of_stays prefillPhase_worked hu fun _ hv => ht.trans (hv.followed ht.kept)).bind
  intro _ v hv
  apply Ensures.get_bind
  have hdone := ht.trans (hv.followed ht.kept)
  have hadmitted := ended_admitted ht.kept hv hended
  have hnodup := keys_nodup (withEmptyRequests v terminal)
  have hbegin : Followed s v ∧
      ((withEmptyRequests v terminal).entries.map Prod.fst).Nodup ∧
      ∀ entry ∈ (withEmptyRequests v terminal).entries, ∀ r, v.requests.get entry.1 = some r →
        r.state.isSome :=
    ⟨hdone, hnodup, fun entry hentry => hadmitted entry.1 (mem_map_of_mem hentry)⟩
  refine Ensures.imp (Ensures.forM (I := fun rest w => Followed s w ∧ (rest.map Prod.fst).Nodup ∧
    ∀ entry ∈ rest, ∀ r, w.requests.get entry.1 = some r → r.state.isSome) ?_ hbegin)
    fun _ w hw => hw.1
  rintro entry rest w ⟨hw, hnodup, hrest⟩
  rw [map_cons, nodup_cons] at hnodup
  obtain ⟨hhead, hrest⟩ := forall_mem_cons.mp hrest
  apply ensures_mono (finishRequest_followed hw.kept hhead (hclear.outputs entry.1))
  · rintro _ x ⟨hx, hothers⟩
    refine ⟨hw.trans hx, hnodup.2, fun other hother r hget => ?_⟩
    have hne : other.1 ≠ entry.1 := fun heq => hnodup.1 (heq ▸ mem_map_of_mem hother)
    rw [hothers other.1 hne] at hget
    exact hrest other hother r hget
  · exact fun _ x hx => hw.trans hx

end

/-! ## Requests from outside -/

section
variable {s t : FlintChatService S ω}

theorem enqueue_kept (rendered : Except CudaError (List Nat)) (generation : RequestConfig)
    (cacheable : Nat) (output : Option ω) (h : Kept s) :
    Ensures (enqueue rendered generation cacheable output) s
      (fun id t => Kept t ∧ ∀ other r, t.requests.get other = some r →
        other = id ∨ ∃ r, s.requests.get other = some r)
      (Failing fun _ t => Kept t ∧ t.requests = s.requests) := by
  apply attempt_rule _ fun _ _ => ⟨h, rfl⟩
  intro _ _
  apply attempt_rule _ fun _ _ => ⟨h, rfl⟩
  intro prompt _
  apply Ensures.get_bind
  apply attempt_rule _ fun _ _ => ⟨h, rfl⟩
  intro _ _
  apply attempt_rule _ fun _ _ => ⟨h, rfl⟩
  intro _ _
  apply Ensures.set_bind
  cases output with
  | none => exact ⟨h.skip, rfl⟩
  | some output =>
    apply Ensures.modify_bind
    constructor
    · have hjoined := Sound.join h (r := newRequest s.nextId
        (if s.retainPrefixes then cacheable else 0) prompt generation output) rfl rfl trivial
      exact hjoined.put
    · intro other r hget
      rw [get_insert] at hget
      split at hget
      · rename_i heq
        exact .inl heq.symm
      · exact .inr ⟨r, hget⟩

theorem cancelRequest_desk (h : Kept s) (id : Nat) :
    ∃ t, cancelRequest id s = .ok ⟨⟩ t ∧ deskOf t = (deskOf s).cancel cacheSequence id := by
  refine ⟨_, rfl, ?_⟩
  unfold Desk.cancel
  cases hget : s.requests.get id with
  | none =>
    -- An id that is not in the map does not wait either.
    have hqueue : s.waiting.filter (fun waiting => waiting ≠ id) = s.waiting := by
      rw [filter_eq_self]
      intro other hother
      rw [decide_eq_true_eq]
      rintro rfl
      obtain ⟨r, hr, -⟩ := h.of_mem_queue (mem_append_left _ hother)
      cases hget.symm.trans hr
    simp only [deskOf, hget, hqueue]
  | some r =>
    simp only [deskOf, hget]
    cases hstate : r.state with
    | none => simp [cacheSequence, hstate]
    | some sequence =>
      have hpool : s.cache.active.keys.filter (fun slot => cacheSequence r ≠ some slot) =
          (s.cache.active.erase sequence.cacheId).keys := by
        rw [keys_erase]
        apply filter_congr
        intro other _
        simp [cacheSequence, hstate, eq_comm]
      simp only [hpool]
      rfl

theorem cancelRequest_kept (h : Kept s) (id : Nat) :
    ∃ t, cancelRequest id s = .ok ⟨⟩ t ∧ Kept t ∧
      deskOf t = (deskOf s).cancel cacheSequence id := by
  obtain ⟨t, hrun, hdesk⟩ := cancelRequest_desk h id
  refine ⟨t, hrun, ?_, hdesk⟩
  unfold Kept Books
  rw [hdesk]
  exact h.cancel id

end

/-! ## Runs -/

/-- Every active sequence of the cache has one owner, and who owns none waits once. -/
structure Accounted (s : FlintChatService S ω) : Prop where
  owned : ∀ c ∈ s.cache.active.keys,
    ∃! id, ∃ r, s.requests.get id = some r ∧ cacheSequence r = some c
  waits : ∀ id r, s.requests.get id = some r → cacheSequence r = none → s.waiting.count id = 1

/-- The requests that are gone in `t` have had their sequences finished. -/
def Released (s t : FlintChatService S ω) : Prop :=
  ∀ id r c, s.requests.get id = some r → t.requests.get id = none →
    cacheSequence r = some c → c ∉ t.cache.active.keys

/-- Cancelling every id that was returned leaves nothing active. -/
def Cancellable (x : FlintChatService S ω × List Nat) : Prop :=
  ∀ ids, x.2 ⊆ ids → ∃ t, ids.forM cancelRequest x.1 = .ok ⟨⟩ t ∧
    t.cache.active.keys = [] ∧ t.cache.chargedBytes = 0

/-- What a call must meet: no call of an admission fails in a tick, and no last text. -/
def Clear (x : FlintChatService S ω × List Nat) : Action S ω → Prop
  | .tick calls => TickClear calls x.1
  | .addRequest _ _ _ _ => True
  | .cancelRequest _ => True

section
variable {s t : FlintChatService S ω}

theorem accounted (h : Kept s) : Accounted s where
  owned := fun _ hc => h.existsUnique_owner hc
  waits := by
    intro id r hget hnone
    have hnodup := h.queue_nodup
    rw [append_nil] at hnodup
    exact count_eq_one_of_mem hnodup (h.mem_queue hget hnone)

theorem Followed.released (h : Kept s) (hfollowed : Followed s t) : Released s t := by
  intro id r c hget hgone hslot hactive
  have hearlier : c ∈ s.cache.active.keys := (h.take hget).mem_pool mem_cons_self hslot
  have hlt : c < s.cache.nextId := h.allocated c hearlier
  -- An active sequence of the later state belongs to a request that is still there.
  obtain ⟨other, ⟨r', hget', hslot'⟩, -⟩ := hfollowed.kept.existsUnique_owner hactive
  obtain ⟨r₀, hget₀, hback⟩ := hfollowed.onward.requests other r' hget'
  obtain ⟨_, -, hunique⟩ := h.existsUnique_owner hearlier
  have hsame : other = id := (hunique other ⟨r₀, hget₀, hback c hlt hslot'⟩).trans
    (hunique id ⟨r, hget, hslot⟩).symm
  rw [hsame] at hget'
  cases hgone.symm.trans hget'

/-- The service, with the ids it has returned to its callers. -/
structure Registered (x : FlintChatService S ω × List Nat) : Prop where
  kept : Kept x.1
  returned : ∀ id r, x.1.requests.get id = some r → id ∈ x.2

theorem cancelAll_desk (ids : List Nat) (h : Kept s) :
    ∃ t, ids.forM cancelRequest s = .ok ⟨⟩ t ∧
      deskOf t = ids.foldl (Desk.cancel cacheSequence) (deskOf s) := by
  induction ids generalizing s with
  | nil => exact ⟨s, rfl, rfl⟩
  | cons id ids ih =>
    obtain ⟨t, hrun, hkept, hdesk⟩ := cancelRequest_kept h id
    obtain ⟨u, hrest, hdesk'⟩ := ih hkept
    refine ⟨u, ?_, ?_⟩
    · change EStateM.bind (cancelRequest id) (fun _ => ids.forM cancelRequest) s = _
      unfold EStateM.bind
      rw [hrun]
      exact hrest
    · rw [hdesk', hdesk]
      rfl

theorem Registered.cancellable (h : Registered x) : Cancellable x := by
  intro ids hids
  obtain ⟨t, hrun, hdesk⟩ := cancelAll_desk ids h.kept
  obtain ⟨-, -, hpool⟩ := h.kept.cancelAll fun id r hget => hids (h.returned id r hget)
  rw [← hdesk] at hpool
  exact ⟨t, hrun, hpool, ActiveSequences.chargedBytes_eq_zero hpool⟩

theorem step_registered {y : FlintChatService S ω × List Nat} {action : Action S ω}
    (h : Registered x) (hclear : Clear x action) (hstep : step x action = some y) :
    Registered y := by
  obtain ⟨s, returned⟩ := x
  have hkept : Kept s := h.kept
  have hcall : Ensures action.call s (fun id t => Registered (t, returned ++ id.toList))
      (Failing fun _ t => Registered (t, returned)) := by
    cases action with
    | addRequest rendered generation cacheable output =>
      apply Ensures.bind (ensures_mono (enqueue_kept rendered generation cacheable output hkept)
        (fun _ _ h => h) ?_)
      · rintro id t ⟨ht, hrequests⟩
        refine ⟨ht, fun other r hget => ?_⟩
        obtain rfl | ⟨r₀, hr₀⟩ := hrequests other r hget
        · simp
        · exact mem_append_left _ (h.returned other r₀ hr₀)
      · rintro _ t ⟨ht, hrequests⟩
        refine ⟨ht, fun other r hget => ?_⟩
        rw [hrequests] at hget
        exact h.returned other r hget
    | tick calls =>
      have hsame : ∀ t, Followed s t → Registered (t, returned) := by
        intro t ht
        refine ⟨ht.kept, fun id r hget => ?_⟩
        obtain ⟨r₀, hr₀, -⟩ := ht.onward.requests id r hget
        exact h.returned id r₀ hr₀
      apply Ensures.bind (ensures_mono (tick_followed hkept hclear) (fun _ _ h => h)
        fun _ t ht => hsame t ht)
      intro _ t ht
      have hregistered := hsame t ht
      exact ⟨hregistered.kept, fun id r hget =>
        mem_append_left _ (hregistered.returned id r hget)⟩
    | cancelRequest id =>
      obtain ⟨t, hrun, ht, hdesk⟩ := cancelRequest_kept hkept id
      apply Ensures.bind (Ensures.of_ok (P := fun _ t' => t' = t) hrun rfl)
      rintro _ _ rfl
      refine ⟨ht, fun other r hget => mem_append_left _ ?_⟩
      have hitems := congrArg Desk.items hdesk
      unfold Desk.cancel at hitems
      dsimp only [deskOf] at hitems
      rw [hitems] at hget
      split at hget
      · exact h.returned other r hget
      · exact h.returned other r (get_of_get_erase hget).2
  unfold step at hstep
  unfold Ensures at hcall
  split at hstep
  · rename_i hrun
    rw [hrun] at hcall
    cases hstep
    exact hcall
  · rename_i hrun
    rw [hrun] at hcall
    cases hstep
    exact hcall
  · cases hstep

theorem new_registered (config : SchedulerConfig) (maxRetainedBytes : Nat) :
    Registered (FlintChatService.new (S := S) (ω := ω) config maxRetainedBytes, []) where
  kept := Sound.empty _ _
  returned := nofun

theorem run_registered {config : SchedulerConfig} {maxRetainedBytes : Nat}
    {actions : List (Action S ω)}
    (hrun : Path step Clear (.new config maxRetainedBytes, []) actions x) : Registered x :=
  hrun.invariant step_registered (new_registered config maxRetainedBytes)

end

end Eider.Guarantees.FlintCustody
