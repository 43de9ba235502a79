import Eider.Guarantees.Deepseek4Atomicity
import Eider.Guarantees.Deepseek4Serving
import Eider.Lib.Run

/-!
The waiting queue of the DeepSeek V4 service. Admission is the only phase that takes a
request from the queue, and it puts an id back only if nothing of the request was changed;
the other phases of a tick work on admitted requests only, also where they fail.
-/
namespace Eider.Guarantees.Deepseek4Waiting
open Lib Lib.ByteReader Lib.Run Source.Deepseek4 List BTreeMap Ensures
open Lib.Desk (without putAll get_of_get_erase get_of_get_without)
open Source (CudaError bind_ok)
open Source.Qwen36 (SchedulerConfig RequestConfig attempt)
open Guarantees.Deepseek4Atomicity (countingDevice)
open Guarantees.Deepseek4Serving

variable {L κ H Φ ω α β γ : Type}
variable {m : BTreeMap Nat (ActiveRequest ω)} {r : ActiveRequest ω} {ids sids : List Nat}
variable {e : CudaError} {entries : List (ExecutionSequence L κ H)} {tokens : List (List Nat)}
variable {id : Nat} {rest : List Nat}

/-! ## What a phase leaves -/

/-- The queue and the id that the next request gets. -/
def queue (s : ChatService L κ H ω) : List Nat × Nat := (s.waiting, s.nextId)

/-- A request that stands for an admitted one of the map. -/
def Held (m : BTreeMap Nat (ActiveRequest ω)) (r' : ActiveRequest ω) : Prop :=
  ∃ r, m.get r'.id = some r ∧ r.sequenceId.isSome ∧ r'.sequenceId = r.sequenceId

/-- A phase that has worked on admitted requests only. -/
structure Worked (s t : ChatService L κ H ω) : Prop where
  queue : queue t = queue s
  requests : ∀ id r', t.requests.get id = some r' →
    s.requests.get id = some r' ∨ (r'.id = id ∧ Held s.requests r')

/-- Every request is kept under its own id. -/
def Keyed (m : BTreeMap Nat (ActiveRequest ω)) : Prop := ∀ id r, m.get id = some r → r.id = id

section
variable {s t u : ChatService L κ H ω}

theorem Worked.refl (s : ChatService L κ H ω) : Worked s s := ⟨rfl, fun _ _ h => .inl h⟩

theorem Held.trans {m' : BTreeMap Nat (ActiveRequest ω)}
    (h : ∀ id r', m'.get id = some r' → m.get id = some r' ∨ (r'.id = id ∧ Held m r'))
    (hheld : Held m' r) : Held m r := by
  obtain ⟨r', hget, hsome, hid⟩ := hheld
  obtain hsame | ⟨hkey, r'', hget', hsome', hid'⟩ := h r.id r' hget
  · exact ⟨r', hsame, hsome, hid⟩
  · exact ⟨r'', hkey ▸ hget', hsome', hid.trans hid'⟩

section
variable (h : Worked s t)
include h

theorem Worked.trans (h' : Worked t u) : Worked s u := by
  refine ⟨h'.queue.trans h.queue, fun id r' hget => ?_⟩
  obtain hsame | ⟨hkey, hheld⟩ := h'.requests id r' hget
  · exact h.requests id r' hsame
  · exact .inr ⟨hkey, hheld.trans h.requests⟩

theorem Worked.keyed (hkeyed : Keyed s.requests) : Keyed t.requests := by
  intro id r' hget
  obtain hsame | ⟨hkey, -⟩ := h.requests id r' hget
  · exact hkeyed id r' hsame
  · exact hkey

theorem Worked.beside (hqueue : Deepseek4Waiting.queue u = Deepseek4Waiting.queue t)
    (hrequests : u.requests = t.requests) : Worked s u :=
  ⟨hqueue.trans h.queue, fun id r' hget => h.requests id r' (hrequests ▸ hget)⟩

theorem Worked.take (ids : List Nat) : Worked s { t with requests := without ids t.requests } :=
  ⟨h.queue, fun id r' hget => h.requests id r' (get_of_get_without hget)⟩

theorem Worked.erase (id : Nat) :
    Worked s { t with requests := t.requests.erase id } := h.take [id]

theorem Worked.putOne (hheld : Held s.requests r) :
    Worked s { t with requests := t.requests.insert r.id r } := by
  refine ⟨h.queue, fun id r' hget => ?_⟩
  simp only [get_insert] at hget
  split at hget
  · rename_i hkey
    cases hget
    exact .inr ⟨hkey, hheld⟩
  · exact h.requests id r' hget

theorem Worked.put {rs : List (ActiveRequest ω)} (hheld : ∀ r ∈ rs, Held s.requests r) :
    Worked s { t with requests := putAll ActiveRequest.id rs t.requests } := by
  induction rs generalizing t with
  | nil => exact h
  | cons r rs ih =>
    obtain ⟨hr, hrs⟩ := forall_mem_cons.mp hheld
    exact ih (h.putOne hr) hrs

end

end

/-! ## The phases of a tick -/

theorem mem_of_forall₂ {rel : β → γ → Prop} {xs : List β} {ys : List γ}
    (h : List.Forall₂ rel xs ys) {y : γ} (hy : y ∈ ys) : ∃ x ∈ xs, rel x y := by
  induction h with
  | nil => cases hy
  | cons hhead _ ih =>
    obtain rfl | hy := mem_cons.mp hy
    · exact ⟨_, mem_cons_self, hhead⟩
    · obtain ⟨x, hx, hrel⟩ := ih hy
      exact ⟨x, mem_cons_of_mem _ hx, hrel⟩

variable {requests : List (ActiveRequest ω)}

/-- The admitted requests of a batch stand for themselves. -/
theorem held_of_taken (hkeyed : Keyed m)
    (htaken : List.Forall₂ (fun id r => m.get id = some r) ids requests)
    (hsids : List.Forall₂ (fun r sid => r.sequenceId = some sid) requests sids) :
    ∀ r ∈ requests, Held m r := by
  intro r hr
  obtain ⟨id, -, hget⟩ := mem_of_forall₂ htaken hr
  obtain ⟨sid, -, hsid⟩ := mem_of_forall₂ hsids.flip hr
  refine ⟨r, ?_, ?_, rfl⟩
  · rw [hkeyed id r hget]
    exact hget
  · rw [hsid]
    rfl

/-- A model call under a lease, with the requests in hand. -/
theorem leased_ensures {s t : ChatService L κ H ω}
    {call : List (ExecutionSequence L κ H) → List (ExecutionSequence L κ H) × Except CudaError α}
    (hworked : Worked s t) (hheld : ∀ r ∈ requests, Held s.requests r) :
    Ensures (orPutBack requests (withLease sids call)) t (fun _ t' => Worked s t')
      (Failing fun _ t' => Worked s t') := by
  apply orPutBack_ensures
  apply ensures_mono withLease_ensures
  · rintro _ _ ⟨entries, -, rfl, -, -⟩
    exact hworked.beside rfl rfl
  · rintro e _ (⟨rfl, rfl⟩ | ⟨entries, hlease, rfl, herror⟩)
    · exact hworked.put hheld
    · exact (hworked.put hheld).beside rfl rfl

section
variable (device : Device L κ H Φ) (codec : OutputCodec ω) (input : TickInput L κ)
variable {s : ChatService L κ H ω}

theorem applySample_same (r : ActiveRequest ω) (token : Nat) :
    (applySample codec input r token).1.id = r.id ∧
      (applySample codec input r token).1.sequenceId = r.sequenceId := by
  unfold applySample
  dsimp only
  split <;> exact ⟨rfl, rfl⟩

theorem Held.same {r' : ActiveRequest ω} (h : Held m r) (hid : r'.id = r.id)
    (hsequence : r'.sequenceId = r.sequenceId) : Held m r' := by
  obtain ⟨r₀, hget, hsome, hsame⟩ := h
  exact ⟨r₀, hid ▸ hget, hsome, hsequence.trans hsame⟩

theorem sampleRows_held (requests : List (ActiveRequest ω)) (logits : List Φ)
    (hheld : ∀ r ∈ requests, Held m r) :
    ∀ r ∈ (sampleRows device codec input requests logits).requests, Held m r := by
  induction requests generalizing logits with
  | nil => exact nofun
  | cons r requests ih =>
    obtain ⟨hr, hrs⟩ := forall_mem_cons.mp hheld
    rw [sampleRows]
    dsimp only
    split
    · exact forall_mem_cons.mpr ⟨hr.same rfl rfl, hrs⟩
    · rename_i token hnext
      obtain ⟨hid, hsequence⟩ := applySample_same codec input { r with pendingSample := none } token
      split
      · rename_i happlied
        rw [happlied] at hid hsequence
        exact forall_mem_cons.mpr ⟨hr.same hid hsequence, hrs⟩
      · rename_i happlied
        rw [happlied] at hid hsequence
        exact forall_mem_cons.mpr ⟨hr.same hid hsequence, ih _ hrs⟩

theorem ordinaryLogits_ensures {t : ChatService L κ H ω} (hworked : Worked s t)
    (hheld : ∀ r ∈ requests, Held s.requests r) :
    Ensures (ordinaryLogits device input requests sids) t (fun _ t' => Worked s t')
      (Failing fun _ t' => Worked s t') := by
  unfold ordinaryLogits
  split
  · exact hworked
  · apply (expectAll_ensures _ _ _ _).bind
    rintro tokens _ ⟨rfl, -⟩
    apply get_bind
    apply (leased_ensures hworked hheld).bind
    exact fun _ _ h => h

theorem generate_ensures {t : ChatService L κ H ω} (hkeyed : Keyed t.requests) :
    Ensures (generate device codec input ids) t (fun _ t' => Worked t t')
      (Failing fun _ t' => Worked t t') := by
  unfold generate
  split
  · exact Worked.refl t
  · apply (takeRequests_ensures _ _ _).bind
    rintro requests _ ⟨rfl, -, htaken⟩
    apply (expectAll_ensures _ _ _ _).bind
    rintro sids _ ⟨rfl, hsids⟩
    have hheld := held_of_taken hkeyed htaken hsids
    have hworked := (Worked.refl t).take ids
    apply (ordinaryLogits_ensures device input hworked hheld).bind
    intro logits t' hworked'
    apply modify_bind
    apply putRequests_rule
    have hdone : Worked t { t' with
        tick := { t'.tick with generated :=
          t'.tick.generated ++ (sampleRows device codec input requests logits).generated }
        requests := putAll ActiveRequest.id (sampleRows device codec input requests logits).requests
          t'.requests } :=
      (hworked'.put (sampleRows_held device codec input requests logits hheld)).beside rfl rfl
    generalize (sampleRows device codec input requests logits).result = result
    cases result with
    | ok terminal => exact hdone
    | error fault =>
      cases fault with
      | failed e => exact hdone
      | panicked message => exact trivial

theorem applySamples_same (r : ActiveRequest ω) (tokens : List Nat) :
    (applySamples codec input r tokens).2.1.id = r.id ∧
      (applySamples codec input r tokens).2.1.sequenceId = r.sequenceId := by
  induction tokens generalizing r with
  | nil => exact ⟨rfl, rfl⟩
  | cons token tokens ih =>
    obtain ⟨hid, hsequence⟩ := applySample_same codec input r token
    rw [applySamples]
    generalize applySample codec input r token = applied at hid hsequence ⊢
    obtain ⟨r', _ | _ | reason⟩ := applied
    · exact ⟨hid, hsequence⟩
    · obtain ⟨hid', hsequence'⟩ := ih r'
      exact ⟨hid'.trans hid, hsequence'.trans hsequence⟩
    · exact ⟨hid, hsequence⟩

theorem settleLanes_ensures {t : ChatService L κ H ω}
    {rows : List (ActiveRequest ω × Bool × List Nat)} (hworked : Worked s t)
    (hheld : ∀ row ∈ rows, Held s.requests row.1) :
    Ensures (settleLanes codec input rows) t (fun _ t' => Worked s t')
      (Failing fun _ t' => Worked s t') := by
  induction rows generalizing t with
  | nil => exact hworked
  | cons row rows ih =>
    obtain ⟨request, accepted, tokens⟩ := row
    obtain ⟨hr, hrows⟩ := forall_mem_cons.mp hheld
    obtain ⟨hid, hsequence⟩ := applySamples_same codec input request tokens
    apply modify_bind
    apply modify_bind
    apply attempt_rule
    · intro reason _
      apply modify_bind
      apply Ensures.bind
      · apply ih _ hrows
        exact (hworked.putOne (hr.same hid hsequence)).beside rfl rfl
      · exact fun _ _ h => h
    · intro e he
      exact hworked.beside rfl rfl

theorem generateSpeculative_ensures {t : ChatService L κ H ω} (hkeyed : Keyed t.requests) :
    Ensures (generateSpeculative device codec input ids) t (fun _ t' => Worked t t')
      (Failing fun _ t' => Worked t t') := by
  unfold generateSpeculative
  split
  · exact Worked.refl t
  · apply (takeRequests_ensures _ _ _).bind
    rintro requests _ ⟨rfl, -, htaken⟩
    apply (expectAll_ensures _ _ _ _).bind
    rintro tokens _ ⟨rfl, -⟩
    apply (expectAll_ensures _ _ _ _).bind
    rintro sids _ ⟨rfl, hsids⟩
    have hheld := held_of_taken hkeyed htaken hsids
    have hworked := (Worked.refl t).take ids
    apply get_bind
    apply expect_rule
    intro mtpWorkspace _
    apply (leased_ensures hworked hheld).bind
    intro called t' hworked'
    apply settleLanes_ensures codec input hworked'
    intro row hrow
    exact hheld row.1 (of_mem_zip hrow).1

theorem selectPrefill_ensures {P : CudaError → ChatService L κ H ω → Prop} (ids : List Nat)
    (budget : Nat) (s : ChatService L κ H ω) :
    Ensures (selectPrefill ids budget) s (fun _ t => t = s) (Failing P) := by
  induction ids generalizing budget with
  | nil => exact rfl
  | cons id ids ih =>
    rw [selectPrefill]
    split
    · exact rfl
    · apply get_bind
      apply expect_rule
      intro r _
      dsimp only
      split
      · exact ih budget
      · apply (ih _).bind
        exact fun _ _ h => h

theorem retainRequestPrefix_same (retainPrefixes : Bool) (r : ActiveRequest ω)
    (entry : ExecutionSequence L κ H) :
    (retainRequestPrefix retainPrefixes r entry).id = r.id ∧
      (retainRequestPrefix retainPrefixes r entry).sequenceId = r.sequenceId := by
  unfold retainRequestPrefix
  split
  · exact ⟨rfl, rfl⟩
  · split <;> exact ⟨rfl, rfl⟩

theorem prefillSelected_ensures {selected : List (Nat × Nat)} (hkeyed : Keyed s.requests) :
    Ensures (prefillSelected device input selected) s (fun _ t => Worked s t)
      (Failing fun _ t => Worked s t) := by
  apply (takeRequests_ensures _ _ _).bind
  rintro requests _ ⟨rfl, -, htaken⟩
  apply (expectAll_ensures _ _ _ _).bind
  rintro sids _ ⟨rfl, hsids⟩
  have hheld := held_of_taken hkeyed htaken hsids
  have hworked := (Worked.refl s).take (selected.map Prod.fst)
  apply get_bind
  apply (leased_ensures hworked hheld).bind
  intro called t hworked'
  have hsettled : ∀ r ∈ zipWith (fun request entry =>
      if retainedPrefixReady request then retainRequestPrefix s.retainPrefixes request entry
      else request) (zipWith (fun (request : ActiveRequest ω) (entry : Nat × Nat) =>
        { request with promptPosition := request.promptPosition + entry.2 }) requests selected)
      called.2, Held s.requests r := by
    intro r hr
    obtain ⟨i, hi, rfl⟩ := mem_iff_getElem.mp hr
    rw [getElem_zipWith, getElem_zipWith]
    simp only [length_zipWith] at hi
    have hrequest := hheld (requests[i]) (getElem_mem _)
    split
    · obtain ⟨hid, hsequence⟩ := retainRequestPrefix_same s.retainPrefixes
        { requests[i] with promptPosition := requests[i].promptPosition + (selected[i]).2 }
        (called.2[i])
      exact hrequest.same hid hsequence
    · exact hrequest.same rfl rfl
  apply (Ensures.forM (I := fun rest t => Worked s t ∧ ∀ r ∈ rest, Held s.requests r)
    _ ⟨hworked', hsettled⟩).imp
  · exact fun _ _ h => h.1
  · rintro r rest t' ⟨hworked'', hrest⟩
    obtain ⟨hr, hrest⟩ := forall_mem_cons.mp hrest
    apply modify_bind
    apply Ensures.modify
    exact ⟨(hworked''.putOne hr).beside rfl rfl, hrest⟩

theorem retainTail_ensures {t : ChatService L κ H ω} (hworked : Worked s t)
    (hheld : Held s.requests r) :
    Ensures (retainTail r) t (fun r' t' => Worked s t' ∧ Held s.requests r')
      (Failing fun _ t' => Worked s t') := by
  unfold retainTail
  split
  · apply get_bind
    apply expect_rule
    intro sid _
    apply attempt_rule
    · intro entries _
      cases entries with
      | nil => exact ⟨hworked, hheld⟩
      | cons entry _ =>
        obtain ⟨hid, hsequence⟩ := retainRequestPrefix_same t.retainPrefixes r entry
        exact ⟨hworked, hheld.same hid hsequence⟩
    · exact fun _ _ => hworked
  · exact ⟨hworked, hheld⟩

theorem prefillTails_ensures (hkeyed : Keyed s.requests) :
    Ensures (prefillTails device input ids) s (fun _ t => Worked s t)
      (Failing fun _ t => Worked s t) := by
  apply (takeRequests_ensures _ _ _).bind
  rintro requests _ ⟨rfl, -, htaken⟩
  apply (expectAll_ensures _ _ _ _).bind
  rintro sids _ ⟨rfl, hsids⟩
  have hheld := held_of_taken hkeyed htaken hsids
  have hworked := (Worked.refl s).take ids
  apply get_bind
  apply (leased_ensures hworked hheld).bind
  intro called t hworked'
  apply Ensures.bind (P := fun _ t' => Worked s t')
  · apply orPutBack_ensures
    rw [← bind_pure (attempt _)]
    apply attempt_rule
    · exact fun _ _ => hworked'
    · exact fun _ _ => hworked'.put hheld
  · intro sampled t' hworked''
    apply (Ensures.forM (I := fun rest t => Worked s t ∧ ∀ row ∈ rest, Held s.requests row.1)
      _ ⟨hworked'', fun row hrow => hheld row.1 (of_mem_zip hrow).1⟩).imp
    · exact fun _ _ h => h.1
    · rintro ⟨r, token⟩ rest t'' ⟨hwork, hrest⟩
      obtain ⟨hr, hrest⟩ := forall_mem_cons.mp hrest
      have hplaced : Held s.requests { r with
          promptPosition := r.promptPosition + 1, pendingSample := some token } :=
        hr.same rfl rfl
      apply (retainTail_ensures hwork hplaced).bind
      rintro r' u ⟨hwork', hr'⟩
      apply modify_bind
      apply Ensures.modify
      exact ⟨(hwork'.putOne hr').beside rfl rfl, hrest⟩

theorem prefill_ensures (hkeyed : Keyed s.requests) :
    Ensures (prefill device input ids) s (fun _ t => Worked s t)
      (Failing fun _ t => Worked s t) := by
  unfold prefill
  split
  · exact Worked.refl s
  · apply get_bind
    apply (selectPrefill_ensures _ _ _).bind
    rintro selected s rfl
    split
    · exact prefillSelected_ensures device input hkeyed
    · dsimp only
      split
      · exact Worked.refl s
      · exact prefillTails_ensures device input hkeyed

end

theorem finishRequest_ensures (codec : OutputCodec ω) (input : TickInput L κ)
    {s t : ChatService L κ H ω} (hworked : Worked s t) (id : Nat)
    (reason : Eider.Source.ChatFinishReason) :
    Ensures (finishRequest codec input id reason) t (fun _ t' => Worked s t')
      (Failing fun _ t' => Worked s t') := by
  apply get_bind
  apply expect_rule
  intro request _
  apply Ensures.bind (P := fun _ t' => t' = t)
  · unfold reachSiteWhen reachSite
    split
    · split
      · exact hworked
      · exact rfl
    · exact rfl
  rintro _ _ rfl
  apply modify_bind
  apply expect_rule
  intro sid _
  have herased := hworked.erase id
  apply Ensures.bind (P := fun _ t' => Worked s t')
  · apply get_bind
    split
    · exact herased
    · exact herased.beside rfl rfl
  intro _ t' hworked'
  apply reachSite_rule
  · intro _
    exact hworked'.beside rfl rfl
  · exact fun _ => hworked'

/-! ## Admission -/

/-- The requests in the queue have not been admitted, and nothing was generated for them. -/
structure Fresh (s : ChatService L κ H ω) : Prop where
  keyed : Keyed s.requests
  nodup : s.waiting.Nodup
  known : ∀ id ∈ s.waiting, id < s.nextId
  pristine : ∀ id ∈ s.waiting, ∀ r, s.requests.get id = some r →
    r.sequenceId = none ∧ r.lastToken = none

/-- What the admission changes: requests that leave the queue. -/
structure Admitted (s t : ChatService L κ H ω) : Prop where
  nextId : t.nextId = s.nextId
  waiting : t.waiting.Sublist s.waiting
  requests : ∀ id, t.requests.get id = s.requests.get id ∨ (id ∈ s.waiting ∧ id ∉ t.waiting ∧
    ∃ r r', s.requests.get id = some r ∧ t.requests.get id = some r' ∧ r'.id = r.id)

section
variable {s t : ChatService L κ H ω}

theorem Admitted.refl (s : ChatService L κ H ω) : Admitted s s :=
  ⟨rfl, List.Sublist.refl _, fun _ => .inl rfl⟩

theorem Admitted.fresh (h : Admitted s t) (hfresh : Fresh s) : Fresh t := by
  constructor
  · intro id r' hget
    obtain hsame | ⟨-, -, r, r'', hr, hr'', hid⟩ := h.requests id
    · exact hfresh.keyed id r' (hsame ▸ hget)
    · cases hget.symm.trans hr''
      exact hid.trans (hfresh.keyed id r hr)
  · exact hfresh.nodup.sublist h.waiting
  · intro id hid
    rw [h.nextId]
    exact hfresh.known id (h.waiting.subset hid)
  · intro id hid r hget
    obtain hsame | ⟨-, hgone, -⟩ := h.requests id
    · exact hfresh.pristine id (h.waiting.subset hid) r (hsame ▸ hget)
    · exact absurd hid hgone

theorem Admitted.pop (h : Admitted s t) (hwaiting : t.waiting = id :: rest) :
    Admitted s { t with waiting := rest } := by
  refine ⟨h.nextId, (hwaiting ▸ sublist_cons_self id rest).trans h.waiting, fun id' => ?_⟩
  obtain hsame | ⟨hin, hout, hrest⟩ := h.requests id'
  · exact .inl hsame
  · refine .inr ⟨hin, fun hmem => hout ?_, hrest⟩
    rw [hwaiting]
    exact mem_cons_of_mem _ hmem

theorem Admitted.change {u : ChatService L κ H ω} (hfresh : Fresh s) (h : Admitted s t)
    (hwaiting : t.waiting = id :: rest) (hget : t.requests.get id = some r)
    (hchanged : ∃ r', u.requests.get id = some r' ∧ r'.id = r.id)
    (hothers : ∀ id', id' ≠ id → u.requests.get id' = t.requests.get id')
    (hnext : u.nextId = t.nextId) (hrest : u.waiting = rest) : Admitted s u := by
  obtain ⟨r', hget', hid⟩ := hchanged
  have hpop := h.pop hwaiting
  have hmem : id ∈ t.waiting := by simp [hwaiting]
  constructor
  · rw [hnext]
    exact h.nextId
  · rw [hrest]
    exact hpop.waiting
  · intro id'
    rw [hrest]
    by_cases hne : id' = id
    · subst hne
      obtain hsame | ⟨-, hgone, -⟩ := h.requests id'
      · right
        refine ⟨h.waiting.subset hmem, ?_, r, r', hsame ▸ hget, hget', hid⟩
        have hnodup := hfresh.nodup.sublist h.waiting
        rw [hwaiting, nodup_cons] at hnodup
        exact hnodup.1
      · exact absurd hmem hgone
    · rw [hothers id' hne]
      exact hpop.requests id'

theorem get_put_self {key : Nat} (h : key = id) : (m.insert key r).get id = some r := by
  rw [h]
  exact get_insert_self _ _ _

theorem get_put_of_ne {key id' : Nat} (h : key = id) (hne : id' ≠ id) :
    (m.insert key r).get id' = m.get id' := by
  rw [h]
  exact get_insert_of_ne _ _ hne

variable (device : Device L κ H Φ) (input : TickInput L κ)

theorem admitMtp_ensures (id : Nat) (h : Admitted s t) :
    Ensures (admitMtp device input id) t (fun _ t' => t' = t)
      (Failing fun _ t' => Admitted s t') := by
  apply get_bind
  split
  · exact rfl
  · apply reachSite_rule _ fun _ => h
    intro _
    apply reachSite_rule _ fun _ => h
    intro _
    apply reachSite_rule _ fun _ => h
    intro _
    split
    · apply reachSite_rule _ fun _ => h
      intro _
      exact rfl
    · exact h

theorem admitRequest_ensures (hfresh : Fresh s)
    (h : Admitted s t) (hwaiting : t.waiting = id :: rest) :
    Ensures (admitRequest device input id) { t with waiting := rest }
      (fun _ t' => Admitted s t') (Failing fun _ t' => Admitted s t') := by
  have hpop := h.pop hwaiting
  apply get_bind
  apply expect_rule
  intro request hget
  have hkey : request.id = id := by
    obtain hsame | ⟨-, -, r, r', hr, hr', hid⟩ := h.requests id
    · exact hfresh.keyed id request (hsame ▸ hget)
    · cases (hget : t.requests.get id = some request).symm.trans hr'
      exact hid.trans (hfresh.keyed id r hr)
  apply reachSite_rule _ fun _ => hpop
  intro _
  apply reachSite_rule _ fun _ => hpop
  intro _
  apply reachSite_rule _ fun _ => hpop
  intro _
  split
  · apply modify_bind
    rw [← hwaiting]
    exact h
  · apply get_bind
    apply (admitMtp_ensures device input id hpop).bind
    rintro mtpSequence _ rfl
    apply modify_bind
    apply insertSequence_rule
    · apply modify_bind
      refine h.change hfresh hwaiting hget ⟨_, get_put_self hkey, rfl⟩ ?_ rfl rfl
      exact fun id' hne => (get_put_of_ne hkey hne).trans (get_put_of_ne hkey hne)
    · intro _
      refine h.change hfresh hwaiting hget ⟨_, get_put_self hkey, rfl⟩ ?_ rfl rfl
      exact fun id' hne => get_put_of_ne hkey hne

theorem admitLoop_ensures (hfresh : Fresh s) (turns : Nat) (h : Admitted s t) :
    Ensures (admitLoop device input turns) t (fun _ t' => Admitted s t')
      (Failing fun _ t' => Admitted s t') := by
  induction turns generalizing t with
  | zero => exact h
  | succ turns ih =>
    apply get_bind
    split
    · split
      · exact h
      · rename_i id rest hwaiting
        apply set_bind
        apply (admitRequest_ensures device input hfresh h hwaiting).bind
        intro goesOn t' h'
        cases goesOn with
        | true => exact ih h'
        | false => exact h'
    · exact h

end

/-! ## Runs -/

section
variable (device : Device L κ H Φ) (codec : OutputCodec ω)
variable {s t : ChatService L κ H ω}

theorem Worked.fresh (h : Worked s t) (hfresh : Fresh s) : Fresh t := by
  obtain ⟨hwaiting, hnext⟩ := Prod.mk.inj h.queue
  constructor
  · exact h.keyed hfresh.keyed
  · rw [hwaiting]
    exact hfresh.nodup
  · rw [hwaiting, hnext]
    exact hfresh.known
  · rw [hwaiting]
    intro id hid r' hget
    obtain hsame | ⟨rfl, r, hr, hsome, -⟩ := h.requests id r' hget
    · exact hfresh.pristine id hid r' hsame
    · rw [(hfresh.pristine r'.id hid r hr).1] at hsome
      cases hsome

theorem tick_ensures (input : TickInput L κ) (hfresh : Fresh s) :
    Ensures (tick device codec input) s (fun _ t => Fresh t) (Failing fun _ t => Fresh t) := by
  have hstart : Fresh { s with tick := .empty } :=
    ((Worked.refl s).beside (u := { s with tick := .empty }) rfl rfl).fresh hfresh
  apply modify_bind
  apply Ensures.bind (P := fun _ t => Fresh t)
  · exact ensures_mono (admitLoop_ensures device input hstart _ (Admitted.refl _))
      (fun _ _ h => h.fresh hstart) fun _ _ h => h.fresh hstart
  intro _ t ht
  -- the other phases work on the requests that the admission left
  apply get_bind
  apply Ensures.bind (P := fun _ u => Worked t u)
  · exact ensures_mono (generate_ensures device codec input ht.keyed)
      (fun _ _ h => h) fun _ _ h => h.fresh ht
  intro ended u hworked
  apply Ensures.bind (P := fun _ v => Worked t v)
  · exact ensures_mono (generateSpeculative_ensures device codec input (hworked.keyed ht.keyed))
      (fun _ _ h => hworked.trans h) fun _ _ h => (hworked.trans h).fresh ht
  intro endedSpeculative v hworked'
  apply get_bind
  apply Ensures.bind (P := fun _ w => Worked t w)
  · exact ensures_mono (prefill_ensures device input (hworked'.keyed ht.keyed))
      (fun _ _ h => hworked'.trans h) fun _ _ h => (hworked'.trans h).fresh ht
  intro _ w hworked''
  apply get_bind
  apply (Ensures.forM (I := fun _ w => Worked t w) _ hworked'').imp
  · exact fun _ _ h => h.fresh ht
  · intro entry _ w hw
    exact ensures_mono (finishRequest_ensures codec input hw entry.1 entry.2) (fun _ _ h => h)
      fun _ _ h => h.fresh ht

theorem addRequest_ensures (rendered : Except CudaError (List Nat)) (generation : RequestConfig)
    (output : Option ω) (hfresh : Fresh s) :
    Ensures (addRequest rendered generation output) s (fun _ t => Fresh t)
      (Failing fun _ t => Fresh t) := by
  apply attempt_rule _ fun _ _ => hfresh
  intro _ _
  apply attempt_rule _ fun _ _ => hfresh
  intro prompt _
  apply get_bind
  apply attempt_rule _ fun _ _ => hfresh
  intro _ _
  apply get_bind
  have hnext : Fresh { s with nextId := s.nextId + 1 } := by
    refine ⟨hfresh.keyed, hfresh.nodup, fun id hid => ?_, hfresh.pristine⟩
    have := hfresh.known id hid
    dsimp only
    omega
  split
  · apply set_bind
    split
    · exact hnext
    · apply modify_bind
      apply modify_bind
      constructor
      · intro id r hget
        simp only [get_insert] at hget
        split at hget
        · rename_i hid
          cases hget
          exact hid
        · exact hfresh.keyed id r hget
      · apply List.Nodup.append hfresh.nodup (nodup_singleton _)
        rw [disjoint_singleton]
        exact fun hmem => absurd (hfresh.known _ hmem) (lt_irrefl _)
      · exact forall_mem_append.mpr ⟨hnext.known, forall_mem_singleton.mpr (Nat.lt_succ_self _)⟩
      · intro id hid r hget
        simp only [get_insert] at hget
        split at hget
        · cases hget
          exact ⟨rfl, rfl⟩
        · rename_i hne
          obtain hid | hid := mem_append.mp hid
          · exact hfresh.pristine id hid r hget
          · exact absurd (mem_singleton.mp hid).symm hne
  · exact hfresh

theorem cancelRequest_fresh (hfresh : Fresh s) (id : Nat) :
    ∃ t, cancelRequest id s = .ok ⟨⟩ t ∧ Fresh t := by
  refine ⟨_, rfl, ?_⟩
  dsimp only
  split
  · exact hfresh
  · constructor
    · intro id' r hget
      exact hfresh.keyed id' r (get_of_get_erase hget).2
    · exact hfresh.nodup.filter _
    · intro id' hid'
      exact hfresh.known id' (mem_of_mem_filter hid')
    · intro id' hid' r hget
      exact hfresh.pristine id' (mem_of_mem_filter hid') r (get_of_get_erase hget).2

theorem step_fresh {action : Action L κ ω} (hfresh : Fresh s)
    (hstep : step device codec s action = some t) : Fresh t := by
  have hcall : Ensures (action.call device codec) s (fun _ t => Fresh t)
      (Failing fun _ t => Fresh t) := by
    cases action with
    | addRequest rendered generation output =>
      exact (addRequest_ensures rendered generation output hfresh).bind fun _ _ h => h
    | tick input => exact tick_ensures device codec input hfresh
    | cancelRequest id =>
      obtain ⟨t, hrun, ht⟩ := cancelRequest_fresh hfresh id
      exact Ensures.of_ok hrun ht
  exact step_rule device codec hcall hstep

theorem new_fresh {mtpEnabled : Bool} {config : SchedulerConfig} {maxRetainedBytes : Nat}
    (h : ChatService.new device mtpEnabled config maxRetainedBytes = .ok s) : Fresh s := by
  obtain ⟨_, -, h⟩ := bind_ok h
  obtain ⟨_, -, h⟩ := bind_ok h
  obtain ⟨_, -, h⟩ := bind_ok h
  obtain ⟨_, -, h⟩ := bind_ok h
  obtain ⟨_, -, h⟩ := bind_ok h
  cases h
  constructor
  · exact nofun
  · exact nodup_nil
  · exact nofun
  · exact nofun

/-- In every run, the waiting ids are new and each waits once. Their requests have no sequence and
no token yet. -/
theorem waiting_requests_fresh {mtpEnabled : Bool} {config : SchedulerConfig}
    {maxRetainedBytes : Nat} {start : ChatService L κ H ω} {actions : List (Action L κ ω)}
    (hnew : ChatService.new device mtpEnabled config maxRetainedBytes = .ok start)
    (hrun : Path (step device codec) (fun _ _ => True) start actions s) : Fresh s :=
  hrun.invariant (fun hs _ hstep => step_fresh device codec hs hstep) (new_fresh device hnew)

end

section

/-- A codec that ends nothing. -/
def silentCodec : OutputCodec Unit where
  isReasoning _ := false
  push _ _ := ((), none)
  finish _ _ := none

/-- A tick in which every call succeeds. -/
def calmInput : TickInput Nat Nat where
  fails _ := false
  admission _ := .admitted none
  mtpAdmits _ := true
  sampled _ := 0

/-- One sequence at a time, with drafts. -/
def singleConfig : SchedulerConfig where
  decodeCapacity := 1
  decisionBranchCapacity := 1
  prefillSequenceCapacity := 1
  prefillTokenCapacity := 2
  maxActiveSequences := 1
  maxContextTokens := 8
  speculativeDrafts := 1

def greedyRequest : RequestConfig where
  sampling := ⟨true, true, false, false⟩
  maxNewTokens := 4
  eosTokenIds := []

/-- Two requests and a tick. -/
def twoRequests : List (Action Nat Nat Unit) :=
  [.addRequest (.ok [7]) greedyRequest (some ()), .addRequest (.ok [7]) greedyRequest (some ()),
    .tick calmInput]

theorem second_request_waits :
    ∃ start s, ChatService.new countingDevice true singleConfig 0 = .ok start ∧
      Path (step countingDevice silentCodec) (fun _ _ => True) start twoRequests s ∧
      s.waiting = [2] ∧ Fresh s := by
  obtain ⟨start, hnew, hrun⟩ : ∃ start : ChatService Nat Nat Nat Unit,
      ChatService.new countingDevice true singleConfig 0 = .ok start ∧
      (run (step countingDevice silentCodec) start twoRequests).map
        ChatService.waiting = some [2] := ⟨_, rfl, by decide +kernel⟩
  obtain ⟨s, hs, hwaiting⟩ := Option.map_eq_some_iff.mp hrun
  have hpath := Path.of_run hs
  exact ⟨start, s, hnew, hpath, hwaiting,
    waiting_requests_fresh countingDevice silentCodec hnew hpath⟩

end

end Eider.Guarantees.Deepseek4Waiting
