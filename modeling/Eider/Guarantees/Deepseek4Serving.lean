import Eider.Guarantees.SchedulerLedger
import Eider.Lib.Desk
import Eider.Source.Deepseek4.Service

/-!
What the shared parts of the DeepSeek V4 service do: the requests that a phase takes out
of the map, the lease of their sequences, and the errors that put the requests back.
-/
namespace Eider.Guarantees.Deepseek4Serving
open Lib Lib.ByteReader Lib.Desk Source Source.Deepseek4 Ensures
open Source.Qwen36 (raise attempt expect)
open Guarantees.SchedulerLedger (forall_left_of_forall₂)

variable {L κ H Φ ω α γ : Type}

/-! ## Faults -/

/-- What holds behind an error; a panic ends the service. -/
def Failing {σ : Type} (P : CudaError → σ → Prop) : Fault CudaError → σ → Prop
  | .failed e, s => P e s
  | .panicked _, _ => True

section
variable {σ : Type} {s : σ} {Q Q' : γ → σ → Prop} {P P' : CudaError → σ → Prop}
variable {f : α → EStateM (Fault CudaError) σ γ} {m : EStateM (Fault CudaError) σ γ}

theorem Failing.imp {fault : Fault CudaError} {t : σ} (h : Failing P fault t)
    (himp : ∀ e t, P e t → P' e t) : Failing P' fault t := by
  cases fault with
  | failed e => exact himp e t h
  | panicked message => exact trivial

theorem ensures_mono (h : Ensures m s Q (Failing P))
    (returns : ∀ a t, Q a t → Q' a t) (fails : ∀ e t, P e t → P' e t) :
    Ensures m s Q' (Failing P') :=
  h.mono returns fun _ _ hfault => hfault.imp fails

theorem attempt_rule {result : Except CudaError α}
    (hok : ∀ a, result = .ok a → Ensures (f a) s Q (Failing P))
    (hfailed : ∀ e, result = .error e → P e s) :
    Ensures (attempt result >>= f) s Q (Failing P) := by
  cases result with
  | ok a => exact hok a rfl
  | error e => exact hfailed e rfl

theorem expect_rule {value : Option α} {message : String}
    (hsome : ∀ a, value = some a → Ensures (f a) s Q (Failing P)) :
    Ensures (expect value message >>= f) s Q (Failing P) := by
  cases value with
  | some a => exact hsome a rfl
  | none => exact trivial

/-- What a program that stays within `I` gives to the errors. -/
theorem failing_of_stays {I J : σ → Prop} (h : Stays I m)
    (hs : I s) (himp : ∀ t, I t → J t) : Ensures m s (fun _ => I) (Failing fun _ => J) := by
  refine (h s hs).mono (fun _ _ ht => ht) fun fault t ht => ?_
  cases fault with
  | failed e => exact himp t ht
  | panicked message => exact trivial

theorem expectAll_ensures {β : Type} (f : β → Option α) (message : String) (xs : List β) (s : σ) :
    Ensures (xs.mapM fun x => expect (f x) message) s
      (fun ys t => t = s ∧ List.Forall₂ (fun x y => f x = some y) xs ys) (Failing P) := by
  induction xs with
  | nil => exact ⟨rfl, .nil⟩
  | cons x xs ih =>
    rw [List.mapM_cons]
    apply expect_rule
    intro y hy
    apply ih.bind
    rintro ys _ ⟨rfl, hys⟩
    exact ⟨rfl, .cons hy hys⟩

end

theorem mapM_error {ε β : Type} {f : β → Except ε γ} {xs : List β} {e : ε}
    (h : xs.mapM f = .error e) : ∃ x ∈ xs, f x = .error e := by
  induction xs with
  | nil => cases h
  | cons x xs ih =>
    rw [List.mapM_cons] at h
    cases hx : f x with
    | error e' =>
      rw [hx] at h
      cases h
      exact ⟨x, List.mem_cons_self, hx⟩
    | ok y =>
      rw [hx] at h
      cases hrest : xs.mapM f with
      | ok ys =>
        rw [hrest] at h
        cases h
      | error e' =>
        rw [hrest] at h
        cases h
        obtain ⟨z, hz, herror⟩ := ih hrest
        exact ⟨z, List.mem_cons_of_mem _ hz, herror⟩

/-! ## Requests in hand and leases -/

section
variable {s : ChatService L κ H ω} {P P' : CudaError → ChatService L κ H ω → Prop}
variable {Q : γ → ChatService L κ H ω → Prop} {requests : List (ActiveRequest ω)}

theorem reachSite_rule {input : TickInput L κ} {site : Site} {call : String}
    {f : Unit → Serving L κ H ω γ} (hok : input.fails site = false → Ensures (f ()) s Q (Failing P))
    (hfailed : input.fails site = true → P (.device call) s) :
    Ensures (reachSite input site call >>= f) s Q (Failing P) := by
  unfold reachSite
  cases hfails : input.fails site with
  | false => exact hok hfails
  | true => exact hfailed hfails

theorem insertSequence_rule {sequence : ExecutionSequence L κ H} {f : Nat → Serving L κ H ω γ}
    (hok : Ensures (f s.nextSequenceId) { s with
      sequences := s.sequences.insert s.nextSequenceId sequence
      nextSequenceId := s.nextSequenceId + 1 } Q (Failing P))
    (hfailed : ¬ s.nextSequenceId + 1 < 2 ^ 64 →
      P (.format "DeepSeek V4 sequence ID" "sequence ID space exhausted") s) :
    Ensures (insertSequence sequence >>= f) s Q (Failing P) := by
  apply Ensures.bind (P := fun sid t => sid = s.nextSequenceId ∧ t = { s with
    sequences := s.sequences.insert s.nextSequenceId sequence
    nextSequenceId := s.nextSequenceId + 1 })
  · apply get_bind
    split
    · exact ⟨rfl, rfl⟩
    · rename_i hexhausted
      exact hfailed hexhausted
  · rintro _ _ ⟨rfl, rfl⟩
    exact hok

theorem takeRequests_ensures (message : String) (ids : List Nat) (s : ChatService L κ H ω) :
    Ensures (takeRequests message ids) s
      (fun requests t => t = { s with requests := without ids s.requests } ∧ ids.Nodup ∧
        List.Forall₂ (fun id r => s.requests.get id = some r) ids requests) (Failing P) := by
  induction ids generalizing s with
  | nil => exact ⟨rfl, List.nodup_nil, .nil⟩
  | cons id ids ih =>
    apply get_bind
    apply expect_rule
    intro request hrequest
    apply set_bind
    apply (ih _).bind
    rintro requests _ ⟨rfl, hnodup, hrest⟩
    refine ⟨rfl, List.nodup_cons.mpr ⟨?_, hnodup⟩, .cons hrequest ?_⟩
    · intro hmem
      exact forall_left_of_forall₂ hrest (fun _ _ h => (get_of_get_erase h).1) id hmem rfl
    · exact hrest.imp fun _ _ h => (get_of_get_erase h).2

theorem forM_putRequest (requests : List (ActiveRequest ω)) (s : ChatService L κ H ω) :
    requests.forM putRequest s = .ok ⟨⟩ { s with requests := putAll ActiveRequest.id requests s.requests } := by
  induction requests generalizing s with
  | nil => rfl
  | cons request requests ih => exact ih _

theorem putRequests_rule {f : PUnit → Serving L κ H ω γ}
    {E : Fault CudaError → ChatService L κ H ω → Prop}
    (h : Ensures (f ⟨⟩) { s with requests := putAll ActiveRequest.id requests s.requests } Q E) :
    Ensures (requests.forM putRequest >>= f) s Q E := by
  have hput : Ensures (requests.forM putRequest) s
      (fun _ t => t = { s with requests := putAll ActiveRequest.id requests s.requests }) E := by
    unfold Ensures
    rw [forM_putRequest]
  apply hput.bind
  rintro _ _ rfl
  exact h

theorem orPutBack_ensures {call : Serving L κ H ω γ} (h : Ensures call s Q (Failing fun e t =>
      P e { t with requests := putAll ActiveRequest.id requests t.requests })) :
    Ensures (orPutBack requests call) s Q (Failing P) := by
  unfold Ensures orPutBack at *
  cases hrun : call s with
  | ok a t =>
    rw [hrun] at h
    exact h
  | error fault t =>
    rw [hrun] at h
    cases fault with
    | panicked message => exact trivial
    | failed e =>
      exact (putRequests_rule h : Ensures (requests.forM putRequest >>= fun _ => raise e) t Q
        (Failing P))

/-- The error of an unknown sequence. -/
def unknownSequence : CudaError :=
  .format "DeepSeek V4 execution sequence" "unknown or released sequence"

variable {pool : BTreeMap Nat (ExecutionSequence L κ H)} {ids : List Nat}

theorem leaseMany_error {e : CudaError}
    (h : leaseMany pool ids = .error e) : e = unknownSequence := by
  unfold leaseMany at h
  split at h
  · obtain ⟨id, -, hid⟩ := mapM_error h
    split at hid
    · cases hid
    · cases hid
      rfl
  · cases h
    rfl

theorem withLease_ensures
    {call : List (ExecutionSequence L κ H) → List (ExecutionSequence L κ H) × Except CudaError α} :
    Ensures (withLease ids call) s
      (fun result t => ∃ entries, leaseMany s.sequences ids = .ok entries ∧
        t = { s with sequences := endLease s.sequences ids (call entries).1 } ∧
        (call entries).2 = .ok result.1 ∧ result.2 = (call entries).1)
      (Failing fun e t => (t = s ∧ e = unknownSequence) ∨
        ∃ entries, leaseMany s.sequences ids = .ok entries ∧
          t = { s with sequences := endLease s.sequences ids (call entries).1 } ∧
          (call entries).2 = .error e) := by
  apply get_bind
  apply attempt_rule
  · intro entries hlease
    apply set_bind
    apply attempt_rule
    · intro a hcall
      exact ⟨entries, hlease, rfl, hcall, rfl⟩
    · intro e hcall
      exact .inr ⟨entries, hlease, rfl, hcall⟩
  · intro e hlease
    exact .inl ⟨rfl, leaseMany_error hlease⟩

/-- What a call ensures, whether it returns or fails, holds behind its step. -/
theorem step_rule (device : Device L κ H Φ) (codec : OutputCodec ω) {action : Action L κ ω}
    {t : ChatService L κ H ω} {I : ChatService L κ H ω → Prop}
    (h : Ensures (action.call device codec) s (fun _ t => I t) (Failing fun _ t => I t))
    (hstep : step device codec s action = some t) : I t := by
  unfold step at hstep
  unfold Ensures at h
  split at hstep
  · rename_i hrun
    rw [hrun] at h
    cases hstep
    exact h
  · rename_i hrun
    rw [hrun] at h
    cases hstep
    exact h
  · cases hstep

end

end Eider.Guarantees.Deepseek4Serving
