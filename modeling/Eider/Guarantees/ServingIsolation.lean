import Eider.Guarantees.ServingTick

/-!
Two ticks of the chat service whose reports agree on every request but one: as
long as the output of that one request decodes in both, the ticks agree on every
other request. They emit the same deltas and the same finished records for it,
or fail alike.

Call identities are excepted, as in `CallIds`: the requests share one counter,
and a request that draws more of them shifts the identities of the others.
-/
namespace Eider.Guarantees.ServingIsolation
open Lib Source CallIds ServingTick List BTreeMap

variable {δ κ : Type}
variable {r : EngineRequestId} {s : ChatService δ} {t u : ChatService.TickState δ}
variable {token : ScheduledToken} {o : Option (ActiveChatRequest δ × Option ChatFinishReason)}
variable {report x y : SchedulerReport κ}

/-! ## What two services have in common -/

/-- Services that retain the same, up to the counter, but for the request `r`. -/
def SameService (r : EngineRequestId) (s t : ChatService δ) : Prop :=
  ∀ q, q ≠ r → Option.Rel SameRequest (s.requests.get q) (t.requests.get q)

/-- Deltas of the other requests, without call identities. -/
def deltasOff (r : EngineRequestId) (output : List EngineDelta) :
    List (EngineRequestId × ChatOutputEvent) :=
  (output.filter fun delta => delta.requestId ≠ r).map fun delta =>
    (delta.requestId, anonymous delta.event)

/-- Finished records of the other requests. -/
def finishedOff (r : EngineRequestId) (finished : List EngineFinished) : List EngineFinished :=
  finished.filter fun record => record.requestId ≠ r

/-- Tokens of the other requests. -/
def tokensOff (r : EngineRequestId) (tokens : List ScheduledToken) : List ScheduledToken :=
  tokens.filter fun token => token.requestId ≠ r

/-- Reports that differ in the request `r` only. -/
structure SameReport (r : EngineRequestId) (x y : SchedulerReport κ) : Prop where
  admitted : (x.admitted.filter fun admission => admission.1 ≠ r) =
    y.admitted.filter fun admission => admission.1 ≠ r
  generated : tokensOff r x.generated = tokensOff r y.generated
  decisionsFinished : x.decisionsFinished = y.decisionsFinished
  decisionsFailed : x.decisionsFailed = y.decisionsFailed
  requestState : ∀ q, q ≠ r → x.requestState q = y.requestState q
  release : ∀ q, q ≠ r → x.release q = y.release q

/-- Token loops that stand at the same point, but for `r`. -/
structure SameTick (r : EngineRequestId) (t u : ChatService.TickState δ) : Prop where
  service : SameService r t.service u.service
  output : deltasOff r t.output = deltasOff r u.output
  terminal : ∀ q, q ≠ r → t.terminal.get q = u.terminal.get q

theorem rel_refl (o : Option (ActiveChatRequest δ)) : Option.Rel SameRequest o o := by
  cases o with
  | none => exact .none
  | some a => exact .some (.refl a)

theorem rel_symm {o p : Option (ActiveChatRequest δ)} (h : Option.Rel SameRequest o p) :
    Option.Rel SameRequest p o := by
  cases h with
  | none => exact .none
  | some h => exact .some h.symm

theorem rel_trans {o p q : Option (ActiveChatRequest δ)} (h : Option.Rel SameRequest o p)
    (h' : Option.Rel SameRequest p q) : Option.Rel SameRequest o q := by
  cases h with
  | none => exact h'
  | some h =>
    cases h' with
    | some h' => exact .some (h.trans h')

theorem SameService.symm {t : ChatService δ} (h : SameService r s t) :
    SameService r t s := fun q hq => rel_symm (h q hq)

theorem SameService.trans {t u : ChatService δ} (h : SameService r s t) (h' : SameService r t u) :
    SameService r s u := fun q hq => rel_trans (h q hq) (h' q hq)

theorem SameTick.symm (h : SameTick r t u) : SameTick r u t :=
  ⟨h.service.symm, h.output.symm, fun q hq => (h.terminal q hq).symm⟩

theorem SameTick.trans {v : ChatService.TickState δ} (h : SameTick r t u) (h' : SameTick r u v) :
    SameTick r t v :=
  ⟨h.service.trans h'.service, h.output.trans h'.output, fun q hq =>
    (h.terminal q hq).trans (h'.terminal q hq)⟩

theorem deltasOff_append (r : EngineRequestId) (xs ys : List EngineDelta) :
    deltasOff r (xs ++ ys) = deltasOff r xs ++ deltasOff r ys := by
  simp [deltasOff]

theorem deltasOff_tag_self (r : EngineRequestId) (events : List ChatOutputEvent) :
    deltasOff r (ChatService.tag r events) = [] := by
  simp [deltasOff, ChatService.tag, filter_map, Function.comp_def]

theorem deltasOff_tag_same {q : EngineRequestId} {events events' : List ChatOutputEvent}
    (h : SameEvents events events') :
    deltasOff r (ChatService.tag q events) = deltasOff r (ChatService.tag q events') := by
  by_cases hq : q = r
  · rw [hq, deltasOff_tag_self, deltasOff_tag_self]
  · have hall : ∀ es : List ChatOutputEvent, deltasOff r (ChatService.tag q es) =
        (es.map anonymous).map fun event => (q, event) := by
      intro es
      simp [deltasOff, ChatService.tag, filter_map, Function.comp_def, hq]
    rw [hall, hall, h]

/-! ## The token loop -/

variable (fromStr : Text → Except Text Value) (tokenizer : Tokenizer δ)

/-- The tokens of `r` that are left decode, and lead the request to the state and
the reason given. -/
inductive Ready (r : EngineRequestId) (t : ChatService.TickState δ) : List ScheduledToken →
    Option (ActiveChatRequest δ × Option ChatFinishReason) → Prop where
  | absent (get : t.service.requests.get r = none) (reason : t.terminal.get r = none) :
      Ready r t [] none
  | present {a a' b : ActiveChatRequest δ} {tokens : List ScheduledToken}
      {events : List ChatOutputEvent} {reason : Option ChatFinishReason}
      (get : t.service.requests.get r = some a) (same : SameRequest a' a)
      (served : Served fromStr tokenizer a' tokens b events reason) :
      Ready r t tokens (some (b, reason <|> t.terminal.get r))

variable {fromStr tokenizer} {tokens : List ScheduledToken}

theorem serveToken_own (hr : token.requestId = r)
    (h : Ready fromStr tokenizer r t (token :: tokens) o) :
    ChatService.serveToken fromStr tokenizer t token = .error exhausted ∨
      ∃ t', ChatService.serveToken fromStr tokenizer t token = .ok t' ∧ SameTick r t t' ∧
        Ready fromStr tokenizer r t' tokens o := by
  subst hr
  cases h with
  | @present a a' b _ events reason get same served =>
    cases served with
    | @cons _ next _ _ _ events rest reason last ids first others =>
      have hsame : SameRequest (a'.withIds ids) (a.withIds t.service.nextToolCallId) :=
        (sameRequest_withIds a' ids).symm.trans (same.trans (sameRequest_withIds a _))
      have hagree := serve_same fromStr tokenizer hsame token
      rw [first] at hagree
      cases hserve : (a.withIds t.service.nextToolCallId).serve fromStr tokenizer token with
      | error e =>
        rw [hserve] at hagree
        left
        cases hagree
        simp only [ChatService.serveToken, get, hserve]
        rfl
      | ok result =>
        obtain ⟨a₁, events₁, reason₁⟩ := result
        rw [hserve] at hagree
        obtain ⟨hnext, -, hreason⟩ := hagree.of_ok rfl rfl
        subst hreason
        right
        have hok : ∃ t', ChatService.serveToken fromStr tokenizer t token = .ok t' := by
          simp only [ChatService.serveToken, get, hserve]
          exact ⟨_, rfl⟩
        obtain ⟨t', ht'⟩ := hok
        obtain ⟨x, y, es, rs, hget, hy, hservice, houtput, hterminal⟩ := serveToken_eq_ok ht'
        rw [get] at hget
        cases hget
        rw [hserve] at hy
        cases hy
        refine ⟨t', ht', ⟨fun q hq => ?_, ?_, fun q hq => ?_⟩, ?_⟩
        · rw [hservice, get_insert_of_ne _ _ hq]
          exact rel_refl _
        · rw [houtput, deltasOff_append, deltasOff_tag_self, append_nil]
        · rw [hterminal, if_neg hq]
        · have hget' : t'.service.requests.get token.requestId = some a₁ := by
            rw [hservice, get_insert_self]
          have hready := Ready.present hget' hnext others
          rw [hterminal, if_pos rfl] at hready
          have hassoc : (last <|> (reason <|> t.terminal.get token.requestId)) =
              ((last <|> reason) <|> t.terminal.get token.requestId) := by cases last <;> rfl
          rwa [hassoc] at hready

theorem Ready.frame {t' : ChatService.TickState δ}
    (hr : token.requestId ≠ r) (h : Ready fromStr tokenizer r t tokens o)
    (hserve : ChatService.serveToken fromStr tokenizer t token = .ok t') :
    Ready fromStr tokenizer r t' tokens o := by
  obtain ⟨a, b, events, reason, -, -, hservice, -, hterminal⟩ := serveToken_eq_ok hserve
  have hget : t'.service.requests.get r = t.service.requests.get r := by
    rw [hservice, get_insert_of_ne _ _ hr.symm]
  have hreason : t'.terminal.get r = t.terminal.get r := by
    rw [hterminal, if_neg hr.symm]
  cases h with
  | absent get reason => exact .absent (hget.trans get) (hreason.trans reason)
  | present get same served =>
    rw [← hreason]
    exact .present (hget.trans get) same served

theorem serveToken_other (hr : token.requestId ≠ r) (h : SameTick r t u) :
    Agree exhausted (SameTick r) (ChatService.serveToken fromStr tokenizer t token)
      (ChatService.serveToken fromStr tokenizer u token) := by
  have hrel := h.service token.requestId hr
  unfold ChatService.serveToken
  generalize ht : t.service.requests.get token.requestId = o,
    hu : u.service.requests.get token.requestId = p at hrel
  cases hrel with
  | none => exact .error _
  | @some a b hsame =>
    have hsame' : SameRequest (a.withIds t.service.nextToolCallId)
        (b.withIds u.service.nextToolCallId) :=
      (sameRequest_withIds a _).symm.trans (hsame.trans (sameRequest_withIds b _))
    refine (serve_same fromStr tokenizer hsame' token).bind fun {x y} hserved => .ok ?_
    obtain ⟨a', events, reason⟩ := x
    obtain ⟨b', events', reason'⟩ := y
    obtain ⟨hrequest, hevents, hreason⟩ := hserved
    subst hreason
    refine ⟨fun q hq => ?_, ?_, fun q hq => ?_⟩
    · by_cases hqt : q = token.requestId
      · subst hqt
        rw [get_insert_self, get_insert_self]
        exact .some hrequest
      · rw [get_insert_of_ne _ _ hqt, get_insert_of_ne _ _ hqt]
        exact h.service q hq
    · rw [deltasOff_append, deltasOff_append, h.output, deltasOff_tag_same hevents]
    · cases reason with
      | none => exact h.terminal q hq
      | some reason =>
        simp only [get_insert]
        split
        · rfl
        · exact h.terminal q hq

theorem serveTokens_agree {xs ys : List ScheduledToken}
    {p : Option (ActiveChatRequest δ × Option ChatFinishReason)} (h : SameTick r t u)
    (ht : Ready fromStr tokenizer r t (tokensOf r xs) o)
    (hu : Ready fromStr tokenizer r u (tokensOf r ys) p) (hoff : tokensOff r xs = tokensOff r ys) :
    Agree exhausted (fun t' u' => SameTick r t' u' ∧ Ready fromStr tokenizer r t' [] o ∧
      Ready fromStr tokenizer r u' [] p) (ChatService.serveTokens fromStr tokenizer t xs)
      (ChatService.serveTokens fromStr tokenizer u ys) := by
  -- The two loops take the tokens of `r` on their own and the others together.
  induction hn : xs.length + ys.length using Nat.strongRecOn generalizing xs ys t u with
  | ind n ih =>
    subst hn
    by_cases hx : ∃ x xs', xs = x :: xs' ∧ x.requestId = r
    · obtain ⟨x, xs, rfl, hr⟩ := hx
      rw [tokensOf_cons_self hr] at ht
      obtain hexhausted | ⟨t', hok, hsame, hready⟩ := serveToken_own hr ht
      · simp only [ChatService.serveTokens, hexhausted]
        exact .left _
      · simp only [ChatService.serveTokens, hok]
        refine ih _ ?_ (hsame.symm.trans h) hready hu ?_ rfl
        · simp
        · rw [← hoff]
          simp [tokensOff, hr]
    · by_cases hy : ∃ y ys', ys = y :: ys' ∧ y.requestId = r
      · obtain ⟨y, ys, rfl, hr⟩ := hy
        rw [tokensOf_cons_self hr] at hu
        obtain hexhausted | ⟨u', hok, hsame, hready⟩ := serveToken_own hr hu
        · simp only [ChatService.serveTokens, hexhausted]
          exact .right _
        · simp only [ChatService.serveTokens, hok]
          refine ih _ ?_ (h.trans hsame) ht hready ?_ rfl
          · simp
          · rw [hoff]
            simp [tokensOff, hr]
      · cases xs with
        | nil =>
          cases ys with
          | nil => exact .ok ⟨h, ht, hu⟩
          | cons y ys =>
            have hr : y.requestId ≠ r := fun heq => hy ⟨y, ys, rfl, heq⟩
            simp [tokensOff, hr] at hoff
        | cons x xs =>
          have hxr : x.requestId ≠ r := fun heq => hx ⟨x, xs, rfl, heq⟩
          cases ys with
          | nil => simp [tokensOff, hxr] at hoff
          | cons y ys =>
            have hyr : y.requestId ≠ r := fun heq => hy ⟨y, ys, rfl, heq⟩
            simp only [tokensOff, ne_eq, hxr, not_false_eq_true, decide_true,
              filter_cons_of_pos, hyr, cons.injEq] at hoff
            obtain ⟨rfl, hoff⟩ := hoff
            rw [tokensOf_cons_of_ne hxr] at ht hu
            refine (serveToken_other hxr h).bind_of_ok fun {t' u'} ht' hu' hsame => ?_
            refine ih _ ?_ hsame (ht.frame hxr ht') (hu.frame hxr hu') hoff rfl
            simp only [length_cons]
            omega

/-! ## The terminal loop -/

/-- Terminal loops that stand at the same point, but for `r`. -/
structure SameEnd (r : EngineRequestId) (t u : ChatService.EndState δ) : Prop where
  service : SameService r t.service u.service
  output : deltasOff r t.output = deltasOff r u.output
  finished : finishedOff r t.finished = finishedOff r u.finished

theorem SameEnd.symm {t u : ChatService.EndState δ} (h : SameEnd r t u) :
    SameEnd r u t := ⟨h.service.symm, h.output.symm, h.finished.symm⟩

theorem SameEnd.trans {t u v : ChatService.EndState δ} (h : SameEnd r t u) (h' : SameEnd r u v) :
    SameEnd r t v :=
  ⟨h.service.trans h'.service, h.output.trans h'.output, h.finished.trans h'.finished⟩

theorem SameEnd.refl (r : EngineRequestId) (t : ChatService.EndState δ) : SameEnd r t t :=
  ⟨fun _ _ => rel_refl _, rfl, rfl⟩

/-- The output of the request can be finished for the cause, and the scheduler
releases it. -/
def Concludes (report : SchedulerReport κ) (r : EngineRequestId) (b : ActiveChatRequest δ)
    (cause : ChatFinishReason) : Prop :=
  (∃ ids result, (b.withIds ids).conclude cause = .ok result) ∧ ∃ n, report.release r = .ok n

/-- Whatever entry of `r` is still in the list, `r` concludes for it. -/
def Endable (report : SchedulerReport κ) (r : EngineRequestId) (t : ChatService.EndState δ)
    (entries : List (EngineRequestId × ChatFinishReason)) : Prop :=
  ∀ cause, (r, cause) ∈ entries → ∀ a, t.service.requests.get r = some a →
    ∃ b, SameRequest b a ∧ Concludes report r b cause

variable {entries : List (EngineRequestId × ChatFinishReason)}
variable {entry : EngineRequestId × ChatFinishReason}

theorem endRequest_own {t : ChatService.EndState δ} {cause : ChatFinishReason}
    (h : Endable report r t ((r, cause) :: entries)) :
    ChatService.endRequest report t (r, cause) = .error exhausted ∨
      ∃ t', ChatService.endRequest report t (r, cause) = .ok t' ∧ SameEnd r t t' ∧
        Endable report r t' entries := by
  cases hget : t.service.requests.get r with
  | none =>
    right
    refine ⟨t, ?_, .refl r t, fun cause _ a ha => ?_⟩
    · simp only [ChatService.endRequest, hget]
    · rw [hget] at ha
      cases ha
  | some a =>
    obtain ⟨b, hsame, ⟨ids, ⟨c, events, final⟩, hconclude⟩, released, hreleased⟩ :=
      h cause mem_cons_self a hget
    have hrequest : SameRequest (b.withIds ids) (a.withIds t.service.nextToolCallId) :=
      (sameRequest_withIds b ids).symm.trans (hsame.trans (sameRequest_withIds a _))
    have hagree := conclude_same hrequest cause
    rw [hconclude] at hagree
    cases hresult : (a.withIds t.service.nextToolCallId).conclude cause with
    | error e =>
      rw [hresult] at hagree
      left
      cases hagree
      simp only [ChatService.endRequest, hget, hresult]
      rfl
    | ok result =>
      right
      have hok : ∃ t', ChatService.endRequest report t (r, cause) = .ok t' := by
        simp only [ChatService.endRequest, hget, hresult, hreleased]
        exact ⟨_, rfl⟩
      obtain ⟨t', ht'⟩ := hok
      obtain ⟨b', events', final', released', -, -, hservice, houtput, hfinished⟩ :=
        endRequest_eq_ok ht' hget
      refine ⟨t', ht', ⟨fun q hq => ?_, ?_, ?_⟩, fun cause _ a ha => ?_⟩
      · rw [hservice, get_erase_of_ne _ hq]
        exact rel_refl _
      · rw [houtput, deltasOff_append, deltasOff_tag_self, append_nil]
      · rw [hfinished]
        simp [finishedOff]
      · rw [hservice, get_erase_self] at ha
        cases ha

theorem Endable.frame {t t' : ChatService.EndState δ}
    (hr : entry.1 ≠ r) (h : Endable report r t (entry :: entries))
    (hend : ChatService.endRequest report t entry = .ok t') : Endable report r t' entries := by
  have hsingle : ChatService.endRequests report t [entry] = .ok t' := by
    simp only [ChatService.endRequests, hend]
    rfl
  obtain ⟨hframe, -, -⟩ := endRequests_frame hsingle (by simpa using hr.symm)
  intro cause hmem a ha
  rw [hframe] at ha
  exact h cause (mem_cons_of_mem _ hmem) a ha

theorem endRequest_other {t u : ChatService.EndState δ} (hr : entry.1 ≠ r)
    (hrelease : x.release entry.1 = y.release entry.1) (h : SameEnd r t u) :
    Agree exhausted (SameEnd r) (ChatService.endRequest x t entry)
      (ChatService.endRequest y u entry) := by
  have hrel := h.service entry.1 hr
  unfold ChatService.endRequest
  generalize ht : t.service.requests.get entry.1 = o,
    hu : u.service.requests.get entry.1 = p at hrel
  cases hrel with
  | none => exact .ok h
  | @some a b hsame =>
    have hrequest : SameRequest (a.withIds t.service.nextToolCallId)
        (b.withIds u.service.nextToolCallId) :=
      (sameRequest_withIds a _).symm.trans (hsame.trans (sameRequest_withIds b _))
    refine (conclude_same hrequest entry.2).bind fun {c d} hconclude => ?_
    obtain ⟨b', events', final'⟩ := d
    obtain ⟨⟨ids, hids⟩, hevents, hfinal⟩ := hconclude
    subst hids hfinal
    simp only [hrelease]
    cases y.release entry.1 with
    | error e => exact .error e
    | ok released =>
      refine .ok ⟨fun q hq => ?_, ?_, ?_⟩
      · by_cases hqe : q = entry.1
        · rw [hqe, get_erase_self, get_erase_self]
          exact .none
        · rw [get_erase_of_ne _ hqe, get_erase_of_ne _ hqe]
          exact h.service q hq
      · rw [deltasOff_append, deltasOff_append, h.output, deltasOff_tag_same hevents]
      · have hfinished := h.finished
        simp only [finishedOff, filter_append] at hfinished ⊢
        rw [hfinished]
        rfl

theorem endRequests_agree {xs ys : List (EngineRequestId × ChatFinishReason)}
    {t u : ChatService.EndState δ} (hrelease : ∀ q, q ≠ r → x.release q = y.release q)
    (h : SameEnd r t u) (ht : Endable x r t xs) (hu : Endable y r u ys)
    (hoff : (xs.filter fun entry => entry.1 ≠ r) = ys.filter fun entry => entry.1 ≠ r) :
    Agree exhausted (SameEnd r) (ChatService.endRequests x t xs)
      (ChatService.endRequests y u ys) := by
  induction hn : xs.length + ys.length using Nat.strongRecOn generalizing xs ys t u with
  | ind n ih =>
    subst hn
    by_cases hx : ∃ cause xs', xs = (r, cause) :: xs'
    · obtain ⟨cause, xs, rfl⟩ := hx
      obtain hexhausted | ⟨t', hok, hsame, hready⟩ := endRequest_own ht
      · simp only [ChatService.endRequests, hexhausted]
        exact .left _
      · simp only [ChatService.endRequests, hok]
        refine ih _ ?_ (hsame.symm.trans h) hready hu ?_ rfl
        · simp
        · rw [← hoff]
          simp
    · by_cases hy : ∃ cause ys', ys = (r, cause) :: ys'
      · obtain ⟨cause, ys, rfl⟩ := hy
        obtain hexhausted | ⟨u', hok, hsame, hready⟩ := endRequest_own hu
        · simp only [ChatService.endRequests, hexhausted]
          exact .right _
        · simp only [ChatService.endRequests, hok]
          refine ih _ ?_ (h.trans hsame) ht hready ?_ rfl
          · simp
          · rw [hoff]
            simp
      · cases xs with
        | nil =>
          cases ys with
          | nil => exact .ok h
          | cons entry ys =>
            have hr : entry.1 ≠ r := fun heq => hy ⟨entry.2, ys, by rw [← heq]⟩
            simp [hr] at hoff
        | cons entry xs =>
          have hxr : entry.1 ≠ r := fun heq => hx ⟨entry.2, xs, by rw [← heq]⟩
          cases ys with
          | nil => simp [hxr] at hoff
          | cons entry' ys =>
            have hyr : entry'.1 ≠ r := fun heq => hy ⟨entry'.2, ys, by rw [← heq]⟩
            simp only [ne_eq, hxr, not_false_eq_true, decide_true, filter_cons_of_pos, hyr,
              cons.injEq] at hoff
            obtain ⟨rfl, hoff⟩ := hoff
            refine (endRequest_other hxr (hrelease _ hxr) h).bind_of_ok
              fun {t' u'} ht' hu' hsame => ?_
            refine ih _ ?_ hsame (ht.frame hxr ht') (hu.frame hxr hu') hoff rfl
            simp only [length_cons]
            omega

/-! ## The whole tick -/

variable (fromStr tokenizer) in
/-- The output of `r` in the report decodes from what the service retains of it,
and if its tokens or the scheduler end it, its output can be finished and the
scheduler releases it. -/
def Decodes (r : EngineRequestId) (s : ChatService δ) (report : SchedulerReport κ) : Prop :=
  match s.requests.get r with
  | none => tokensOf r report.generated = []
  | some a => ∃ b events reason, Served fromStr tokenizer (admitRequest r report.admitted a)
      (tokensOf r report.generated) b events reason ∧
      ∀ cause, endReason report r reason = some cause → Concludes report r b cause

/-- Ticks that tell the other requests the same. -/
structure SameOutput (r : EngineRequestId) (x y : EngineTick κ) : Prop where
  output : deltasOff r x.output = deltasOff r y.output
  finished : finishedOff r x.finished = finishedOff r y.finished
  decisionsFinished : x.decisionsFinished = y.decisionsFinished
  decisionsFailed : x.decisionsFailed = y.decisionsFailed

theorem admitAll_same {t : ChatService δ} {xs ys : List (EngineRequestId × Nat)}
    (h : SameService r s t) (hoff : (xs.filter fun admission => admission.1 ≠ r) =
      ys.filter fun admission => admission.1 ≠ r) :
    SameService r (s.admitAll xs) (t.admitAll ys) := by
  intro q hq
  have hown : (xs.filter fun admission => admission.1 = q) =
      ys.filter fun admission => admission.1 = q := by
    have hfilter : ∀ l : List (EngineRequestId × Nat),
        (l.filter fun admission => admission.1 = q) =
          (l.filter fun admission => admission.1 ≠ r).filter fun admission => admission.1 = q := by
      intro l
      rw [filter_filter]
      apply filter_congr
      intro admission _
      by_cases heq : admission.1 = q
      · simp [heq, hq]
      · simp [heq]
    rw [hfilter xs, hfilter ys, hoff]
  rw [admitAll_get, admitAll_get]
  have hrel := h q hq
  generalize s.requests.get q = o, t.requests.get q = p at hrel
  cases hrel with
  | none => exact .none
  | @some a b hsame =>
    refine .some ?_
    unfold admitRequest
    rw [hown]
    generalize (ys.filter fun admission => admission.1 = q) = admissions
    induction admissions generalizing a b with
    | nil => exact hsame
    | cons admission rest ih =>
      apply ih
      obtain ⟨ids, rfl⟩ := hsame
      exact ⟨ids, rfl⟩

theorem ready_admitted (h : Decodes fromStr tokenizer r s report) :
    ∃ o, Ready fromStr tokenizer r ⟨s.admitAll report.admitted, [], BTreeMap.empty⟩
        (tokensOf r report.generated) o ∧
      ∀ b reason, o = some (b, reason) → ∀ cause, endReason report r reason = some cause →
        Concludes report r b cause := by
  have hadmit := admitAll_get s report.admitted r
  unfold Decodes at h
  cases hget : s.requests.get r with
  | none =>
    rw [hget] at h hadmit
    refine ⟨none, ?_, by simp⟩
    rw [h]
    exact .absent hadmit rfl
  | some a =>
    rw [hget] at h hadmit
    obtain ⟨b, events, reason, hserved, hends⟩ := h
    refine ⟨_, .present hadmit (.refl _) hserved, ?_⟩
    intro b' reason' heq cause hcause
    obtain ⟨rfl, rfl⟩ := Prod.mk.inj (Option.some.inj heq)
    apply hends
    rw [← hcause]
    cases reason <;> rfl

/-- What the terminal map says of the requests behind the token loop. -/
theorem terminal_get (q : EngineRequestId) :
    (ChatService.markFinished report t.service.requests.keys t.terminal).get q =
      (t.terminal.get q <|> if (t.service.requests.get q).isSome ∧
        report.requestState q = some .finished then some .length else none) := by
  rw [markFinished_get]
  simp only [mem_keys_iff]

theorem endable_of_ready (h : Ready fromStr tokenizer r t [] o)
    (hends : ∀ b reason, o = some (b, reason) → ∀ cause,
      endReason report r reason = some cause → Concludes report r b cause) :
    Endable report r ⟨t.service, t.output, []⟩
      (ChatService.markFinished report t.service.requests.keys t.terminal).entries := by
  intro cause hmem a hget
  have hcause := mem_entries_iff.mp hmem
  rw [terminal_get] at hcause
  cases h with
  | absent get reason =>
    rw [show t.service.requests.get r = some a from hget] at get
    cases get
  | @present a' a'' b _ events reason get same served =>
    rw [show t.service.requests.get r = some a from hget] at get
    cases get
    cases served
    refine ⟨_, same, hends _ _ rfl cause ?_⟩
    rw [show t.service.requests.get r = some a from hget] at hcause
    simpa [endReason] using hcause

theorem tick_agree {t : ChatService δ} (h : SameService r s t) (hreport : SameReport r x y)
    (hx : Decodes fromStr tokenizer r s x) (hy : Decodes fromStr tokenizer r t y) :
    Agree exhausted (fun a b => SameService r a.1 b.1 ∧ SameOutput r a.2 b.2)
      (s.tick fromStr tokenizer x) (t.tick fromStr tokenizer y) := by
  obtain ⟨o, hready, hends⟩ := ready_admitted hx
  obtain ⟨p, hready', hends'⟩ := ready_admitted hy
  have hstart : SameTick r (⟨s.admitAll x.admitted, [], empty⟩ : ChatService.TickState δ)
      ⟨t.admitAll y.admitted, [], empty⟩ :=
    ⟨admitAll_same h hreport.admitted, rfl, fun _ _ => rfl⟩
  refine (serveTokens_agree hstart hready hready' hreport.generated).bind
    fun {served served'} hserved => ?_
  obtain ⟨hsame, hown, hown'⟩ := hserved
  have hoff : ((ChatService.markFinished x served.service.requests.keys
        served.terminal).entries.filter fun entry => entry.1 ≠ r) =
      (ChatService.markFinished y served'.service.requests.keys
        served'.terminal).entries.filter fun entry => entry.1 ≠ r := by
    have herase : (ChatService.markFinished x served.service.requests.keys
          served.terminal).erase r =
        (ChatService.markFinished y served'.service.requests.keys served'.terminal).erase r := by
      apply BTreeMap.ext_get
      intro q
      by_cases hq : q = r
      · rw [hq, BTreeMap.get_erase_self, BTreeMap.get_erase_self]
      · rw [get_erase_of_ne _ hq, get_erase_of_ne _ hq, terminal_get,
          terminal_get, hsame.terminal q hq, hreport.requestState q hq]
        have hrel := hsame.service q hq
        generalize served.service.requests.get q = a, served'.service.requests.get q = b at hrel
        cases hrel <;> rfl
    exact congrArg entries herase
  have hend : SameEnd r (⟨served.service, served.output, []⟩ : ChatService.EndState δ)
      ⟨served'.service, served'.output, []⟩ := ⟨hsame.service, hsame.output, rfl⟩
  refine (endRequests_agree hreport.release hend (endable_of_ready hown hends)
    (endable_of_ready hown' hends') hoff).bind fun {ended ended'} hended => .ok ?_
  exact ⟨hended.service, hended.output, hended.finished, hreport.decisionsFinished,
    hreport.decisionsFailed⟩

end Eider.Guarantees.ServingIsolation
