import Eider.Guarantees.CallIds

/-!
One tick of the chat service, seen from one request: the tokens of the request
are served in order, and it ends for the last reason its tokens gave, or for its
length when the scheduler reports it finished.
-/
namespace Eider.Guarantees.ServingTick
open Lib Source CallIds List BTreeMap

variable {δ κ : Type}
variable (fromStr : Text → Except Text Value) (tokenizer : Tokenizer δ)
variable {r : EngineRequestId} {token : ScheduledToken} {t t' : ChatService.TickState δ}
variable {a : ActiveChatRequest δ} {report : SchedulerReport κ} {s s' : ChatService δ}
variable {out : EngineTick κ}

/-! ## The view of one request -/

/-- Tokens of a request in a report. -/
def tokensOf (r : EngineRequestId) (tokens : List ScheduledToken) : List ScheduledToken :=
  tokens.filter fun token => token.requestId = r

/-- Deltas of a request in an output. -/
def deltasOf (r : EngineRequestId) (output : List EngineDelta) : List ChatOutputEvent :=
  (output.filter fun delta => delta.requestId = r).map EngineDelta.event

/-- Finished records of a request. -/
def finishedOf (r : EngineRequestId) (finished : List EngineFinished) : List EngineFinished :=
  finished.filter fun record => record.requestId = r

/-- Admissions of a request. -/
def admitRequest (r : EngineRequestId) (admitted : List (EngineRequestId × Nat))
    (a : ActiveChatRequest δ) : ActiveChatRequest δ :=
  (admitted.filter fun admission => admission.1 = r).foldl (fun a admission =>
    a.withCached admission.2) a

/-- `Served a tokens b events reason`: serving the tokens in turn, each with
whatever value the counter has by then, leads from `a` to `b`. The last token
that gives a reason decides. -/
inductive Served : ActiveChatRequest δ → List ScheduledToken → ActiveChatRequest δ →
    List ChatOutputEvent → Option ChatFinishReason → Prop where
  | nil (a : ActiveChatRequest δ) : Served a [] a [] none
  | cons {a b c : ActiveChatRequest δ} {token : ScheduledToken} {tokens : List ScheduledToken}
      {events rest : List ChatOutputEvent} {reason last : Option ChatFinishReason} (ids : Nat)
      (first : (a.withIds ids).serve fromStr tokenizer token = .ok (b, events, reason))
      (others : Served b tokens c rest last) :
      Served a (token :: tokens) c (events ++ rest) (last <|> reason)

/-- The reason for which a request ends in a tick. -/
def endReason (report : SchedulerReport κ) (r : EngineRequestId)
    (reason : Option ChatFinishReason) : Option ChatFinishReason :=
  reason <|> if report.requestState r = some .finished then some .length else none

/-! ## The token loop -/

theorem deltasOf_append (r : EngineRequestId) (xs ys : List EngineDelta) :
    deltasOf r (xs ++ ys) = deltasOf r xs ++ deltasOf r ys := by
  simp [deltasOf]

theorem deltasOf_tag_self (r : EngineRequestId) (events : List ChatOutputEvent) :
    deltasOf r (ChatService.tag r events) = events := by
  induction events with
  | nil => rfl
  | cons event events ih =>
    simp only [deltasOf, ChatService.tag, map_cons, decide_true, filter_cons_of_pos] at ih ⊢
    rw [ih]

theorem deltasOf_tag_of_ne {other : EngineRequestId} (h : other ≠ r)
    (events : List ChatOutputEvent) : deltasOf r (ChatService.tag other events) = [] := by
  simp [deltasOf, ChatService.tag, filter_map, Function.comp_def, h]

theorem tokensOf_cons_self (h : token.requestId = r) (tokens : List ScheduledToken) :
    tokensOf r (token :: tokens) = token :: tokensOf r tokens := by
  simp [tokensOf, h]

theorem tokensOf_cons_of_ne (h : token.requestId ≠ r) (tokens : List ScheduledToken) :
    tokensOf r (token :: tokens) = tokensOf r tokens := by
  simp [tokensOf, h]

variable {fromStr tokenizer} {tokens : List ScheduledToken}

theorem serveToken_eq_ok (h : ChatService.serveToken fromStr tokenizer t token = .ok t') :
    ∃ a b events reason, t.service.requests.get token.requestId = some a ∧
      (a.withIds t.service.nextToolCallId).serve fromStr tokenizer token =
        .ok (b, events, reason) ∧
      t'.service = ⟨t.service.requests.insert token.requestId b, b.ids⟩ ∧
      t'.output = t.output ++ ChatService.tag token.requestId events ∧
      ∀ r, t'.terminal.get r = if r = token.requestId then reason <|> t.terminal.get r
        else t.terminal.get r := by
  unfold ChatService.serveToken at h
  split at h
  · cases h
  · rename_i a hget
    obtain ⟨⟨b, events, reason⟩, hserve, h⟩ := bind_ok h
    simp only [pure, Except.pure, Except.ok.injEq] at h
    subst h
    refine ⟨a, b, events, reason, hget, hserve, rfl, rfl, fun r => ?_⟩
    cases reason with
    | none => simp
    | some reason =>
      by_cases hr : r = token.requestId
      · simp [hr, get_insert_self]
      · simp [hr, get_insert_of_ne]

theorem serveTokens_view (h : ChatService.serveTokens fromStr tokenizer t tokens = .ok t')
    (hget : t.service.requests.get r = some a) :
    ∃ b events reason, Served fromStr tokenizer a (tokensOf r tokens) b events reason ∧
      t'.service.requests.get r = some b ∧
      deltasOf r t'.output = deltasOf r t.output ++ events ∧
      t'.terminal.get r = (reason <|> t.terminal.get r) := by
  induction tokens generalizing t a with
  | nil =>
    cases h
    exact ⟨a, [], none, .nil a, hget, by simp, by simp⟩
  | cons token tokens ih =>
    obtain ⟨u, hfirst, hrest⟩ := bind_ok h
    obtain ⟨a', b', events', reason', hget', hserve, hservice, houtput, hterminal⟩ :=
      serveToken_eq_ok hfirst
    by_cases hr : token.requestId = r
    · subst hr
      rw [hget] at hget'
      cases hget'
      have hu : u.service.requests.get token.requestId = some b' := by
        rw [hservice, get_insert_self]
      obtain ⟨b, events, reason, hserved, hb, hdeltas, hreason⟩ := ih hrest hu
      refine ⟨b, events' ++ events, reason <|> reason', ?_, hb, ?_, ?_⟩
      · rw [tokensOf_cons_self rfl]
        exact .cons _ hserve hserved
      · rw [hdeltas, houtput, deltasOf_append, deltasOf_tag_self, append_assoc]
      · rw [hreason, hterminal, if_pos rfl]
        cases reason <;> rfl
    · have hu : u.service.requests.get r = some a := by
        rw [hservice, get_insert_of_ne _ _ (Ne.symm hr), hget]
      obtain ⟨b, events, reason, hserved, hb, hdeltas, hreason⟩ := ih hrest hu
      refine ⟨b, events, reason, ?_, hb, ?_, ?_⟩
      · rwa [tokensOf_cons_of_ne hr]
      · rw [hdeltas, houtput, deltasOf_append, deltasOf_tag_of_ne hr, append_nil]
      · rw [hreason, hterminal, if_neg (Ne.symm hr)]

theorem serveTokens_unknown (h : ChatService.serveTokens fromStr tokenizer t tokens = .ok t')
    (hget : t.service.requests.get r = none) :
    tokensOf r tokens = [] ∧ t'.service.requests.get r = none ∧
      deltasOf r t'.output = deltasOf r t.output ∧ t'.terminal.get r = t.terminal.get r := by
  induction tokens generalizing t with
  | nil =>
    cases h
    exact ⟨rfl, hget, rfl, rfl⟩
  | cons token tokens ih =>
    obtain ⟨u, hfirst, hrest⟩ := bind_ok h
    obtain ⟨a, b, events, reason, hget', -, hservice, houtput, hterminal⟩ := serveToken_eq_ok hfirst
    have hr : token.requestId ≠ r := by
      intro heq
      rw [heq, hget] at hget'
      cases hget'
    have hu : u.service.requests.get r = none := by
      rw [hservice, get_insert_of_ne _ _ hr.symm, hget]
    obtain ⟨htokens, hnone, hdeltas, hreason⟩ := ih hrest hu
    refine ⟨by rw [tokensOf_cons_of_ne hr, htokens], hnone, ?_, ?_⟩
    · rw [hdeltas, houtput, deltasOf_append, deltasOf_tag_of_ne hr, append_nil]
    · rw [hreason, hterminal, if_neg hr.symm]

/-! ## The terminal loop -/

theorem markFinished_get (report : SchedulerReport κ) (keys : List EngineRequestId)
    (terminal : BTreeMap EngineRequestId ChatFinishReason) (r : EngineRequestId) :
    (ChatService.markFinished report keys terminal).get r =
      (terminal.get r <|>
        if r ∈ keys ∧ report.requestState r = some .finished then some .length else none) := by
  unfold ChatService.markFinished
  induction keys generalizing terminal with
  | nil => simp
  | cons key keys ih =>
    rw [foldl_cons, ih]
    by_cases hr : r = key
    · subst hr
      by_cases hstate : report.requestState r = some .finished
      · cases hterminal : terminal.get r with
        | none => simp [hstate, get_insert_self]
        | some reason => simp [hterminal]
      · simp [hstate]
    · split
      · rw [get_insert_of_ne _ _ hr]
        simp [hr]
      · simp [hr]

/-- What one round of the terminal loop does to a retained request. -/
theorem endRequest_eq_ok {t t' : ChatService.EndState δ} {reason : ChatFinishReason}
    (h : ChatService.endRequest report t (r, reason) = .ok t')
    (hget : t.service.requests.get r = some a) :
    ∃ b events final released,
      (a.withIds t.service.nextToolCallId).conclude reason = .ok (b, events, final) ∧
      report.release r = .ok released ∧
      t'.service = ⟨t.service.requests.erase r, b.ids⟩ ∧
      t'.output = t.output ++ ChatService.tag r events ∧
      t'.finished = t.finished ++ [⟨r, final, b.usage, released⟩] := by
  unfold ChatService.endRequest at h
  rw [hget] at h
  obtain ⟨⟨b, events, final⟩, hconclude, h⟩ := bind_ok h
  obtain ⟨released, hreleased, h⟩ := bind_ok h
  simp only [pure, Except.pure, Except.ok.injEq] at h
  subst h
  exact ⟨b, events, final, released, hconclude, hreleased, rfl, rfl, rfl⟩

theorem finishedOf_append (r : EngineRequestId) (xs ys : List EngineFinished) :
    finishedOf r (xs ++ ys) = finishedOf r xs ++ finishedOf r ys := by
  simp [finishedOf]

variable {entries : List (EngineRequestId × ChatFinishReason)} {t t' : ChatService.EndState δ}

theorem endRequests_frame
    (h : ChatService.endRequests report t entries = .ok t') (hr : r ∉ entries.map Prod.fst) :
    t'.service.requests.get r = t.service.requests.get r ∧
      deltasOf r t'.output = deltasOf r t.output ∧
      finishedOf r t'.finished = finishedOf r t.finished := by
  induction entries generalizing t with
  | nil =>
    cases h
    exact ⟨rfl, rfl, rfl⟩
  | cons entry entries ih =>
    obtain ⟨u, hfirst, hrest⟩ := bind_ok h
    rw [map_cons, mem_cons, not_or] at hr
    obtain ⟨hget, hdeltas, hfinished⟩ := ih hrest hr.2
    cases hentry : t.service.requests.get entry.1 with
    | none =>
      unfold ChatService.endRequest at hfirst
      rw [hentry] at hfirst
      cases hfirst
      exact ⟨hget, hdeltas, hfinished⟩
    | some a =>
      obtain ⟨b, events, final, released, -, -, hservice, houtput, hrecords⟩ :=
        endRequest_eq_ok hfirst hentry
      refine ⟨?_, ?_, ?_⟩
      · rw [hget, hservice, get_erase_of_ne _ hr.1]
      · rw [hdeltas, houtput, deltasOf_append, deltasOf_tag_of_ne (Ne.symm hr.1), append_nil]
      · rw [hfinished, hrecords, finishedOf_append]
        simp [finishedOf, Ne.symm hr.1]

theorem endRequests_view {reason : ChatFinishReason}
    (h : ChatService.endRequests report t entries = .ok t') (hnodup : (entries.map Prod.fst).Nodup)
    (hmem : (r, reason) ∈ entries) (hget : t.service.requests.get r = some a) :
    ∃ ids b events final released,
      (a.withIds ids).conclude reason = .ok (b, events, final) ∧
      report.release r = .ok released ∧ t'.service.requests.get r = none ∧
      deltasOf r t'.output = deltasOf r t.output ++ events ∧
      finishedOf r t'.finished = finishedOf r t.finished ++ [⟨r, final, b.usage, released⟩] := by
  induction entries generalizing t with
  | nil => cases hmem
  | cons entry entries ih =>
    obtain ⟨u, hfirst, hrest⟩ := bind_ok h
    rw [map_cons, nodup_cons] at hnodup
    obtain heq | hmem := mem_cons.mp hmem
    · subst heq
      obtain ⟨b, events, final, released, hconclude, hreleased, hservice, houtput, hrecords⟩ :=
        endRequest_eq_ok hfirst hget
      obtain ⟨hframe, hdeltas, hfinished⟩ := endRequests_frame hrest hnodup.1
      refine ⟨_, b, events, final, released, hconclude, hreleased, ?_, ?_, ?_⟩
      · rw [hframe, hservice, get_erase_self]
      · rw [hdeltas, houtput, deltasOf_append, deltasOf_tag_self]
      · rw [hfinished, hrecords, finishedOf_append]
        simp [finishedOf]
    · have hne : r ≠ entry.1 := fun heq => hnodup.1 (mem_map.mpr ⟨_, hmem, heq⟩)
      have hsingle : ChatService.endRequests report t [entry] = .ok u := by
        simp only [ChatService.endRequests, hfirst]
        rfl
      obtain ⟨hframe, hdeltas, hfinished⟩ := endRequests_frame hsingle (by simpa using hne)
      obtain ⟨ids, b, events, final, released, hconclude, hreleased, hnone, hout, hrecords⟩ :=
        ih hrest hnodup.2 hmem (hframe.trans hget)
      exact ⟨ids, b, events, final, released, hconclude, hreleased, hnone, hdeltas ▸ hout,
        hfinished ▸ hrecords⟩

/-! ## The whole tick -/

theorem admitOne_get (s : ChatService δ) (admission : EngineRequestId × Nat) (r : EngineRequestId) :
    (s.admitOne admission).requests.get r =
      if admission.1 = r then (s.requests.get r).map fun a => a.withCached admission.2
      else s.requests.get r := by
  unfold ChatService.admitOne
  by_cases hr : admission.1 = r
  · subst hr
    cases hget : s.requests.get admission.1 with
    | none => simp [hget]
    | some a => simp [get_insert_self]
  · split
    · simp [hr]
    · simp [hr, get_insert_of_ne _ _ (Ne.symm hr)]

theorem admitAll_get (s : ChatService δ) (admitted : List (EngineRequestId × Nat))
    (r : EngineRequestId) :
    (s.admitAll admitted).requests.get r = (s.requests.get r).map (admitRequest r admitted) := by
  unfold ChatService.admitAll
  induction admitted generalizing s with
  | nil =>
    rw [foldl_nil]
    cases s.requests.get r <;> rfl
  | cons admission admitted ih =>
    rw [foldl_cons, ih, admitOne_get]
    by_cases hr : admission.1 = r
    · cases s.requests.get r <;> simp [admitRequest, hr]
    · cases s.requests.get r <;> simp [admitRequest, hr]

section
variable (h : s.tick fromStr tokenizer report = .ok (s', out))
include h

theorem tick_eq_ok :
    ∃ served ended,
      ChatService.serveTokens fromStr tokenizer ⟨s.admitAll report.admitted, [], BTreeMap.empty⟩
        report.generated = .ok served ∧
      ChatService.endRequests report ⟨served.service, served.output, []⟩
        (ChatService.markFinished report served.service.requests.keys
          served.terminal).entries = .ok ended ∧
      s' = ended.service ∧ out.output = ended.output ∧ out.finished = ended.finished := by
  obtain ⟨served, hserved, h⟩ := bind_ok h
  obtain ⟨ended, hended, h⟩ := bind_ok h
  obtain ⟨rfl, rfl⟩ := h
  exact ⟨served, ended, hserved, hended, rfl, rfl, rfl⟩

variable (fromStr tokenizer) in
/-- What a tick does to a request that goes on, or that it ends. -/
inductive TickView (report : SchedulerReport κ) (r : EngineRequestId) (a : ActiveChatRequest δ) :
    Option (ActiveChatRequest δ) → List ChatOutputEvent → List EngineFinished → Prop where
  | goes {b : ActiveChatRequest δ} {events : List ChatOutputEvent}
      {reason : Option ChatFinishReason}
      (served : Served fromStr tokenizer (admitRequest r report.admitted a)
        (tokensOf r report.generated) b events reason)
      (goesOn : endReason report r reason = none) : TickView report r a (some b) events []
  | ends {b c : ActiveChatRequest δ} {events last : List ChatOutputEvent}
      {reason : Option ChatFinishReason} {cause final : ChatFinishReason} {ids released : Nat}
      (served : Served fromStr tokenizer (admitRequest r report.admitted a)
        (tokensOf r report.generated) b events reason)
      (cause_eq : endReason report r reason = some cause)
      (concluded : (b.withIds ids).conclude cause = .ok (c, last, final)) :
      TickView report r a none (events ++ last) [⟨r, final, c.usage, released⟩]

/-- A tick that succeeds, seen from a retained request. -/
theorem tick_view (hget : s.requests.get r = some a) :
    TickView fromStr tokenizer report r a (s'.requests.get r) (deltasOf r out.output)
      (finishedOf r out.finished) := by
  obtain ⟨served, ended, hserve, hend, rfl, houtput, hfinished⟩ := tick_eq_ok h
  have hadmitted : (s.admitAll report.admitted).requests.get r =
      some (admitRequest r report.admitted a) := by
    rw [admitAll_get, hget]
    rfl
  obtain ⟨b, events, reason, hserved, hb, hdeltas, hterminal⟩ := serveTokens_view hserve hadmitted
  have hreason : (ChatService.markFinished report served.service.requests.keys
      served.terminal).get r = endReason report r reason := by
    have hkey : r ∈ served.service.requests.keys := by
      rw [mem_keys_iff, hb]
      rfl
    rw [markFinished_get, hterminal]
    simp only [get_empty, hkey, true_and, endReason]
    cases reason <;> rfl
  have hevents : deltasOf r served.output = events := by
    rw [hdeltas]
    rfl
  rw [houtput, hfinished]
  cases hcause : endReason report r reason with
  | none =>
    have hnot : r ∉ (ChatService.markFinished report served.service.requests.keys
        served.terminal).entries.map Prod.fst := by
      intro hmem
      have hsome := mem_keys_iff.mp hmem
      rw [hreason, hcause] at hsome
      cases hsome
    obtain ⟨hframe, hout, hrecords⟩ := endRequests_frame hend hnot
    rw [hframe, hout, hrecords, hevents, hb]
    exact .goes hserved hcause
  | some cause =>
    have hmem : (r, cause) ∈ (ChatService.markFinished report served.service.requests.keys
        served.terminal).entries := mem_entries_iff.mpr (hreason.trans hcause)
    obtain ⟨ids, c, last, final, released, hconclude, -, hnone, hout, hrecords⟩ :=
      endRequests_view hend (keys_nodup _) hmem hb
    rw [hnone, hout, hrecords, hevents]
    exact .ends hserved hcause hconclude

/-- A tick that succeeds, seen from a request that is not retained. -/
theorem tick_unknown (hget : s.requests.get r = none) :
    tokensOf r report.generated = [] ∧ s'.requests.get r = none ∧
      deltasOf r out.output = [] ∧ finishedOf r out.finished = [] := by
  obtain ⟨served, ended, hserve, hend, rfl, houtput, hfinished⟩ := tick_eq_ok h
  have hadmitted : (s.admitAll report.admitted).requests.get r = none := by
    rw [admitAll_get, hget]
    rfl
  obtain ⟨htokens, hb, hdeltas, hterminal⟩ := serveTokens_unknown hserve hadmitted
  have hnot : r ∉ (ChatService.markFinished report served.service.requests.keys
      served.terminal).entries.map Prod.fst := by
    intro hmem
    have hsome := mem_keys_iff.mp hmem
    have hkey : r ∉ served.service.requests.keys := by
      rw [mem_keys_iff, hb]
      simp
    rw [markFinished_get, hterminal] at hsome
    simp [hkey] at hsome
  obtain ⟨hframe, hout, hrecords⟩ := endRequests_frame hend hnot
  rw [houtput, hfinished, hframe, hout, hrecords, hdeltas]
  exact ⟨htokens, hb, rfl, rfl⟩

end

/-! ## A small instance -/

/-- JSON that never parses. -/
def noJson (_ : Text) : Except Text Value := .error []

/-- The fresh codec of a request without tools, for a tokenizer without markers. -/
def plainCodec : ChatOutputCodec Unit where
  decodeStream := ()
  parser := {
    mode := .text
    pending := []
    toolCall := []
    toolCallProtocol := .standard
    gemmaChannelHeaderPending := false
    trimAfterThinking := false
    trimAfterToolCall := false
    stringArguments := BTreeMap.empty
    toolParameters := BTreeMap.empty
    directTools := []
    activeDirectTool := none
    finished := false
    nextToolCallId := 0
  }
  gemmaSpecialTokens := none
  protocolSpecialTokens := []
  museSpecialTokens := none
  museHeader := none
  finished := false

end Eider.Guarantees.ServingTick
