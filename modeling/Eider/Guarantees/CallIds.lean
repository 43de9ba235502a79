import Eider.Lib.Agree
import Eider.Source.Serving

/-!
Call identities do not steer decoding. `NEXT_TOOL_CALL_ID` is shared by every
request of the process, so what one request draws from it depends on the others.
Two decoders that differ in that counter only emit the same events up to the
identities of their tool calls and fail alike, unless the counter runs out in one
of them.
-/
namespace Eider.Guarantees.CallIds
open Lib Source

/-- The error of a counter that ran out. -/
def exhausted : Error := ⟨"chat tool call ID", ["tool call ID space exhausted"]⟩

/-- The event without the identity of its call. -/
def anonymous : ChatOutputEvent → ChatOutputEvent
  | .toolCall call => .toolCall { call with id := 0 }
  | event => event

/-- The same events up to call identities. -/
def SameEvents (es fs : List ChatOutputEvent) : Prop := es.map anonymous = fs.map anonymous

variable {es fs : List ChatOutputEvent}

theorem SameEvents.append {es' fs' : List ChatOutputEvent} (h : SameEvents es fs)
    (h' : SameEvents es' fs') : SameEvents (es ++ es') (fs ++ fs') := by
  unfold SameEvents at *
  rw [List.map_append, List.map_append, h, h']

theorem SameEvents.cons {e f : ChatOutputEvent} (h : anonymous e = anonymous f)
    (h' : SameEvents es fs) : SameEvents (e :: es) (f :: fs) := by
  unfold SameEvents at *
  rw [List.map_cons, List.map_cons, h, h']

/-! ## The parser -/

/-- The parser, drawing from another value of the counter. -/
def withIds (p : ChatOutputParser) (ids : Nat) : ChatOutputParser := { p with nextToolCallId := ids }

/-- Parsers that differ in the counter only. -/
def SameParser (p q : ChatOutputParser) : Prop := ∃ ids, q = withIds p ids

/-- What agreeing rounds of the parser have in common. -/
def SameRound (x y : ChatOutputParser.Round) : Prop :=
  SameParser x.1 y.1 ∧ SameEvents x.2.1 y.2.1 ∧ x.2.2 = y.2.2

variable {p : ChatOutputParser}

theorem sameRound_withIds {ids : Nat} {out : List ChatOutputEvent} {b : Bool} :
    SameRound (p, out, b) (withIds p ids, out, b) := ⟨⟨ids, rfl⟩, rfl, rfl⟩

theorem flushSafePrefix_same (p : ChatOutputParser) (ids : Nat) (markers : List Text)
    (makeEvent : Text → ChatOutputEvent) :
    SameRound (p.flushSafePrefix markers makeEvent)
      ((withIds p ids).flushSafePrefix markers makeEvent) := by
  simp only [ChatOutputParser.flushSafePrefix]
  rw [show (withIds p ids).pending = p.pending from rfl]
  split
  · exact sameRound_withIds
  · exact sameRound_withIds

theorem parseReasoningBody_same (p : ChatOutputParser) (ids : Nat) :
    SameRound p.parseReasoningBody (withIds p ids).parseReasoningBody := by
  simp only [ChatOutputParser.parseReasoningBody]
  rw [show (withIds p ids).pending = p.pending from rfl]
  split
  · split <;> exact sameRound_withIds
  · exact flushSafePrefix_same p ids _ _

theorem parseReasoning_same (p : ChatOutputParser) (ids : Nat) :
    SameRound p.parseReasoning (withIds p ids).parseReasoning := by
  simp only [ChatOutputParser.parseReasoning]
  rw [show (withIds p ids).pending = p.pending from rfl,
    show (withIds p ids).gemmaChannelHeaderPending = p.gemmaChannelHeaderPending from rfl]
  split
  · exact sameRound_withIds
  · split
    · exact sameRound_withIds
    · split
      · split
        · exact sameRound_withIds
        · split
          · exact sameRound_withIds
          · exact parseReasoningBody_same { p with gemmaChannelHeaderPending := false } ids
      · exact parseReasoningBody_same p ids

theorem parseTextBody_same (p : ChatOutputParser) (ids : Nat) :
    SameRound p.parseTextBody (withIds p ids).parseTextBody := by
  simp only [ChatOutputParser.parseTextBody]
  rw [show (withIds p ids).pending = p.pending from rfl,
    show (withIds p ids).directMarkers = p.directMarkers from rfl,
    show (withIds p ids).textMarkers = p.textMarkers from rfl]
  split
  · split <;> exact sameRound_withIds
  · split
    · exact sameRound_withIds
    · split
      · exact sameRound_withIds
      · exact flushSafePrefix_same p ids _ _

theorem parseText_same (p : ChatOutputParser) (ids : Nat) :
    SameRound p.parseText (withIds p ids).parseText := by
  simp only [ChatOutputParser.parseText]
  rw [show (withIds p ids).pending = p.pending from rfl,
    show (withIds p ids).trimAfterThinking = p.trimAfterThinking from rfl,
    show (withIds p ids).trimAfterToolCall = p.trimAfterToolCall from rfl]
  split
  · split
    · exact sameRound_withIds
    · exact parseTextBody_same { p with
        pending := trimStartMatches isNewline p.pending
        trimAfterThinking := false
        trimAfterToolCall := false } ids
  · exact parseTextBody_same p ids

theorem emitToolCalls_same (functions : List ChatFunctionCall) (ids ids' : Nat) :
    Agree exhausted (fun x y => SameEvents x.1 y.1) (emitToolCalls functions ids)
      (emitToolCalls functions ids') := by
  induction functions generalizing ids ids' with
  | nil => exact .ok rfl
  | cons function rest ih =>
    unfold emitToolCalls nextToolCallId
    split
    · split
      · refine (ih (ids + 1) (ids' + 1)).bind fun {x y} hsame => .ok ?_
        exact SameEvents.cons rfl hsame
      · exact .right _
    · exact .left _

variable (fromStr : Text → Except Text Value) {q : ChatOutputParser}

theorem parseToolCall_same (p : ChatOutputParser) (ids : Nat) :
    Agree exhausted SameRound (p.parseToolCall fromStr) ((withIds p ids).parseToolCall fromStr) := by
  simp only [ChatOutputParser.parseToolCall]
  rw [show (withIds p ids).toolCall = p.toolCall from rfl,
    show (withIds p ids).pending = p.pending from rfl,
    show (withIds p ids).toolCallProtocol = p.toolCallProtocol from rfl]
  split
  · exact .ok sameRound_withIds
  · rename_i index _
    rw [show (withIds p ids).parseFunctions fromStr ((p.toolCall ++ p.pending).take index) =
      p.parseFunctions fromStr ((p.toolCall ++ p.pending).take index) from rfl]
    cases p.parseFunctions fromStr ((p.toolCall ++ p.pending).take index) with
    | error e => exact .error e
    | ok functions =>
      refine (emitToolCalls_same functions p.nextToolCallId ids).bind fun {x y} hsame => .ok ?_
      exact ⟨⟨y.2, rfl⟩, hsame, rfl⟩

theorem parseDirectToolCall_same (p : ChatOutputParser) (ids : Nat) :
    Agree exhausted SameRound p.parseDirectToolCall (withIds p ids).parseDirectToolCall := by
  simp only [ChatOutputParser.parseDirectToolCall]
  rw [show (withIds p ids).toolCall = p.toolCall from rfl,
    show (withIds p ids).pending = p.pending from rfl,
    show (withIds p ids).activeDirectTool = p.activeDirectTool from rfl,
    show (withIds p ids).directTools = p.directTools from rfl]
  split
  · exact .ok sameRound_withIds
  · split
    · exact .ok sameRound_withIds
    · refine (emitToolCalls_same _ p.nextToolCallId ids).bind fun {x y} hsame => .ok ?_
      exact ⟨⟨y.2, rfl⟩, hsame, rfl⟩

theorem step_same (h : SameParser p q) :
    Agree exhausted SameRound (p.step fromStr) (q.step fromStr) := by
  obtain ⟨ids, rfl⟩ := h
  simp only [ChatOutputParser.step]
  rw [show (withIds p ids).mode = p.mode from rfl]
  cases p.mode with
  | reasoning => exact .ok (parseReasoning_same p ids)
  | text => exact .ok (parseText_same p ids)
  | toolCall => exact parseToolCall_same fromStr p ids
  | directToolCall => exact parseDirectToolCall_same p ids

/-- What agreeing pushes have in common. -/
def SamePush (x y : ChatOutputParser × List ChatOutputEvent) : Prop :=
  SameParser x.1 y.1 ∧ SameEvents x.2 y.2

theorem parser_pushText_same (h : SameParser p q) (t : Text) :
    Agree exhausted SamePush (p.pushText fromStr t) (q.pushText fromStr t) := by
  obtain ⟨ids, rfl⟩ := h
  simp only [ChatOutputParser.pushText]
  rw [show (withIds p ids).finished = p.finished from rfl]
  split
  · exact .error _
  · apply Drain.Machine.drain_agree
    · exact SameEvents.append
    · exact fun h => step_same fromStr h
    · exact ⟨ids, rfl⟩

theorem parser_finish_same (h : SameParser p q) (truncated : Bool) :
    Agree exhausted SamePush (p.finishWithTruncation truncated)
      (q.finishWithTruncation truncated) := by
  obtain ⟨ids, rfl⟩ := h
  simp only [ChatOutputParser.finishWithTruncation]
  rw [show (withIds p ids).finished = p.finished from rfl,
    show (withIds p ids).mode = p.mode from rfl,
    show (withIds p ids).pending = p.pending from rfl,
    show (withIds p ids).toolCallProtocol = p.toolCallProtocol from rfl]
  split
  · exact .ok ⟨⟨ids, rfl⟩, rfl⟩
  · cases p.mode with
    | reasoning => exact .ok ⟨⟨ids, rfl⟩, rfl⟩
    | text => exact .ok ⟨⟨ids, rfl⟩, rfl⟩
    | toolCall =>
      cases truncated with
      | true => exact .ok ⟨⟨ids, rfl⟩, rfl⟩
      | false => exact .error _
    | directToolCall =>
      cases truncated with
      | true => exact .ok ⟨⟨ids, rfl⟩, rfl⟩
      | false => exact .error _

/-! ## The codec -/

variable {δ : Type} (tokenizer : Tokenizer δ) (codec : ChatOutputCodec δ)

/-- The codec, drawing from another value of the counter. -/
def codecWithIds (ids : Nat) : ChatOutputCodec δ :=
  { codec with parser := withIds codec.parser ids }

/-- Codecs that differ in the counter only, with the same events. -/
def SameDecoded (x y : ChatOutputCodec δ × List ChatOutputEvent) : Prop :=
  (∃ ids, y.1 = codecWithIds x.1 ids) ∧ SameEvents x.2 y.2

theorem sameDecoded_withIds {codec : ChatOutputCodec δ} {ids : Nat}
    {events : List ChatOutputEvent} :
    SameDecoded (codec, events) (codecWithIds codec ids, events) := ⟨⟨ids, rfl⟩, rfl⟩

theorem pushText_same (ids : Nat) (t : Text) :
    Agree exhausted SameDecoded (codec.pushText fromStr t)
      ((codecWithIds codec ids).pushText fromStr t) := by
  have hparser : SameParser codec.parser (withIds codec.parser ids) := ⟨ids, rfl⟩
  refine (parser_pushText_same fromStr hparser t).bind fun {x y} hsame => .ok ?_
  obtain ⟨⟨ids', hids⟩, hevents⟩ := hsame
  refine ⟨⟨ids', ?_⟩, hevents⟩
  simp [codecWithIds, hids]

variable (ids token : Nat)

theorem pushDecoded_same :
    Agree exhausted SameDecoded (codec.pushDecoded fromStr tokenizer token)
      ((codecWithIds codec ids).pushDecoded fromStr tokenizer token) := by
  simp only [ChatOutputCodec.pushDecoded]
  rw [show (codecWithIds codec ids).decodeStream = codec.decodeStream from rfl,
    show (codecWithIds codec ids).museHeader = codec.museHeader from rfl]
  split
  · exact .error _
  · exact .ok sameDecoded_withIds
  · rename_i text decodeStream _
    split
    · exact .ok sameDecoded_withIds
    · exact pushText_same fromStr { codec with decodeStream := decodeStream } ids text

theorem pushGemma_same :
    Agree exhausted SameDecoded (codec.pushGemma fromStr tokenizer token)
      ((codecWithIds codec ids).pushGemma fromStr tokenizer token) := by
  simp only [ChatOutputCodec.pushGemma]
  rw [show (codecWithIds codec ids).gemmaSpecialTokens = codec.gemmaSpecialTokens from rfl]
  split
  · exact pushText_same fromStr codec ids _
  · exact pushDecoded_same fromStr tokenizer codec ids token

theorem beginMuseSegment_same (p : ChatOutputParser) (ids : Nat) (header : Text) :
    Agree exhausted SameParser (p.beginMuseSegment header)
      ((withIds p ids).beginMuseSegment header) := by
  simp only [ChatOutputParser.beginMuseSegment]
  cases okOr ((((stripPrefix "assistant" (trim header)).map trim).bind
      (stripPrefix "to=")).map trim) ⟨"Muse Glimmer output",
        ["invalid recipient header ", .debug (trim header)]⟩ with
  | error e => exact .error e
  | ok recipient =>
    by_cases hempty : recipient.isEmpty
    · simp only [bind, Except.bind, hempty, if_true]
      exact .error _
    · simp only [bind, Except.bind, hempty]
      exact .ok ⟨ids, rfl⟩

theorem endMuseSegment_same (p : ChatOutputParser) (ids : Nat) :
    Agree exhausted SamePush p.endMuseSegment (withIds p ids).endMuseSegment := by
  simp only [ChatOutputParser.endMuseSegment]
  rw [show (withIds p ids).mode = p.mode from rfl,
    show (withIds p ids).pending = p.pending from rfl,
    show (withIds p ids).toolCallProtocol = p.toolCallProtocol from rfl]
  cases p.mode with
  | reasoning => exact .ok ⟨⟨ids, rfl⟩, rfl⟩
  | text => exact .ok ⟨⟨ids, rfl⟩, rfl⟩
  | toolCall => exact .error _
  | directToolCall => exact .error _

theorem pushMuse_same :
    Agree exhausted SameDecoded (codec.pushMuse fromStr tokenizer token)
      ((codecWithIds codec ids).pushMuse fromStr tokenizer token) := by
  simp only [ChatOutputCodec.pushMuse]
  rw [show (codecWithIds codec ids).museSpecialTokens = codec.museSpecialTokens from rfl,
    show (codecWithIds codec ids).museHeader = codec.museHeader from rfl,
    show (codecWithIds codec ids).parser = withIds codec.parser ids from rfl]
  split
  · exact pushGemma_same fromStr tokenizer codec ids token
  · split
    · exact .ok sameDecoded_withIds
    · split
      · cases okOr codec.museHeader ⟨"Muse Glimmer output",
            ["message marker appeared outside a recipient header"]⟩ with
        | error e => exact .error e
        | ok header =>
          refine (beginMuseSegment_same codec.parser ids header).bind fun {x y} hsame => .ok ?_
          obtain ⟨ids', rfl⟩ := hsame
          exact ⟨⟨ids', rfl⟩, rfl⟩
      · split
        · refine (endMuseSegment_same codec.parser ids).bind fun {x y} hsame => .ok ?_
          obtain ⟨⟨ids', hids⟩, hevents⟩ := hsame
          refine ⟨⟨ids', ?_⟩, hevents⟩
          simp [codecWithIds, hids]
        · exact pushGemma_same fromStr tokenizer codec ids token

theorem pushToken_same :
    Agree exhausted SameDecoded (codec.pushToken fromStr tokenizer token)
      ((codecWithIds codec ids).pushToken fromStr tokenizer token) := by
  simp only [ChatOutputCodec.pushToken]
  rw [show (codecWithIds codec ids).finished = codec.finished from rfl,
    show (codecWithIds codec ids).protocolSpecialTokens = codec.protocolSpecialTokens from rfl]
  split
  · exact .error _
  · split
    · exact pushText_same fromStr codec ids _
    · exact pushMuse_same fromStr tokenizer codec ids token

theorem finish_same (ids : Nat) (truncated : Bool) :
    Agree exhausted SameDecoded (codec.finishWithTruncation truncated)
      ((codecWithIds codec ids).finishWithTruncation truncated) := by
  simp only [ChatOutputCodec.finishWithTruncation]
  rw [show (codecWithIds codec ids).finished = codec.finished from rfl,
    show (codecWithIds codec ids).parser = withIds codec.parser ids from rfl]
  split
  · exact .ok sameDecoded_withIds
  · have hparser : SameParser codec.parser (withIds codec.parser ids) := ⟨ids, rfl⟩
    refine (parser_finish_same hparser truncated).bind fun {x y} hsame => .ok ?_
    obtain ⟨⟨ids', hids⟩, hevents⟩ := hsame
    refine ⟨⟨ids', ?_⟩, hevents⟩
    simp [codecWithIds, hids]

/-- A fresh codec depends on the counter by its value only. -/
theorem new_withIds (tools : List ChatTool) (startsInReasoning : Bool) (ids ids' : Nat) :
    ChatOutputCodec.new tokenizer tools startsInReasoning ids' =
      (ChatOutputCodec.new tokenizer tools startsInReasoning ids).map fun codec =>
        codecWithIds codec ids' := by
  simp only [ChatOutputCodec.new, ChatOutputParser.new]
  cases collectTools tools BTreeMap.empty BTreeMap.empty [] with
  | error e => rfl
  | ok maps => rfl

/-! ## Filter and request -/

theorem apply_same (f : ResponseFilter) (h : SameEvents es fs) :
    (f.apply es).1 = (f.apply fs).1 ∧ SameEvents (f.apply es).2.1 (f.apply fs).2.1 ∧
      (f.apply es).2.2 = (f.apply fs).2.2 := by
  induction es generalizing f fs with
  | nil =>
    have hnil : fs = [] := by simpa [SameEvents] using h.symm
    subst hnil
    exact ⟨rfl, rfl, rfl⟩
  | cons e es ih =>
    cases fs with
    | nil => simp [SameEvents] at h
    | cons e' fs =>
      obtain ⟨hhead, htail⟩ := List.cons.inj h
      cases e with
      | reasoning t =>
        cases e' with
        | reasoning t' =>
          obtain ⟨hfilter, hevents, hreason⟩ := ih f htail
          have ht : t = t' := by simpa [anonymous] using hhead
          subst ht
          simp only [ResponseFilter.apply]
          refine ⟨hfilter, ?_, hreason⟩
          split
          · exact hevents
          · exact SameEvents.cons rfl hevents
        | text t' => simp [anonymous] at hhead
        | toolCall call' => simp [anonymous] at hhead
      | text t =>
        cases e' with
        | reasoning t' => simp [anonymous] at hhead
        | text t' =>
          have ht : t = t' := by simpa [anonymous] using hhead
          subst ht
          simp only [ResponseFilter.apply]
          split
          · exact ih f htail
          · split
            · exact ⟨rfl, rfl, rfl⟩
            · obtain ⟨hfilter, hevents, hreason⟩ := ih { f with stop := (f.stop.push t).1 } htail
              exact ⟨hfilter, SameEvents.append rfl hevents, hreason⟩
        | toolCall call' => simp [anonymous] at hhead
      | toolCall call =>
        cases e' with
        | reasoning t' => simp [anonymous] at hhead
        | text t' => simp [anonymous] at hhead
        | toolCall call' =>
          refine ⟨rfl, ?_, rfl⟩
          exact SameEvents.append rfl (congrArg (· :: []) hhead)

/-- Requests that differ in the counter only. -/
def SameRequest (a b : ActiveChatRequest δ) : Prop := ∃ ids, b = a.withIds ids

theorem SameRequest.refl (a : ActiveChatRequest δ) : SameRequest a a := ⟨a.ids, rfl⟩

variable {a b : ActiveChatRequest δ}

section
variable (h : SameRequest a b)
include h

theorem SameRequest.symm : SameRequest b a := by
  obtain ⟨ids, rfl⟩ := h
  exact ⟨a.ids, rfl⟩

theorem SameRequest.trans {c : ActiveChatRequest δ} (h' : SameRequest b c) : SameRequest a c := by
  obtain ⟨ids, rfl⟩ := h
  obtain ⟨ids', rfl⟩ := h'
  exact ⟨ids', rfl⟩

omit h in
theorem sameRequest_withIds (a : ActiveChatRequest δ) (ids : Nat) :
    SameRequest a (a.withIds ids) := ⟨ids, rfl⟩

/-- What agreeing services of a request have in common. -/
def SameServed {ρ : Type} (x y : ActiveChatRequest δ × List ChatOutputEvent × ρ) : Prop :=
  SameRequest x.1 y.1 ∧ SameEvents x.2.1 y.2.1 ∧ x.2.2 = y.2.2

theorem serve_same (token : ScheduledToken) :
    Agree exhausted SameServed (a.serve fromStr tokenizer token)
      (b.serve fromStr tokenizer token) := by
  obtain ⟨ids, rfl⟩ := h
  refine (pushToken_same fromStr tokenizer a.output ids token.id).bind fun {x y} hsame => .ok ?_
  obtain ⟨⟨ids', hids⟩, hevents⟩ := hsame
  obtain ⟨hfilter, hout, hreason⟩ := apply_same a.filter hevents
  refine ⟨⟨ids', ?_⟩, hout, congrArg (· <|> _) hreason⟩
  simp only [ActiveChatRequest.withIds, hids, codecWithIds, withIds, ← hfilter]
  rfl

theorem finishOutput_same (reason : ChatFinishReason) :
    Agree exhausted SameServed (a.finishOutput reason) (b.finishOutput reason) := by
  obtain ⟨ids, rfl⟩ := h
  refine (finish_same a.output ids (reason == .length)).bind fun {x y} hsame => ?_
  obtain ⟨⟨ids', hids⟩, hevents⟩ := hsame
  obtain ⟨hfilter, hout, hreason⟩ := apply_same a.filter hevents
  simp only [show (a.withIds ids).filter = a.filter from rfl,
    show (a.withIds ids).usage = a.usage from rfl, ← hfilter, ← hreason]
  have hended : ∀ filter : ResponseFilter,
      SameRequest ⟨x.1, filter, a.usage⟩ ⟨y.1, filter, a.usage⟩ := fun filter =>
    ⟨ids', by simp [ActiveChatRequest.withIds, hids, codecWithIds, withIds]⟩
  split
  · exact .ok ⟨hended _, hout, rfl⟩
  · split
    · exact .ok ⟨hended _, hout, rfl⟩
    · exact .ok ⟨hended _, hout.append rfl, rfl⟩

theorem conclude_same (reason : ChatFinishReason) :
    Agree exhausted SameServed (a.conclude reason) (b.conclude reason) := by
  cases reason with
  | stop sequence => exact .ok ⟨h, rfl, rfl⟩
  | eos => exact finishOutput_same h .eos
  | length => exact finishOutput_same h .length
  | toolCalls => exact finishOutput_same h .toolCalls

end

end Eider.Guarantees.CallIds
