import Eider.Guarantees.ChatOutputChunks
import Eider.Source.ChatCodec

/-!
# The messages of a Muse stream

A Muse stream is a list of messages, each with a recipient header in front. The codec reads
them all with one parser, which it turns to the channel of every new message. The module
compares that parser with a fresh one for each message.

An end marker empties the parser. The start marker of the next message does not, and neither
marker makes the parser forget that it waits for the header of a Gemma channel. A message in
front of another one is read alone if and only if it leaves neither behind.
-/
namespace Eider.Guarantees.MuseSegments
open Source Lib Lib.Search Lib.Drain List Option
open Source.ChatOutputParser
open Guarantees.ChatOutputChunks (pushChunks step_of_reasoning step_of_text step_of_toolCall
  step_of_directToolCall)

/-! ## The protocol of the last tool call -/

/-- The parser with another protocol. -/
def withProtocol (protocol : ToolCallProtocol) (p : ChatOutputParser) : ChatOutputParser :=
  { p with toolCallProtocol := protocol }

/-- What the parser reads by: outside of a tool call, the protocol of the last one is over. -/
def reading (p : ChatOutputParser) : ChatOutputParser :=
  if p.mode = .toolCall then p else withProtocol .standard p

section
variable {p q : ChatOutputParser} {protocol : ToolCallProtocol}

theorem reading_withProtocol (h : p.mode ≠ .toolCall) :
    reading (withProtocol protocol p) = reading p := by
  simp only [reading, withProtocol, h, if_false]

theorem reading_mode (p : ChatOutputParser) : (reading p).mode = p.mode := by
  unfold reading
  split
  · rfl
  · rfl

/-- Two parsers that read alike differ in the protocol of a tool call that is over. -/
theorem reading_eq_iff : reading p = reading q ↔
    q = withProtocol q.toolCallProtocol p ∧
      (p.mode = .toolCall → q.toolCallProtocol = p.toolCallProtocol) := by
  constructor
  · intro h
    have hmode : p.mode = q.mode := by rw [← reading_mode p, ← reading_mode q, h]
    by_cases hcall : p.mode = .toolCall
    · rw [reading, if_pos hcall, reading, if_pos (hmode ▸ hcall)] at h
      subst h
      exact ⟨rfl, fun _ => rfl⟩
    · rw [reading, if_neg hcall, reading, if_neg (hmode ▸ hcall)] at h
      refine ⟨?_, fun h => absurd h hcall⟩
      cases p
      cases q
      simp only [withProtocol, ChatOutputParser.mk.injEq] at h ⊢
      simp only [h, and_self]
  · rintro ⟨hq, hprotocol⟩
    by_cases hcall : p.mode = .toolCall
    · rw [hq, hprotocol hcall]
      rfl
    · rw [hq, reading_withProtocol hcall]

theorem flushSafePrefix_protocol (markers : List Text) (makeEvent : Text → ChatOutputEvent) :
    (withProtocol protocol p).flushSafePrefix markers makeEvent =
      Prod.map (withProtocol protocol) id (p.flushSafePrefix markers makeEvent) := by
  by_cases hheld : p.pending.length - held markers p.pending = 0
  · simp only [flushSafePrefix, withProtocol, hheld, if_true, Prod.map_apply, id_eq]
  · simp only [flushSafePrefix, withProtocol, hheld, if_false, Prod.map_apply, id_eq]

theorem parseReasoningBody_protocol : (withProtocol protocol p).parseReasoningBody =
    Prod.map (withProtocol protocol) id p.parseReasoningBody := by
  unfold parseReasoningBody
  rw [show (withProtocol protocol p).pending = p.pending from rfl]
  cases earliest reasoningMarkers p.pending with
  | none => exact flushSafePrefix_protocol _ _
  | some found =>
    obtain ⟨index, marker, opensChannel⟩ := found
    cases opensChannel
    · rfl
    · rfl

theorem parseReasoning_protocol : (withProtocol protocol p).parseReasoning =
    Prod.map (withProtocol protocol) id p.parseReasoning := by
  unfold parseReasoning
  simp only [show (withProtocol protocol p).pending = p.pending from rfl,
    show (withProtocol protocol p).gemmaChannelHeaderPending = p.gemmaChannelHeaderPending from rfl]
  split
  · rfl
  · split
    · rfl
    · split
      · split
        · rfl
        · split
          · rfl
          · exact parseReasoningBody_protocol (p := { p with gemmaChannelHeaderPending := false })
      · exact parseReasoningBody_protocol

theorem parseTextBody_reading (h : p.mode ≠ .toolCall) :
    Prod.map reading id (withProtocol protocol p).parseTextBody =
      Prod.map reading id p.parseTextBody := by
  unfold parseTextBody
  simp only [show (withProtocol protocol p).pending = p.pending from rfl,
    show (withProtocol protocol p).directMarkers = p.directMarkers from rfl]
  split
  · split
    · rfl
    · simp only [Prod.map_apply, reading, withProtocol, h, if_false]
  · split
    · rfl
    · split
      · rfl
      · change Prod.map reading id ((withProtocol protocol p).flushSafePrefix p.textMarkers .text) = _
        rw [flushSafePrefix_protocol]
        by_cases hheld : p.pending.length - held p.textMarkers p.pending = 0
        · simp only [flushSafePrefix, hheld, if_true, Prod.map_apply, reading_withProtocol h, id_eq]
        · simp only [flushSafePrefix, hheld, if_false, Prod.map_apply, reading, withProtocol, h, id_eq]

theorem parseText_reading (h : p.mode ≠ .toolCall) :
    Prod.map reading id (withProtocol protocol p).parseText =
      Prod.map reading id p.parseText := by
  unfold parseText
  simp only [show (withProtocol protocol p).pending = p.pending from rfl,
    show (withProtocol protocol p).trimAfterThinking = p.trimAfterThinking from rfl,
    show (withProtocol protocol p).trimAfterToolCall = p.trimAfterToolCall from rfl]
  split
  · split
    · simp only [Prod.map_apply, reading, withProtocol, h, if_false]
    · exact parseTextBody_reading (p := { p with
        pending := trimStartMatches isNewline p.pending
        trimAfterThinking := false
        trimAfterToolCall := false }) (by exact h)
  · exact parseTextBody_reading h

theorem parseDirectToolCall_reading (h : p.mode = .directToolCall) :
    (withProtocol protocol p).parseDirectToolCall.map (Prod.map reading id) =
      p.parseDirectToolCall.map (Prod.map reading id) := by
  have hmode : p.mode ≠ .toolCall := by
    rw [h]
    decide
  unfold parseDirectToolCall
  simp only [show (withProtocol protocol p).pending = p.pending from rfl,
    show (withProtocol protocol p).toolCall = p.toolCall from rfl,
    show (withProtocol protocol p).activeDirectTool = p.activeDirectTool from rfl,
    show (withProtocol protocol p).directTools = p.directTools from rfl,
    show (withProtocol protocol p).nextToolCallId = p.nextToolCallId from rfl]
  split
  · simp only [Except.map, Prod.map_apply, reading, withProtocol, hmode, if_false]
  · split
    · simp only [Except.map, Prod.map_apply, reading, withProtocol, hmode, if_false]
    · rename_i definition _ _ index _
      cases emitToolCalls [⟨definition.name, _⟩] p.nextToolCallId with
      | error e => rfl
      | ok r => rfl

end

/-! ## A parser between two tool calls -/

/-- The parser takes text or reasoning. -/
def Outside (p : ChatOutputParser) : Prop := p.mode = .text ∨ p.mode = .reasoning

/-- A parser for the tools: outside of a tool call it holds nothing of one. -/
structure Kept (tools : List ChatTool) (p : ChatOutputParser) : Prop where
  tables : collectTools tools .empty .empty [] =
    .ok (p.stringArguments, p.toolParameters, p.directTools)
  unfinished : p.finished = false
  outside : Outside p → p.toolCall = []
  direct : p.mode ≠ .directToolCall → p.activeDirectTool = none

section
variable {tools : List ChatTool} {p q : ChatOutputParser}

theorem Outside.not_toolCall (h : Outside p) : p.mode ≠ .toolCall := by
  rcases h with h | h
  · simp [h]
  · simp [h]

theorem Outside.not_directToolCall (h : Outside p) : p.mode ≠ .directToolCall := by
  rcases h with h | h
  · simp [h]
  · simp [h]

theorem flushSafePrefix_kept (h : Kept tools p) (markers : List Text)
    (makeEvent : Text → ChatOutputEvent) : Kept tools (p.flushSafePrefix markers makeEvent).1 := by
  unfold flushSafePrefix
  dsimp only
  split
  · exact h
  · exact { h with }

theorem flushSafePrefix_mode (markers : List Text) (makeEvent : Text → ChatOutputEvent) :
    (p.flushSafePrefix markers makeEvent).1.mode = p.mode := by
  unfold flushSafePrefix
  dsimp only
  split
  · rfl
  · rfl

/-- A round in reasoning stays there or goes over to text. -/
theorem parseReasoningBody_outside (hmode : p.mode = .reasoning) :
    Outside p.parseReasoningBody.1 := by
  unfold parseReasoningBody
  split
  · split
    · exact .inr hmode
    · exact .inl rfl
  · refine .inr ?_
    rw [flushSafePrefix_mode, hmode]

theorem parseReasoning_outside (hmode : p.mode = .reasoning) : Outside p.parseReasoning.1 := by
  unfold parseReasoning
  split
  · exact .inr hmode
  · split
    · exact .inr hmode
    · split
      · split
        · exact .inr hmode
        · split
          · exact .inr hmode
          · exact parseReasoningBody_outside (by exact hmode)
      · exact parseReasoningBody_outside hmode

theorem parseReasoningBody_kept (h : Kept tools p) (hmode : p.mode = .reasoning) :
    Kept tools p.parseReasoningBody.1 := by
  have hout : Outside p := .inr hmode
  unfold parseReasoningBody
  split
  · split
    · exact { h with }
    · refine ⟨h.tables, h.unfinished, fun _ => h.outside hout, fun _ => ?_⟩
      exact h.direct hout.not_directToolCall
  · exact flushSafePrefix_kept h _ _

theorem parseReasoning_kept (h : Kept tools p) (hmode : p.mode = .reasoning) :
    Kept tools p.parseReasoning.1 := by
  have hsame : ∀ pending waits, Kept tools
      { p with pending := pending, gemmaChannelHeaderPending := waits } :=
    fun _ _ => { h with }
  unfold parseReasoning
  split
  · exact hsame _ _
  · split
    · exact h
    · split
      · split
        · exact hsame _ _
        · split
          · exact h
          · exact parseReasoningBody_kept (hsame _ _) hmode
      · exact parseReasoningBody_kept h hmode

theorem parseTextBody_kept (h : Kept tools p) (hmode : p.mode = .text) :
    Kept tools p.parseTextBody.1 := by
  have hout : Outside p := .inl hmode
  have hdirect := h.direct hout.not_directToolCall
  unfold parseTextBody
  dsimp only
  split
  · split
    · exact ⟨h.tables, h.unfinished, fun _ => h.outside hout, fun _ => hdirect⟩
    · exact { h with }
  · split
    · exact ⟨h.tables, h.unfinished, fun _ => h.outside hout, fun _ => hdirect⟩
    · split
      · exact ⟨h.tables, h.unfinished, fun _ => h.outside hout, fun hne => absurd rfl hne⟩
      · exact flushSafePrefix_kept h _ _

theorem parseText_kept (h : Kept tools p) (hmode : p.mode = .text) : Kept tools p.parseText.1 := by
  unfold parseText
  split
  · dsimp only
    split
    · exact { h with }
    · exact parseTextBody_kept (p := { p with
        pending := trimStartMatches isNewline p.pending
        trimAfterThinking := false
        trimAfterToolCall := false }) { h with } hmode
  · exact parseTextBody_kept h hmode

variable {fromStr : Text → Except Text Value} {out : List ChatOutputEvent} {b : Bool}

theorem parseToolCall_kept (h : Kept tools p) (hmode : p.mode = .toolCall)
    (hstep : p.parseToolCall fromStr = .ok (q, out, b)) : Kept tools q := by
  have hdirect := h.direct (by simp [hmode])
  rw [parseToolCall] at hstep
  split at hstep
  · cases hstep
    refine ⟨h.tables, h.unfinished, ?_, h.direct⟩
    intro hout
    exact absurd hmode hout.not_toolCall
  · obtain ⟨functions, -, hstep⟩ := bind_ok hstep
    obtain ⟨⟨events, ids⟩, -, hstep⟩ := bind_ok hstep
    cases hstep
    exact ⟨h.tables, h.unfinished, fun _ => rfl, fun _ => hdirect⟩

theorem parseDirectToolCall_kept (h : Kept tools p) (hmode : p.mode = .directToolCall)
    (hstep : p.parseDirectToolCall = .ok (q, out, b)) : Kept tools q := by
  have hopen : Kept tools { p with toolCall := p.toolCall ++ p.pending, pending := [] } := by
    refine ⟨h.tables, h.unfinished, ?_, h.direct⟩
    intro hout
    exact absurd hmode hout.not_directToolCall
  rw [parseDirectToolCall] at hstep
  split at hstep
  · cases hstep
    exact hopen
  · split at hstep
    · cases hstep
      exact hopen
    · obtain ⟨⟨events, ids⟩, -, hstep⟩ := bind_ok hstep
      cases hstep
      exact ⟨h.tables, h.unfinished, fun _ => rfl, fun _ => rfl⟩

theorem step_kept (h : Kept tools p) (hstep : p.step fromStr = .ok (q, out, b)) : Kept tools q := by
  cases hmode : p.mode with
  | reasoning =>
    rw [step_of_reasoning hmode] at hstep
    obtain rfl : p.parseReasoning.1 = q := by rw [Except.ok.inj hstep]
    exact parseReasoning_kept h hmode
  | text =>
    rw [step_of_text hmode] at hstep
    obtain rfl : p.parseText.1 = q := by rw [Except.ok.inj hstep]
    exact parseText_kept h hmode
  | toolCall =>
    rw [step_of_toolCall hmode] at hstep
    exact parseToolCall_kept h hmode hstep
  | directToolCall =>
    rw [step_of_directToolCall hmode] at hstep
    exact parseDirectToolCall_kept h hmode hstep

theorem pushText_kept (h : Kept tools p) {text : Text}
    (hpush : p.pushText fromStr text = .ok (q, out)) : Kept tools q := by
  rw [pushText, if_neg (by simp [h.unfinished])] at hpush
  have hfed : Kept tools (p.feed text) := { h with }
  exact Machine.drain_inv (machine fromStr) step_kept hfed hpush

/-- A round does not see the protocol of a tool call that is over. -/
theorem step_reading (hread : reading p = reading q) :
    (p.step fromStr).map (Prod.map reading id) = (q.step fromStr).map (Prod.map reading id) := by
  obtain ⟨hq, hprotocol⟩ := reading_eq_iff.mp hread
  generalize q.toolCallProtocol = protocol at hq hprotocol
  subst hq
  cases hmode : p.mode with
  | reasoning =>
    have hcall := (parseReasoning_outside hmode).not_toolCall
    rw [step_of_reasoning hmode, step_of_reasoning (by exact hmode), parseReasoning_protocol]
    exact congrArg Except.ok (Prod.ext (reading_withProtocol hcall).symm rfl)
  | text =>
    have hcall : p.mode ≠ .toolCall := by simp [hmode]
    rw [step_of_text hmode, step_of_text (by exact hmode)]
    exact congrArg Except.ok (parseText_reading hcall).symm
  | toolCall =>
    rw [hprotocol hmode]
    rfl
  | directToolCall =>
    rw [step_of_directToolCall hmode, step_of_directToolCall (by exact hmode)]
    exact (parseDirectToolCall_reading hmode).symm

theorem pushText_reading (hread : reading p = reading q) (text : Text) :
    (p.pushText fromStr text).map (Prod.map reading id) =
      (q.pushText fromStr text).map (Prod.map reading id) := by
  obtain ⟨hq, hprotocol⟩ := reading_eq_iff.mp hread
  have hfinished : q.finished = p.finished := by
    rw [hq]
    rfl
  have hfeed : reading (p.feed text) = reading (q.feed text) := by
    refine reading_eq_iff.mpr ⟨?_, hprotocol⟩
    rw [hq]
    rfl
  rw [pushText, pushText, hfinished]
  split
  · rfl
  · exact (machine fromStr).drain_reading step_reading hfeed

theorem Kept.of_reading (h : Kept tools p) (hread : reading p = reading q) : Kept tools q := by
  rw [(reading_eq_iff.mp hread).1]
  exact { h with }

/-- Finishing emits what is pending, or fails in a tool call. -/
theorem finish_reading (hread : reading p = reading q) :
    (p.finishWithTruncation false).map (Prod.map reading id) =
      (q.finishWithTruncation false).map (Prod.map reading id) := by
  obtain ⟨hq, hprotocol⟩ := reading_eq_iff.mp hread
  generalize q.toolCallProtocol = protocol at hq hprotocol
  subst hq
  simp only [finishWithTruncation, show (withProtocol protocol p).finished = p.finished from rfl,
    show (withProtocol protocol p).mode = p.mode from rfl,
    show (withProtocol protocol p).pending = p.pending from rfl]
  split
  · exact congrArg Except.ok (Prod.ext hread rfl)
  · split
    · rename_i hmode
      simp only [Except.map, Prod.map_apply, reading, withProtocol, hmode, reduceCtorEq, if_false]
    · rename_i hmode
      simp only [Except.map, Prod.map_apply, reading, withProtocol, hmode, reduceCtorEq, if_false]
    · rename_i hmode
      rw [hprotocol hmode]
      rfl
    · rfl

end

/-! ## Messages -/

/-- The recipient in a header. -/
def recipient (header : Text) : Option Text :=
  (((stripPrefix "assistant" (trim header)).map trim).bind (stripPrefix "to=")).map trim

/-- The message is for the model itself. -/
def toSelf (header : Text) : Bool := recipient header == some "self".toList

/-- A message: its header, the pieces of its body, and whether an end marker came before the
next message. -/
structure Message where
  header : Text
  pieces : List Text
  ended : Bool

/-- A token of a Muse stream: one of the markers, `close` for both ends, or a piece of text. -/
inductive Symbol where
  | start
  | message
  | close
  | piece (text : Text)

/-- Where a stream stands: in a header, in the body of a message, or behind a body that the
start marker of the next header broke off. -/
inductive Place where
  | header (header : Text)
  | body (header : Text) (pieces : List Text)
  | behind (header : Text) (pieces : List Text) (next : Text)

/-- The messages of a stream from a place on. A second message marker in one body is an
error of the stream. -/
def messages : Place → List Symbol → List Message
  | .header _, [] => []
  | .header _, .start :: rest => messages (.header []) rest
  | .header header, .message :: rest => messages (.body header []) rest
  | .header _, .close :: rest => messages (.header []) rest
  | .header header, .piece text :: rest => messages (.header (header ++ text)) rest
  | .body header pieces, [] => [⟨header, pieces, false⟩]
  | .body header pieces, .start :: rest => messages (.behind header pieces []) rest
  | .body header pieces, .message :: rest => messages (.body header pieces) rest
  | .body header pieces, .close :: rest => ⟨header, pieces, true⟩ :: messages (.header []) rest
  | .body header pieces, .piece text :: rest => messages (.body header (pieces ++ [text])) rest
  | .behind header pieces _, [] => [⟨header, pieces, false⟩]
  | .behind header pieces _, .start :: rest => messages (.behind header pieces []) rest
  | .behind header pieces next, .message :: rest =>
    ⟨header, pieces, false⟩ :: messages (.body next []) rest
  | .behind header pieces _, .close :: rest => ⟨header, pieces, true⟩ :: messages (.header []) rest
  | .behind header pieces next, .piece text :: rest =>
    messages (.behind header pieces (next ++ text)) rest

section
variable (fromStr : Text → Except Text Value) (tools : List ChatTool)

/-- A fresh parser reads the body of a message. -/
def readMessage (ids : Nat) (m : Message) : Except Error
    (ChatOutputParser × List ChatOutputEvent) := do
  let p ← ChatOutputParser.new tools (toSelf m.header) ids
  pushChunks fromStr p m.pieces

/-- What fresh parsers emit for the messages, one after the other. The identities of tool calls
go on from one to the next. -/
def transcript : Nat → List Message → Except Error (List ChatOutputEvent)
  | _, [] => .ok []
  | ids, m :: rest => do
    let (p, events) ← readMessage fromStr tools ids m
    let (q, last) ← p.finishWithTruncation false
    let more ← transcript q.nextToolCallId rest
    return events ++ last ++ more

/-- Every message that another one follows leaves its fresh parser in `P`. -/
def BeforeOthers (P : ChatOutputParser → Message → Prop) : Nat → List Message → Prop
  | ids, m :: next :: rest => ∀ p events, readMessage fromStr tools ids m = .ok (p, events) →
      P p m ∧ BeforeOthers P p.nextToolCallId (next :: rest)
  | _, _ => True

/-- The parser does not wait for the header of a Gemma channel, and unless an end marker follows
it holds no text back and is not in a tool call. -/
def Clean (p : ChatOutputParser) (m : Message) : Prop :=
  p.gemmaChannelHeaderPending = false ∧ (m.ended = false → p.pending = [] ∧ Outside p)

/-- A parser of the tools that has read nothing, but for the protocol of a tool call that is
over. -/
def Fresh (p : ChatOutputParser) : Prop :=
  ∃ startsInReasoning q, ChatOutputParser.new tools startsInReasoning p.nextToolCallId = .ok q ∧
    p = withProtocol p.toolCallProtocol q

/-! ## The codec between its markers -/

/-- The part of a codec that a Muse stream works on. -/
structure Reader where
  header : Option Text
  parser : ChatOutputParser

/-- `push_token` of a symbol. -/
def Reader.push (s : Reader) : Symbol → Except Error (Reader × List ChatOutputEvent)
  | .start => .ok ({ s with header := some [] }, [])
  | .message => do
    let header ← okOr s.header
      ⟨"Muse Glimmer output", ["message marker appeared outside a recipient header"]⟩
    let parser ← s.parser.beginMuseSegment header
    return (⟨none, parser⟩, [])
  | .close => do
    let (parser, events) ← s.parser.endMuseSegment
    return (⟨some [], parser⟩, events)
  | .piece text =>
    match s.header with
    | some header => .ok ({ s with header := some (header ++ text) }, [])
    | none => do
      let (parser, events) ← s.parser.pushText fromStr text
      return ({ s with parser := parser }, events)

/-- The symbols of a stream, one after the other. -/
def Reader.pushAll (s : Reader) : List Symbol → Except Error (Reader × List ChatOutputEvent)
  | [] => .ok (s, [])
  | symbol :: rest => do
    let (t, events) ← s.push fromStr symbol
    let (u, more) ← t.pushAll rest
    return (u, events ++ more)

/-- Every message marker that the reader comes to leaves it a fresh parser. -/
def FreshAt (s : Reader) : List Symbol → Prop
  | [] => True
  | symbol :: rest => ∀ t events, s.push fromStr symbol = .ok (t, events) →
      (symbol = .message → Fresh tools t.parser) ∧ FreshAt t rest

/-- What a reader has of the messages: it stands between two of them with nothing pending, or
its parser reads like the fresh one of the message. `ids` is the counter where that message
begins, `out` are its events so far. -/
inductive Reads : Place → Nat → Reader → List ChatOutputEvent → Prop where
  | header {h : Text} {p : ChatOutputParser} (kept : Kept tools p) (outside : Outside p)
      (pending : p.pending = []) : Reads (.header h) p.nextToolCallId ⟨some h, p⟩ []
  | body {h : Text} {pieces : List Text} {ids : Nat} {p q : ChatOutputParser}
      {out : List ChatOutputEvent}
      (read : ∀ ended, readMessage fromStr tools ids ⟨h, pieces, ended⟩ = .ok (q, out))
      (alike : reading p = reading q) : Reads (.body h pieces) ids ⟨none, p⟩ out
  | behind {h next : Text} {pieces : List Text} {ids : Nat} {p q : ChatOutputParser}
      {out : List ChatOutputEvent}
      (read : ∀ ended, readMessage fromStr tools ids ⟨h, pieces, ended⟩ = .ok (q, out))
      (alike : reading p = reading q) : Reads (.behind h pieces next) ids ⟨some next, p⟩ out

end

section
variable {fromStr : Text → Except Text Value} {tools : List ChatTool} {p q : ChatOutputParser}

theorem new_kept {startsInReasoning : Bool} {ids : Nat}
    (h : ChatOutputParser.new tools startsInReasoning ids = .ok p) : Kept tools p := by
  obtain ⟨⟨strings, parameters, direct⟩, htables, h⟩ := bind_ok h
  cases h
  exact ⟨htables, rfl, fun _ => rfl, fun _ => rfl⟩

variable {out : List ChatOutputEvent}

theorem pushChunks_kept (h : Kept tools p) {pieces : List Text}
    (hpush : pushChunks fromStr p pieces = .ok (q, out)) : Kept tools q := by
  induction pieces generalizing p out with
  | nil =>
    cases hpush
    exact h
  | cons piece rest ih =>
    obtain ⟨⟨r, events⟩, hpiece, hpush⟩ := bind_ok hpush
    obtain ⟨⟨t, more⟩, hrest, hpush⟩ := bind_ok hpush
    cases hpush
    exact ih (pushText_kept h hpiece) hrest

theorem pushChunks_snoc {r : ChatOutputParser} {pieces : List Text} {piece : Text}
    {out events : List ChatOutputEvent} (h : pushChunks fromStr p pieces = .ok (q, out))
    (hpiece : q.pushText fromStr piece = .ok (r, events)) :
    pushChunks fromStr p (pieces ++ [piece]) = .ok (r, out ++ events) := by
  induction pieces generalizing p out with
  | nil =>
    cases h
    simp only [nil_append, pushChunks, hpiece, bind, Except.bind, pure, Except.pure, append_nil]
  | cons first rest ih =>
    obtain ⟨⟨s, start⟩, hfirst, h⟩ := bind_ok h
    obtain ⟨⟨t, more⟩, hrest, h⟩ := bind_ok h
    cases h
    have hmore := ih hrest
    simp only [cons_append, pushChunks, hfirst, hmore, bind, Except.bind, pure, Except.pure,
      append_assoc]

theorem readMessage_kept {ids : Nat} {m : Message}
    (h : readMessage fromStr tools ids m = .ok (q, out)) : Kept tools q := by
  obtain ⟨p, hnew, hpush⟩ := bind_ok h
  exact pushChunks_kept (new_kept hnew) hpush

/-- What `begin_muse_segment` makes of a parser. -/
def begun (header : Text) (p : ChatOutputParser) : ChatOutputParser :=
  { p with
    mode := if toSelf header then .reasoning else .text
    trimAfterThinking := false
    trimAfterToolCall := false }

theorem begun_outside (header : Text) (p : ChatOutputParser) : Outside (begun header p) := by
  unfold Outside begun
  cases toSelf header
  · exact .inl rfl
  · exact .inr rfl

variable {header : Text} {ids : Nat}

theorem beginMuseSegment_eq_begun (h : p.beginMuseSegment header = .ok q) : q = begun header p := by
  rw [beginMuseSegment] at h
  dsimp only at h
  obtain ⟨name, hname, h⟩ := bind_ok h
  have hrecipient : recipient header = some name := by
    unfold recipient
    cases hfound : (((stripPrefix "assistant" (trim header)).map trim).bind
        (stripPrefix "to=")).map trim with
    | none =>
      rw [hfound] at hname
      cases hname
    | some found =>
      rw [hfound] at hname
      cases hname
      rfl
  split at h
  · cases h
  · cases h
    unfold begun toSelf
    rw [hrecipient]
    simp

/-- A parser is fresh behind a message marker if it held nothing in front of it. -/
theorem begun_fresh_iff (h : Kept tools p) (header : Text) : Fresh tools (begun header p) ↔
    (p.gemmaChannelHeaderPending = false ∧ p.pending = []) ∧
      p.toolCall = [] ∧ p.activeDirectTool = none := by
  constructor
  · rintro ⟨startsInReasoning, q, hnew, hfresh⟩
    obtain ⟨⟨strings, parameters, direct⟩, -, hnew⟩ := bind_ok hnew
    cases hnew
    exact ⟨⟨congrArg ChatOutputParser.gemmaChannelHeaderPending hfresh,
      congrArg ChatOutputParser.pending hfresh⟩, congrArg ChatOutputParser.toolCall hfresh,
      congrArg ChatOutputParser.activeDirectTool hfresh⟩
  · rintro ⟨⟨hheader, hpending⟩, hcall, hdirect⟩
    obtain ⟨tables, unfinished, -, -⟩ := h
    refine ⟨toSelf header, withProtocol .standard (begun header p), ?_, rfl⟩
    rw [ChatOutputParser.new, tables]
    obtain ⟨⟩ := p
    subst hheader hpending hcall hdirect unfinished
    rfl

theorem Fresh.new (h : Fresh tools (begun header p)) :
    ∃ q, ChatOutputParser.new tools (toSelf header) p.nextToolCallId = .ok q ∧
      reading (begun header p) = reading q := by
  obtain ⟨startsInReasoning, q, hnew, hfresh⟩ := h
  have hmode : q.mode = (begun header p).mode := by
    rw [hfresh]
    rfl
  have hstart : startsInReasoning = toSelf header := by
    obtain ⟨⟨strings, parameters, direct⟩, -, hnew⟩ := bind_ok hnew
    cases hnew
    revert hmode
    unfold begun
    cases startsInReasoning <;> cases toSelf header <;> simp
  subst hstart
  refine ⟨q, hnew, ?_⟩
  rw [hfresh, reading_withProtocol]
  rw [hmode]
  exact (begun_outside header p).not_toolCall

theorem new_blank {startsInReasoning : Bool}
    (h : ChatOutputParser.new tools startsInReasoning ids = .ok p) :
    Outside p ∧ p.pending = [] ∧ p.gemmaChannelHeaderPending = false ∧ p.nextToolCallId = ids := by
  obtain ⟨⟨strings, parameters, direct⟩, -, h⟩ := bind_ok h
  cases h
  refine ⟨?_, rfl, rfl, rfl⟩
  cases startsInReasoning
  · exact .inl rfl
  · exact .inr rfl

/-- What an end marker, or the end of the stream, makes of the pending text. -/
def flushed (p : ChatOutputParser) : List ChatOutputEvent :=
  takeEvent (if p.mode = .reasoning then .reasoning else .text) p.pending

theorem finish_outside (hunfinished : p.finished = false) (h : Outside p) :
    p.finishWithTruncation false =
      .ok ({ p with finished := true, pending := [] }, flushed p) := by
  rw [finishWithTruncation, if_neg (by simp [hunfinished])]
  rcases h with h | h
  · simp [h, flushed]
  · simp [h, flushed]

theorem endMuseSegment_eq_ok {last : List ChatOutputEvent} (h : p.endMuseSegment = .ok (q, last)) :
    Outside p ∧ q = { p with mode := .text, pending := [] } ∧ last = flushed p := by
  unfold endMuseSegment at h
  unfold Outside flushed
  cases hmode : p.mode with
  | reasoning =>
    rw [hmode] at h
    cases h
    exact ⟨.inr rfl, rfl, rfl⟩
  | text =>
    rw [hmode] at h
    cases h
    exact ⟨.inl rfl, rfl, rfl⟩
  | toolCall =>
    rw [hmode] at h
    cases h
  | directToolCall =>
    rw [hmode] at h
    cases h

theorem messages_body_ne_nil (header : Text) (pieces : List Text) (syms : List Symbol) :
    messages (.body header pieces) syms ≠ [] ∧
      ∀ next, messages (.behind header pieces next) syms ≠ [] := by
  induction syms generalizing header pieces with
  | nil => exact ⟨cons_ne_nil _ _, fun _ => cons_ne_nil _ _⟩
  | cons symbol rest ih =>
    cases symbol with
    | start => exact ⟨(ih header pieces).2 [], fun _ => (ih header pieces).2 []⟩
    | message => exact ⟨(ih header pieces).1, fun _ => cons_ne_nil _ _⟩
    | close => exact ⟨cons_ne_nil _ _, fun _ => cons_ne_nil _ _⟩
    | piece text => exact ⟨(ih header (pieces ++ [text])).1, fun next => (ih header pieces).2 _⟩

theorem beforeOthers_cons {P : ChatOutputParser → Message → Prop} {m : Message}
    {rest : List Message} (hread : readMessage fromStr tools ids m = .ok (q, out)) :
    BeforeOthers fromStr tools P ids (m :: rest) ↔
      (rest ≠ [] → P q m ∧ BeforeOthers fromStr tools P q.nextToolCallId rest) := by
  cases rest with
  | nil => simp [BeforeOthers]
  | cons next rest =>
    constructor
    · exact fun h _ => h q out hread
    · intro h p events hp
      cases hread.symm.trans hp
      exact h (cons_ne_nil _ _)

theorem transcript_cons {m : Message} {rest : List Message} {r : ChatOutputParser}
    {out last : List ChatOutputEvent} (hread : readMessage fromStr tools ids m = .ok (q, out))
    (hfinish : q.finishWithTruncation false = .ok (r, last)) :
    transcript fromStr tools ids (m :: rest) =
      (transcript fromStr tools r.nextToolCallId rest).map fun more => out ++ last ++ more := by
  simp only [transcript, hread, hfinish, bind, Except.bind]
  cases transcript fromStr tools r.nextToolCallId rest with
  | error e => rfl
  | ok more => rfl

/-! ## One symbol more -/

/-- Between two messages the parser does not wait for a channel header, if a message follows. -/
def Awaits : Place → Reader → List Symbol → Prop
  | .header header, s, syms =>
    messages (.header header) syms ≠ [] → s.parser.gemmaChannelHeaderPending = false
  | _, _, _ => True

theorem awaits_header {s : Reader} {syms : List Symbol} :
    Awaits (.header header) s syms ↔
      (messages (.header header) syms ≠ [] → s.parser.gemmaChannelHeaderPending = false) :=
  Iff.rfl

/-- The reader finds fresh parsers and ends no message in a tool call if and only if the messages
are clean, and then the events are those of fresh parsers. -/
def Agrees (fromStr : Text → Except Text Value) (tools : List ChatTool) (place : Place) (ids : Nat)
    (s : Reader) (out : List ChatOutputEvent) (syms : List Symbol) : Prop :=
  ∀ t events, s.pushAll fromStr syms = .ok (t, events) →
    (FreshAt fromStr tools s syms ∧
        BeforeOthers fromStr tools (fun p _ => Outside p) ids (messages place syms) ↔
      Awaits place s syms ∧ BeforeOthers fromStr tools Clean ids (messages place syms)) ∧
    (Awaits place s syms → BeforeOthers fromStr tools Clean ids (messages place syms) →
      (t.parser.finishWithTruncation false).map (fun r => out ++ events ++ r.2) =
        transcript fromStr tools ids (messages place syms))

section
variable {place place' : Place} {ids : Nat} {s s' : Reader} {out ev : List ChatOutputEvent}
variable {symbol : Symbol} {rest : List Symbol} {m : Message}

section
variable (hpush : s.push fromStr symbol = .ok (s', ev))
include hpush

theorem pushAll_cons_inv {t : Reader} {events : List ChatOutputEvent}
    (h : s.pushAll fromStr (symbol :: rest) = .ok (t, events)) :
    ∃ more, s'.pushAll fromStr rest = .ok (t, more) ∧ events = ev ++ more := by
  obtain ⟨⟨u, first⟩, hfirst, h⟩ := bind_ok h
  cases hpush.symm.trans hfirst
  obtain ⟨⟨v, more⟩, hmore, h⟩ := bind_ok h
  cases h
  exact ⟨more, hmore, rfl⟩

theorem freshAt_cons :
    FreshAt fromStr tools s (symbol :: rest) ↔
      (symbol = .message → Fresh tools s'.parser) ∧ FreshAt fromStr tools s' rest := by
  constructor
  · exact fun h => h s' ev hpush
  · intro h t events ht
    cases hpush.symm.trans ht
    exact h

/-- A symbol that belongs to the message, or to the header, that the stream stands in. -/
theorem agrees_of_same
    (hsymbol : symbol ≠ .message) (hsame : messages place (symbol :: rest) = messages place' rest)
    (hawaits : Awaits place s (symbol :: rest) ↔ Awaits place' s' rest)
    (h : Agrees fromStr tools place' ids s' (out ++ ev) rest) :
    Agrees fromStr tools place ids s out (symbol :: rest) := by
  intro t events hrun
  obtain ⟨more, hmore, rfl⟩ := pushAll_cons_inv hpush hrun
  obtain ⟨hiff, hevents⟩ := h t more hmore
  rw [freshAt_cons hpush, hsame, hawaits]
  constructor
  · rw [← hiff]
    simp only [hsymbol, false_implies, true_and]
  · intro ha hclean
    rw [← hevents ha hclean]
    simp only [append_assoc]

end

theorem agrees_of_close {q r : ChatOutputParser} (hpush : s.push fromStr .close = .ok (s', ev))
    (hmessage : messages place (.close :: rest) = m :: messages (.header []) rest)
    (hended : m.ended = true) (hawaits : Awaits place s (.close :: rest))
    (hread : readMessage fromStr tools ids m = .ok (q, out)) (houtside : Outside q)
    (hfinish : q.finishWithTruncation false = .ok (r, ev))
    (hids : r.nextToolCallId = q.nextToolCallId)
    (hwaits : s'.parser.gemmaChannelHeaderPending = q.gemmaChannelHeaderPending)
    (h : Agrees fromStr tools (.header []) q.nextToolCallId s' [] rest) :
    Agrees fromStr tools place ids s out (.close :: rest) := by
  intro t events hrun
  obtain ⟨more, hmore, rfl⟩ := pushAll_cons_inv hpush hrun
  obtain ⟨hiff, hevents⟩ := h t more hmore
  have hclean : Clean q m ↔ q.gemmaChannelHeaderPending = false := by
    simp [Clean, hended]
  rw [freshAt_cons hpush, hmessage, beforeOthers_cons hread, beforeOthers_cons hread, hclean]
  rw [awaits_header, hwaits] at hiff hevents
  constructor
  · by_cases hlast : messages (.header []) rest = []
    · simp only [hlast, ne_eq, not_true_eq_false, false_implies, and_true, reduceCtorEq, true_and,
        BeforeOthers] at hiff ⊢
      exact ⟨fun _ => hawaits, fun _ => hiff.mpr trivial⟩
    · simp only [hlast, ne_eq, not_false_eq_true, true_implies, reduceCtorEq, false_implies,
        true_and, houtside] at hiff ⊢
      exact hiff.trans ⟨fun h => ⟨hawaits, h⟩, fun h => h.2⟩
  · intro _ hothers
    rw [transcript_cons hread hfinish, hids, ← hevents (fun hne => (hothers hne).1) ?_]
    · cases t.parser.finishWithTruncation false with
      | error e => rfl
      | ok r => simp [Except.map]
    · by_cases hlast : messages (.header []) rest = []
      · rw [hlast]
        trivial
      · exact (hothers hlast).2

/-- A reader with a fresh parser stands at the start of a body. -/
theorem Fresh.reads (h : Fresh tools (begun header p)) :
    Reads fromStr tools (.body header []) p.nextToolCallId ⟨none, begun header p⟩ [] := by
  obtain ⟨q, hnew, halike⟩ := h.new
  refine .body (fun ended => ?_) halike
  simp only [readMessage, hnew, pushChunks, bind, Except.bind]

theorem push_message_inv {next : Text} (hpush : Reader.push fromStr ⟨some next, p⟩ .message =
    .ok (s', ev)) : s' = ⟨none, begun next p⟩ ∧ ev = [] := by
  obtain ⟨header, hheader, hpush⟩ := bind_ok hpush
  cases hheader
  obtain ⟨parser, hbegin, hpush⟩ := bind_ok hpush
  cases hpush
  exact ⟨by rw [beginMuseSegment_eq_begun hbegin], rfl⟩

/-- The marker of a message that no message precedes, or only closed ones. -/
theorem agrees_of_first (hkept : Kept tools p) (houtside : Outside p) (hpending : p.pending = [])
    (hpush : Reader.push fromStr ⟨some header, p⟩ .message = .ok (⟨none, begun header p⟩, []))
    (h : Fresh tools (begun header p) →
      Agrees fromStr tools (.body header []) p.nextToolCallId ⟨none, begun header p⟩ [] rest) :
    Agrees fromStr tools (.header header) p.nextToolCallId ⟨some header, p⟩ []
      (.message :: rest) := by
  intro t events hrun
  obtain ⟨more, hmore, rfl⟩ := pushAll_cons_inv hpush hrun
  have hfresh : Fresh tools (begun header p) ↔ p.gemmaChannelHeaderPending = false := by
    rw [begun_fresh_iff hkept]
    simp [hpending, hkept.outside houtside, hkept.direct houtside.not_directToolCall]
  have hne := (messages_body_ne_nil header [] rest).1
  rw [freshAt_cons hpush, awaits_header, messages]
  simp only [hne, ne_eq, not_false_eq_true, true_implies, hfresh]
  by_cases hwaits : p.gemmaChannelHeaderPending = false
  · obtain ⟨hiff, hevents⟩ := h (hfresh.mpr hwaits) t events hmore
    simp only [Awaits, true_and, true_implies] at hiff hevents
    simp only [hwaits, true_and, true_implies]
    exact ⟨hiff, hevents⟩
  · simp only [hwaits, reduceCtorEq, false_and, false_implies, and_self]

/-- The marker of a message that broke another one off. -/
theorem agrees_of_next {next : Text} {pieces : List Text}
    (hread : ∀ ended, readMessage fromStr tools ids ⟨header, pieces, ended⟩ = .ok (q, out))
    (halike : reading p = reading q)
    (hpush : Reader.push fromStr ⟨some next, p⟩ .message = .ok (⟨none, begun next p⟩, []))
    (h : Fresh tools (begun next p) →
      Agrees fromStr tools (.body next []) p.nextToolCallId ⟨none, begun next p⟩ [] rest) :
    Agrees fromStr tools (.behind header pieces next) ids ⟨some next, p⟩ out
      (.message :: rest) := by
  intro t events hrun
  obtain ⟨more, hmore, rfl⟩ := pushAll_cons_inv hpush hrun
  have hkept := readMessage_kept (hread false)
  obtain ⟨hp, -⟩ := reading_eq_iff.mp halike.symm
  have hne := (messages_body_ne_nil next [] rest).1
  -- Outside of a tool call, a fresh parser behind the marker means a clean one before it.
  have hclean : Clean q ⟨header, pieces, false⟩ ↔ Fresh tools (begun next p) ∧ Outside q := by
    have hfresh := begun_fresh_iff (hkept.of_reading halike.symm) next
    rw [hfresh, hp]
    simp only [Clean, withProtocol, true_implies]
    constructor
    · intro h
      exact ⟨⟨⟨h.1, h.2.1⟩, hkept.outside h.2.2, hkept.direct h.2.2.not_directToolCall⟩, h.2.2⟩
    · exact fun h => ⟨h.1.1.1, h.1.1.2, h.2⟩
  have hids : p.nextToolCallId = q.nextToolCallId := by
    rw [hp]
    rfl
  rw [freshAt_cons hpush, messages, beforeOthers_cons (hread false), beforeOthers_cons (hread false),
    hclean]
  simp only [hne, ne_eq, not_false_eq_true, true_implies, Awaits, true_and]
  rw [← hids]
  constructor
  · constructor
    · intro hleft
      obtain ⟨hiff, -⟩ := h hleft.1.1 t events hmore
      exact ⟨⟨hleft.1.1, hleft.2.1⟩, (hiff.mp ⟨hleft.1.2, hleft.2.2⟩).2⟩
    · intro hright
      obtain ⟨hiff, -⟩ := h hright.1.1 t events hmore
      obtain ⟨hfresh, houtside⟩ := hiff.mpr ⟨trivial, hright.2⟩
      exact ⟨⟨hright.1.1, hfresh⟩, hright.1.2, houtside⟩
  · intro hothers
    obtain ⟨-, hevents⟩ := h hothers.1.1 t events hmore
    have hfinish := finish_outside hkept.unfinished hothers.1.2
    have hnothing : flushed q = [] := by
      have hpending := (hclean.mpr hothers.1).2 rfl
      rw [flushed, hpending.1]
      rfl
    rw [transcript_cons (hread false) hfinish, hnothing,
      show ({ q with finished := true, pending := [] } : ChatOutputParser).nextToolCallId =
        p.nextToolCallId from hids.symm, ← hevents trivial hothers.2]
    cases t.parser.finishWithTruncation false with
    | error e => rfl
    | ok r => simp [Except.map]

theorem agrees_of_last (hmessage : messages place [] = [m])
    (hread : readMessage fromStr tools ids m = .ok (q, out)) (halike : reading s.parser = reading q)
    (hawaits : Awaits place s []) : Agrees fromStr tools place ids s out [] := by
  intro t events hrun
  cases hrun
  rw [hmessage]
  refine ⟨⟨fun _ => ⟨hawaits, trivial⟩, fun _ => ⟨trivial, trivial⟩⟩, fun _ _ => ?_⟩
  have hfinish := finish_reading halike
  cases hlast : q.finishWithTruncation false with
  | error e =>
    rw [hlast] at hfinish
    cases hended : s.parser.finishWithTruncation false with
    | error e' =>
      rw [hended] at hfinish
      cases hfinish
      simp only [transcript, hread, hlast, bind, Except.bind, Except.map]
    | ok r =>
      rw [hended] at hfinish
      cases hfinish
  | ok r =>
    obtain ⟨r, last⟩ := r
    rw [transcript_cons hread hlast]
    rw [hlast] at hfinish
    cases hended : s.parser.finishWithTruncation false with
    | error e' =>
      rw [hended] at hfinish
      cases hfinish
    | ok r' =>
      rw [hended] at hfinish
      obtain ⟨r', last'⟩ := r'
      simp only [Except.map, Prod.map_apply, id_eq, Except.ok.injEq, Prod.mk.injEq] at hfinish
      simp only [transcript, Except.map, append_nil, hfinish.2]

/-- An end marker in the body of a message, or behind a start marker that broke it off. -/
theorem agrees_of_ended {header : Option Text} (hmessage : messages place (.close :: rest) =
      m :: messages (.header []) rest) (hended : m.ended = true)
    (hawaits : Awaits place ⟨header, p⟩ (.close :: rest))
    (hread : readMessage fromStr tools ids m = .ok (q, out)) (halike : reading p = reading q)
    (ih : ∀ p', Kept tools p' → Outside p' → p'.pending = [] →
      Agrees fromStr tools (.header []) p'.nextToolCallId ⟨some [], p'⟩ [] rest) :
    Agrees fromStr tools place ids ⟨header, p⟩ out (.close :: rest) := by
  intro t events hrun
  have hkept := readMessage_kept hread
  obtain ⟨hp, -⟩ := reading_eq_iff.mp halike.symm
  obtain ⟨⟨s', ev⟩, hpush, -⟩ := bind_ok hrun
  obtain ⟨⟨p', last⟩, hend, hpush'⟩ := bind_ok hpush
  cases hpush'
  obtain ⟨houtside, rfl, rfl⟩ := endMuseSegment_eq_ok hend
  have hmode : p.mode = q.mode := by
    rw [hp]
    rfl
  have hpending : p.pending = q.pending := by
    rw [hp]
    rfl
  have houtside' : Outside q := by
    unfold Outside at houtside ⊢
    rwa [hmode] at houtside
  have hfinish := finish_outside hkept.unfinished houtside'
  have hflushed : flushed p = flushed q := by
    unfold flushed
    rw [hmode, hpending]
  have hids : p.nextToolCallId = q.nextToolCallId := by
    rw [hp]
    rfl
  have hkept' := hkept.of_reading halike.symm
  have hbetween := ih { p with mode := .text, pending := [] }
    ⟨hkept'.tables, hkept'.unfinished, fun _ => hkept'.outside houtside,
      fun _ => hkept'.direct houtside.not_directToolCall⟩ (.inl rfl) rfl
  rw [← hflushed] at hfinish
  refine agrees_of_close hpush hmessage hended hawaits hread houtside' hfinish rfl ?_ ?_ t events hrun
  · rw [hp]
    rfl
  · rw [← hids]
    exact hbetween

end

/-- A reader that has read the messages so far agrees with them to the end of the stream. -/
theorem Reads.agrees {place : Place} {ids : Nat} {s : Reader} {out : List ChatOutputEvent}
    (h : Reads fromStr tools place ids s out) (syms : List Symbol) :
    Agrees fromStr tools place ids s out syms := by
  induction syms generalizing place ids s out with
  | nil =>
    cases h with
    | header kept outside pending =>
      intro t events hrun
      cases hrun
      refine ⟨⟨fun _ => ⟨fun hne => absurd rfl hne, trivial⟩, fun _ => ⟨trivial, trivial⟩⟩,
        fun _ _ => ?_⟩
      rw [finish_outside kept.unfinished outside, flushed, pending]
      rfl
    | body read alike => exact agrees_of_last rfl (read false) alike trivial
    | behind read alike => exact agrees_of_last rfl (read false) alike trivial
  | cons symbol rest ih =>
    cases h with
    | @header h p kept outside pending =>
      have hheader : ∀ next, Agrees fromStr tools (.header next) p.nextToolCallId ⟨some next, p⟩ []
          rest := fun next => ih (.header kept outside pending)
      cases symbol with
      | start =>
        have hpush : Reader.push fromStr ⟨some h, p⟩ .start = .ok (⟨some [], p⟩, []) := rfl
        exact agrees_of_same hpush nofun rfl Iff.rfl (hheader [])
      | message =>
        intro t events hrun
        obtain ⟨⟨s', ev⟩, hpush, -⟩ := bind_ok hrun
        obtain ⟨rfl, rfl⟩ := push_message_inv hpush
        exact agrees_of_first kept outside pending hpush (fun hfresh => ih hfresh.reads) t events hrun
      | close =>
        intro t events hrun
        obtain ⟨⟨s', ev⟩, hpush, -⟩ := bind_ok hrun
        obtain ⟨⟨p', last⟩, hend, hpush'⟩ := bind_ok hpush
        cases hpush'
        obtain ⟨-, rfl, rfl⟩ := endMuseSegment_eq_ok hend
        have hnothing : flushed p = [] := by
          rw [flushed, pending]
          rfl
        refine agrees_of_same hpush nofun rfl Iff.rfl ?_ t events hrun
        rw [hnothing]
        exact ih (.header (p := { p with mode := .text, pending := [] })
          ⟨kept.tables, kept.unfinished, fun _ => kept.outside outside,
            fun _ => kept.direct outside.not_directToolCall⟩ (.inl rfl) rfl)
      | piece text =>
        have hpush : Reader.push fromStr ⟨some h, p⟩ (.piece text) =
            .ok (⟨some (h ++ text), p⟩, []) := rfl
        exact agrees_of_same hpush nofun rfl Iff.rfl (hheader _)
    | @body h pieces ids p q out read alike =>
      cases symbol with
      | start =>
        have hpush : Reader.push fromStr ⟨none, p⟩ .start = .ok (⟨some [], p⟩, []) := rfl
        refine agrees_of_same hpush nofun rfl Iff.rfl ?_
        rw [append_nil]
        exact ih (.behind read alike)
      | message =>
        intro t events hrun
        obtain ⟨⟨s', ev⟩, hpush, -⟩ := bind_ok hrun
        cases hpush
      | close =>
        refine agrees_of_ended rfl rfl trivial (read true) alike ?_
        exact fun p' hkept houtside hpending => ih (.header hkept houtside hpending)
      | piece text =>
        intro t events hrun
        obtain ⟨⟨s', ev⟩, hpush, -⟩ := bind_ok hrun
        obtain ⟨⟨p', ev'⟩, hpiece, hpush'⟩ := bind_ok hpush
        cases hpush'
        have hfresh : (p.pushText fromStr text).map (Prod.map reading id) =
            (q.pushText fromStr text).map (Prod.map reading id) := pushText_reading alike text
        rw [hpiece] at hfresh
        cases hpiece' : q.pushText fromStr text with
        | error e =>
          rw [hpiece'] at hfresh
          cases hfresh
        | ok r =>
          obtain ⟨q', ev''⟩ := r
          rw [hpiece'] at hfresh
          simp only [Except.map, Prod.map_apply, id_eq, Except.ok.injEq, Prod.mk.injEq] at hfresh
          obtain ⟨halike, rfl⟩ := hfresh
          refine agrees_of_same hpush nofun rfl Iff.rfl (ih (.body (fun ended => ?_) halike)) t events
            hrun
          obtain ⟨p₀, hnew, hpieces⟩ := bind_ok (read ended)
          simp only [readMessage, hnew, bind, Except.bind]
          exact pushChunks_snoc hpieces hpiece'
    | @behind h next pieces ids p q out read alike =>
      have hbehind : ∀ next, Agrees fromStr tools (.behind h pieces next) ids ⟨some next, p⟩ out
          rest := fun next => ih (.behind read alike)
      cases symbol with
      | start =>
        have hpush : Reader.push fromStr ⟨some next, p⟩ .start = .ok (⟨some [], p⟩, []) := rfl
        refine agrees_of_same hpush nofun rfl Iff.rfl ?_
        rw [append_nil]
        exact hbehind []
      | message =>
        intro t events hrun
        obtain ⟨⟨s', ev⟩, hpush, -⟩ := bind_ok hrun
        obtain ⟨rfl, rfl⟩ := push_message_inv hpush
        exact agrees_of_next read alike hpush (fun hfresh => ih hfresh.reads) t events hrun
      | close =>
        refine agrees_of_ended rfl rfl trivial (read true) alike ?_
        exact fun p' hkept houtside hpending => ih (.header hkept houtside hpending)
      | piece text =>
        have hpush : Reader.push fromStr ⟨some next, p⟩ (.piece text) =
            .ok (⟨some (next ++ text), p⟩, []) := rfl
        refine agrees_of_same hpush nofun rfl Iff.rfl ?_
        rw [append_nil]
        exact hbehind _

end

/-! ## Streams of tokens -/

section
variable {δ : Type} (fromStr : Text → Except Text Value) (tokenizer : Tokenizer δ)

/-- The symbol of a token: a Muse marker, or an ordinary token that decodes to one whole piece. -/
def symbolOf (codec : ChatOutputCodec δ) (tokens : MuseSpecialTokens) (stream : δ) (token : Nat) :
    Option (Symbol × δ) :=
  if (codec.protocolSpecialTokens.find? fun special => special.1 = token).isSome then none
  else if token = tokens.start then some (.start, stream)
  else if token = tokens.message then some (.message, stream)
  else if token = tokens.endMessage ∨ token = tokens.endTurn then some (.close, stream)
  else if (codec.gemmaSpecialTokens.bind fun gemma =>
    ChatOutputCodec.gemmaMarker gemma token).isSome then none
  else match tokenizer.step stream token with
    | .ok (some text, stream) => some (.piece text, stream)
    | _ => none

/-- The symbols of a stream of Muse markers and ordinary tokens. -/
def symbols (codec : ChatOutputCodec δ) (tokens : MuseSpecialTokens) :
    δ → List Nat → Option (List Symbol)
  | _, [] => some []
  | stream, token :: rest => do
    let (symbol, stream) ← symbolOf tokenizer codec tokens stream token
    let more ← symbols codec tokens stream rest
    return symbol :: more

/-- Pushes one token after the other. -/
def pushTokens (codec : ChatOutputCodec δ) :
    List Nat → Except Error (ChatOutputCodec δ × List ChatOutputEvent)
  | [] => .ok (codec, [])
  | token :: rest => do
    let (next, events) ← codec.pushToken fromStr tokenizer token
    let (last, more) ← pushTokens next rest
    return (last, events ++ more)

/-- Every token that takes the codec from a header into a body leaves it a fresh parser. -/
def FreshMessages (tools : List ChatTool) (codec : ChatOutputCodec δ) : List Nat → Prop
  | [] => True
  | token :: rest => ∀ next events, codec.pushToken fromStr tokenizer token = .ok (next, events) →
      (codec.museHeader.isSome → next.museHeader = none → Fresh tools next.parser) ∧
        FreshMessages tools next rest

/-- The messages of a stream were read alone: finishing the stream has given, or failed with,
what fresh parsers give for its messages one after the other; every message was begun with a
fresh parser; and no message that another one follows ended in a tool call. -/
structure ReadAlone (tools : List ChatTool) (ids : Nat) (codec last : ChatOutputCodec δ)
    (stream : List Nat) (read : List Message) (events : List ChatOutputEvent) : Prop where
  events : (last.finishWithTruncation false).map (fun r => events ++ r.2) =
    transcript fromStr tools ids read
  fresh : FreshMessages fromStr tokenizer tools codec stream
  outside : BeforeOthers fromStr tools (fun p _ => Outside p) ids read

/-- The part of a codec that a Muse stream works on. -/
def readerOf (codec : ChatOutputCodec δ) : Reader := ⟨codec.museHeader, codec.parser⟩

variable {fromStr} {tokenizer} {tools : List ChatTool} {tokens : MuseSpecialTokens}
variable {codec next last : ChatOutputCodec δ} {token : Nat} {symbol : Symbol} {stream : δ}
variable {events : List ChatOutputEvent}

/-- The codec with the parts of a reader. -/
def withReader (codec : ChatOutputCodec δ) (stream : δ) (s : Reader) : ChatOutputCodec δ :=
  { codec with decodeStream := stream, museHeader := s.header, parser := s.parser }

theorem pushToken_symbol (hmuse : codec.museSpecialTokens = some tokens)
    (hunfinished : codec.finished = false)
    (h : symbolOf tokenizer codec tokens codec.decodeStream token = some (symbol, stream)) :
    codec.pushToken fromStr tokenizer token =
      ((readerOf codec).push fromStr symbol).map (Prod.map (withReader codec stream) id) := by
  have hpush : codec.protocolSpecialTokens.find? (fun special => special.1 = token) = none →
      codec.pushToken fromStr tokenizer token = codec.pushMuse fromStr tokenizer token := by
    intro hprotocol
    rw [ChatOutputCodec.pushToken, if_neg (by simp [hunfinished]), hprotocol]
  unfold symbolOf at h
  split at h
  · cases h
  rename_i hprotocol
  rw [Bool.not_eq_true, isSome_eq_false_iff, isNone_iff_eq_none] at hprotocol
  rw [hpush hprotocol, ChatOutputCodec.pushMuse]
  split
  · rename_i hnone
    cases hmuse.symm.trans hnone
  rename_i tokens' hsome
  cases hmuse.symm.trans hsome
  split at h
  · rename_i hstart
    cases h
    rw [if_pos hstart]
    rfl
  rename_i hstart
  rw [if_neg hstart]
  split at h
  · rename_i hmessage
    cases h
    rw [if_pos hmessage]
    unfold readerOf Reader.push
    cases codec.museHeader with
    | none => rfl
    | some header =>
      simp only [okOr, bind, Except.bind]
      cases codec.parser.beginMuseSegment header with
      | error e => rfl
      | ok parser => rfl
  rename_i hmessage
  rw [if_neg hmessage]
  split at h
  · rename_i hclose
    cases h
    rw [if_pos hclose]
    unfold readerOf Reader.push
    cases codec.parser.endMuseSegment with
    | error e => rfl
    | ok r => rfl
  rename_i hclose
  rw [if_neg hclose]
  split at h
  · cases h
  rename_i hgemma
  rw [Bool.not_eq_true, isSome_eq_false_iff, isNone_iff_eq_none] at hgemma
  rw [ChatOutputCodec.pushGemma, hgemma]
  simp only [ChatOutputCodec.pushDecoded]
  split at h
  · rename_i text decoded hstep
    cases h
    rw [hstep]
    unfold readerOf Reader.push
    cases hheader : codec.museHeader with
    | some header => rfl
    | none =>
      simp only [ChatOutputCodec.pushText, bind, Except.bind]
      cases codec.parser.pushText fromStr text with
      | error e => rfl
      | ok r => simp only [pure, Except.pure, Except.map, Prod.map_apply, withReader, id_eq]
  · cases h

/-- A reader comes from a header into a body at message markers only. -/
theorem opens_iff {s t : Reader} (h : s.push fromStr symbol = .ok (t, events)) :
    (s.header.isSome ∧ t.header = none) ↔ symbol = .message := by
  cases symbol with
  | start =>
    cases h
    simp
  | message =>
    obtain ⟨header, hheader, h⟩ := bind_ok h
    obtain ⟨parser, -, h⟩ := bind_ok h
    cases h
    rw [okOr_eq_ok hheader]
    simp
  | close =>
    obtain ⟨⟨parser, out⟩, -, h⟩ := bind_ok h
    cases h
    simp
  | piece text =>
    unfold Reader.push at h
    dsimp only at h
    split at h
    · cases h
      simp
    · rename_i hnone
      rw [hnone]
      simp

theorem symbols_withReader (codec : ChatOutputCodec δ) (d stream : δ) (s : Reader)
    (rest : List Nat) : symbols tokenizer (withReader codec d s) tokens stream rest =
      symbols tokenizer codec tokens stream rest := by
  induction rest generalizing stream with
  | nil => rfl
  | cons token rest ih =>
    simp only [symbols, ih]
    rfl

theorem pushTokens_symbols (tools : List ChatTool) {tokenIds : List Nat} {syms : List Symbol}
    (hmuse : codec.museSpecialTokens = some tokens) (hunfinished : codec.finished = false)
    (hsymbols : symbols tokenizer codec tokens codec.decodeStream tokenIds = some syms)
    (hpush : pushTokens fromStr tokenizer codec tokenIds = .ok (last, events)) :
    (readerOf codec).pushAll fromStr syms = .ok (readerOf last, events) ∧
      last.finished = false ∧
      (FreshMessages fromStr tokenizer tools codec tokenIds ↔
        FreshAt fromStr tools (readerOf codec) syms) := by
  induction tokenIds generalizing codec syms events with
  | nil =>
    cases hsymbols
    cases hpush
    exact ⟨rfl, hunfinished, Iff.rfl⟩
  | cons token rest ih =>
    obtain ⟨⟨symbol, stream⟩, hsymbol, hsymbols⟩ := bind_eq_some_iff.mp hsymbols
    obtain ⟨more, hmore, hsymbols⟩ := bind_eq_some_iff.mp hsymbols
    cases hsymbols
    obtain ⟨⟨next, first⟩, hfirst, hpush⟩ := bind_ok hpush
    obtain ⟨⟨after, later⟩, hlater, hpush⟩ := bind_ok hpush
    cases hpush
    have htoken := hfirst.symm.trans (pushToken_symbol hmuse hunfinished hsymbol)
    cases hreader : (readerOf codec).push fromStr symbol with
    | error e =>
      rw [hreader] at htoken
      cases htoken
    | ok r =>
      obtain ⟨t, out⟩ := r
      rw [hreader] at htoken
      cases htoken
      have hrest : symbols tokenizer (withReader codec stream t) tokens stream rest = some more :=
        (symbols_withReader codec stream stream t rest).trans hmore
      have hmuse' : (withReader codec stream t).museSpecialTokens = some tokens := hmuse
      obtain ⟨hrun, hlast, hfresh⟩ := ih hmuse' hunfinished hrest hlater
      refine ⟨?_, hlast, ?_⟩
      · simp only [Reader.pushAll, hreader, bind, Except.bind]
        rw [show (readerOf (withReader codec stream t)) = t from rfl] at hrun
        rw [hrun]
        rfl
      · rw [freshAt_cons hreader, FreshMessages]
        have hopens := opens_iff hreader
        constructor
        · intro h
          obtain ⟨hopen, hrest⟩ := h _ _ hfirst
          refine ⟨fun hmessage => ?_, hfresh.mp hrest⟩
          obtain ⟨hsome, hnone⟩ := hopens.mpr hmessage
          exact hopen hsome hnone
        · rintro ⟨hopen, hrest⟩ next events hnext
          cases hfirst.symm.trans hnext
          exact ⟨fun hsome hnone => hopen (hopens.mp ⟨hsome, hnone⟩), hfresh.mpr hrest⟩

end

/-- The messages of a Muse stream are read alone if and only if every message that another one
follows leaves its fresh parser clean: not waiting for the header of a Gemma channel, and, unless
an end marker follows it, holding no text back and outside of a tool call. -/
theorem messages_read_alone_iff {δ : Type} (fromStr : Text → Except Text Value)
    (tokenizer : Tokenizer δ) (tools : List ChatTool) (startsInReasoning : Bool) (ids : Nat)
    {codec last : ChatOutputCodec δ} {tokens : MuseSpecialTokens} {stream : List Nat}
    {syms : List Symbol} {events : List ChatOutputEvent}
    (hnew : ChatOutputCodec.new tokenizer tools startsInReasoning ids = .ok codec)
    (hmuse : codec.museSpecialTokens = some tokens)
    (hsymbols : symbols tokenizer codec tokens codec.decodeStream stream = some syms)
    (hpush : pushTokens fromStr tokenizer codec stream = .ok (last, events)) :
    ReadAlone fromStr tokenizer tools ids codec last stream
        (messages (.header "assistant".toList) syms) events ↔
      BeforeOthers fromStr tools Clean ids (messages (.header "assistant".toList) syms) := by
  obtain ⟨p, hparser, hcodec⟩ := bind_ok hnew
  have hkept := new_kept hparser
  obtain ⟨houtside, hpending, hwaits, hids⟩ := new_blank hparser
  have hheader : codec.museHeader = codec.museSpecialTokens.map fun _ => "assistant".toList := by
    cases hcodec
    rfl
  have hreader : readerOf codec = ⟨some "assistant".toList, p⟩ := by
    rw [readerOf, hheader, hmuse]
    cases hcodec
    rfl
  have hstart : codec.finished = false := by
    cases hcodec
    rfl
  obtain ⟨hrun, hunfinished, hfresh⟩ := pushTokens_symbols tools hmuse hstart hsymbols hpush
  have hreads : Reads fromStr tools (.header "assistant".toList) p.nextToolCallId
      (readerOf codec) [] := by
    rw [hreader]
    exact .header hkept houtside hpending
  obtain ⟨hiff, hevents⟩ := hreads.agrees syms _ _ hrun
  have hawaits : Awaits (.header "assistant".toList) (readerOf codec) syms := by
    rw [hreader]
    exact fun _ => hwaits
  rw [hids] at hiff hevents
  have hfinish : (last.finishWithTruncation false).map (fun r => events ++ r.2) =
      (last.parser.finishWithTruncation false).map fun r => events ++ r.2 := by
    rw [ChatOutputCodec.finishWithTruncation, if_neg (by simp [hunfinished])]
    cases last.parser.finishWithTruncation false with
    | error e => rfl
    | ok r => rfl
  constructor
  · intro h
    exact (hiff.mp ⟨hfresh.mp h.fresh, h.outside⟩).2
  · intro h
    obtain ⟨hfreshAt, hout⟩ := hiff.mpr ⟨hawaits, h⟩
    exact ⟨hfinish.trans (hevents hawaits h), hfresh.mpr hfreshAt, hout⟩

/-! ## Two streams -/

/-- A tokenizer of the Muse markers and of four pieces of text. -/
def museTokenizer : Tokenizer Unit where
  tokenToId marker :=
    if marker = "<|start|>".toList then some 0
    else if marker = "<|message|>".toList then some 1
    else if marker = "<|eom|>".toList then some 2
    else if marker = "<|eot|>".toList then some 3
    else none
  decodeStream := ()
  step _ token := .ok (some (["", "", "", "", " to=self", "a <", "assistant to=user",
    "b"].map String.toList |>.getD token []), ())

/-- A thought closed by an end marker, and an answer. -/
def closedStream : List Nat := [4, 1, 5, 2, 0, 6, 1, 7, 3]

/-- A thought that the start of the answer breaks off. -/
def brokenStream : List Nat := [4, 1, 5, 0, 6, 1, 7, 3]

def museTokens : MuseSpecialTokens := ⟨0, 1, 2, 3⟩

/-- A codec of the Muse tokenizer without tools. -/
def museCodec : ChatOutputCodec Unit where
  decodeStream := ()
  parser := {
    mode := .text, pending := [], toolCall := [], toolCallProtocol := .standard
    gemmaChannelHeaderPending := false, trimAfterThinking := false, trimAfterToolCall := false
    stringArguments := BTreeMap.empty, toolParameters := BTreeMap.empty, directTools := []
    activeDirectTool := none, finished := false, nextToolCallId := 1 }
  gemmaSpecialTokens := none
  protocolSpecialTokens := []
  museSpecialTokens := some museTokens
  museHeader := some "assistant".toList
  finished := false

/-- The thought and the answer are read alone where an end marker stands between them. -/
theorem messages_read_alone_closed : ∃ last syms events,
    pushTokens (fun _ => .error []) museTokenizer museCodec closedStream = .ok (last, events) ∧
      symbols museTokenizer museCodec museTokens () closedStream = some syms ∧
      ReadAlone (fun _ => .error []) museTokenizer [] 1 museCodec last closedStream
        (messages (.header "assistant".toList) syms) events := by
  have hrun : ∃ last syms events thought answer p r,
      pushTokens (fun _ => .error []) museTokenizer museCodec closedStream = .ok (last, events) ∧
        symbols museTokenizer museCodec museTokens () closedStream = some syms ∧
        messages (.header "assistant".toList) syms = [thought, answer] ∧
        readMessage (fun _ => .error []) [] 1 thought = .ok (p, r) ∧
        p.gemmaChannelHeaderPending = false ∧ thought.ended = true :=
    ⟨_, _, _, _, _, _, _, rfl, rfl, rfl, rfl, rfl, rfl⟩
  obtain ⟨last, syms, events, thought, answer, p, r, hpush, hsymbols, hmessages, hread, hheader,
    hended⟩ := hrun
  refine ⟨last, syms, events, hpush, hsymbols,
    (messages_read_alone_iff (fun _ => .error []) museTokenizer [] false 1 rfl rfl hsymbols
      hpush).mpr ?_⟩
  rw [hmessages]
  intro p' r' hread'
  obtain ⟨rfl, rfl⟩ := Prod.mk.inj (Except.ok.inj (hread.symm.trans hread'))
  exact ⟨⟨hheader, fun hopen => by simp [hended] at hopen⟩, trivial⟩

/-- The end of the thought that was held back is emitted as text of the answer. -/
theorem broken_thought_leaks :
    ¬ ∀ (δ : Type) (fromStr : Text → Except Text Value) (tokenizer : Tokenizer δ)
      (tools : List ChatTool) (startsInReasoning : Bool) (ids : Nat)
      (codec last : ChatOutputCodec δ) (tokens : MuseSpecialTokens) (stream : List Nat)
      (syms : List Symbol) (events : List ChatOutputEvent),
      ChatOutputCodec.new tokenizer tools startsInReasoning ids = .ok codec →
      codec.museSpecialTokens = some tokens →
      symbols tokenizer codec tokens codec.decodeStream stream = some syms →
      pushTokens fromStr tokenizer codec stream = .ok (last, events) →
      ReadAlone fromStr tokenizer tools ids codec last stream
        (messages (.header "assistant".toList) syms) events := by
  intro hall
  have hrun : ∃ last syms, pushTokens (fun _ => .error []) museTokenizer museCodec brokenStream =
        .ok (last, [.reasoning "a ".toList, .text "<b".toList]) ∧
      symbols museTokenizer museCodec museTokens () brokenStream = some syms ∧
      last.finishWithTruncation false = .ok ({ last with
        finished := true, parser := { last.parser with finished := true } }, []) ∧
      transcript (fun _ => .error []) [] 1 (messages (.header "assistant".toList) syms) =
        .ok [.reasoning "a ".toList, .reasoning "<".toList, .text "b".toList] :=
    ⟨_, _, rfl, rfl, rfl, rfl⟩
  obtain ⟨last, syms, hpush, hsymbols, hfinish, htranscript⟩ := hrun
  have halone := (hall Unit (fun _ => .error []) museTokenizer [] false 1 museCodec last museTokens
    brokenStream syms _ rfl rfl hsymbols hpush).events
  rw [hfinish, htranscript] at halone
  cases halone

end Eider.Guarantees.MuseSegments
