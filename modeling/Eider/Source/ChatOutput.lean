import Eider.Lib.Drain
import Eider.Source.ToolProtocols

/-!
The incremental output parser and codec (`chat_output.rs`, lines 1 to 845):
`ChatOutputParser` turns pushed text into reasoning, text and tool-call events,
and `ChatOutputCodec` feeds it from a token stream.

One round of the `push_text` loop is `step`. `push_text` itself is the machine
`parserMachine`, whose size is the text that is still held.
-/
namespace Eider.Source
open Lib Lib.Search

def lfmToolCallOpen : Text := "<|tool_call_start|>"
def lfmToolCallClose : Text := "<|tool_call_end|>"
def toolCallOpen : Text := "<tool_call>"
def toolCallClose : Text := "</tool_call>"
def gemmaToolCallOpen : Text := "<|tool_call>"
def gemmaToolCallClose : Text := "<tool_call|>"
def dsmlToolCallsOpen : Text := "<｜DSML｜tool_calls>"
def dsmlToolCallsClose : Text := "</｜DSML｜tool_calls>"
def atemToolCallsOpen : Text := "<atem:function_calls>"
def atemToolCallsClose : Text := "</atem:function_calls>"
def gemmaChannelOpen : Text := "<|channel>"
def gemmaThinkChannel : Text := "thought\n"
def gemmaThinkClose : Text := "<channel|>"
def thinkOpen : Text := "<think>"
def thinkClose : Text := "</think>"

/-- `ChatToolCall`. The identity is the counter value that `next_tool_call_id`
prints as `call_{value:016x}`. -/
structure ChatToolCall where
  id : Nat
  function : ChatFunctionCall

inductive ChatOutputEvent where
  | reasoning (t : Text)
  | text (t : Text)
  | toolCall (call : ChatToolCall)

inductive OutputMode where
  | reasoning
  | text
  | toolCall
  | directToolCall
deriving DecidableEq, Repr

inductive ToolCallProtocol where
  | lfm2
  | standard
  | gemma
  | dsml
  | atem
deriving DecidableEq, Repr

def ToolCallProtocol.close : ToolCallProtocol → Text
  | .lfm2 => lfmToolCallClose
  | .standard => toolCallClose
  | .gemma => gemmaToolCallClose
  | .dsml => dsmlToolCallsClose
  | .atem => atemToolCallsClose

/-- `ChatTool`: the function name and the JSON schema of its arguments. -/
structure ChatTool where
  name : Text
  parameters : Value

/-- `DirectTool`: a function with one required string parameter, whose call may
be written as `<name>argument</name>`. -/
structure DirectTool where
  name : Text
  parameter : Text

def DirectTool.openTag (tool : DirectTool) : Text := '<' :: (tool.name ++ ['>'])
def DirectTool.closeTag (tool : DirectTool) : Text := '<' :: '/' :: (tool.name ++ ['>'])

/-- `ChatOutputParser`, with the value of the process-wide `NEXT_TOOL_CALL_ID`
that its next tool call will find. -/
structure ChatOutputParser where
  mode : OutputMode
  pending : Text
  toolCall : Text
  toolCallProtocol : ToolCallProtocol
  gemmaChannelHeaderPending : Bool
  trimAfterThinking : Bool
  trimAfterToolCall : Bool
  stringArguments : BTreeMap Text (BTreeSet Text)
  toolParameters : BTreeMap Text ToolParameters
  directTools : List DirectTool
  activeDirectTool : Option Nat
  finished : Bool
  nextToolCallId : Nat

/-- Parameters whose schema is of type `string`. -/
def stringParameters (tool : ChatTool) : BTreeSet Text :=
  BTreeSet.ofKeys ((((tool.parameters.index "properties").asObject.getD []).filter fun field =>
    (field.2.index "type").asStr == some "string".toList).map Prod.fst)

/-- Names and required names of a tool's schema. -/
def ToolParameters.ofTool (tool : ChatTool) : ToolParameters where
  names := BTreeSet.ofKeys (((tool.parameters.index "properties").asObject.getD []).map Prod.fst)
  required := BTreeSet.ofKeys
    (((tool.parameters.index "required").asArray.getD []).filterMap Value.asStr)

/-- The direct form of a tool, when it has one. -/
def DirectTool.ofTool (tool : ChatTool) : Option DirectTool :=
  match (ToolParameters.ofTool tool).required.keys with
  | [parameter] =>
    if (stringParameters tool).contains parameter then some ⟨tool.name, parameter⟩ else none
  | _ => none

theorem directTool_name {tool : ChatTool} {direct : DirectTool}
    (h : DirectTool.ofTool tool = some direct) : direct.name = tool.name := by
  rw [DirectTool.ofTool] at h
  split at h
  · split at h
    · cases h
      rfl
    · cases h
  · cases h

/-- The tool loop of `ChatOutputParser::new`. -/
def collectTools : List ChatTool → BTreeMap Text (BTreeSet Text) → BTreeMap Text ToolParameters →
    List DirectTool → Except Error
      (BTreeMap Text (BTreeSet Text) × BTreeMap Text ToolParameters × List DirectTool)
  | [], strings, parameters, direct => .ok (strings, parameters, direct)
  | tool :: rest, strings, parameters, direct =>
    if strings.contains tool.name then
      .error ⟨"chat output tools", ["duplicate function definition ", .debug tool.name]⟩
    else collectTools rest (strings.insert tool.name (stringParameters tool))
      (parameters.insert tool.name (ToolParameters.ofTool tool))
      (direct ++ (DirectTool.ofTool tool).toList)

def ChatOutputParser.new (tools : List ChatTool) (startsInReasoning : Bool) (ids : Nat) :
    Except Error ChatOutputParser := do
  let (strings, parameters, direct) ← collectTools tools BTreeMap.empty BTreeMap.empty []
  return {
    mode := if startsInReasoning then .reasoning else .text
    pending := []
    toolCall := []
    toolCallProtocol := .standard
    gemmaChannelHeaderPending := false
    trimAfterThinking := false
    trimAfterToolCall := false
    stringArguments := strings
    toolParameters := parameters
    directTools := direct
    activeDirectTool := none
    finished := false
    nextToolCallId := ids
  }

/-- `push_nonempty`, for the two events that carry text. -/
def pushNonempty (makeEvent : Text → ChatOutputEvent) (t : Text) : List ChatOutputEvent :=
  if t.isEmpty then [] else [makeEvent t]

def takeEvent (makeEvent : Text → ChatOutputEvent) (pending : Text) : List ChatOutputEvent :=
  pushNonempty makeEvent pending

/-- `next_tool_call_id`: the value taken and the next one. -/
def nextToolCallId (value : Nat) : Except Error (Nat × Nat) :=
  if value + 1 < 2 ^ 64 then .ok (value, value + 1)
  else .error ⟨"chat tool call ID", ["tool call ID space exhausted"]⟩

def emitToolCalls : List ChatFunctionCall → Nat → Except Error (List ChatOutputEvent × Nat)
  | [], ids => .ok ([], ids)
  | function :: rest, ids => do
    let (id, ids) ← nextToolCallId ids
    let (events, ids) ← emitToolCalls rest ids
    return (.toolCall ⟨id, function⟩ :: events, ids)

namespace ChatOutputParser

abbrev Round := ChatOutputParser × List ChatOutputEvent × Bool

def flushSafePrefix (p : ChatOutputParser) (markers : List Text)
    (makeEvent : Text → ChatOutputEvent) : Round :=
  let emitted := p.pending.length - held markers p.pending
  if emitted = 0 then (p, [], false)
  else ({ p with pending := p.pending.drop emitted },
    pushNonempty makeEvent (p.pending.take emitted), true)

def reasoningMarkers : List (Text × Bool) :=
  [(gemmaChannelOpen, true), (thinkClose, false), (gemmaThinkClose, false)]

/-- `parse_reasoning` behind the channel header. -/
def parseReasoningBody (p : ChatOutputParser) : Round :=
  match earliest reasoningMarkers p.pending with
  | some (index, marker, opensChannel) =>
    let events := pushNonempty .reasoning (p.pending.take index)
    let p := { p with pending := p.pending.drop (index + marker.length) }
    if opensChannel then ({ p with gemmaChannelHeaderPending := true }, events, true)
    else ({ p with mode := .text, trimAfterThinking := true }, events, true)
  | none => p.flushSafePrefix (reasoningMarkers.map Prod.fst) .reasoning

def parseReasoning (p : ChatOutputParser) : Round :=
  if gemmaChannelOpen.isPrefixOf p.pending then
    ({ p with pending := p.pending.drop gemmaChannelOpen.length, gemmaChannelHeaderPending := true },
      [], true)
  else if p.pending.isPrefixOf gemmaChannelOpen then (p, [], false)
  else if p.gemmaChannelHeaderPending then
    if gemmaThinkChannel.isPrefixOf p.pending then
      ({ p with pending := p.pending.drop gemmaThinkChannel.length,
                gemmaChannelHeaderPending := false }, [], true)
    else if p.pending.isPrefixOf gemmaThinkChannel then (p, [], false)
    else parseReasoningBody { p with gemmaChannelHeaderPending := false }
  else parseReasoningBody p

def protocolMarkers : List (Text × ToolCallProtocol) :=
  [(lfmToolCallOpen, .lfm2), (toolCallOpen, .standard), (gemmaToolCallOpen, .gemma),
    (dsmlToolCallsOpen, .dsml), (atemToolCallsOpen, .atem)]

def channelMarkers : List (Text × Bool) :=
  [(gemmaChannelOpen, true), (gemmaThinkClose, false), (thinkOpen, true)]

def directMarkers (p : ChatOutputParser) : List (Text × Nat) :=
  p.directTools.zipIdx.map fun tool => (tool.1.openTag, tool.2)

def textMarkers (p : ChatOutputParser) : List Text :=
  protocolMarkers.map Prod.fst ++ channelMarkers.map Prod.fst ++ p.directTools.map DirectTool.openTag

/-- `is_none_or` on the index of a marker that was found. -/
def notBefore {γ : Type} (index : Nat) (found : Option (Nat × Text × γ)) : Bool :=
  found.all fun r => index ≤ r.1

/-- `parse_text` behind the newlines that follow thinking or a tool call. -/
def parseTextBody (p : ChatOutputParser) : Round :=
  let directOpen := earliest p.directMarkers p.pending
  let protocolOpen := earliest protocolMarkers p.pending
  let channelMarker := earliest channelMarkers p.pending
  match channelMarker.filter fun r => notBefore r.1 protocolOpen && notBefore r.1 directOpen with
  | some (index, marker, opensChannel) =>
    let events := pushNonempty .text (p.pending.take index)
    let p := { p with pending := p.pending.drop (index + marker.length) }
    if opensChannel then
      ({ p with mode := .reasoning,
                gemmaChannelHeaderPending := decide (marker = gemmaChannelOpen) }, events, true)
    else ({ p with trimAfterThinking := true }, events, true)
  | none =>
    match protocolOpen.filter fun r => notBefore r.1 directOpen with
    | some (index, opening, protocol) =>
      ({ p with pending := p.pending.drop (index + opening.length), toolCallProtocol := protocol,
                mode := .toolCall },
        pushNonempty .text (p.pending.take index), true)
    | none =>
      match directOpen with
      | some (index, opening, tool) =>
        ({ p with pending := p.pending.drop (index + opening.length),
                  activeDirectTool := some tool, mode := .directToolCall },
          pushNonempty .text (p.pending.take index), true)
      | none => p.flushSafePrefix p.textMarkers .text

def parseText (p : ChatOutputParser) : Round :=
  if p.trimAfterThinking || p.trimAfterToolCall then
    let pending := trimStartMatches isNewline p.pending
    if pending.isEmpty then ({ p with pending := pending }, [], false)
    else parseTextBody
      { p with pending := pending, trimAfterThinking := false, trimAfterToolCall := false }
  else parseTextBody p

section
variable (fromStr : Text → Except Text Value) {out : List ChatOutputEvent} {p q : ChatOutputParser}

/-- The body parsers of `parse_tool_call`. -/
def parseFunctions (p : ChatOutputParser) (body : Text) : Except Error (List ChatFunctionCall) :=
  match p.toolCallProtocol with
  | .lfm2 => do
    let calls ← Lfm2.parse fromStr body
    match calls.find? fun call => !p.toolParameters.contains call.name with
    | some call => throw ⟨"LFM2 tool call", ["unknown function ", .debug call.name]⟩
    | none => return calls
  | .standard => do
    return [← parseFunctionCall fromStr body p.stringArguments p.toolParameters]
  | .gemma => do
    return [← parseGemmaFunctionCall fromStr body p.stringArguments p.toolParameters]
  | .dsml => parseDsmlFunctionCalls fromStr body p.toolParameters
  | .atem => parseAtemFunctionCalls fromStr body p.stringArguments p.toolParameters

/-- Where the body of the open tool call ends. -/
def closeIndex (protocol : ToolCallProtocol) (toolCall : Text) : Option Nat :=
  if protocol = .lfm2 then Lfm2.closingOffset toolCall protocol.close
  else find protocol.close toolCall

def parseToolCall (p : ChatOutputParser) : Except Error Round :=
  let toolCall := p.toolCall ++ p.pending
  match closeIndex p.toolCallProtocol toolCall with
  | none => .ok ({ p with toolCall := toolCall, pending := [] }, [], false)
  | some index => do
    let functions ← p.parseFunctions fromStr (toolCall.take index)
    let (events, ids) ← emitToolCalls functions p.nextToolCallId
    return ({ p with toolCall := [],
                     pending := toolCall.drop (index + p.toolCallProtocol.close.length),
                     mode := .text, trimAfterToolCall := true, nextToolCallId := ids },
      events, true)

/-- `parse_direct_tool_call`. The mode is entered with an active tool only, so
the first branch stands for the panics that the source excludes. -/
def parseDirectToolCall (p : ChatOutputParser) : Except Error Round :=
  let toolCall := p.toolCall ++ p.pending
  match p.activeDirectTool.bind fun tool => p.directTools[tool]? with
  | none => .ok ({ p with toolCall := toolCall, pending := [] }, [], false)
  | some definition =>
    match find definition.closeTag toolCall with
    | none => .ok ({ p with toolCall := toolCall, pending := [] }, [], false)
    | some index => do
      let argument := stripProtocolNewlines (toolCall.take index)
      let function : ChatFunctionCall :=
        ⟨definition.name, BTreeMap.empty.insert definition.parameter (.string argument)⟩
      let (events, ids) ← emitToolCalls [function] p.nextToolCallId
      return ({ p with toolCall := [],
                       pending := toolCall.drop (index + definition.closeTag.length),
                       activeDirectTool := none, mode := .text, trimAfterToolCall := true,
                       nextToolCallId := ids },
        events, true)

/-- One round of the `push_text` loop. -/
def step (p : ChatOutputParser) : Except Error Round :=
  match p.mode with
  | .reasoning => .ok p.parseReasoning
  | .text => .ok p.parseText
  | .toolCall => p.parseToolCall fromStr
  | .directToolCall => p.parseDirectToolCall

/-- Text that the parser still holds. -/
def heldLength (p : ChatOutputParser) : Nat := p.toolCall.length + p.pending.length

/-! ## Every round that progresses consumes held text -/

theorem closeTag_ne_nil (tool : DirectTool) : tool.closeTag ≠ [] := List.cons_ne_nil _ _

theorem close_ne_nil (protocol : ToolCallProtocol) : protocol.close ≠ [] := by
  cases protocol <;> decide

theorem closingLoop_occurs {marker t : Text} {s : Lfm2.Quotation} {i : Nat}
    (h : Lfm2.closingLoop marker s t = some i) : marker <+: t.drop i := by
  induction t generalizing s i with
  | nil => cases h
  | cons c rest ih =>
    rw [Lfm2.closingLoop] at h
    split at h
    · rename_i hhere
      cases h
      exact List.isPrefixOf_iff_prefix.mp (Bool.and_eq_true _ _ ▸ hhere).2
    · obtain ⟨j, hj, rfl⟩ := Option.map_eq_some_iff.mp h
      exact ih hj

/-- The end that was found is an occurrence of the closing marker. -/
theorem closeIndex_occurs {protocol : ToolCallProtocol} {t : Text} {i : Nat}
    (h : closeIndex protocol t = some i) : i + protocol.close.length ≤ t.length := by
  rw [closeIndex] at h
  split at h
  · exact occurs_lt_length (close_ne_nil protocol) (closingLoop_occurs h)
  · exact find_lt_length (close_ne_nil protocol) h

theorem flushSafePrefix_consumes {markers : List Text} {makeEvent : Text → ChatOutputEvent}
    (h : p.flushSafePrefix markers makeEvent = (q, out, true)) : q.heldLength < p.heldLength := by
  simp only [flushSafePrefix] at h
  split at h
  · cases h
  · rename_i hpos
    simp only [Prod.mk.injEq] at h
    obtain ⟨rfl, -⟩ := h
    simp only [heldLength, List.length_drop]
    omega

/-- Dropping an occurrence of a marker and what stands before it. -/
theorem drop_earliest_lt {γ : Type} {markers : List (Text × γ)} {t marker : Text} {index : Nat}
    {b : γ} (hm : ∀ m ∈ markers, m.1 ≠ []) (h : earliest markers t = some (index, marker, b)) :
    (t.drop (index + marker.length)).length < t.length := by
  obtain ⟨hmem, hfind⟩ := earliest_eq_some h
  have hne := hm _ hmem
  have hlen := find_lt_length hne hfind
  have hpos := List.length_pos_iff.mpr hne
  rw [List.length_drop]
  simp only at hlen hpos
  omega

theorem reasoningMarkers_ne_nil : ∀ m ∈ reasoningMarkers, m.1 ≠ [] := by decide

theorem protocolMarkers_ne_nil : ∀ m ∈ protocolMarkers, m.1 ≠ [] := by decide

theorem channelMarkers_ne_nil : ∀ m ∈ channelMarkers, m.1 ≠ [] := by decide

theorem directMarkers_ne_nil (p : ChatOutputParser) : ∀ m ∈ p.directMarkers, m.1 ≠ [] := by
  intro m hm
  obtain ⟨tool, -, rfl⟩ := List.mem_map.mp hm
  exact List.cons_ne_nil _ _

theorem parseReasoningBody_consumes
    (h : p.parseReasoningBody = (q, out, true)) : q.heldLength < p.heldLength := by
  simp only [parseReasoningBody] at h
  split at h
  · rename_i index marker opens hfound
    have hlt := drop_earliest_lt reasoningMarkers_ne_nil hfound
    split at h <;>
    · simp only [Prod.mk.injEq] at h
      obtain ⟨rfl, -⟩ := h
      simpa [heldLength] using hlt
  · exact flushSafePrefix_consumes h

theorem drop_marker_lt {marker t : Text} (hne : marker ≠ []) (h : marker.isPrefixOf t) :
    (t.drop marker.length).length < t.length := by
  have hlen := (List.isPrefixOf_iff_prefix.mp h).length_le
  have hpos := List.length_pos_iff.mpr hne
  rw [List.length_drop]
  omega

theorem parseReasoning_consumes
    (h : p.parseReasoning = (q, out, true)) : q.heldLength < p.heldLength := by
  simp only [parseReasoning] at h
  split at h
  · rename_i hopen
    have hlt := drop_marker_lt (by decide) hopen
    simp only [Prod.mk.injEq] at h
    obtain ⟨rfl, -⟩ := h
    simpa [heldLength] using hlt
  · split at h
    · cases h
    · split at h
      · split at h
        · rename_i hopen
          have hlt := drop_marker_lt (by decide) hopen
          simp only [Prod.mk.injEq] at h
          obtain ⟨rfl, -⟩ := h
          simpa [heldLength] using hlt
        · split at h
          · cases h
          · exact parseReasoningBody_consumes (p := { p with gemmaChannelHeaderPending := false }) h
      · exact parseReasoningBody_consumes h

theorem parseTextBody_consumes
    (h : p.parseTextBody = (q, out, true)) : q.heldLength < p.heldLength := by
  simp only [parseTextBody] at h
  split at h
  · rename_i index marker opens hfound
    have hlt := drop_earliest_lt channelMarkers_ne_nil (Option.filter_eq_some_iff.mp hfound).1
    split at h <;>
    · simp only [Prod.mk.injEq] at h
      obtain ⟨rfl, -⟩ := h
      simpa [heldLength] using hlt
  · split at h
    · rename_i index opening protocol hfound
      have hlt := drop_earliest_lt protocolMarkers_ne_nil (Option.filter_eq_some_iff.mp hfound).1
      simp only [Prod.mk.injEq] at h
      obtain ⟨rfl, -⟩ := h
      simpa [heldLength] using hlt
    · split at h
      · rename_i index opening tool hfound
        have hlt := drop_earliest_lt p.directMarkers_ne_nil hfound
        simp only [Prod.mk.injEq] at h
        obtain ⟨rfl, -⟩ := h
        simpa [heldLength] using hlt
      · exact flushSafePrefix_consumes h

theorem parseText_consumes (h : p.parseText = (q, out, true)) : q.heldLength < p.heldLength := by
  simp only [parseText] at h
  split at h
  · split at h
    · cases h
    · have hlt := parseTextBody_consumes h
      have hle : (trimStartMatches isNewline p.pending).length ≤ p.pending.length :=
        (List.dropWhile_suffix _).length_le
      simp only [heldLength] at hlt ⊢
      omega
  · exact parseTextBody_consumes h

theorem parseToolCall_consumes
    (h : p.parseToolCall fromStr = .ok (q, out, true)) : q.heldLength < p.heldLength := by
  simp only [parseToolCall] at h
  split at h
  · cases h
  · rename_i index hindex
    obtain ⟨functions, -, h⟩ := bind_ok h
    obtain ⟨⟨events, ids⟩, -, h⟩ := bind_ok h
    have hpos := List.length_pos_iff.mpr (close_ne_nil p.toolCallProtocol)
    have hle := closeIndex_occurs hindex
    simp only [pure, Except.pure, Except.ok.injEq, Prod.mk.injEq] at h
    obtain ⟨rfl, -⟩ := h
    simp only [heldLength, List.length_nil, List.length_drop, List.length_append] at hle ⊢
    omega

theorem parseDirectToolCall_consumes
    (h : p.parseDirectToolCall = .ok (q, out, true)) : q.heldLength < p.heldLength := by
  simp only [parseDirectToolCall] at h
  split at h
  · cases h
  · rename_i definition hdef
    split at h
    · cases h
    · rename_i index hindex
      have hlen := find_lt_length (closeTag_ne_nil definition) hindex
      obtain ⟨⟨events, ids⟩, -, h⟩ := bind_ok h
      simp only [pure, Except.pure, Except.ok.injEq, Prod.mk.injEq] at h
      obtain ⟨rfl, -⟩ := h
      simp only [heldLength, List.length_nil, List.length_drop, List.length_append,
        DirectTool.closeTag, List.length_cons] at hlen ⊢
      omega

theorem step_consumes (h : p.step fromStr = .ok (q, out, true)) : q.heldLength < p.heldLength := by
  simp only [step] at h
  split at h
  · exact parseReasoning_consumes (Except.ok.inj h)
  · exact parseText_consumes (Except.ok.inj h)
  · exact parseToolCall_consumes fromStr h
  · exact parseDirectToolCall_consumes h

/-! ## What a round keeps and what it emits -/

/-- The tools and the `finished` flag, which no round changes. -/
structure SameTools (p q : ChatOutputParser) : Prop where
  parameters : q.toolParameters = p.toolParameters
  direct : q.directTools = p.directTools
  finished : q.finished = p.finished

theorem flushSafePrefix_sameTools (p : ChatOutputParser) (markers : List Text)
    (makeEvent : Text → ChatOutputEvent) : SameTools p (p.flushSafePrefix markers makeEvent).1 := by
  rw [flushSafePrefix]
  split <;> exact ⟨rfl, rfl, rfl⟩

theorem parseReasoningBody_sameTools (p : ChatOutputParser) :
    SameTools p p.parseReasoningBody.1 := by
  rw [parseReasoningBody]
  split
  · dsimp only
    split <;> exact ⟨rfl, rfl, rfl⟩
  · exact flushSafePrefix_sameTools p _ _

theorem parseReasoning_sameTools (p : ChatOutputParser) : SameTools p p.parseReasoning.1 := by
  rw [parseReasoning]
  split
  · exact ⟨rfl, rfl, rfl⟩
  · split
    · exact ⟨rfl, rfl, rfl⟩
    · split
      · split
        · exact ⟨rfl, rfl, rfl⟩
        · split
          · exact ⟨rfl, rfl, rfl⟩
          · obtain ⟨hparameters, hdirect, hfinished⟩ :=
              parseReasoningBody_sameTools { p with gemmaChannelHeaderPending := false }
            exact ⟨hparameters, hdirect, hfinished⟩
      · exact parseReasoningBody_sameTools p

theorem parseTextBody_sameTools (p : ChatOutputParser) : SameTools p p.parseTextBody.1 := by
  rw [parseTextBody]
  dsimp only
  split
  · split <;> exact ⟨rfl, rfl, rfl⟩
  · split
    · exact ⟨rfl, rfl, rfl⟩
    · split
      · exact ⟨rfl, rfl, rfl⟩
      · exact flushSafePrefix_sameTools p _ _

theorem parseText_sameTools (p : ChatOutputParser) : SameTools p p.parseText.1 := by
  rw [parseText]
  split
  · dsimp only
    split
    · exact ⟨rfl, rfl, rfl⟩
    · obtain ⟨hparameters, hdirect, hfinished⟩ := parseTextBody_sameTools
        { p with pending := trimStartMatches isNewline p.pending,
                 trimAfterThinking := false, trimAfterToolCall := false }
      exact ⟨hparameters, hdirect, hfinished⟩
  · exact parseTextBody_sameTools p

/-- A round in a tool call waits for the closing marker, or emits the calls of the
body in front of it. -/
theorem parseToolCall_ok {b : Bool} (h : p.parseToolCall fromStr = .ok (q, out, b)) :
    SameTools p q ∧
      (closeIndex p.toolCallProtocol (p.toolCall ++ p.pending) = none ∧ out = [] ∨
        ∃ index functions ids,
          closeIndex p.toolCallProtocol (p.toolCall ++ p.pending) = some index ∧
          p.parseFunctions fromStr ((p.toolCall ++ p.pending).take index) = .ok functions ∧
          emitToolCalls functions p.nextToolCallId = .ok (out, ids)) := by
  rw [parseToolCall] at h
  dsimp only at h
  split at h
  · rename_i hnone
    cases h
    exact ⟨⟨rfl, rfl, rfl⟩, .inl ⟨hnone, rfl⟩⟩
  · rename_i index hindex
    obtain ⟨functions, hfunctions, h⟩ := bind_ok h
    obtain ⟨⟨events, ids⟩, hevents, h⟩ := bind_ok h
    cases h
    exact ⟨⟨rfl, rfl, rfl⟩, .inr ⟨index, functions, ids, hindex, hfunctions, hevents⟩⟩

theorem parseDirectToolCall_ok {b : Bool} (h : p.parseDirectToolCall = .ok (q, out, b)) :
    SameTools p q ∧
      (out = [] ∨ ∃ definition ∈ p.directTools, ∃ arguments ids,
        emitToolCalls [⟨definition.name, arguments⟩] p.nextToolCallId = .ok (out, ids)) := by
  rw [parseDirectToolCall] at h
  dsimp only at h
  split at h
  · cases h
    exact ⟨⟨rfl, rfl, rfl⟩, .inl rfl⟩
  · rename_i definition hdefinition
    obtain ⟨tool, -, htool⟩ := Option.bind_eq_some_iff.mp hdefinition
    split at h
    · cases h
      exact ⟨⟨rfl, rfl, rfl⟩, .inl rfl⟩
    · obtain ⟨⟨events, ids⟩, hevents, h⟩ := bind_ok h
      cases h
      exact ⟨⟨rfl, rfl, rfl⟩, .inr ⟨definition, List.mem_of_getElem? htool, _, ids, hevents⟩⟩

theorem step_sameTools {b : Bool} (h : p.step fromStr = .ok (q, out, b)) : SameTools p q := by
  rw [step] at h
  split at h
  · obtain rfl : p.parseReasoning.1 = q := by rw [Except.ok.inj h]
    exact parseReasoning_sameTools p
  · obtain rfl : p.parseText.1 = q := by rw [Except.ok.inj h]
    exact parseText_sameTools p
  · exact (parseToolCall_ok fromStr h).1
  · exact (parseDirectToolCall_ok h).1

section
variable {P : ChatOutputEvent → Prop} {makeEvent : Text → ChatOutputEvent}

theorem forall_mem_pushNonempty (hmake : ∀ t, t ≠ [] → P (makeEvent t)) (t : Text) :
    ∀ event ∈ pushNonempty makeEvent t, P event := by
  intro event hevent
  rw [pushNonempty] at hevent
  split at hevent
  · cases hevent
  · rename_i hne
    obtain rfl := List.mem_singleton.mp hevent
    exact hmake t (by simpa using hne)

theorem forall_mem_flushSafePrefix
    (hmake : ∀ t, t ≠ [] → P (makeEvent t)) (p : ChatOutputParser) (markers : List Text) :
    ∀ event ∈ (p.flushSafePrefix markers makeEvent).2.1, P event := by
  rw [flushSafePrefix]
  split
  · exact List.forall_mem_nil _
  · exact forall_mem_pushNonempty hmake _

theorem forall_mem_parseReasoningBody (hmake : ∀ t, t ≠ [] → P (.reasoning t))
    (p : ChatOutputParser) : ∀ event ∈ p.parseReasoningBody.2.1, P event := by
  rw [parseReasoningBody]
  split
  · dsimp only
    split <;> exact forall_mem_pushNonempty hmake _
  · exact forall_mem_flushSafePrefix hmake p _

/-- A round in reasoning emits reasoning events with text in them. -/
theorem forall_mem_parseReasoning (hmake : ∀ t, t ≠ [] → P (.reasoning t))
    (p : ChatOutputParser) : ∀ event ∈ p.parseReasoning.2.1, P event := by
  rw [parseReasoning]
  split
  · exact List.forall_mem_nil _
  · split
    · exact List.forall_mem_nil _
    · split
      · split
        · exact List.forall_mem_nil _
        · split
          · exact List.forall_mem_nil _
          · exact forall_mem_parseReasoningBody hmake _
      · exact forall_mem_parseReasoningBody hmake p

theorem forall_mem_parseTextBody (hmake : ∀ t, t ≠ [] → P (.text t)) (p : ChatOutputParser) :
    ∀ event ∈ p.parseTextBody.2.1, P event := by
  rw [parseTextBody]
  dsimp only
  split
  · split <;> exact forall_mem_pushNonempty hmake _
  · split
    · exact forall_mem_pushNonempty hmake _
    · split
      · exact forall_mem_pushNonempty hmake _
      · exact forall_mem_flushSafePrefix hmake p _

theorem forall_mem_parseText (hmake : ∀ t, t ≠ [] → P (.text t)) (p : ChatOutputParser) :
    ∀ event ∈ p.parseText.2.1, P event := by
  rw [parseText]
  split
  · dsimp only
    split
    · exact List.forall_mem_nil _
    · exact forall_mem_parseTextBody hmake _
  · exact forall_mem_parseTextBody hmake p

theorem forall_mem_emitToolCalls {Q : ChatFunctionCall → Prop}
    (hcall : ∀ call, P (.toolCall call) ↔ Q call.function) {functions : List ChatFunctionCall}
    {ids ids' : Nat} {events : List ChatOutputEvent}
    (h : emitToolCalls functions ids = .ok (events, ids')) :
    (∀ event ∈ events, P event) ↔ ∀ function ∈ functions, Q function := by
  induction functions generalizing ids ids' events with
  | nil =>
    cases h
    simp
  | cons function rest ih =>
    rw [emitToolCalls] at h
    obtain ⟨⟨id, next⟩, -, h⟩ := bind_ok h
    obtain ⟨⟨tail, last⟩, htail, h⟩ := bind_ok h
    cases h
    rw [List.forall_mem_cons, List.forall_mem_cons, hcall, ih htail]

end

/-- The `push_text` loop. -/
def machine : Drain.Machine ChatOutputParser Error ChatOutputEvent where
  step := step fromStr
  size := heldLength
  decreases := step_consumes fromStr

/-- `self.pending.push_str(text)`. -/
def feed (p : ChatOutputParser) (t : Text) : ChatOutputParser :=
  { p with pending := p.pending ++ t }

def pushText (p : ChatOutputParser) (t : Text) :
    Except Error (ChatOutputParser × List ChatOutputEvent) :=
  if p.finished then .error ⟨"chat output parser", ["cannot push text after finish"]⟩
  else (machine fromStr).drain (p.feed t)

/-- `finish_with_truncation`. The pending text is taken by the event. -/
def finishWithTruncation (p : ChatOutputParser) (truncated : Bool) :
    Except Error (ChatOutputParser × List ChatOutputEvent) :=
  if p.finished then .ok (p, [])
  else
    let p := { p with finished := true }
    match p.mode with
    | .reasoning => .ok ({ p with pending := [] }, takeEvent .reasoning p.pending)
    | .text => .ok ({ p with pending := [] }, takeEvent .text p.pending)
    | .toolCall =>
      if truncated then .ok (p, [])
      else .error ⟨"chat tool call", ["generation ended before ", .text p.toolCallProtocol.close]⟩
    | .directToolCall =>
      if truncated then .ok (p, [])
      else .error ⟨"chat tool call", ["generation ended inside an unterminated direct tool call"]⟩

theorem forall_mem_finish {P : ChatOutputEvent → Prop} (hreasoning : ∀ t, t ≠ [] → P (.reasoning t))
    (htext : ∀ t, t ≠ [] → P (.text t)) {p q : ChatOutputParser} {truncated : Bool}
    {events : List ChatOutputEvent} (h : p.finishWithTruncation truncated = .ok (q, events)) :
    ∀ event ∈ events, P event := by
  rw [finishWithTruncation] at h
  split at h
  · cases h
    exact List.forall_mem_nil _
  · dsimp only at h
    split at h
    · cases h
      exact forall_mem_pushNonempty hreasoning _
    · cases h
      exact forall_mem_pushNonempty htext _
    · split at h
      · cases h
        exact List.forall_mem_nil _
      · cases h
    · split at h
      · cases h
        exact List.forall_mem_nil _
      · cases h

def beginMuseSegment (p : ChatOutputParser) (header : Text) : Except Error ChatOutputParser := do
  let header := trim header
  let recipient ← okOr ((((stripPrefix "assistant" header).map trim).bind
    (stripPrefix "to=")).map trim) ⟨"Muse Glimmer output",
      ["invalid recipient header ", .debug header]⟩
  if recipient.isEmpty then
    throw ⟨"Muse Glimmer output", ["recipient header has an empty recipient"]⟩
  return { p with
    mode := if recipient = "self".toList then .reasoning else .text
    trimAfterThinking := false
    trimAfterToolCall := false }

def endMuseSegment (p : ChatOutputParser) :
    Except Error (ChatOutputParser × List ChatOutputEvent) :=
  match p.mode with
  | .reasoning => .ok ({ p with mode := .text, pending := [] }, takeEvent .reasoning p.pending)
  | .text => .ok ({ p with mode := .text, pending := [] }, takeEvent .text p.pending)
  | .toolCall => .error ⟨"Muse Glimmer tool call",
      ["message ended before ", .text p.toolCallProtocol.close]⟩
  | .directToolCall => .error ⟨"Muse Glimmer tool call",
      ["message ended inside a direct tool call"]⟩

end

end ChatOutputParser

end Eider.Source
