import Eider.Source.ChatOutput

/-!
`ChatOutputCodec` (`chat_output.rs`, lines 90 to 290): the request-scoped decoder
from generated vocabulary ids to output events. The tokenizer is a third-party
crate, so it is a parameter: `token_to_id`, and the incremental decode stream as
a state `δ` with its step.
-/
namespace Eider.Source

/-- What the codec calls of a `Tokenizer`. `step` returns the text that a token
completes, if it completes any. -/
structure Tokenizer (δ : Type) where
  tokenToId : Text → Option Nat
  decodeStream : δ
  step : δ → Nat → Except Text (Option Text × δ)

structure GemmaSpecialTokens where
  channelOpen : Nat
  channelClose : Nat
  toolCallOpen : Nat
  toolCallClose : Nat

structure MuseSpecialTokens where
  start : Nat
  message : Nat
  endMessage : Nat
  endTurn : Nat

structure ChatOutputCodec (δ : Type) where
  decodeStream : δ
  parser : ChatOutputParser
  gemmaSpecialTokens : Option GemmaSpecialTokens
  protocolSpecialTokens : List (Nat × Text)
  museSpecialTokens : Option MuseSpecialTokens
  museHeader : Option Text
  finished : Bool

namespace ChatOutputCodec
variable {δ : Type}

/-- Protocol markers that a tokenizer may hold as special tokens. -/
def protocolSpecialMarkers : List Text :=
  [lfmToolCallOpen, lfmToolCallClose, thinkOpen, thinkClose, toolCallOpen, toolCallClose,
    "<arg_key>", "</arg_key>", "<arg_value>", "</arg_value>"]

def new (tokenizer : Tokenizer δ) (tools : List ChatTool) (startsInReasoning : Bool) (ids : Nat) :
    Except Error (ChatOutputCodec δ) := do
  let gemma := do
    return GemmaSpecialTokens.mk (← tokenizer.tokenToId gemmaChannelOpen)
      (← tokenizer.tokenToId gemmaThinkClose) (← tokenizer.tokenToId gemmaToolCallOpen)
      (← tokenizer.tokenToId gemmaToolCallClose)
  let muse := do
    return MuseSpecialTokens.mk (← tokenizer.tokenToId "<|start|>")
      (← tokenizer.tokenToId "<|message|>") (← tokenizer.tokenToId "<|eom|>")
      (← tokenizer.tokenToId "<|eot|>")
  let parser ← ChatOutputParser.new tools startsInReasoning ids
  return {
    decodeStream := tokenizer.decodeStream
    parser := parser
    gemmaSpecialTokens := gemma
    protocolSpecialTokens :=
      if (tokenizer.tokenToId lfmToolCallOpen).isSome ∨ (tokenizer.tokenToId "<arg_key>").isSome
      then protocolSpecialMarkers.filterMap fun marker =>
        (tokenizer.tokenToId marker).map fun id => (id, marker)
      else []
    museSpecialTokens := muse
    museHeader := muse.map fun _ => "assistant".toList
    finished := false
  }

/-- The marker of a Gemma special token. -/
def gemmaMarker (tokens : GemmaSpecialTokens) (token : Nat) : Option Text :=
  if token = tokens.channelOpen then some gemmaChannelOpen
  else if token = tokens.channelClose then some gemmaThinkClose
  else if token = tokens.toolCallOpen then some gemmaToolCallOpen
  else if token = tokens.toolCallClose then some gemmaToolCallClose
  else none

section
variable (fromStr : Text → Except Text Value) (tokenizer : Tokenizer δ) (codec : ChatOutputCodec δ)

def pushText (text : Text) :
    Except Error (ChatOutputCodec δ × List ChatOutputEvent) := do
  let (parser, events) ← codec.parser.pushText fromStr text
  return ({ codec with parser := parser }, events)

variable (token : Nat)

/-- The end of `push_token`: an ordinary token. -/
def pushDecoded : Except Error (ChatOutputCodec δ × List ChatOutputEvent) :=
  match tokenizer.step codec.decodeStream token with
  | .error detail => .error ⟨"tokenizer decode stream", [.text detail]⟩
  | .ok (none, decodeStream) => .ok ({ codec with decodeStream := decodeStream }, [])
  | .ok (some text, decodeStream) =>
    let codec := { codec with decodeStream := decodeStream }
    match codec.museHeader with
    | some header => .ok ({ codec with museHeader := some (header ++ text) }, [])
    | none => codec.pushText fromStr text

/-- `push_token` behind the Muse markers. -/
def pushGemma : Except Error (ChatOutputCodec δ × List ChatOutputEvent) :=
  match codec.gemmaSpecialTokens.bind fun tokens => gemmaMarker tokens token with
  | some marker => codec.pushText fromStr marker
  | none => codec.pushDecoded fromStr tokenizer token

/-- `push_token` behind the protocol markers. -/
def pushMuse : Except Error (ChatOutputCodec δ × List ChatOutputEvent) :=
  match codec.museSpecialTokens with
  | none => codec.pushGemma fromStr tokenizer token
  | some tokens =>
    if token = tokens.start then .ok ({ codec with museHeader := some [] }, [])
    else if token = tokens.message then do
      let header ← okOr codec.museHeader
        ⟨"Muse Glimmer output", ["message marker appeared outside a recipient header"]⟩
      let parser ← codec.parser.beginMuseSegment header
      return ({ codec with museHeader := none, parser := parser }, [])
    else if token = tokens.endMessage ∨ token = tokens.endTurn then do
      let (parser, events) ← codec.parser.endMuseSegment
      return ({ codec with parser := parser, museHeader := some [] }, events)
    else codec.pushGemma fromStr tokenizer token

def pushToken : Except Error (ChatOutputCodec δ × List ChatOutputEvent) :=
  if codec.finished then
    .error ⟨"chat output stream", ["cannot push a token after finish"]⟩
  else
    match codec.protocolSpecialTokens.find? fun special => special.1 = token with
    | some special => codec.pushText fromStr special.2
    | none => codec.pushMuse fromStr tokenizer token

end

def isReasoning (codec : ChatOutputCodec δ) : Bool := codec.parser.mode == .reasoning

def finishWithTruncation (codec : ChatOutputCodec δ) (truncated : Bool) :
    Except Error (ChatOutputCodec δ × List ChatOutputEvent) :=
  if codec.finished then .ok (codec, [])
  else do
    let (parser, events) ← codec.parser.finishWithTruncation truncated
    return ({ codec with finished := true, parser := parser }, events)

end ChatOutputCodec

end Eider.Source
