import Eider.Source.ResponseStream

/-!
The input parser of the Responses API (`eider-api/src/protocol.rs`, lines 316 to 509), and
the output items as the JSON that a client sends back.

An identity is printed by `printId`, from its prefix and its number: `nextIdText` for the
server's own, and any other texts where the numbers merely tell identities apart.
`serde_json::to_string` and `from_str` are parameters.
-/
namespace Eider.Source.Responses
open Lib

def Value.get (value : Value) (key : Text) : Option Value :=
  value.asObject.bind fun fields => fields.lookup key

structure ApiError where
  message : List Piece
  kind : Text
  param : Option Text
  code : Option Text
deriving DecidableEq, Repr

def ApiError.invalid (param : Text) (message : List Piece) : ApiError where
  message := message
  kind := "invalid_request_error"
  param := some param
  code := none

inductive ChatRole where
  | system
  | developer
  | user
  | assistant
  | tool
deriving DecidableEq, Repr

/-- `ChatToolCall`, with the identity as its text. -/
structure HistoryToolCall where
  id : Text
  function : ChatFunctionCall

structure ChatMessage where
  role : ChatRole
  content : Option Text
  reasoningContent : Option Text
  toolCalls : List HistoryToolCall
  toolCallId : Option Text

def ChatMessage.text (role : ChatRole) (content : Text) : ChatMessage where
  role := role
  content := some content
  reasoningContent := none
  toolCalls := []
  toolCallId := none

def ChatMessage.tool (toolCallId content : Text) : ChatMessage where
  role := .tool
  content := some content
  reasoningContent := none
  toolCalls := []
  toolCallId := some toolCallId

def ChatMessage.assistantToolCalls (content reasoningContent : Option Text)
    (toolCalls : List HistoryToolCall) : ChatMessage where
  role := .assistant
  content := content
  reasoningContent := reasoningContent
  toolCalls := toolCalls
  toolCallId := none

/-! ## Output items as JSON -/

def ItemStatus.name : ItemStatus → Text
  | .inProgress => "in_progress"
  | .completed => "completed"

def outputText (text : Text) : Value :=
  .object [("type", .string "output_text"), ("text", .string text), ("annotations", .array []),
    ("logprobs", .array [])]

def reasoningSummary (text : Text) : Value :=
  .object [("type", .string "summary_text"), ("text", .string text)]

/-- The text that `next_id` makes of its prefix and the value of its counter. -/
def nextIdText (kind : Text) (id : Nat) : Text :=
  let digits := Nat.toDigits 16 id
  kind ++ ("_" : Text) ++ List.replicate (16 - digits.length) '0' ++ digits

section
variable (printId : Text → Nat → Text)

/-- The JSON of `message_item`, `reasoning_item` and `function_item`. -/
def OutputItem.toValue : OutputItem → Value
  | .message id status content =>
    .object [("id", .string (printId "msg" id)), ("type", .string "message"),
      ("status", .string status.name), ("role", .string "assistant"),
      ("content", .array (content.map outputText))]
  | .reasoning id status summary =>
    .object [("id", .string (printId "rs" id)), ("type", .string "reasoning"),
      ("status", .string status.name), ("summary", .array (summary.map reasoningSummary)),
      ("content", .array []), ("encrypted_content", .null)]
  | .functionCall id status callId name arguments =>
    .object [("id", .string (printId "fc" id)), ("type", .string "function_call"),
      ("status", .string status.name), ("call_id", .string (printId "call" callId)),
      ("name", .string name), ("arguments", .string arguments)]

end

/-! ## The parser -/

def requiredString (value : Value) (key param : Text) : Except ApiError Text :=
  match (Value.get value key).bind Value.asStr with
  | some text => .ok text
  | none => .error (.invalid param ["missing string field ", .debug key])

/-- One part of `parse_content`. -/
def parseContentPart (text : Text) (part : Value) : Except ApiError Text := do
  let kind ← requiredString part "type" "input"
  if kind = ("input_text" : Text) ∨ kind = ("output_text" : Text) then
    return text ++ (← requiredString part "text" "input")
  else throw (.invalid "input" ["unsupported message content type ", .debug kind])

def parseContent : Option Value → Except ApiError Text
  | some (.string text) => .ok text
  | some (.array parts) => parts.foldlM parseContentPart []
  | none => .ok []
  | some .null => .ok []
  | some _ => .error (.invalid "input" ["message content must be text or an array of text parts"])

/-- The role of `parse_message`. -/
def parseRole (role : Text) : Except ApiError ChatRole :=
  if role = ("system" : Text) then .ok .system
  else if role = ("developer" : Text) then .ok .developer
  else if role = ("user" : Text) then .ok .user
  else if role = ("assistant" : Text) then .ok .assistant
  else if role = ("tool" : Text) then .ok .tool
  else .error (.invalid "input" ["unsupported message role ", .debug role])

def parseMessage (value : Value) : Except ApiError ChatMessage := do
  let role ← parseRole (← requiredString value "role" "input")
  let content ← parseContent (Value.get value "content")
  if role = .tool then
    let callId ← requiredString value "tool_call_id" "input"
    return .tool callId content
  return .text role content

/-- One part of `parse_reasoning`. -/
def parseReasoningPart (reasoning : Text) (part : Value) : Except ApiError Text :=
  if (Value.get part "type").bind Value.asStr ≠ some ("summary_text" : Text) then .ok reasoning
  else do return reasoning ++ (← requiredString part "text" "input")

def parseReasoning (value : Value) : Except ApiError (Option Text) :=
  match Value.get value "summary" with
  | none => .ok none
  | some (.array parts) => do
    let reasoning ← parts.foldlM parseReasoningPart []
    return if reasoning.isEmpty then none else some reasoning
  | some _ => .error (.invalid "input" ["reasoning summary must be an array"])

/-- What the parser has read: finished messages, and the assistant message that may grow. -/
structure History where
  messages : List ChatMessage
  assistant : Option ChatMessage

def appendText : Option Text → Text → Option Text
  | some target, text => some (target ++ text)
  | none, text => some text

/-- `append_text`, where there is text to append. -/
def appendTaken (target : Option Text) : Option Text → Option Text
  | some text => appendText target text
  | none => target

namespace History

def pendingAssistant (h : History) : ChatMessage :=
  h.assistant.getD (.assistantToolCalls none none [])

def appendAssistantMessage (h : History) (message : ChatMessage) : History :=
  let pending := h.pendingAssistant
  { h with
    assistant := some
      { pending with
        content := appendTaken pending.content message.content
        reasoningContent := appendTaken pending.reasoningContent message.reasoningContent
        toolCalls := pending.toolCalls ++ message.toolCalls } }

def flushAssistantMessage (h : History) : History :=
  { messages := h.messages ++ h.assistant.toList, assistant := none }

end History

section
variable (fromStr : Text → Except Text (BTreeMap Text Value)) (toString : Value → Text)

def parseFunctionCall (value : Value) : Except ApiError HistoryToolCall := do
  let callId ← requiredString value "call_id" "input"
  let name ← requiredString value "name" "input"
  let arguments ← requiredString value "arguments" "input"
  match fromStr arguments with
  | .ok arguments => return ⟨callId, ⟨name, arguments⟩⟩
  | .error error =>
    throw (.invalid "input"
      ["function call ", .debug name, " has invalid JSON arguments: ", .text error])

def parseFunctionOutput (value : Value) : Except ApiError ChatMessage := do
  let callId ← requiredString value "call_id" "input"
  match Value.get value "output" with
  | some (.string output) => return .tool callId output
  | some output => return .tool callId (toString output)
  | none => throw (.invalid "input" ["function output is missing output"])

/-- The kind of an input item. -/
def itemKind (item : Value) : Except ApiError Text :=
  match (Value.get item "type").bind Value.asStr with
  | some kind => .ok kind
  | none =>
    if ((Value.get item "role").bind Value.asStr).isSome then .ok "message"
    else .error (.invalid "input" ["input item is missing a string type field"])

/-- One item of `parse_input_items`. -/
def parseInputItem (h : History) (item : Value) : Except ApiError History := do
  let kind ← itemKind item
  if kind = ("message" : Text) then
    let message ← parseMessage item
    if message.role = .assistant then return h.appendAssistantMessage message
    else
      let h := h.flushAssistantMessage
      return { h with messages := h.messages ++ [message] }
  else if kind = ("function_call" : Text) then
    let call ← parseFunctionCall fromStr item
    let pending := h.pendingAssistant
    return { h with assistant := some { pending with toolCalls := pending.toolCalls ++ [call] } }
  else if kind = ("function_call_output" : Text) then
    let h := h.flushAssistantMessage
    let message ← parseFunctionOutput toString item
    return { h with messages := h.messages ++ [message] }
  else if kind = ("reasoning" : Text) then
    match ← parseReasoning item with
    | some reasoning =>
      let pending := h.pendingAssistant
      return { h with
        assistant := some
          { pending with reasoningContent := appendText pending.reasoningContent reasoning } }
    | none => return h
  else throw (.invalid "input" ["unsupported input item type ", .debug kind])

def parseInputItems (items : List Value) : Except ApiError (List ChatMessage) := do
  let h ← items.foldlM (parseInputItem fromStr toString) ⟨[], none⟩
  return h.flushAssistantMessage.messages

end

end Eider.Source.Responses
