import Eider.Lib.BTreeMap
import Eider.Source.Text

/-!
Tool-call bodies of the chat protocols (`chat_output.rs`, lines 846 to 1434, and
`chat_output/lfm2.rs`): the ATEM, DSML, Gemma, XML, Poolside, JSON and LFM2
parsers, each from the text between an opening and a closing marker to function
calls. `serde_json::from_str` is the parameter `fromStr`.

A source loop over the remaining text is a recursion on fuel, entered with more
fuel than the text is long; every round removes at least one character.
-/
namespace Eider.Source
open Lib Lib.Search

structure ChatFunctionCall where
  name : Text
  arguments : BTreeMap Text Value

/-- Names of a tool's parameters that the parser checks calls against. -/
structure ToolParameters where
  names : BTreeSet Text
  required : BTreeSet Text

variable {α : Type}

def okOr (x : Option α) (e : Error) : Except Error α :=
  match x with
  | some a => .ok a
  | none => .error e

/-! Peeling of successful calls. -/

theorem ensure_ok {b : Bool} {e : Error} {next : Except Error α} {value : α}
    (h : (if (!b) = true then throw e else next) = .ok value) : b = true ∧ next = .ok value := by
  cases b with
  | false => cases h
  | true => exact ⟨rfl, h⟩

theorem guard_ok {b : Bool} {e : Error} {next : Unit → Except Error α} {value : α}
    (h : (if b = true then throw e >>= next else next ()) = .ok value) :
    b = false ∧ next () = .ok value := by
  cases b with
  | false => exact ⟨rfl, h⟩
  | true => cases h

theorem okOr_eq_ok {x : Option α} {e : Error} {value : α}
    (h : okOr x e = .ok value) : x = some value := by
  cases x with
  | none => cases h
  | some a => exact congrArg some (Except.ok.inj h)

def chatToolCallError (detail : List Piece) : Error := ⟨"chat tool call", detail⟩

def isProtocolNameChar (c : Char) : Bool :=
  isAsciiAlphanumeric c || c == '_' || c == '-' || c == '.'

def isProtocolName (name : Text) : Bool := !name.isEmpty && name.all isProtocolNameChar

def validateProtocolName (kind : String) (name : Text) : Except Error Unit :=
  if isProtocolName name then .ok ()
  else .error (chatToolCallError ["invalid ", kind, " name ", .debug name])

def trimProtocolWhitespaceStart : Text → Text :=
  trimStartMatches fun c => c == ' ' || c == '\t' || c == '\r' || c == '\n'

def isNewline (c : Char) : Bool := c == '\r' || c == '\n'

/-- `strip_protocol_newlines`: one line break at each end. -/
def stripProtocolNewlines (value : Text) : Text :=
  let value := ((stripPrefix "\r\n" value).or (stripPrefix "\n" value)).getD value
  ((stripSuffix "\r\n" value).or (stripSuffix "\n" value)).getD value

def protocolPreview (value : Text) : List Piece :=
  if 96 < value.length then [.debug (value.take 96), "..."] else [.debug value]

/-- An insertion that must not meet a present key. -/
def insertNew (m : BTreeMap Text Value) (k : Text) (v : Value) (duplicate : Error) :
    Except Error (BTreeMap Text Value) :=
  if m.contains k then .error duplicate else .ok (m.insert k v)

theorem insertNew_eq_ok {m m' : BTreeMap Text Value} {k : Text} {v : Value} {duplicate : Error}
    (h : insertNew m k v duplicate = .ok m') : m.contains k = false ∧ m' = m.insert k v := by
  rw [insertNew] at h
  split at h
  · cases h
  · rename_i hnew
    exact ⟨by simpa using hnew, (Except.ok.inj h).symm⟩

/-! ## DSML tags -/

def dsmlInvokeOpen : Text := "<｜DSML｜invoke"
def dsmlInvokeClose : Text := "</｜DSML｜invoke>"
def dsmlParameterOpen : Text := "<｜DSML｜parameter"
def dsmlParameterClose : Text := "</｜DSML｜parameter>"
def atemInvokeOpen : Text := "<atem:invoke"
def atemInvokeClose : Text := "</atem:invoke>"
def atemParameterOpen : Text := "<atem:parameter"
def atemParameterClose : Text := "</atem:parameter>"

/-- The loop of `parse_dsml_attributes`. -/
def dsmlAttributes (kind : String) :
    Nat → Text → BTreeMap Text Text → Except Error (BTreeMap Text Text)
  | 0, _, attributes => .ok attributes
  | fuel + 1, input, attributes => do
    let remaining := trimStartMatches isWhitespace input
    if remaining.isEmpty then
      return attributes
    let nameEnd := (findChar (fun c => c == '=' || isWhitespace c) remaining).getD remaining.length
    let name := remaining.take nameEnd
    validateProtocolName "attribute" name
    let remaining := trimStartMatches isWhitespace (remaining.drop nameEnd)
    let remaining ← okOr (stripPrefix "=" remaining) (chatToolCallError
      ["DSML ", kind, " attribute ", .debug name, " is missing '='"])
    let remaining := trimStartMatches isWhitespace remaining
    let remaining ← okOr (stripPrefix "\"" remaining) (chatToolCallError
      ["DSML ", kind, " attribute ", .debug name, " must use double quotes"])
    let valueEnd ← okOr (findChar (· == '"') remaining) (chatToolCallError
      ["unterminated DSML ", kind, " attribute ", .debug name])
    if attributes.contains name then
      throw (chatToolCallError ["duplicate DSML ", kind, " attribute ", .debug name])
    dsmlAttributes kind fuel (remaining.drop (valueEnd + 1))
      (attributes.insert name (remaining.take valueEnd))

def parseDsmlAttributes (input : Text) (kind : String) : Except Error (BTreeMap Text Text) :=
  dsmlAttributes kind (input.length + 1) input BTreeMap.empty

def parseDsmlOpenTag (input marker : Text) (kind : String) :
    Except Error (BTreeMap Text Text × Text) := do
  let tag ← okOr (stripPrefix marker input) (chatToolCallError
    ["expected ", .text marker, " in DSML tool call"])
  if !(tag.head?.any fun c => c == '>' || isAsciiWhitespace c) then
    throw (chatToolCallError ["invalid DSML ", kind, " opening tag"])
  let close ← okOr (findChar (· == '>') tag) (chatToolCallError
    ["unterminated DSML ", kind, " opening tag"])
  let attributes ← parseDsmlAttributes (tag.take close) kind
  return (attributes, tag.drop (close + 1))

def takeDsmlAttribute (attributes : BTreeMap Text Text) (name kind : String) :
    Except Error (Text × BTreeMap Text Text) := do
  let value ← okOr (attributes.get name) (chatToolCallError
    ["DSML ", kind, " is missing its ", .debug name, " attribute"])
  return (value, attributes.erase name)

def rejectDsmlAttributes (attributes : BTreeMap Text Text) (kind : String) : Except Error Unit :=
  match attributes.keys with
  | [] => .ok ()
  | name :: _ => .error (chatToolCallError ["unexpected DSML ", kind, " attribute ", .debug name])

section
variable (fromStr : Text → Except Text Value)

/-! ## ATEM and DSML -/

/-- The loop of `parse_atem_parameters`. -/
def atemParameters (function : Text) (stringArguments : Option (BTreeSet Text)) :
    Nat → Text → BTreeMap Text Value → Except Error (BTreeMap Text Value)
  | 0, _, arguments => .ok arguments
  | fuel + 1, input, arguments => do
    let remaining := trimProtocolWhitespaceStart input
    if remaining.isEmpty then
      return arguments
    let (attributes, parameterBody) ←
      parseDsmlOpenTag remaining atemParameterOpen "ATEM parameter"
    let (name, attributes) ← takeDsmlAttribute attributes "name" "ATEM parameter"
    rejectDsmlAttributes attributes "ATEM parameter"
    validateProtocolName "parameter" name
    let close ← okOr (find atemParameterClose parameterBody) (chatToolCallError
      ["missing ", .text atemParameterClose, " for ", .debug name])
    let rawValue := parameterBody.take close
    let value :=
      if stringArguments.any (·.contains name) then Value.string rawValue
      else match fromStr rawValue with
        | .ok value => value
        | .error _ => .string rawValue
    let arguments ← insertNew arguments name value (chatToolCallError
      ["duplicate parameter ", .debug name, " in ATEM invocation ", .debug function])
    atemParameters function stringArguments fuel
      (parameterBody.drop (close + atemParameterClose.length)) arguments

def parseAtemParameters (function body : Text) (stringArguments : Option (BTreeSet Text)) :
    Except Error (BTreeMap Text Value) :=
  atemParameters fromStr function stringArguments (body.length + 1) body BTreeMap.empty

variable (body : Text) (stringArguments : BTreeMap Text (BTreeSet Text))
variable (toolParameters : BTreeMap Text ToolParameters)

/-- The loop of `parse_atem_function_calls`. -/
def atemInvocations :
    Nat → Text → List ChatFunctionCall → Except Error (List ChatFunctionCall)
  | 0, _, functions => .ok functions
  | fuel + 1, input, functions => do
    let remaining := trimProtocolWhitespaceStart input
    if remaining.isEmpty then
      return functions
    let (attributes, invokeBody) ← parseDsmlOpenTag remaining atemInvokeOpen "ATEM invoke"
    let (name, attributes) ← takeDsmlAttribute attributes "name" "ATEM invoke"
    rejectDsmlAttributes attributes "ATEM invoke"
    validateProtocolName "function" name
    if !toolParameters.contains name then
      throw (chatToolCallError ["unknown function ", .debug name, " in ATEM invocation"])
    let close ← okOr (find atemInvokeClose invokeBody) (chatToolCallError
      ["missing ", .text atemInvokeClose, " for ", .debug name])
    let arguments ←
      parseAtemParameters fromStr name (invokeBody.take close) (stringArguments.get name)
    atemInvocations fuel
      (invokeBody.drop (close + atemInvokeClose.length)) (functions ++ [⟨name, arguments⟩])

def parseAtemFunctionCalls : Except Error (List ChatFunctionCall) := do
  let functions ← atemInvocations fromStr stringArguments toolParameters (body.length + 1) body []
  if functions.isEmpty then
    throw (chatToolCallError ["ATEM function_calls block does not contain an invocation"])
  return functions

/-- The loop of `parse_dsml_parameters`. -/
def dsmlParameters (function : Text) :
    Nat → Text → BTreeMap Text Value → Except Error (BTreeMap Text Value)
  | 0, _, arguments => .ok arguments
  | fuel + 1, input, arguments => do
    let remaining := trimProtocolWhitespaceStart input
    if remaining.isEmpty then
      return arguments
    let (attributes, parameterBody) ← parseDsmlOpenTag remaining dsmlParameterOpen "parameter"
    let (name, attributes) ← takeDsmlAttribute attributes "name" "parameter"
    let (string, attributes) ← takeDsmlAttribute attributes "string" "parameter"
    rejectDsmlAttributes attributes "parameter"
    validateProtocolName "parameter" name
    let close ← okOr (find dsmlParameterClose parameterBody) (chatToolCallError
      ["missing ", .text dsmlParameterClose, " for ", .debug name])
    let rawValue := parameterBody.take close
    let value ←
      if string = "true".toList then pure (Value.string rawValue)
      else if string = "false".toList then
        match fromStr rawValue with
        | .ok value => pure value
        | .error e => throw (chatToolCallError ["invalid JSON value for DSML parameter ",
            .debug name, " in ", .debug function, ": ", .text e])
      else throw (chatToolCallError ["DSML parameter ", .debug name,
        " has invalid string attribute ", .debug string])
    let arguments ← insertNew arguments name value (chatToolCallError
      ["duplicate parameter ", .debug name, " in DSML invocation ", .debug function])
    dsmlParameters function fuel (parameterBody.drop (close + dsmlParameterClose.length)) arguments

def parseDsmlParameters (function body : Text) : Except Error (BTreeMap Text Value) :=
  dsmlParameters fromStr function (body.length + 1) body BTreeMap.empty

/-- The loop of `parse_dsml_function_calls`. -/
def dsmlInvocations :
    Nat → Text → List ChatFunctionCall → Except Error (List ChatFunctionCall)
  | 0, _, functions => .ok functions
  | fuel + 1, input, functions => do
    let remaining := trimProtocolWhitespaceStart input
    if remaining.isEmpty then
      return functions
    let (attributes, invokeBody) ← parseDsmlOpenTag remaining dsmlInvokeOpen "invoke"
    let (name, attributes) ← takeDsmlAttribute attributes "name" "invoke"
    rejectDsmlAttributes attributes "invoke"
    validateProtocolName "function" name
    if !toolParameters.contains name then
      throw (chatToolCallError ["unknown function ", .debug name, " in DSML invocation"])
    let close ← okOr (find dsmlInvokeClose invokeBody) (chatToolCallError
      ["missing ", .text dsmlInvokeClose, " for ", .debug name])
    let arguments ← parseDsmlParameters fromStr name (invokeBody.take close)
    dsmlInvocations fuel (invokeBody.drop (close + dsmlInvokeClose.length))
      (functions ++ [⟨name, arguments⟩])

def parseDsmlFunctionCalls :
    Except Error (List ChatFunctionCall) := do
  let functions ← dsmlInvocations fromStr toolParameters (body.length + 1) body []
  if functions.isEmpty then
    throw (chatToolCallError ["DSML tool_calls block does not contain an invocation"])
  return functions

/-! ## Gemma -/

def gemmaQuote : Text := "<|\"|>"

def stripGemmaQuote (value : Text) : Text :=
  (((stripPrefix gemmaQuote value).bind (stripSuffix gemmaQuote)).or
    ((stripPrefix "\"" value).bind (stripSuffix "\""))).getD value

/-- The loop of `split_gemma_top_level`: `part` is the open part, reversed. -/
def splitGemmaLoop (delimiter : Char) :
    Nat → Text → Text → Nat → Bool → Except Error (List Text)
  | 0, _, part, _, _ => .ok [part.reverse]
  | _ + 1, [], part, depth, quoted =>
    if quoted || depth != 0 then
      .error (chatToolCallError ["unterminated Gemma tool argument"])
    else .ok [part.reverse]
  | fuel + 1, c :: tail, part, depth, quoted =>
    if gemmaQuote.isPrefixOf (c :: tail) then
      splitGemmaLoop delimiter fuel ((c :: tail).drop gemmaQuote.length)
        (gemmaQuote.reverse ++ part) depth (!quoted)
    else if quoted then splitGemmaLoop delimiter fuel tail (c :: part) depth quoted
    else if c == '\x7b' || c == '[' then
      splitGemmaLoop delimiter fuel tail (c :: part) (depth + 1) quoted
    else if c == '\x7d' || c == ']' then
      if depth = 0 then
        .error (chatToolCallError ["unbalanced Gemma tool argument delimiters"])
      else splitGemmaLoop delimiter fuel tail (c :: part) (depth - 1) quoted
    else if c == delimiter && depth == 0 then
      (splitGemmaLoop delimiter fuel tail [] depth quoted).map (part.reverse :: ·)
    else splitGemmaLoop delimiter fuel tail (c :: part) depth quoted

attribute [grind =] splitGemmaLoop

def splitGemmaTopLevel (input : Text) (delimiter : Char) : Except Error (List Text) :=
  splitGemmaLoop delimiter (input.length + 1) input [] 0 false

def splitGemmaField (field : Text) : Except Error (Text × Text) := do
  match ← splitGemmaTopLevel field ':' with
  | [name, value] => return (name, value)
  | _ => throw (chatToolCallError ["expected parameter:value, got ", .debug field])

/-- `parse_gemma_value`; the fuel bounds the nesting. -/
def parseGemmaValue : Nat → Text → Except Error Value
  | 0, _ => .ok .null
  | fuel + 1, raw => do
    let raw := trim raw
    if let some value := (stripPrefix gemmaQuote raw).bind (stripSuffix gemmaQuote) then
      return .string value
    if let some inner := (stripPrefix "\x7b" raw).bind (stripSuffix "\x7d") then
      let fields ← splitGemmaTopLevel inner ','
      let object ← fields.foldlM (fun object field => do
        if (trim field).isEmpty then
          return object
        let (name, value) ← splitGemmaField field
        let value ← parseGemmaValue fuel (trim value)
        return insertField (stripGemmaQuote (trim name)) value object) []
      return .object object
    if let some inner := (stripPrefix "[" raw).bind (stripSuffix "]") then
      let values ← splitGemmaTopLevel inner ','
      return .array (← (values.filter fun v => !(trim v).isEmpty).mapM
        fun v => parseGemmaValue fuel (trim v))
    match fromStr raw with
    | .ok value => return value
    | .error _ => return .string (stripGemmaQuote raw)

def parseGemmaFunctionCall : Except Error ChatFunctionCall := do
  let call ← okOr (stripPrefix "call:" (trimMatches isNewline body)) (chatToolCallError
    ["expected call:name\x7b...\x7d inside <|tool_call>"])
  let start ← okOr (findChar (· == '\x7b') call) (chatToolCallError
    ["Gemma tool call is missing its argument object"])
  let name := trim (call.take start)
  validateProtocolName "function" name
  if !toolParameters.contains name then
    throw (chatToolCallError ["unknown function ", .debug name])
  let object := trim (call.drop start)
  let inner ← okOr ((stripPrefix "\x7b" object).bind (stripSuffix "\x7d")) (chatToolCallError
    ["Gemma tool call has an unterminated argument object"])
  let fields ← splitGemmaTopLevel inner ','
  let arguments ← fields.foldlM (fun (arguments : BTreeMap Text Value) field => do
    if (trim field).isEmpty then
      return arguments
    let (rawName, rawValue) ← splitGemmaField field
    let parameter := stripGemmaQuote (trim rawName)
    validateProtocolName "parameter" parameter
    let value ←
      if (stringArguments.get name).any (·.contains parameter) then
        pure (Value.string (stripGemmaQuote (trim rawValue)))
      else parseGemmaValue fromStr (rawValue.length + 1) (trim rawValue)
    insertNew arguments parameter value (chatToolCallError
      ["duplicate parameter ", .debug parameter])) BTreeMap.empty
  return ⟨name, arguments⟩

/-! ## XML, Poolside and JSON -/

def decodeArgument (function parameter rawValue : Text)
    (stringArguments : BTreeMap Text (BTreeSet Text)) : Value :=
  if (stringArguments.get function).any (·.contains parameter) then .string rawValue
  else match fromStr rawValue with
    | .ok value => value
    | .error _ => .string rawValue

def parameterClose : Text := "</parameter>"
def functionClose : Text := "</function>"

/-- The parameter loop of `parse_function_call`. -/
def functionParameters (name : Text) (parameters : ToolParameters)
    (stringArguments : BTreeMap Text (BTreeSet Text)) :
    Nat → Text → BTreeMap Text Value → Except Error (BTreeMap Text Value)
  | 0, _, arguments => .ok arguments
  | fuel + 1, input, arguments => do
    let remaining := trimStart input
    if remaining.isEmpty then
      return arguments
    let parameter ← okOr (stripPrefix "<parameter=" remaining) (chatToolCallError
      (.text "unexpected content " :: protocolPreview remaining ++
        [Piece.text " in function ", .debug name]))
    let openEnd ← okOr (findChar (· == '>') parameter) (chatToolCallError
      ["unterminated <parameter=...> tag"])
    let parameterName := parameter.take openEnd
    validateProtocolName "parameter" parameterName
    if !parameters.names.contains parameterName then
      throw (chatToolCallError
        ["unknown parameter ", .debug parameterName, " for function ", .debug name])
    let parameterBody := parameter.drop (openEnd + 1)
    let close ← okOr (find parameterClose parameterBody) (chatToolCallError
      ["missing </parameter> for ", .debug parameterName])
    let rawValue := stripProtocolNewlines (parameterBody.take close)
    let value := decodeArgument fromStr name parameterName rawValue stringArguments
    let arguments ← insertNew arguments parameterName value (chatToolCallError
      ["duplicate parameter ", .debug parameterName])
    functionParameters name parameters stringArguments fuel
      (parameterBody.drop (close + parameterClose.length)) arguments

/-- The loop of `parse_poolside_function_call`. -/
def poolsideArguments (name : Text) (stringArguments : BTreeMap Text (BTreeSet Text)) :
    Nat → Text → BTreeMap Text Value → Except Error (BTreeMap Text Value)
  | 0, _, arguments => .ok arguments
  | fuel + 1, remaining, arguments => do
    if remaining.isEmpty then
      return arguments
    let key ← okOr (stripPrefix "<arg_key>" remaining) (chatToolCallError
      ["unexpected content in Poolside function ", .debug name])
    let keyEnd ← okOr (find "</arg_key>".toList key) (chatToolCallError
      ["unterminated Poolside argument name in ", .debug name])
    let parameter := key.take keyEnd
    validateProtocolName "parameter" parameter
    let value ← okOr (stripPrefix "<arg_value>" (key.drop (keyEnd + "</arg_key>".length)))
      (chatToolCallError ["missing <arg_value> for ", .debug parameter])
    let valueEnd ← okOr (find "</arg_value>".toList value) (chatToolCallError
      ["unterminated Poolside value for ", .debug parameter])
    let arguments ← insertNew arguments parameter
      (decodeArgument fromStr name parameter (value.take valueEnd) stringArguments)
      (chatToolCallError ["duplicate parameter ", .debug parameter])
    poolsideArguments name stringArguments fuel
      (value.drop (valueEnd + "</arg_value>".length)) arguments

def parsePoolsideFunctionCall :
    Except Error ChatFunctionCall := do
  let body := trimMatches isNewline body
  let firstArgument := (find "<arg_key>".toList body).getD body.length
  let name := trim (body.take firstArgument)
  validateProtocolName "function" name
  let remaining := body.drop firstArgument
  let arguments ←
    poolsideArguments fromStr name stringArguments (remaining.length + 1) remaining BTreeMap.empty
  return ⟨name, arguments⟩

def inferJsonFunctionName (arguments : BTreeMap Text Value)
    (toolParameters : BTreeMap Text ToolParameters) : Except Error Text :=
  let candidates := toolParameters.entries.filter fun (_, parameters) =>
    !parameters.names.keys.isEmpty && arguments.keys.all (parameters.names.contains ·) &&
      parameters.required.keys.all (arguments.contains ·)
  match candidates with
  | [(name, _)] => .ok name
  | [] => .error (chatToolCallError
      ["JSON tool call is missing its function name and does not match a tool schema"])
  | _ => .error (chatToolCallError
      ["JSON tool call is missing its function name and matches multiple tool schemas"])

def parseJsonFunctionCall :
    Except Error ChatFunctionCall := do
  let call ← match fromStr body with
    | .ok call => pure call
    | .error e => throw (chatToolCallError ["invalid JSON tool call: ", .text e])
  let object ← okOr call.asObject (chatToolCallError ["JSON tool call must be an object"])
  let function := ((object.lookup "function".toList).bind Value.asObject).getD object
  let arguments ←
    match (function.lookup "arguments".toList).or (function.lookup "parameters".toList) with
    | none =>
      if (function.lookup "name".toList).isNone then pure (BTreeMap.ofList function)
      else pure BTreeMap.empty
    | some .null => pure BTreeMap.empty
    | some (.object arguments) => pure (BTreeMap.ofList arguments)
    | some (.string arguments) =>
      match fromStr arguments with
      | .ok arguments => do
        let arguments ← okOr arguments.asObject (chatToolCallError
          ["JSON tool call arguments must be an object"])
        pure (BTreeMap.ofList arguments)
      | .error e => throw (chatToolCallError
          ["JSON tool call has invalid string arguments: ", .text e])
    | some _ => throw (chatToolCallError ["JSON tool call arguments must be an object"])
  let name ← match (function.lookup "name".toList).bind Value.asStr with
    | some name => pure name
    | none => inferJsonFunctionName arguments toolParameters
  validateProtocolName "function" name
  return ⟨name, arguments⟩

def parseFunctionCall : Except Error ChatFunctionCall := do
  let body := trimMatches isNewline body
  if body.head? = some '\x7b' then
    parseJsonFunctionCall fromStr body toolParameters
  else match stripPrefix "<function=" body with
    | none => parsePoolsideFunctionCall fromStr body stringArguments
    | some function => do
      let openEnd ← okOr (findChar (· == '>') function) (chatToolCallError
        ["unterminated <function=...> tag"])
      let name := function.take openEnd
      validateProtocolName "function" name
      let parameters ← okOr (toolParameters.get name) (chatToolCallError
        ["unknown function ", .debug name])
      let functionBody := function.drop (openEnd + 1)
      let closeStart ← okOr (rfind functionClose functionBody) (chatToolCallError
        ["missing </function> for ", .debug name])
      if !(trim (functionBody.drop (closeStart + functionClose.length))).isEmpty then
        throw (chatToolCallError ["unexpected content after </function>"])
      let remaining := functionBody.take closeStart
      let arguments ← functionParameters fromStr name parameters stringArguments
        (remaining.length + 1) remaining BTreeMap.empty
      match parameters.required.keys.find? fun name => !arguments.contains name with
      | some missing => throw (chatToolCallError
          ["missing required parameter ", .debug missing, " for function ", .debug name])
      | none => return ⟨name, arguments⟩

end

/-! ## LFM2 -/

namespace Lfm2

def invalid (detail : List Piece) : Error := ⟨"LFM2 tool call", detail⟩

/-- Quotation state of `closing_offset`. -/
structure Quotation where
  quote : Option Char
  escaped : Bool
deriving DecidableEq, Repr

/-- The state after one character that does not end the search. -/
def Quotation.advance (s : Quotation) (c : Char) : Quotation :=
  if s.escaped then { s with escaped := false }
  else match s.quote with
    | some delimiter =>
      if c == '\\' then { s with escaped := true }
      else if c == delimiter then { s with quote := none }
      else s
    | none => if c == '\'' || c == '"' then { s with quote := some c } else s

/-- Whether a marker is recognized at the next character. -/
def Quotation.outside (s : Quotation) (c : Char) : Bool :=
  !s.escaped && s.quote.isNone && !(c == '\'' || c == '"')

/-- The loop of `closing_offset`. -/
def closingLoop (marker : Text) : Quotation → Text → Option Nat
  | _, [] => none
  | s, c :: rest =>
    if s.outside c && marker.isPrefixOf (c :: rest) then some 0
    else (closingLoop marker (s.advance c) rest).map (· + 1)

/-- `closing_offset`: the marker can also occur inside a generated string. -/
def closingOffset (body marker : Text) : Option Nat := closingLoop marker ⟨none, false⟩ body

/-- `Parser::take`; the remaining text is trimmed in either case. -/
def take (c : Char) (rest : Text) : Bool × Text :=
  let rest := trimStart rest
  match stripPrefix [c] rest with
  | some rest => (true, rest)
  | none => (false, rest)

def expect (c : Char) (rest : Text) : Except Error Text :=
  match take c rest with
  | (true, rest) => .ok rest
  | (false, _) => .error (invalid ["expected ", .debugChar c])

def name (rest : Text) : Except Error (Text × Text) := do
  let rest := trimStart rest
  let close := (findChar (fun c => !isProtocolNameChar c) rest).getD rest.length
  validateProtocolName "function or parameter" (rest.take close)
  return (rest.take close, rest.drop close)

/-- Offset of the closing quote behind the opening one. -/
def stringEnd (quote : Char) : Bool → Text → Option Nat
  | _, [] => none
  | escaped, c :: rest =>
    if escaped then (stringEnd quote false rest).map (· + 1)
    else if c == '\\' then (stringEnd quote true rest).map (· + 1)
    else if c == quote then some 0
    else (stringEnd quote false rest).map (· + 1)

/-- A quoted literal rewritten as the inside of a JSON string. -/
def jsonString : Text → Except Error Text
  | [] => .ok []
  | ['\\'] => .error (invalid ["unfinished escape"])
  | '\\' :: next :: rest =>
    (jsonString rest).map fun t => if next == '\'' then '\'' :: t else '\\' :: next :: t
  | c :: rest => (jsonString rest).map fun t => if c == '"' then '\\' :: '"' :: t else c :: t

section
variable (fromStr : Text → Except Text Value)

def string (rest : Text) : Except Error (Text × Text) :=
  match trimStart rest with
  | [] => .error (invalid ["missing string"])
  | quote :: rest =>
    if quote != '\'' && quote != '"' then .error (invalid ["expected quoted string"])
    else do
      let close ← okOr (stringEnd quote false rest) (invalid ["unterminated string"])
      let json ← jsonString (rest.take close)
      match fromStr ('"' :: json ++ ['"']) with
      | .ok (.string value) => return (value, rest.drop (close + 1))
      | .ok _ => throw (invalid ["invalid string: "])
      | .error e => throw (invalid ["invalid string: ", .text e])

/-- The scalar literals of `Parser::value`. -/
def literal (raw : Text) : Except Error Value :=
  if raw = "True".toList ∨ raw = "true".toList then .ok (.bool true)
  else if raw = "False".toList ∨ raw = "false".toList then .ok (.bool false)
  else if raw = "None".toList ∨ raw = "null".toList then .ok .null
  else match fromStr raw with
    | .ok value =>
      if value.isNumber then .ok value else .error (invalid ["expected a numeric literal"])
    | .error _ => .error (invalid ["expected a literal argument value"])

mutual

def value : Nat → Nat → Text → Except Error (Value × Text)
  | 0, _, rest => .ok (.null, rest)
  | fuel + 1, depth, rest => do
    if depth ≥ 64 then
      throw (invalid ["argument nesting exceeds 64 levels"])
    let rest := trimStart rest
    if rest.head?.any fun c => c == '\'' || c == '"' then
      let (t, rest) ← string fromStr rest
      return (.string t, rest)
    match take '[' rest with
    | (true, rest) =>
      match take ']' rest with
      | (true, rest) => return (.array [], rest)
      | (false, rest) => arrayLoop fuel depth rest []
    | (false, rest) =>
      match take '\x7b' rest with
      | (true, rest) =>
        match take '\x7d' rest with
        | (true, rest) => return (.object [], rest)
        | (false, rest) => objectLoop fuel depth rest []
      | (false, rest) =>
        let close := (findChar (fun c => isWhitespace c || c == ',' || c == ')' || c == ']' ||
          c == '\x7d') rest).getD rest.length
        let v ← literal fromStr (rest.take close)
        return (v, rest.drop close)

/-- The array loop of `Parser::value`. -/
def arrayLoop : Nat → Nat → Text → List Value → Except Error (Value × Text)
  | 0, _, rest, values => .ok (.array values, rest)
  | fuel + 1, depth, rest, values => do
    let (v, rest) ← value fuel (depth + 1) rest
    let values := values ++ [v]
    match take ']' rest with
    | (true, rest) => return (.array values, rest)
    | (false, rest) => do
      let rest ← expect ',' rest
      match take ']' rest with
      | (true, rest) => return (.array values, rest)
      | (false, rest) => arrayLoop fuel depth rest values

/-- The object loop of `Parser::value`. -/
def objectLoop :
    Nat → Nat → Text → List (Text × Value) → Except Error (Value × Text)
  | 0, _, rest, values => .ok (.object values, rest)
  | fuel + 1, depth, rest, values => do
    let (key, rest) ← string fromStr rest
    let rest ← expect ':' rest
    let (v, rest) ← value fuel (depth + 1) rest
    let values ← (if (values.lookup key).isSome then .error (invalid ["duplicate object key"])
      else .ok (insertField key v values))
    match take '\x7d' rest with
    | (true, rest) => return (.object values, rest)
    | (false, rest) => do
      let rest ← expect ',' rest
      match take '\x7d' rest with
      | (true, rest) => return (.object values, rest)
      | (false, rest) => objectLoop fuel depth rest values

end

/-- The argument loop of `parse`. -/
def argumentLoop :
    Nat → Text → BTreeMap Text Value → Except Error (BTreeMap Text Value × Text)
  | 0, rest, arguments => .ok (arguments, rest)
  | fuel + 1, rest, arguments => do
    let (key, rest) ← name rest
    let rest ← expect '=' rest
    let (v, rest) ← value fromStr (2 * rest.length + 2) 0 rest
    let arguments ← insertNew arguments key v (invalid ["duplicate argument"])
    match take ')' rest with
    | (true, rest) => return (arguments, rest)
    | (false, rest) => do
      let rest ← expect ',' rest
      match take ')' rest with
      | (true, rest) => return (arguments, rest)
      | (false, rest) => argumentLoop fuel rest arguments

/-- The call loop of `parse`. -/
def callLoop :
    Nat → Text → List ChatFunctionCall → Except Error (List ChatFunctionCall × Text)
  | 0, rest, calls => .ok (calls, rest)
  | fuel + 1, rest, calls => do
    let (function, rest) ← name rest
    let rest ← expect '(' rest
    let (arguments, rest) ← match take ')' rest with
      | (true, rest) => pure (BTreeMap.empty, rest)
      | (false, rest) => argumentLoop fromStr (rest.length + 1) rest BTreeMap.empty
    let calls := calls ++ [⟨function, arguments⟩]
    match take ']' rest with
    | (true, rest) => return (calls, rest)
    | (false, rest) => do
      let rest ← expect ',' rest
      match take ']' rest with
      | (true, rest) => return (calls, rest)
      | (false, rest) => callLoop fuel rest calls

/-- `lfm2::parse`. -/
def parse (body : Text) : Except Error (List ChatFunctionCall) := do
  let rest ← expect '[' body
  let (calls, rest) ← match take ']' rest with
    | (true, rest) => pure ([], rest)
    | (false, rest) => callLoop fromStr (rest.length + 1) rest []
  if !(trim rest).isEmpty || calls.isEmpty then
    throw (invalid ["expected a nonempty tool-call list with no trailing text"])
  return calls

end

end Lfm2

end Eider.Source
