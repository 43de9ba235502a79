import Eider.Source.ChatOutput

/-!
The parameter rules of the Qwen tool grammar (`eider-runtime/src/tool_grammar.rs`,
lines 249 to 315 and 385 to 408). `build_arguments` writes one Lark rule for each
property of a tool's schema; the rule's body is raw text or a JSON value.

`llguidance` interprets the rules. `ParameterBody.Admits` is what the two kinds of
body stand for there, with the language of a `%json` schema as a parameter.
-/
namespace Eider.Source
open Lib Lib.Search

/-- `PARAMETER_CLOSE`. -/
def grammarParameterClose : Text := "\n</parameter>\n"

def grammarSchemaError (detail : List Piece) : Error := ⟨"Qwen tool grammar schema", detail⟩

def resolvesToString (schema : Value) : Bool :=
  match schema.index "type" with
  | .string kind => kind = "string".toList
  | .array kinds => kinds.any fun kind => kind.asStr = some "string".toList
  | _ => (schema.index "enum").asArray.any fun values =>
      !values.isEmpty && values.all fun value => value.asStr.isSome

/-- `validate_xml_name`. A byte outside ASCII fails the test, so the test is one
of the characters. -/
def validateXmlName (kind : String) (name : Text) : Except Error Unit :=
  if isProtocolName name then .ok ()
  else .error ⟨"Qwen tool grammar", ["invalid ", kind, " name ", .debug name]⟩

/-- What the rule of a parameter has between the tags. -/
inductive ParameterBody where
  /-- `string_value[lazy]: TEXT PARAMETER_CLOSE`. -/
  | text
  /-- `%json schema`, followed by `PARAMETER_CLOSE`. -/
  | json (schema : Value)

structure ParameterRule where
  name : Text
  body : ParameterBody

variable (definitions : Option Value) (schema : Value)

/-- The schema with the definitions of the tool's schema. -/
def withDefinitions : Value :=
  match schema.asObject, definitions with
  | some fields, some definitions =>
    .object (insertField "$defs" definitions fields)
  | _, _ => schema

/-- The body of a parameter with the given schema. -/
def parameterBody : ParameterBody :=
  if resolvesToString schema then .text else .json (withDefinitions definitions schema)

/-- The rules of one tool: the places of its required and optional parameters, and
one rule for each parameter. -/
structure ArgumentRules where
  required : List Nat
  optional : List Nat
  parameters : List ParameterRule

/-- `schema["properties"]`, without an entry where it is no object. -/
def schemaProperties : List (Text × Value) :=
  (schema.index "properties").asObject.getD []

/-- `schema["required"]`, the strings of it. -/
def schemaRequired : List Text :=
  ((schema.index "required").asArray.getD []).filterMap Value.asStr

/-- The parameter loop of `build_arguments`. -/
def buildParameters :
    List (Text × Value) → Except Error (List ParameterRule)
  | [] => .ok []
  | (name, schema) :: rest => do
    validateXmlName "parameter" name
    let rules ← buildParameters rest
    return ⟨name, parameterBody definitions schema⟩ :: rules

def buildArguments : Except Error ArgumentRules := do
  let names := (schemaProperties schema).map Prod.fst
  let required := schemaRequired schema
  match required.find? fun name => !names.contains name with
  | some name => throw (grammarSchemaError
      ["required parameter ", .debug name, " has no property schema"])
  | none => do
    let parameters ← buildParameters (schema.asObject.bind (·.lookup "$defs".toList))
      (schemaProperties schema)
    return {
      required := (names.zipIdx.filter fun name => required.contains name.1).map Prod.snd
      optional := (names.zipIdx.filter fun name => !required.contains name.1).map Prod.snd
      parameters := parameters
    }

/-- The texts that a body admits. A lazy rule ends at the first place where it can,
so raw text is any text up to the first `PARAMETER_CLOSE`. -/
def ParameterBody.Admits (admitsJson : Value → Text → Prop) : ParameterBody → Text → Prop
  | .text, t => find grammarParameterClose (t ++ grammarParameterClose) = some t.length
  | .json schema, t => admitsJson schema t

/-- The text of a parameter: the rule's opening literal, a body and
`PARAMETER_CLOSE`. -/
def parameterElement (name body : Text) : Text :=
  "<parameter=".toList ++ name ++ ">\n".toList ++ body ++ grammarParameterClose

/-- The loop succeeds on valid names, with one rule for each property. -/
theorem buildParameters_ok {definitions : Option Value} {properties : List (Text × Value)}
    {rules : List ParameterRule} (h : buildParameters definitions properties = .ok rules) :
    (∀ property ∈ properties, isProtocolName property.1 = true) ∧
      rules = properties.map fun property => ⟨property.1, parameterBody definitions property.2⟩ := by
  induction properties generalizing rules with
  | nil =>
    cases h
    exact ⟨List.forall_mem_nil _, rfl⟩
  | cons property rest ih =>
    rw [buildParameters] at h
    obtain ⟨_, hname, h⟩ := bind_ok h
    obtain ⟨later, hlater, h⟩ := bind_ok h
    obtain ⟨hvalid, hrules⟩ := ih hlater
    have hfirst : isProtocolName property.1 = true := by
      by_contra hinvalid
      rw [validateXmlName, if_neg hinvalid] at hname
      cases hname
    cases h
    exact ⟨List.forall_mem_cons.mpr ⟨hfirst, hvalid⟩, by rw [hrules, List.map_cons]⟩

end Eider.Source
