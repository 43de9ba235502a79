import Eider.Lib.Yields
import Eider.Source.ToolGrammar

/-!
The argument rules of the Qwen tool grammar (`eider-runtime/src/tool_grammar.rs`, lines 275
to 283 and 317 to 383): which parameters a call may list, and in which order.

A production is one line of the grammar, a name with its alternatives. `llguidance` reads
the lines as a context-free grammar, so their meaning is the language of the one that
`argumentGrammar` makes of them; a parameter is a terminal there, since its own rule is
`ParameterRule`. `Production.text` is the line as the source writes it.
-/
namespace Eider.Source

def maxPermutedParameters : Nat := 6

inductive RuleName where
  | args (tool : Nat)
  | required (tool : Nat)
  | requiredState (tool seen : Nat)
  | optional (tool : Nat)
  | optionalState (tool seen : Nat)
deriving DecidableEq, Repr

/-- A parameter is named by its tool and its place in the properties. -/
abbrev GrammarSymbol := Symbol (Nat × Nat) RuleName

/-- An alternative without symbols is the literal `""`. -/
abbrev Alternative := List GrammarSymbol

structure Production where
  name : RuleName
  alternatives : List Alternative

/-- `(1u64 << parameters.len()) - 1`. -/
def fullMask (parameters : List Nat) : Nat := (1 <<< parameters.length) - 1

/-- The loop over the bits of a state: each parameter it has not seen, in front of the
state that has. -/
def unseenAlternatives (state : Nat → RuleName) (tool : Nat) (parameters : List Nat) (seen : Nat) :
    List Alternative :=
  (parameters.zipIdx.filter fun entry => seen &&& (1 <<< entry.2) = 0).map fun entry =>
    [.terminal (tool, entry.1), .nonterminal (state (seen ||| (1 <<< entry.2)))]

variable (tool : Nat)

/-- A state of the required parameters. -/
def requiredAlternatives (required : List Nat) (seen : Nat) : List Alternative :=
  if seen = fullMask required then [[]]
  else unseenAlternatives (.requiredState tool) tool required seen

def buildRequiredStates (required : List Nat) : List Production :=
  if required.length > maxPermutedParameters then
    [⟨.required tool, [required.map fun parameter => .terminal (tool, parameter)]⟩]
  else
    ((List.range (fullMask required + 1)).map fun seen =>
      ⟨.requiredState tool seen, requiredAlternatives tool required seen⟩) ++
    [⟨.required tool, [[.nonterminal (.requiredState tool 0)]]⟩]

variable (optional : List Nat)

/-- A state of the optional parameters: it may end. -/
def optionalAlternatives (seen : Nat) : List Alternative :=
  [] :: unseenAlternatives (.optionalState tool) tool optional seen

/-- A position of the listed optional parameters: the one there may be left out. -/
def listedAlternatives (position : Nat) : List Alternative :=
  match optional[position]? with
  | some parameter =>
    [[.nonterminal (.optionalState tool (position + 1))],
      [.terminal (tool, parameter), .nonterminal (.optionalState tool (position + 1))]]
  | none => [[]]

def buildOptionalStates : List Production :=
  if optional.length > maxPermutedParameters then
    ((List.range (optional.length + 1)).map fun position =>
      ⟨.optionalState tool position, listedAlternatives tool optional position⟩) ++
    [⟨.optional tool, [[.nonterminal (.optionalState tool 0)]]⟩]
  else
    ((List.range (fullMask optional + 1)).map fun seen =>
      ⟨.optionalState tool seen, optionalAlternatives tool optional seen⟩) ++
    [⟨.optional tool, [[.nonterminal (.optionalState tool 0)]]⟩]

def argsAlternatives (rules : ArgumentRules) : List Alternative :=
  [.nonterminal (.required tool) ::
    if rules.optional.isEmpty then [] else [.nonterminal (.optional tool)]]

/-- The argument rules that `build_arguments` writes for a tool. -/
def argumentProductions (rules : ArgumentRules) : List Production :=
  ⟨.args tool, argsAlternatives tool rules⟩ ::
  buildRequiredStates tool rules.required ++
  if rules.optional.isEmpty then [] else buildOptionalStates tool rules.optional

def toolProductions (tools : List ArgumentRules) : List Production :=
  tools.zipIdx.flatMap fun entry => argumentProductions entry.2 entry.1

/-- The grammar of the argument lists of one tool. -/
abbrev argumentGrammar (tools : List ArgumentRules) (tool : Nat) : ContextFreeGrammar (Nat × Nat) where
  NT := RuleName
  initial := .args tool
  rules := ((toolProductions tools).flatMap fun production =>
    production.alternatives.map fun alternative => ⟨production.name, alternative⟩).toFinset

end Eider.Source
