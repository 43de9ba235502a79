import Mathlib.Algebra.GroupWithZero.Nat
import Mathlib.Data.List.Lex
import Mathlib.Data.Char
import Eider.Lib.Search

/-!
Rust text as its characters, with the `str` operations that the output parsers
call. Offsets count characters where the source counts bytes: every offset of
the source is a character boundary that it obtained from one of these searches.
-/
namespace Eider.Source

/-- A `String` or `&str`. -/
abbrev Text := List Char

instance : Coe String Text := ⟨String.toList⟩

/-- `char::is_whitespace`: the Unicode `White_Space` property. -/
def isWhitespace (c : Char) : Bool :=
  let n := c.toNat
  (9 ≤ n && n ≤ 13) || n == 32 || n == 0x85 || n == 0xA0 || n == 0x1680 ||
    (0x2000 ≤ n && n ≤ 0x200A) || n == 0x2028 || n == 0x2029 || n == 0x202F ||
    n == 0x205F || n == 0x3000

def isAsciiWhitespace (c : Char) : Bool :=
  c == ' ' || c == '\t' || c == '\n' || c == '\x0c' || c == '\r'

def isAsciiAlphanumeric (c : Char) : Bool :=
  ('a' ≤ c && c ≤ 'z') || ('A' ≤ c && c ≤ 'Z') || ('0' ≤ c && c ≤ '9')

variable (p : Char → Bool)

def trimStartMatches (t : Text) : Text := t.dropWhile p

def trimEndMatches (t : Text) : Text := (t.reverse.dropWhile p).reverse

def trimMatches (t : Text) : Text := trimEndMatches p (trimStartMatches p t)

def trimStart : Text → Text := trimStartMatches isWhitespace

def trim : Text → Text := trimMatches isWhitespace

def stripPrefix (marker t : Text) : Option Text :=
  if marker.isPrefixOf t then some (t.drop marker.length) else none

def stripSuffix (marker t : Text) : Option Text :=
  if marker.isSuffixOf t then some (t.take (t.length - marker.length)) else none

theorem stripSuffix_append (t marker : Text) : stripSuffix marker (t ++ marker) = some t := by
  rw [stripSuffix, if_pos (List.isSuffixOf_iff_suffix.mpr (List.suffix_append t marker))]
  simp

/-- `str::find` with a character predicate. -/
def findChar : Text → Option Nat := List.findIdx? p

/-- One piece of a formatted error detail: text as it stands, or a value printed
with `{:?}`. -/
inductive Piece where
  | text (t : Text)
  | debug (t : Text)
  | debugChar (c : Char)
deriving DecidableEq, Repr

instance : Coe String Piece := ⟨fun s => .text s.toList⟩

/-- `Error::Format`. -/
structure Error where
  label : Text
  detail : List Piece
deriving DecidableEq, Repr

theorem bind_ok {ε α β : Type} {step : Except ε α} {next : α → Except ε β} {value : β}
    (h : (step >>= next) = .ok value) : ∃ x, step = .ok x ∧ next x = .ok value := by
  cases step with
  | error e => cases h
  | ok x => exact ⟨x, rfl, h⟩

/-- `serde_json::Value`. The fields of an object stand in the order of their first insertion, as
in the `IndexMap` that the feature `preserve_order` puts behind `serde_json::Map`; a number is its
literal. -/
inductive Value where
  | null
  | bool (value : Bool)
  | number (literal : Text)
  | string (value : Text)
  | array (values : List Value)
  | object (fields : List (Text × Value))
deriving Repr, Inhabited

/-- `serde_json::Map::insert`: a present key keeps its place. -/
def insertField (k : Text) (v : Value) : List (Text × Value) → List (Text × Value)
  | [] => [(k, v)]
  | (k', v') :: fields =>
    if k' = k then (k, v) :: fields else (k', v') :: insertField k v fields

namespace Value

def asObject : Value → Option (List (Text × Value))
  | .object fields => some fields
  | _ => none

def asArray : Value → Option (List Value)
  | .array values => some values
  | _ => none

def asStr : Value → Option Text
  | .string t => some t
  | _ => none

def isNumber : Value → Bool
  | .number _ => true
  | _ => false

/-- `value[key]`, which is `Null` for a missing key and for a value that is no
object. -/
def index (v : Value) (key : Text) : Value :=
  ((v.asObject.bind fun fields => fields.lookup key).getD .null)

end Value

end Eider.Source
