import SchemaCast.Json.Basic
import SchemaCast.Text.Quoted
import SchemaCast.Text.Ranges

/-!
# Kinds and tests of values

`ValueKind` sorts the values that are present; `number` also covers whole numbers. A `Predicate` is
a named test that may have no answer for a value: `zero` says nothing about a string. A value is
blank if it is null, false, an empty collection or a text of white space.
-/
namespace SchemaCast

/-- The kinds of values. -/
inductive ValueKind where
  | boolean
  | integer
  | number
  | string
  | array
  | object
  deriving DecidableEq, Repr

namespace ValueKind

/-- All kinds. -/
def all : List ValueKind := [.boolean, .integer, .number, .string, .array, .object]

/-- The name of a kind. -/
def name : ValueKind → String
  | .boolean => "boolean"
  | .integer => "integer"
  | .number => "number"
  | .string => "string"
  | .array => "array"
  | .object => "object"

/-- The kind with a name. -/
def ofName? (s : String) : Option ValueKind := all.find? fun kind => kind.name = s

/-- Whether a value is of a kind. -/
def covers : ValueKind → Json → Bool
  | .boolean, .bool _ => true
  | .integer, .int _ => true
  | .number, .int _ => true
  | .number, .float _ => true
  | .string, .str _ => true
  | .array, .arr _ => true
  | .object, .obj _ => true
  | _, _ => false

end ValueKind

/-- Whether a value is null, false, an empty collection or a text of white space. -/
def Json.isBlank : Json → Bool
  | .null => true
  | .bool b => !b
  | .str s => Text.isBlank s
  | .arr items => items.isEmpty
  | .obj fields => fields.isEmpty
  | .int _ => false
  | .float _ => false

/-- Whether a collection or text is empty; `none` for other values. -/
def Json.isEmpty? : Json → Option Bool
  | .str s => some s.isEmpty
  | .arr items => some items.isEmpty
  | .obj fields => some fields.isEmpty
  | _ => none

/-- A named test of values. -/
structure Predicate where
  name : String
  /-- The answer for a value, if there is one. -/
  test : Json → Option Bool

namespace Predicate

/-- The predicates that a declaration may name. -/
def builtin : List Predicate :=
  [⟨"blank", fun value => some value.isBlank⟩,
   ⟨"present", fun value => some !value.isBlank⟩,
   ⟨"empty", Json.isEmpty?⟩,
   ⟨"zero", fun value => value.number?.map (·.eq .zero)⟩,
   ⟨"negative", fun value => value.number?.map (·.lt .zero)⟩,
   ⟨"positive", fun value => value.number?.map (Number.Exact.zero.lt ·)⟩]

/-- The predicate as it is shown to a programmer. -/
def debugText (predicate : Predicate) : String :=
  "Predicate(" ++ Text.quoted predicate.name ++ ")"

/-- The predicate with a name. -/
def named? (name : String) : Option Predicate := builtin.find? fun p => p.name = name

end Predicate

end SchemaCast
