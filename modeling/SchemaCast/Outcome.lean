import SchemaCast.Casting
import SchemaCast.Json.Printer
import SchemaCast.Text.Quoted

/-!
# Outcomes of a validation

An outcome is the log of a validation together with the schema and the value. `Outcome.demand`
gives the cast form of a valid value: it is computed when it is first asked for and kept from then
on. `Outcome.debugText` shows an outcome to a programmer, and `Json.debugText` a value with the
kind of each of its parts.
-/
namespace SchemaCast

open Text

variable {σ : Type}

namespace Json

mutual

/-- A value with the kind of each of its parts. -/
def debugText : Json → String
  | .null => "Null"
  | .bool b => "Bool(" ++ (if b then "true" else "false") ++ ")"
  | .int n => "Number(" ++ Number.intText n ++ ")"
  | .float x => "Number(" ++ Number.floatText .serialized x ++ ")"
  | .str s => "String(" ++ quoted s ++ ")"
  | .arr items => "Array " ++ bracketed (debugItems items)
  | .obj fields => "Object " ++ braced (debugFields fields)

/-- The items of an array, each with its kind. -/
def debugItems : List Json → List String
  | [] => []
  | item :: rest => item.debugText :: debugItems rest

/-- The keys of an object with their values. -/
def debugFields : List (String × Json) → List String
  | [] => []
  | (key, value) :: rest => (quoted key ++ ": " ++ value.debugText) :: debugFields rest

end

end Json

/-- What a validation found. -/
structure Outcome where
  schema : Node
  value : Json
  log : ErrorLog
  /-- The cast form of the value, once it has been asked for. -/
  data : Option Json := none

/-- Validate a value and keep what is needed to cast it later. -/
def Node.examine (node : Node) (resolver : Resolver σ) (value : Json) : Run σ Outcome := do
  return { schema := node, value, log := ← node.validate resolver value }

namespace Outcome

/-- Whether the value satisfies the schema. -/
def isValid (outcome : Outcome) : Bool := outcome.log.isEmpty

/-- The cast form of the value if it is valid, and the outcome that keeps it. -/
def demand (outcome : Outcome) (resolver : Resolver σ) : Run σ (Option Json × Outcome) :=
  if outcome.isValid then
    match outcome.data with
    | some data => pure (some data, outcome)
    | none => do
      let data ← outcome.schema.cast resolver outcome.value
      return (some data, { outcome with data := some data })
  else pure (none, outcome)

/-- Nothing is computed twice. -/
theorem demand_of_data {outcome : Outcome} {data : Json} (resolver : Resolver σ)
    (valid : outcome.isValid) (h : outcome.data = some data) :
    outcome.demand resolver = pure (some data, outcome) := by
  simp [demand, valid, h]

/-- An invalid value is never cast. -/
theorem demand_of_invalid {outcome : Outcome} (resolver : Resolver σ)
    (invalid : outcome.isValid = false) : outcome.demand resolver = pure (none, outcome) := by
  simp [demand, invalid]

/-- The messages by path, with quotes. -/
def errorsText (log : ErrorLog) : String :=
  braced (log.byText.map fun entry => quoted entry.1 ++ ": " ++ quotedList entry.2)

/-- The outcome as it is shown to a programmer. -/
def debugText (outcome : Outcome) : String :=
  let data :=
    match outcome.data with
    | none => "None"
    | some value => "Some(" ++ value.debugText ++ ")"
  "ValidationResult \x7b root: " ++ quoted outcome.schema.typeName ++ ", errors: " ++
    errorsText outcome.log ++ ", data: " ++ data ++ " \x7d"

end Outcome

end SchemaCast
