import SchemaCast.ErrorLog
import SchemaCast.Schema.Export
import SchemaCast.Json.Printer

/-!
# Violations

What a value can do wrong with respect to a schema, and the sentence that says so. Numbers in
sentences never show an exponent; names and patterns stand in quotes.
-/
namespace SchemaCast

open Text

/-- A rule that a value breaks. -/
inductive Violation where
  | valueMissing
  | keyMissing
  | wrongType (expected : String)
  | notAllowed (values : List Json)
  | blankString
  | tooShort (length least : Nat)
  | tooLong (length most : Nat)
  | patternMismatch (source : String)
  | formatMismatch (name : String)
  | belowMinimum (bound : Number.Exact)
  | aboveMaximum (bound : Number.Exact)
  | notAboveMinimum (bound : Number.Exact)
  | notBelowMaximum (bound : Number.Exact)
  | notMultiple (step : Number.Exact)
  | notTruthText
  | ambiguousKeys (keys : List String)
  | tooFewProperties (count least : Nat)
  | tooManyProperties (count most : Nat)
  | obsoleteProperty (key : String)
  | propertyNameMismatch (key source : String)
  | dependencyMissing (target source : String)
  | invalidJson
  | tooFewItems (count least : Nat)
  | tooManyItems (count most : Nat)
  | duplicateItems
  | wrongItemCount (count expected : Nat)
  | containsMissing (schema : Json)
  /-- The reports of the alternatives that failed follow, each with its number. -/
  | notAll (matched total : Nat) (failures : List (Nat × ErrorLog))
  | notAny (total : Nat) (failures : List (Nat × ErrorLog))
  | notOne (matched total : Nat) (failures : List (Nat × ErrorLog))
  | matchesExcluded (schema : Json)

namespace Violation

/-- A count in a sentence. -/
def countText (n : Nat) : String := Number.intText n

/-- A bound in a sentence. -/
def boundText (x : Number.Exact) : String := x.text .message

/-- The reports of failed alternatives, one below the other. -/
def failuresText (failures : List (Nat × ErrorLog)) : String :=
  String.join (failures.map fun failure =>
    "\n  - Condition " ++ countText (failure.1 + 1) ++ ":\n" ++ failure.2.renderNested 4)

/-- The sentence for a violation. -/
def message : Violation → String
  | .valueMissing => "Value must be given."
  | .keyMissing => "Key must be given."
  | .wrongType expected => "Invalid type, expected " ++ expected ++ "."
  | .notAllowed values => "Value not included in enum " ++ (Json.arr values).render ++ "."
  | .blankString => "String is blank but must not be blank."
  | .tooShort length least =>
    "String is " ++ countText length ++ " characters long but must be at least " ++
      countText least ++ "."
  | .tooLong length most =>
    "String is " ++ countText length ++ " characters long but must be at most " ++
      countText most ++ "."
  | .patternMismatch source => "String does not match pattern " ++ quoted source ++ "."
  | .formatMismatch name => "String does not match format " ++ quoted name ++ "."
  | .belowMinimum bound => "Value must have a minimum of " ++ boundText bound ++ "."
  | .aboveMaximum bound => "Value must have a maximum of " ++ boundText bound ++ "."
  | .notAboveMinimum bound =>
    "Value must have an exclusive minimum of " ++ boundText bound ++ "."
  | .notBelowMaximum bound =>
    "Value must have an exclusive maximum of " ++ boundText bound ++ "."
  | .notMultiple step => "Value must be a multiple of " ++ boundText step ++ "."
  | .notTruthText => "String must be \"true\" or \"false\"."
  | .ambiguousKeys keys =>
    "Has " ++ countText keys.length ++ " ambiguous properties: " ++ quotedList keys ++ "."
  | .tooFewProperties count least =>
    "Has " ++ countText count ++ " properties but needs at least " ++ countText least ++ "."
  | .tooManyProperties count most =>
    "Has " ++ countText count ++ " properties but needs at most " ++ countText most ++ "."
  | .obsoleteProperty key => "Obsolete property " ++ quoted key ++ "."
  | .propertyNameMismatch key source =>
    "Property name " ++ quoted key ++ " does not match " ++ quoted source ++ "."
  | .dependencyMissing target source =>
    "Missing property " ++ quoted target ++ " because " ++ quoted source ++ " is given."
  | .invalidJson => "String does not contain valid JSON."
  | .tooFewItems count least =>
    "Array has " ++ countText count ++ " items but needs at least " ++ countText least ++ "."
  | .tooManyItems count most =>
    "Array has " ++ countText count ++ " items but needs at most " ++ countText most ++ "."
  | .duplicateItems => "Array has duplicate items."
  | .wrongItemCount count expected =>
    "Array has " ++ countText count ++ " items but must have exactly " ++ countText expected ++
      "."
  | .containsMissing schema =>
    "At least one entry must match schema " ++ schema.render ++ "."
  | .notAll matched total failures =>
    "Matches " ++ countText matched ++ " of " ++ countText total ++
      " allOf conditions but must match all." ++ failuresText failures
  | .notAny total failures =>
    "Matches 0 of " ++ countText total ++ " anyOf conditions." ++ failuresText failures
  | .notOne matched total failures =>
    "Matches " ++ countText matched ++ " of " ++ countText total ++
      " oneOf conditions but must match exactly 1." ++ failuresText failures
  | .matchesExcluded schema => "Must not match schema: " ++ schema.render ++ "."

end Violation

end SchemaCast
