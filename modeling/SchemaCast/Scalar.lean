import SchemaCast.Violation

/-!
# Strings, numbers and booleans

The rules of scalar values: which of them a value breaks, and what the value is cast to. Integers
are compared exactly with steps that are integers; any other step leaves a relative tolerance of
`10^-9` around its multiples.
-/
namespace SchemaCast

namespace StringRules

/-- The rules that a text breaks. -/
def violations (rules : StringRules) (s : String) : List Violation :=
  let length := s.length
  (if !rules.allowBlank && Text.isBlank s then [.blankString] else []) ++
    ((rules.minLength.filter fun least => length < least).toList.map (.tooShort length)) ++
    ((rules.maxLength.filter fun most => most < length).toList.map (.tooLong length)) ++
    ((rules.pattern.filter fun pattern => !pattern.isMatch s).toList.map
      fun pattern => .patternMismatch pattern.source) ++
    ((rules.format.filter fun format => !format.accepts s).toList.map
      fun format => .formatMismatch format.name)

/-- The value that a text spells in the format of the rules; all else stays as it is. -/
def cast (rules : StringRules) (value : Json) : Json :=
  match rules.format, value with
  | some format, .str s => if format.accepts s then format.cast s else value
  | _, _ => value

end StringRules

namespace NumericRules

/-- The format in which a string spells a number. -/
def textFormat (integer : Bool) : Format := if integer then .integer else .number

/-- Whether a number is a multiple of a step, up to a relative tolerance of `10^-9`. -/
def isNearMultiple (x step : Float) : Bool :=
  let quotient := x / step
  match (Number.Exact.ofFloat quotient).roundAway? with
  | some n =>
    let distance := (quotient - (Number.Exact.ofInt n).toFloat).abs
    let size := if quotient.abs > 1.0 then quotient.abs else 1.0
    distance ≤ (Number.nearestDecimal false 1 (-9)).toFloat * size
  | none => false

/-- Whether a number is a multiple of a step: exactly, if the number is a signed 64-bit integer and
the step an integer below `9 · 10^15`. -/
def isMultiple (number : Json) (step : Number.Exact) : Bool :=
  let near : Bool :=
    match number.number? with
    | some x => isNearMultiple x.toFloat step.toFloat
    | none => false
  match number, step.toInt? with
  | .int n, some d =>
    if n ≤ Number.int64Max ∧ d.natAbs < 9000000000000000 then decide (n % d = 0) else near
  | _, _ => near

/-- The rules that a number breaks. -/
def numberViolations (rules : NumericRules) (number : Json) : List Violation :=
  match number.number? with
  | none => []
  | some x =>
    ((rules.minimum.filter x.lt).toList.map .belowMinimum) ++
      ((rules.maximum.filter (·.lt x)).toList.map .aboveMaximum) ++
      ((rules.exclusiveMinimum.filter x.le).toList.map .notAboveMinimum) ++
      ((rules.exclusiveMaximum.filter (·.le x)).toList.map .notBelowMaximum) ++
      ((rules.multipleOf.filter fun step => !isMultiple number step).toList.map .notMultiple)

/-- The rules that a value breaks; a string counts as the number it spells. -/
def violations (rules : NumericRules) (integer : Bool) (value : Json) : List Violation :=
  match value with
  | .str s =>
    let format := textFormat integer
    if format.accepts s then rules.numberViolations (format.cast s)
    else [.formatMismatch format.name]
  | number => rules.numberViolations number

/-- The number that a string spells, if the rules ask for that; all else stays as it is. -/
def cast (rules : NumericRules) (integer : Bool) (value : Json) : Json :=
  match value with
  | .str s =>
    let format := textFormat integer
    if rules.castText && format.accepts s then format.cast s else value
  | _ => value

end NumericRules

namespace Truth

/-- Whether a text spells a truth value. -/
def isText (s : String) : Bool := s = "true" || s = "false"

/-- The rules that a boolean breaks. -/
def violations (value : Json) : List Violation :=
  match value with
  | .str s => if isText s then [] else [.notTruthText]
  | _ => []

/-- The truth value that a string spells, if `castText`; all else stays as it is. -/
def cast (castText : Bool) (value : Json) : Json :=
  match value with
  | .str s => if castText && isText s then .bool (s = "true") else value
  | _ => value

end Truth

end SchemaCast
