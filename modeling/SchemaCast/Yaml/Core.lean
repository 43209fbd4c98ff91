import SchemaCast.Json.Basic
import SchemaCast.Number.Reading
import SchemaCast.Text.Ranges

/-!
# What scalars mean

A plain scalar is null, a truth value, an integer, a floating-point number or else a string. An
integer is written in decimal, or with `0x`, `0o` or `0b` in another base; digits behind a leading
zero make a string. Infinities and NaN have no counterpart among JSON numbers and become null. An
integer that does not fit into 64 bits, but into 128, is refused; a longer one counts as a
floating-point number.
-/
namespace SchemaCast.Yaml.Core

/-- Whether a text spells null. -/
def isNull (text : String) : Bool := ["null", "Null", "NULL", "~"].contains text

/-- The truth value that a text spells. -/
def bool? (text : String) : Option Bool :=
  if ["true", "True", "TRUE"].contains text then some true
  else if ["false", "False", "FALSE"].contains text then some false
  else none

/-- The number that digits of a base spell. -/
def natOfBase? (base : Nat) (digits : List Char) : Option Nat := do
  let values ← digits.mapM Text.Ranges.hexValue?
  if digits.isEmpty || values.any (base ≤ ·) then none
  else some (values.foldl (fun n digit => base * n + digit) 0)

/-- Whether a text, behind a sign, consists of digits and begins with a zero that is not the only
one. -/
def hasLeadingZero (text : List Char) : Bool :=
  let digits := (Number.splitSign text).2
  1 < digits.length && digits.head? = some '0' && digits.all Char.isDigit

/-- The base that a mark stands for. -/
def base? : Char → Option Nat
  | 'x' => some 16
  | 'o' => some 8
  | 'b' => some 2
  | _ => none

/-- The integer that digits without a sign spell, in the base that their mark tells. -/
def magnitude? (digits : List Char) : Option Nat :=
  match digits with
  | '0' :: mark :: rest =>
    match base? mark with
    | some base => natOfBase? base rest
    | none => if hasLeadingZero digits then none else natOfBase? 10 digits
  | _ => natOfBase? 10 digits

/-- The integer that a text spells, if it fits into 128 bits. -/
def int? (text : List Char) : Option Int := do
  let (negative, digits) := Number.splitSign text
  let size ← magnitude? digits
  if negative then if size ≤ Number.twoPow 127 then some (-(size : Int)) else none
  else if size < Number.twoPow 128 then some size
  else none

/-- The JSON number of an integer, if it fits into 64 bits. -/
def ofInt? (n : Int) : Option Json :=
  if Number.int64Min ≤ n ∧ n ≤ Number.word64Max then some (.int n) else none

/-- The floating-point number that a text spells, null for one that is not finite. -/
def float? (text : String) : Option Json :=
  if [".inf", ".Inf", ".INF", "+.inf", "+.Inf", "+.INF", "-.inf", "-.Inf", "-.INF", ".nan", ".NaN",
      ".NAN"].contains text then
    some .null
  else
    match Number.decimal? text.toList with
    | some x => if x.isFinite then some (.float x.toFloat) else none
    | none => none

/-- The value of a plain scalar without a tag. -/
def plain? (text : String) : Option Json :=
  if text.isEmpty || isNull text then some .null
  else
    match bool? text with
    | some b => some (.bool b)
    | none =>
      match int? text.toList with
      | some n => ofInt? n
      | none =>
        if hasLeadingZero text.toList then some (.str text)
        else some ((float? text).getD (.str text))

/-- The value of a scalar. A tag of the core schema asks for a value of its type; the tags of an
application are refused. -/
def scalar? (tag : Option String) (isPlain : Bool) (text : String) : Option Json :=
  match tag with
  | none => if isPlain then plain? text else some (.str text)
  | some tag =>
    if tag.startsWith "!" then none
    else if tag = "tag:yaml.org,2002:bool" then (bool? text).map .bool
    else if tag = "tag:yaml.org,2002:int" then int? text.toList >>= ofInt?
    else if tag = "tag:yaml.org,2002:float" then float? text
    else if tag = "tag:yaml.org,2002:null" then if isNull text then some .null else none
    else some (.str text)

end SchemaCast.Yaml.Core
