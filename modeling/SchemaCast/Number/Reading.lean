import SchemaCast.Number.Binary

/-!
# Reading numbers

Three ways to read a number from text: a signed 64-bit integer, a decimal fraction rounded to the
nearest double, and the scaled form, in which at most 64 bits of leading digits are multiplied or
divided by one power of ten, so that the last bit may differ from the nearest double.
-/
namespace SchemaCast.Number

/-- The number written in decimal digits; the empty list is zero. -/
def natOfDigits (digits : List Char) : Nat :=
  digits.foldl (fun n c => 10 * n + (c.toNat - '0'.toNat)) 0

/-- A sign, if there is one, and the rest; `true` stands for minus. -/
def splitSign : List Char → Bool × List Char
  | '-' :: rest => (true, rest)
  | '+' :: rest => (false, rest)
  | rest => (false, rest)

/-- The least number that a signed 64-bit word holds, `-2^63`. -/
def int64Min : Int := -9223372036854775808

/-- The greatest number that a signed 64-bit word holds, `2^63 - 1`. -/
def int64Max : Int := 9223372036854775807

/-- The greatest number that an unsigned 64-bit word holds, `2^64 - 1`. -/
def word64Max : Nat := 18446744073709551615

/-- A sign and digits for a number from `-2^63` to `2^63 - 1`. -/
def int64? (text : List Char) : Option Int :=
  let (negative, digits) := splitSign text
  if digits.isEmpty || !digits.all Char.isDigit then none
  else
    let size : Int := natOfDigits digits
    let n := if negative then -size else size
    if int64Min ≤ n ∧ n ≤ int64Max then some n else none

/-- The double nearest to `± digits · 10^exponent`. -/
def nearestDecimal (negative : Bool) (digits : Nat) (exponent : Int) : Exact :=
  let size : Int := digits.log2 * 30103 / 100000 + exponent
  if digits = 0 ∨ size < -400 then .finite negative 0 (-1074)
  else if 400 < size then .infinite negative
  else .nearest negative (digits * tenPow exponent.toNat) (tenPow (-exponent).toNat)

/-- The exponent after a mantissa: nothing, or `e`, a sign and at least one digit. -/
def exponentPart? : List Char → Option Int
  | [] => some 0
  | c :: rest =>
    if c = 'e' ∨ c = 'E' then
      let (negative, digits) := splitSign rest
      if digits.isEmpty || !digits.all Char.isDigit then none
      else
        let size : Int := natOfDigits digits
        some (if negative then -size else size)
    else none

/-- The lower-case form of an ASCII word. -/
def lowerWord (word : List Char) : String := String.ofList (word.map Char.toLower)

/-- A decimal fraction, or one of the words for infinity and NaN, as the nearest double. Digits
may be missing on one side of the point. -/
def decimal? (text : List Char) : Option Exact :=
  let (negative, body) := splitSign text
  let word := lowerWord body
  if word = "inf" ∨ word = "infinity" then some (.infinite negative)
  else if word = "nan" then some .nan
  else
    let whole := body.takeWhile Char.isDigit
    let afterWhole := body.dropWhile Char.isDigit
    let (places, rest) :=
      match afterWhole with
      | '.' :: tail => (tail.takeWhile Char.isDigit, tail.dropWhile Char.isDigit)
      | tail => ([], tail)
    if whole.isEmpty && places.isEmpty then none
    else
      (exponentPart? rest).map fun exponent =>
        nearestDecimal negative (natOfDigits (whole ++ places)) (exponent - places.length)

/-- The leading digits of a number, as long as they fit into an unsigned 64-bit word. -/
def leadingWord (start : Nat) : List Char → Nat × List Char
  | [] => (start, [])
  | c :: rest =>
    let next := 10 * start + (c.toNat - '0'.toNat)
    if word64Max < next then (start, c :: rest) else leadingWord next rest

/-- Divide by `10^308` until the exponent is within the table of powers; `none` on overflow. -/
def scaleStep : Nat → Float → Int → Option (Float × Int)
  | 0, x, _ => some (x, 0)
  | fuel + 1, x, exponent =>
    if exponent.natAbs ≤ 308 then some (x, exponent)
    else if x == 0 then some (x, 0)
    else if 0 ≤ exponent then none
    else scaleStep fuel (x / (Exact.nearest false (tenPow 308) 1).toFloat) (exponent + 308)

/-- `± significand · 10^exponent`, by one multiplication or division; `none` on overflow. -/
def scaleByPower (negative : Bool) (significand : Nat) (exponent : Int) : Option Float := do
  let start := (Exact.nearest false significand 1).toFloat
  let steps := exponent.natAbs / 308 + 1
  let (x, exponent) ← scaleStep (min steps 5) start (max exponent (-2000))
  let power := (Exact.nearest false (tenPow exponent.natAbs) 1).toFloat
  let size := if 0 ≤ exponent then x * power else x / power
  if (Exact.ofFloat size).isFinite then some (if negative then -size else size) else none

/-- The double of a number with the given digits before and after the point and the given
exponent. Digits that do not fit into 64 bits are dropped, on either side of the point. -/
def scaled? (negative : Bool) (whole places : List Char) (exponent : Int) : Option Float :=
  let (high, dropped) := leadingWord 0 whole
  let (significand, unread) := leadingWord high places
  let shift : Int := (dropped.length : Int) - (places.length - unread.length : Nat)
  scaleByPower negative significand (shift + exponent)

end SchemaCast.Number
