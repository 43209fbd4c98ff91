/-!
# Floating-point numbers as exact binary fractions

A double stands for `± m · 2^q`. `Exact.ofFloat` reads `m` and `q` off the bits and
`Exact.toFloat` writes them; `Exact.nearest` is the double closest to a ratio of natural numbers,
a tie going to the even mantissa. Comparisons are made on the exact values, in integer
arithmetic.
-/
namespace SchemaCast.Number

/-- Two to the power of `n`. -/
def twoPow (n : Nat) : Nat := Nat.pow 2 n

/-- Ten to the power of `n`. -/
def tenPow (n : Nat) : Nat := Nat.pow 10 n

/-- What a double stands for. -/
inductive Exact where
  | nan
  | infinite (negative : Bool)
  /-- The number `± mantissa · 2^exponent`. -/
  | finite (negative : Bool) (mantissa : Nat) (exponent : Int)
  deriving DecidableEq, Repr

/-- The double of a sign, a biased exponent and a fraction. -/
def ofFields (negative : Bool) (biased fraction : Nat) : Float :=
  Float.ofBits (UInt64.ofNat ((if negative then twoPow 63 else 0) + biased * twoPow 52 + fraction))

/-- The quotient rounded to the nearest natural number, a half going to the even one. -/
def roundHalfEven (num den : Nat) : Nat :=
  let quotient := num / den
  let twice := 2 * (num % den)
  if twice < den then quotient
  else if den < twice then quotient + 1
  else quotient + quotient % 2

/-- The exponent `q ≥ -1074` for which `num / den` is about `m · 2^q` with `m` of 53 bits. -/
def mantissaExponent (num den : Nat) : Int :=
  let guess : Int := (num.log2 : Int) - den.log2 - 52
  let exact :=
    if num * twoPow (-guess).toNat < den * twoPow guess.toNat * twoPow 52 then guess - 1 else guess
  max exact (-1074)

/-- The signed numerator of a finite value over the denominator `2^shift`, for a `shift` of at
least minus its exponent. -/
def scaled (negative : Bool) (mantissa : Nat) (exponent : Int) (shift : Nat) : Int :=
  let size : Int := mantissa * twoPow (exponent + shift).toNat
  if negative then -size else size

namespace Exact

/-- The value written in the bits of a double. -/
def ofFloat (x : Float) : Exact :=
  let bits := x.toBits.toNat
  let negative := bits / twoPow 63 = 1
  let biased : Nat := bits / twoPow 52 % twoPow 11
  let fraction : Nat := bits % twoPow 52
  if biased = 2047 then
    if fraction = 0 then .infinite negative else .nan
  else if biased = 0 then .finite negative fraction (-1074)
  else .finite negative (twoPow 52 + fraction) ((biased : Int) - 1075)

/-- The double that stands for a value; the mantissa has 53 bits, or fewer at exponent `-1074`. -/
def toFloat : Exact → Float
  | .nan => ofFields false 2047 1
  | .infinite negative => ofFields negative 2047 0
  | .finite negative mantissa exponent =>
    if mantissa < twoPow 52 then ofFields negative 0 mantissa
    else ofFields negative (exponent + 1075).toNat (mantissa - twoPow 52)

/-- The double nearest to `± num / den`, for `den ≠ 0`; infinite if the ratio is too large. -/
def nearest (negative : Bool) (num den : Nat) : Exact :=
  if num = 0 then .finite negative 0 (-1074)
  else
    let q := mantissaExponent num den
    let m := roundHalfEven (num * twoPow (-q).toNat) (den * twoPow q.toNat)
    let (m, q) := if m = twoPow 53 then (twoPow 52, q + 1) else (m, q)
    if q + 1075 < 2047 then .finite negative m q else .infinite negative

/-- The double nearest to an integer. -/
def ofInt (n : Int) : Exact := nearest (decide (n < 0)) n.natAbs 1

/-- Whether the first value is below the second; a NaN is below nothing and above nothing. -/
def lt : Exact → Exact → Bool
  | .nan, _ => false
  | _, .nan => false
  | .infinite a, .infinite b => a && !b
  | .infinite a, .finite .. => a
  | .finite .., .infinite b => !b
  | .finite s m e, .finite t n f =>
    let shift := (max (-e) (-f)).toNat
    decide (scaled s m e shift < scaled t n f shift)

/-- Whether the two values are one number; a NaN equals nothing, and zero has no sign. -/
def eq : Exact → Exact → Bool
  | .nan, _ => false
  | _, .nan => false
  | .infinite a, .infinite b => a == b
  | .infinite _, .finite .. => false
  | .finite .., .infinite _ => false
  | .finite s m e, .finite t n f =>
    let shift := (max (-e) (-f)).toNat
    decide (scaled s m e shift = scaled t n f shift)

/-- Whether the first value is below the second or equal to it. -/
def le (x y : Exact) : Bool := x.lt y || x.eq y

/-- The value zero. -/
def zero : Exact := .finite false 0 (-1074)

/-- Whether the value is neither infinite nor a NaN. -/
def isFinite : Exact → Bool
  | .finite .. => true
  | _ => false

/-- The integer that a finite value is, if it is one. -/
def toInt? : Exact → Option Int
  | .finite s m e =>
    if 0 ≤ e then some (if s then -(m * twoPow e.toNat : Nat) else (m * twoPow e.toNat : Nat))
    else
      let unit := twoPow (-e).toNat
      if m % unit = 0 then some (if s then -(m / unit : Nat) else (m / unit : Nat)) else none
  | _ => none

/-- The integer nearest to a finite value, a half going away from zero. -/
def roundAway? : Exact → Option Int
  | .finite s m e =>
    let size :=
      if 0 ≤ e then m * twoPow e.toNat
      else
        let unit := twoPow (-e).toNat
        (2 * m + unit) / (2 * unit)
    some (if s then -(size : Int) else size)
  | _ => none

end Exact

end SchemaCast.Number
