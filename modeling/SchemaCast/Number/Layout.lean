import SchemaCast.Number.Shortest

/-!
# Writing a double

The digits are always the shortest ones; a `Layout` says where positional notation ends and
whether a whole number keeps a fraction. There are two: `serialized`, for data, and `message`,
for sentences.
-/
namespace SchemaCast.Number

/-- The decisions left open by the shortest digits. -/
structure Layout where
  /-- Whether `d.ddd · 10^e` is written without an exponent. -/
  positional : Int → Bool
  /-- Whether a whole number is written with `.0`. -/
  fraction : Bool

/-- Data is positional from `10^-5` to below `10^16`, and a whole number shows a fraction. -/
def Layout.serialized : Layout := ⟨fun e => decide (-5 ≤ e ∧ e < 16), true⟩

/-- Sentences never show an exponent and show a fraction only where there is one. -/
def Layout.message : Layout := ⟨fun _ => true, false⟩

/-- The decimal digits of a natural number. -/
def digitsOf (n : Nat) : List Char := Nat.toDigits 10 n

/-- `digits · 10^exponent` without an exponent. -/
def positionalText (layout : Layout) (digits : List Char) (exponent : Int) : List Char :=
  if 0 ≤ exponent then
    digits ++ List.replicate exponent.toNat '0' ++ (if layout.fraction then ['.', '0'] else [])
  else
    let places := (-exponent).toNat
    let padded := List.replicate (places + 1 - digits.length) '0' ++ digits
    let whole := padded.length - places
    padded.take whole ++ '.' :: padded.drop whole

/-- `d.ddde±x`, for the digits `dddd` and the exponent of the first of them. -/
def exponentText (digits : List Char) (exponent : Int) : List Char :=
  let mantissa :=
    match digits with
    | d :: e :: rest => d :: '.' :: e :: rest
    | short => short
  mantissa ++ 'e' :: (if exponent < 0 then '-' else '+') :: digitsOf exponent.natAbs

/-- The text of `digits · 10^exponent`. -/
def Decimal.text (layout : Layout) (decimal : Decimal) : List Char :=
  let digits := digitsOf decimal.digits
  let first := decimal.exponent + digits.length - 1
  if layout.positional first then positionalText layout digits decimal.exponent
  else exponentText digits first

/-- The text of a double. -/
def Exact.text (layout : Layout) : Exact → String
  | .nan => "NaN"
  | .infinite negative => if negative then "-inf" else "inf"
  | .finite negative mantissa exponent =>
    let size :=
      if mantissa = 0 then Decimal.text layout ⟨0, 0⟩
      else (shortest mantissa exponent).text layout
    String.ofList (if negative then '-' :: size else size)

/-- The text of a double. -/
def floatText (layout : Layout) (x : Float) : String := (Exact.ofFloat x).text layout

/-- The decimal text of an integer. -/
def intText (n : Int) : String :=
  String.ofList (if n < 0 then '-' :: digitsOf n.natAbs else digitsOf n.natAbs)

end SchemaCast.Number
