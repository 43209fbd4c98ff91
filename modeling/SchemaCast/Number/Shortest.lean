import SchemaCast.Number.Binary

/-!
# The shortest decimal of a double

Of all decimals that are read back as a given double, the shortest one has the fewest digits,
and among those of that length it is the nearest. The reals that round to `m · 2^q` form an
interval around it, and for one digit, two digits and so on the two neighbours of the value on
that decimal grid are tested; the first grid with a hit wins. The search starts at the power of
ten above the value, which is itself a candidate, and seventeen digits always hit.
-/
namespace SchemaCast.Number

/-- A decimal `digits · 10^exponent`. -/
structure Decimal where
  digits : Nat
  exponent : Int
  deriving DecidableEq, Repr

/-- A positive double as a fraction, with the fractions on either side of which decimals are no
longer read back as it; all three are over `den`. -/
structure Interval where
  low : Nat
  value : Nat
  high : Nat
  den : Nat
  /-- Whether the two ends still belong to the interval. -/
  closed : Bool

/-- The interval of `m · 2^q`. Below a power of two the doubles are twice as dense. -/
def Interval.ofBinary (m : Nat) (q : Int) : Interval :=
  let up := twoPow q.toNat
  let below := if m = twoPow 52 ∧ -1074 < q then 1 else 2
  ⟨(4 * m - below) * up, 4 * m * up, (4 * m + 2) * up, 4 * twoPow (-q).toNat, m % 2 = 0⟩

/-- Whether `digits · num / den` lies in the interval. -/
def Interval.holds (i : Interval) (digits num den : Nat) : Bool :=
  let x := digits * num * i.den
  let low := i.low * den
  let high := i.high * den
  if i.closed then decide (low ≤ x ∧ x ≤ high) else decide (low < x ∧ x < high)

/-- The decimal with grid `10^exponent` that is read back and nearest to the value, if any. -/
def Interval.onGrid (i : Interval) (exponent : Int) : Option Decimal :=
  let num := tenPow exponent.toNat
  let den := tenPow (-exponent).toNat
  let digits := i.value * den / (i.den * num)
  let rest := 2 * (i.value * den % (i.den * num))
  let lower := i.holds digits num den
  let upper := i.holds (digits + 1) num den
  if lower && (!upper || rest < i.den * num || (rest == i.den * num && digits % 2 == 0)) then
    some ⟨digits, exponent⟩
  else if upper then some ⟨digits + 1, exponent⟩
  else none

/-- The least `e` up to `bound` steps above `e` with `value < 10^e`. -/
def Interval.magnitude (i : Interval) : Nat → Int → Int
  | 0, e => e
  | bound + 1, e =>
    if i.value * tenPow (-e).toNat < i.den * tenPow e.toNat then e else magnitude i bound (e + 1)

/-- The first hit on the grids `10^e`, `10^(e-1)`, … -/
def Interval.search (i : Interval) : Nat → Int → Decimal
  | 0, e => ⟨i.value * tenPow (-e).toNat / (i.den * tenPow e.toNat), e⟩
  | grids + 1, e =>
    match i.onGrid e with
    | some decimal => decimal
    | none => search i grids (e - 1)

/-- The shortest decimal of the positive double `m · 2^q`. -/
def shortest (m : Nat) (q : Int) : Decimal :=
  let i := Interval.ofBinary m q
  let guess : Int := ((m.log2 : Int) + q) * 30102 / 100000 - 1
  i.search 18 (i.magnitude 4 guess)

end SchemaCast.Number
