import SchemaCast.Number.Reading
import SchemaCast.Text.Ranges

/-!
# Network addresses

A version 4 address is four numbers below 256 between points, without leading zeros. A version 6
address is eight groups of up to four hexadecimal digits between colons; a version 4 address may
stand for the last two groups, and one double colon may stand for one group of zeros or more.
-/
namespace SchemaCast.Address

/-- Whether a text is a number below 256 without leading zeros. -/
def isOctet (digits : List Char) : Bool :=
  !digits.isEmpty && digits.length ≤ 3 && digits.all Char.isDigit &&
    (digits.length = 1 || digits.head? ≠ some '0') && Number.natOfDigits digits < 256

/-- Whether a text is a version 4 address. -/
def isAddress4 (text : List Char) : Bool :=
  let octets := text.splitOn '.'
  octets.length = 4 && octets.all isOctet

/-- Whether a text is a group of a version 6 address. -/
def isGroup (digits : List Char) : Bool :=
  !digits.isEmpty && digits.length ≤ 4 && digits.all fun c => (Text.Ranges.hexValue? c).isSome

/-- The number of groups that pieces between colons stand for; `none` if they are no groups. -/
def groupCount? (allowsAddress4 : Bool) : List (List Char) → Option Nat
  | [] => some 0
  | [last] =>
    if isGroup last then some 1
    else if allowsAddress4 && isAddress4 last then some 2
    else none
  | piece :: rest => if isGroup piece then (groupCount? allowsAddress4 rest).map (· + 1) else none

/-- The number of groups in a text, which may be empty. -/
def groupCountOf? (allowsAddress4 : Bool) (text : List Char) : Option Nat :=
  if text.isEmpty then some 0 else groupCount? allowsAddress4 (text.splitOn ':')

/-- The parts before and after the first double colon. -/
def splitDoubleColon : List Char → Option (List Char × List Char)
  | ':' :: ':' :: rest => some ([], rest)
  | c :: rest => (splitDoubleColon rest).map fun (head, tail) => (c :: head, tail)
  | [] => none

/-- Whether a text is a version 6 address. -/
def isAddress6 (text : List Char) : Bool :=
  match splitDoubleColon text with
  | none => groupCountOf? true text = some 8
  | some (head, tail) =>
    match groupCountOf? false head, groupCountOf? true tail with
    | some m, some n => m + n ≤ 7
    | _, _ => false

end SchemaCast.Address
