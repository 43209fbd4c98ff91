import SchemaCast.Regex.Marks
import SchemaCast.Text.Ranges

/-!
# The grammars of dates, times, addresses and numbers

Each grammar is a regular expression that a whole text has to match. A `digit` of a date or time
is a decimal digit of any script, except where a range of digits is prescribed.
-/
namespace SchemaCast.Grammar

open SchemaCast.Regex (Expr CharSet)

/-- A decimal digit of any script. -/
def digit : Expr := .chars (.ofRanges Text.decimalDigits)

/-- One of the characters `0` to `9`. -/
def asciiDigit : Expr := .range '0' '9'

/-- A given character. -/
def char (c : Char) : Expr := .chars (.single c)

/-- One of the characters of a word. -/
def oneOf (word : String) : Expr :=
  .chars (.ofRanges (word.toList.map fun c => (c.toNat, c.toNat)))

/-- One of the ASCII letters and digits, or of the characters of a word. -/
def alphanumericOr (word : String) : Expr :=
  .chars (.union (.ofRanges [(0x30, 0x39), (0x41, 0x5a), (0x61, 0x7a)])
    (.ofRanges (word.toList.map fun c => (c.toNat, c.toNat))))

/-- A year, a month from 01 to 12 and a day from 01 to 31. -/
def date : Expr := .ofSeq
  [.times digit 4, char '-',
   .alt (.seq (char '0') (.range '1' '9')) (.seq (char '1') (.range '0' '2')), char '-',
   .ofAlt [.seq (char '0') (.range '1' '9'), .seq (.range '1' '2') digit,
     .seq (char '3') (.range '0' '1')]]

/-- An hour from 00 to 23. -/
def hour : Expr := .alt (.seq (.range '0' '1') digit) (.seq (char '2') (.range '0' '3'))

/-- A number from 00 to 59. -/
def sixtieth : Expr := .seq (.range '0' '5') digit

/-- Hours, minutes and seconds, perhaps with a fraction. -/
def clock : Expr := .ofSeq
  [hour, char ':', sixtieth, char ':', sixtieth, .optional (.seq (char '.') (.many1 digit))]

/-- The distance from universal time. -/
def offset : Expr :=
  .alt (char 'Z') (.ofSeq [oneOf "+-", hour, char ':', sixtieth])

/-- A time with or without an offset. -/
def time : Expr := .seq clock (.optional offset)

/-- A date and a time with an offset. -/
def dateTime : Expr := .ofSeq [date, char 'T', clock, offset]

/-- One label of a host name: up to 63 letters, digits and inner hyphens. -/
def hostLabel : Expr :=
  .seq (alphanumericOr "")
    (.optional (.seq (.loop (alphanumericOr "-") 0 (some 61)) (alphanumericOr "")))

/-- A mail address. -/
def email : Expr := .ofSeq
  [.many1 (alphanumericOr ".!#$%&'*+/=?^_`\x7b|\x7d~-"), char '@', hostLabel,
   .many (.seq (char '.') hostLabel)]

/-- An optional minus sign. -/
def minus : Expr := .optional (char '-')

/-- Digits, perhaps with a fraction and an exponent. -/
def decimal : Expr := .ofSeq
  [minus, .many1 asciiDigit, .optional (.seq (char '.') (.many1 asciiDigit)),
   .optional (.ofSeq [oneOf "eE", .optional (oneOf "+-"), .many1 asciiDigit])]

/-- A hexadecimal digit. -/
def hexDigit : Expr := .chars (.ofRanges [(0x30, 0x39), (0x41, 0x46), (0x61, 0x66)])

/-- An identifier of five groups of hexadecimal digits between hyphens. -/
def uuid : Expr := .ofSeq
  [.times hexDigit 8, char '-', .times hexDigit 4, char '-', .times hexDigit 4, char '-',
   .times hexDigit 4, char '-', .times hexDigit 12]

end SchemaCast.Grammar
