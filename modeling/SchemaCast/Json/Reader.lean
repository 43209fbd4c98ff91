import SchemaCast.Json.Basic
import SchemaCast.Number.Reading
import SchemaCast.Text.Ranges

/-!
# Reading JSON

`parse?` reads a text that holds exactly one JSON value. Objects keep their keys in order; a key
that is given again keeps its first place and takes its last value. Arrays and objects nest at
most 127 deep. A whole number that fits into 64 bits, with or without a sign, stays whole; `-0`,
every other number and every number with a point or an exponent is a double, and one that
overflows is refused. An escaped surrogate counts only as the first half of a pair.
-/
namespace SchemaCast.Json

/-- The white space of JSON. -/
def isSpace (c : Char) : Bool := c = ' ' || c = '\n' || c = '\t' || c = '\r'

/-- The text without the white space in front. -/
def skipSpace (text : List Char) : List Char := text.dropWhile isSpace

/-- A four-digit hexadecimal number and the text after it. -/
def fourHex? : List Char → Option (Nat × List Char)
  | a :: b :: c :: d :: rest => do
    let a ← Text.Ranges.hexValue? a
    let b ← Text.Ranges.hexValue? b
    let c ← Text.Ranges.hexValue? c
    let d ← Text.Ranges.hexValue? d
    some (((a * 16 + b) * 16 + c) * 16 + d, rest)
  | _ => none

/-- The character after `\u`, which may take the escape of its second half along. -/
def unicodeEscape? (text : List Char) : Option (Char × List Char) := do
  let (high, rest) ← fourHex? text
  if 0xd800 ≤ high ∧ high < 0xdc00 then
    match rest with
    | '\\' :: 'u' :: rest =>
      let (low, rest) ← fourHex? rest
      if 0xdc00 ≤ low ∧ low < 0xe000 then
        some (Char.ofNat (0x10000 + (high - 0xd800) * 0x400 + (low - 0xdc00)), rest)
      else none
    | _ => none
  else if 0xdc00 ≤ high ∧ high < 0xe000 then none
  else some (Char.ofNat high, rest)

/-- The character that a one-letter escape stands for. -/
def letterEscape? : Char → Option Char
  | '"' => some '"'
  | '\\' => some '\\'
  | '/' => some '/'
  | 'b' => some '\x08'
  | 'f' => some '\x0c'
  | 'n' => some '\n'
  | 'r' => some '\r'
  | 't' => some '\t'
  | _ => none

/-- The characters up to the closing quote, collected in reverse in front of `done`. -/
def stringBody? : Nat → List Char → List Char → Option (List Char × List Char)
  | 0, _, _ => none
  | fuel + 1, done, text =>
    match text with
    | [] => none
    | '"' :: rest => some (done.reverse, rest)
    | '\\' :: 'u' :: rest =>
      match unicodeEscape? rest with
      | some (c, rest) => stringBody? fuel (c :: done) rest
      | none => none
    | '\\' :: letter :: rest =>
      match letterEscape? letter with
      | some c => stringBody? fuel (c :: done) rest
      | none => none
    | ['\\'] => none
    | c :: rest => if c.toNat < 0x20 then none else stringBody? fuel (c :: done) rest

/-- The text of a string, after its opening quote. -/
def string? (text : List Char) : Option (String × List Char) :=
  (stringBody? (text.length + 1) [] text).map fun (chars, rest) => (String.ofList chars, rest)

/-- The digits in front of a text, and what follows. -/
def spanDigits (text : List Char) : List Char × List Char :=
  (text.takeWhile Char.isDigit, text.dropWhile Char.isDigit)

/-- The exponent after a mantissa, which starts with `e`; nothing means zero. -/
def exponent? : List Char → Option (Option Int × List Char)
  | c :: rest =>
    if c = 'e' ∨ c = 'E' then
      let (negative, body) := Number.splitSign rest
      let (digits, rest) := spanDigits body
      if digits.isEmpty then none
      else
        let size : Int := Number.natOfDigits digits
        some (some (if negative then -size else size), rest)
    else some (none, c :: rest)
  | [] => some (none, [])

/-- The digits after the point, if there is a point; then there must be a digit. -/
def places? : List Char → Option (Option (List Char) × List Char)
  | '.' :: rest =>
    let (digits, rest) := spanDigits rest
    if digits.isEmpty then none else some (some digits, rest)
  | rest => some (none, rest)

/-- A number without a point or an exponent. -/
def wholeNumber (negative : Bool) (digits : List Char) : Option Json :=
  let size := Number.natOfDigits digits
  if negative then
    if 0 < size ∧ Number.int64Min ≤ -(size : Int) then some (.int (-size))
    else (Number.scaled? true digits [] 0).map .float
  else if size ≤ Number.word64Max then some (.int size)
  else (Number.scaled? false digits [] 0).map .float

/-- A number and the text after it. -/
def number (text : List Char) : Option (Json × List Char) := do
  let (negative, text) :=
    match text with
    | '-' :: rest => (true, rest)
    | rest => (false, rest)
  let (digits, rest) := spanDigits text
  if digits.isEmpty || (digits.head? = some '0' && 1 < digits.length) then none
  else
    let (places, rest) ← places? rest
    let (exponent, rest) ← exponent? rest
    match places, exponent with
    | none, none => (wholeNumber negative digits).map (·, rest)
    | _, _ =>
      (Number.scaled? negative digits (places.getD []) (exponent.getD 0)).map (.float ·, rest)

/-- The text after a given word. -/
def afterWord? : List Char → List Char → Option (List Char)
  | [], rest => some rest
  | c :: word, d :: rest => if c = d then afterWord? word rest else none
  | _ :: _, [] => none

mutual

/-- A value and the text after it, with `depth` levels of nesting left. -/
def value? : Nat → Nat → List Char → Option (Json × List Char)
  | 0, _, _ => none
  | fuel + 1, depth, text =>
    match skipSpace text with
    | 'n' :: rest => (afterWord? ['u', 'l', 'l'] rest).map (.null, ·)
    | 't' :: rest => (afterWord? ['r', 'u', 'e'] rest).map (.bool true, ·)
    | 'f' :: rest => (afterWord? ['a', 'l', 's', 'e'] rest).map (.bool false, ·)
    | '"' :: rest => (string? rest).map fun (s, rest) => (.str s, rest)
    | '[' :: rest =>
      match depth with
      | 0 => none
      | depth + 1 =>
        match skipSpace rest with
        | ']' :: rest => some (.arr [], rest)
        | rest => (items? fuel depth [] rest).map fun (items, rest) => (.arr items, rest)
    | '\x7b' :: rest =>
      match depth with
      | 0 => none
      | depth + 1 =>
        match skipSpace rest with
        | '\x7d' :: rest => some (.obj [], rest)
        | rest => (members? fuel depth [] rest).map fun (fields, rest) => (.obj fields, rest)
    | c :: rest => if c = '-' || c.isDigit then number (c :: rest) else none
    | [] => none

/-- The items of an array up to its bracket, after the items in `done`, which are reversed. -/
def items? : Nat → Nat → List Json → List Char → Option (List Json × List Char)
  | 0, _, _, _ => none
  | fuel + 1, depth, done, text =>
    match value? fuel depth text with
    | none => none
    | some (item, rest) =>
      match skipSpace rest with
      | ',' :: rest => items? fuel depth (item :: done) rest
      | ']' :: rest => some ((item :: done).reverse, rest)
      | _ => none

/-- The fields of an object up to its brace, after the fields in `done`. -/
def members? : Nat → Nat → Entries Json → List Char → Option (Entries Json × List Char)
  | 0, _, _, _ => none
  | fuel + 1, depth, done, text =>
    match skipSpace text with
    | '"' :: rest =>
      match string? rest with
      | none => none
      | some (key, rest) =>
        match skipSpace rest with
        | ':' :: rest =>
          match value? fuel depth rest with
          | none => none
          | some (value, rest) =>
            match skipSpace rest with
            | ',' :: rest => members? fuel depth (done.insert key value) rest
            | '\x7d' :: rest => some (done.insert key value, rest)
            | _ => none
        | _ => none
    | _ => none

end

/-- The greatest number of arrays and objects inside one another. -/
def maxDepth : Nat := 127

/-- The value that a text holds, if it holds exactly one. -/
def parse? (text : String) : Option Json :=
  let chars := text.toList
  match value? (2 * chars.length + 2) maxDepth chars with
  | some (value, rest) => if (skipSpace rest).isEmpty then some value else none
  | none => none

end SchemaCast.Json
