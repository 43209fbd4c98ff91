import SchemaCast.Address
import SchemaCast.Grammar
import SchemaCast.Json.Basic

/-!
# String formats

A format is a named class of texts together with a conversion. Four of them convert: `integer`,
`number`, `boolean` and `integerList` turn a text into the value it spells. A conversion may be
asked for on any text; one that spells nothing stays a string.
-/
namespace SchemaCast

/-- The named classes of texts. -/
inductive Format where
  | date
  | dateTime
  | time
  | email
  | boolean
  | integer
  | number
  | symbol
  | uuid
  | ipv4
  | ipv6
  | integerList
  | binary
  deriving DecidableEq, Repr

namespace Format

/-- All formats. -/
def all : List Format :=
  [.date, .dateTime, .time, .email, .boolean, .integer, .number, .symbol, .uuid, .ipv4, .ipv6,
   .integerList, .binary]

/-- The name of a format in a declaration. -/
def name : Format → String
  | .date => "date"
  | .dateTime => "date-time"
  | .time => "time"
  | .email => "email"
  | .boolean => "boolean"
  | .integer => "integer"
  | .number => "number"
  | .symbol => "symbol"
  | .uuid => "uuid"
  | .ipv4 => "ipv4"
  | .ipv6 => "ipv6"
  | .integerList => "integer-list"
  | .binary => "binary"

/-- The format with a name. -/
def ofName? (s : String) : Option Format := all.find? fun format => format.name = s

/-- Whether a text is an optional minus sign and ASCII digits. -/
def isSignedDigits : List Char → Bool
  | '-' :: digits => !digits.isEmpty && digits.all Char.isDigit
  | digits => !digits.isEmpty && digits.all Char.isDigit

/-- Whether a text spells a signed 64-bit integer, without a plus sign. -/
def isInteger (text : List Char) : Bool := isSignedDigits text && (Number.int64? text).isSome

/-- The number that a text spells: an integer if it fits into 64 bits, else a finite double. -/
def number? (text : List Char) : Option Json :=
  match Number.int64? text with
  | some n => some (.int n)
  | none =>
    match Number.decimal? text with
    | some x => if x.isFinite then some (.float x.toFloat) else none
    | none => none

/-- Whether a text belongs to a format. -/
def accepts (format : Format) (s : String) : Bool :=
  let text := s.toList
  match format with
  | .date => Grammar.date.matchesAll text
  | .dateTime => Grammar.dateTime.matchesAll text
  | .time => Grammar.time.matchesAll text
  | .email => Grammar.email.matchesAll text
  | .boolean => ["true", "false", "0", "1"].contains s
  | .integer => isInteger text
  | .number => Grammar.decimal.matchesAll text && (number? text).isSome
  | .symbol => !text.isEmpty
  | .uuid => Grammar.uuid.matchesAll text
  | .ipv4 => Address.isAddress4 text
  | .ipv6 => Address.isAddress6 text
  | .integerList => (text.splitOn ',').all isInteger
  | .binary => true

/-- The value that a text spells in a format, or the text itself. -/
def cast (format : Format) (s : String) : Json :=
  match format with
  | .integer => ((Number.int64? s.toList).map .int).getD (.str s)
  | .number => (number? s.toList).getD (.str s)
  | .boolean => .bool (s = "true" || s = "1")
  | .integerList =>
    match (s.toList.splitOn ',').mapM Number.int64? with
    | some numbers => .arr (numbers.map .int)
    | none => .str s
  | _ => .str s

end Format

end SchemaCast
