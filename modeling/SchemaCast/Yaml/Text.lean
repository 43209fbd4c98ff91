/-!
# Characters, positions and tokens of a YAML text

A text is a list of characters in which every line break is one character: the line feed, or one
of the Unicode line and paragraph separators, which stand for themselves when they are content. A
position counts lines and the columns of a line. In the tokens of a text indentation has become
explicit: a block collection begins and ends with a token of its own, and `key` stands in front of a
key even where only a colon behind it tells that it is one.
-/
namespace SchemaCast.Yaml

/-- Whether a text may hold a character. -/
def isAllowed (c : Char) : Bool :=
  let n := c.toNat
  c = '\t' || c = '\n' || c = '\r' || (0x20 ≤ n && n ≤ 0x7e) || n = 0x85 ||
    (0xa0 ≤ n && n ≤ 0xfffd) || 0x10000 ≤ n

/-- A text with the line feed as its only control character for a line break. -/
def unifyBreaks : List Char → List Char
  | '\r' :: '\n' :: rest => '\n' :: unifyBreaks rest
  | c :: rest => (if c = '\r' || c = '\x85' then '\n' else c) :: unifyBreaks rest
  | [] => []

/-- Whether a character ends a line. -/
def isBreak (c : Char) : Bool := c = '\n' || c = '\u2028' || c = '\u2029'

/-- Whether a character separates words within a line. -/
def isBlank (c : Char) : Bool := c = ' ' || c = '\t'

/-- Whether a word ends here. -/
def startsGap : List Char → Bool
  | [] => true
  | c :: _ => isBreak c || isBlank c

/-- Whether one of the given characters comes next. -/
def startsWithAny (candidates : List Char) : List Char → Bool
  | [] => false
  | c :: _ => candidates.contains c

/-- Whether a line begins with three times the character `c` and then a gap. -/
def isMarker (c : Char) : List Char → Bool
  | a :: b :: d :: rest => a = c && b = c && d = c && startsGap rest
  | _ => false

/-- Whether a line begins with a marker between documents. -/
def isDocumentMarker (text : List Char) : Bool := isMarker '-' text || isMarker '.' text

/-- A letter, digit, underscore or hyphen of ASCII. -/
def isNameChar (c : Char) : Bool := c.isAlphanum || c = '_' || c = '-'

/-- A place in a text. -/
structure Position where
  line : Nat := 0
  column : Nat := 0

namespace Position

/-- So many characters further in the line. -/
def advance (position : Position) (count : Nat) : Position :=
  { position with column := position.column + count }

/-- The start of the next line. -/
def newLine (position : Position) : Position := { line := position.line + 1, column := 0 }

end Position

/-- A token. -/
inductive Token where
  | version (major minor : Nat)
  /-- From here on a handle stands for the beginning of a tag. -/
  | tagHandle (handle beginning : String)
  | documentStart
  | documentEnd
  | streamEnd
  | blockSequenceStart
  | blockMappingStart
  | blockEnd
  | flowSequenceStart
  | flowSequenceEnd
  | flowMappingStart
  | flowMappingEnd
  | blockEntry
  | flowEntry
  | key
  | value
  | alias (name : String)
  | anchor (name : String)
  | tag (handle suffix : String)
  | scalar (text : String) (isPlain : Bool)
  deriving DecidableEq, Repr

end SchemaCast.Yaml
