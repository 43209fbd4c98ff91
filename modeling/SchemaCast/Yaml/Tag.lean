import SchemaCast.Text.Ranges
import SchemaCast.Yaml.Scalar

/-!
# Tags, anchors and directives

A tag is written in full between angle brackets, or as a handle (`!`, `!!`, `!name!`) and a suffix;
the lone `!` has no handle. In a tag a percent sign and two hexadecimal digits stand for a byte of
UTF-8. A directive says which version of YAML a document follows, or what a handle stands for.
-/
namespace SchemaCast.Yaml

/-- The byte behind a percent sign. -/
def escapedByte? : List Char → Option (UInt8 × List Char)
  | '%' :: high :: low :: rest => do
    let high ← Text.Ranges.hexValue? high
    let low ← Text.Ranges.hexValue? low
    some ((16 * high + low).toUInt8, rest)
  | _ => none

/-- So many escaped bytes. -/
def escapedBytes? : Nat → List Char → Option (List UInt8 × List Char)
  | 0, text => some ([], text)
  | count + 1, text => do
    let (byte, rest) ← escapedByte? text
    let (bytes, rest) ← escapedBytes? count rest
    some (byte :: bytes, rest)

/-- The number of bytes of a character, told by the first one. -/
def byteCount? (byte : UInt8) : Option Nat :=
  if byte < 0x80 then some 1
  else if byte &&& 0xe0 = 0xc0 then some 2
  else if byte &&& 0xf0 = 0xe0 then some 3
  else if byte &&& 0xf8 = 0xf0 then some 4
  else none

/-- The character that escaped bytes spell. -/
def escapedChar? (text : List Char) : Option (List Char × List Char) := do
  let (first, rest) ← escapedByte? text
  let count ← byteCount? first
  let (bytes, rest) ← escapedBytes? (count - 1) rest
  let decoded ← String.fromUTF8? ⟨(first :: bytes).toArray⟩
  some (decoded.toList, rest)

/-- Whether a character can stand in a tag; commas and brackets only in one written in full. -/
def isTagChar (full : Bool) (c : Char) : Bool :=
  isNameChar c ||
    [';', '/', '?', ':', '@', '&', '=', '+', '$', '.', '%', '!', '~', '*', '\'', '(', ')'].contains
      c ||
    (full && [',', '[', ']'].contains c)

/-- The characters of a tag at the start of a text. -/
def tagChars? (full : Bool) : Nat → List Char → Option (List Char × List Char)
  | 0, _ => none
  | fuel + 1, text =>
    match text with
    | [] => some ([], [])
    | c :: rest =>
      if !isTagChar full c then some ([], c :: rest)
      else do
        let (chars, rest) ← if c = '%' then escapedChar? text else some ([c], rest)
        let (more, rest) ← tagChars? full fuel rest
        some (chars ++ more, rest)

/-- The handle at the start of a text: an exclamation mark, and a name with another one. -/
def tagHandle? : List Char → Option (List Char × List Char)
  | '!' :: rest =>
    let name := rest.takeWhile isNameChar
    match rest.dropWhile isNameChar with
    | '!' :: rest => some ('!' :: name ++ ['!'], rest)
    | rest => some ('!' :: name, rest)
  | _ => none

/-- The handle and the suffix of the tag at the start of a text. -/
def tagParts? (text : List Char) : Option ((List Char × List Char) × List Char) :=
  match text with
  | '!' :: '<' :: rest =>
    match tagChars? true (rest.length + 1) rest with
    | some (suffix, '>' :: rest) => if suffix.isEmpty then none else some (([], suffix), rest)
    | _ => none
  | _ => do
    let (handle, rest) ← tagHandle? text
    let (chars, rest) ← tagChars? false (rest.length + 1) rest
    if 1 < handle.length && handle.getLast? = some '!' then
      if chars.isEmpty then none else some ((handle, chars), rest)
    else
      let suffix := handle.drop 1 ++ chars
      if suffix.isEmpty then some (([], ['!']), rest) else some ((['!'], suffix), rest)

/-- The tag at the start of a text; a gap has to follow, or a comma within brackets. -/
def tag? (inFlow : Bool) (text : List Char) : Option (Token × List Char) := do
  let ((handle, suffix), rest) ← tagParts? text
  if startsGap rest || (inFlow && rest.head? = some ',') then
    some (.tag (String.ofList handle) (String.ofList suffix), rest)
  else none

/-- The name of an anchor or alias behind its indicator. -/
def anchorName? (text : List Char) : Option (String × List Char) :=
  let name := (text.drop 1).takeWhile isNameChar
  let rest := (text.drop 1).dropWhile isNameChar
  if name.isEmpty then none
  else if startsGap rest || startsWithAny ['?', ':', ',', ']', '\x7d', '%', '@', '\x60'] rest then
    some (String.ofList name, rest)
  else none

/-- A number of at most nine digits. -/
def versionNumber? (text : List Char) : Option (Nat × List Char) :=
  let digits := text.takeWhile Char.isDigit
  if digits.isEmpty || 9 < digits.length then none
  else some (digits.foldl (fun n c => 10 * n + (c.toNat - '0'.toNat)) 0, text.dropWhile Char.isDigit)

/-- The version in a directive. -/
def version? (text : List Char) : Option (Token × List Char) := do
  let (major, rest) ← versionNumber? text
  match rest with
  | '.' :: rest =>
    let (minor, rest) ← versionNumber? rest
    some (.version major minor, rest)
  | _ => none

/-- The handle in a directive and what it stands for. -/
def handleMeaning? (text : List Char) : Option (Token × List Char) := do
  let (handle, rest) ← tagHandle? text
  if handle.length ≠ 1 && handle.getLast? ≠ some '!' then none
  else if rest.isEmpty || !startsWithAny [' ', '\t'] rest then none
  else
    let rest := rest.dropWhile isBlank
    let (beginning, rest) ← tagChars? true (rest.length + 1) rest
    if beginning.isEmpty || !startsGap rest then none
    else some (.tagHandle (String.ofList handle) (String.ofList beginning), rest)

/-- The directive at the start of a line. -/
def directive? (position : Position) (text : List Char) : Option (Cut Token) := do
  let name := (text.drop 1).takeWhile isNameChar
  let rest := (text.drop 1).dropWhile isNameChar
  if !startsGap rest then none
  else
    let body := rest.dropWhile isBlank
    let (token, rest) ←
      if name = ['Y', 'A', 'M', 'L'] then version? body
      else if name = ['T', 'A', 'G'] then handleMeaning? body
      else none
    let (position, rest) ← toLineEnd? position rest
    return ⟨token, position, rest⟩

end SchemaCast.Yaml
