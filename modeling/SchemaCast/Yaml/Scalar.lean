import SchemaCast.Text.Ranges
import SchemaCast.Yaml.Text

/-!
# The texts of scalars

A scalar is written plainly, between quotes, or as a block of lines. Plain and quoted texts are
folded: a single line break between two words reads as a space, and of several breaks the first
one is dropped. A block keeps its lines (`|`), or folds those that are not indented further (`>`);
its last breaks are kept, reduced to one or dropped.
-/
namespace SchemaCast.Yaml

/-- What has been read, and where reading goes on. -/
structure Cut (α : Type) where
  value : α
  position : Position
  rest : List Char

/-- The space between two words. -/
inductive Gap where
  /-- Blanks within a line. -/
  | blanks (text : List Char)
  /-- Line breaks; the first one is missing if it was escaped. -/
  | lines (first : Option Char) (more : List Char)

namespace Gap

/-- Whether there is a line break in the gap. -/
def isBroken : Gap → Bool
  | .blanks _ => false
  | .lines _ _ => true

/-- What the gap reads as. -/
def text : Gap → List Char
  | .blanks text => text
  | .lines (some '\n') [] => [' ']
  | .lines (some '\n') more => more
  | .lines (some c) more => c :: more
  | .lines none more => more

/-- A gap that goes on with a blank; blanks around line breaks do not count. -/
def addBlank : Gap → Char → Gap
  | .blanks text, c => .blanks (text ++ [c])
  | .lines first more, _ => .lines first more

/-- A gap that goes on with a line break. -/
def addBreak : Gap → Char → Gap
  | .blanks _, c => .lines (some c) []
  | .lines first more, c => .lines first (more ++ [c])

/-- The rest of a gap. A tab must not stand for indentation before column `indent`. -/
def read? (indent : Nat) : Gap → Position → List Char → Option (Cut Gap)
  | gap, position, [] => some ⟨gap, position, []⟩
  | gap, position, c :: rest =>
    if isBreak c then read? indent (gap.addBreak c) position.newLine rest
    else if isBlank c then
      if gap.isBroken && c = '\t' && position.column < indent then none
      else read? indent (gap.addBlank c) (position.advance 1) rest
    else some ⟨gap, position, c :: rest⟩

end Gap

namespace Plain

/-- Whether a plain text ends before the character `c`. -/
def endsBefore (inFlow : Bool) (c : Char) (rest : List Char) : Bool :=
  isBreak c || isBlank c || (c = ':' && startsGap rest) ||
    (inFlow && [',', '[', ']', '\x7b', '\x7d'].contains c)

/-- The word at the start of a text, and what follows. Within brackets a colon must not come right
before another indicator. -/
def word? (inFlow : Bool) : List Char → Option (List Char × List Char)
  | [] => some ([], [])
  | c :: rest =>
    if endsBefore inFlow c rest then some ([], c :: rest)
    else if inFlow && c = ':' && startsWithAny [',', '?', '[', ']', '\x7b', '\x7d'] rest then none
    else (word? inFlow rest).map fun (word, rest) => (c :: word, rest)

/-- The text of a plain scalar that goes on after `text` and `gap`, and whether it ends behind a
line break. Its lines start at column `indent` or behind it, except within brackets. -/
def read? (inFlow : Bool) (indent : Nat) :
    Nat → List Char → Gap → Position → List Char → Option (Cut (List Char × Bool))
  | 0, _, _, _, _ => none
  | fuel + 1, text, gap, position, rest =>
    if (position.column = 0 && isDocumentMarker rest) || rest.head? = some '#' then
      some ⟨(text, gap.isBroken), position, rest⟩
    else
      match word? inFlow rest with
      | none => none
      | some ([], _) => some ⟨(text, gap.isBroken), position, rest⟩
      | some (word, after) =>
        let text := text ++ gap.text ++ word
        match Gap.read? indent (.blanks []) (position.advance word.length) after with
        | none => none
        | some ⟨gap, position, rest⟩ =>
          if !inFlow && gap.isBroken && position.column < indent then
            some ⟨(text, gap.isBroken), position, rest⟩
          else read? inFlow indent fuel text gap position rest

end Plain

/-- The text of a plain scalar, and whether it ends behind a line break. -/
def plainText? (inFlow : Bool) (indent : Nat) (position : Position) (rest : List Char) :
    Option (Cut (List Char × Bool)) :=
  Plain.read? inFlow indent (rest.length + 1) [] (.blanks []) position rest

namespace Quoted

/-- What stands behind a backslash: a character, or so many hexadecimal digits. -/
inductive Escape where
  | char (c : Char)
  | digits (count : Nat)

/-- The escape with a letter. -/
def escape? : Char → Option Escape
  | '0' => some (.char '\x00')
  | 'a' => some (.char '\x07')
  | 'b' => some (.char '\x08')
  | 't' => some (.char '\t')
  | '\t' => some (.char '\t')
  | 'n' => some (.char '\n')
  | 'v' => some (.char '\x0b')
  | 'f' => some (.char '\x0c')
  | 'r' => some (.char '\r')
  | 'e' => some (.char '\x1b')
  | ' ' => some (.char ' ')
  | '"' => some (.char '"')
  | '/' => some (.char '/')
  | '\\' => some (.char '\\')
  | 'N' => some (.char '\x85')
  | '_' => some (.char '\xa0')
  | 'L' => some (.char '\u2028')
  | 'P' => some (.char '\u2029')
  | 'x' => some (.digits 2)
  | 'u' => some (.digits 4)
  | 'U' => some (.digits 8)
  | _ => none

/-- The character with a number given by so many hexadecimal digits. -/
def charOfHex? (count : Nat) (digits : List Char) : Option Char := do
  let values ← digits.mapM Text.Ranges.hexValue?
  let code := values.foldl (fun n digit => 16 * n + digit) 0
  if digits.length = count && (code < 0xd800 || (0xdfff < code && code ≤ 0x10ffff)) then
    some (Char.ofNat code)
  else none

/-- The text up to the next gap or to the closing quote, and the gap as far as it is known: an
escaped line break begins one. -/
def word? (single : Bool) :
    Nat → List Char → Position → List Char → Option (Cut (List Char × Gap))
  | 0, _, _, _ => none
  | fuel + 1, text, position, rest =>
    match rest with
    | [] => some ⟨(text, .blanks []), position, []⟩
    | c :: after =>
      if isBreak c || isBlank c then some ⟨(text, .blanks []), position, rest⟩
      else if single then
        if c = '\'' then
          if after.head? = some '\'' then
            word? single fuel (text ++ ['\'']) (position.advance 2) (after.drop 1)
          else some ⟨(text, .blanks []), position, rest⟩
        else word? single fuel (text ++ [c]) (position.advance 1) after
      else if c = '"' then some ⟨(text, .blanks []), position, rest⟩
      else if c = '\\' then
        match after with
        | [] => none
        | letter :: after =>
          if isBreak letter then some ⟨(text, .lines none []), position.newLine, after⟩
          else
            match escape? letter with
            | none => none
            | some (.char c) => word? single fuel (text ++ [c]) (position.advance 2) after
            | some (.digits count) =>
              match charOfHex? count (after.take count) with
              | none => none
              | some c =>
                word? single fuel (text ++ [c]) (position.advance (2 + count)) (after.drop count)
      else word? single fuel (text ++ [c]) (position.advance 1) after

/-- The text of a quoted scalar behind its opening quote, after `text`. -/
def read? (single : Bool) :
    Nat → List Char → Position → List Char → Option (Cut (List Char))
  | 0, _, _, _ => none
  | fuel + 1, text, position, rest =>
    if rest.isEmpty || (position.column = 0 && isDocumentMarker rest) then none
    else
      match word? single (rest.length + 1) text position rest with
      | none => none
      | some ⟨(text, gap), position, rest⟩ =>
        if startsWithAny [if single then '\'' else '"'] rest then
          some ⟨text, position.advance 1, rest.drop 1⟩
        else
          match gap.read? 0 position rest with
          | none => none
          | some ⟨gap, position, rest⟩ => read? single fuel (text ++ gap.text) position rest

end Quoted

/-- The text of a quoted scalar, whose opening quote is the first character. -/
def quotedText? (single : Bool) (position : Position) (rest : List Char) :
    Option (Cut (List Char)) :=
  Quoted.read? single (rest.length + 1) [] (position.advance 1) (rest.drop 1)

namespace Block

/-- What happens to the line breaks at the end of a block. -/
inductive Chomping where
  | clip
  | keep
  | strip

/-- How a block is to be read: its chomping and by how much it is indented further. -/
structure Header where
  chomping : Chomping := .clip
  increment : Option Nat := none

/-- The chomping that an indicator stands for. -/
def chomping? : Char → Option Chomping
  | '+' => some .keep
  | '-' => some .strip
  | _ => none

/-- A block's further indentation, a digit from one to nine. -/
def increment? (c : Char) : Option Nat :=
  if c.isDigit then some (c.toNat - '0'.toNat) else none

/-- The indicators behind `|` or `>`, in either order. -/
def header (text : List Char) : Header × List Char :=
  match text with
  | [] => ({}, [])
  | c :: rest =>
    match chomping? c with
    | some chomping =>
      match rest.head?.bind increment? with
      | some increment => ({ chomping, increment := some increment }, rest.drop 1)
      | none => ({ chomping }, rest)
    | none =>
      match increment? c with
      | some increment =>
        match rest.head?.bind chomping? with
        | some chomping => ({ chomping, increment := some increment }, rest.drop 1)
        | none => ({ increment := some increment }, rest)
      | none => ({}, text)

/-- Skip indentation up to column `indent`, or all of it if that is zero, and empty lines. The
value is the deepest column and the line breaks. -/
def skipBreaks? (indent : Nat) :
    Nat → List Char → Position → List Char → Option (Cut (Nat × List Char))
  | deepest, breaks, position, [] =>
    some ⟨(max deepest position.column, breaks), position, []⟩
  | deepest, breaks, position, c :: rest =>
    let inside := indent = 0 || position.column < indent
    if c = ' ' && inside then skipBreaks? indent deepest breaks (position.advance 1) rest
    else if c = '\t' && inside then none
    else if isBreak c then
      skipBreaks? indent (max deepest position.column) (breaks ++ [c]) position.newLine rest
    else some ⟨(max deepest position.column, breaks), position, c :: rest⟩

/-- The content of a block as far as it has been read. -/
structure Content where
  text : List Char := []
  /-- The break at the end of the last line. -/
  lastBreak : List Char := []
  /-- The breaks of the empty lines behind it. -/
  breaks : List Char := []
  /-- Whether the last line began with a blank. -/
  blank : Bool := false

/-- What the breaks between two lines read as: a folded block joins lines that do not begin with a
blank. -/
def Content.join (content : Content) (folded blank : Bool) : List Char :=
  if folded && content.lastBreak = ['\n'] && !content.blank && !blank then
    if content.breaks.isEmpty then [' '] else content.breaks
  else content.lastBreak ++ content.breaks

/-- The lines that start at column `indent`. -/
def lines? (folded : Bool) (indent : Nat) :
    Nat → Content → Position → List Char → Option (Cut Content)
  | 0, _, _, _ => none
  | fuel + 1, content, position, rest =>
    if rest.isEmpty || position.column ≠ indent then some ⟨content, position, rest⟩
    else
      let blank := startsWithAny [' ', '\t'] rest
      let line := rest.takeWhile fun c => !isBreak c
      let text := content.text ++ content.join folded blank ++ line
      let position := position.advance line.length
      let after := rest.drop line.length
      let (lastBreak, position) :=
        match after with
        | [] => ([], position)
        | c :: _ => ([c], position.newLine)
      match skipBreaks? indent 0 [] position (after.drop 1) with
      | none => none
      | some ⟨(_, breaks), position, rest⟩ =>
        lines? folded indent fuel { text, lastBreak, breaks, blank } position rest

/-- The text of a block. -/
def Content.chomp (content : Content) : Chomping → List Char
  | .strip => content.text
  | .clip => content.text ++ content.lastBreak
  | .keep => content.text ++ content.lastBreak ++ content.breaks

end Block

/-- Skip blanks and a comment up to the end of a line; nothing else may be there. -/
def toLineEnd? (position : Position) (rest : List Char) : Option (Position × List Char) :=
  let blanks := (rest.takeWhile isBlank).length
  let rest := rest.drop blanks
  let comment :=
    if rest.head? = some '#' then (rest.takeWhile fun c => !isBreak c).length else 0
  let rest := rest.drop comment
  match rest with
  | [] => some (position.advance (blanks + comment), [])
  | c :: rest => if isBreak c then some (position.newLine, rest) else none

/-- The text of a block behind the indicator `|` or `>`, in surroundings that are indented to
column `outer`, or not at all if that is negative. -/
def blockText? (folded : Bool) (outer : Int) (position : Position) (rest : List Char) :
    Option (Cut (List Char)) := do
  let (header, rest) := Block.header (rest.drop 1)
  if header.increment = some 0 then none
  else
    let (position, rest) ← toLineEnd? position rest
    let indent := (header.increment.map fun n => (max outer 0).toNat + n).getD 0
    let start ← Block.skipBreaks? indent 0 [] position rest
    let (deepest, breaks) := start.value
    let indent := if indent = 0 then max (max deepest (outer + 1).toNat) 1 else indent
    let cut ← Block.lines? folded indent (start.rest.length + 1) { breaks } start.position start.rest
    return ⟨cut.value.chomp header.chomping, cut.position, cut.rest⟩

end SchemaCast.Yaml
