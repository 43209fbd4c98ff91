import SchemaCast.Yaml.Tag

/-!
# From lines to tokens

Outside of brackets indentation tells which collections are open: an entry or key further to the
right opens one, and a token further to the left closes all that begin to the right of it. A key is
only known by the colon behind it, so every place where a key may start is remembered until the
colon comes; it must come on the same line and within 1024 characters. A key that stands exactly at
the indentation of a block cannot be anything else, and there the colon must not be missing.
-/
namespace SchemaCast.Yaml

/-- A place where a key may have started. -/
structure KeyStart where
  /-- Whether nothing but a key can start there. -/
  required : Bool
  /-- The number of tokens before it. -/
  number : Nat
  position : Position

/-- What is known after a part of a text. -/
structure Layout where
  tokens : Array Token := #[]
  /-- The column of the innermost open block, or a negative number. -/
  indent : Int := -1
  /-- The columns of the blocks around it. -/
  outerIndents : List Int := []
  key : Option KeyStart := none
  /-- The places outside of each open bracket. -/
  outerKeys : List (Option KeyStart) := []
  /-- Whether a key may start here. -/
  keyAllowed : Bool := true
  position : Position := {}
  rest : List Char

namespace Layout

/-- Whether the place is within brackets. -/
def inFlow (layout : Layout) : Bool := !layout.outerKeys.isEmpty

/-- Add a token. -/
def push (layout : Layout) (token : Token) : Layout :=
  { layout with tokens := layout.tokens.push token }

/-- Skip so many characters of the line. -/
def skip (layout : Layout) (count : Nat) : Layout :=
  { layout with position := layout.position.advance count, rest := layout.rest.drop count }

/-- Go on behind something that has been read. -/
def goOn {α : Type} (layout : Layout) (cut : Cut α) : Layout :=
  { layout with position := cut.position, rest := cut.rest }

/-- Skip blanks, comments and line breaks. A tab counts as a blank only where no key may start. -/
def gapEnd (inFlow : Bool) :
    Bool → Bool → Position → List Char → Bool × Position × List Char
  | keyAllowed, _, position, [] => (keyAllowed, position, [])
  | keyAllowed, inComment, position, c :: rest =>
    if isBreak c then gapEnd inFlow (keyAllowed || !inFlow) false position.newLine rest
    else if inComment then gapEnd inFlow keyAllowed true (position.advance 1) rest
    else if c = ' ' || (c = '\t' && (inFlow || !keyAllowed)) ||
        (c = '\ufeff' && position.column = 0) then
      gapEnd inFlow keyAllowed false (position.advance 1) rest
    else if c = '#' then gapEnd inFlow keyAllowed true (position.advance 1) rest
    else (keyAllowed, position, c :: rest)

/-- Go to the next token. -/
def skipGap (layout : Layout) : Layout :=
  let (keyAllowed, position, rest) :=
    gapEnd layout.inFlow layout.keyAllowed false layout.position layout.rest
  { layout with keyAllowed, position, rest }

/-- Whether a colon would come too late for a key. -/
def isStale (position : Position) (key : KeyStart) : Bool :=
  key.position.line < position.line || key.position.column + 1024 < position.column

/-- Forget a place for which a colon would come too late. -/
def dropIfStale? (position : Position) : Option KeyStart → Option (Option KeyStart)
  | none => some none
  | some key =>
    if isStale position key then if key.required then none else some none else some (some key)

/-- Forget all places for which a colon would come too late. -/
def dropStale? (layout : Layout) : Option Layout := do
  let key ← dropIfStale? layout.position layout.key
  let outerKeys ← layout.outerKeys.mapM (dropIfStale? layout.position)
  return { layout with key, outerKeys }

/-- How many blocks end before a column, and the blocks that stay open. -/
def closed (column : Int) : Int → List Int → Nat × Int × List Int
  | indent, [] => (0, indent, [])
  | indent, outer :: rest =>
    if column < indent then
      let (count, indent, rest) := closed column outer rest
      (count + 1, indent, rest)
    else (0, indent, outer :: rest)

/-- End the blocks that begin to the right of a column. -/
def unroll (layout : Layout) (column : Int) : Layout :=
  if layout.inFlow then layout
  else
    let (count, indent, outerIndents) := closed column layout.indent layout.outerIndents
    { layout with
      tokens := layout.tokens ++ Array.replicate count .blockEnd
      indent, outerIndents }

/-- Begin a block at a column, unless that is where the innermost one begins; its token comes after
`number` others. -/
def roll (layout : Layout) (column number : Nat) (token : Token) : Layout :=
  if layout.inFlow || (column : Int) ≤ layout.indent then layout
  else
    { layout with
      tokens := layout.tokens.insertIdx! number token
      indent := column
      outerIndents := layout.indent :: layout.outerIndents }

/-- No key has started here. -/
def removeKey? (layout : Layout) : Option Layout :=
  match layout.key with
  | some key => if key.required then none else some { layout with key := none }
  | none => some layout

/-- Remember the place if a key may start here. -/
def saveKey? (layout : Layout) : Option Layout := do
  if layout.keyAllowed then
    let layout ← layout.removeKey?
    return { layout with
      key := some
        { required := !layout.inFlow && layout.indent = layout.position.column
          number := layout.tokens.size
          position := layout.position } }
  else return layout

/-- Whether keys may start at the next place. -/
def allowKey (layout : Layout) (keyAllowed : Bool) : Layout := { layout with keyAllowed }

/-- Read an opening bracket. -/
def openFlow? (layout : Layout) (token : Token) : Option Layout := do
  let layout ← layout.saveKey?
  return (({ layout with key := none, outerKeys := layout.key :: layout.outerKeys }.push
    token).allowKey true).skip 1

/-- Read a closing bracket. -/
def closeFlow? (layout : Layout) (token : Token) : Option Layout := do
  let layout ← layout.removeKey?
  let layout :=
    match layout.outerKeys with
    | [] => layout
    | key :: outerKeys => { layout with key, outerKeys }
  return ((layout.push token).allowKey false).skip 1

/-- Read a comma within brackets. -/
def flowEntry? (layout : Layout) : Option Layout := do
  let layout ← layout.removeKey?
  return ((layout.push .flowEntry).allowKey true).skip 1

/-- Read the dash of a block entry. -/
def blockEntry? (layout : Layout) : Option Layout := do
  if !layout.inFlow && !layout.keyAllowed then none
  else
    let layout := layout.roll layout.position.column layout.tokens.size .blockSequenceStart
    let layout ← layout.removeKey?
    return ((layout.push .blockEntry).allowKey true).skip 1

/-- Read the question mark in front of a key. -/
def key? (layout : Layout) : Option Layout := do
  if !layout.inFlow && !layout.keyAllowed then none
  else
    let layout := layout.roll layout.position.column layout.tokens.size .blockMappingStart
    let layout ← layout.removeKey?
    return ((layout.push .key).allowKey (!layout.inFlow)).skip 1

/-- Read the colon in front of a value. If a key has started, it is known as one now. -/
def value? (layout : Layout) : Option Layout :=
  match layout.key with
  | some key =>
    let layout := { layout with tokens := layout.tokens.insertIdx! key.number .key, key := none }
    let layout := layout.roll key.position.column key.number .blockMappingStart
    some (((layout.push .value).allowKey false).skip 1)
  | none =>
    if !layout.inFlow && !layout.keyAllowed then none
    else
      let layout := layout.roll layout.position.column layout.tokens.size .blockMappingStart
      some (((layout.push .value).allowKey (!layout.inFlow)).skip 1)

/-- Read an anchor or alias. -/
def anchor? (layout : Layout) (token : String → Token) : Option Layout := do
  let layout ← layout.saveKey?
  let (name, rest) ← anchorName? layout.rest
  return ((layout.push (token name)).allowKey false).skip (layout.rest.length - rest.length)

/-- Read a tag. -/
def tagToken? (layout : Layout) : Option Layout := do
  let layout ← layout.saveKey?
  let (token, rest) ← tag? layout.inFlow layout.rest
  return ((layout.push token).allowKey false).skip (layout.rest.length - rest.length)

/-- Read a block of text. -/
def block? (layout : Layout) (folded : Bool) : Option Layout := do
  let layout ← layout.removeKey?
  let cut ← blockText? folded layout.indent layout.position layout.rest
  return ((layout.push (.scalar (String.ofList cut.value) false)).allowKey true).goOn cut

/-- Read a quoted text. -/
def quoted? (layout : Layout) (single : Bool) : Option Layout := do
  let layout ← layout.saveKey?
  let cut ← quotedText? single layout.position layout.rest
  return ((layout.push (.scalar (String.ofList cut.value) false)).allowKey false).goOn cut

/-- Read a plain text. A key may start behind a line break. -/
def plain? (layout : Layout) : Option Layout := do
  let layout ← layout.saveKey?
  let cut ← plainText? layout.inFlow (layout.indent + 1).toNat layout.position layout.rest
  let (text, broken) := cut.value
  return ((layout.push (.scalar (String.ofList text) true)).allowKey broken).goOn cut

/-- Read a marker between documents, which ends all blocks. -/
def marker? (layout : Layout) (token : Token) : Option Layout := do
  let layout ← (layout.unroll (-1)).removeKey?
  return ((layout.push token).allowKey false).skip 3

/-- Read a directive, which ends all blocks. -/
def directiveToken? (layout : Layout) : Option Layout := do
  let layout ← (layout.unroll (-1)).removeKey?
  let cut ← directive? layout.position layout.rest
  return ((layout.push cut.value).allowKey false).goOn cut

/-- End the text, which ends all blocks. -/
def finish? (layout : Layout) : Option Layout := do
  let layout ← (layout.unroll (-1)).removeKey?
  return layout.push .streamEnd

/-- The characters that no plain text starts with. -/
def indicators : List Char :=
  ['-', '?', ':', ',', '[', ']', '\x7b', '\x7d', '#', '&', '*', '!', '|', '>', '\'', '"', '%', '@',
   '\x60']

/-- Whether a plain text starts with `c`. A dash, outside of brackets also a question mark or a
colon, starts one if no gap follows. -/
def startsPlain (inFlow : Bool) (c : Char) (rest : List Char) : Bool :=
  (!startsGap [c] && !indicators.contains c) || (c = '-' && !startsGap rest) ||
    (!inFlow && (c = '?' || c = ':') && !startsGap rest)

/-- Read the token that starts with `c`. -/
def token? (layout : Layout) (c : Char) (rest : List Char) : Option Layout :=
  let lineStart := layout.position.column = 0
  if lineStart && c = '%' then layout.directiveToken?
  else if lineStart && isMarker '-' (c :: rest) then layout.marker? .documentStart
  else if lineStart && isMarker '.' (c :: rest) then layout.marker? .documentEnd
  else if c = '[' then layout.openFlow? .flowSequenceStart
  else if c = '\x7b' then layout.openFlow? .flowMappingStart
  else if c = ']' then layout.closeFlow? .flowSequenceEnd
  else if c = '\x7d' then layout.closeFlow? .flowMappingEnd
  else if c = ',' then layout.flowEntry?
  else if c = '-' && startsGap rest then layout.blockEntry?
  else if c = '?' && (layout.inFlow || startsGap rest) then layout.key?
  else if c = ':' && (layout.inFlow || startsGap rest) then layout.value?
  else if c = '*' then layout.anchor? .alias
  else if c = '&' then layout.anchor? .anchor
  else if c = '!' then layout.tagToken?
  else if c = '|' && !layout.inFlow then layout.block? false
  else if c = '>' && !layout.inFlow then layout.block? true
  else if c = '\'' then layout.quoted? true
  else if c = '"' then layout.quoted? false
  else if startsPlain layout.inFlow c rest then layout.plain?
  else none

/-- The tokens of the rest of a text, which takes at most so many steps. -/
def run? : Nat → Layout → Option (Array Token)
  | 0, _ => none
  | fuel + 1, layout =>
    match layout.skipGap.dropStale? with
    | none => none
    | some layout =>
      let layout := layout.unroll layout.position.column
      match layout.rest with
      | [] => layout.finish?.map Layout.tokens
      | c :: rest =>
        match layout.token? c rest with
        | none => none
        | some layout => run? fuel layout

end Layout

/-- The tokens of a text. -/
def tokens? (text : List Char) : Option (List Token) :=
  if text.all isAllowed then
    let text := unifyBreaks text
    (Layout.run? (text.length + 1) { rest := text }).map Array.toList
  else none

end SchemaCast.Yaml
