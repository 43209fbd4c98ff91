import SchemaCast.Regex.Basic
import SchemaCast.Regex.Class

/-!
# Reading regular expressions

`Expr.parse?` reads the written form of an expression, or refuses it. Groups may be named, may
carry flags and nest; there are neither back-references nor conditions on the surrounding text. A
flag counts to the end of its group. Inside brackets, classes nest and combine by `&&`, `--` and
`~~`, each from the left.

An engine that compiles expressions bounds the size of what it compiles. Here an expression that
would take more than `maxSteps` steps with its bounded loops written out is refused, and groups may
nest to any depth; an expression at the edge of a bound may thus be read here and refused there, or
the other way round. Nothing else depends on which expressions are refused.
-/
namespace SchemaCast.Regex

open SchemaCast.Text

/-- The text from the next character that counts on: in free spacing, white space and comments up
to the end of the line do not. -/
def Flags.skip (flags : Flags) : List Char → List Char
  | [] => []
  | c :: rest =>
    if !flags.freeSpacing then c :: rest
    else if whiteSpace.contains c then flags.skip rest
    else if c = '#' then comment rest
    else c :: rest
where
  comment : List Char → List Char
  | [] => []
  | c :: rest => if c = '\n' then flags.skip rest else comment rest

/-- What an escape or a character stands for. -/
inductive Atom where
  | char (c : Char)
  | members (set : CharSet)
  | anchor (condition : Anchor)

/-- The character of a number, unless the number belongs to no character. -/
def charOfNat? (n : Nat) : Option Char :=
  if n.isValidChar then some (Char.ofNat n) else none

/-- The value of hexadecimal digits; `none` if another character is among them. -/
def hexNumber? (digits : List Char) : Option Nat :=
  digits.foldl (fun n c => do some (16 * (← n) + (← Ranges.hexValue? c))) (some 0)

/-- Characters up to a closing brace, skipping what does not count, and the text behind it. -/
def untilBrace? (flags : Flags) : Nat → List Char → Option (List Char × List Char)
  | 0, _ => none
  | fuel + 1, text =>
    match flags.skip text with
    | [] => none
    | '\x7d' :: rest => some ([], rest)
    | c :: rest => (untilBrace? flags fuel rest).map fun (body, rest) => (c :: body, rest)

/-- Exactly `n` characters, skipping what does not count. -/
def takeChars? (flags : Flags) : Nat → List Char → Option (List Char × List Char)
  | 0, text => some ([], text)
  | n + 1, text =>
    match flags.skip text with
    | [] => none
    | c :: rest => (takeChars? flags n rest).map fun (body, rest) => (c :: body, rest)

/-- The character of a hexadecimal escape: so many digits, or any number of them in braces. -/
def hexEscape? (flags : Flags) (digits : Nat) (text : List Char) : Option (Char × List Char) :=
  match flags.skip text with
  | '\x7b' :: rest => do
    let (body, rest) ← untilBrace? flags (rest.length + 1) rest
    if body.isEmpty then none else some (← charOfNat? (← hexNumber? body), rest)
  | rest => do
    let (body, rest) ← takeChars? flags digits rest
    some (← charOfNat? (← hexNumber? body), rest)

/-- The set of a property escape, after its letter. -/
def propertyEscape? (flags : Flags) (text : List Char) : Option (CharSet × List Char) :=
  match flags.skip text with
  | '\x7b' :: rest => do
    let (body, rest) ← untilBrace? flags (rest.length + 1) rest
    some (← propertyClass? body, rest)
  | '\\' :: _ => none
  | c :: rest => do some (← propertyClass? [c], rest)
  | [] => none

/-- The characters that are escaped to lose a meaning. -/
def isMeta (c : Char) : Bool := "\\.+*?()|[]\x7b\x7d^$#&-~".toList.contains c

/-- Whether an escaped character may stand for itself. -/
def isEscapable (c : Char) : Bool :=
  isMeta c || (c.toNat < 0x80 && !c.isAlphanum && c ≠ '<' && c ≠ '>')

/-- The word in braces that may follow the boundary escape; `none` if a count follows instead. -/
def boundaryWord? (flags : Flags) (text : List Char) : Option (List Char × List Char) :=
  let isWordChar (c : Char) : Bool := c.isAlpha || c = '-'
  match text with
  | '\x7b' :: rest =>
    match flags.skip rest with
    | [] => some ([], [])
    | c :: rest =>
      if isWordChar c then
        match untilBrace? flags (rest.length + 2) (c :: rest) with
        | some (body, rest) => if body.all isWordChar then some (body, rest) else some ([], [])
        | none => some ([], [])
      else none
  | _ => none

/-- What the escape stands for that follows a backslash. -/
def escape? (flags : Flags) : List Char → Option (Atom × List Char)
  | [] => none
  | c :: rest =>
    let word := wordSet flags
    let negated (set : CharSet) : Atom := .members (.compl set)
    match c with
    | 'x' => (hexEscape? flags 2 rest).map fun (c, rest) => (.char c, rest)
    | 'u' => (hexEscape? flags 4 rest).map fun (c, rest) => (.char c, rest)
    | 'U' => (hexEscape? flags 8 rest).map fun (c, rest) => (.char c, rest)
    | 'p' | 'P' =>
      if flags.unicode then
        (propertyEscape? flags rest).map fun (set, rest) =>
          (.members (.complIf (c = 'P') (.foldIf flags.ignoreCase set)), rest)
      else none
    | 'd' | 's' | 'w' => (letterClass? flags c).map (.members ·, rest)
    | 'D' => (letterClass? flags 'd').map (negated ·, rest)
    | 'S' => (letterClass? flags 's').map (negated ·, rest)
    | 'W' => (letterClass? flags 'w').map (negated ·, rest)
    | 'a' => some (.char '\x07', rest)
    | 'f' => some (.char '\x0c', rest)
    | 't' => some (.char '\t', rest)
    | 'n' => some (.char '\n', rest)
    | 'r' => some (.char '\r', rest)
    | 'v' => some (.char '\x0b', rest)
    | 'A' => some (.anchor .textStart, rest)
    | 'z' => some (.anchor .textEnd, rest)
    | 'B' => some (.anchor (.notWordBoundary word), rest)
    | '<' => some (.anchor (.wordStart word), rest)
    | '>' => some (.anchor (.wordEnd word), rest)
    | 'b' =>
      match boundaryWord? flags rest with
      | none => some (.anchor (.wordBoundary word), rest)
      | some (body, rest) =>
        match String.ofList body with
        | "start" => some (.anchor (.wordStart word), rest)
        | "end" => some (.anchor (.wordEnd word), rest)
        | "start-half" => some (.anchor (.notAfterWord word), rest)
        | "end-half" => some (.anchor (.notBeforeWord word), rest)
        | _ => none
    | _ => if isEscapable c then some (.char c, rest) else none

/-- Whether a set that is read without scripts holds more than ASCII characters. -/
def leavesAscii (set : CharSet) : Bool :=
  (List.range 128).any fun n => set.contains (Char.ofNat (128 + n))

/-- The set as one character of an expression; without scripts only ASCII can be matched. -/
def charsOf? (flags : Flags) (set : CharSet) : Option Expr :=
  if !flags.unicode && leavesAscii set then none else some (.chars set)

/-- The expression of a single character. -/
def charExpr (flags : Flags) (c : Char) : Expr :=
  .chars (.foldIf (flags.ignoreCase && (flags.unicode || c.toNat < 0x80)) (.single c))

/-- The operators on sets inside brackets. -/
inductive SetOp where
  | inter
  | diff
  | symmDiff

/-- Two sets combined by an operator. -/
def SetOp.apply : SetOp → CharSet → CharSet → CharSet
  | .inter => .inter
  | .diff => .diff
  | .symmDiff => .symmDiff

/-- What has been read of a bracketed class: the left operand that waits for its right one, and
the union of the items since. -/
structure ClassProgress where
  negated : Bool
  waiting : Option (CharSet × SetOp) := none
  items : CharSet := .none

/-- The class read so far as one set, before negation. -/
def ClassProgress.operand (progress : ClassProgress) (flags : Flags) : CharSet :=
  let items := CharSet.foldIf flags.ignoreCase progress.items
  match progress.waiting with
  | none => items
  | some (left, op) => op.apply (.foldIf flags.ignoreCase left) items

/-- The class that a closing bracket ends. -/
def ClassProgress.finish (progress : ClassProgress) (flags : Flags) : CharSet :=
  .complIf progress.negated (.foldIf flags.ignoreCase (progress.operand flags))

/-- One more item of the class. -/
def ClassProgress.add (progress : ClassProgress) (set : CharSet) : ClassProgress :=
  { progress with items := .union progress.items set }

/-- The class after an operator. -/
def ClassProgress.operator (progress : ClassProgress) (flags : Flags) (op : SetOp) :
    ClassProgress :=
  { progress with waiting := some (progress.operand flags, op), items := .none }

/-- Hyphens at the start of a class stand for themselves. -/
def leadingHyphens (flags : Flags) : Nat → ClassProgress → List Char → ClassProgress × List Char
  | 0, progress, text => (progress, text)
  | fuel + 1, progress, text =>
    match flags.skip text with
    | '-' :: rest => leadingHyphens flags fuel (progress.add (.single '-')) rest
    | rest => (progress, rest)

/-- The start of a class, after its bracket: negation, hyphens, or a bracket for itself. -/
def classStart (flags : Flags) (text : List Char) : ClassProgress × List Char :=
  let (negated, text) :=
    match flags.skip text with
    | '^' :: rest => (true, rest)
    | rest => (false, rest)
  let (progress, rest) := leadingHyphens flags (text.length + 1) { negated } text
  match flags.skip text, flags.skip rest with
  | '-' :: _, rest => (progress, rest)
  | _, ']' :: rest => (progress.add (.single ']'), rest)
  | _, rest => (progress, rest)

/-- A class by name, `[:name:]` or `[:^name:]`, after its first bracket. -/
def namedClass? : List Char → Option (CharSet × List Char)
  | ':' :: rest => do
    let (negated, rest) :=
      match rest with
      | '^' :: rest => (true, rest)
      | rest => (false, rest)
    let ranges ← bracketClass? (String.ofList (rest.takeWhile (· ≠ ':')))
    match rest.dropWhile (· ≠ ':') with
    | ':' :: ']' :: rest => some (.complIf negated (.ofRanges ranges), rest)
    | _ => none
  | _ => none

/-- One character or escape of a class. -/
def classAtom? (flags : Flags) : List Char → Option (Atom × List Char)
  | '\\' :: rest => escape? flags rest
  | c :: rest => some (.char c, rest)
  | [] => none

/-- The set of an atom that stands alone in a class. -/
def Atom.classSet? : Atom → Option CharSet
  | .char c => some (.single c)
  | .members set => some set
  | .anchor _ => none

/-- A character, an escape or a range of a class. -/
def classItem? (flags : Flags) (text : List Char) : Option (CharSet × List Char) := do
  let (first, rest) ← classAtom? flags text
  match flags.skip rest with
  | [] => none
  | '-' :: behind =>
    match flags.skip behind with
    | ']' :: _ => some (← first.classSet?, '-' :: behind)
    | '-' :: _ => some (← first.classSet?, '-' :: behind)
    | behind => do
      let (last, rest) ← classAtom? flags behind
      match first, last with
      | .char low, .char high =>
        if low ≤ high then some (.ofRanges [(low.toNat, high.toNat)], rest) else none
      | _, _ => none
  | rest => some (← first.classSet?, rest)

/-- The rest of a class up to its closing bracket; `nested` is false for the outermost class. -/
def classBody? (flags : Flags) : Nat → ClassProgress → List Char →
    Option (CharSet × List Char)
  | 0, _, _ => none
  | fuel + 1, progress, text =>
    match flags.skip text with
    | [] => none
    | ']' :: rest => some (progress.finish flags, rest)
    | '[' :: rest =>
      match namedClass? rest with
      | some (set, rest) => classBody? flags fuel (progress.add set) rest
      | none =>
        let (inner, rest) := classStart flags rest
        match classBody? flags fuel inner rest with
        | some (set, rest) => classBody? flags fuel (progress.add set) rest
        | none => none
    | '&' :: '&' :: rest => classBody? flags fuel (progress.operator flags .inter) rest
    | '-' :: '-' :: rest => classBody? flags fuel (progress.operator flags .diff) rest
    | '~' :: '~' :: rest => classBody? flags fuel (progress.operator flags .symmDiff) rest
    | text =>
      match classItem? flags text with
      | some (set, rest) => classBody? flags fuel (progress.add set) rest
      | none => none

/-- A class, after its opening bracket. -/
def class? (flags : Flags) (text : List Char) : Option (Expr × List Char) := do
  let (progress, rest) := classStart flags text
  let (set, rest) ← classBody? flags (rest.length + 1) progress rest
  some (← charsOf? flags set, rest)

/-- The digits of a count with white space around them. -/
def count? (flags : Flags) (text : List Char) : Option Nat × List Char :=
  let rec digits : Nat → List Char → List Char × List Char
    | 0, text => ([], text)
    | fuel + 1, text =>
      match text with
      | c :: rest =>
        if c.isDigit then
          let (more, rest) := digits fuel (flags.skip rest)
          (c :: more, rest)
        else ([], c :: rest)
      | [] => ([], [])
  let text := text.dropWhile whiteSpace.contains
  let (body, rest) := digits text.length text
  let rest := flags.skip (rest.dropWhile whiteSpace.contains)
  let n := body.foldl (fun n c => 10 * n + (c.toNat - '0'.toNat)) 0
  (if body.isEmpty || 4294967296 ≤ n then none else some n, rest)

/-- The bounds of a counted loop, after its opening brace. -/
def bounds? (flags : Flags) (text : List Char) : Option ((Nat × Option Nat) × List Char) := do
  let (least, rest) := count? flags (flags.skip text)
  let least ← least
  match rest with
  | '\x7d' :: rest => some ((least, some least), rest)
  | ',' :: rest =>
    match flags.skip rest with
    | '\x7d' :: rest => some ((least, none), rest)
    | rest =>
      let (most, rest) := count? flags rest
      let most ← most
      match rest with
      | '\x7d' :: rest => if least ≤ most then some ((least, some most), rest) else none
      | _ => none
  | _ => none

/-- One flag switched on or off. -/
def Flags.set? (flags : Flags) (value : Bool) : Char → Option Flags
  | 'i' => some { flags with ignoreCase := value }
  | 's' => some { flags with dotAll := value }
  | 'm' => some { flags with multiLine := value }
  | 'x' => some { flags with freeSpacing := value }
  | 'R' => some { flags with returns := value }
  | 'u' => some { flags with unicode := value }
  | 'U' => some flags
  | _ => none

/-- The flags up to a colon or a parenthesis, which is returned with the text behind it. No flag
is given twice, a minus comes at most once, and not last. -/
def flags? : Flags → List Char → Option (Flags × Bool × Char × List Char) :=
  go true []
where
  go (value : Bool) (seen : List Char) (flags : Flags) :
      List Char → Option (Flags × Bool × Char × List Char)
    | [] => none
    | c :: rest =>
      if c = ':' ∨ c = ')' then
        if seen.head? = some '-' then none else some (flags, !seen.isEmpty, c, rest)
      else if seen.contains c then none
      else if c = '-' then go false (c :: seen) flags rest
      else
        match flags.set? value c with
        | some flags => go value (c :: seen) flags rest
        | none => none

/-- The start of a group, after its parenthesis. -/
inductive GroupStart where
  /-- Flags for the rest of the enclosing group. -/
  | settings (flags : Flags)
  /-- A group of its own, read with the given flags. -/
  | group (flags : Flags) (name : Option String)

/-- Whether a character may stand in the name of a group. -/
def isNameChar (isFirst : Bool) (c : Char) : Bool :=
  c = '_' || alphabetic.contains c ||
    (!isFirst && (c = '.' || c = '[' || c = ']' ||
      (categoriesWhere (·.startsWith "n")).contains c))

/-- The name of a group up to the closing angle bracket. -/
def groupName? (text : List Char) : Option (String × List Char) :=
  match text.takeWhile (· ≠ '>'), text.dropWhile (· ≠ '>') with
  | first :: more, _ :: rest =>
    if isNameChar true first && more.all (isNameChar false) then
      some (String.ofList (first :: more), rest)
    else none
  | _, _ => none

/-- Reads the start of a group. -/
def groupStart? (flags : Flags) (text : List Char) : Option (GroupStart × List Char) :=
  match flags.skip text with
  | '?' :: 'P' :: '<' :: rest =>
    (groupName? rest).map fun (name, rest) => (.group flags (some name), rest)
  | '?' :: '<' :: rest =>
    (groupName? rest).map fun (name, rest) => (.group flags (some name), rest)
  | '?' :: rest =>
    match flags? flags rest with
    | some (inner, _, ':', rest) => some (.group inner none, rest)
    | some (inner, true, ')', rest) => some (.settings inner, rest)
    | _ => none
  | rest => some (.group flags none, rest)

/-- What has been read of a group: finished branches and the items of the latest branch, both with
the last one first. An item that only sets flags holds no expression. -/
structure Progress where
  flags : Flags := {}
  names : List String := []
  branches : List Expr := []
  items : List (Option Expr) := []

/-- The items of the latest branch as one expression. -/
def Progress.branch (progress : Progress) : Expr := .ofSeq (progress.items.reverse.filterMap id)

/-- The whole group as one expression. -/
def Progress.finish (progress : Progress) : Expr :=
  .ofAlt ((progress.branch :: progress.branches).reverse)

/-- One more item of the branch. -/
def Progress.push (progress : Progress) (e : Expr) : Progress :=
  { progress with items := some e :: progress.items }

/-- The latest item put into a loop; there is none at the start of a branch and after flags. -/
def Progress.repeated? (progress : Progress) (least : Nat) (most : Option Nat) :
    Option Progress :=
  match progress.items with
  | some e :: items => some { progress with items := some (.loop e least most) :: items }
  | _ => none

/-- A loop may be marked as lazy. -/
def dropLazy : List Char → List Char
  | '?' :: rest => rest
  | rest => rest

/-- The expression of an atom outside of brackets. -/
def Atom.expr? (flags : Flags) : Atom → Option Expr
  | .char c => some (charExpr flags c)
  | .members set => charsOf? flags set
  | .anchor condition => some (.anchor condition)

/-- The expression of a character that is no operator. -/
def plain? (flags : Flags) : Char → Option Expr
  | '.' =>
    let stops : CharSet :=
      if flags.dotAll then .none
      else if flags.returns then .ofRanges [(0x0a, 0x0a), (0x0d, 0x0d)]
      else .single '\n'
    charsOf? flags (.compl stops)
  | '^' =>
    some (.anchor
      (if !flags.multiLine then .textStart
        else if flags.returns then .returnLineStart else .lineStart))
  | '$' =>
    some (.anchor
      (if !flags.multiLine then .textEnd
        else if flags.returns then .returnLineEnd else .lineEnd))
  | c => some (charExpr flags c)

/-- The rest of a group up to its closing parenthesis or the end of the text, and the names that
are taken by then. -/
def group? : Nat → Progress → List Char → Option (Expr × List String × List Char)
  | 0, _, _ => none
  | fuel + 1, progress, text =>
    let flags := progress.flags
    match flags.skip text with
    | [] => some (progress.finish, progress.names, [])
    | ')' :: rest => some (progress.finish, progress.names, ')' :: rest)
    | '|' :: rest =>
      group? fuel { progress with branches := progress.branch :: progress.branches, items := [] }
        rest
    | '(' :: rest =>
      match groupStart? flags rest with
      | none => none
      | some (.settings inner, rest) =>
        group? fuel { progress with flags := inner, items := none :: progress.items } rest
      | some (.group inner name, rest) =>
        if name.any progress.names.contains then none
        else
          match group? fuel { flags := inner, names := name.toList ++ progress.names } rest with
          | some (e, names, ')' :: rest) => group? fuel { progress.push e with names := names } rest
          | _ => none
    | '[' :: rest =>
      match class? flags rest with
      | some (e, rest) => group? fuel (progress.push e) rest
      | none => none
    | '*' :: rest => again fuel (progress.repeated? 0 none) (dropLazy rest)
    | '+' :: rest => again fuel (progress.repeated? 1 none) (dropLazy rest)
    | '?' :: rest => again fuel (progress.repeated? 0 (some 1)) (dropLazy rest)
    | '\x7b' :: rest =>
      match bounds? flags rest with
      | some ((least, most), rest) =>
        again fuel (progress.repeated? least most) (dropLazy (flags.skip rest))
      | none => none
    | '\\' :: rest =>
      match escape? flags rest with
      | some (atom, rest) => again fuel ((atom.expr? flags).map progress.push) rest
      | none => none
    | c :: rest => again fuel ((plain? flags c).map progress.push) rest
where
  again (fuel : Nat) (progress : Option Progress) (text : List Char) :
      Option (Expr × List String × List Char) :=
    match progress with
    | some progress => group? fuel progress text
    | none => none

/-- The number of steps that an expression may take with its bounded loops written out. -/
def maxSteps : Nat := 300000

/-- The expression that a text is the written form of. -/
def Expr.parse? (source : String) : Option Expr :=
  let text := source.toList
  match group? (2 * text.length + 2) {} text with
  | some (e, _, []) => if e.steps ≤ maxSteps then some e else none
  | _ => none

end SchemaCast.Regex
