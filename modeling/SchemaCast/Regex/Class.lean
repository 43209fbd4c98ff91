import SchemaCast.Regex.CharSet
import SchemaCast.Text.Category
import SchemaCast.Text.Letter
import SchemaCast.Text.Script
import SchemaCast.Text.Word

/-!
# Named character classes

The classes that have a letter (`\d`, `\s`, `\w`), a name in brackets (`[:alpha:]`) or a Unicode
property (`\p`). A property name may be written in any letter case, with blanks, hyphens and
underscores anywhere and with `is` in front.

The properties that are covered are the general categories and their groups, `Any`, `ASCII` and
`Assigned`, the scripts, and `Alphabetic`, `Lowercase`, `Uppercase` and `White_Space`. An expression
that names another property (`Emoji`, `XID_Start`, `Age`, the kinds of text boundaries) is refused,
and `Script_Extensions` is read as `Script`.
-/
namespace SchemaCast.Regex

open SchemaCast.Text

/-- The options that a group of an expression is read with. -/
structure Flags where
  /-- Letter case makes no difference. -/
  ignoreCase : Bool := false
  /-- The dot matches a newline. -/
  dotAll : Bool := false
  /-- The anchors for start and end hold at every line. -/
  multiLine : Bool := false
  /-- White space and comments are skipped. -/
  freeSpacing : Bool := false
  /-- A carriage return ends a line too. -/
  returns : Bool := false
  /-- Classes hold characters of all scripts. -/
  unicode : Bool := true

/-- The class of a letter, in lower case. -/
def letterClass? (flags : Flags) : Char → Option CharSet
  | 'd' => some (.ofRanges (if flags.unicode then decimalDigits else [(0x30, 0x39)]))
  | 's' =>
    some (.ofRanges (if flags.unicode then whiteSpace else [(0x09, 0x0d), (0x20, 0x20)]))
  | 'w' =>
    some (.ofRanges
      (if flags.unicode then wordCharacters
        else [(0x30, 0x39), (0x41, 0x5a), (0x5f, 0x5f), (0x61, 0x7a)]))
  | _ => none

/-- The word characters that boundaries of words are about. -/
def wordSet (flags : Flags) : CharSet := ((letterClass? flags 'w').getD .none)

/-- The class of a name in brackets; all of them are made of ASCII characters. -/
def bracketClass? : String → Option Ranges
  | "alnum" => some [(0x30, 0x39), (0x41, 0x5a), (0x61, 0x7a)]
  | "alpha" => some [(0x41, 0x5a), (0x61, 0x7a)]
  | "ascii" => some [(0x00, 0x7f)]
  | "blank" => some [(0x09, 0x09), (0x20, 0x20)]
  | "cntrl" => some [(0x00, 0x1f), (0x7f, 0x7f)]
  | "digit" => some [(0x30, 0x39)]
  | "graph" => some [(0x21, 0x7e)]
  | "lower" => some [(0x61, 0x7a)]
  | "print" => some [(0x20, 0x7e)]
  | "punct" => some [(0x21, 0x2f), (0x3a, 0x40), (0x5b, 0x60), (0x7b, 0x7e)]
  | "space" => some [(0x09, 0x0d), (0x20, 0x20)]
  | "upper" => some [(0x41, 0x5a)]
  | "word" => some [(0x30, 0x39), (0x41, 0x5a), (0x5f, 0x5f), (0x61, 0x7a)]
  | "xdigit" => some [(0x30, 0x39), (0x41, 0x46), (0x61, 0x66)]
  | _ => none

/-- A property name without the differences in spelling that do not count. -/
def propertyKey (name : List Char) : String :=
  let lower := name.map Char.toLower
  let body :=
    match lower with
    | 'i' :: 's' :: rest => rest
    | rest => rest
  String.ofList (body.filter fun c => c ≠ ' ' && c ≠ '_' && c ≠ '-' && c.toNat < 0x80)

/-- The characters of a property without a value. -/
def property? (key : String) : Option Ranges :=
  match key with
  | "alphabetic" | "alpha" => some alphabetic
  | "lowercase" | "lower" => some lowercase
  | "uppercase" | "upper" => some uppercase
  | "whitespace" | "space" | "wspace" => some whiteSpace
  | _ => category? key <|> script? key

/-- The characters for which a property has a value. -/
def propertyValue? (key value : String) : Option Ranges :=
  match key with
  | "generalcategory" | "gc" => category? value
  | "script" | "sc" | "scriptextensions" | "scx" => script? value
  | _ => none

/-- A list cut at the first place where a word stands, without the word. -/
def cutAt? (word : List Char) : List Char → Option (List Char × List Char)
  | [] => none
  | c :: rest =>
    if word.isPrefixOf (c :: rest) then some ([], (c :: rest).drop word.length)
    else (cutAt? word rest).map fun (head, tail) => (c :: head, tail)

/-- The class of the text between the braces of a property. -/
def propertyClass? (body : List Char) : Option CharSet :=
  match cutAt? ['!', '='] body with
  | some (name, value) =>
    (propertyValue? (propertyKey name) (propertyKey value)).map fun r => .compl (.ofRanges r)
  | none =>
    match cutAt? [':'] body <|> cutAt? ['='] body with
    | some (name, value) =>
      (propertyValue? (propertyKey name) (propertyKey value)).map .ofRanges
    | none => (property? (propertyKey body)).map .ofRanges

end SchemaCast.Regex
