import SchemaCast.Text.Unprintable

/-!
# Quoted text

Names and patterns stand in sentences between double quotes. The quote, the backslash and the
common control characters have short escapes; a character that would not be seen is written by
its number, as `\u` and hexadecimal digits in braces.
-/
namespace SchemaCast.Text

/-- A character by its number. -/
def numberEscape (c : Char) : List Char :=
  ['\\', 'u', '\x7b'] ++ Nat.toDigits 16 c.toNat ++ ['\x7d']

/-- A character as it is written between double quotes. -/
def escapeChar (c : Char) : List Char :=
  if c = '"' then ['\\', '"']
  else if c = '\\' then ['\\', '\\']
  else if c = '\n' then ['\\', 'n']
  else if c = '\r' then ['\\', 'r']
  else if c = '\t' then ['\\', 't']
  else if c = '\x00' then ['\\', '0']
  else if unprintable.contains c then numberEscape c
  else [c]

/-- A text between double quotes. -/
def quoted (s : String) : String :=
  String.ofList ('"' :: s.toList.flatMap escapeChar ++ ['"'])

/-- A file path between double quotes, in which a single quote is escaped too. -/
def quotedPath (s : String) : String :=
  let escape (c : Char) : List Char := if c = '\'' then ['\\', '\''] else escapeChar c
  String.ofList ('"' :: s.toList.flatMap escape ++ ['"'])

/-- Items between brackets, with a comma and a space between two of them. -/
def bracketed (items : List String) : String := "[" ++ ", ".intercalate items ++ "]"

/-- Items between braces. -/
def braced (items : List String) : String := "\x7b" ++ ", ".intercalate items ++ "\x7d"

/-- A list of quoted texts. -/
def quotedList (items : List String) : String := bracketed (items.map quoted)

end SchemaCast.Text
