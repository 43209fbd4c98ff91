/-!
# Lines of a text

A line ends at a newline, or at a carriage return and a newline; a final line end opens no
further line. `indentLines` puts spaces in front of every line and joins them with newlines.
-/
namespace SchemaCast.Text

/-- The pieces of a text between newlines. -/
def splitNewlines : List Char → List (List Char)
  | [] => [[]]
  | c :: rest =>
    if c = '\n' then [] :: splitNewlines rest
    else
      match splitNewlines rest with
      | [] => [[c]]
      | line :: lines => (c :: line) :: lines

/-- A line that ended at a newline, without the carriage return before it. -/
def dropReturn (line : List Char) : List Char :=
  if line.getLast? = some '\r' then line.dropLast else line

/-- Every piece but the last one ended at a newline; the last one counts if it is not empty. -/
def endLines : List (List Char) → List (List Char)
  | [] => []
  | [last] => if last.isEmpty then [] else [last]
  | line :: rest => dropReturn line :: endLines rest

/-- The lines of a text. -/
def lines (s : String) : List String :=
  (endLines (splitNewlines s.toList)).map String.ofList

/-- The lines of a text, each behind `indent` spaces. -/
def indentLines (indent : Nat) (s : String) : String :=
  let pad := String.ofList (List.replicate indent ' ')
  "\n".intercalate ((lines s).map (pad ++ ·))

end SchemaCast.Text
