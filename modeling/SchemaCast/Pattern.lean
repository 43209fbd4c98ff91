import SchemaCast.Regex.Marks
import SchemaCast.Regex.Reader
import SchemaCast.Text.Quoted

/-!
# Patterns

A pattern is the written form of a regular expression together with the expression it is read as.
It matches a text if some part of the text matches the expression. `Regex.Expr.parse?` decides
which texts are patterns; the Unicode properties and the sizes it covers are listed where they are
read.
-/
namespace SchemaCast

/-- A regular expression that remembers its written form. -/
structure Pattern where
  source : String
  expr : Regex.Expr
  parse_source : Regex.Expr.parse? source = some expr

namespace Pattern

/-- The pattern with a written form, if that can be read. -/
def ofSource? (source : String) : Option Pattern :=
  match h : Regex.Expr.parse? source with
  | some expr => some ⟨source, expr, h⟩
  | none => none

/-- Whether some part of a text matches. -/
def isMatch (pattern : Pattern) (text : String) : Bool := pattern.expr.search text.toList

/-- The pattern as it is shown to a programmer. -/
def debugText (pattern : Pattern) : String := "Pattern(" ++ Text.quoted pattern.source ++ ")"

theorem ofSource?_isSome_iff (source : String) :
    (ofSource? source).isSome ↔ (Regex.Expr.parse? source).isSome := by
  unfold ofSource?
  split <;> simp_all

theorem source_of_ofSource? {source : String} {pattern : Pattern}
    (h : ofSource? source = some pattern) : pattern.source = source := by
  unfold ofSource? at h
  split at h
  · cases h
    rfl
  · cases h

end Pattern

end SchemaCast
