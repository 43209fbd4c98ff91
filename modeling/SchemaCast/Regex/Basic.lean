import SchemaCast.Regex.CharSet
import SchemaCast.Text.Word

/-!
# Regular expressions

The expressions themselves. An anchor matches the empty text at a boundary, and whether it holds
there depends on the two characters next to the boundary only. Greedy and lazy loops are one,
since only the set of matches is of interest.
-/
namespace SchemaCast.Regex

open SchemaCast.Text

/-- A condition on the boundary between two characters. -/
inductive Anchor where
  | textStart
  | textEnd
  | lineStart
  | lineEnd
  /-- As `lineStart`, where a carriage return ends a line too. -/
  | returnLineStart
  | returnLineEnd
  | wordBoundary (word : CharSet)
  | notWordBoundary (word : CharSet)
  | wordStart (word : CharSet)
  | wordEnd (word : CharSet)
  | notAfterWord (word : CharSet)
  | notBeforeWord (word : CharSet)

/-- Whether a neighbour of a boundary exists and belongs to a set. -/
def neighbourIn (set : CharSet) : Option Char → Bool
  | some c => set.contains c
  | none => false

/-- Whether the anchor holds between the character before and the character after. -/
def Anchor.holds : Anchor → Option Char → Option Char → Bool
  | .textStart, before, _ => before.isNone
  | .textEnd, _, after => after.isNone
  | .lineStart, before, _ => before.isNone || before = some '\n'
  | .lineEnd, _, after => after.isNone || after = some '\n'
  | .returnLineStart, before, after =>
    before.isNone || before = some '\n' || (before = some '\r' && after ≠ some '\n')
  | .returnLineEnd, before, after =>
    after.isNone || after = some '\r' || (after = some '\n' && before ≠ some '\r')
  | .wordBoundary word, before, after => neighbourIn word before != neighbourIn word after
  | .notWordBoundary word, before, after => neighbourIn word before == neighbourIn word after
  | .wordStart word, before, after => !neighbourIn word before && neighbourIn word after
  | .wordEnd word, before, after => neighbourIn word before && !neighbourIn word after
  | .notAfterWord word, before, _ => !neighbourIn word before
  | .notBeforeWord word, _, after => !neighbourIn word after

/-- A regular expression. -/
inductive Expr where
  /-- The empty text. -/
  | empty
  /-- One character of a set. -/
  | chars (set : CharSet)
  /-- The empty text at a boundary. -/
  | anchor (condition : Anchor)
  | seq (first second : Expr)
  | alt (left right : Expr)
  /-- At least `least` and at most `most` matches of `body` in a row. -/
  | loop (body : Expr) (least : Nat) (most : Option Nat)
  deriving Inhabited

namespace Expr

/-- One expression after the other. -/
def ofSeq : List Expr → Expr
  | [] => .empty
  | [e] => e
  | e :: rest => .seq e (ofSeq rest)

/-- Any one of the expressions; `empty` if there is none. -/
def ofAlt : List Expr → Expr
  | [] => .empty
  | [e] => e
  | e :: rest => .alt e (ofAlt rest)

/-- One of the characters between two characters. -/
def range (low high : Char) : Expr := .chars (.ofRanges [(low.toNat, high.toNat)])

/-- Exactly `n` matches in a row. -/
def times (body : Expr) (n : Nat) : Expr := .loop body n (some n)

/-- Any number of matches in a row. -/
def many (body : Expr) : Expr := .loop body 0 none

/-- One match or more in a row. -/
def many1 (body : Expr) : Expr := .loop body 1 none

/-- One match or none. -/
def optional (body : Expr) : Expr := .loop body 0 (some 1)

/-- The number of steps that remain when bounded loops are written out. -/
def steps : Expr → Nat
  | .empty => 1
  | .chars _ => 1
  | .anchor _ => 1
  | .seq first second => first.steps + second.steps
  | .alt left right => left.steps + right.steps + 1
  | .loop body least most => body.steps * (max 1 (max least (most.getD 0))) + 1

end Expr

end SchemaCast.Regex
