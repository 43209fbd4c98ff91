import SchemaCast.Regex.Basic

/-!
# Matching

A match starts and ends at boundaries of the text. `Expr.ends` takes marks on the boundaries where
a match may start and gives marks on those where it may end, so every expression is a function on
sets of boundaries and no choice is ever tried twice. `Expr.search` asks whether a match exists
anywhere, `Expr.matchesAll` whether one spans the whole text.
-/
namespace SchemaCast.Regex

/-- One mark for each boundary of a text, which are one more than its characters. -/
abbrev Marks := List Bool

namespace Marks

/-- The boundaries marked in either. -/
def union : Marks → Marks → Marks
  | a :: as, b :: bs => (a || b) :: union as bs
  | [], bs => bs
  | as, [] => as

/-- The boundaries marked in the first and not in the second. -/
def minus : Marks → Marks → Marks
  | a :: as, b :: bs => (a && !b) :: minus as bs
  | as, [] => as
  | [], _ => []

/-- Whether a boundary is marked. -/
def isAny (marks : Marks) : Bool := marks.any id

/-- The marks in front of a character of the set, one for each character. -/
def before (set : CharSet) : List Char → Marks → Marks
  | c :: text, mark :: marks => (mark && set.contains c) :: before set text marks
  | _, _ => []

/-- Move each mark over the next character, if it is in the set. -/
def advance (set : CharSet) (text : List Char) (marks : Marks) : Marks :=
  false :: before set text marks

/-- Keep the marks where the anchor holds. -/
def keep (anchor : Anchor) : Option Char → List Char → Marks → Marks
  | before, c :: text, mark :: marks =>
    (mark && anchor.holds before (some c)) :: keep anchor (some c) text marks
  | before, [], mark :: _ => [mark && anchor.holds before none]
  | _, _, [] => []

/-- Apply a step a number of times; without marks there is nothing left to do. -/
def iterate (step : Marks → Marks) : Nat → Marks → Marks
  | 0, marks => marks
  | n + 1, marks => if marks.isAny then iterate step n (step marks) else marks

/-- Add what a step reaches from the latest marks, for so many rounds or until nothing is new. -/
def spread (step : Marks → Marks) : Nat → Marks → Marks → Marks
  | 0, seen, _ => seen
  | rounds + 1, seen, latest =>
    let new := (step latest).minus seen
    if new.isAny then spread step rounds (seen.union new) new else seen

end Marks

namespace Expr

/-- The boundaries at which matches end that start at marked boundaries. -/
def ends (text : List Char) : Expr → Marks → Marks
  | .empty, marks => marks
  | .chars set, marks => Marks.advance set text marks
  | .anchor condition, marks => Marks.keep condition none text marks
  | .seq first second, marks => second.ends text (first.ends text marks)
  | .alt left right, marks => (left.ends text marks).union (right.ends text marks)
  | .loop body least most, marks =>
    let started := Marks.iterate (body.ends text) least marks
    let rounds :=
      match most with
      | none => text.length + 1
      | some n => n - least
    Marks.spread (body.ends text) rounds started started

/-- Whether some part of the text matches. -/
def search (e : Expr) (text : List Char) : Bool :=
  (e.ends text (List.replicate (text.length + 1) true)).isAny

/-- Whether the whole text matches. -/
def matchesAll (e : Expr) (text : List Char) : Bool :=
  (e.ends text (true :: List.replicate text.length false)).getLast? = some true

end Expr

end SchemaCast.Regex
