import SchemaCast.Text.CaseFold
import SchemaCast.Text.Ranges

/-!
# Character sets

The character classes of regular expressions, kept as they were composed. Membership
(`CharSet.contains`) follows the composition, so every law of sets is a law of Booleans.
-/
namespace SchemaCast.Regex

open SchemaCast.Text

/-- A set of characters. -/
inductive CharSet where
  | ofRanges (ranges : Ranges)
  /-- All case variants of the members. -/
  | folded (set : CharSet)
  | union (left right : CharSet)
  | inter (left right : CharSet)
  | compl (set : CharSet)
  deriving Inhabited

namespace CharSet

/-- Whether a character is in the set. -/
def contains : CharSet → Char → Bool
  | .ofRanges ranges, c => ranges.contains c
  | .folded set, c => (variants c).any set.contains
  | .union left right, c => left.contains c || right.contains c
  | .inter left right, c => left.contains c && right.contains c
  | .compl set, c => !set.contains c

/-- The set without members. -/
def none : CharSet := .ofRanges []

/-- The set of all characters. -/
def all : CharSet := .compl none

/-- The set of one character. -/
def single (c : Char) : CharSet := .ofRanges [(c.toNat, c.toNat)]

/-- The members of the first set that are not in the second. -/
def diff (left right : CharSet) : CharSet := .inter left (.compl right)

/-- The members of exactly one of the sets. -/
def symmDiff (left right : CharSet) : CharSet := .union (diff left right) (diff right left)

/-- The case variants of the members if `ignoreCase`, else the set itself. -/
def foldIf (ignoreCase : Bool) (set : CharSet) : CharSet :=
  if ignoreCase then .folded set else set

/-- The complement if `negated`, else the set itself. -/
def complIf (negated : Bool) (set : CharSet) : CharSet := if negated then .compl set else set

@[simp] theorem contains_none (c : Char) : none.contains c = false := rfl

@[simp] theorem contains_all (c : Char) : all.contains c = true := rfl

@[simp] theorem contains_single (a c : Char) : (single a).contains c = decide (c = a) := by
  have : (a.toNat ≤ c.toNat ∧ c.toNat ≤ a.toNat) ↔ c = a := by
    constructor
    · intro h
      exact Char.toNat_inj.1 (by omega)
    · rintro rfl
      simp
  simp [single, contains, Ranges.contains, ← Bool.decide_and, this]

end CharSet

end SchemaCast.Regex
