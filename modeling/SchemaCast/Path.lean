import SchemaCast.Number.Layout

/-!
# Paths into a value

A path leads from the outermost value to a place inside it, through keys of objects and indices
of arrays. Its text has a slash in front of every segment and brackets around an index; the path
without segments is a single slash.
-/
namespace SchemaCast

/-- One step into a value. -/
inductive Segment where
  | key (name : String)
  | index (position : Nat)
  deriving DecidableEq, Repr

/-- A place inside a value. -/
structure Path where
  /-- The steps, the outermost one first. -/
  segments : List Segment := []
  deriving DecidableEq, Repr

/-- The text of a step. -/
def Segment.text : Segment → String
  | .key name => name
  | .index position => "[" ++ Number.intText position ++ "]"

namespace Path

/-- The place of the whole value. -/
def root : Path := {}

/-- One step further in. -/
def push (path : Path) (segment : Segment) : Path := ⟨path.segments ++ [segment]⟩

/-- One step back out; the root stays. -/
def pop (path : Path) : Path := ⟨path.segments.dropLast⟩

/-- The innermost step. -/
def last? (path : Path) : Option Segment := path.segments.getLast?

/-- One path continued by another. -/
def append (outer inner : Path) : Path := ⟨outer.segments ++ inner.segments⟩

/-- The text of a path. -/
def text (path : Path) : String :=
  if path.segments.isEmpty then "/"
  else String.join (path.segments.map fun segment => "/" ++ segment.text)

@[simp] theorem pop_push (path : Path) (segment : Segment) : (path.push segment).pop = path := by
  simp [push, pop]

@[simp] theorem last?_push (path : Path) (segment : Segment) :
    (path.push segment).last? = some segment := by
  simp [push, last?]

@[simp] theorem append_root (path : Path) : path.append root = path := by
  simp [append, root]

@[simp] theorem root_append (path : Path) : root.append path = path := by
  simp [append, root]

theorem append_push (outer inner : Path) (segment : Segment) :
    outer.append (inner.push segment) = (outer.append inner).push segment := by
  simp [append, push]

end Path

end SchemaCast
