import SchemaCast.Entries
import SchemaCast.Number.Binary

/-!
# JSON values

A whole number and a floating-point number are different kinds of value, and an object remembers
the order of its keys. Equality (`beq`) ignores that order and the sign of zero, but never
identifies `1` with `1.0`. Whole numbers range from `-2^63` to `2^64 - 1`.
-/
namespace SchemaCast

/-- A JSON value. -/
inductive Json where
  | null
  | bool (b : Bool)
  | int (n : Int)
  | float (x : Float)
  | str (s : String)
  | arr (items : List Json)
  | obj (fields : List (String × Json))
  deriving Inhabited

namespace Json

mutual

/-- Whether two values are the same up to the order of object keys. -/
def beq : Json → Json → Bool
  | .null, .null => true
  | .bool a, .bool b => a == b
  | .int m, .int n => m == n
  | .float x, .float y => (Number.Exact.ofFloat x).eq (Number.Exact.ofFloat y)
  | .str s, .str t => s == t
  | .arr xs, .arr ys => beqItems xs ys
  | .obj fs, .obj gs => fs.length == gs.length && beqFields fs gs
  | _, _ => false

/-- Whether two lists hold the same values in the same order. -/
def beqItems : List Json → List Json → Bool
  | [], [] => true
  | x :: xs, y :: ys => beq x y && beqItems xs ys
  | _, _ => false

/-- Whether the second object gives every key of the first one the same value. -/
def beqFields : List (String × Json) → List (String × Json) → Bool
  | [], _ => true
  | (key, value) :: rest, gs =>
    (match Entries.get? gs key with
      | some other => beq value other
      | none => false) && beqFields rest gs

end

instance : BEq Json := ⟨beq⟩

/-- Whether the value is `null`. -/
def isNull : Json → Bool
  | .null => true
  | _ => false

/-- The text of a string. -/
def text? : Json → Option String
  | .str s => some s
  | _ => none

/-- The truth value of a boolean. -/
def bool? : Json → Option Bool
  | .bool b => some b
  | _ => none

/-- The value of a number of either kind. -/
def number? : Json → Option Number.Exact
  | .int n => some (.ofInt n)
  | .float x => some (.ofFloat x)
  | _ => none

/-- A whole number that is not negative. -/
def nat? : Json → Option Nat
  | .int n => if 0 ≤ n then some n.toNat else none
  | _ => none

/-- The keys and values of an object. -/
def fields? : Json → Option (Entries Json)
  | .obj fields => some fields
  | _ => none

mutual

/-- The number of values in a value, where a string counts its characters too. -/
def size : Json → Nat
  | .str s => s.length + 1
  | .arr items => sizeItems items + 1
  | .obj fields => sizeFields fields + 1
  | _ => 1

/-- The size of the items of an array together. -/
def sizeItems : List Json → Nat
  | [] => 0
  | item :: rest => item.size + sizeItems rest

/-- The size of the values of an object together. -/
def sizeFields : List (String × Json) → Nat
  | [] => 0
  | (_, value) :: rest => value.size + sizeFields rest

end

end Json

end SchemaCast
