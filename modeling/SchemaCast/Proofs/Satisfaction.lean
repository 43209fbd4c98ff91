import SchemaCast.Proofs.Place

/-!
# What it means to satisfy a schema

The rules of every kind, stated about a value as a whole and without an order of checks, a log or
an early end. `Place.Meets` says what a value has to be at a place, given what it means to satisfy
the places inside. References need not come to an end, so that the meaning of a schema is what
`Place.Meets` gives when it is unfolded deep enough: `Place.Satisfies`.
-/
namespace SchemaCast

/-- A text follows the rules of a string. -/
structure StringRules.Admits (rules : StringRules) (s : String) : Prop where
  blank : Text.isBlank s → rules.allowBlank
  minLength : ∀ least ∈ rules.minLength, least ≤ s.length
  maxLength : ∀ most ∈ rules.maxLength, s.length ≤ most
  pattern : ∀ pattern ∈ rules.pattern, pattern.isMatch s
  format : ∀ format ∈ rules.format, format.accepts s

/-- A number lies within bounds and is a multiple. What is no number has nothing to follow. -/
structure NumericRules.Bounds (rules : NumericRules) (number : Json) : Prop where
  minimum : ∀ x ∈ number.number?, ∀ least ∈ rules.minimum, ¬ x.lt least
  maximum : ∀ x ∈ number.number?, ∀ most ∈ rules.maximum, ¬ most.lt x
  exclusiveMinimum : ∀ x ∈ number.number?, ∀ below ∈ rules.exclusiveMinimum, ¬ x.le below
  exclusiveMaximum : ∀ x ∈ number.number?, ∀ above ∈ rules.exclusiveMaximum, ¬ above.le x
  multipleOf : ∀ x ∈ number.number?, ∀ step ∈ rules.multipleOf, NumericRules.isMultiple number step

/-- A number follows the rules, where a text stands for the number that it spells. -/
def NumericRules.Admits (rules : NumericRules) (integer : Bool) : Json → Prop
  | .str s => (textFormat integer).accepts s ∧ rules.Bounds ((textFormat integer).cast s)
  | number => rules.Bounds number

/-- A text spells a truth value. -/
def Truth.Admits (value : Json) : Prop := ∀ s, value = .str s → Truth.isText s

/-- A key in lower-case ASCII letters. -/
def foldKey (key : String) : String := String.ofList (key.toList.map Char.toLower)

section Kinds

variable (context : Context) (Sat : Place → Json → Prop) (place : Place)

namespace HashRules

/-- The properties that a hash takes over from an include. -/
def Offers (name : String) (target : Place) (properties : List (String × Node)) : Prop :=
  context.place? place.inner name = some target ∧
    ∃ rules, target.node.kind = .hash rules ∧ rules.properties = properties

/-- A key is a property of one of some includes. -/
def Offered (names : List String) (key : String) : Prop :=
  ∃ name ∈ names, ∃ target properties, Offers context place name target properties ∧
    key ∈ properties.map Prod.fst

variable (rules : HashRules)

/-- An included property that no declared one and no earlier include shadows, with the place of the
hash that it comes from. -/
def Includes (entry : String × Node) (target : Place) : Prop :=
  ∃ earlier name later properties, rules.includes = earlier ++ name :: later ∧
    Offers context place name target properties ∧ entry ∈ properties ∧
    ¬ rules.declares entry.1 ∧ ¬ Offered context place earlier entry.1

/-- A key is neither declared nor included. -/
def Extra (key : String) : Prop := ¬ rules.declares key ∧ ¬ Offered context place rules.includes key

/-- The value of a key satisfies the node of a property; a missing key counts as null. -/
structure MeetsProperty (fields : Entries Json) (entry : String × Node)
    (around : List Definitions) : Prop where
  key : entry.2.options.requireKey → fields.contains entry.1
  value : Sat ⟨entry.2, around⟩ ((fields.get? entry.1).getD .null)

/-- A further field follows its pattern property, or else the policy for all others. -/
def MeetsExtra (field : String × Json) : Prop :=
  match rules.patternFor? field.1 with
  | some node => Sat ⟨node, place.inner⟩ field.2
  | none =>
    match rules.additional with
    | .allow => True
    | .schema node => Sat ⟨node, place.inner⟩ field.2
    | .reject => rules.ignored.covers field.1

/-- The fields of an object follow the rules of a hash. -/
structure Meets (fields : Entries Json) : Prop where
  distinct : fields.keys.Pairwise fun key other => foldKey key ≠ foldKey other
  minProperties : ∀ least ∈ rules.minProperties, least ≤ fields.length
  maxProperties : ∀ most ∈ rules.maxProperties, fields.length ≤ most
  declared : ∀ entry ∈ rules.properties, MeetsProperty Sat fields entry place.inner
  included : ∀ entry target, rules.Includes context place entry target →
    MeetsProperty Sat fields entry target.inner
  extra : ∀ field ∈ fields, rules.Extra context place field.1 → rules.MeetsExtra Sat place field
  names : ∀ field ∈ fields, rules.Extra context place field.1 →
    ∀ pattern ∈ rules.propertyNames, pattern.isMatch field.1
  dependencies : ∀ entry ∈ rules.dependencies, isGiven fields entry.1 →
    ∀ target ∈ entry.2, isGiven fields target

end HashRules

namespace ArrayRules

/-- The items of an array are as the shape asks, each at its place. -/
def MeetsShape (rules : ArrayRules) (items : List Json) : Prop :=
  match rules.items with
  | .any => True
  | .list node => ∀ item ∈ items, Sat ⟨node, place.inner⟩ item
  | .tuple positions =>
    positions.length ≤ items.length ∧
      (∀ entry ∈ positions.zip items, Sat ⟨entry.1, place.inner⟩ entry.2) ∧
      match rules.tail with
      | .reject => items.length = positions.length
      | .allow => True
      | .schema node => ∀ item ∈ items.drop positions.length, Sat ⟨node, place.inner⟩ item

/-- The items of an array that are looked at follow the rules. -/
structure MeetsItems (rules : ArrayRules) (items : List Json) : Prop where
  minItems : ∀ least ∈ rules.minItems, least ≤ items.length
  maxItems : ∀ most ∈ rules.maxItems, items.length ≤ most
  unique : rules.unique → items.Pairwise fun item other => ¬ other.beq item
  shape : rules.MeetsShape Sat place items
  contains : ∀ node ∈ rules.contains, ∃ item ∈ items, Sat ⟨node, place.inner⟩ item

/-- A value holds the elements of an array, and those that are looked at follow the rules. -/
def Meets (rules : ArrayRules) (value : Json) : Prop :=
  ∃ elements, rules.elements value = .ok elements ∧
    rules.MeetsItems Sat place (elements.filter rules.keeps)

end ArrayRules

/-- All, some, exactly one or none of the alternatives are satisfied. -/
def Combinator.Meets (combinator : Combinator) (alternatives : List Node) (value : Json) : Prop :=
  match combinator with
  | .allOf => ∀ node ∈ alternatives, Sat ⟨node, place.inner⟩ value
  | .anyOf => ∃ node ∈ alternatives, Sat ⟨node, place.inner⟩ value
  | .oneOf => ∃ before node after, alternatives = before ++ node :: after ∧
      Sat ⟨node, place.inner⟩ value ∧ ∀ other ∈ before ++ after, ¬ Sat ⟨other, place.inner⟩ value
  | .not => ∀ node ∈ alternatives, ¬ Sat ⟨node, place.inner⟩ value

/-- A value of a type that the kind of a place accepts follows the rules of the kind. -/
def Kind.Meets (value : Json) : Kind → Prop
  | .string rules => ∀ s, value = .str s → rules.Admits s
  | .integer rules => rules.Admits true value
  | .number rules => rules.Admits false value
  | .boolean _ => Truth.Admits value
  | .symbol => True
  | .object _ => True
  | .hash rules => ∀ fields, value = .obj fields → rules.Meets context Sat place fields
  | .array rules => rules.Meets Sat place value
  | .combination combinator alternatives _ => combinator.Meets Sat place alternatives value
  | .reference name => ∃ target, context.place? place.inner name = some target ∧ Sat target value

namespace Place

/-- A value that is not missing is of an accepted type, among the allowed values and as the rules
of the kind ask. -/
structure MeetsPresent (value : Json) : Prop where
  type : place.node.kind.accepts value
  allowed : ∀ values ∈ place.node.options.allowed, ∃ allowed ∈ values, allowed.beq value
  kind : place.node.kind.Meets context Sat place value

/-- A value is as a place asks. A missing value is, unless it is required or its default is not. -/
def Meets (value : Json) : Prop :=
  if (place.node.seen value).isNull then
    ¬ place.node.options.required ∧
      ∀ default ∈ place.node.default?, place.MeetsPresent context Sat default
  else place.MeetsPresent context Sat (place.node.seen value)

end Place

end Kinds

namespace Place

/-- The rules of a place, unfolded to a depth below which nothing is satisfied. -/
def SatisfiesWithin (context : Context) : Nat → Place → Json → Prop
  | 0, _, _ => False
  | depth + 1, place, value => place.Meets context (SatisfiesWithin context depth) value

/-- A value satisfies a place if it does however deep the rules are unfolded, from some depth on. -/
def Satisfies (context : Context) (place : Place) (value : Json) : Prop :=
  ∃ depth, ∀ more ≥ depth, place.SatisfiesWithin context more value

end Place

end SchemaCast
