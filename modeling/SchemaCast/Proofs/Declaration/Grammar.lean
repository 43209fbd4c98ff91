import SchemaCast.Schema.Declaration

/-!
# The grammar of declarations

Which JSON values declare a schema. Every type has a table of its options and of the shapes of
their values; `Fits` has the productions of the shapes and `Declares` those of a declaration, each
in terms of the other. An option that is null is as good as missing, but a null inside a list or an
object is no declaration. What the options say must also be consistent: those are the conditions on
which the rules of a new node are checked.
-/
namespace SchemaCast

/-- What the value of an option has to look like. -/
inductive OptionShape where
  | anything
  | truth
  | count
  | number
  | text
  | values
  /-- A text or a list of texts. -/
  | texts
  | pattern
  | format
  | predicate
  /-- The name of a kind of values or a list of such names. -/
  | classes
  /-- A truth value or texts. -/
  | tolerance
  /-- Texts by the name of a property. -/
  | dependencies
  | declaration
  | declarations
  | declarationOrList
  /-- Declarations by name. -/
  | declarationMap
  /-- Declarations by pattern. -/
  | patternMap
  /-- A truth value or a declaration. -/
  | policy

namespace NodeType

/-- The options that every type has. -/
def sharedShapes : Entries OptionShape :=
  [("type", .text), ("required", .truth), ("require_key", .truth), ("default", .anything),
   ("title", .text), ("description", .text), ("examples", .values), ("enum", .values),
   ("as", .text), ("definitions", .declarationMap)]

/-- The shape of the alternatives of a combinator. -/
def alternativesShape : Combinator → OptionShape
  | .not => .declarationOrList
  | _ => .declarations

/-- The options of a type, besides the shared ones. -/
def shapes : NodeType → Entries OptionShape
  | .string =>
    [("min_length", .count), ("max_length", .count), ("pattern", .pattern), ("format", .format),
     ("allow_blank", .truth)]
  | .integer | .number =>
    [("minimum", .number), ("maximum", .number), ("exclusive_minimum", .number),
     ("exclusive_maximum", .number), ("multiple_of", .number), ("cast_str", .truth)]
  | .boolean => [("cast_str", .truth)]
  | .symbol => []
  | .object => [("classes", .classes)]
  | .hash =>
    [("properties", .declarationMap), ("pattern_properties", .patternMap),
     ("additional_properties", .policy), ("property_names", .pattern),
     ("dependencies", .dependencies), ("min_properties", .count), ("max_properties", .count),
     ("ignore_obsolete_properties", .tolerance), ("includes", .texts)]
  | .array =>
    [("items", .declarationOrList), ("additional_items", .policy), ("contains", .declaration),
     ("min_items", .count), ("max_items", .count), ("unique_items", .truth),
     ("filter", .predicate), ("reject", .predicate), ("parse_json", .truth)]
  | .combination combinator =>
    [("of", alternativesShape combinator), ("treat_blank_as_nil", .truth)]
  | .reference => [("path", .text)]

/-- The options without which a type says nothing. -/
def needs : NodeType → List String
  | .combination _ => ["of"]
  | .reference => ["path"]
  | _ => []

end NodeType

namespace Declaration

/-! ### What options say -/

/-- The whole number of an option. -/
def givenCount (options : Options) (key : String) : Option Nat :=
  (given? options key).bind Json.nat?

/-- The number of an option. -/
def givenNumber (options : Options) (key : String) : Option Number.Exact :=
  (given? options key).bind Json.number?

/-- The texts that a value lists; a single text counts as a list of one. -/
def listedTexts : Json → List String
  | .str s => [s]
  | .arr items => items.filterMap Json.text?
  | _ => []

/-- The texts of an option. -/
def givenTexts (options : Options) (key : String) : List String :=
  ((given? options key).map listedTexts).getD []

/-- The keys and values of an option. -/
def givenFields (options : Options) (key : String) : Entries Json :=
  ((given? options key).bind Json.fields?).getD []

/-- A declaration asks for a value to be there. -/
def AsksForValue (declaration : Json) : Prop :=
  ∃ options, declaration = .obj options ∧ given? options "required" = some (.bool true)

/-- The first of two bounds is not above the second one, if both are given. -/
def CountsInOrder (options : Options) (lower upper : String) : Prop :=
  ∀ l ∈ givenCount options lower, ∀ u ∈ givenCount options upper, l ≤ u

/-- No lower bound of a number is above an upper one, and a step is a positive number. -/
structure NumbersConsistent (options : Options) : Prop where
  bounds : ∀ lower ∈ ["minimum", "exclusive_minimum"],
    ∀ upper ∈ ["maximum", "exclusive_maximum"],
      ∀ l ∈ givenNumber options lower, ∀ u ∈ givenNumber options upper, u.lt l = false
  step : ∀ step ∈ givenNumber options "multiple_of", Number.Exact.zero.lt step ∧ step.isFinite

/-- The options of a hash do not contradict one another, and all names in them are there. -/
structure HashConsistent (options : Options) : Prop where
  patterns : ∀ field ∈ givenFields options "pattern_properties", ¬ AsksForValue field.2
  policies : given? options "additional_properties" = some (.bool true) →
    given? options "ignore_obsolete_properties" ≠ some (.bool true)
  count : CountsInOrder options "min_properties" "max_properties"
  /-- If a key is there twice, what is said last counts. -/
  dependencies : ∀ entry ∈ Entries.ofPairs ((givenFields options "dependencies").map
    fun field => (field.1, listedTexts field.2)), entry.1 ≠ "" ∧ "" ∉ entry.2
  includes : "" ∉ givenTexts options "includes"

/-- Only the elements of a tuple may have others behind them, and the bounds of the length do not
cross. -/
structure ArrayConsistent (options : Options) : Prop where
  tail : ∀ value, given? options "additional_items" = some value →
    ∃ items, given? options "items" = some (.arr items)
  count : CountsInOrder options "min_items" "max_items"

/-- The options of a type do not contradict one another. -/
def Consistent (options : Options) : NodeType → Prop
  | .string => CountsInOrder options "min_length" "max_length"
  | .integer | .number => NumbersConsistent options
  | .hash => HashConsistent options
  | .array => ArrayConsistent options
  | .combination .anyOf => ∀ items, given? options "of" = some (.arr items) → 1 ≤ items.length
  | .combination .oneOf => ∀ items, given? options "of" = some (.arr items) → 2 ≤ items.length
  | .combination .not => ∀ items, given? options "of" = some (.arr items) → items.length = 1
  | .reference => given? options "path" ≠ some (.str "")
  | .combination .allOf | .boolean | .symbol | .object => True

/-! ### Productions -/

mutual

/-- A value that declares a schema. -/
inductive Declares : Json → Prop where
  /-- The name of a type stands for an object with only that type. -/
  | name {s : String} (object : Declares (.obj [("type", .str s)])) :
      Declares (.str s)
  | object {options : Options} {name : String} {type : NodeType}
      (named : Entries.get? options "type" = some (.str name))
      (known : name = type.name ∨ name ∈ type.aliases)
      (allowed : ∀ key ∈ Entries.keys options,
        key ∈ Entries.keys (NodeType.sharedShapes ++ type.shapes))
      (fits : ∀ entry ∈ NodeType.sharedShapes ++ type.shapes, ∀ value,
        given? options entry.1 = some value → Fits entry.2 value)
      (complete : ∀ key ∈ type.needs, ∃ value, given? options key = some value)
      (consistent : Consistent options type) : Declares (.obj options)

/-- A value that has the shape of an option. -/
inductive Fits : OptionShape → Json → Prop where
  | anything (value : Json) : Fits .anything value
  | truth (b : Bool) : Fits .truth (.bool b)
  | count (n : Nat) : Fits .count (.int n)
  | whole (n : Int) : Fits .number (.int n)
  | fraction (x : Float) : Fits .number (.float x)
  | text (s : String) : Fits .text (.str s)
  | values (items : List Json) : Fits .values (.arr items)
  | oneText (s : String) : Fits .texts (.str s)
  | severalTexts (texts : List String) : Fits .texts (.arr (texts.map .str))
  | pattern {s : String} {expr : Regex.Expr} (parses : Regex.Expr.parse? s = some expr) :
      Fits .pattern (.str s)
  | format (format : Format) : Fits .format (.str format.name)
  | predicate {predicate : Predicate} (known : predicate ∈ Predicate.builtin) :
      Fits .predicate (.str predicate.name)
  | oneClass (kind : ValueKind) : Fits .classes (.str kind.name)
  | severalClasses (kinds : List ValueKind) :
      Fits .classes (.arr (kinds.map fun kind => .str kind.name))
  | allOrNone (b : Bool) : Fits .tolerance (.bool b)
  | tolerated {value : Json} (texts : Fits .texts value) : Fits .tolerance value
  | dependencies {fields : List (String × Json)}
      (texts : ∀ field ∈ fields, Fits .texts field.2) : Fits .dependencies (.obj fields)
  | declaration {value : Json} (declares : Declares value) : Fits .declaration value
  | declarations {items : List Json} (declare : ∀ item ∈ items, Declares item) :
      Fits .declarations (.arr items)
  | single {value : Json} (declares : Declares value) : Fits .declarationOrList value
  | several {items : List Json} (declare : ∀ item ∈ items, Declares item) :
      Fits .declarationOrList (.arr items)
  | declarationMap {fields : List (String × Json)}
      (declare : ∀ field ∈ fields, Declares field.2) : Fits .declarationMap (.obj fields)
  | patternMap {fields : List (String × Json)}
      (parse : ∀ field ∈ fields, ∃ expr, Regex.Expr.parse? field.1 = some expr)
      (declare : ∀ field ∈ fields, Declares field.2) : Fits .patternMap (.obj fields)
  | allOrNothing (b : Bool) : Fits .policy (.bool b)
  | onlyIf {value : Json} (declares : Declares value) : Fits .policy value

end

end Declaration

end SchemaCast
