import SchemaCast.Format
import SchemaCast.Pattern
import SchemaCast.Schema.ValueKind

/-!
# Schemas

A schema is a tree of nodes. A node joins the options that every node has (whether a value is
required, what stands in for a missing one, documentation, local definitions) with the rules of
its kind. The only edges that leave the tree are names: a reference names the schema that takes
its place, and a hash may include the properties of named hashes. Names are looked up when a value
is checked, never when the schema is built.
-/
namespace SchemaCast

/-- What happens to members of a collection that no other rule covers. -/
inductive Policy (α : Type) where
  | reject
  | allow
  | schema (node : α)

/-- The keys that a hash tolerates although it does not know them. -/
inductive Ignored where
  | none
  | all
  | keys (names : List String)
  deriving DecidableEq, Repr

/-- Whether a key is tolerated. -/
def Ignored.covers : Ignored → String → Bool
  | .none, _ => false
  | .all, _ => true
  | .keys names, key => names.contains key

/-- The rules of a string. -/
structure StringRules where
  minLength : Option Nat := none
  maxLength : Option Nat := none
  pattern : Option Pattern := none
  format : Option Format := none
  /-- Whether white space alone is a value. -/
  allowBlank : Bool := true

/-- The rules of an integer or a number. -/
structure NumericRules where
  minimum : Option Number.Exact := none
  maximum : Option Number.Exact := none
  exclusiveMinimum : Option Number.Exact := none
  exclusiveMaximum : Option Number.Exact := none
  multipleOf : Option Number.Exact := none
  /-- Whether a string that spells a number is read as one. -/
  castText : Bool := false

/-- The ways to combine alternatives. -/
inductive Combinator where
  | allOf
  | anyOf
  | oneOf
  | not
  deriving DecidableEq, Repr

/-- The type name of a combinator. -/
def Combinator.name : Combinator → String
  | .allOf => "all_of"
  | .anyOf => "any_of"
  | .oneOf => "one_of"
  | .not => "is_not"

mutual

/-- A node of a schema. -/
structure Node where
  options : NodeOptions
  kind : Kind

/-- The options that every node has. -/
structure NodeOptions where
  /-- The key under which a hash holds the node. -/
  name : Option String := none
  required : Bool := false
  /-- Whether the key must be there, even with a null value. -/
  requireKey : Bool := false
  /-- What stands in for a missing value. -/
  default : Option Json := none
  title : Option String := none
  description : Option String := none
  examples : List Json := []
  allowed : Option (List Json) := none
  /-- The key under which the value is written when a hash is cast. -/
  outputName : Option String := none
  definitions : List (String × Node) := []

/-- The rules of the different kinds of nodes. -/
inductive Kind where
  | string (rules : StringRules)
  | integer (rules : NumericRules)
  | number (rules : NumericRules)
  | boolean (castText : Bool)
  | symbol
  | object (classes : List ValueKind)
  | hash (rules : HashRules)
  | array (rules : ArrayRules)
  | combination (combinator : Combinator) (alternatives : List Node) (blankAsNull : Bool)
  | reference (target : String)

/-- The rules of a hash. -/
structure HashRules where
  properties : List (String × Node) := []
  patternProperties : List (Pattern × Node) := []
  additional : Policy Node := .reject
  propertyNames : Option Pattern := none
  /-- The keys that must be given if a key is given. -/
  dependencies : List (String × List String) := []
  minProperties : Option Nat := none
  maxProperties : Option Nat := none
  ignored : Ignored := .none
  /-- The names of the hashes whose properties are added. -/
  includes : List String := []

/-- The rules of an array. -/
structure ArrayRules where
  items : ItemShape
  additional : Option (Policy Node) := none
  contains : Option Node := none
  minItems : Option Nat := none
  maxItems : Option Nat := none
  unique : Bool := false
  /-- Only elements that satisfy it are kept, and those it has no answer for. -/
  filter : Option Predicate := none
  /-- Elements that satisfy it are dropped. -/
  reject : Option Predicate := none
  /-- Whether a string that holds a JSON array is read as one. -/
  parseText : Bool := false

/-- What the elements of an array have to be. -/
inductive ItemShape where
  | any
  /-- All elements follow one schema. -/
  | list (item : Node)
  /-- Each position has a schema of its own. -/
  | tuple (positions : List Node)

end

/-- Named schemas that a node declares for itself and the nodes below it. -/
abbrev Definitions := Entries Node

namespace Kind

/-- The type name of a kind. -/
def typeName : Kind → String
  | .string _ => "string"
  | .integer _ => "integer"
  | .number _ => "number"
  | .boolean _ => "boolean"
  | .symbol => "symbol"
  | .object _ => "object"
  | .hash _ => "hash"
  | .array _ => "array"
  | .combination combinator _ _ => combinator.name
  | .reference _ => "reference"

/-- The names that a node refers to itself. -/
def referenced : Kind → List String
  | .reference target => [target]
  | .hash rules => rules.includes
  | _ => []

end Kind

/-- What happens to the elements of a tuple behind its last position. -/
def ArrayRules.tail (rules : ArrayRules) : Policy Node := rules.additional.getD .reject

/-- The first pattern property whose pattern matches a key. -/
def HashRules.patternFor? (rules : HashRules) (key : String) : Option Node :=
  (rules.patternProperties.find? fun entry => entry.1.isMatch key).map Prod.snd

/-- Whether an element of an array is looked at: the filter must not answer no, and the reject
predicate must not answer yes. -/
def ArrayRules.keeps (rules : ArrayRules) (element : Json) : Bool :=
  let kept := rules.filter.all fun p => (p.test element).getD true
  let rejected := rules.reject.any fun p => (p.test element).getD false
  kept && !rejected

namespace Node

/-- The type name of a node. -/
def typeName (node : Node) : String := node.kind.typeName

/-- The schemas that a node declares. -/
def definitions (node : Node) : Definitions := node.options.definitions

/-- The schema of a policy, if it has one. -/
def ofPolicy : Policy Node → List Node
  | .schema node => [node]
  | _ => []

/-- The nodes that a node owns, without its definitions. -/
def children (node : Node) : List Node :=
  match node.kind with
  | .hash rules =>
    rules.properties.map Prod.snd ++ rules.patternProperties.map Prod.snd ++
      ofPolicy rules.additional
  | .array rules =>
    (match rules.items with
      | .any => []
      | .list item => [item]
      | .tuple positions => positions) ++
      (rules.additional.map ofPolicy).getD [] ++ rules.contains.toList
  | .combination _ alternatives _ => alternatives
  | _ => []

end Node

end SchemaCast
