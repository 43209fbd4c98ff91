import SchemaCast.Schema.Error
import SchemaCast.Schema.Node

/-!
# Building schemas

Rules are put together freely; the moment they become a node they are checked. `Node.ofParts` is
the only way from rules to a node and refuses rules that no value or no reader could make sense
of: a lower bound above an upper bound, a step that is not positive, a required pattern property,
names that are empty, the wrong number of alternatives.
-/
namespace SchemaCast

/-- What building can end in. -/
abbrev Built (α : Type) := Except SchemaError α

/-- Refuse a lower bound above an upper bound; either may be missing. -/
def checkBounds {α : Type} (lowerName upperName : String) (isAbove : α → α → Bool) :
    Option α → Option α → Built Unit
  | some lower, some upper =>
    if isAbove lower upper then
      throw (.invalidStructure (.lowerAboveUpper lowerName upperName))
    else pure ()
  | _, _ => pure ()

/-- Whether the first number is the greater one. -/
def natAbove (lower upper : Nat) : Bool := decide (upper < lower)

/-- Whether the first value is the greater one. -/
def exactAbove (lower upper : Number.Exact) : Bool := upper.lt lower

/-- The pattern with a written form. -/
def Pattern.compile (source : String) : Built Pattern :=
  match Pattern.ofSource? source with
  | some pattern => pure pattern
  | none => throw (.invalidPattern source)

namespace StringRules

/-- Check the bounds of the length. -/
def check (rules : StringRules) : Built Unit :=
  checkBounds "min_length" "max_length" natAbove rules.minLength rules.maxLength

/-- Ask for a pattern to match. -/
def withPattern (rules : StringRules) (source : String) : Built StringRules := do
  return { rules with pattern := some (← Pattern.compile source) }

end StringRules

/-- Check every lower bound against every upper bound, and the step. -/
def NumericRules.check (rules : NumericRules) : Built Unit := do
  checkBounds "minimum" "maximum" exactAbove rules.minimum rules.maximum
  checkBounds "minimum" "exclusive_maximum" exactAbove rules.minimum rules.exclusiveMaximum
  checkBounds "exclusive_minimum" "maximum" exactAbove rules.exclusiveMinimum rules.maximum
  checkBounds "exclusive_minimum" "exclusive_maximum" exactAbove rules.exclusiveMinimum
    rules.exclusiveMaximum
  match rules.multipleOf with
  | some step =>
    if Number.Exact.zero.lt step && step.isFinite then pure ()
    else throw (.invalidOption "multiple_of" .notPositive)
  | none => pure ()

/-- A node under a name. -/
def Node.named (node : Node) (name : String) : Node :=
  { node with options := { node.options with name := some name } }

namespace HashRules

/-- Declare a property; a name declared again keeps its place. -/
def property (rules : HashRules) (name : String) (node : Node) : HashRules :=
  { rules with properties := Entries.insert rules.properties name (node.named name) }

/-- Add a rule for the keys that match a pattern. -/
def patternProperty (rules : HashRules) (source : String) (node : Node) : Built HashRules := do
  let pattern ← Pattern.compile source
  return { rules with
    patternProperties := rules.patternProperties ++ [(pattern, node.named source)] }

/-- Ask for a pattern to match every key that is not declared. -/
def withPropertyNames (rules : HashRules) (source : String) : Built HashRules := do
  return { rules with propertyNames := some (← Pattern.compile source) }

/-- Ask for further keys if one is given. -/
def dependency (rules : HashRules) (source : String) (targets : List String) : HashRules :=
  { rules with dependencies := Entries.insert rules.dependencies source targets }

/-- Add the properties of a named hash. -/
def including (rules : HashRules) (name : String) : HashRules :=
  { rules with includes := rules.includes ++ [name] }

/-- Whether a node is allowed behind a policy of admitting everything. -/
def admitsAll (rules : HashRules) : Bool :=
  match rules.additional with
  | .allow => true
  | _ => false

/-- Check the rules of a hash against one another. -/
def check (rules : HashRules) : Built Unit := do
  match rules.patternProperties.find? fun entry => entry.2.options.required with
  | some (pattern, _) => throw (.invalidStructure (.requiredPattern pattern.source))
  | none => pure ()
  if rules.admitsAll && rules.ignored = .all then
    throw (.invalidStructure .additionalAndIgnored)
  checkBounds "min_properties" "max_properties" natAbove rules.minProperties
    rules.maxProperties
  if rules.dependencies.any fun entry => entry.1.isEmpty || entry.2.any String.isEmpty then
    throw (.invalidOption "dependencies" .emptyDependency)
  if rules.includes.any String.isEmpty then
    throw (.invalidOption "includes" .emptyInclude)

end HashRules

/-- Check the rules of an array against one another. -/
def ArrayRules.check (rules : ArrayRules) : Built Unit := do
  match rules.additional, rules.items with
  | none, _ => pure ()
  | some _, .tuple _ => pure ()
  | some _, _ => throw (.invalidStructure .additionalWithoutTuple)
  checkBounds "min_items" "max_items" natAbove rules.minItems rules.maxItems

namespace Combinator

/-- Whether a combinator takes so many alternatives. -/
def takes : Combinator → Nat → Bool
  | .allOf, _ => true
  | .anyOf, n => decide (1 ≤ n)
  | .oneOf, n => decide (2 ≤ n)
  | .not, n => decide (n = 1)

/-- How many alternatives a combinator takes, in words. -/
def arityText : Combinator → String
  | .anyOf => "at least 1"
  | .oneOf => "at least 2"
  | _ => "exactly 1"

end Combinator

/-- Check the rules of a kind. -/
def Kind.check : Kind → Built Unit
  | .string rules => rules.check
  | .integer rules => rules.check
  | .number rules => rules.check
  | .hash rules => rules.check
  | .array rules => rules.check
  | .combination combinator alternatives _ =>
    if combinator.takes alternatives.length then pure ()
    else
      throw (.invalidStructure
        (.arity combinator.name combinator.arityText alternatives.length))
  | .reference target =>
    if target.isEmpty then throw (.invalidOption "path" .noReference) else pure ()
  | .boolean _ => pure ()
  | .symbol => pure ()
  | .object _ => pure ()

namespace Node

/-- The node with the given options and rules, if the rules make sense. -/
def ofParts (options : NodeOptions) (kind : Kind) : Built Node := do
  kind.check
  return { options, kind }

/-- The node with the given rules and no options. -/
def ofKind (kind : Kind) : Built Node := ofParts {} kind

/-- Ask for a value. -/
def required (node : Node) : Node :=
  { node with options := { node.options with required := true } }

/-- Ask for the key to be there. -/
def requireKey (node : Node) : Node :=
  { node with options := { node.options with requireKey := true } }

/-- Let a value stand in for a missing one. -/
def withDefault (node : Node) (value : Json) : Node :=
  { node with options := { node.options with default := some value } }

/-- Allow only the given values. -/
def withAllowed (node : Node) (values : List Json) : Node :=
  { node with options := { node.options with allowed := some values } }

/-- Give the node a title. -/
def withTitle (node : Node) (title : String) : Node :=
  { node with options := { node.options with title := some title } }

/-- Give the node a description. -/
def withDescription (node : Node) (description : String) : Node :=
  { node with options := { node.options with description := some description } }

/-- Give the node examples. -/
def withExamples (node : Node) (examples : List Json) : Node :=
  { node with options := { node.options with examples := examples } }

/-- Write the value under another key when the hash around it is cast. -/
def withOutputName (node : Node) (name : String) : Node :=
  { node with options := { node.options with outputName := some name } }

/-- Declare a named schema for the node and the nodes below it. -/
def withDefinition (node : Node) (name : String) (definition : Node) : Node :=
  { node with options :=
    { node.options with definitions := Entries.insert node.options.definitions name definition } }

end Node

end SchemaCast
