import SchemaCast.Validation

/-!
# Casting

`Node.cast` turns a value into the form that a schema describes: texts become the values they
spell, defaults fill gaps, properties are renamed and put into declared order, elements are
filtered. It asks for no valid value; what does not fit stays as it is. Where a schema offers
alternatives, the value is checked to find the one to cast by.
-/
namespace SchemaCast

variable {σ : Type}

/-- A way to cast a value by a node within a scope. -/
abbrev NodeCast (σ : Type) := Node → Json → Scope σ → Run σ Json

namespace HashRules

section Nested

variable (castNode : NodeCast σ)

/-- Cast the value of a property and write it under its output name. What is missing in the input
and null in the output is not written. -/
def castProperty (fields : Entries Json) (scope : Scope σ) (output : Entries Json)
    (entry : String × Node) : Run σ (Entries Json) := do
  let result ← castNode entry.2 ((fields.get? entry.1).getD .null) scope
  if fields.contains entry.1 || !result.isNull then
    return output.insert (entry.2.options.outputName.getD entry.1) result
  return output

/-- Cast properties in a row. -/
def castProperties (fields : Entries Json) (scope : Scope σ) :
    Entries Json → List (String × Node) → Run σ (Entries Json)
  | output, [] => pure output
  | output, entry :: rest => do
    castProperties fields scope (← castProperty castNode fields scope output entry) rest

/-- Cast the properties of the includes, and collect their names. -/
def castIncludes (rules : HashRules) (fields : Entries Json) (scope : Scope σ) :
    List String → Entries Json → List String → Run σ (Entries Json × List String)
  | taken, output, [] => pure (output, taken)
  | taken, output, name :: rest => do
    let (properties, inner) ← rules.includedBy scope taken name
    let output ← castProperties castNode fields inner output properties
    castIncludes rules fields scope (taken ++ properties.map Prod.fst) output rest

/-- Cast a field that is neither declared nor included; a key that is written already stays. -/
def castExtra (rules : HashRules) (scope : Scope σ) (output : Entries Json)
    (field : String × Json) : Run σ (Entries Json) :=
  match rules.patternFor? field.1 with
  | some node => do return output.insertNew field.1 (← castNode node field.2 scope)
  | none =>
    match rules.additional with
    | .allow => pure (output.insertNew field.1 field.2)
    | .schema node => do return output.insertNew field.1 (← castNode node field.2 scope)
    | .reject => pure output

/-- Cast fields that are neither declared nor included. -/
def castExtras (rules : HashRules) (scope : Scope σ) :
    Entries Json → Entries Json → Run σ (Entries Json)
  | output, [] => pure output
  | output, field :: rest => do
    castExtras rules scope (← castExtra castNode rules scope output field) rest

/-- Cast the fields of an object. -/
def cast (rules : HashRules) (fields : Entries Json) (scope : Scope σ) : Run σ Json := do
  let output ← castProperties castNode fields scope [] rules.properties
  let (output, taken) ← castIncludes castNode rules fields scope [] output rules.includes
  return .obj (← castExtras castNode rules scope output (rules.extras taken fields))

end Nested

end HashRules

namespace ArrayRules

section Nested

variable (checkNode : NodeCheck σ) (castNode : NodeCast σ)

/-- Cast the element at an index by its schema. -/
def castByPlace (rules : ArrayRules) (scope : Scope σ) (index : Nat) (item : Json) : Run σ Json :=
  match rules.schemaAt? index with
  | some node => castNode node item scope
  | none => pure item

/-- Cast the element at an index, by the `contains` schema if it satisfies that one. -/
def castItem (rules : ArrayRules) (scope : Scope σ) (index : Nat) (item : Json) :
    Run σ Json := do
  match rules.contains with
  | none => castByPlace castNode rules scope index item
  | some node =>
    if (← Check.trial (checkNode node item scope)).isEmpty then castNode node item scope
    else castByPlace castNode rules scope index item

/-- Cast the elements from an index on. -/
def castItems (rules : ArrayRules) (scope : Scope σ) : Nat → List Json → Run σ (List Json)
  | _, [] => pure []
  | index, item :: rest => do
    let result ← castItem checkNode castNode rules scope index item
    return result :: (← castItems rules scope (index + 1) rest)

/-- Cast the elements of an array that are looked at. -/
def cast (rules : ArrayRules) (value : Json) (scope : Scope σ) : Run σ Json :=
  match rules.elements value with
  | .error _ => pure value
  | .ok elements => do
    return .arr (← castItems checkNode castNode rules scope 0 (elements.filter rules.keeps))

end Nested

end ArrayRules

namespace Combinator

section Nested

variable (checkNode : NodeCheck σ) (castNode : NodeCast σ)

/-- Cast by every alternative that the value satisfies, each on the result of the one before. -/
def castAll (value : Json) (scope : Scope σ) : Json → List Node → Run σ Json
  | output, [] => pure output
  | output, node :: rest => do
    if (← Check.trial (checkNode node value scope)).isEmpty then
      castAll value scope (← castNode node output scope) rest
    else castAll value scope output rest

/-- Cast by the first alternative that the value satisfies. -/
def castFirst (value : Json) (scope : Scope σ) : List Node → Run σ Json
  | [] => pure value
  | node :: rest => do
    if (← Check.trial (checkNode node value scope)).isEmpty then castNode node value scope
    else castFirst value scope rest

/-- Cast a value by the alternatives of a combinator. -/
def cast (combinator : Combinator) (alternatives : List Node) (value : Json)
    (scope : Scope σ) : Run σ Json :=
  match combinator with
  | .allOf => castAll checkNode castNode value scope value alternatives
  | .anyOf => castFirst checkNode castNode value scope alternatives
  | .oneOf => castFirst checkNode castNode value scope alternatives
  | .not => pure value

end Nested

end Combinator

/-- Cast a value by the rules of a kind. -/
def Kind.cast (checkNode : NodeCheck σ) (castNode : NodeCast σ) (kind : Kind) (value : Json)
    (scope : Scope σ) : Run σ Json :=
  match kind with
  | .string rules => pure (rules.cast value)
  | .integer rules => pure (rules.cast true value)
  | .number rules => pure (rules.cast false value)
  | .boolean castText => pure (Truth.cast castText value)
  | .symbol => pure value
  | .object _ => pure value
  | .hash rules =>
    match value with
    | .obj fields => rules.cast castNode fields scope
    | other => pure other
  | .array rules => rules.cast checkNode castNode value scope
  | .combination combinator alternatives _ =>
    combinator.cast checkNode castNode alternatives value scope
  | .reference target => do
    let (node, outer) ← scope.target target
    castNode node value outer

namespace Node

/-- Cast a value by a node whose inner nodes are cast by `castNode`. -/
def castWith (checkNode : NodeCheck σ) (castNode : NodeCast σ) (node : Node) (value : Json)
    (scope : Scope σ) : Run σ Json :=
  let value := node.seen value
  let present := if value.isNull then node.default? else some value
  match present with
  | some value => node.kind.cast checkNode castNode value (scope.enter node)
  | none => pure .null

/-- Cast a value by a node, with at most `fuel` nodes below one another. -/
def castTo : Nat → NodeCast σ
  | 0, _, _, _ => Run.exhausted
  | fuel + 1, node, value, scope => node.castWith (Node.check fuel) (castTo fuel) value scope

/-- The cast form of a value. -/
def cast (node : Node) (resolver : Resolver σ) (value : Json) : Run σ Json :=
  node.castTo (node.depthBound resolver value) value (.root resolver)

/-- The log of the validation of a value, or the cast form of a valid one. -/
def castStrictly (node : Node) (resolver : Resolver σ) (value : Json) :
    Run σ (Except ErrorLog Json) := do
  let log ← node.validate resolver value
  if log.isEmpty then return .ok (← node.cast resolver value)
  return .error log

end Node

end SchemaCast
