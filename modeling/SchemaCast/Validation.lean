import SchemaCast.Check
import SchemaCast.Json.Reader
import SchemaCast.Scalar

/-!
# Validation

`Node.check` compares a value with a node and records what is wrong with it. A run only fails if the
schema itself is broken, for instance because a name leads nowhere. The checks of each kind take the
check of a node as an argument; `Node.check` ties the knot, with a bound on the depth of the
recursion, since references need not come to an end.
-/
namespace SchemaCast

variable {σ : Type}

/-- A way to check a value against a node within a scope. -/
abbrev NodeCheck (σ : Type) := Node → Json → Scope σ → Check σ Unit

namespace Node

/-- The value that a node sees: a combinator may treat blank values as missing ones. -/
def seen (node : Node) (value : Json) : Json :=
  match node.kind, value with
  | .combination _ _ true, .bool b => .bool b
  | .combination _ _ true, value => if value.isBlank then .null else value
  | _, value => value

/-- The value that stands in for a missing one. -/
def default? (node : Node) : Option Json := node.options.default.filter fun value => !value.isNull

end Node

namespace Kind

/-- Whether a value is of a type that the kind can deal with. -/
def accepts : Kind → Json → Bool
  | .string _, value => ValueKind.string.covers value
  | .symbol, value => ValueKind.string.covers value
  | .integer rules, value =>
    ValueKind.integer.covers value || (rules.castText && ValueKind.string.covers value)
  | .number rules, value =>
    ValueKind.number.covers value || (rules.castText && ValueKind.string.covers value)
  | .boolean castText, value =>
    ValueKind.boolean.covers value || (castText && ValueKind.string.covers value)
  | .object classes, value => classes.isEmpty || classes.any (·.covers value)
  | .hash _, value => ValueKind.object.covers value
  | .array rules, value =>
    ValueKind.array.covers value || (rules.parseText && ValueKind.string.covers value)
  | .combination .., _ => true
  | .reference _, _ => true

/-- A type name that may be joined by strings. -/
def orString (castText : Bool) (name : String) : String :=
  if castText then name ++ " or string" else name

/-- The types that the kind can deal with, in words. -/
def expected : Kind → String
  | .integer rules => orString rules.castText "integer"
  | .number rules => orString rules.castText "number"
  | .boolean castText => orString castText "boolean"
  | .array rules => orString rules.parseText "array"
  | .hash _ => "object"
  | .object classes => " or ".intercalate (classes.map ValueKind.name)
  | kind => kind.typeName

end Kind

/-- The keys that differ from an earlier key in ASCII letter case at most. -/
def ambiguousKeys (seen : List String) : List String → List String
  | [] => []
  | key :: rest =>
    let lower := String.ofList (key.toList.map Char.toLower)
    if seen.contains lower then key :: ambiguousKeys seen rest
    else ambiguousKeys (lower :: seen) rest

/-- Whether a key has a value that is not null. -/
def isGiven (fields : Entries Json) (key : String) : Bool :=
  (fields.get? key).any fun value => !value.isNull

namespace HashRules

/-- Whether a property is declared. -/
def declares (rules : HashRules) (key : String) : Bool :=
  Entries.contains rules.properties key

/-- The properties of an included schema, which has to be a hash. -/
def included (name : String) (target : Node) : Run σ (List (String × Node)) :=
  match target.kind with
  | .hash rules => pure rules.properties
  | other => Run.broken (.invalidStructure (.includeNotHash name other.typeName))

/-- The properties that an include adds to those that are declared or were included before, and
the scope around them. -/
def includedBy (rules : HashRules) (scope : Scope σ) (taken : List String) (name : String) :
    Run σ (List (String × Node) × Scope σ) := do
  let (target, outer) ← scope.target name
  let properties ← included name target
  let fresh := properties.filter fun entry =>
    !rules.declares entry.1 && !taken.contains entry.1
  return (fresh, outer.enter target)

/-- The fields that are neither declared nor included. -/
def extras (rules : HashRules) (taken : List String) (fields : Entries Json) : Entries Json :=
  fields.filter fun field => !rules.declares field.1 && !taken.contains field.1

/-- The violations of the number of properties and of keys that look alike. -/
def sizeViolations (rules : HashRules) (fields : Entries Json) : List Violation :=
  let ambiguous := ambiguousKeys [] fields.keys
  let count := fields.length
  (if ambiguous.isEmpty then [] else [.ambiguousKeys ambiguous]) ++
    ((rules.minProperties.filter fun least => count < least).toList.map
      (.tooFewProperties count)) ++
    ((rules.maxProperties.filter fun most => most < count).toList.map
      (.tooManyProperties count))

/-- The violations of the rule for the names of further properties. -/
def nameViolations (rules : HashRules) (extras : Entries Json) : List Violation :=
  match rules.propertyNames with
  | none => []
  | some pattern =>
    (extras.keys.filter fun key => !pattern.isMatch key).map
      fun key => .propertyNameMismatch key pattern.source

/-- The violations of the dependencies between properties. -/
def dependencyViolations (rules : HashRules) (fields : Entries Json) : List Violation :=
  rules.dependencies.flatMap fun entry =>
    if isGiven fields entry.1 then
      (entry.2.filter fun target => !isGiven fields target).map
        fun target => .dependencyMissing target entry.1
    else []

section Nested

variable (checkNode : NodeCheck σ)

/-- Check the value of a property; a missing key counts as null. -/
def checkProperty (fields : Entries Json) (scope : Scope σ) (entry : String × Node) :
    Check σ Unit :=
  Check.within (.key entry.1) do
    Check.recordIf (entry.2.options.requireKey && !fields.contains entry.1) .keyMissing
    checkNode entry.2 ((fields.get? entry.1).getD .null) scope

/-- Check the properties of the includes, and collect their names. -/
def checkIncludes (rules : HashRules) (fields : Entries Json) (scope : Scope σ) :
    List String → List String → Check σ (List String)
  | taken, [] => pure taken
  | taken, name :: rest => do
    let (properties, inner) ← Check.ofRun (rules.includedBy scope taken name)
    properties.forM (checkProperty checkNode fields inner)
    checkIncludes rules fields scope (taken ++ properties.map Prod.fst) rest

/-- Check a field that is neither declared nor included. -/
def checkExtra (rules : HashRules) (scope : Scope σ) (field : String × Json) : Check σ Unit :=
  match rules.patternFor? field.1 with
  | some node => Check.within (.key field.1) (checkNode node field.2 scope)
  | none =>
    match rules.additional with
    | .allow => pure ()
    | .schema node => Check.within (.key field.1) (checkNode node field.2 scope)
    | .reject => Check.recordIf (!rules.ignored.covers field.1) (.obsoleteProperty field.1)

/-- Check the fields of an object. -/
def validate (rules : HashRules) (fields : Entries Json) (scope : Scope σ) : Check σ Unit := do
  Check.recordAll (rules.sizeViolations fields)
  rules.properties.forM (checkProperty checkNode fields scope)
  let taken ← checkIncludes checkNode rules fields scope [] rules.includes
  let extras := rules.extras taken fields
  extras.forM (checkExtra checkNode rules scope)
  Check.recordAll (rules.nameViolations extras)
  Check.recordAll (rules.dependencyViolations fields)

end Nested

end HashRules

/-- Whether a value occurs twice. -/
def hasDuplicates : List Json → Bool
  | [] => false
  | item :: rest => rest.any (·.beq item) || hasDuplicates rest

namespace ArrayRules

/-- The elements of a value; a string may hold them as a JSON array. -/
def elements (rules : ArrayRules) : Json → Except Violation (List Json)
  | .arr items => .ok items
  | .str s =>
    if rules.parseText then
      match Json.parse? s with
      | some (.arr items) => .ok items
      | some _ => .error (.wrongType "array")
      | none => .error .invalidJson
    else .error (.wrongType "array")
  | _ => .error (.wrongType "array")

/-- The violations of the number of items and of their uniqueness. -/
def sizeViolations (rules : ArrayRules) (items : List Json) : List Violation :=
  let count := items.length
  ((rules.minItems.filter fun least => count < least).toList.map (.tooFewItems count)) ++
    ((rules.maxItems.filter fun most => most < count).toList.map (.tooManyItems count)) ++
    (if rules.unique && hasDuplicates items then [.duplicateItems] else [])

/-- The schema for the element at an index, if there is one. -/
def schemaAt? (rules : ArrayRules) (index : Nat) : Option Node :=
  match rules.items with
  | .any => none
  | .list item => some item
  | .tuple positions =>
    match positions[index]? with
    | some position => some position
    | none =>
      match rules.tail with
      | .schema node => some node
      | _ => none

/-- The number of items that a tuple has to have, if an array does not have it. Without a policy
for the tail, that many and no more. -/
def wrongCount? (rules : ArrayRules) (count : Nat) : Option Nat :=
  match rules.items with
  | .tuple positions =>
    let fits := count = positions.length ||
      (positions.length < count && (match rules.tail with
        | .reject => false
        | _ => true))
    if fits then none else some positions.length
  | _ => none

section Nested

variable (checkNode : NodeCheck σ)

/-- Check the elements from an index on. -/
def checkItems (rules : ArrayRules) (scope : Scope σ) : Nat → List Json → Check σ Unit
  | _, [] => pure ()
  | index, item :: rest => do
    match rules.schemaAt? index with
    | some node => Check.within (.index index) (checkNode node item scope)
    | none => pure ()
    checkItems rules scope (index + 1) rest

/-- Whether some element satisfies a node; the first one that does ends the search. -/
def anyMatches (node : Node) (scope : Scope σ) : List Json → Run σ Bool
  | [] => pure false
  | item :: rest => do
    if (← Check.trial (checkNode node item scope)).isEmpty then return true
    anyMatches node scope rest

/-- Check the elements of an array that are looked at. -/
def validate (rules : ArrayRules) (value : Json) (scope : Scope σ) : Check σ Unit :=
  match rules.elements value with
  | .error violation => Check.record violation
  | .ok elements => do
    let items := elements.filter rules.keeps
    Check.recordAll (rules.sizeViolations items)
    match rules.wrongCount? items.length with
    | some expected => Check.record (.wrongItemCount items.length expected)
    | none => checkItems checkNode rules scope 0 items
    match rules.contains with
    | none => pure ()
    | some node =>
      let found ← Check.ofRun (anyMatches checkNode node scope items)
      Check.recordIf (!found) (.containsMissing node.toJson)

end Nested

end ArrayRules

namespace Combinator

section Nested

variable (checkNode : NodeCheck σ)

/-- The logs of all alternatives, each on its own. -/
def trials (value : Json) (scope : Scope σ) : List Node → Run σ (List ErrorLog)
  | [] => pure []
  | node :: rest => do
    let log ← Check.trial (checkNode node value scope)
    return log :: (← trials value scope rest)

/-- What a combinator has to say about the logs of its alternatives. -/
def verdict (combinator : Combinator) (alternatives : List Node) (logs : List ErrorLog) :
    Option Violation :=
  let total := logs.length
  let failures := (logs.zipIdx.filter fun log => !log.1.isEmpty).map fun log => (log.2, log.1)
  let matched := total - failures.length
  match combinator with
  | .allOf => if matched < total then some (.notAll matched total failures) else none
  | .anyOf => if matched = 0 then some (.notAny total failures) else none
  | .oneOf =>
    if matched = 1 then none
    else some (.notOne matched total (if matched = 0 then failures else []))
  | .not =>
    if 0 < matched then alternatives.head?.map fun node => .matchesExcluded node.toJson else none

/-- Check a value against all alternatives. -/
def validate (combinator : Combinator) (alternatives : List Node) (value : Json)
    (scope : Scope σ) : Check σ Unit := do
  let logs ← Check.ofRun (trials checkNode value scope alternatives)
  Check.recordAll (combinator.verdict alternatives logs).toList

end Nested

end Combinator

/-- Check a value against the rules of a kind. -/
def Kind.validate (checkNode : NodeCheck σ) (kind : Kind) (value : Json) (scope : Scope σ) :
    Check σ Unit :=
  match kind with
  | .string rules =>
    match value with
    | .str s => Check.recordAll (rules.violations s)
    | _ => pure ()
  | .integer rules => Check.recordAll (rules.violations true value)
  | .number rules => Check.recordAll (rules.violations false value)
  | .boolean _ => Check.recordAll (Truth.violations value)
  | .symbol => pure ()
  | .object _ => pure ()
  | .hash rules =>
    match value with
    | .obj fields => rules.validate checkNode fields scope
    | _ => pure ()
  | .array rules => rules.validate checkNode value scope
  | .combination combinator alternatives _ => combinator.validate checkNode alternatives value scope
  | .reference target => do
    let (node, outer) ← Check.ofRun (scope.target target)
    checkNode node value outer

namespace Node

/-- The value that the rules of a node are about; `none` if the check is over, because a value is
missing or of a wrong type. -/
def present (node : Node) (value : Json) : Except (Option Violation) Json :=
  let value := node.seen value
  let substitute : Except (Option Violation) Json :=
    if value.isNull then
      if node.options.required then .error (some .valueMissing)
      else
        match node.default? with
        | some default => .ok default
        | none => .error none
    else .ok value
  match substitute with
  | .error violation => .error violation
  | .ok value =>
    if node.kind.accepts value then .ok value
    else .error (some (.wrongType node.kind.expected))

/-- The violation of the list of allowed values, if there is one. -/
def notAllowed? (node : Node) (value : Json) : Option Violation :=
  match node.options.allowed with
  | some values => if values.any (·.beq value) then none else some (.notAllowed values)
  | none => none

/-- Check a value against a node whose inner nodes are checked by `checkNode`. -/
def checkWith (checkNode : NodeCheck σ) (node : Node) (value : Json) (scope : Scope σ) :
    Check σ Unit :=
  match node.present value with
  | .error violation => Check.recordAll violation.toList
  | .ok value => do
    Check.recordAll (node.notAllowed? value).toList
    node.kind.validate checkNode value (scope.enter node)

/-- Check a value against a node, with at most `fuel` nodes below one another. -/
def check : Nat → NodeCheck σ
  | 0, _, _, _ => Check.ofRun Run.exhausted
  | fuel + 1, node, value, scope => node.checkWith (check fuel) value scope

/-- How many nodes can lie below one another while a value is checked or cast, unless a reference
leads back to itself without taking the value apart. -/
def depthBound (node : Node) (resolver : Resolver σ) (value : Json) : Nat :=
  let schemas := node.size + resolver.size + 1
  schemas * (schemas + value.size)

/-- The log of the validation of a value. -/
def validate (node : Node) (resolver : Resolver σ) (value : Json) : Run σ ErrorLog :=
  Check.trial (node.check (node.depthBound resolver value) value (.root resolver))

end Node

end SchemaCast
