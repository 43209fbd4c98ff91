import SchemaCast.Context
import SchemaCast.Schema.Export

/-!
# The schemas that a schema needs

`Node.externalNames` lists the names that a schema, and every schema that it needs, leaves to the
resolver, in the order in which they are met: breadth first, every name once. `Node.toJsonSchema`
exports a schema together with them.
-/
namespace SchemaCast

variable {σ : Type}

namespace External

/-- Whether some enclosing definitions declare a name. -/
def isLocal (stack : List Definitions) (name : String) : Bool :=
  stack.any fun definitions => definitions.contains name

/-- Add a name unless it is in the list. -/
def addName (names : List String) (name : String) : List String :=
  if names.contains name then names else names ++ [name]

/-- The definitions that enclose the nodes below a node. -/
def stackBelow (definitions : Definitions) (stack : List Definitions) : List Definitions :=
  if definitions.isEmpty then stack else definitions :: stack

/-- Add the names that no enclosing definitions declare. -/
def addExternal (stack : List Definitions) (names : List String) (referenced : List String) :
    List String :=
  (referenced.filter fun name => !isLocal stack name).foldl addName names

mutual

/-- Add the names that a node and the nodes below it leave to the resolver: its own, those of its
definitions, those of its children. -/
def collect (stack : List Definitions) (names : List String) : Node → List String
  | ⟨⟨_, _, _, _, _, _, _, _, _, definitions⟩, kind⟩ =>
    let stack := stackBelow definitions stack
    let names := addExternal stack names kind.referenced
    collectKind stack (collectNamed stack names definitions) kind

/-- Add the names of the children of a node. -/
def collectKind (stack : List Definitions) (names : List String) : Kind → List String
  | .hash ⟨properties, patternProperties, additional, _, _, _, _, _, _⟩ =>
    let names := collectNamed stack names properties
    let names := collectPatterned stack names patternProperties
    collectPolicy stack names additional
  | .array ⟨items, additional, contains, _, _, _, _, _, _⟩ =>
    let names := collectShape stack names items
    let names := collectTail stack names additional
    collectOptional stack names contains
  | .combination _ alternatives _ => collectAll stack names alternatives
  | .string _ => names
  | .integer _ => names
  | .number _ => names
  | .boolean _ => names
  | .symbol => names
  | .object _ => names
  | .reference _ => names

/-- Add the names of a shape. -/
def collectShape (stack : List Definitions) (names : List String) : ItemShape → List String
  | .any => names
  | .list item => collect stack names item
  | .tuple positions => collectAll stack names positions

/-- Add the names of nodes by name. -/
def collectNamed (stack : List Definitions) (names : List String) :
    List (String × Node) → List String
  | [] => names
  | (_, node) :: rest => collectNamed stack (collect stack names node) rest

/-- Add the names of nodes by pattern. -/
def collectPatterned (stack : List Definitions) (names : List String) :
    List (Pattern × Node) → List String
  | [] => names
  | (_, node) :: rest => collectPatterned stack (collect stack names node) rest

/-- Add the names of the node of a policy. -/
def collectPolicy (stack : List Definitions) (names : List String) : Policy Node → List String
  | .schema node => collect stack names node
  | .reject => names
  | .allow => names

/-- Add the names of the policy for a tail. -/
def collectTail (stack : List Definitions) (names : List String) :
    Option (Policy Node) → List String
  | none => names
  | some policy => collectPolicy stack names policy

/-- Add the names of a node that may be missing. -/
def collectOptional (stack : List Definitions) (names : List String) : Option Node → List String
  | none => names
  | some node => collect stack names node

/-- Add the names of nodes in a row. -/
def collectAll (stack : List Definitions) (names : List String) : List Node → List String
  | [] => names
  | node :: rest => collectAll stack (collect stack names node) rest

end

/-- Add the names of the schemas with the names from position `next` on, for so many rounds. -/
def follow (resolver : Resolver σ) : Nat → List String → Nat → Run σ (List String)
  | 0, _, _ => Run.exhausted
  | rounds + 1, names, next =>
    match names[next]? with
    | none => pure names
    | some name => do
      match ← resolver.external name with
      | some node => follow resolver rounds (collect [] names node) (next + 1)
      | none => Run.broken (.unresolvedReference name)

/-- The schemas of names, by name. -/
def schemas (resolver : Resolver σ) : List String → Run σ (Entries Json)
  | [] => pure []
  | name :: rest => do
    match ← resolver.external name with
    | some node => return (name, node.toJson) :: (← schemas resolver rest)
    | none => Run.broken (.unresolvedReference name)

/-- The definitions of an export with further schemas, which never replace one that is there. -/
def addDefinitions (document : Entries Json) (external : Entries Json) : Entries Json :=
  match (document.get? "definitions").getD (.obj []) with
  | .obj definitions =>
    document.insert "definitions"
      (.obj (external.foldl (fun all entry => Entries.insertNew all entry.1 entry.2) definitions))
  | _ => document

end External

namespace Node

/-- The names that a schema needs from the resolver, in order of discovery. -/
def externalNames (node : Node) (resolver : Resolver σ) : Run σ (List String) :=
  let names := External.collect [] [] node
  External.follow resolver (node.size + resolver.size + names.length + 1) names 0

/-- The export of a schema together with the schemas it needs. -/
def toJsonSchema (node : Node) (resolver : Resolver σ) : Run σ Json := do
  let names ← node.externalNames resolver
  if names.isEmpty then return node.toJson
  let external ← External.schemas resolver names
  return .obj (External.addDefinitions (Export.node node) external)

end Node

end SchemaCast
