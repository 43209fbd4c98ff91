import SchemaCast.Schema.Error
import SchemaCast.Schema.Size

/-!
# Names and what they stand for

A name is looked up in the definitions of the enclosing nodes, the innermost ones first, and then
in the schemas that a `Resolver` provides: those of a `Context` that comes with the call, or those of a
registry whose state `σ` a lookup may change. A schema that is found sees the definitions that
enclose the place where it is written, never those of the place where its name was used.
-/
namespace SchemaCast

/-- Why a run over a schema ends without a result. -/
inductive Fault where
  | schema (error : SchemaError)
  /-- The run was cut off. -/
  | exhausted

/-- A run that may change the state of a registry, also when it fails. -/
abbrev Run (σ α : Type) := ExceptT Fault (StateM σ) α

/-- A run that fails because the schema is broken. -/
def Run.broken {σ α : Type} (error : SchemaError) : Run σ α := throw (.schema error)

/-- A run that was cut off. -/
def Run.exhausted {σ α : Type} : Run σ α := throw .exhausted

/-- Schemas by name that come with a call. -/
abbrev Context := Entries Node

/-- Where schemas are found that no enclosing node defines. -/
structure Resolver (σ : Type) where
  /-- The schema of a name, if there is one. -/
  external : String → Run σ (Option Node)
  /-- A bound on the size of all schemas that can be found. -/
  size : Nat := 0

namespace Resolver

variable {σ : Type}

/-- No schemas at all. -/
def empty : Resolver σ := { external := fun _ => pure none }

/-- The schemas of a context, and for other names those of another resolver. -/
def withContext (context : Context) (otherwise : Resolver σ) : Resolver σ where
  external name :=
    match context.get? name with
    | some node => pure (some node)
    | none => otherwise.external name
  size := Schema.sizeNamed context + otherwise.size

/-- The schemas of a context. -/
def ofContext (context : Context) : Resolver σ := withContext context empty

@[simp] theorem external_empty (name : String) :
    (empty : Resolver σ).external name = pure none := rfl

@[simp] theorem external_ofContext (context : Context) (name : String) :
    (ofContext context : Resolver σ).external name = pure (context.get? name) := by
  simp only [ofContext, withContext]
  cases context.get? name <;> rfl

end Resolver

/-- What is visible at a place in a schema. -/
structure Scope (σ : Type) where
  resolver : Resolver σ
  /-- The definitions of the enclosing nodes that have any, the innermost ones first. -/
  definitions : List Definitions := []

/-- The definition of a name in the innermost definitions that have one, and the definitions that
enclose the place where it is written. -/
def lookupLocal (name : String) : List Definitions → Option (Node × List Definitions)
  | [] => none
  | inner :: outer =>
    match inner.get? name with
    | some node => some (node, inner :: outer)
    | none => lookupLocal name outer

namespace Scope

variable {σ : Type}

/-- The scope outside of all schemas. -/
def root (resolver : Resolver σ) : Scope σ := { resolver }

/-- The scope inside a node. -/
def enter (scope : Scope σ) (node : Node) : Scope σ :=
  if node.definitions.isEmpty then scope
  else { scope with definitions := node.definitions :: scope.definitions }

/-- The schema of a name and the scope around it. -/
def target (scope : Scope σ) (name : String) : Run σ (Node × Scope σ) := do
  match lookupLocal name scope.definitions with
  | some (node, definitions) => return (node, { scope with definitions })
  | none =>
    match ← scope.resolver.external name with
    | some node => return (node, root scope.resolver)
    | none => Run.broken (.unresolvedReference name)

@[simp] theorem resolver_enter (scope : Scope σ) (node : Node) :
    (scope.enter node).resolver = scope.resolver := by
  unfold enter
  split <;> rfl

end Scope

end SchemaCast
