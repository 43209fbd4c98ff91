import Mathlib.Logic.Relation
import SchemaCast.Casting
import SchemaCast.External

/-!
# Places in a schema

A node is always met together with the definitions around it. `Place` joins the two, and
`Context.place?` says to which place a name leads. `Place.Step` follows the schema one node
further: to an owned node, to the target of a reference, or to a property of an included hash.
-/
namespace SchemaCast

/-- A node with the definitions around it, the innermost ones first. -/
structure Place where
  node : Node
  outer : List Definitions := []

/-- The place to which a name leads from within definitions. Schemas of a context are written
outside of all definitions. -/
def Context.place? (context : Context) (stack : List Definitions) (name : String) :
    Option Place :=
  match lookupLocal name stack with
  | some (node, outer) => some ⟨node, outer⟩
  | none => (context.get? name).map fun node => ⟨node, []⟩

namespace Place

variable {σ : Type}

/-- The definitions around the nodes that the node of a place owns. -/
def inner (place : Place) : List Definitions :=
  External.stackBelow place.node.definitions place.outer

/-- What is visible around a place. -/
def scope (place : Place) (resolver : Resolver σ) : Scope σ := ⟨resolver, place.outer⟩

theorem enter_scope (place : Place) (resolver : Resolver σ) :
    (place.scope resolver).enter place.node = ⟨resolver, place.inner⟩ := by
  unfold scope Scope.enter inner External.stackBelow
  split <;> rfl

/-- The validation of a value at a place, cut off below `fuel` nodes. -/
def validate (place : Place) (fuel : Nat) (resolver : Resolver σ) (value : Json) :
    Run σ ErrorLog :=
  Check.trial (place.node.check fuel value (place.scope resolver))

/-- The cast of a value at a place, cut off below `fuel` nodes. -/
def cast (place : Place) (fuel : Nat) (resolver : Resolver σ) (value : Json) : Run σ Json :=
  place.node.castTo fuel value (place.scope resolver)

/-- A place that follows another one in some validation or cast. -/
inductive Step (context : Context) (place : Place) : Place → Prop where
  | child {node : Node} (owned : node ∈ place.node.children) :
      Step context place ⟨node, place.inner⟩
  | reference {name : String} {target : Place} (kind : place.node.kind = .reference name)
      (leads : context.place? place.inner name = some target) : Step context place target
  /-- Of an included hash only the properties are met, never the hash itself. -/
  | included {rules targetRules : HashRules} {name : String} {target : Place}
      {entry : String × Node} (kind : place.node.kind = .hash rules)
      (listed : name ∈ rules.includes)
      (leads : context.place? place.inner name = some target)
      (hash : target.node.kind = .hash targetRules)
      (property : entry ∈ targetRules.properties) : Step context place ⟨entry.2, target.inner⟩

/-- A place that can be met in some validation or cast that starts at another one. -/
def Reaches (context : Context) : Place → Place → Prop := Relation.ReflTransGen (Step context)

/-- A reason why a run breaks off at a place: a name that leads nowhere, or an included schema
that is no hash. -/
inductive DeadEnd (context : Context) (place : Place) : SchemaError → Prop where
  | unresolved {name : String} (referenced : name ∈ place.node.kind.referenced)
      (nowhere : context.place? place.inner name = none) :
      DeadEnd context place (.unresolvedReference name)
  | notHash {rules : HashRules} {name : String} {target : Place}
      (kind : place.node.kind = .hash rules) (listed : name ∈ rules.includes)
      (leads : context.place? place.inner name = some target)
      (other : ∀ targetRules, target.node.kind ≠ .hash targetRules) :
      DeadEnd context place (.invalidStructure (.includeNotHash name target.node.typeName))

end Place

namespace Node

variable {node inner : Node}

theorem mem_children_of_property {rules : HashRules} (kind : node.kind = .hash rules)
    {entry : String × Node} (h : entry ∈ rules.properties) : entry.2 ∈ node.children := by
  simp only [children, kind, List.mem_append, List.mem_map]
  exact .inl (.inl ⟨entry, h, rfl⟩)

theorem mem_children_of_patternFor? {rules : HashRules} (kind : node.kind = .hash rules)
    {key : String} (h : rules.patternFor? key = some inner) : inner ∈ node.children := by
  obtain ⟨entry, found, rfl⟩ := Option.map_eq_some_iff.mp h
  simp only [children, kind, List.mem_append, List.mem_map]
  exact .inl (.inr ⟨entry, List.mem_of_find?_eq_some found, rfl⟩)

theorem mem_children_of_additional {rules : HashRules} (kind : node.kind = .hash rules)
    (h : rules.additional = .schema inner) : inner ∈ node.children := by
  simp [children, kind, h, ofPolicy]

theorem mem_children_of_schemaAt? {rules : ArrayRules} (kind : node.kind = .array rules)
    {index : Nat} (h : rules.schemaAt? index = some inner) : inner ∈ node.children := by
  unfold ArrayRules.schemaAt? at h
  simp only [children, kind, List.mem_append]
  cases shape : rules.items with
  | any => simp [shape] at h
  | list item => simp_all
  | tuple positions =>
    simp only [shape] at h
    cases found : positions[index]? with
    | some position =>
      rw [found] at h
      cases h
      exact .inl (.inl (List.mem_of_getElem? found))
    | none =>
      cases additional : rules.additional with
      | none => simp [found, ArrayRules.tail, additional] at h
      | some policy => cases policy <;> simp_all [ArrayRules.tail, ofPolicy]

theorem mem_children_of_contains {rules : ArrayRules} (kind : node.kind = .array rules)
    (h : rules.contains = some inner) : inner ∈ node.children := by
  simp [children, kind, h]

end Node

/-- The place of a schema that is used on its own. -/
def Node.place (node : Node) : Place := ⟨node, []⟩

theorem Node.validate_eq {σ : Type} (node : Node) (resolver : Resolver σ) (value : Json) :
    node.validate resolver value =
      node.place.validate (node.depthBound resolver value) resolver value := rfl

theorem Node.cast_eq {σ : Type} (node : Node) (resolver : Resolver σ) (value : Json) :
    node.cast resolver value =
      node.place.cast (node.depthBound resolver value) resolver value := rfl

/-- With a context alone, the schema of a name and the scope around it are those of the place to
which the name leads. -/
theorem Scope.target_ofContext {σ : Type} (context : Context) (stack : List Definitions)
    (name : String) :
    (⟨.ofContext context, stack⟩ : Scope σ).target name =
      match context.place? stack name with
      | some place => pure (place.node, place.scope (.ofContext context))
      | none => Run.broken (.unresolvedReference name) := by
  unfold Scope.target Context.place?
  cases lookupLocal name stack with
  | some found => rfl
  | none =>
    simp only [Resolver.external_ofContext]
    cases context.get? name <;> rfl

theorem Scope.target_of_leads {σ : Type} {context : Context} {stack : List Definitions}
    {name : String} {target : Place} (leads : context.place? stack name = some target) :
    (⟨.ofContext context, stack⟩ : Scope σ).target name =
      pure (target.node, target.scope (.ofContext context)) := by
  rw [Scope.target_ofContext, leads]

end SchemaCast
