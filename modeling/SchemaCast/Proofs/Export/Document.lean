import SchemaCast.Proofs.Coverage
import SchemaCast.Proofs.Export.Pointer
import SchemaCast.Proofs.Export.Subschemas

/-!
# Exports with further schemas

The export of a schema with the schemas it needs is the export of its root, with more definitions
behind those that the root declares. So a name has the definition of the root if the root declares
it, and that of the context only otherwise, wherever the name is used.
-/
namespace SchemaCast

variable {σ : Type} {context : Context} {root : Node} {names : List String}

namespace Export

open Json

theorem get?_field? (key other : String) (value : Option Json) :
    (field? key value).get? other = if key = other then value else none := by
  cases value <;> simp [field?, Entries.get?]

theorem get?_listField (key other : String) (items : List Json) :
    (listField key items).get? other =
      if key = other ∧ items ≠ [] then some (.arr items) else none := by
  cases items <;> simp [listField, Entries.get?]

theorem get?_mapField (key other : String) (fields : Entries Json) :
    (mapField key fields).get? other =
      if key = other ∧ fields ≠ [] then some (.obj fields) else none := by
  cases fields <;> simp [mapField, Entries.get?]

theorem get?_rules_definitions (kind : Kind) : (rules kind).get? "definitions" = none := by
  cases kind with
  | object classes =>
    rcases classes with _ | ⟨_, _ | ⟨_, _⟩⟩ <;> rfl
  | hash rules =>
    obtain ⟨_, _, _, _, _, _, _, _, _⟩ := rules
    simp [Export.rules, hash, Entries.get?, Entries.get?_append, get?_field?, get?_listField,
      get?_mapField]
  | array rules =>
    obtain ⟨items, _, _, _, _, unique, _, _, _⟩ := rules
    cases items <;> cases unique <;>
      simp [Export.rules, array, shape, Entries.get?, Entries.get?_append, get?_field?]
  | combination combinator alternatives blankAsNull =>
    cases combinator <;> simp [rules, keyword, Entries.get?, get?_field?]
  | _ => simp [rules, string, numeric, Entries.get?, Entries.get?_append, get?_field?]

/-- The definitions in the export of a node are those that the node declares. -/
theorem get?_definitions (node : Node) :
    (Export.node node).get? "definitions" =
      if node.definitions = [] then none else some (.obj (named node.definitions)) := by
  obtain ⟨⟨_, _, _, default, _, _, examples, allowed, _, definitions⟩, kind⟩ := node
  rw [node_eq, Entries.get?_append, get?_rules_definitions, Option.none_or]
  cases definitions <;>
    simp [metadata, named_eq, Entries.get?_append, get?_field?, get?_listField, get?_mapField,
      Node.definitions]

theorem get?_named (entries : List (String × Node)) (name : String) :
    (named entries).get? name = (Entries.get? entries name).map Node.toJson := by
  induction entries with
  | nil => rfl
  | cons entry rest ih =>
    obtain ⟨other, node⟩ := entry
    rw [named, Entries.get?, Entries.get?, ih]
    split <;> rfl

theorem eq_of_mem_field? {key other : String} {value : Option Json} {inner : Json}
    (mem : (other, inner) ∈ field? key value) : other = key := by
  cases value <;> simp_all [field?]

theorem eq_of_mem_listField {key other : String} {items : List Json} {inner : Json}
    (mem : (other, inner) ∈ listField key items) : other = key := by
  cases items <;> simp_all [listField]

theorem eq_of_mem_mapField {key other : String} {fields : Entries Json} {inner : Json}
    (mem : (other, inner) ∈ mapField key fields) : other = key := by
  cases fields <;> simp_all [mapField]

/-- A pointer is only there in the export of a reference. -/
theorem ref_mem_node {node : Node} {target : Json} (mem : ("$ref", target) ∈ Export.node node) :
    ∃ name, node.kind = .reference name ∧ target = .str (Pointer.toDefinition name) := by
  obtain ⟨⟨_, _, _, default, _, _, examples, allowed, _, definitions⟩, kind⟩ := node
  have other (key : String) (distinct : "$ref" ≠ key) :
      (∀ value, ("$ref", target) ∉ field? key value) ∧
      (∀ items, ("$ref", target) ∉ listField key items) ∧
      ∀ fields, ("$ref", target) ∉ mapField key fields :=
    ⟨fun _ mem => distinct (eq_of_mem_field? mem), fun _ mem => distinct (eq_of_mem_listField mem),
      fun _ mem => distinct (eq_of_mem_mapField mem)⟩
  simp (disch := decide) only [node_eq, metadata, List.mem_append, other, or_false] at mem
  cases kind with
  | reference name => simpa [rules] using mem
  | object classes =>
    rcases classes with _ | ⟨_, _ | ⟨_, _⟩⟩ <;> simp [rules, object] at mem
  | hash rules =>
    obtain ⟨_, _, _, _, _, _, _, _, _⟩ := rules
    simp (disch := decide) [Export.rules, hash, other] at mem
  | array rules =>
    obtain ⟨items, _, _, _, _, unique, _, _, _⟩ := rules
    cases items <;> cases unique <;>
      simp (disch := decide) [Export.rules, array, shape, other] at mem
  | combination combinator alternatives blankAsNull =>
    cases combinator <;> simp (disch := decide) [rules, keyword, other] at mem
  | _ => simp (disch := decide) [rules, string, numeric, other] at mem

end Export

/-! ### The whole document -/

namespace External

/-- What is gathered for names are the exports of their schemas. -/
theorem schemas_ofContext {names : List String} {entries : Entries Json} {s : σ}
    (h : (schemas (.ofContext context) names s).1 = .ok entries) :
    (∀ name ∈ names, ∃ schema, context.get? name = some schema) ∧
    (∀ entry ∈ entries, ∃ schema, entry.1 ∈ names ∧ context.get? entry.1 = some schema ∧
      entry.2 = schema.toJson) ∧
    ∀ name, entries.get? name =
      if name ∈ names then (context.get? name).map Node.toJson else none := by
  induction names generalizing entries s with
  | nil =>
    cases h
    simp
  | cons first rest ih =>
    rw [schemas, Resolver.external_ofContext, pure_bind] at h
    cases found : context.get? first with
    | none =>
      rw [found] at h
      cases h
    | some schema =>
      rw [found] at h
      obtain ⟨others, _, gathered, h⟩ := Run.bind_eq_ok (Prod.ext h rfl)
      cases h
      obtain ⟨provided, listed, values⟩ := ih (congrArg Prod.fst gathered)
      refine ⟨?_, ?_, ?_⟩
      · rintro name (_ | ⟨_, mem⟩)
        · exact ⟨schema, found⟩
        · exact provided name mem
      · rintro entry (_ | ⟨_, mem⟩)
        · exact ⟨schema, List.mem_cons_self .., found, rfl⟩
        · obtain ⟨schema, known, found, same⟩ := listed entry mem
          exact ⟨schema, List.mem_cons_of_mem _ known, found, same⟩
      · intro name
        rw [Entries.get?]
        by_cases same : first = name
        · simp [← same, found]
        · simp [same, Ne.symm same, values]

end External

/-- A document shows a root together with the schemas of some names. It holds these schemas and what
the export of the root holds, and it is a pointer just if that is one. The pointer of a name leads
to the definition of the root, or else to the schema of the name. -/
structure Documents (context : Context) (root : Node) (names : List String)
    (document : Entries Json) : Prop where
  provided : ∀ name ∈ names, ∃ schema, context.get? name = some schema
  held : ∀ inner ∈ Json.held document, inner ∈ Json.held (Export.node root) ∨
    ∃ name ∈ names, ∃ schema, context.get? name = some schema ∧ inner = schema.toJson
  ref : ∀ target, ("$ref", target) ∈ document → ("$ref", target) ∈ Export.node root
  resolves : ∀ name, Pointer.resolve? (.obj document) (Pointer.toDefinition name) =
    ((root.definitions.get? name).map Node.toJson).or
      (if name ∈ names then (context.get? name).map Node.toJson else none)

theorem Export.mem_held_of_mem_named {entry : String × Json}
    (mem : entry ∈ Export.named root.definitions) : entry.2 ∈ Json.held (Export.node root) := by
  rw [Export.named_eq] at mem
  obtain ⟨definition, declared, rfl⟩ := List.mem_map.mp mem
  rw [Export.node_eq, Json.held_append, Export.held_metadata]
  exact List.mem_append_right _ (List.mem_map.mpr ⟨definition, declared, rfl⟩)

/-- Further definitions are put behind those of the root. -/
theorem External.addDefinitions_node (root : Node) (external : Entries Json) :
    addDefinitions (Export.node root) external =
      (Export.node root).insert "definitions"
        (.obj (external.foldl (fun all entry => Entries.insertNew all entry.1 entry.2)
          (Export.named root.definitions))) := by
  rw [addDefinitions, Export.get?_definitions]
  cases none : root.definitions <;> simp [Export.named]

theorem documents_self (root : Node) : Documents context root [] (Export.node root) where
  provided _ mem := by cases mem
  held _ mem := .inl mem
  ref _ mem := mem
  resolves name := by
    rw [Pointer.resolve?_toDefinition, Export.get?_definitions]
    by_cases none : root.definitions = []
    · simp [none]
    · simp [none, Export.get?_named]

theorem documents_addDefinitions {external : Entries Json}
    (provided : ∀ name ∈ names, ∃ schema, context.get? name = some schema)
    (listed : ∀ entry ∈ external, ∃ schema, entry.1 ∈ names ∧ context.get? entry.1 = some schema ∧
      entry.2 = schema.toJson)
    (values : ∀ name, external.get? name =
      if name ∈ names then (context.get? name).map Node.toJson else none) :
    Documents context root names (External.addDefinitions (Export.node root) external) where
  provided := provided
  held inner mem := by
    rw [External.addDefinitions_node] at mem
    obtain ⟨field, there, under⟩ := List.mem_flatMap.mp mem
    rcases Entries.mem_of_mem_insert there with rfl | before
    · simp only [Json.heldUnder, show "definitions" ∈ Json.mapKeywords by decide, if_true] at under
      obtain ⟨entry, declared, rfl⟩ := List.mem_map.mp under
      rcases Entries.mem_of_mem_foldl_insertNew declared with own | added
      · exact .inl (Export.mem_held_of_mem_named own)
      · obtain ⟨schema, known, found, same⟩ := listed entry added
        exact .inr ⟨entry.1, known, schema, found, same⟩
    · exact .inl (List.mem_flatMap.mpr ⟨field, before, under⟩)
  ref target mem := by
    rw [External.addDefinitions_node] at mem
    rcases Entries.mem_of_mem_insert mem with same | mem
    · simp at same
    · exact mem
  resolves name := by
    rw [External.addDefinitions_node, Pointer.resolve?_toDefinition, Entries.get?_insert_self,
      Option.bind_some, Pointer.descend_key, Entries.get?_foldl_insertNew, Export.get?_named,
      values]

/-- What an export with further schemas comes to. -/
theorem documents_of_toJsonSchema {document : Json} {s : σ}
    (h : (root.toJsonSchema (.ofContext context) s).1 = .ok document) :
    ∃ names fields, (root.externalNames (.ofContext context) s).1 = .ok names ∧
      document = .obj fields ∧ Documents context root names fields := by
  obtain ⟨names, s', searched, h⟩ := Run.bind_eq_ok (Prod.ext h rfl)
  have listed : (root.externalNames (.ofContext context) s).1 = .ok names :=
    congrArg Prod.fst searched
  by_cases none : names.isEmpty
  · rw [if_pos none] at h
    cases h
    rw [List.isEmpty_iff.mp none] at listed
    exact ⟨[], Export.node root, listed, rfl, documents_self root⟩
  · rw [if_neg none] at h
    obtain ⟨external, _, gathered, h⟩ := Run.bind_eq_ok h
    cases h
    obtain ⟨provided, schemas, values⟩ :=
      External.schemas_ofContext (congrArg Prod.fst gathered)
    exact ⟨names, _, listed, rfl, documents_addDefinitions provided schemas values⟩

end SchemaCast
