import Mathlib.Data.List.Forall2
import SchemaCast.Proofs.Export.Document

/-!
# What exported references point at

Every pointer in an export stands for a name that is used somewhere in the schema or in the schema
of an external name. The document has definitions at its root only for the names that the root
declares and for the external ones, and a definition of the root is kept where both have one. So a
pointer leads nowhere if just a node further inside declares its name, and it leads to the wrong
schema if an external schema is needed under a name that the root declares.
-/
namespace SchemaCast

variable {σ : Type} {context : Context} {root : Node} {names : List String}

/-! ### Every pointer stands for a name -/

/-- A schema in a document that stands for a node, or for a name that a node uses, or that refers to
nothing. -/
inductive Represents (Written : Place → Prop) : Json → Prop where
  | node {place : Place} (written : Written place) : Represents Written place.node.toJson
  | name {place : Place} {name : String} (written : Written place)
      (used : name ∈ place.node.kind.referenced) : Represents Written (Export.reference name)
  | plain {value : Json} (plain : value.IsPlain) : Represents Written value

namespace Represents

variable {Written : Place → Prop} {fields : Entries Json}

/-- What a schema in a document holds is again of one of the three sorts. -/
theorem held (closed : ∀ place target, Written place → place.Owns target → Written target)
    (h : Represents Written (.obj fields)) {inner : Json} (mem : inner ∈ Json.held fields) :
    Represents Written inner := by
  generalize same : Json.obj fields = value at h
  cases h with
  | @node place written =>
    cases same
    rw [Export.node_eq, Json.held_append, Export.held_metadata, List.mem_append] at mem
    rcases mem with mem | mem
    · rcases Export.held_rules mem with ⟨child, owned, rfl⟩ | ⟨name, used, rfl⟩ | plain
      · exact .node (closed place _ written (.child owned))
      · exact .name written used
      · exact .plain plain
    · obtain ⟨entry, declared, rfl⟩ := List.mem_map.mp mem
      exact .node (closed place _ written (.definition declared))
  | name written used =>
    cases same
    cases mem
  | plain plain =>
    rw [(plain fields same.symm).1] at mem
    cases mem

theorem exists_of_ref (h : Represents Written (.obj fields)) {target : Json}
    (mem : ("$ref", target) ∈ fields) :
    ∃ place name, Written place ∧ name ∈ place.node.kind.referenced ∧
      target = .str (Pointer.toDefinition name) := by
  generalize same : Json.obj fields = value at h
  cases h with
  | @node place written =>
    cases same
    obtain ⟨name, kind, rfl⟩ := Export.ref_mem_node mem
    exact ⟨place, name, written, by rw [kind]; exact List.mem_singleton_self name, rfl⟩
  | @name place name written used =>
    cases same
    cases List.mem_singleton.mp mem
    exact ⟨place, name, written, used, rfl⟩
  | plain plain => exact absurd mem ((plain fields same.symm).2 target)

end Represents

theorem Place.WrittenIn.of_owns {place target : Place}
    (written : place.WrittenIn context root names) (owns : place.Owns target) :
    target.WrittenIn context root names := by
  obtain ⟨schema, origin, within⟩ := written
  exact ⟨schema, origin, within.tail owns⟩

namespace Documents

variable {document : Entries Json}

/-- Inside of a document there are only schemas that are written in the root or in the schema of a
listed name. -/
theorem represents (complete : Documents context root names document) {inner : Json}
    (h : (Json.obj document).Subschema inner) :
    inner = .obj document ∨ Represents (Place.WrittenIn context root names) inner := by
  induction h with
  | self => exact .inl rfl
  | @held fields inner outer mem ih =>
    refine .inr ?_
    have closed (place target : Place) (written : place.WrittenIn context root names)
        (owns : place.Owns target) : target.WrittenIn context root names := written.of_owns owns
    rcases ih with same | known
    · cases same
      rcases complete.held inner mem with own | ⟨name, listed, schema, found, rfl⟩
      · have start : root.place.WrittenIn context root names := ⟨root, .inl rfl, .refl⟩
        exact (Represents.node start).held closed own
      · have start : schema.place.WrittenIn context root names :=
          ⟨schema, .inr ⟨name, listed, found⟩, .refl⟩
        exact .node start
    · exact known.held closed mem

/-- Every pointer in a document stands for a name that is used in the root or in the schema of a
listed name. -/
theorem exists_of_ref (complete : Documents context root names document)
    {fields : Entries Json} (inside : (Json.obj document).Subschema (.obj fields)) {target : Json}
    (mem : ("$ref", target) ∈ fields) :
    ∃ (place : Place) (name : String), place.WrittenIn context root names ∧
      name ∈ place.node.kind.referenced ∧ target = .str (Pointer.toDefinition name) := by
  rcases complete.represents inside with same | known
  · cases same
    have start : root.place.WrittenIn context root names := ⟨root, .inl rfl, .refl⟩
    exact (Represents.node start).exists_of_ref (complete.ref target mem)
  · exact known.exists_of_ref mem

/-- A pointer leads somewhere if the root declares its name or the name is listed. -/
theorem isSome_resolve?_iff (complete : Documents context root names document) (name : String) :
    (Pointer.resolve? (.obj document) (Pointer.toDefinition name)).isSome ↔
      root.definitions.contains name ∨ name ∈ names := by
  rw [complete.resolves, Option.isSome_or, Bool.or_eq_true, Option.isSome_map, Entries.contains]
  refine or_congr Iff.rfl ?_
  split
  · next listed =>
    obtain ⟨schema, found⟩ := complete.provided name listed
    simp [found, listed]
  · next unlisted => simp [unlisted]

end Documents

/-- Every pointer in an export stands for a name that is used somewhere in the schema or in the
schema of an external name, and it leads somewhere just if the root declares this name or the name
is external. A name that no definitions around its use declare always is. -/
theorem pointer_resolves_iff {document : Json} {s : σ}
    (h : (root.toJsonSchema (.ofContext context) s).1 = .ok document) :
    ∃ names, (root.externalNames (.ofContext context) s).1 = .ok names ∧
      ∀ fields pointer, document.Subschema (.obj fields) → ("$ref", .str pointer) ∈ fields →
        ∃ (place : Place) (name : String), place.WrittenIn context root names ∧
          name ∈ place.node.kind.referenced ∧ pointer = Pointer.toDefinition name ∧
          (lookupLocal name place.inner = none → name ∈ names) ∧
          ((Pointer.resolve? document pointer).isSome ↔
            root.definitions.contains name ∨ name ∈ names) := by
  obtain ⟨names, fields, listed, rfl, complete⟩ := documents_of_toJsonSchema h
  refine ⟨names, listed, fun inner pointer inside mem => ?_⟩
  obtain ⟨place, name, written, used, same⟩ := complete.exists_of_ref inside mem
  cases same
  exact ⟨place, name, written, used, rfl,
    fun undeclared => (covers_externalNames listed place written name ⟨used, undeclared⟩).1,
    complete.isSome_resolve?_iff name⟩

/-- A pointer to an external hash with a slash in its name, next to one to a definition that stands
further inside. -/
theorem pointer_resolves_include :
    let inside : Node :=
      ⟨{ name := some "x", definitions := [("y", ⟨{}, .symbol⟩)] }, .reference "y"⟩
    let root : Node := ⟨{}, .hash { properties := [("x", inside)], includes := ["a/b"] }⟩
    let hash : Node := ⟨{}, .hash {}⟩
    let context : Context := [("a/b", hash)]
    let part : Json := .obj [("$ref", .str "#/definitions/a~1b")]
    let document : Json := .obj
      [("type", .str "object"), ("properties", .obj [("x", inside.toJson)]),
        ("additionalProperties", .bool false), ("allOf", .arr [part]),
        ("definitions", .obj [("a/b", hash.toJson)])]
    (root.toJsonSchema (.ofContext context) ()).1 = .ok document ∧ document.Subschema part ∧
      ∃ names name, (root.externalNames (.ofContext context) ()).1 = .ok names ∧
        "#/definitions/a~1b" = Pointer.toDefinition name ∧
        ((Pointer.resolve? document "#/definitions/a~1b").isSome ↔
          root.definitions.contains name ∨ name ∈ names) := by
  intro inside root hash context part document
  have exported : (root.toJsonSchema (.ofContext context) ()).1 = .ok document := rfl
  have held : document.Subschema part := .held .self (.tail _ (.head _))
  obtain ⟨names, listed, pointers⟩ := pointer_resolves_iff exported
  obtain ⟨_, name, _, _, same, _, resolves⟩ := pointers _ _ held (List.mem_singleton_self _)
  exact ⟨exported, held, names, name, listed, same, resolves⟩

/-- A definition that stands further inside is not at the root, where its pointer leads to. -/
theorem pointer_dangles_nested :
    let inside : Node :=
      ⟨{ name := some "a", definitions := [("x", ⟨{}, .symbol⟩)] }, .reference "x"⟩
    let root : Node := ⟨{}, .hash { properties := [("a", inside)] }⟩
    let document : Json := .obj
      [("type", .str "object"), ("properties", .obj [("a", .obj (Export.node inside))]),
        ("additionalProperties", .bool false)]
    (root.toJsonSchema (.ofContext []) ()).1 = .ok document ∧
      document.Subschema (.obj (Export.node inside)) ∧
      ("$ref", .str "#/definitions/x") ∈ Export.node inside ∧
      Pointer.resolve? document "#/definitions/x" = none := by
  intro inside root document
  exact ⟨rfl, .held .self (.head _), .head _, rfl⟩

/-! ### Every pointer agrees with the schema that is used -/

/-- The pointer of a schema that is one. -/
def Json.ref? : Json → Option String
  | .obj fields =>
    match Entries.get? fields "$ref" with
    | some (.str pointer) => some pointer
    | _ => none
  | _ => none

/-- The pointers that the export of a node has for the names that the node uses itself: that of a
reference, and those of the includes of a hash. -/
def Node.pointers (node : Node) : List String :=
  match node.kind with
  | .reference _ => node.toJson.ref?.toList
  | .hash _ =>
    match (Export.node node).get? "allOf" with
    | some (.arr items) => items.filterMap Json.ref?
    | _ => []
  | _ => []

@[simp] theorem Json.ref?_reference (name : String) :
    (Export.reference name).ref? = some (Pointer.toDefinition name) := by
  simp [Export.reference, ref?, Entries.get?]

theorem Export.get?_metadata_allOf (options : NodeOptions) :
    (Export.metadata options).get? "allOf" = none := by
  obtain ⟨_, _, _, default, _, _, examples, allowed, _, definitions⟩ := options
  simp [metadata, Entries.get?_append, get?_field?, get?_listField, get?_mapField]

theorem Export.get?_hash_allOf (rules : HashRules) :
    (Export.hash rules).get? "allOf" =
      if rules.includes = [] then none else some (.arr (rules.includes.map Export.reference)) := by
  obtain ⟨_, _, _, _, _, _, _, _, _⟩ := rules
  simp [hash, Entries.get?_append, Entries.get?, get?_field?, get?_listField, get?_mapField]

theorem Node.pointers_eq (node : Node) :
    node.pointers = node.kind.referenced.map Pointer.toDefinition := by
  obtain ⟨options, kind⟩ := node
  cases kind with
  | reference name =>
    have target : (Export.node ⟨options, .reference name⟩).get? "$ref" =
        some (.str (Pointer.toDefinition name)) := by
      simp [Export.node_eq, Export.rules, Entries.get?]
    simp [Node.pointers, Node.toJson, Json.ref?, target, Kind.referenced]
  | hash rules =>
    have includes : (Export.node ⟨options, .hash rules⟩).get? "allOf" =
        if rules.includes = [] then none
        else some (.arr (rules.includes.map Export.reference)) := by
      rw [Export.node_eq, Export.rules, Entries.get?_append, Export.get?_hash_allOf,
        Export.get?_metadata_allOf, Option.or_none]
    by_cases none : rules.includes = []
    · simp [Node.pointers, includes, none, Kind.referenced]
    · simp [Node.pointers, includes, none, Kind.referenced, List.filterMap_map]
  | _ => rfl

/-- A node that declares no definitions, like all nodes that it owns. -/
inductive Node.DeclaresNothing : Node → Prop where
  | intro {node : Node} (here : node.definitions = [])
      (below : ∀ child ∈ node.children, child.DeclaresNothing) : DeclaresNothing node

theorem Node.DeclaresNothing.here {node : Node} (h : node.DeclaresNothing) :
    node.definitions = [] := by
  cases h
  assumption

/-- Nothing but the root declares definitions: no other node of it, and no node of a schema of the
context. -/
structure DeclaresAtRoot (context : Context) (root : Node) : Prop where
  children : ∀ child ∈ root.children, child.DeclaresNothing
  definitions : ∀ entry ∈ root.definitions, entry.2.DeclaresNothing
  context : ∀ name schema, context.get? name = some schema → schema.DeclaresNothing

/-- Where no definitions are declared, those around stay the same. -/
theorem Node.DeclaresNothing.inner_eq {schema place : Place}
    (h : schema.node.DeclaresNothing) (within : schema.Within place) :
    place.node.DeclaresNothing ∧ place.inner = schema.outer := by
  have same {place : Place} (h : place.node.DeclaresNothing) : place.inner = place.outer := by
    simp [Place.inner, External.stackBelow, h.here]
  induction within with
  | refl => exact ⟨h, same h⟩
  | tail _ owns ih =>
    obtain ⟨⟨none, below⟩, around⟩ := ih
    cases owns with
    | child owned => exact ⟨below _ owned, (same (below _ owned)).trans around⟩
    | definition declared => simp [none] at declared

/-- All over the root there are only its own definitions around. -/
theorem DeclaresAtRoot.inner_eq (flat : DeclaresAtRoot context root) {place : Place}
    (within : root.place.Within place) : place.inner = root.place.inner := by
  rcases Relation.ReflTransGen.cases_head within with rfl | ⟨_, owns, within⟩
  · rfl
  · cases owns with
    | child owned =>
      exact (Node.DeclaresNothing.inner_eq (flat.children _ owned) within).2
    | definition declared =>
      exact (Node.DeclaresNothing.inner_eq (flat.definitions _ declared) within).2

theorem lookupLocal_root (root : Node) (name : String) :
    lookupLocal name root.place.inner =
      (root.definitions.get? name).map fun node => (node, root.place.inner) := by
  rcases root.place.inner_cases with ⟨none, inner⟩ | ⟨_, inner⟩ <;> rw [inner]
  · have undeclared : root.definitions = [] := none
    simp [undeclared, Node.place, lookupLocal]
  · simp only [Node.place, lookupLocal]
    cases root.definitions.get? name <;> rfl

namespace Documents

variable {document : Entries Json} {place : Place} {name : String}

/-- In the root a name leads to the schema that its pointer shows. -/
theorem resolves_inside (complete : Documents context root names document)
    (covers : Covers context root names) (flat : DeclaresAtRoot context root)
    (within : root.place.Within place) (used : name ∈ place.node.kind.referenced) :
    ∃ target, context.place? place.inner name = some target ∧
      Pointer.resolve? (.obj document) (Pointer.toDefinition name) = some target.node.toJson := by
  have written : place.WrittenIn context root names := ⟨root, .inl rfl, within⟩
  obtain ⟨target, leads⟩ := covers.leads written used
  have declared := lookupLocal_root root name
  rw [← flat.inner_eq within] at declared
  refine ⟨target, leads, ?_⟩
  rw [complete.resolves]
  cases own : root.definitions.get? name with
  | some node =>
    simp only [Context.place?, declared, own, Option.map_some] at leads
    cases leads
    rfl
  | none =>
    simp only [own, Option.map_none] at declared
    have listed : name ∈ names := (covers place written name ⟨used, declared⟩).1
    simp only [Context.place?, declared] at leads
    obtain ⟨schema, found, rfl⟩ := Option.map_eq_some_iff.mp leads
    simp [listed, found]

/-- In the schema of a listed name a name leads to the schema that its pointer shows, unless the
root declares another one under this name. -/
theorem resolves_outside (complete : Documents context root names document)
    (covers : Covers context root names) (flat : DeclaresAtRoot context root) {origin : String}
    (mem : origin ∈ names) {schema : Node} (found : context.get? origin = some schema)
    (within : schema.place.Within place) (used : name ∈ place.node.kind.referenced) :
    ∃ target, context.place? place.inner name = some target ∧
      (Pointer.resolve? (.obj document) (Pointer.toDefinition name) = some target.node.toJson ↔
        ∀ own, root.definitions.get? name = some own → own.toJson = target.node.toJson) := by
  have written : place.WrittenIn context root names := ⟨schema, .inr ⟨origin, mem, found⟩, within⟩
  have nothing : place.inner = [] :=
    (Node.DeclaresNothing.inner_eq (flat.context origin schema found) within).2
  have undeclared : lookupLocal name place.inner = none := by rw [nothing]; rfl
  obtain ⟨listed, external, provided⟩ := covers place written name ⟨used, undeclared⟩
  refine ⟨external.place, by simp [Context.place?, undeclared, provided, Node.place], ?_⟩
  rw [complete.resolves, provided, if_pos listed]
  cases root.definitions.get? name <;> simp [Node.place]

end Documents

/-- If nothing but the root declares definitions, then every pointer in the root leads to the schema
that is used for its name there. A pointer in the schema of an external name does so just if the
root declares nothing else under its name. -/
theorem pointer_agrees_iff {document : Json} {s : σ} (flat : DeclaresAtRoot context root)
    (h : (root.toJsonSchema (.ofContext context) s).1 = .ok document) :
    let lookup (place : Place) : String → Run σ (Node × Scope σ) :=
      ((place.scope (.ofContext context)).enter place.node).target
    ∃ names, (root.externalNames (.ofContext context) s).1 = .ok names ∧
      (∀ place, root.place.Within place →
        List.Forall₂ (fun name pointer => ∃ target scope,
            (lookup place name s).1 = .ok (target, scope) ∧
            Pointer.resolve? document pointer = some target.toJson)
          place.node.kind.referenced place.node.pointers) ∧
      ∀ origin ∈ names, ∃ schema, context.get? origin = some schema ∧
        ∀ place, schema.place.Within place →
          List.Forall₂ (fun name pointer => ∃ target scope,
              (lookup place name s).1 = .ok (target, scope) ∧
              (Pointer.resolve? document pointer = some target.toJson ↔
                ∀ own, root.definitions.get? name = some own → own.toJson = target.toJson))
            place.node.kind.referenced place.node.pointers := by
  intro lookup
  obtain ⟨names, fields, listed, rfl, complete⟩ := documents_of_toJsonSchema h
  have covers : Covers context root names := covers_externalNames listed
  have found {place target : Place} {name : String}
      (leads : context.place? place.inner name = some target) :
      (lookup place name s).1 = .ok (target.node, target.scope (.ofContext context)) := by
    simp only [lookup, Place.enter_scope, Scope.target_of_leads leads]
    rfl
  refine ⟨names, listed, fun place within => ?_, fun origin mem => ?_⟩
  · rw [Node.pointers_eq, List.forall₂_map_right_iff, List.forall₂_same]
    intro name used
    obtain ⟨target, leads, resolves⟩ := complete.resolves_inside covers flat within used
    exact ⟨target.node, _, found leads, resolves⟩
  · obtain ⟨schema, known⟩ := complete.provided origin mem
    refine ⟨schema, known, fun place within => ?_⟩
    rw [Node.pointers_eq, List.forall₂_map_right_iff, List.forall₂_same]
    intro name used
    obtain ⟨target, leads, resolves⟩ :=
      complete.resolves_outside covers flat mem known within used
    exact ⟨target.node, _, found leads, resolves⟩

/-- A hash that uses its own definition, and includes a hash that uses a schema of the context. -/
theorem pointer_agrees_iff_include :
    let symbol : Node := ⟨{}, .symbol⟩
    let use (name : String) : Node := ⟨{}, .reference name⟩
    let included : Node := ⟨{}, .hash { properties := [("y", use "c")] }⟩
    let root : Node := ⟨{ definitions := [("a", symbol)] },
      .hash { properties := [("x", use "a")], includes := ["b"] }⟩
    let context : Context := [("b", included), ("c", symbol)]
    let lookup : String → Run Unit (Node × Scope Unit) :=
      ((root.place.scope (.ofContext context)).enter root).target
    DeclaresAtRoot context root ∧
    ∃ document, (root.toJsonSchema (.ofContext context) ()).1 = .ok document ∧
      List.Forall₂ (fun name pointer => ∃ target scope,
          (lookup name ()).1 = .ok (target, scope) ∧
          Pointer.resolve? document pointer = some target.toJson)
        root.kind.referenced root.pointers := by
  intro symbol use included root context lookup
  have leaf : symbol.DeclaresNothing := .intro rfl (by simp [symbol, Node.children])
  have uses (name : String) : (use name).DeclaresNothing :=
    .intro rfl (by simp [use, Node.children])
  have flat : DeclaresAtRoot context root := by
    refine ⟨?_, ?_, fun name schema found => ?_⟩
    · simpa [root, Node.children, Node.ofPolicy] using uses "a"
    · simpa [root, Node.definitions] using leaf
    · have mem := Entries.mem_of_get? found
      simp only [context, List.mem_cons, Prod.mk.injEq, List.not_mem_nil, or_false] at mem
      rcases mem with ⟨_, rfl⟩ | ⟨_, rfl⟩
      · exact .intro rfl (by simpa [included, Node.children, Node.ofPolicy] using uses "c")
      · exact leaf
  obtain ⟨document, exported⟩ :
      ∃ document, (root.toJsonSchema (.ofContext context) ()).1 = .ok document := ⟨_, rfl⟩
  obtain ⟨_, _, inside, _⟩ := pointer_agrees_iff flat exported
  exact ⟨flat, document, exported, inside root.place .refl⟩

/-- Where the schema of the context is used, the pointer leads to that of the root. -/
theorem pointer_disagrees_shadowed :
    let text : Node := ⟨{}, .string {}⟩
    let number : Node := ⟨{}, .integer {}⟩
    let used : Node := ⟨{}, .reference "a"⟩
    let root : Node := ⟨{ definitions := [("a", text)] }, .reference "b"⟩
    let context : Context := [("b", used), ("a", number)]
    DeclaresAtRoot context root ∧
    ∃ document, (root.toJsonSchema (.ofContext context) ()).1 = .ok document ∧
      (root.externalNames (.ofContext context) ()).1 = .ok ["b", "a"] ∧
      used.pointers = ["#/definitions/a"] ∧
      (((used.place.scope (.ofContext context)).enter used).target "a" ()).1 =
        .ok (number, .root (.ofContext context)) ∧
      Pointer.resolve? document "#/definitions/a" = some text.toJson ∧
      text.toJson ≠ number.toJson := by
  intro text number used root context
  have leaf {node : Node} (none : node.definitions = []) (alone : node.children = []) :
      node.DeclaresNothing := .intro none (by simp [alone])
  refine ⟨⟨?_, ?_, fun name schema found => ?_⟩, _, rfl, rfl, rfl, rfl, rfl, ?_⟩
  · simp [root, Node.children]
  · simpa [root, Node.definitions] using @leaf text rfl rfl
  · have mem := Entries.mem_of_get? found
    simp only [context, List.mem_cons, Prod.mk.injEq, List.not_mem_nil, or_false] at mem
    rcases mem with ⟨_, rfl⟩ | ⟨_, rfl⟩ <;> exact leaf rfl rfl
  · simp [text, number, Node.toJson, Export.node_eq, Export.rules, Export.string,
      Export.numeric]

end SchemaCast
