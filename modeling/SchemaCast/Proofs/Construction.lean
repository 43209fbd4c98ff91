import SchemaCast.Proofs.WellFormed
import SchemaCast.Schema.Declaration

/-!
# Schemas are well-formed from the start

Whatever declaration is read and whatever functions are called in whatever order, only well-formed
schemas come out. The check of a new node looks at its own rules alone; that is enough, since
nothing that can be done with a node that has passed it changes the rules of the node or of the
nodes that it owns.
-/
namespace SchemaCast

/-! ### Declarations -/

/-- Whatever is built has a property. -/
def Built.Gives {α : Type} (x : Built α) (P : α → Prop) : Prop := ∀ a, x = .ok a → P a

namespace Built.Gives

variable {α β : Type} {P : α → Prop} {Q : β → Prop}

theorem pure {a : α} (h : P a) : Built.Gives (Pure.pure a) P := by
  rintro _ ⟨⟩
  exact h

theorem throw (error : SchemaError) : Built.Gives (MonadExcept.throw error : Built α) P := by
  rintro _ ⟨⟩

theorem bind {x : Built α} {f : α → Built β} (hx : x.Gives P) (hf : ∀ a, P a → (f a).Gives Q) :
    Built.Gives (x >>= f) Q := by
  intro b hb
  cases h : x with
  | error error =>
    rw [h] at hb
    cases hb
  | ok a =>
    rw [h] at hb
    exact hf a (hx a h) b hb

/-- What comes first does not matter. -/
theorem after {x : Built α} {f : α → Built β} (hf : ∀ a, (f a).Gives Q) :
    Built.Gives (x >>= f) Q :=
  bind (P := fun _ => True) (fun _ _ => trivial) fun a _ => hf a

theorem mapM {f : β → Built α} {items : List β} (h : ∀ item ∈ items, (f item).Gives P) :
    Built.Gives (items.mapM f) fun all => ∀ a ∈ all, P a := by
  induction items with
  | nil => exact pure (by simp)
  | cons item rest ih =>
    rw [List.mapM_cons]
    refine bind (h item (by simp)) fun a ha => ?_
    refine bind (ih fun other mem => h other (by simp [mem])) fun all hall => ?_
    exact pure (by simpa using ⟨ha, hall⟩)

theorem foldlM {f : α → β → Built α} {items : List β} {start : α} (hstart : P start)
    (h : ∀ a item, item ∈ items → P a → (f a item).Gives P) :
    Built.Gives (items.foldlM f start) P := by
  induction items generalizing start with
  | nil => exact pure hstart
  | cons item rest ih =>
    rw [List.foldlM_cons]
    exact bind (h start item (by simp) hstart) fun a ha =>
      ih ha fun a other mem => h a other (by simp [mem])

theorem guard {c : Prop} [Decidable c] {error : SchemaError} {next : Built α} (h : next.Gives P) :
    Built.Gives (if c then (do MonadExcept.throw error; next) else next) P := by
  split
  · rintro _ ⟨⟩
  · exact h

end Built.Gives

/-- All nodes that a node of a kind owns are well-formed. -/
def Kind.Sound (kind : Kind) : Prop :=
  ∀ child ∈ (⟨{}, kind⟩ : Node).children, child.WellFormed

theorem Node.WellFormed.sound {node : Node} (h : node.WellFormed) : node.kind.Sound := h.children

theorem Kind.sound_hash_iff {rules : HashRules} :
    (Kind.hash rules).Sound ↔ (∀ entry ∈ rules.properties, entry.2.WellFormed) ∧
      (∀ entry ∈ rules.patternProperties, entry.2.WellFormed) ∧
      ∀ node ∈ Node.ofPolicy rules.additional, node.WellFormed := by
  simp only [Sound, Node.children, List.forall_mem_append, List.forall_mem_map, and_assoc]

theorem Kind.sound_array_iff {rules : ArrayRules} :
    (Kind.array rules).Sound ↔ (Kind.array { items := rules.items }).Sound ∧
      (∀ node ∈ (rules.additional.map Node.ofPolicy).getD [], node.WellFormed) ∧
      ∀ node ∈ rules.contains.toList, node.WellFormed := by
  simp only [Sound, Node.children, Option.map_none, Option.getD_none, Option.toList_none,
    List.append_nil, List.forall_mem_append, and_assoc]

namespace HashRules

variable {rules : HashRules} {node : Node}

theorem sound_property (sound : (Kind.hash rules).Sound) (h : node.WellFormed) (name : String) :
    (Kind.hash (rules.property name node)).Sound := by
  rw [Kind.sound_hash_iff] at sound ⊢
  obtain ⟨properties, others⟩ := sound
  refine ⟨fun entry mem => ?_, others⟩
  rcases Entries.mem_of_mem_insert mem with rfl | mem
  · exact h.named name
  · exact properties entry mem

theorem patternProperty_gives (sound : (Kind.hash rules).Sound) (h : node.WellFormed)
    (source : String) :
    (rules.patternProperty source node).Gives fun more => (Kind.hash more).Sound := by
  refine .after fun pattern => .pure ?_
  rw [Kind.sound_hash_iff] at sound ⊢
  obtain ⟨properties, patterns, additional⟩ := sound
  refine ⟨properties, fun entry mem => ?_, additional⟩
  rcases List.mem_append.mp mem with mem | mem
  · exact patterns entry mem
  · cases List.mem_singleton.mp mem
    exact h.named source

theorem withPropertyNames_gives (sound : (Kind.hash rules).Sound) (source : String) :
    (rules.withPropertyNames source).Gives fun more => (Kind.hash more).Sound :=
  .after fun _ => .pure sound

end HashRules

namespace Declaration

variable {read : Json → Built Node}

section

variable (reads : ∀ value, (read value).Gives Node.WellFormed) (options : Options) (key : String)

include reads

theorem nodeMap_gives :
    (nodeMap read options key).Gives fun entries => ∀ entry ∈ entries, entry.2.WellFormed := by
  unfold nodeMap
  split
  · exact .pure (by simp)
  · exact .mapM fun field _ => .bind (reads field.2) fun node h => .pure h
  · exact .throw _

theorem policy?_gives :
    (policy? read options key).Gives fun policy =>
      ∀ node ∈ (policy.map Node.ofPolicy).getD [], node.WellFormed := by
  unfold policy?
  split
  · exact .pure (by simp)
  · exact .pure (by simp [Node.ofPolicy])
  · exact .pure (by simp [Node.ofPolicy])
  · exact .bind (reads _) fun node h => .pure (by simpa [Node.ofPolicy] using h)

theorem node?_gives :
    (node? read options key).Gives fun node => ∀ inner ∈ node.toList, inner.WellFormed := by
  unfold node?
  cases given? options key with
  | none => exact .pure (by simp)
  | some value => exact .bind (reads value) fun node h => .pure (by simpa using h)

theorem nodeOptions_gives :
    (nodeOptions read options).Gives fun options =>
      ∀ entry ∈ options.definitions, entry.2.WellFormed := by
  unfold nodeOptions
  refine .after fun required => .after fun requireKey => .after fun title => ?_
  refine .after fun description => .after fun examples => .after fun allowed => ?_
  refine .after fun outputName => ?_
  exact .bind (nodeMap_gives reads options "definitions") fun definitions h => .pure h

theorem hashRules_gives :
    (hashRules read options).Gives fun rules => (Kind.hash rules).Sound := by
  unfold hashRules
  refine .bind (nodeMap_gives reads options "properties") fun properties declared => ?_
  refine .bind (nodeMap_gives reads options "pattern_properties") fun patterns matched => ?_
  have start : (Kind.hash (properties.foldl (fun rules entry => rules.property entry.1 entry.2)
      {})).Sound :=
    List.foldlRecOn (motive := fun rules => (Kind.hash rules).Sound) properties _
      (by simp [Kind.sound_hash_iff, Node.ofPolicy])
      fun rules sound entry mem => HashRules.sound_property sound (declared entry mem) _
  refine .bind (.foldlM start fun rules entry mem sound =>
    HashRules.patternProperty_gives sound (matched entry mem) _) fun rules sound => ?_
  refine .bind (policy?_gives reads options "additional_properties") fun policy owned => ?_
  refine .after fun propertyNames => .after fun pattern => .after fun dependencies => ?_
  refine .after fun minProperties => .after fun maxProperties => .after fun ignored => ?_
  refine .after fun includes => .pure ?_
  -- Only the policy is new among the nodes; all that was read after it has none in it.
  rw [Kind.sound_hash_iff] at sound ⊢
  refine ⟨sound.1, sound.2.1, ?_⟩
  cases policy with
  | none => simp [Node.ofPolicy]
  | some policy => exact owned

theorem itemShape_gives :
    (itemShape read options).Gives fun items => (Kind.array { items }).Sound := by
  unfold itemShape
  split
  · exact .pure (by simp [Kind.Sound, Node.children])
  · exact .bind (.mapM fun item _ => reads item) fun positions h =>
      .pure (by simpa [Kind.Sound, Node.children] using h)
  · exact .bind (reads _) fun item h => .pure (by simpa [Kind.Sound, Node.children] using h)

theorem arrayRules_gives :
    (arrayRules read options).Gives fun rules => (Kind.array rules).Sound := by
  unfold arrayRules
  refine .bind (itemShape_gives reads options) fun items shaped => ?_
  refine .bind (policy?_gives reads options "additional_items") fun additional owned => ?_
  refine .bind (node?_gives reads options "contains") fun contains searched => ?_
  refine .after fun minItems => .after fun maxItems => .after fun unique => ?_
  refine .after fun filter => .after fun reject => .after fun parseText => .pure ?_
  exact Kind.sound_array_iff.mpr ⟨shaped, owned, searched⟩

theorem alternatives_gives (combinator : Combinator) :
    (alternatives read combinator options).Gives fun nodes => ∀ node ∈ nodes, node.WellFormed := by
  unfold alternatives
  split
  · exact .throw _
  · exact .throw _
  · exact .mapM fun item _ => reads item
  · exact .bind (reads _) fun node h => .pure (by simpa using h)
  · exact .throw _

theorem kind_gives (type : NodeType) : (kind read options type).Gives Kind.Sound := by
  have leaf {kind : Kind} (none : (⟨{}, kind⟩ : Node).children = []) : kind.Sound := by
    simp [Kind.Sound, none]
  cases type with
  | string => exact .after fun rules => .pure (leaf rfl)
  | integer => exact .after fun rules => .pure (leaf rfl)
  | number => exact .after fun rules => .pure (leaf rfl)
  | boolean => exact .after fun castText => .pure (leaf rfl)
  | symbol => exact .pure (leaf rfl)
  | object => exact .after fun classes => .pure (leaf rfl)
  | hash => exact .bind (hashRules_gives reads options) fun rules sound => .pure sound
  | array => exact .bind (arrayRules_gives reads options) fun rules sound => .pure sound
  | combination combinator =>
    exact .bind (alternatives_gives reads options combinator) fun nodes sound =>
      .after fun blankAsNull => .pure sound
  | reference =>
    refine .after fun target => ?_
    cases target with
    | some target => exact .pure (leaf rfl)
    | none => exact .throw _

theorem build_gives (name : String) : (build read name options).Gives Node.WellFormed := by
  unfold build
  split
  · exact .throw _
  · next type _ =>
    refine .guard (.bind (nodeOptions_gives reads options) fun shared definitions => ?_)
    refine .bind (kind_gives reads options type) fun kind sound => ?_
    exact fun node h => Node.wellFormed_of_ofParts h sound definitions

omit options

theorem readWith_gives (value : Json) : (readWith read value).Gives Node.WellFormed := by
  cases value with
  | str name => exact build_gives reads [] name
  | obj options =>
    rw [readWith]
    split
    · exact build_gives reads options _
    · exact .throw _
    · exact .throw _
    · exact .throw _
  | _ => exact .throw _

end

/-- By induction on how deep the declarations nest. -/
theorem read_gives (fuel : Nat) (value : Json) :
    (Declaration.read fuel value).Gives Node.WellFormed := by
  induction fuel generalizing value with
  | zero => exact .throw _
  | succ fuel ih => exact readWith_gives ih value

end Declaration

theorem Node.wellFormed_of_ofJson {value : Json} {node : Node} (h : Node.ofJson value = .ok node) :
    node.WellFormed :=
  Declaration.read_gives value.size value node h

/-! ### Calls

Every call makes a node out of nodes that are at hand. The rules of a hash and of an array are put
together in calls of their own, which check nothing; the rules of strings and numbers have no nodes
in them and may be any.
-/

/-- Rules of a hash that are put together around the nodes at hand, one call after the other. -/
inductive HashRules.Assembled (nodes : List Node) : HashRules → Prop where
  | empty : Assembled nodes {}
  /-- The rules of a node at hand are worked on again. -/
  | reopened {node : Node} {rules : HashRules} (known : node ∈ nodes)
      (kind : node.kind = .hash rules) : Assembled nodes rules
  | property {rules : HashRules} {node : Node} (name : String) (before : Assembled nodes rules)
      (known : node ∈ nodes) : Assembled nodes (rules.property name node)
  | patternProperty {rules after : HashRules} {node : Node} {source : String}
      (before : Assembled nodes rules) (known : node ∈ nodes)
      (compiled : rules.patternProperty source node = .ok after) : Assembled nodes after
  | additional {rules : HashRules} {policy : Policy Node} (before : Assembled nodes rules)
      (known : Node.ofPolicy policy ⊆ nodes) :
      Assembled nodes { rules with additional := policy }
  | propertyNames {rules after : HashRules} {source : String} (before : Assembled nodes rules)
      (compiled : rules.withPropertyNames source = .ok after) : Assembled nodes after
  | dependency {rules : HashRules} (source : String) (targets : List String)
      (before : Assembled nodes rules) : Assembled nodes (rules.dependency source targets)
  | minProperties {rules : HashRules} (count : Nat) (before : Assembled nodes rules) :
      Assembled nodes { rules with minProperties := some count }
  | maxProperties {rules : HashRules} (count : Nat) (before : Assembled nodes rules) :
      Assembled nodes { rules with maxProperties := some count }
  | ignored {rules : HashRules} (ignored : Ignored) (before : Assembled nodes rules) :
      Assembled nodes { rules with ignored }
  | including {rules : HashRules} (name : String) (before : Assembled nodes rules) :
      Assembled nodes (rules.including name)

/-- Rules of an array that are put together around the nodes at hand, one call after the other. -/
inductive ArrayRules.Assembled (nodes : List Node) : ArrayRules → Prop where
  | any : Assembled nodes { items := .any }
  | list {item : Node} (known : item ∈ nodes) : Assembled nodes { items := .list item }
  | tuple {positions : List Node} (known : positions ⊆ nodes) :
      Assembled nodes { items := .tuple positions }
  /-- The rules of a node at hand are worked on again. -/
  | reopened {node : Node} {rules : ArrayRules} (known : node ∈ nodes)
      (kind : node.kind = .array rules) : Assembled nodes rules
  | additional {rules : ArrayRules} {policy : Policy Node} (before : Assembled nodes rules)
      (known : Node.ofPolicy policy ⊆ nodes) :
      Assembled nodes { rules with additional := some policy }
  | contains {rules : ArrayRules} {node : Node} (before : Assembled nodes rules)
      (known : node ∈ nodes) : Assembled nodes { rules with contains := some node }
  | minItems {rules : ArrayRules} (count : Nat) (before : Assembled nodes rules) :
      Assembled nodes { rules with minItems := some count }
  | maxItems {rules : ArrayRules} (count : Nat) (before : Assembled nodes rules) :
      Assembled nodes { rules with maxItems := some count }
  | unique {rules : ArrayRules} (unique : Bool) (before : Assembled nodes rules) :
      Assembled nodes { rules with unique }
  | filter {rules : ArrayRules} (predicate : Predicate) (before : Assembled nodes rules) :
      Assembled nodes { rules with filter := some predicate }
  | reject {rules : ArrayRules} (predicate : Predicate) (before : Assembled nodes rules) :
      Assembled nodes { rules with reject := some predicate }
  | parseText {rules : ArrayRules} (parseText : Bool) (before : Assembled nodes rules) :
      Assembled nodes { rules with parseText }

/-- Rules of any kind that are put together around the nodes at hand. -/
inductive Kind.Assembled (nodes : List Node) : Kind → Prop where
  | string (rules : StringRules) : Assembled nodes (.string rules)
  | integer (rules : NumericRules) : Assembled nodes (.integer rules)
  | number (rules : NumericRules) : Assembled nodes (.number rules)
  | boolean (castText : Bool) : Assembled nodes (.boolean castText)
  | symbol : Assembled nodes .symbol
  | object (classes : List ValueKind) : Assembled nodes (.object classes)
  | hash {rules : HashRules} (assembled : rules.Assembled nodes) : Assembled nodes (.hash rules)
  | array {rules : ArrayRules} (assembled : rules.Assembled nodes) :
      Assembled nodes (.array rules)
  | combination {alternatives : List Node} (combinator : Combinator) (blankAsNull : Bool)
      (known : alternatives ⊆ nodes) :
      Assembled nodes (.combination combinator alternatives blankAsNull)
  | reference (target : String) : Assembled nodes (.reference target)

/-- A node that one call gives, with the nodes at hand. -/
inductive Node.Given (nodes : List Node) : Node → Prop where
  | ofKind {kind : Kind} {node : Node} (assembled : kind.Assembled nodes)
      (built : Node.ofKind kind = .ok node) : Given nodes node
  | ofJson {value : Json} {node : Node} (built : Node.ofJson value = .ok node) : Given nodes node
  | required {node : Node} (known : node ∈ nodes) : Given nodes node.required
  | requireKey {node : Node} (known : node ∈ nodes) : Given nodes node.requireKey
  | withDefault {node : Node} (value : Json) (known : node ∈ nodes) :
      Given nodes (node.withDefault value)
  | withAllowed {node : Node} (values : List Json) (known : node ∈ nodes) :
      Given nodes (node.withAllowed values)
  | withTitle {node : Node} (title : String) (known : node ∈ nodes) :
      Given nodes (node.withTitle title)
  | withDescription {node : Node} (description : String) (known : node ∈ nodes) :
      Given nodes (node.withDescription description)
  | withExamples {node : Node} (examples : List Json) (known : node ∈ nodes) :
      Given nodes (node.withExamples examples)
  | withOutputName {node : Node} (name : String) (known : node ∈ nodes) :
      Given nodes (node.withOutputName name)
  | withDefinition {node definition : Node} (name : String) (known : node ∈ nodes)
      (declared : definition ∈ nodes) : Given nodes (node.withDefinition name definition)
  /-- What a node owns can be taken out of it. -/
  | child {node child : Node} (known : node ∈ nodes) (owned : child ∈ node.children) :
      Given nodes child
  | definition {node : Node} {entry : String × Node} (known : node ∈ nodes)
      (declared : entry ∈ node.definitions) : Given nodes entry.2

/-- Nodes that calls give one after the other, the last one first. -/
inductive Constructed : List Node → Prop where
  | nil : Constructed []
  | cons {nodes : List Node} {node : Node} (before : Constructed nodes)
      (call : node.Given nodes) : Constructed (node :: nodes)

section

variable {nodes : List Node} (all : ∀ node ∈ nodes, node.WellFormed)

include all

theorem HashRules.Assembled.sound {rules : HashRules} (h : rules.Assembled nodes) :
    (Kind.hash rules).Sound := by
  induction h with
  | empty => simp [Kind.sound_hash_iff, Node.ofPolicy]
  | reopened known kind => exact kind ▸ (all _ known).sound
  | property name _ known ih => exact HashRules.sound_property ih (all _ known) name
  | patternProperty _ known compiled ih =>
    exact HashRules.patternProperty_gives ih (all _ known) _ _ compiled
  | additional _ known ih =>
    rw [Kind.sound_hash_iff] at ih ⊢
    exact ⟨ih.1, ih.2.1, fun node mem => all node (known mem)⟩
  | propertyNames _ compiled ih => exact HashRules.withPropertyNames_gives ih _ _ compiled
  -- The other calls set bounds, names and texts, and leave the nodes alone.
  | _ => assumption

theorem ArrayRules.Assembled.sound {rules : ArrayRules} (h : rules.Assembled nodes) :
    (Kind.array rules).Sound := by
  induction h with
  | any => simp [Kind.Sound, Node.children]
  | list known => simpa [Kind.Sound, Node.children] using all _ known
  | tuple known => simpa [Kind.Sound, Node.children] using fun node mem => all node (known mem)
  | reopened known kind => exact kind ▸ (all _ known).sound
  | additional _ known ih =>
    rw [Kind.sound_array_iff] at ih ⊢
    exact ⟨ih.1, fun node mem => all node (known mem), ih.2.2⟩
  | contains _ known ih =>
    rw [Kind.sound_array_iff] at ih ⊢
    exact ⟨ih.1, ih.2.1, by simpa using all _ known⟩
  | _ => assumption

theorem Kind.Assembled.sound {kind : Kind} (h : kind.Assembled nodes) : kind.Sound := by
  cases h with
  | hash assembled => exact assembled.sound all
  | array assembled => exact assembled.sound all
  | combination _ _ known => exact fun node mem => all node (known mem)
  | _ => simp [Kind.Sound, Node.children]

/-- No call makes anything else than well-formed nodes out of well-formed nodes. -/
theorem Node.Given.wellFormed {node : Node} (h : node.Given nodes) : node.WellFormed := by
  cases h with
  | ofKind assembled built =>
    exact Node.wellFormed_of_ofParts built (assembled.sound all) (by simp)
  | ofJson built => exact Node.wellFormed_of_ofJson built
  | withDefinition name known declared => exact (all _ known).withDefinition (all _ declared) name
  | child known owned => exact (all _ known).children _ owned
  | definition known declared => exact (all _ known).definitions _ declared
  | required known => exact (all _ known).congr rfl rfl
  | requireKey known => exact (all _ known).congr rfl rfl
  | withDefault _ known => exact (all _ known).congr rfl rfl
  | withAllowed _ known => exact (all _ known).congr rfl rfl
  | withTitle _ known => exact (all _ known).congr rfl rfl
  | withDescription _ known => exact (all _ known).congr rfl rfl
  | withExamples _ known => exact (all _ known).congr rfl rfl
  | withOutputName _ known => exact (all _ known).congr rfl rfl

end

/-- Every node that some calls give is well-formed, with all nodes that it owns. -/
theorem wellFormed_of_constructed {nodes : List Node} (run : Constructed nodes) :
    ∀ node ∈ nodes, node.WellFormed := by
  induction run with
  | nil => simp
  | cons before call ih => exact List.forall_mem_cons.mpr ⟨call.wellFormed ih, ih⟩

/-- A required text in a hash that becomes a definition of itself, taken out again. -/
theorem wellFormed_of_constructed_nested :
    let text : Node := ⟨{}, .string { minLength := some 1, maxLength := some 2 }⟩
    let property : Node := text.required.named "a"
    let hash : Node := ⟨{}, .hash { properties := [("a", property)], maxProperties := some 1 }⟩
    let outer : Node := hash.withDefinition "b" hash
    Constructed [property, outer, hash, text.required, text] ∧
      ∀ node ∈ [property, outer, hash, text.required, text], node.WellFormed := by
  intro text property hash outer
  have made : text.Given [] := .ofKind (.string { minLength := some 1, maxLength := some 2 }) rfl
  have asked : text.required.Given [text] := .required (by simp)
  have held : hash.Given [text.required, text] :=
    .ofKind (.hash (.maxProperties 1 (.property "a" .empty (List.mem_cons_self ..)))) rfl
  have declared : outer.Given [hash, text.required, text] :=
    .withDefinition "b" (List.mem_cons_self ..) (List.mem_cons_self ..)
  have owned : property ∈ outer.children := List.mem_singleton_self _
  have taken : property.Given [outer, hash, text.required, text] :=
    .child (List.mem_cons_self ..) owned
  have run : Constructed [property, outer, hash, text.required, text] :=
    .cons (.cons (.cons (.cons (.cons .nil made) asked) held) declared) taken
  exact ⟨run, wellFormed_of_constructed run⟩

end SchemaCast
