import SchemaCast.Proofs.Agreement.Basic

/-!
# Places that match

Two places match if their nodes are alike, apart from the nodes inside: these are related by a
relation of places that is left open. `Place.Matches` lists what a check or a cast of a value reads
at a place. What holds of all matching places whose inner places are related therefore serves for
one schema read twice as well as for two schemas that differ at some place deep inside.
-/
namespace SchemaCast

/-- The same policy, with related nodes. -/
inductive Policy.Alike {α β : Type} (R : α → β → Prop) : Policy α → Policy β → Prop where
  | reject : Alike R .reject .reject
  | allow : Alike R .allow .allow
  | schema {a : α} {b : β} (h : R a b) : Alike R (.schema a) (.schema b)

/-- A kind without nodes inside and without names. -/
def Kind.IsLeaf : Kind → Prop
  | .hash _ => False
  | .array _ => False
  | .combination .. => False
  | .reference _ => False
  | _ => True

section Places

variable (T : Tolerance) (context : Context) (P : Place → Place → Prop)

/-- Nodes that are related where two places own them. -/
def Place.Inside (place place' : Place) (node node' : Node) : Prop :=
  P ⟨node, place.inner⟩ ⟨node', place'.inner⟩

/-- Nodes that are related where two places own them, and that are asked for and written alike if
they are properties. -/
structure Place.SameProperty (place place' : Place) (node node' : Node) : Prop where
  inside : place.Inside P place' node node'
  requireKey : node.options.requireKey = node'.options.requireKey
  outputName : node.options.outputName = node'.options.outputName

/-- Two places of which an include takes the same: the properties of hashes, or the name of another
type. -/
inductive Place.SameOffer (target target' : Place) : Prop where
  | hash {rules rules' : HashRules} (left : target.node.kind = .hash rules)
      (right : target'.node.kind = .hash rules')
      (properties : Entries.Aligned (target.SameProperty P target') rules.properties
        rules'.properties)
  | other (left : ∀ rules, target.node.kind ≠ .hash rules)
      (right : ∀ rules, target'.node.kind ≠ .hash rules)
      (typeName : target.node.typeName = target'.node.typeName)

variable (place place' : Place)

/-- Rules of a hash at two places that differ in the nodes inside only. -/
structure HashRules.Matches (rules rules' : HashRules) : Prop where
  properties : Entries.Aligned (place.SameProperty P place') rules.properties rules'.properties
  patternFor? : ∀ key, Option.Rel (place.Inside P place') (rules.patternFor? key)
    (rules'.patternFor? key)
  additional : Policy.Alike (place.Inside P place') rules.additional rules'.additional
  propertyNames : rules.propertyNames = rules'.propertyNames
  dependencies : rules.dependencies = rules'.dependencies
  minProperties : rules.minProperties = rules'.minProperties
  maxProperties : rules.maxProperties = rules'.maxProperties
  ignored : rules.ignored = rules'.ignored
  includes : rules.includes = rules'.includes
  offers : ∀ name ∈ rules.includes, Option.Rel (Place.SameOffer P)
    (context.place? place.inner name) (context.place? place'.inner name)

/-- Rules of an array at two places that differ in the nodes inside only. -/
structure ArrayRules.Matches (rules rules' : ArrayRules) : Prop where
  parseText : rules.parseText = rules'.parseText
  keeps : ∀ item item', Json.Reordered T.free item item' → rules.keeps item = rules'.keeps item'
  minItems : rules.minItems = rules'.minItems
  maxItems : rules.maxItems = rules'.maxItems
  unique : rules.unique = rules'.unique
  wrongCount? : ∀ count, rules.wrongCount? count = rules'.wrongCount? count
  schemaAt? : ∀ index, Option.Rel (place.Inside P place') (rules.schemaAt? index)
    (rules'.schemaAt? index)
  contains : Option.Rel (place.Inside P place') rules.contains rules'.contains

/-- Kinds at two places that differ in the nodes inside only. -/
inductive Kind.Matches : Kind → Kind → Prop where
  | leaf {kind : Kind} (leaf : kind.IsLeaf) : Matches kind kind
  | hash {rules rules' : HashRules} (h : rules.Matches context P place place' rules') :
      Matches (.hash rules) (.hash rules')
  | array {rules rules' : ArrayRules} (h : rules.Matches T P place place' rules') :
      Matches (.array rules) (.array rules')
  | combination {combinator : Combinator} {alternatives alternatives' : List Node}
      {blankAsNull : Bool}
      (h : List.Forall₂ (place.Inside P place') alternatives alternatives') :
      Matches (.combination combinator alternatives blankAsNull)
        (.combination combinator alternatives' blankAsNull)
  | reference {name : String} (h : Option.Rel P (context.place? place.inner name)
      (context.place? place'.inner name)) : Matches (.reference name) (.reference name)

/-- Two places that differ in the nodes inside only. -/
structure Place.Matches : Prop where
  required : place.node.options.required = place'.node.options.required
  default? : place.node.default? = place'.node.default?
  allowed : place.node.options.allowed = place'.node.options.allowed
  kind : Kind.Matches T context P place place' place.node.kind place'.node.kind

end Places

/-! ### Kinds with related nodes inside -/

/-- The same shape of items, with related nodes. -/
inductive ItemShape.Alike (R : Node → Node → Prop) : ItemShape → ItemShape → Prop where
  | any : Alike R .any .any
  | list {node node' : Node} (h : R node node') : Alike R (.list node) (.list node')
  | tuple {positions positions' : List Node} (h : List.Forall₂ R positions positions') :
      Alike R (.tuple positions) (.tuple positions')

/-- Patterns that are equal, with related nodes. -/
def Node.SamePattern (R : Node → Node → Prop) (entry entry' : Pattern × Node) : Prop :=
  entry.1 = entry'.1 ∧ R entry.2 entry'.2

/-- The same kind, with related nodes inside. -/
inductive Kind.Alike (R : Node → Node → Prop) : Kind → Kind → Prop where
  | leaf {kind : Kind} (leaf : kind.IsLeaf) : Alike R kind kind
  | hash {rules : HashRules} {properties : List (String × Node)}
      {patternProperties : List (Pattern × Node)} {additional : Policy Node}
      (properties_alike : Entries.Aligned R rules.properties properties)
      (patterns_alike : List.Forall₂ (Node.SamePattern R) rules.patternProperties patternProperties)
      (additional_alike : Policy.Alike R rules.additional additional) :
      Alike R (.hash rules) (.hash { rules with properties, patternProperties, additional })
  | array {rules : ArrayRules} {items : ItemShape} {additional : Option (Policy Node)}
      {contains : Option Node} (items_alike : ItemShape.Alike R rules.items items)
      (additional_alike : Option.Rel (Policy.Alike R) rules.additional additional)
      (contains_alike : Option.Rel R rules.contains contains) :
      Alike R (.array rules) (.array { rules with items, additional, contains })
  | combination {combinator : Combinator} {alternatives alternatives' : List Node}
      {blankAsNull : Bool} (h : List.Forall₂ R alternatives alternatives') :
      Alike R (.combination combinator alternatives blankAsNull)
        (.combination combinator alternatives' blankAsNull)
  | reference {name : String} : Alike R (.reference name) (.reference name)

section Alike

variable {T : Tolerance} {context : Context} {P : Place → Place → Prop} {place place' : Place}
  {R : Node → Node → Prop}

theorem Policy.Alike.imp {α β : Type} {R R' : α → β → Prop} (himp : ∀ a b, R a b → R' a b)
    {policy : Policy α} {policy' : Policy β} (h : Policy.Alike R policy policy') :
    Policy.Alike R' policy policy' := by
  cases h with
  | reject => exact .reject
  | allow => exact .allow
  | schema h => exact .schema (himp _ _ h)

theorem forall₂_getElem? {α β : Type} {R : α → β → Prop} {items : List α} {items' : List β}
    (h : List.Forall₂ R items items') (index : Nat) :
    Option.Rel R items[index]? items'[index]? := by
  induction h generalizing index with
  | nil => exact .none
  | cons head _ ih =>
    cases index with
    | zero => exact .some head
    | succ index => exact ih index

theorem optionRel_imp {α β : Type} {R R' : α → β → Prop} (himp : ∀ a b, R a b → R' a b)
    {a : Option α} {b : Option β} (h : Option.Rel R a b) : Option.Rel R' a b := by
  cases h with
  | none => exact .none
  | some h => exact .some (himp _ _ h)

namespace HashRules

theorem patternFor?_alike {rules rules' : HashRules}
    (each : List.Forall₂ (Node.SamePattern R) rules.patternProperties rules'.patternProperties)
    (key : String) : Option.Rel R (rules.patternFor? key) (rules'.patternFor? key) := by
  unfold patternFor?
  generalize rules.patternProperties = entries at each
  generalize rules'.patternProperties = entries' at each
  induction each with
  | nil => exact .none
  | @cons entry entry' _ _ head _ ih =>
    obtain ⟨pattern, related⟩ := head
    rw [List.find?_cons, List.find?_cons, ← pattern]
    cases entry.1.isMatch key with
    | true => exact .some related
    | false => exact ih

end HashRules

namespace ArrayRules

variable {rules rules' : ArrayRules}

theorem tail_alike (additional : Option.Rel (Policy.Alike R) rules.additional rules'.additional) :
    Policy.Alike R rules.tail rules'.tail := by
  unfold tail
  revert additional
  cases rules.additional <;> cases rules'.additional <;> rintro ⟨⟩
  · exact .reject
  · assumption

theorem schemaAt?_alike (items : ItemShape.Alike R rules.items rules'.items)
    (additional : Option.Rel (Policy.Alike R) rules.additional rules'.additional) (index : Nat) :
    Option.Rel R (rules.schemaAt? index) (rules'.schemaAt? index) := by
  have tail := tail_alike additional
  unfold schemaAt?
  generalize rules.items = shape at items
  generalize rules'.items = shape' at items
  cases items with
  | any => exact .none
  | list h => exact .some h
  | @tuple positions positions' each =>
    have position := forall₂_getElem? each index
    dsimp only
    revert position
    cases positions[index]? <;> cases positions'[index]? <;> rintro ⟨⟩
    · generalize rules.tail = policy at tail
      generalize rules'.tail = policy' at tail
      cases tail with
      | reject => exact .none
      | allow => exact .none
      | schema h => exact .some h
    · next h => exact .some h

theorem wrongCount?_alike (items : ItemShape.Alike R rules.items rules'.items)
    (additional : Option.Rel (Policy.Alike R) rules.additional rules'.additional) (count : Nat) :
    rules.wrongCount? count = rules'.wrongCount? count := by
  have tail := tail_alike additional
  unfold wrongCount?
  generalize rules.items = shape at items
  generalize rules'.items = shape' at items
  cases items with
  | any => rfl
  | list h => rfl
  | tuple each =>
    dsimp only
    rw [each.length_eq]
    generalize rules.tail = policy at tail
    generalize rules'.tail = policy' at tail
    cases tail <;> rfl

end ArrayRules

theorem optionRel_self {α : Type} {R : α → α → Prop} {a : Option α} (h : ∀ x, a = some x → R x x) :
    Option.Rel R a a := by
  cases a with
  | none => exact .none
  | some x => exact .some (h x rfl)

theorem Policy.alike_self {policy : Policy Node} (h : ∀ node ∈ Node.ofPolicy policy, R node node) :
    Policy.Alike R policy policy := by
  cases policy with
  | reject => exact .reject
  | allow => exact .allow
  | schema node => exact .schema (h node (by simp [Node.ofPolicy]))

/-- The kind of a node is like itself, if the nodes that it owns are related to themselves. -/
theorem Node.alike_self {node : Node} (h : ∀ child ∈ node.children, R child child) :
    node.kind.Alike R node.kind := by
  cases kind : node.kind with
  | hash rules =>
    have properties : Entries.Aligned R rules.properties rules.properties :=
      .self fun entry mem => h _ (mem_children_of_property kind mem)
    have patterns :
        List.Forall₂ (SamePattern R) rules.patternProperties rules.patternProperties := by
      refine List.forall₂_same.mpr fun entry mem => ⟨rfl, h _ ?_⟩
      simp only [children, kind, List.mem_append, List.mem_map]
      exact .inl (.inr ⟨entry, mem, rfl⟩)
    have additional : Policy.Alike R rules.additional rules.additional := by
      refine Policy.alike_self fun child mem => h child ?_
      simp [children, kind, mem]
    cases rules
    exact .hash properties patterns additional
  | array rules =>
    have items : ItemShape.Alike R rules.items rules.items := by
      cases shape : rules.items with
      | any => exact .any
      | list item => exact .list (h item (by simp [children, kind, shape]))
      | tuple positions =>
        refine .tuple (List.forall₂_same.mpr fun child mem => h child ?_)
        simp [children, kind, shape, mem]
    have additional : Option.Rel (Policy.Alike R) rules.additional rules.additional := by
      refine optionRel_self fun policy found => Policy.alike_self fun child mem => h child ?_
      simp [children, kind, found, mem]
    have contains : Option.Rel R rules.contains rules.contains :=
      optionRel_self fun child found => h child (mem_children_of_contains kind found)
    cases rules
    exact .array items additional contains
  | combination combinator alternatives blankAsNull =>
    exact .combination (List.forall₂_same.mpr fun child mem => h child (by simpa [children, kind]))
  | reference name => exact .reference
  | _ => exact .leaf trivial

/-- Places of which the kinds are alike match, if the nodes inside are related and names lead to
related places. -/
theorem Kind.Alike.matches {kind kind' : Kind} (alike : kind.Alike R kind')
    (inside : ∀ node node', R node node' → place.SameProperty P place' node node')
    (offers : ∀ rules, kind = .hash rules → ∀ name ∈ rules.includes,
      Option.Rel (Place.SameOffer P) (context.place? place.inner name)
        (context.place? place'.inner name))
    (keeps : ∀ rules, kind = .array rules → ∀ item item', Json.Reordered T.free item item' →
      rules.keeps item = rules.keeps item')
    (leads : ∀ name, kind = .reference name →
      Option.Rel P (context.place? place.inner name) (context.place? place'.inner name)) :
    kind.Matches T context P place place' kind' := by
  have owned (node node' : Node) (h : R node node') : place.Inside P place' node node' :=
    (inside node node' h).inside
  cases alike with
  | leaf leaf => exact .leaf leaf
  | @hash rules properties patternProperties additional properties_alike patterns_alike
      additional_alike =>
    refine .hash ⟨properties_alike.imp inside, fun key => ?_, additional_alike.imp owned, rfl, rfl,
      rfl, rfl, rfl, rfl, offers rules rfl⟩
    exact optionRel_imp owned (HashRules.patternFor?_alike patterns_alike key)
  | @array rules items additional contains items_alike additional_alike contains_alike =>
    refine .array ⟨rfl, keeps rules rfl, rfl, rfl, rfl, fun count => ?_, fun index => ?_, ?_⟩
    · exact ArrayRules.wrongCount?_alike items_alike additional_alike count
    · exact optionRel_imp owned
        (ArrayRules.schemaAt?_alike items_alike additional_alike index)
    · exact optionRel_imp owned contains_alike
  | combination h => exact .combination (h.imp owned)
  | reference => exact .reference (leads _ rfl)

/-- Places of which the kinds are alike offer the same to an include. -/
theorem Kind.Alike.sameOffer (alike : place.node.kind.Alike R place'.node.kind)
    (inside : ∀ node node', R node node' → place.SameProperty P place' node node') :
    place.SameOffer P place' := by
  cases left : place.node.kind with
  | hash rules =>
    rw [left] at alike
    generalize right : place'.node.kind = kind' at alike
    cases alike with
    | leaf leaf => cases leaf
    | hash properties_alike => exact .hash left right (properties_alike.imp inside)
  | _ =>
    rw [left] at alike
    generalize right : place'.node.kind = kind' at alike
    cases alike <;>
    exact .other (by simp [left]) (by simp [right])
      (by simp [Node.typeName, Kind.typeName, left, right])

end Alike

namespace Kind.Matches

variable {T : Tolerance} {context : Context} {P : Place → Place → Prop} {place place' : Place}
  {kind kind' : Kind}

theorem accepts_eq (h : Matches T context P place place' kind kind') {value value' : Json}
    (same : Json.Reordered T.free value value') : kind.accepts value = kind'.accepts value' := by
  cases h with
  | leaf => cases kind <;> simp only [accepts, same.covers_eq]
  | hash => simp only [accepts, same.covers_eq]
  | array h => simp only [accepts, same.covers_eq, h.parseText]
  | combination => rfl
  | reference => rfl

end Kind.Matches

namespace Place.Matches

variable {T : Tolerance} {context : Context} {P : Place → Place → Prop} {place place' : Place}

theorem seen_reordered (h : place.Matches T context P place') {value value' : Json}
    (same : Json.Reordered T.free value value') :
    Json.Reordered T.free (place.node.seen value) (place'.node.seen value') := by
  have kinds := h.kind
  unfold Node.seen
  generalize place.node.kind = kind at kinds
  generalize place'.node.kind = kind' at kinds
  cases kinds with
  | leaf leaf => cases kind <;> first | exact same | cases leaf
  | hash => exact same
  | array => exact same
  | reference => exact same
  | @combination _ _ _ blankAsNull =>
    cases blankAsNull with
    | false => exact same
    | true =>
      have blank : Json.Reordered T.free (if value.isBlank then .null else value)
          (if value'.isBlank then .null else value') := by
        rw [same.isBlank_eq]
        split
        · exact .refl .null
        · exact same
      cases same with
      | refl value => cases value <;> exact .refl _
      | arr => exact blank
      | obj => exact blank

/-- A value is missing, refused or looked at further on both sides. -/
theorem present_agrees (h : place.Matches T context P place') {value value' : Json}
    (same : Json.Reordered T.free value value') :
    (place.node.present value = .error none ∧ place'.node.present value' = .error none) ∨
      (∃ violation violation', place.node.present value = .error (some violation) ∧
        place'.node.present value' = .error (some violation')) ∨
      ∃ seen seen', place.node.present value = .ok seen ∧ place'.node.present value' = .ok seen' ∧
        Json.Reordered T.free seen seen' := by
  have accepted {seen seen' : Json} (same : Json.Reordered T.free seen seen') :=
    h.kind.accepts_eq same
  have seen := h.seen_reordered same
  have null := seen.isNull_eq
  unfold Node.present
  by_cases missing : (place.node.seen value).isNull
  · by_cases required : place.node.options.required
    · simp [missing, ← null, required, ← h.required]
    · cases found : place.node.default? with
      | none => simp [missing, ← null, required, ← h.required, found, ← h.default?]
      | some default =>
        have := accepted (.refl default)
        by_cases accepts : place.node.kind.accepts default
        · simp [missing, ← null, required, ← h.required, found, ← h.default?, accepts, ← this,
            Json.Reordered.refl]
        · simp [missing, ← null, required, ← h.required, found, ← h.default?, accepts, ← this]
  · have := accepted seen
    by_cases accepts : place.node.kind.accepts (place.node.seen value)
    · simp [missing, ← null, accepts, ← this, seen]
    · simp [missing, ← null, accepts, ← this]

theorem notAllowed?_eq_none (h : place.Matches T context P place') {value value' : Json}
    (same : Json.Reordered T.free value value') :
    place.node.notAllowed? value = none ↔ place'.node.notAllowed? value' = none := by
  simp only [Node.notAllowed?_eq_none, ← h.allowed, same.beq_right]

end Place.Matches

end SchemaCast
