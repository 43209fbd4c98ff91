import SchemaCast.Proofs.Entries
import SchemaCast.Schema.Build

/-!
# Well-formed schemas

The rules of a node are well-formed if no value is shut out by bounds that cross, every step is a
positive number, every name is there, and a combinator has the alternatives that it takes. The check
that every new node has to pass accepts just these rules. A schema is well-formed if the rules of
all its nodes are.
-/
namespace SchemaCast

/-- The length of a string is not bounded from below by more than from above. -/
structure StringRules.WellFormed (rules : StringRules) : Prop where
  length : ∀ lower ∈ rules.minLength, ∀ upper ∈ rules.maxLength, lower ≤ upper

/-- No lower bound of a number, inclusive or exclusive, is above an upper one, and a step is a
positive number. -/
structure NumericRules.WellFormed (rules : NumericRules) : Prop where
  bounds : ∀ lower ∈ [rules.minimum, rules.exclusiveMinimum],
    ∀ upper ∈ [rules.maximum, rules.exclusiveMaximum],
      ∀ l ∈ lower, ∀ u ∈ upper, u.lt l = false
  step : ∀ step ∈ rules.multipleOf, Number.Exact.zero.lt step ∧ step.isFinite

/-- The rules of a hash do not contradict one another, and all names in them are there. -/
structure HashRules.WellFormed (rules : HashRules) : Prop where
  patterns : ∀ entry ∈ rules.patternProperties, entry.2.options.required = false
  policies : rules.additional = .allow → rules.ignored ≠ .all
  count : ∀ lower ∈ rules.minProperties, ∀ upper ∈ rules.maxProperties, lower ≤ upper
  dependencies : ∀ entry ∈ rules.dependencies, entry.1 ≠ "" ∧ "" ∉ entry.2
  includes : "" ∉ rules.includes

/-- Only a tuple has a tail, and the length is not bounded from below by more than from above. -/
structure ArrayRules.WellFormed (rules : ArrayRules) : Prop where
  tail : ∀ policy, rules.additional = some policy → ∃ positions, rules.items = .tuple positions
  length : ∀ lower ∈ rules.minItems, ∀ upper ∈ rules.maxItems, lower ≤ upper

/-- The rules of a kind make sense. -/
def Kind.WellFormed : Kind → Prop
  | .string rules => rules.WellFormed
  | .integer rules => rules.WellFormed
  | .number rules => rules.WellFormed
  | .hash rules => rules.WellFormed
  | .array rules => rules.WellFormed
  | .combination .anyOf alternatives _ => 1 ≤ alternatives.length
  | .combination .oneOf alternatives _ => 2 ≤ alternatives.length
  | .combination .not alternatives _ => alternatives.length = 1
  | .combination .allOf _ _ => True
  | .reference target => target ≠ ""
  | .boolean _ => True
  | .symbol => True
  | .object _ => True

/-! ### What the checks accept -/

namespace Built

variable {α : Type} {next : Built α} {a : α} {c : Prop} [Decidable c] {error : SchemaError}

theorem andThen_eq_ok {first : Built Unit} :
    (do first; next) = .ok a ↔ first = .ok () ∧ next = .ok a := by
  cases first <;> simp [bind, Except.bind]

theorem guard_eq_ok : (if c then throw error else pure () : Built Unit) = .ok () ↔ ¬ c := by
  split <;> simp_all [throw, throwThe, MonadExceptOf.throw, pure, Except.pure]

theorem test_eq_ok : (if c then pure () else throw error : Built Unit) = .ok () ↔ c := by
  split <;> simp_all [throw, throwThe, MonadExceptOf.throw, pure, Except.pure]

theorem guard_andThen_eq_ok :
    (if c then (do throw error; next) else next) = .ok a ↔ ¬ c ∧ next = .ok a := by
  split <;> simp_all [throw, throwThe, MonadExceptOf.throw, bind, Except.bind]

end Built

theorem checkBounds_eq_ok_iff {α : Type} {lowerName upperName : String} {isAbove : α → α → Bool}
    {lower upper : Option α} :
    checkBounds lowerName upperName isAbove lower upper = .ok () ↔
      ∀ l ∈ lower, ∀ u ∈ upper, isAbove l u = false := by
  cases lower with
  | none => simp [checkBounds, pure, Except.pure]
  | some l =>
    cases upper with
    | none => simp [checkBounds, pure, Except.pure]
    | some u => simp [checkBounds, Built.guard_eq_ok]

theorem checkBounds_natAbove_iff {lowerName upperName : String} {lower upper : Option Nat} :
    checkBounds lowerName upperName natAbove lower upper = .ok () ↔
      ∀ l ∈ lower, ∀ u ∈ upper, l ≤ u := by
  simp [checkBounds_eq_ok_iff, natAbove]

theorem StringRules.check_eq_ok_iff (rules : StringRules) :
    rules.check = .ok () ↔ rules.WellFormed := by
  rw [check, checkBounds_natAbove_iff]
  exact ⟨fun h => ⟨h⟩, fun h => h.length⟩

theorem NumericRules.check_eq_ok_iff (rules : NumericRules) :
    rules.check = .ok () ↔ rules.WellFormed := by
  obtain ⟨minimum, maximum, exclusiveMinimum, exclusiveMaximum, multipleOf, castText⟩ := rules
  simp only [check, Built.andThen_eq_ok, checkBounds_eq_ok_iff, exactAbove]
  -- Each lower bound has a check with the inclusive upper bound and one with the exclusive one.
  constructor
  · rintro ⟨minimum, minimumBelow, exclusive, exclusiveBelow, step⟩
    refine ⟨?_, ?_⟩
    · simpa only [List.forall_mem_cons, List.not_mem_nil, false_imp_iff, forall_const, and_true]
        using And.intro (And.intro minimum minimumBelow) (And.intro exclusive exclusiveBelow)
    · rintro _ ⟨⟩
      simpa using Built.test_eq_ok.mp step
  · rintro ⟨bounds, step⟩
    simp only [List.forall_mem_cons] at bounds
    obtain ⟨⟨minimum, minimumBelow, -⟩, ⟨exclusive, exclusiveBelow, -⟩, -⟩ := bounds
    refine ⟨minimum, minimumBelow, exclusive, exclusiveBelow, ?_⟩
    cases multipleOf with
    | none => rfl
    | some value => exact Built.test_eq_ok.mpr (by simpa using step value rfl)

theorem HashRules.admitsAll_iff (rules : HashRules) :
    rules.admitsAll = true ↔ rules.additional = .allow := by
  unfold admitsAll
  cases rules.additional <;> simp

theorem HashRules.check_eq_ok_iff (rules : HashRules) :
    rules.check = .ok () ↔ rules.WellFormed := by
  have patterns : rules.patternProperties.find? (fun entry => entry.2.options.required) = none ↔
      ∀ entry ∈ rules.patternProperties, entry.2.options.required = false := by
    simp
  cases found : rules.patternProperties.find? fun entry => entry.2.options.required with
  | some entry =>
    rw [found] at patterns
    constructor
    · intro passed
      simp only [check, found, Built.andThen_eq_ok] at passed
      cases passed.1
    · intro wellFormed
      cases patterns.mpr wellFormed.patterns
  | none =>
    rw [found] at patterns
    simp only [check, found, Built.guard_andThen_eq_ok, Built.andThen_eq_ok,
      checkBounds_natAbove_iff, Built.guard_eq_ok]
    constructor
    · rintro ⟨policies, count, dependencies, includes⟩
      refine ⟨patterns.mp rfl, ?_, count, ?_, ?_⟩
      · simpa [admitsAll_iff] using policies
      · simpa [not_or] using dependencies
      · simpa using includes
    · rintro ⟨_, policies, count, dependencies, includes⟩
      refine ⟨?_, count, ?_, ?_⟩
      · simpa [admitsAll_iff] using policies
      · simpa [not_or] using dependencies
      · simpa using includes

theorem ArrayRules.check_eq_ok_iff (rules : ArrayRules) :
    rules.check = .ok () ↔ rules.WellFormed := by
  have refused {policy : Policy Node} (tail : rules.additional = some policy)
      (other : ∀ positions, rules.items ≠ .tuple positions) : ¬ rules.WellFormed := by
    intro wellFormed
    obtain ⟨positions, tuple⟩ := wellFormed.tail policy tail
    exact other positions tuple
  cases tail : rules.additional with
  | none =>
    simp only [check, tail, checkBounds_natAbove_iff]
    exact ⟨fun length => ⟨by simp [tail], length⟩, fun wellFormed => wellFormed.length⟩
  | some policy =>
    cases items : rules.items with
    | tuple positions =>
      simp only [check, tail, items, checkBounds_natAbove_iff]
      exact ⟨fun length => ⟨fun _ _ => ⟨positions, items⟩, length⟩,
        fun wellFormed => wellFormed.length⟩
    | _ =>
      simp only [check, tail, items, Built.andThen_eq_ok]
      exact ⟨fun passed => (nomatch passed.1), fun h => absurd h (refused tail (by simp [items]))⟩

theorem Kind.check_eq_ok_iff (kind : Kind) : kind.check = .ok () ↔ kind.WellFormed := by
  cases kind with
  | string rules => exact rules.check_eq_ok_iff
  | integer rules => exact rules.check_eq_ok_iff
  | number rules => exact rules.check_eq_ok_iff
  | hash rules => exact rules.check_eq_ok_iff
  | array rules => exact rules.check_eq_ok_iff
  | combination combinator alternatives _ =>
    rw [check, Built.test_eq_ok]
    cases combinator <;> simp [WellFormed, Combinator.takes]
  | reference target => simp [check, WellFormed, Built.guard_eq_ok]
  | _ => exact ⟨fun _ => trivial, fun _ => rfl⟩

/-! ### Schemas -/

/-- A schema of which all nodes have rules that make sense, those of its definitions included. -/
inductive Node.WellFormed : Node → Prop where
  | intro {node : Node} (rules : node.kind.WellFormed)
      (children : ∀ child ∈ node.children, child.WellFormed)
      (definitions : ∀ entry ∈ node.definitions, entry.2.WellFormed) : WellFormed node

namespace Node

variable {node other : Node}

theorem WellFormed.rules (h : node.WellFormed) : node.kind.WellFormed := by
  cases h
  assumption

theorem WellFormed.children (h : node.WellFormed) : ∀ child ∈ node.children, child.WellFormed := by
  cases h
  assumption

theorem WellFormed.definitions (h : node.WellFormed) :
    ∀ entry ∈ node.definitions, entry.2.WellFormed := by
  cases h
  assumption

/-- Only the rules of a node and its definitions count. -/
theorem WellFormed.congr (h : node.WellFormed) (kind : other.kind = node.kind)
    (definitions : other.definitions = node.definitions) : other.WellFormed := by
  have children : other.children = node.children := by simp only [Node.children, kind]
  exact .intro (kind ▸ h.rules) (children ▸ h.children) (definitions ▸ h.definitions)

theorem WellFormed.named (h : node.WellFormed) (name : String) : (node.named name).WellFormed :=
  h.congr rfl rfl

theorem WellFormed.withDefinition (h : node.WellFormed) (declared : other.WellFormed)
    (name : String) : (node.withDefinition name other).WellFormed := by
  refine .intro h.rules h.children fun entry mem => ?_
  rcases Entries.mem_of_mem_insert mem with rfl | mem
  · exact declared
  · exact h.definitions entry mem

/-- A node is built out of well-formed rules, and out of no other ones. -/
theorem ofParts_eq_ok_iff {options : NodeOptions} {kind : Kind} :
    ofParts options kind = .ok node ↔ kind.WellFormed ∧ node = ⟨options, kind⟩ := by
  have made : (pure ⟨options, kind⟩ : Built Node) = .ok node ↔ node = ⟨options, kind⟩ :=
    ⟨fun h => by cases h; rfl, fun h => h ▸ rfl⟩
  rw [ofParts, Built.andThen_eq_ok, kind.check_eq_ok_iff, made]

theorem wellFormed_of_ofParts {options : NodeOptions} {kind : Kind}
    (h : ofParts options kind = .ok node)
    (children : ∀ child ∈ (⟨options, kind⟩ : Node).children, child.WellFormed)
    (definitions : ∀ entry ∈ options.definitions, entry.2.WellFormed) : node.WellFormed := by
  obtain ⟨rules, rfl⟩ := ofParts_eq_ok_iff.mp h
  exact .intro rules children definitions

end Node

end SchemaCast
