import SchemaCast.Proofs.Simulation.Validation

/-!
# Casts by related inner nodes

Two casts of one value at one place, with inner checks and inner casts that a simulation relates,
are related as well. The lemmas follow the definitions in `Casting`, kind by kind.
-/
namespace SchemaCast

namespace Simulation

variable {σ τ : Type} (S : Simulation σ τ) {context : Context} {r : Resolver σ}
  {r' : Resolver τ} {place : Place} {checkNode : NodeCheck σ} {checkNode' : NodeCheck τ}
  {castNode : NodeCast σ} {castNode' : NodeCast τ}

theorem run_castProperties {scope : Scope σ} {scope' : Scope τ} (fields : Entries Json)
    (properties : List (String × Node)) (output : Entries Json)
    (h : ∀ entry ∈ properties, ∀ value,
      S.run Eq (castNode entry.2 value scope) (castNode' entry.2 value scope')) :
    S.run Eq (HashRules.castProperties castNode fields scope output properties)
      (HashRules.castProperties castNode' fields scope' output properties) := by
  induction properties generalizing output with
  | nil => exact S.run_pure rfl
  | cons entry rest ih =>
    have property : S.run Eq (HashRules.castProperty castNode fields scope output entry)
        (HashRules.castProperty castNode' fields scope' output entry) := by
      refine S.run_bind (h entry (by simp) _) ?_
      intro result _ same
      subst same
      split <;> exact S.run_pure rfl
    refine S.run_bind property ?_
    intro next _ same
    subst same
    exact ih next fun other hother => h other (by simp [hother])

section Inner

variable (serves : S.Serves context r r' place)
  (checks : ∀ target, place.Step context target → ∀ value, S.check (fun _ _ => True)
    (checkNode target.node value (target.scope r))
    (checkNode' target.node value (target.scope r')))
  (casts : ∀ target, place.Step context target → ∀ value, S.run Eq
    (castNode target.node value (target.scope r))
    (castNode' target.node value (target.scope r')))

include serves casts in
theorem run_castIncludes {rules : HashRules} (kind : place.node.kind = .hash rules)
    (fields output : Entries Json) (names taken : List String)
    (listed : ∀ name ∈ names, name ∈ rules.includes) :
    S.run Eq (rules.castIncludes castNode fields ⟨r, place.inner⟩ taken output names)
      (rules.castIncludes castNode' fields ⟨r', place.inner⟩ taken output names) := by
  induction names generalizing taken output with
  | nil => exact S.run_pure rfl
  | cons name rest ih =>
    refine S.run_bind (S.run_includedBy serves kind (listed name (by simp)) taken) ?_
    rintro ⟨properties, _⟩ ⟨_, _⟩ ⟨rfl, target, rfl, rfl, steps⟩
    refine S.run_bind (S.run_castProperties fields properties output fun entry hentry value =>
      casts _ (steps entry hentry) value) ?_
    intro next _ same
    subst same
    exact ih next _ fun other hother => listed other (by simp [hother])

include casts in
/-- Casting by an owned node gives the same on both sides. -/
theorem run_child {node : Node} (owned : node ∈ place.node.children) (value : Json) :
    S.run Eq (castNode node value ⟨r, place.inner⟩) (castNode' node value ⟨r', place.inner⟩) :=
  casts _ (.child owned) value

include casts in
theorem run_castExtras {rules : HashRules} (kind : place.node.kind = .hash rules)
    (output extras : Entries Json) :
    S.run Eq (rules.castExtras castNode ⟨r, place.inner⟩ output extras)
      (rules.castExtras castNode' ⟨r', place.inner⟩ output extras) := by
  induction extras generalizing output with
  | nil => exact S.run_pure rfl
  | cons field rest ih =>
    have extra : S.run Eq (rules.castExtra castNode ⟨r, place.inner⟩ output field)
        (rules.castExtra castNode' ⟨r', place.inner⟩ output field) := by
      unfold HashRules.castExtra
      cases found : rules.patternFor? field.1 with
      | some node =>
        have owned := place.node.mem_children_of_patternFor? kind found
        refine S.run_bind (S.run_child casts owned _) ?_
        intro result _ same
        subst same
        exact S.run_pure rfl
      | none =>
        cases policy : rules.additional with
        | allow => exact S.run_pure rfl
        | schema node =>
          have owned := place.node.mem_children_of_additional kind policy
          refine S.run_bind (S.run_child casts owned _) ?_
          intro result _ same
          subst same
          exact S.run_pure rfl
        | reject => exact S.run_pure rfl
    refine S.run_bind extra ?_
    intro next _ same
    subst same
    exact ih next

include serves casts in
theorem run_castHash {rules : HashRules} (kind : place.node.kind = .hash rules)
    (fields : Entries Json) :
    S.run Eq (rules.cast castNode fields ⟨r, place.inner⟩)
      (rules.cast castNode' fields ⟨r', place.inner⟩) := by
  refine S.run_bind (S.run_castProperties fields _ _ fun entry hentry =>
    S.run_child casts (place.node.mem_children_of_property kind hentry)) ?_
  intro output _ same
  subst same
  refine S.run_bind (S.run_castIncludes serves casts kind fields output _ _ fun _ h => h) ?_
  rintro ⟨output, taken⟩ _ rfl
  refine S.run_bind (S.run_castExtras casts kind output _) ?_
  intro output _ same
  subst same
  exact S.run_pure rfl

include casts in
theorem run_castByPlace {rules : ArrayRules} (kind : place.node.kind = .array rules)
    (index : Nat) (item : Json) :
    S.run Eq (rules.castByPlace castNode ⟨r, place.inner⟩ index item)
      (rules.castByPlace castNode' ⟨r', place.inner⟩ index item) := by
  unfold ArrayRules.castByPlace
  cases found : rules.schemaAt? index with
  | some node => exact S.run_child casts (place.node.mem_children_of_schemaAt? kind found) item
  | none => exact S.run_pure rfl

include checks casts in
theorem run_castItems {rules : ArrayRules} (kind : place.node.kind = .array rules)
    (index : Nat) (items : List Json) :
    S.run Eq (rules.castItems checkNode castNode ⟨r, place.inner⟩ index items)
      (rules.castItems checkNode' castNode' ⟨r', place.inner⟩ index items) := by
  induction items generalizing index with
  | nil => exact S.run_pure rfl
  | cons item rest ih =>
    have first : S.run Eq (rules.castItem checkNode castNode ⟨r, place.inner⟩ index item)
        (rules.castItem checkNode' castNode' ⟨r', place.inner⟩ index item) := by
      unfold ArrayRules.castItem
      cases found : rules.contains with
      | none => exact S.run_castByPlace casts kind index item
      | some node =>
        have owned := place.node.mem_children_of_contains kind found
        refine S.run_bind (S.run_trial (checks _ (.child owned) item)) ?_
        intro log _ same
        subst same
        split
        · exact S.run_child casts owned item
        · exact S.run_castByPlace casts kind index item
    refine S.run_bind first ?_
    intro result _ same
    subst same
    refine S.run_bind (ih (index + 1)) ?_
    intro results _ same
    subst same
    exact S.run_pure rfl

include checks casts in
theorem run_castArray {rules : ArrayRules} (kind : place.node.kind = .array rules)
    (value : Json) :
    S.run Eq (rules.cast checkNode castNode value ⟨r, place.inner⟩)
      (rules.cast checkNode' castNode' value ⟨r', place.inner⟩) := by
  unfold ArrayRules.cast
  cases rules.elements value with
  | error violation => exact S.run_pure rfl
  | ok elements =>
    refine S.run_bind (S.run_castItems checks casts kind 0 _) ?_
    intro results _ same
    subst same
    exact S.run_pure rfl

include checks casts in
theorem run_castAll (value output : Json) (alternatives : List Node)
    (owned : ∀ node ∈ alternatives, node ∈ place.node.children) :
    S.run Eq
      (Combinator.castAll checkNode castNode value ⟨r, place.inner⟩ output alternatives)
      (Combinator.castAll checkNode' castNode' value ⟨r', place.inner⟩ output alternatives) := by
  induction alternatives generalizing output with
  | nil => exact S.run_pure rfl
  | cons node rest ih =>
    have later : ∀ other ∈ rest, other ∈ place.node.children :=
      fun other hother => owned other (by simp [hother])
    refine S.run_bind (S.run_trial (checks _ (.child (owned node (by simp))) value)) ?_
    intro log _ same
    subst same
    split
    · refine S.run_bind (S.run_child casts (owned node (by simp)) output) ?_
      intro next _ same
      subst same
      exact ih next later
    · exact ih output later

include checks casts in
theorem run_castFirst (value : Json) (alternatives : List Node)
    (owned : ∀ node ∈ alternatives, node ∈ place.node.children) :
    S.run Eq (Combinator.castFirst checkNode castNode value ⟨r, place.inner⟩ alternatives)
      (Combinator.castFirst checkNode' castNode' value ⟨r', place.inner⟩ alternatives) := by
  induction alternatives with
  | nil => exact S.run_pure rfl
  | cons node rest ih =>
    refine S.run_bind (S.run_trial (checks _ (.child (owned node (by simp))) value)) ?_
    intro log _ same
    subst same
    split
    · exact S.run_child casts (owned node (by simp)) value
    · exact ih fun other hother => owned other (by simp [hother])

include serves checks casts in
theorem run_castKind (value : Json) :
    S.run Eq (place.node.kind.cast checkNode castNode value ⟨r, place.inner⟩)
      (place.node.kind.cast checkNode' castNode' value ⟨r', place.inner⟩) := by
  cases kind : place.node.kind with
  | string rules => exact S.run_pure rfl
  | integer rules => exact S.run_pure rfl
  | number rules => exact S.run_pure rfl
  | boolean castText => exact S.run_pure rfl
  | symbol => exact S.run_pure rfl
  | object classes => exact S.run_pure rfl
  | hash rules =>
    cases value with
    | obj fields => exact S.run_castHash serves casts kind fields
    | _ => exact S.run_pure rfl
  | array rules => exact S.run_castArray checks casts kind value
  | combination combinator alternatives blankAsNull =>
    have owned : ∀ node ∈ alternatives, node ∈ place.node.children := by
      simp [Node.children, kind]
    cases combinator with
    | allOf => exact S.run_castAll checks casts value value alternatives owned
    | anyOf => exact S.run_castFirst checks casts value alternatives owned
    | oneOf => exact S.run_castFirst checks casts value alternatives owned
    | not => exact S.run_pure rfl
  | reference target =>
    refine S.run_bind (serves.target target (by simp [Kind.referenced, kind])) ?_
    intro _ _ h
    obtain ⟨found, leads, rfl, rfl⟩ := h
    exact casts _ (.reference kind leads) value

include serves checks casts in
/-- A simulation that relates the checks and casts of the inner nodes of a place relates the casts
of the place. -/
theorem castWith_related (value : Json) :
    S.run Eq (place.node.castWith checkNode castNode value (place.scope r))
      (place.node.castWith checkNode' castNode' value (place.scope r')) := by
  unfold Node.castWith
  rw [place.enter_scope, place.enter_scope]
  dsimp only
  split
  · exact S.run_castKind serves checks casts _
  · exact S.run_pure rfl

end Inner

section Whole

variable {P : Place → Prop}
  (closed : ∀ place target, P place → place.Step context target → P target)
  (serves : ∀ place, P place → S.Serves context r r' place)
  (exhausted : ∀ {α β : Type} {V : α → β → Prop}, S.run V Run.exhausted Run.exhausted)

include closed serves exhausted in
/-- Whole validations are related at every place of a set that no step leaves. -/
theorem check_related (fuel : Nat) (place : Place) (h : P place) (value : Json) :
    S.check (fun _ _ => True) (place.node.check fuel value (place.scope r))
      (place.node.check fuel value (place.scope r')) := by
  induction fuel generalizing place value with
  | zero => exact S.check_ofRun exhausted
  | succ fuel ih =>
    exact S.checkWith_related (serves place h)
      (fun target step value => ih target (closed place target h step) value) value

include closed serves exhausted in
theorem validate_related (fuel : Nat) (place : Place) (h : P place) (value : Json) :
    S.run Eq (place.validate fuel r value) (place.validate fuel r' value) :=
  S.run_trial (S.check_related closed serves exhausted fuel place h value)

include closed serves exhausted in
/-- Whole casts are related at every place of a set that no step leaves. -/
theorem cast_related (fuel : Nat) (place : Place) (h : P place) (value : Json) :
    S.run Eq (place.cast fuel r value) (place.cast fuel r' value) := by
  induction fuel generalizing place value with
  | zero => exact exhausted
  | succ fuel ih =>
    exact S.castWith_related (serves place h)
      (fun target step value =>
        S.check_related closed serves exhausted fuel target (closed place target h step) value)
      (fun target step value => ih target (closed place target h step) value) value

end Whole

end Simulation

end SchemaCast
