import SchemaCast.Proofs.Agreement.Match

/-!
# Checks at matching places

Checks of reordered values at matching places agree if the checks of inner nodes do. The lemmas
follow the definitions in `Validation`, kind by kind.
-/
namespace SchemaCast

variable {T : Tolerance} {context : Context} {P : Place → Place → Prop} {place place' : Place}
  {checkNode checkNode' : NodeCheck Unit}

/-! ### Rules without inner nodes -/

theorem isGiven_eq {free : Prop} {fields fields' : Entries Json}
    (same : Json.ReorderedFields free fields fields') (key : String) :
    isGiven fields key = isGiven fields' key := by
  have related := same.get? key
  unfold isGiven
  revert related
  cases fields.get? key <;> cases fields'.get? key <;> rintro ⟨⟩
  · rfl
  · next h => simp [h.isNull_eq]

theorem hasDuplicates_eq {free : Prop} {items items' : List Json}
    (same : List.Forall₂ (Json.Reordered free) items items') :
    hasDuplicates items = hasDuplicates items' := by
  induction same with
  | nil => rfl
  | @cons item item' rest rest' head tail ih =>
    have any : rest.any (·.beq item) = rest'.any (·.beq item') := by
      clear ih
      induction tail with
      | nil => rfl
      | cons other _ ih =>
        rw [List.any_cons, List.any_cons, ih, head.beq_right, other.beq_left]
    simp only [hasDuplicates, any, ih]

theorem NumericRules.violations_agree (rules : NumericRules) (integer : Bool) {free : Prop}
    {value value' : Json} (same : Json.Reordered free value value') :
    rules.violations integer value = rules.violations integer value' := by
  cases same <;> rfl

theorem Truth.violations_agree {free : Prop} {value value' : Json}
    (same : Json.Reordered free value value') :
    Truth.violations value = Truth.violations value' := by
  cases same <;> rfl

namespace HashRules

variable {rules rules' : HashRules} {fields fields' : Entries Json}

theorem sizeViolations_agree (matching : rules.Matches context P place place' rules')
    (same : Json.ReorderedFields T.free fields fields') :
    rules.sizeViolations fields = [] ↔ rules'.sizeViolations fields' = [] := by
  have distinct := same.keys_perm.pairwise_iff
    (R := fun key other => foldKey key ≠ foldKey other) fun h => h.symm
  rw [sizeViolations_eq_nil, sizeViolations_eq_nil, distinct, same.length_eq,
    matching.minProperties, matching.maxProperties]

theorem nameViolations_agree (matching : rules.Matches context P place place' rules')
    (same : Json.ReorderedFields T.free fields fields') :
    rules.nameViolations fields = [] ↔ rules'.nameViolations fields' = [] := by
  have byKey (rules : HashRules) (fields : Entries Json) : rules.nameViolations fields = [] ↔
      ∀ key ∈ fields.keys, ∀ pattern ∈ rules.propertyNames, pattern.isMatch key := by
    rw [nameViolations_eq_nil, Entries.keys, List.forall_mem_map]
  rw [byKey, byKey, matching.propertyNames]
  simp only [same.keys_perm.mem_iff]

theorem dependencyViolations_agree (matching : rules.Matches context P place place' rules')
    (same : Json.ReorderedFields T.free fields fields') :
    rules.dependencyViolations fields = [] ↔ rules'.dependencyViolations fields' = [] := by
  simp only [dependencyViolations_eq_nil, matching.dependencies, isGiven_eq same]

theorem declares_eq (matching : rules.Matches context P place place' rules') (key : String) :
    rules.declares key = rules'.declares key :=
  matching.properties.contains_eq key

theorem extras_agree (matching : rules.Matches context P place place' rules')
    (same : Json.ReorderedFields T.free fields fields') (taken : List String) :
    Json.ReorderedFields T.free (rules.extras taken fields) (rules'.extras taken fields') := by
  unfold extras
  simp only [declares_eq matching]
  exact same.filter fun key => !rules'.declares key && !taken.contains key

end HashRules

namespace ArrayRules

variable {rules rules' : ArrayRules}

theorem sizeViolations_agree (matching : rules.Matches T P place place' rules')
    {items items' : List Json} (same : List.Forall₂ (Json.Reordered T.free) items items') :
    rules.sizeViolations items = rules'.sizeViolations items' := by
  unfold sizeViolations
  rw [matching.minItems, matching.maxItems, matching.unique, same.length_eq,
    hasDuplicates_eq same]

/-- An array is read on both sides, or on neither. -/
theorem elements_agree (matching : rules.Matches T P place place' rules') {value value' : Json}
    (same : Json.Reordered T.free value value') :
    (∃ violation violation', rules.elements value = .error violation ∧
        rules'.elements value' = .error violation') ∨
      ∃ items items', rules.elements value = .ok items ∧ rules'.elements value' = .ok items' ∧
        List.Forall₂ (Json.Reordered T.free) items items' := by
  cases same with
  | arr each => exact .inr ⟨_, _, rfl, rfl, each⟩
  | obj => exact .inl ⟨_, _, rfl, rfl⟩
  | refl =>
    have equal : rules'.elements value = rules.elements value := by
      unfold elements
      rw [matching.parseText]
    rw [equal]
    cases rules.elements value with
    | error violation => exact .inl ⟨violation, violation, rfl, rfl⟩
    | ok items => exact .inr ⟨items, items, rfl, rfl, Json.Reordered.items_refl items⟩

theorem filter_keeps (matching : rules.Matches T P place place' rules') {items items' : List Json}
    (same : List.Forall₂ (Json.Reordered T.free) items items') :
    List.Forall₂ (Json.Reordered T.free) (items.filter rules.keeps)
      (items'.filter rules'.keeps) := by
  refine List.rel_filter (fun item item' h => ?_) same
  simp only [matching.keeps item item' h]

end ArrayRules

/-- A verdict depends on the number of alternatives and on which of their logs are empty. -/
theorem Combinator.verdict_agrees (combinator : Combinator) {alternatives alternatives' : List Node}
    {logs logs' : List ErrorLog} (alike : alternatives.length = alternatives'.length)
    (same : logs.map ErrorLog.isEmpty = logs'.map ErrorLog.isEmpty) :
    combinator.verdict alternatives logs = none ↔
      combinator.verdict alternatives' logs' = none := by
  have total : logs.length = logs'.length := by simpa using congrArg List.length same
  have matched : logs.countP ErrorLog.isEmpty = logs'.countP ErrorLog.isEmpty := by
    have := congrArg (List.countP id) same
    simpa [List.countP_map] using this
  have count := matched_eq logs
  have count' := matched_eq logs'
  rw [← total, ← matched] at count'
  unfold verdict
  simp only [← total, count, count']
  cases combinator with
  | allOf => simp
  | anyOf => simp
  | oneOf => simp
  | not =>
    cases alternatives <;> cases alternatives' <;> simp at alike ⊢

/-! ### Rules about inner nodes -/

/-- Where a name leads to related places, looking it up agrees. -/
theorem target_agrees {R : Place → Place → Prop} {stack stack' : List Definitions} {name : String}
    (leads : Option.Rel R (context.place? stack name) (context.place? stack' name)) :
    T.runs (fun found found' => ∃ target target' : Place,
        found = (target.node, target.scope (.ofContext context)) ∧
        found' = (target'.node, target'.scope (.ofContext context)) ∧ R target target')
      ((⟨.ofContext context, stack⟩ : Scope Unit).target name)
      ((⟨.ofContext context, stack'⟩ : Scope Unit).target name) := by
  rw [Scope.target_ofContext, Scope.target_ofContext]
  revert leads
  cases context.place? stack name <;> cases context.place? stack' name <;> rintro ⟨⟩
  · exact T.runs_broken _
  · next h => exact T.runs_pure ⟨_, _, rfl, rfl, h⟩

section Inner

variable (inner : ∀ target target', P target target' → ∀ value value',
  Json.Reordered T.free value value' → T.checks (fun _ _ => True)
    (checkNode target.node value (target.scope (.ofContext context)))
    (checkNode' target'.node value' (target'.scope (.ofContext context))))

namespace HashRules

variable {rules rules' : HashRules} {fields fields' : Entries Json}

include inner in
theorem property_agrees {target target' : Place} (same : Json.ReorderedFields T.free fields fields')
    (key : String) (node node' : Node) (alike : target.SameProperty P target' node node') :
    T.checks (fun _ _ => True)
      (checkProperty checkNode fields ⟨.ofContext context, target.inner⟩ (key, node))
      (checkProperty checkNode' fields' ⟨.ofContext context, target'.inner⟩ (key, node')) := by
  unfold checkProperty
  dsimp only
  rw [← alike.requireKey, ← same.contains_eq]
  refine T.checks_within _ (T.checks_seq (T.checks_recordIf rfl _ _) ?_)
  exact inner _ _ alike.inside _ _ (Json.ReorderedFields.getD_get? same key)

/-- An include gives properties alike on both sides, or breaks off on both. -/
theorem includedBy_agrees (matching : rules.Matches context P place place' rules')
    {name : String} (listed : name ∈ rules.includes) (taken : List String) :
    T.runs (fun found found' => ∃ target target' : Place,
        found.2 = ⟨.ofContext context, target.inner⟩ ∧
        found'.2 = ⟨.ofContext context, target'.inner⟩ ∧
        Entries.Aligned (target.SameProperty P target') found.1 found'.1)
      (rules.includedBy ⟨.ofContext context, place.inner⟩ taken name)
      (rules'.includedBy ⟨.ofContext context, place'.inner⟩ taken name) := by
  refine T.runs_bind (target_agrees (matching.offers name listed)) ?_
  rintro _ _ ⟨target, target', rfl, rfl, offer⟩
  have properties : T.runs (Entries.Aligned (target.SameProperty P target'))
      (included name target.node) (included name target'.node) := by
    unfold included
    cases offer with
    | hash left right properties =>
      rw [left, right]
      exact T.runs_pure properties
    | other left right typeName =>
      unfold Node.typeName at typeName
      cases hleft : target.node.kind with
      | hash rules => exact absurd hleft (left rules)
      | _ =>
        cases hright : target'.node.kind with
        | hash rules => exact absurd hright (right rules)
        | _ =>
          rw [hleft, hright] at typeName
          simp only [typeName]
          exact T.runs_broken _
  refine T.runs_bind properties ?_
  intro all all' each
  refine T.runs_pure ⟨target, target', target.enter_scope _, target'.enter_scope _, ?_⟩
  simp only [declares_eq matching]
  exact each.filter fun key => !rules'.declares key && !taken.contains key

include inner in
theorem checkIncludes_agrees (matching : rules.Matches context P place place' rules')
    (same : Json.ReorderedFields T.free fields fields') (names taken : List String)
    (listed : ∀ name ∈ names, name ∈ rules.includes) :
    T.checks Eq (checkIncludes checkNode rules fields ⟨.ofContext context, place.inner⟩ taken names)
      (checkIncludes checkNode' rules' fields' ⟨.ofContext context, place'.inner⟩ taken names) := by
  induction names generalizing taken with
  | nil => exact T.checks_pure rfl
  | cons name rest ih =>
    refine T.checks_bind (T.checks_ofRun
      (includedBy_agrees matching (listed name (by simp)) taken)) ?_
    rintro ⟨fresh, _⟩ ⟨fresh', _⟩ ⟨target, target', rfl, rfl, each⟩
    refine T.checks_seq (T.checks_aligned each (property_agrees inner same)) ?_
    rw [show fresh.map Prod.fst = fresh'.map Prod.fst from each.keys_eq]
    exact ih _ fun other hother => listed other (by simp [hother])

include inner in
theorem extra_agrees (matching : rules.Matches context P place place' rules') (key : String)
    (value value' : Json) (same : Json.Reordered T.free value value') :
    T.checks (fun _ _ => True)
      (checkExtra checkNode rules ⟨.ofContext context, place.inner⟩ (key, value))
      (checkExtra checkNode' rules' ⟨.ofContext context, place'.inner⟩ (key, value')) := by
  have patterns := matching.patternFor? key
  unfold checkExtra
  dsimp only
  revert patterns
  cases rules.patternFor? key <;> cases rules'.patternFor? key <;> rintro ⟨⟩
  · dsimp only
    rw [← matching.ignored]
    have policies := matching.additional
    revert policies
    cases rules.additional <;> cases rules'.additional <;> rintro ⟨⟩
    · exact T.checks_recordIf rfl _ _
    · exact T.checks_pure trivial
    · next alike => exact T.checks_within _ (inner _ _ alike _ _ same)
  · next alike => exact T.checks_within _ (inner _ _ alike _ _ same)

include inner in
theorem validate_agrees (matching : rules.Matches context P place place' rules')
    (same : Json.ReorderedFields T.free fields fields') :
    T.checks (fun _ _ => True)
      (rules.validate checkNode fields ⟨.ofContext context, place.inner⟩)
      (rules'.validate checkNode' fields' ⟨.ofContext context, place'.inner⟩) := by
  refine T.checks_seq (T.checks_recordAll (sizeViolations_agree matching same)) ?_
  refine T.checks_seq (T.checks_aligned matching.properties (property_agrees inner same)) ?_
  rw [← matching.includes]
  refine T.checks_bind (checkIncludes_agrees inner matching same _ _ fun _ h => h) ?_
  rintro taken _ rfl
  have extras := extras_agree matching same taken
  refine T.checks_seq (T.checks_reordered extras (extra_agrees inner matching)) ?_
  exact T.checks_seq (T.checks_recordAll (nameViolations_agree matching extras))
    (T.checks_recordAll (dependencyViolations_agree matching same))

end HashRules

namespace ArrayRules

variable {rules rules' : ArrayRules}

include inner in
theorem checkItems_agrees (matching : rules.Matches T P place place' rules')
    {items items' : List Json} (same : List.Forall₂ (Json.Reordered T.free) items items')
    (index : Nat) :
    T.checks (fun _ _ => True) (rules.checkItems checkNode ⟨.ofContext context, place.inner⟩ index
      items) (rules'.checkItems checkNode' ⟨.ofContext context, place'.inner⟩ index items') := by
  induction same generalizing index with
  | nil => exact T.checks_pure trivial
  | cons head _ ih =>
    rw [checkItems_cons, checkItems_cons]
    refine T.checks_seq ?_ (ih (index + 1))
    have due := matching.schemaAt? index
    unfold checkItem
    revert due
    cases rules.schemaAt? index <;> cases rules'.schemaAt? index <;> rintro ⟨⟩
    · exact T.checks_pure trivial
    · next alike => exact T.checks_within _ (inner _ _ alike _ _ head)

include inner in
theorem anyMatches_agrees {node node' : Node} (alike : place.Inside P place' node node')
    {items items' : List Json} (same : List.Forall₂ (Json.Reordered T.free) items items') :
    T.runs Eq (anyMatches checkNode node ⟨.ofContext context, place.inner⟩ items)
      (anyMatches checkNode' node' ⟨.ofContext context, place'.inner⟩ items') := by
  induction same with
  | nil => exact T.runs_pure rfl
  | cons head _ ih =>
    refine T.runs_bind (T.runs_trial (inner _ _ alike _ _ head)) ?_
    intro log log' empty
    rw [empty]
    split
    · exact T.runs_pure rfl
    · exact ih

include inner in
theorem validate_agrees (matching : rules.Matches T P place place' rules')
    {value value' : Json} (same : Json.Reordered T.free value value') :
    T.checks (fun _ _ => True)
      (rules.validate checkNode value ⟨.ofContext context, place.inner⟩)
      (rules'.validate checkNode' value' ⟨.ofContext context, place'.inner⟩) := by
  obtain ⟨violation, violation', read, read'⟩ | ⟨items, items', read, read', each⟩ :=
    elements_agree matching same
  · simp only [validate, read, read']
    exact .ok (.record violation) (.record violation') trivial
  · rw [validate_of_elements _ _ _ read, validate_of_elements _ _ _ read']
    have kept := filter_keeps matching each
    generalize items.filter rules.keeps = items at kept
    generalize items'.filter rules'.keeps = items' at kept
    refine T.checks_seq (T.checks_recordAll ?_) (T.checks_seq ?_ ?_)
    · rw [sizeViolations_agree matching kept]
    · unfold checkShape
      rw [matching.wrongCount?, kept.length_eq]
      cases rules'.wrongCount? items'.length with
      | some expected => exact .ok (.record _) (.record _) trivial
      | none => exact checkItems_agrees inner matching kept 0
    · have contains := matching.contains
      unfold checkContains
      revert contains
      cases rules.contains <;> cases rules'.contains <;> rintro ⟨⟩
      · exact T.checks_pure trivial
      · next alike =>
        refine T.checks_bind (T.checks_ofRun (anyMatches_agrees inner alike kept)) ?_
        rintro found _ rfl
        exact T.checks_recordIf rfl _ _

end ArrayRules

namespace Combinator

include inner in
theorem trials_agree {alternatives alternatives' : List Node}
    (alike : List.Forall₂ (place.Inside P place') alternatives alternatives')
    {value value' : Json} (same : Json.Reordered T.free value value') :
    T.runs (fun logs logs' => logs.map ErrorLog.isEmpty = logs'.map ErrorLog.isEmpty)
      (trials checkNode value ⟨.ofContext context, place.inner⟩ alternatives)
      (trials checkNode' value' ⟨.ofContext context, place'.inner⟩ alternatives') := by
  induction alike with
  | nil => exact T.runs_pure rfl
  | cons head _ ih =>
    refine T.runs_bind (T.runs_trial (inner _ _ head _ _ same)) ?_
    intro log log' empty
    refine T.runs_bind ih ?_
    intro logs logs' empties
    refine T.runs_pure ?_
    rw [List.map_cons, List.map_cons, empty, empties]

end Combinator

include inner in
theorem Kind.validate_agrees {kind kind' : Kind}
    (matching : kind.Matches T context P place place' kind') {value value' : Json}
    (same : Json.Reordered T.free value value') :
    T.checks (fun _ _ => True)
      (kind.validate checkNode value ⟨.ofContext context, place.inner⟩)
      (kind'.validate checkNode' value' ⟨.ofContext context, place'.inner⟩) := by
  cases matching with
  | leaf leaf =>
    cases kind with
    | string rules =>
      cases same with
      | refl value =>
        cases value with
        | str s => exact T.checks_recordAll Iff.rfl
        | _ => exact T.checks_pure trivial
      | arr => exact T.checks_pure trivial
      | obj => exact T.checks_pure trivial
    | integer rules => exact T.checks_recordAll (by rw [rules.violations_agree true same])
    | number rules => exact T.checks_recordAll (by rw [rules.violations_agree false same])
    | boolean castText => exact T.checks_recordAll (by rw [Truth.violations_agree same])
    | symbol => exact T.checks_pure trivial
    | object classes => exact T.checks_pure trivial
    | _ => cases leaf
  | hash matching =>
    cases value with
    | obj fields =>
      obtain ⟨fields', rfl, each⟩ := same.exists_of_obj
      exact HashRules.validate_agrees inner matching each
    | arr items =>
      obtain ⟨items', rfl, _⟩ := same.exists_of_arr
      exact T.checks_pure trivial
    | _ =>
      cases same
      exact T.checks_pure trivial
  | array matching => exact ArrayRules.validate_agrees inner matching same
  | @combination combinator alternatives alternatives' _ alike =>
    refine T.checks_bind (T.checks_ofRun (Combinator.trials_agree inner alike same)) ?_
    intro logs logs' empties
    refine T.checks_recordAll ?_
    rw [Option.toList_eq_nil_iff, Option.toList_eq_nil_iff]
    exact combinator.verdict_agrees alike.length_eq empties
  | @reference name leads =>
    refine T.checks_bind (T.checks_ofRun (target_agrees leads)) ?_
    rintro _ _ ⟨target, target', rfl, rfl, h⟩
    exact inner _ _ h _ _ same

include inner in
/-- Checks of reordered values at matching places agree if the checks at related places do. -/
theorem Place.checkWith_agrees (matching : place.Matches T context P place') {value value' : Json}
    (same : Json.Reordered T.free value value') :
    T.checks (fun _ _ => True)
      (place.node.checkWith checkNode value (place.scope (.ofContext context)))
      (place'.node.checkWith checkNode' value' (place'.scope (.ofContext context))) := by
  unfold Node.checkWith
  rw [place.enter_scope, place'.enter_scope]
  obtain ⟨missing, missing'⟩ | ⟨violation, violation', refused, refused'⟩ |
    ⟨seen, seen', given, given', same⟩ := matching.present_agrees same
  · rw [missing, missing']
    exact T.checks_recordAll Iff.rfl
  · rw [refused, refused']
    exact T.checks_recordAll (by simp)
  · rw [given, given']
    refine T.checks_seq (T.checks_recordAll ?_) (Kind.validate_agrees inner matching.kind same)
    rw [Option.toList_eq_nil_iff, Option.toList_eq_nil_iff]
    exact matching.notAllowed?_eq_none same

end Inner

end SchemaCast
