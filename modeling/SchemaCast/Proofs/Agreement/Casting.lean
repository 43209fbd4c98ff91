import SchemaCast.Proofs.Agreement.Validation

/-!
# Casts at matching places

Casts of reordered values at matching places have reordered results if the checks and the casts of
inner nodes agree. The fields of an object that no property covers are cast in the order in which
they come; this is the only place where that order shows in the result.
-/
namespace SchemaCast

variable {T : Tolerance} {context : Context} {P : Place → Place → Prop} {place place' : Place}
  {checkNode checkNode' : NodeCheck Unit} {castNode castNode' : NodeCast Unit}

/-! ### Further fields of an object -/

namespace HashRules

/-- What a further field is cast to, if it is kept. -/
def extraValue (castNode : NodeCast Unit) (rules : HashRules) (scope : Scope Unit)
    (field : String × Json) : Run Unit (Option Json) :=
  match rules.patternFor? field.1 with
  | some node => some <$> castNode node field.2 scope
  | none =>
    match rules.additional with
    | .allow => pure (some field.2)
    | .schema node => some <$> castNode node field.2 scope
    | .reject => pure none

/-- Write a value under a key that is new, if there is a value. -/
def written (output : Entries Json) (key : String) : Option Json → Entries Json
  | some value => output.insertNew key value
  | none => output

theorem castExtra_eq (rules : HashRules) (scope : Scope Unit) (output : Entries Json)
    (field : String × Json) :
    castExtra castNode rules scope output field =
      extraValue castNode rules scope field >>= fun value =>
        pure (written output field.1 value) := by
  unfold castExtra extraValue
  cases rules.patternFor? field.1 with
  | some node => simp [written]
  | none => cases rules.additional <;> simp [written]

/-- The fields are cast one by one. -/
theorem castExtras_cons (rules : HashRules) (scope : Scope Unit) (output : Entries Json)
    (field : String × Json) (rest : Entries Json) :
    castExtras castNode rules scope output (field :: rest) =
      extraValue castNode rules scope field >>= fun value =>
        castExtras castNode rules scope (written output field.1 value) rest := by
  rw [castExtras, castExtra_eq]
  simp

theorem written_shuffled {free : Prop} {output output' : Entries Json}
    (order : Entries.Shuffled free output output') (key : String) (value : Option Json) :
    Entries.Shuffled free (written output key value) (written output' key value) := by
  cases value with
  | none => exact order
  | some value => exact order.insertNew key value

theorem written_comm {free : Prop} (may : free) (output : Entries Json) {key other : String}
    (distinct : key ≠ other) (value value' : Option Json) :
    Entries.Shuffled free (written (written output key value) other value')
      (written (written output other value') key value) := by
  cases value <;> cases value'
  · exact .refl _
  · exact .refl _
  · exact .refl _
  · exact .insertNew_comm may output distinct _ _

variable {rules rules' : HashRules} {scope : Scope Unit}

/-- Fields written before may stand in any order. -/
theorem castExtras_of_shuffled {output output' : Entries Json}
    (order : Entries.Shuffled T.free output output') (extras : Entries Json)
    (self : ∀ field ∈ extras, T.runs Eq (extraValue castNode rules scope field)
      (extraValue castNode rules scope field)) :
    T.runs (Entries.Shuffled T.free) (castExtras castNode rules scope output extras)
      (castExtras castNode rules scope output' extras) := by
  induction extras generalizing output output' with
  | nil => exact T.runs_pure order
  | cons field rest ih =>
    rw [castExtras_cons, castExtras_cons]
    refine T.runs_bind (self field (by simp)) ?_
    rintro value _ rfl
    exact ih (written_shuffled order field.1 value) fun other hother =>
      self other (by simp [hother])

/-- The order of the fields shows in the order of the results only. -/
theorem castExtras_shuffled {extras extras' : Entries Json}
    (order : Entries.Shuffled T.free extras extras') (output : Entries Json)
    (self : ∀ field ∈ extras, T.runs Eq (extraValue castNode rules scope field)
      (extraValue castNode rules scope field)) :
    T.runs (Entries.Shuffled T.free) (castExtras castNode rules scope output extras)
      (castExtras castNode rules scope output extras') := by
  induction order generalizing output with
  | nil => exact T.runs_pure (.refl output)
  | cons field _ ih =>
    rw [castExtras_cons, castExtras_cons]
    refine T.runs_bind (self field (by simp)) ?_
    rintro value _ rfl
    exact ih _ fun other hother => self other (by simp [hother])
  | @swap free first second distinct rest =>
    simp only [castExtras_cons]
    have later (value value' : Option Json) :
        T.runs (Entries.Shuffled T.free)
          (castExtras castNode rules scope
            (written (written output first.1 value) second.1 value') rest)
          (castExtras castNode rules scope
            (written (written output second.1 value') first.1 value) rest) :=
      castExtras_of_shuffled (written_comm free output distinct value value') rest
        fun other hother => self other (by simp [hother])
    exact T.runs_swap free (self first (by simp)) (self second (by simp)) later
  | trans left _ ihl ihr =>
    refine T.runs_trans (ihl output self) (ihr output fun field mem =>
      self field (left.perm.mem_iff.mpr mem)) fun _ _ _ h h' => h.trans h'

end HashRules

theorem StringRules.cast_of_no_text (rules : StringRules) {value : Json}
    (other : ∀ s, value ≠ .str s) : rules.cast value = value := by
  unfold cast
  split
  · exact absurd rfl (other _)
  · rfl

theorem NumericRules.cast_of_no_text (rules : NumericRules) (integer : Bool) {value : Json}
    (other : ∀ s, value ≠ .str s) : rules.cast integer value = value := by
  unfold cast
  split
  · exact absurd rfl (other _)
  · rfl

theorem Truth.cast_of_no_text (castText : Bool) {value : Json} (other : ∀ s, value ≠ .str s) :
    Truth.cast castText value = value := by
  unfold cast
  split
  · exact absurd rfl (other _)
  · rfl

/-! ### Rules about inner nodes -/

section Inner

variable (checks : ∀ target target', P target target' → ∀ value value',
    Json.Reordered T.free value value' → T.checks (fun _ _ => True)
      (checkNode target.node value (target.scope (.ofContext context)))
      (checkNode' target'.node value' (target'.scope (.ofContext context))))
  (casts : ∀ target target', P target target' → ∀ value value',
    Json.Reordered T.free value value' → T.runs (Json.Reordered T.free)
      (castNode target.node value (target.scope (.ofContext context)))
      (castNode' target'.node value' (target'.scope (.ofContext context))))

namespace HashRules

variable {rules rules' : HashRules} {fields fields' output output' : Entries Json}

include casts in
theorem castProperties_agree {target target' : Place}
    (same : Json.ReorderedFields T.free fields fields')
    {properties properties' : List (String × Node)}
    (alike : Entries.Aligned (target.SameProperty P target') properties properties')
    (written : Json.ReorderedFields T.free output output') :
    T.runs (Json.ReorderedFields T.free)
      (castProperties castNode fields ⟨.ofContext context, target.inner⟩ output properties)
      (castProperties castNode' fields' ⟨.ofContext context, target'.inner⟩ output'
        properties') := by
  induction alike generalizing output output' with
  | nil => exact T.runs_pure written
  | @cons key node node' _ _ head _ ih =>
    have first : T.runs (Json.ReorderedFields T.free)
        (castProperty castNode fields ⟨.ofContext context, target.inner⟩ output (key, node))
        (castProperty castNode' fields' ⟨.ofContext context, target'.inner⟩ output'
          (key, node')) := by
      unfold castProperty
      dsimp only
      rw [← head.outputName, ← same.contains_eq]
      refine T.runs_bind (casts _ _ head.inside _ _ (Json.ReorderedFields.getD_get? same key)) ?_
      intro result result' reordered
      rw [reordered.isNull_eq]
      split
      · exact T.runs_pure (written.insert _ reordered)
      · exact T.runs_pure written
    exact T.runs_bind first fun _ _ next => ih next

include casts in
theorem castIncludes_agree (matching : rules.Matches context P place place' rules')
    (same : Json.ReorderedFields T.free fields fields') (names taken : List String)
    (listed : ∀ name ∈ names, name ∈ rules.includes)
    (written : Json.ReorderedFields T.free output output') :
    T.runs (fun found found' => Json.ReorderedFields T.free found.1 found'.1 ∧ found.2 = found'.2)
      (castIncludes castNode rules fields ⟨.ofContext context, place.inner⟩ taken output names)
      (castIncludes castNode' rules' fields' ⟨.ofContext context, place'.inner⟩ taken output'
        names) := by
  induction names generalizing taken output output' with
  | nil => exact T.runs_pure ⟨written, rfl⟩
  | cons name rest ih =>
    refine T.runs_bind (includedBy_agrees matching (listed name (by simp)) taken) ?_
    rintro ⟨fresh, _⟩ ⟨fresh', _⟩ ⟨target, target', rfl, rfl, each⟩
    refine T.runs_bind (castProperties_agree casts same each written) ?_
    intro next next' written
    rw [show fresh.map Prod.fst = fresh'.map Prod.fst from each.keys_eq]
    exact ih _ (fun other hother => listed other (by simp [hother])) written

include casts in
theorem extraValue_agrees (matching : rules.Matches context P place place' rules') (key : String)
    {value value' : Json} (same : Json.Reordered T.free value value') :
    T.runs (Option.Rel (Json.Reordered T.free))
      (extraValue castNode rules ⟨.ofContext context, place.inner⟩ (key, value))
      (extraValue castNode' rules' ⟨.ofContext context, place'.inner⟩ (key, value')) := by
  have kept {node node' : Node} (alike : place.Inside P place' node node') :
      T.runs (Option.Rel (Json.Reordered T.free))
        (some <$> castNode node value ⟨.ofContext context, place.inner⟩)
        (some <$> castNode' node' value' ⟨.ofContext context, place'.inner⟩) := by
    rw [← bind_pure_comp, ← bind_pure_comp]
    exact T.runs_bind (casts _ _ alike _ _ same) fun _ _ h => T.runs_pure (.some h)
  have patterns := matching.patternFor? key
  unfold extraValue
  dsimp only
  revert patterns
  cases rules.patternFor? key <;> cases rules'.patternFor? key <;> rintro ⟨⟩
  · have policies := matching.additional
    dsimp only
    revert policies
    cases rules.additional <;> cases rules'.additional <;> rintro ⟨⟩
    · exact T.runs_pure .none
    · exact T.runs_pure (.some same)
    · next alike => exact kept alike
  · next alike => exact kept alike

include casts in
/-- The fields are put in order on the first side, and then cast one by one on both. -/
theorem castExtras_agree (matching : rules.Matches context P place place' rules')
    {extras extras' : Entries Json} (same : Json.ReorderedFields T.free extras extras')
    (written : Json.ReorderedFields T.free output output') :
    T.runs (Json.ReorderedFields T.free)
      (castExtras castNode rules ⟨.ofContext context, place.inner⟩ output extras)
      (castExtras castNode' rules' ⟨.ofContext context, place'.inner⟩ output' extras') := by
  obtain ⟨between, order, aligned⟩ := same
  have self : ∀ field ∈ extras,
      T.runs Eq (extraValue castNode rules ⟨.ofContext context, place.inner⟩ field)
        (extraValue castNode rules ⟨.ofContext context, place.inner⟩ field) := by
    rintro ⟨key, value⟩ mem
    obtain ⟨value', _, same⟩ := aligned.exists_of_mem (order.perm.mem_iff.mp mem)
    exact T.runs_self (extraValue_agrees casts matching key same)
  refine T.runs_trans (castExtras_shuffled order output self) ?_
    fun _ _ _ order same => Entries.Reordered.of_shuffled order same
  clear order self
  induction aligned generalizing output output' with
  | nil => exact T.runs_pure written
  | @cons key _ _ _ _ head _ ih =>
    rw [castExtras_cons, castExtras_cons]
    refine T.runs_bind (extraValue_agrees casts matching key head) ?_
    rintro _ _ (same | _)
    · exact ih (written.insertNew key same)
    · exact ih written

include casts in
theorem cast_agrees (matching : rules.Matches context P place place' rules')
    (same : Json.ReorderedFields T.free fields fields') :
    T.runs (Json.Reordered T.free)
      (rules.cast castNode fields ⟨.ofContext context, place.inner⟩)
      (rules'.cast castNode' fields' ⟨.ofContext context, place'.inner⟩) := by
  have start : Json.ReorderedFields T.free [] [] := Json.Reordered.fields_refl []
  refine T.runs_bind (castProperties_agree casts same matching.properties start) ?_
  intro output output' written
  rw [← matching.includes]
  refine T.runs_bind (castIncludes_agree casts matching same _ _ (fun _ h => h) written) ?_
  rintro ⟨output, taken⟩ ⟨output', _⟩ ⟨written, rfl⟩
  refine T.runs_bind
    (castExtras_agree casts matching (extras_agree matching same taken) written) ?_
  rintro output output' ⟨between, order, each⟩
  exact T.runs_pure (.obj order each)

end HashRules

namespace ArrayRules

variable {rules rules' : ArrayRules}

include casts in
theorem castByPlace_agrees (matching : rules.Matches T P place place' rules') (index : Nat)
    {item item' : Json} (same : Json.Reordered T.free item item') :
    T.runs (Json.Reordered T.free)
      (rules.castByPlace castNode ⟨.ofContext context, place.inner⟩ index item)
      (rules'.castByPlace castNode' ⟨.ofContext context, place'.inner⟩ index item') := by
  have due := matching.schemaAt? index
  unfold castByPlace
  revert due
  cases rules.schemaAt? index <;> cases rules'.schemaAt? index <;> rintro ⟨⟩
  · exact T.runs_pure same
  · next alike => exact casts _ _ alike _ _ same

include checks casts in
theorem castItem_agrees (matching : rules.Matches T P place place' rules') (index : Nat)
    {item item' : Json} (same : Json.Reordered T.free item item') :
    T.runs (Json.Reordered T.free)
      (rules.castItem checkNode castNode ⟨.ofContext context, place.inner⟩ index item)
      (rules'.castItem checkNode' castNode' ⟨.ofContext context, place'.inner⟩ index item') := by
  have contains := matching.contains
  have byPlace := castByPlace_agrees casts matching index same
  unfold castItem
  revert contains
  cases rules.contains <;> cases rules'.contains <;> rintro ⟨⟩
  · exact byPlace
  · next alike =>
    refine T.runs_bind (T.runs_trial (checks _ _ alike _ _ same)) ?_
    intro log log' empty
    rw [empty]
    split
    · exact casts _ _ alike _ _ same
    · exact byPlace

include checks casts in
theorem cast_agrees (matching : rules.Matches T P place place' rules') {value value' : Json}
    (same : Json.Reordered T.free value value') :
    T.runs (Json.Reordered T.free)
      (rules.cast checkNode castNode value ⟨.ofContext context, place.inner⟩)
      (rules'.cast checkNode' castNode' value' ⟨.ofContext context, place'.inner⟩) := by
  unfold cast
  obtain ⟨violation, violation', read, read'⟩ | ⟨items, items', read, read', each⟩ :=
    elements_agree matching same
  · rw [read, read']
    exact T.runs_pure same
  · rw [read, read']
    have items_agree (index : Nat) {items items' : List Json}
        (each : List.Forall₂ (Json.Reordered T.free) items items') :
        T.runs (List.Forall₂ (Json.Reordered T.free))
          (rules.castItems checkNode castNode ⟨.ofContext context, place.inner⟩ index items)
          (rules'.castItems checkNode' castNode' ⟨.ofContext context, place'.inner⟩ index
            items') := by
      induction each generalizing index with
      | nil => exact T.runs_pure .nil
      | cons head _ ih =>
        refine T.runs_bind (castItem_agrees checks casts matching index head) ?_
        intro result result' first
        exact T.runs_bind (ih (index + 1)) fun _ _ others => T.runs_pure (.cons first others)
    exact T.runs_bind (items_agree 0 (filter_keeps matching each)) fun _ _ results =>
      T.runs_pure (.arr results)

end ArrayRules

namespace Combinator

variable {alternatives alternatives' : List Node}

include checks casts in
theorem castAll_agrees (alike : List.Forall₂ (place.Inside P place') alternatives alternatives')
    {value value' output output' : Json} (same : Json.Reordered T.free value value')
    (reached : Json.Reordered T.free output output') :
    T.runs (Json.Reordered T.free)
      (castAll checkNode castNode value ⟨.ofContext context, place.inner⟩ output alternatives)
      (castAll checkNode' castNode' value' ⟨.ofContext context, place'.inner⟩ output'
        alternatives') := by
  induction alike generalizing output output' with
  | nil => exact T.runs_pure reached
  | cons head _ ih =>
    refine T.runs_bind (T.runs_trial (checks _ _ head _ _ same)) ?_
    intro log log' empty
    rw [empty]
    split
    · exact T.runs_bind (casts _ _ head _ _ reached) fun _ _ next => ih next
    · exact ih reached

include checks casts in
theorem castFirst_agrees (alike : List.Forall₂ (place.Inside P place') alternatives alternatives')
    {value value' : Json} (same : Json.Reordered T.free value value') :
    T.runs (Json.Reordered T.free)
      (castFirst checkNode castNode value ⟨.ofContext context, place.inner⟩ alternatives)
      (castFirst checkNode' castNode' value' ⟨.ofContext context, place'.inner⟩
        alternatives') := by
  induction alike with
  | nil => exact T.runs_pure same
  | cons head _ ih =>
    refine T.runs_bind (T.runs_trial (checks _ _ head _ _ same)) ?_
    intro log log' empty
    rw [empty]
    split
    · exact casts _ _ head _ _ same
    · exact ih

end Combinator

include checks casts in
theorem Kind.cast_agrees {kind kind' : Kind}
    (matching : kind.Matches T context P place place' kind') {value value' : Json}
    (same : Json.Reordered T.free value value') :
    T.runs (Json.Reordered T.free)
      (kind.cast checkNode castNode value ⟨.ofContext context, place.inner⟩)
      (kind'.cast checkNode' castNode' value' ⟨.ofContext context, place'.inner⟩) := by
  cases matching with
  | leaf leaf =>
    cases kind with
    | string rules =>
      exact T.runs_pure (same.map_texts fun value other => rules.cast_of_no_text other)
    | integer rules =>
      exact T.runs_pure (same.map_texts fun value other => rules.cast_of_no_text true other)
    | number rules =>
      exact T.runs_pure (same.map_texts fun value other => rules.cast_of_no_text false other)
    | boolean castText =>
      exact T.runs_pure (same.map_texts fun value other => Truth.cast_of_no_text castText other)
    | symbol => exact T.runs_pure same
    | object classes => exact T.runs_pure same
    | _ => cases leaf
  | hash matching =>
    cases value with
    | obj fields =>
      obtain ⟨fields', rfl, each⟩ := same.exists_of_obj
      exact HashRules.cast_agrees casts matching each
    | arr items =>
      obtain ⟨items', rfl, _⟩ := id same.exists_of_arr
      exact T.runs_pure same
    | _ =>
      cases same
      exact T.runs_pure (.refl _)
  | array matching => exact ArrayRules.cast_agrees checks casts matching same
  | @combination combinator _ _ _ alike =>
    cases combinator with
    | allOf => exact Combinator.castAll_agrees checks casts alike same same
    | anyOf => exact Combinator.castFirst_agrees checks casts alike same
    | oneOf => exact Combinator.castFirst_agrees checks casts alike same
    | not => exact T.runs_pure same
  | reference leads =>
    refine T.runs_bind (target_agrees leads) ?_
    rintro _ _ ⟨target, target', rfl, rfl, h⟩
    exact casts _ _ h _ _ same

include checks casts in
/-- Casts of reordered values at matching places agree if the checks and the casts at related places
do. -/
theorem Place.castWith_agrees (matching : place.Matches T context P place') {value value' : Json}
    (same : Json.Reordered T.free value value') :
    T.runs (Json.Reordered T.free)
      (place.node.castWith checkNode castNode value (place.scope (.ofContext context)))
      (place'.node.castWith checkNode' castNode' value' (place'.scope (.ofContext context))) := by
  have seen := matching.seen_reordered same
  unfold Node.castWith
  rw [place.enter_scope, place'.enter_scope]
  dsimp only
  rw [← matching.default?, ← seen.isNull_eq]
  by_cases missing : (place.node.seen value).isNull
  · simp only [missing, if_true]
    cases place.node.default? with
    | none => exact T.runs_pure (.refl _)
    | some default => exact Kind.cast_agrees checks casts matching.kind (.refl default)
  · simp only [missing]
    exact Kind.cast_agrees checks casts matching.kind seen

end Inner

end SchemaCast
