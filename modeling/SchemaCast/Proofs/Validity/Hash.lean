import SchemaCast.Proofs.Verdict

/-!
# Validation of a hash

If the checks of the inner nodes tell whether the places inside are satisfied, then the check of a
hash tells whether its rules are met. The includes are taken one after the other: what an include
adds depends on the properties that the ones before it have.
-/
namespace SchemaCast

variable {σ : Type} {context : Context} {Sat : Place → Json → Prop} {place : Place}
  {checkNode : NodeCheck σ}

namespace HashRules

/-- An include gives the properties of its hash that are not declared and not taken. -/
theorem gives_includedBy (rules : HashRules) (taken : List String) (name : String) :
    (rules.includedBy ⟨(.ofContext context : Resolver σ), place.inner⟩ taken name).Gives
      fun found => ∃ target properties, Offers context place name target properties ∧
        found.2 = ⟨.ofContext context, target.inner⟩ ∧
        ∀ entry, entry ∈ found.1 ↔
          entry ∈ properties ∧ ¬ rules.declares entry.1 ∧ entry.1 ∉ taken := by
  refine .bind (Scope.gives_target place.inner name) ?_
  intro _ h
  obtain ⟨target, leads, rfl⟩ := h
  have included : (included name target.node : Run σ _).Gives fun properties =>
      Offers context place name target properties := by
    unfold included
    split
    · next targetRules hash => exact .pure ⟨leads, targetRules, hash, rfl⟩
    · exact .broken trivial
  refine .bind included ?_
  intro properties offers
  refine .pure ⟨target, properties, offers, target.enter_scope _, fun entry => ?_⟩
  simp [List.mem_filter]

/-- An include that offers properties adds those that are not declared and not taken. -/
theorem includedBy_of_offers {rules : HashRules} {name : String} {target : Place}
    {properties : List (String × Node)} (offers : Offers context place name target properties)
    (taken : List String) :
    rules.includedBy ⟨(.ofContext context : Resolver σ), place.inner⟩ taken name =
      pure (properties.filter fun entry => !rules.declares entry.1 && !taken.contains entry.1,
        ⟨.ofContext context, target.inner⟩) := by
  obtain ⟨leads, targetRules, hash, rfl⟩ := offers
  have included : (included name target.node : Run σ _) = pure targetRules.properties := by
    unfold HashRules.included
    rw [hash]
  rw [includedBy, Scope.target_of_leads leads]
  simp only [pure_bind, included]
  rw [target.enter_scope]

theorem Offers.unique {name : String} {target target' : Place}
    {properties properties' : List (String × Node)}
    (h : Offers context place name target properties)
    (h' : Offers context place name target' properties') :
    target = target' ∧ properties = properties' := by
  obtain ⟨leads, rules, hash, rfl⟩ := h
  obtain ⟨leads', rules', hash', rfl⟩ := h'
  rw [leads] at leads'
  cases leads'
  rw [hash] at hash'
  cases hash'
  exact ⟨rfl, rfl⟩

theorem offered_append_singleton {earlier : List String} {name key : String} {target : Place}
    {properties : List (String × Node)} (offers : Offers context place name target properties) :
    Offered context place (earlier ++ [name]) key ↔
      Offered context place earlier key ∨ key ∈ properties.map Prod.fst := by
  constructor
  · intro h
    obtain ⟨other, mem, target', properties', offers', hkey⟩ := h
    rcases List.mem_append.mp mem with mem | mem
    · exact .inl ⟨other, mem, target', properties', offers', hkey⟩
    · rw [List.mem_singleton.mp mem] at offers'
      rw [(offers.unique offers').2]
      exact .inr hkey
  · intro h
    rcases h with ⟨other, mem, offered⟩ | hkey
    · exact ⟨other, List.mem_append_left _ mem, offered⟩
    · exact ⟨name, by simp, target, properties, offers, hkey⟩

theorem tells_property {scope : Scope σ} {around : List Definitions} (fields : Entries Json)
    (entry : String × Node)
    (h : ∀ value, (checkNode entry.2 value scope).Tells (fun _ => True)
      (Sat ⟨entry.2, around⟩ value)) :
    (checkProperty checkNode fields scope entry).Tells (fun _ => True)
      (MeetsProperty Sat fields entry around) := by
  refine (Check.Tells.within _ (.seq (.recordIf _ _) (h _))).congr ?_
  constructor
  · intro h
    exact ⟨by simpa using h.1, h.2⟩
  · intro h
    exact ⟨by simpa using h.key, h.value⟩

/-- The properties that are left to some includes after earlier ones are satisfied. -/
def MeetsIncludes (context : Context) (Sat : Place → Json → Prop) (place : Place)
    (rules : HashRules) (fields : Entries Json) (earlier names : List String) : Prop :=
  ∀ before name after, names = before ++ name :: after →
    ∀ target properties, Offers context place name target properties →
      ∀ entry ∈ properties, ¬ rules.declares entry.1 →
        ¬ Offered context place (earlier ++ before) entry.1 →
          MeetsProperty Sat fields entry target.inner

theorem meetsIncludes_cons {rules : HashRules} {fields : Entries Json} {earlier rest : List String}
    {name : String} {target : Place} {properties : List (String × Node)}
    (offers : Offers context place name target properties) :
    MeetsIncludes context Sat place rules fields earlier (name :: rest) ↔
      (∀ entry ∈ properties, ¬ rules.declares entry.1 →
        ¬ Offered context place earlier entry.1 →
          MeetsProperty Sat fields entry target.inner) ∧
        MeetsIncludes context Sat place rules fields (earlier ++ [name]) rest := by
  constructor
  · intro h
    constructor
    · intro entry mem declared offered
      exact h [] name rest rfl target properties offers entry mem declared (by simpa using offered)
    · intro before other after hrest target' properties' offers' entry mem declared offered
      refine h (name :: before) other after (by rw [hrest]; rfl) target' properties' offers' entry
        mem declared ?_
      simpa using offered
  · intro h before other after hnames target' properties' offers' entry mem declared offered
    obtain ⟨first, others⟩ := h
    cases before with
    | nil =>
      cases hnames
      obtain ⟨rfl, rfl⟩ := offers.unique offers'
      exact first entry mem declared (by simpa using offered)
    | cons head before =>
      cases hnames
      exact others before other after rfl target' properties' offers' entry mem declared
        (by simpa using offered)

theorem meetsIncludes_iff {rules : HashRules} {fields : Entries Json} :
    MeetsIncludes context Sat place rules fields [] rules.includes ↔
      ∀ entry target, rules.Includes context place entry target →
        MeetsProperty Sat fields entry target.inner := by
  constructor
  · intro h entry target includes
    obtain ⟨earlier, name, later, properties, hnames, offers, mem, fresh, first⟩ := includes
    exact h earlier name later hnames target properties offers entry mem fresh first
  · intro h before name after hnames target properties offers entry mem fresh first
    exact h entry target ⟨before, name, after, properties, hnames, offers, mem, fresh, first⟩

/-- The keys taken after an include are those offered so far. -/
theorem taken_append {rules : HashRules} {earlier taken : List String} {name : String}
    {target : Place} {properties fresh : List (String × Node)}
    (offers : Offers context place name target properties)
    (hfresh : ∀ entry, entry ∈ fresh ↔
      entry ∈ properties ∧ ¬ rules.declares entry.1 ∧ entry.1 ∉ taken)
    (htaken : ∀ key, ¬ rules.declares key → (key ∈ taken ↔ Offered context place earlier key))
    (key : String) (undeclared : ¬ rules.declares key) :
    key ∈ taken ++ fresh.map Prod.fst ↔ Offered context place (earlier ++ [name]) key := by
  rw [offered_append_singleton offers, ← htaken key undeclared, List.mem_append, List.mem_map,
    List.mem_map]
  constructor
  · intro h
    rcases h with known | ⟨entry, mem, rfl⟩
    · exact .inl known
    · exact .inr ⟨entry, ((hfresh entry).mp mem).1, rfl⟩
  · intro h
    rcases h with known | ⟨entry, mem, rfl⟩
    · exact .inl known
    · by_cases known : entry.1 ∈ taken
      · exact .inl known
      · exact .inr ⟨entry, (hfresh entry).mpr ⟨mem, undeclared, known⟩, rfl⟩

section Nested

variable (inner : ∀ target, place.Step context target → ∀ value,
  (checkNode target.node value (target.scope (.ofContext context))).Tells (fun _ => True)
    (Sat target value))

include inner in
theorem tells_includes {rules : HashRules} (kind : place.node.kind = .hash rules)
    (fields : Entries Json) (earlier names taken : List String)
    (hnames : rules.includes = earlier ++ names)
    (htaken : ∀ key, ¬ rules.declares key → (key ∈ taken ↔ Offered context place earlier key)) :
    (checkIncludes checkNode rules fields ⟨.ofContext context, place.inner⟩ taken names).Tells
      (fun taken => ∀ key, ¬ rules.declares key →
        (key ∈ taken ↔ Offered context place rules.includes key))
      (MeetsIncludes context Sat place rules fields earlier names) := by
  induction names generalizing earlier taken with
  | nil =>
    rw [List.append_nil] at hnames
    rw [hnames]
    refine (Check.Tells.pure htaken).congr ?_
    simp [MeetsIncludes]
  | cons name rest ih =>
    have listed : name ∈ rules.includes := by rw [hnames]; simp
    refine (Check.Tells.bind (.ofRun (gives_includedBy rules taken name)) ?_).congr
      (iff_of_eq (true_and _))
    rintro ⟨fresh, _⟩ ⟨target, properties, offers, rfl, hfresh⟩
    obtain ⟨leads, targetRules, hash, rfl⟩ := id offers
    have properties : (fresh.forM (checkProperty checkNode fields
        ⟨.ofContext context, target.inner⟩)).Tells (fun _ => True)
        (∀ entry ∈ fresh, MeetsProperty Sat fields entry target.inner) := by
      refine .forM fresh fun entry mem => tells_property fields entry fun value => ?_
      exact inner _ (.included kind listed leads hash ((hfresh entry).mp mem).1) value
    refine (Check.Tells.seq properties (ih (earlier ++ [name]) _ (by simp [hnames])
      (taken_append offers hfresh htaken))).congr ?_
    rw [meetsIncludes_cons offers]
    refine and_congr_left fun _ => ⟨fun h entry mem undeclared first => ?_, fun h entry mem => ?_⟩
    · refine h entry ((hfresh entry).mpr ⟨mem, undeclared, ?_⟩)
      rwa [htaken entry.1 undeclared]
    · obtain ⟨mem, undeclared, first⟩ := (hfresh entry).mp mem
      exact h entry mem undeclared (by rwa [← htaken entry.1 undeclared])

omit inner in
theorem mem_extras {rules : HashRules} {taken : List String} {fields : Entries Json}
    (htaken : ∀ key, ¬ rules.declares key →
      (key ∈ taken ↔ Offered context place rules.includes key)) (field : String × Json) :
    field ∈ rules.extras taken fields ↔ field ∈ fields ∧ rules.Extra context place field.1 := by
  unfold extras Extra
  rw [List.mem_filter]
  refine and_congr_right fun _ => ?_
  by_cases declared : rules.declares field.1
  · simp [declared]
  · simp [declared, htaken field.1 declared]

include inner in
theorem tells_extra {rules : HashRules} (kind : place.node.kind = .hash rules)
    (field : String × Json) :
    (checkExtra checkNode rules ⟨.ofContext context, place.inner⟩ field).Tells (fun _ => True)
      (rules.MeetsExtra Sat place field) := by
  unfold checkExtra MeetsExtra
  cases found : rules.patternFor? field.1 with
  | some node =>
    exact .within _ (inner _ (.child (place.node.mem_children_of_patternFor? kind found)) _)
  | none =>
    cases policy : rules.additional with
    | allow => exact .pure trivial
    | schema node =>
      exact .within _ (inner _ (.child (place.node.mem_children_of_additional kind policy)) _)
    | reject => exact (Check.Tells.recordIf _ _).congr (by simp)

theorem sizeViolations_eq_nil (rules : HashRules) (fields : Entries Json) :
    rules.sizeViolations fields = [] ↔
      (fields.keys.Pairwise fun key other => foldKey key ≠ foldKey other) ∧
        (∀ least ∈ rules.minProperties, least ≤ fields.length) ∧
        ∀ most ∈ rules.maxProperties, fields.length ≤ most := by
  have ambiguous : (if (ambiguousKeys [] fields.keys).isEmpty then []
      else [Violation.ambiguousKeys (ambiguousKeys [] fields.keys)]) = [] ↔
      fields.keys.Pairwise fun key other => foldKey key ≠ foldKey other := by
    have := ambiguousKeys_eq_nil [] fields.keys
    simp only [List.not_mem_nil, not_false_eq_true, implies_true, and_true] at this
    rw [← this]
    cases ambiguousKeys [] fields.keys <;> simp
  simp only [sizeViolations, List.append_eq_nil_iff, violationsOf_eq_nil, ambiguous, and_assoc]
  simp

theorem nameViolations_eq_nil (rules : HashRules) (extras : Entries Json) :
    rules.nameViolations extras = [] ↔
      ∀ field ∈ extras, ∀ pattern ∈ rules.propertyNames, pattern.isMatch field.1 := by
  unfold nameViolations
  cases rules.propertyNames <;> simp [Entries.keys]

theorem dependencyViolations_eq_nil (rules : HashRules) (fields : Entries Json) :
    rules.dependencyViolations fields = [] ↔
      ∀ entry ∈ rules.dependencies, isGiven fields entry.1 →
        ∀ target ∈ entry.2, isGiven fields target := by
  unfold dependencyViolations
  rw [List.flatMap_eq_nil_iff]
  refine forall₂_congr fun entry _ => ?_
  by_cases given : isGiven fields entry.1 <;> simp [given]

include inner in
/-- What is checked once it is known which keys are taken. -/
theorem tells_extras {rules : HashRules} (kind : place.node.kind = .hash rules)
    (fields : Entries Json) (taken : List String)
    (htaken : ∀ key, ¬ rules.declares key →
      (key ∈ taken ↔ Offered context place rules.includes key)) :
    Check.Tells
      ((rules.extras taken fields).forM
          (checkExtra checkNode rules ⟨.ofContext context, place.inner⟩) >>= fun _ =>
        Check.recordAll (rules.nameViolations (rules.extras taken fields)) >>= fun _ =>
          Check.recordAll (rules.dependencyViolations fields))
      (fun _ => True)
      ((∀ field ∈ fields, rules.Extra context place field.1 → rules.MeetsExtra Sat place field) ∧
        (∀ field ∈ fields, rules.Extra context place field.1 →
          ∀ pattern ∈ rules.propertyNames, pattern.isMatch field.1) ∧
        ∀ entry ∈ rules.dependencies, isGiven fields entry.1 →
          ∀ target ∈ entry.2, isGiven fields target) := by
  have extras : ((rules.extras taken fields).forM
      (checkExtra checkNode rules ⟨.ofContext context, place.inner⟩)).Tells (fun _ => True)
      (∀ field ∈ rules.extras taken fields, rules.MeetsExtra Sat place field) :=
    .forM _ fun field _ => tells_extra inner kind field
  refine (extras.seq (.seq (.recordAll _) (.recordAll _))).congr ?_
  rw [nameViolations_eq_nil, dependencyViolations_eq_nil]
  simp only [mem_extras htaken, and_imp]

include inner in
theorem tells_validate {rules : HashRules} (kind : place.node.kind = .hash rules)
    (fields : Entries Json) :
    (rules.validate checkNode fields ⟨.ofContext context, place.inner⟩).Tells (fun _ => True)
      (rules.Meets context Sat place fields) := by
  have declared : (rules.properties.forM (checkProperty checkNode fields
      ⟨.ofContext context, place.inner⟩)).Tells (fun _ => True)
      (∀ entry ∈ rules.properties, MeetsProperty Sat fields entry place.inner) :=
    .forM _ fun entry mem => tells_property fields entry
      (inner _ (.child (place.node.mem_children_of_property kind mem)))
  have included := tells_includes inner kind fields [] rules.includes [] rfl
    (by simp [Offered])
  refine (Check.Tells.seq (.recordAll _) (.seq declared
    (.bind included (tells_extras inner kind fields)))).congr ?_
  rw [sizeViolations_eq_nil, meetsIncludes_iff]
  constructor
  · intro h
    obtain ⟨⟨distinct, least, most⟩, declared, included, extra, names, dependencies⟩ := h
    exact ⟨distinct, least, most, declared, included, extra, names, dependencies⟩
  · intro h
    exact ⟨⟨h.distinct, h.minProperties, h.maxProperties⟩, h.declared, h.included, h.extra, h.names,
      h.dependencies⟩

end Nested

end HashRules

end SchemaCast
