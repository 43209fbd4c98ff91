import Mathlib.Data.Set.List
import SchemaCast.Proofs.Declaration.Options

/-!
# Which declarations are read

A declaration is read just if the grammar derives it. The readers of a type are followed one by one;
their conditions add up to the table of the type, and the rules that come out are well-formed just
if the options are consistent. Declarations inside an option are smaller than the whole, so that an
induction on the size closes the circle.
-/
namespace SchemaCast

open Built (Takes)

namespace Json

theorem size_le_of_mem_items {items : List Json} {item : Json} (mem : item ∈ items) :
    item.size ≤ sizeItems items := by
  induction items with
  | nil => cases mem
  | cons first rest ih =>
    rw [sizeItems]
    rcases List.mem_cons.mp mem with rfl | mem
    · exact Nat.le_add_right _ _
    · exact Nat.le_add_left_of_le (ih mem)

theorem size_le_of_mem_fields {fields : Entries Json} {field : String × Json}
    (mem : field ∈ fields) : field.2.size ≤ sizeFields fields := by
  induction fields with
  | nil => cases mem
  | cons first rest ih =>
    rw [sizeFields]
    rcases List.mem_cons.mp mem with rfl | mem
    · exact Nat.le_add_right _ _
    · exact Nat.le_add_left_of_le (ih mem)

end Json

theorem forall_mem_iff_of_forall₂ {α β : Type} {R : α → β → Prop} {P : α → Prop} {Q : β → Prop}
    {as : List α} {bs : List β} (related : List.Forall₂ R as bs)
    (same : ∀ a b, R a b → (P a ↔ Q b)) : (∀ a ∈ as, P a) ↔ ∀ b ∈ bs, Q b := by
  induction related with
  | nil => simp
  | cons first _ ih => rw [List.forall_mem_cons, List.forall_mem_cons, same _ _ first, ih]

namespace Declaration

theorem size_le_of_given? {options : Options} {key : String} {value : Json}
    (found : given? options key = some value) : value.size ≤ Json.sizeFields options :=
  Json.size_le_of_mem_fields (Entries.mem_of_get? (Option.filter_eq_some_iff.mp found).1)

theorem fits_alternatives_iff {combinator : Combinator} {items : List Json} :
    Fits (NodeType.alternativesShape combinator) (.arr items) ↔ ∀ item ∈ items, Declares item := by
  constructor
  · intro fits
    cases combinator <;> cases fits
    case not.single declares => cases declares
    all_goals assumption
  · intro declare
    cases combinator with
    | not => exact .several declare
    | _ => exact .declarations declare

section Nested

variable {read : Json → Built Node} {options : Options}
  (reads : ∀ value, value.size ≤ Json.sizeFields options →
    (read value).Takes (Declares value) fun node =>
      node.options.required = true ↔ AsksForValue value)

include reads

theorem readItems_takes {key : String} {items : List Json}
    (found : given? options key = some (.arr items)) :
    (items.mapM read).Takes (∀ item ∈ items, Declares item)
      fun nodes => nodes.length = items.length := by
  have size := size_le_of_given? found
  refine (Takes.mapM fun item mem => reads item ?_).iff .rfl fun nodes _ h => h.length_eq.symm
  have := Json.size_le_of_mem_items mem
  simp only [Json.size] at size
  omega

theorem node?_takes (key : String) :
    (node? read options key).Takes (FitsAt options (key, .declaration)) fun _ => True := by
  unfold node?
  cases found : given? options key with
  | none => exact (Takes.pure trivial).iff (by simp [fitsAt_of_none found]) fun _ _ h => h
  | some value =>
    rw [fitsAt_iff_of_some found]
    refine (Takes.bind (reads value (size_le_of_given? found)) fun node _ => .pure trivial).iff
      ?_ fun _ _ h => h
    rw [and_true]
    exact ⟨.declaration, fun fits => by cases fits; assumption⟩

theorem nodeMap_takes (key : String) :
    (nodeMap read options key).Takes (FitsAt options (key, .declarationMap)) fun entries =>
      List.Forall₂ (fun field entry =>
        entry.1 = field.1 ∧ (entry.2.options.required = true ↔ AsksForValue field.2))
        (givenFields options key) entries := by
  unfold nodeMap
  split
  · next missing =>
    refine (Takes.pure ?_).iff (by simp [fitsAt_of_none missing]) fun _ _ h => h
    simp [givenFields, missing]
  · next fields found =>
    have size := size_le_of_given? found
    have named : givenFields options key = fields := by simp [givenFields, found, Json.fields?]
    rw [fitsAt_iff_of_some found, named]
    refine (Takes.mapM fun field mem => .bind (reads field.2 ?_) fun node h =>
      .pure ⟨rfl, h⟩).iff ?_ fun _ _ h => h
    · have := Json.size_le_of_mem_fields mem
      simp only [Json.size] at size
      omega
    · simp only [and_true]
      exact ⟨.declarationMap, fun fits => by cases fits; assumption⟩
  · next value other found =>
    rw [fitsAt_iff_of_some found]
    refine (Takes.throw _).iff ⟨False.elim, fun fits => ?_⟩ fun _ _ h => h
    cases fits
    exact other _ rfl

theorem policy?_takes (key : String) :
    (policy? read options key).Takes (FitsAt options (key, .policy)) fun policy =>
      (policy = none ↔ given? options key = none) ∧
        (policy = some .allow ↔ given? options key = some (.bool true)) := by
  unfold policy?
  split
  · next missing =>
    exact (Takes.pure (by simp [missing])).iff (by simp [fitsAt_of_none missing]) fun _ _ h => h
  · next found =>
    rw [fitsAt_iff_of_some found]
    exact (Takes.pure (by simp [found])).iff (by simp [Fits.allOrNothing]) fun _ _ h => h
  · next found =>
    rw [fitsAt_iff_of_some found]
    exact (Takes.pure (by simp [found])).iff (by simp [Fits.allOrNothing]) fun _ _ h => h
  · next value no yes found =>
    rw [fitsAt_iff_of_some found]
    refine (Takes.bind (reads value (size_le_of_given? found)) fun node _ => .pure ?_).iff ?_
      fun _ _ h => h
    · rw [found]
      exact ⟨by simp, by simpa using yes⟩
    · rw [and_true]
      refine ⟨.onlyIf, fun fits => ?_⟩
      cases fits with
      | allOrNothing b => cases b <;> simp_all
      | onlyIf declares => exact declares

theorem itemShape_takes :
    (itemShape read options).Takes (FitsAt options ("items", .declarationOrList)) fun items =>
      (∃ positions, items = .tuple positions) ↔
        ∃ list, given? options "items" = some (.arr list) := by
  unfold itemShape
  split
  · next missing =>
    exact (Takes.pure (by simp [missing])).iff (by simp [fitsAt_of_none missing]) fun _ _ h => h
  · next items found =>
    rw [fitsAt_iff_of_some found]
    refine (Takes.bind (readItems_takes reads found) fun nodes _ => .pure ?_).iff ?_
      fun _ _ h => h
    · simp [found]
    · rw [and_true]
      refine ⟨.several, fun fits => ?_⟩
      cases fits with
      | single declares => cases declares
      | several declare => exact declare
  · next value other found =>
    rw [fitsAt_iff_of_some found]
    refine (Takes.bind (reads value (size_le_of_given? found)) fun node _ => .pure ?_).iff ?_
      fun _ _ h => h
    · simpa [found] using other
    · rw [and_true]
      refine ⟨.single, fun fits => ?_⟩
      cases fits with
      | single declares => exact declares
      | several declare => exact absurd rfl (other _)

/-- The alternatives of a combinator are as many as it takes just if the options are consistent. -/
theorem alternatives_takes (combinator : Combinator) :
    (alternatives read combinator options).Takes
      (FitsAt options ("of", NodeType.alternativesShape combinator) ∧
        ∃ value, given? options "of" = some value)
      fun nodes => ∀ blankAsNull, (Kind.combination combinator nodes blankAsNull).WellFormed ↔
        Consistent options (.combination combinator) := by
  unfold alternatives
  split
  · next missing =>
    exact (Takes.throw _).iff (by simp [missing]) fun _ _ h => h
  · next missing =>
    exact (Takes.throw _).iff (by simp [missing]) fun _ _ h => h
  · next combinator _ _ items found =>
    rw [fitsAt_iff_of_some found, fits_alternatives_iff]
    refine (readItems_takes reads found).iff (by simp [found]) fun nodes _ length blankAsNull => ?_
    cases combinator <;> simp [Kind.WellFormed, Consistent, found, length]
  · next value other found =>
    rw [fitsAt_iff_of_some found]
    refine (Takes.bind (reads value (size_le_of_given? found)) fun node _ => .pure ?_).iff ?_
      fun _ _ h => h
    · intro blankAsNull
      have single : ∀ items, value ≠ .arr items := fun items same => other items same
      simp [Kind.WellFormed, Consistent, found, single]
    · refine ⟨fun both => ⟨.single both.1, value, found⟩, fun both => ⟨?_, trivial⟩⟩
      cases both.1 with
      | single declares => exact declares
      | several declare => exact absurd rfl (other _)
  · next combinator _ _ value several single found =>
    refine (Takes.throw _).iff ⟨False.elim, fun both => ?_⟩ fun _ _ h => h
    have fits := (fitsAt_iff_of_some found).mp both.1
    cases combinator with
    | not => exact single rfl
    | _ =>
      cases fits
      exact several _ rfl

end Nested

/-! ### The tables of the types -/

/-- All options of a table fit. -/
def FitAll (options : Options) (shapes : Entries OptionShape) : Prop :=
  ∀ entry ∈ shapes, FitsAt options entry

section Tables

variable {α β γ : Type} {options : Options} {entry : String × OptionShape}
  {rest : Entries OptionShape} {V : α → Prop} {W : β → Prop}

theorem fitAll_cons : FitAll options (entry :: rest) ↔ FitsAt options entry ∧ FitAll options rest :=
  List.forall_mem_cons

/-- The first option of a table is read, and then the others. -/
theorem takes_first {x : Built α} {f : α → Built β} (hx : x.Takes (FitsAt options entry) V)
    (hf : ∀ a, V a → (f a).Takes (FitAll options rest) W) :
    (x >>= f).Takes (FitAll options (entry :: rest)) W :=
  (hx.bind hf).iff fitAll_cons.symm fun _ _ h => h

/-- The first option of a table is read in two steps, and then the others. -/
theorem takes_first₂ {x : Built γ} {g : γ → Built α} {f : α → Built β}
    (hx : (x >>= g).Takes (FitsAt options entry) V)
    (hf : ∀ a, V a → (f a).Takes (FitAll options rest) W) :
    (x >>= fun c => g c >>= f).Takes (FitAll options (entry :: rest)) W := by
  rw [← bind_assoc]
  exact takes_first hx hf

theorem takes_anything (key : String) {x : Built α} (h : x.Takes (FitAll options rest) V) :
    x.Takes (FitAll options ((key, .anything) :: rest)) V := by
  refine h.iff ?_ fun _ _ h => h
  rw [fitAll_cons]
  exact (and_iff_right fun value _ => .anything value).symm

theorem takes_last {b : β} (h : W b) : (pure b : Built β).Takes (FitAll options []) W :=
  (Takes.pure h).iff (by simp [FitAll]) fun _ _ h => h

end Tables

theorem nodeType_eq_iff {name : String} {type : NodeType} :
    NodeType.ofName? name = some type ↔ name = type.name ∨ name ∈ type.aliases := by
  constructor
  · intro found
    have named : type.isNamed name = true := by simpa using List.find?_some found
    rw [NodeType.isNamed, Bool.or_eq_true, decide_eq_true_eq, List.contains_iff_mem] at named
    exact named.imp_left Eq.symm
  · rintro (rfl | mem)
    · rcases type with _ | _ | _ | _ | _ | _ | _ | _ | (_ | _ | _ | _) | _ <;> rfl
    · rcases type with _ | _ | _ | _ | _ | _ | _ | _ | (_ | _ | _ | _) | _ <;>
        simp only [NodeType.aliases, List.mem_singleton, List.not_mem_nil] at mem <;>
        subst mem <;> rfl

theorem accepts_iff {type : NodeType} {key : String} :
    type.accepts key = true ↔ key ∈ Entries.keys (NodeType.sharedShapes ++ type.shapes) := by
  have keys : Entries.keys (NodeType.sharedShapes ++ type.shapes) =
      NodeType.sharedOptions ++ type.options := by
    cases type <;> rfl
  rw [keys, NodeType.accepts, Bool.or_eq_true, List.mem_append, List.contains_iff_mem,
    List.contains_iff_mem]

theorem check_takes (kind : Kind) : kind.check.Takes kind.WellFormed fun _ => True where
  succeeds := by
    rw [← Kind.check_eq_ok_iff]
    exact ⟨fun ⟨_, passed⟩ => passed, fun passed => ⟨(), passed⟩⟩
  gives _ _ := trivial

theorem patternProperties_takes (entries : Entries Node) (rules : HashRules) :
    Built.Takes
      (entries.foldlM (fun rules entry => HashRules.patternProperty rules entry.1 entry.2) rules)
      (∀ entry ∈ entries, ∃ expr, Regex.Expr.parse? entry.1 = some expr)
      fun more => (∀ entry ∈ more.patternProperties, entry.2.options.required = false) ↔
        (∀ entry ∈ rules.patternProperties, entry.2.options.required = false) ∧
          ∀ entry ∈ entries, entry.2.options.required = false := by
  induction entries generalizing rules with
  | nil => exact (Takes.pure (by simp)).iff (by simp) fun _ _ h => h
  | cons entry rest ih =>
    rw [List.foldlM_cons]
    have first : (rules.patternProperty entry.1 entry.2).Takes
        (∃ expr, Regex.Expr.parse? entry.1 = some expr) fun more =>
          (∀ other ∈ more.patternProperties, other.2.options.required = false) ↔
            (∀ other ∈ rules.patternProperties, other.2.options.required = false) ∧
              entry.2.options.required = false := by
      refine (Takes.bind (compile_takes entry.1) fun pattern _ => .pure ?_).iff
        (iff_of_eq (and_true _)) fun _ _ h => h
      simp [Node.named, or_imp, forall_and]
    refine (Takes.bind first fun more h => (ih more).iff .rfl fun all _ others => ?_).iff
      (by rw [List.forall_mem_cons]) fun _ _ h => h
    rw [others, h, List.forall_mem_cons, and_assoc]

theorem patternProperties_declared (properties : Entries Node) :
    (properties.foldl (fun rules entry => HashRules.property rules entry.1 entry.2)
      {}).patternProperties = [] :=
  List.foldlRecOn (motive := fun rules : HashRules => rules.patternProperties = []) properties _
    rfl fun _ empty _ _ => empty

section Rules

variable (options : Options)

theorem stringRules_takes : (stringRules options).Takes (FitAll options NodeType.string.shapes)
    fun rules => rules.WellFormed ↔ Consistent options .string := by
  unfold stringRules
  refine takes_first (count?_takes options "min_length") fun minLength least => ?_
  refine takes_first (count?_takes options "max_length") fun maxLength most => ?_
  refine takes_first₂ (pattern?_takes options "pattern") fun pattern _ => ?_
  refine takes_first (named_takes options "format" fun _ => fits_format_iff) fun format _ => ?_
  refine takes_first (bool?_takes options "allow_blank") fun allowBlank _ => takes_last ?_
  subst least most
  exact ⟨fun h => h.length, fun h => ⟨h⟩⟩

theorem numericRules_takes :
    (numericRules options).Takes (FitAll options NodeType.number.shapes)
      fun rules => rules.WellFormed ↔ NumbersConsistent options := by
  unfold numericRules
  refine takes_first (number?_takes options "minimum") fun minimum hmin => ?_
  refine takes_first (number?_takes options "maximum") fun maximum hmax => ?_
  refine takes_first (number?_takes options "exclusive_minimum") fun above habove => ?_
  refine takes_first (number?_takes options "exclusive_maximum") fun below hbelow => ?_
  refine takes_first (number?_takes options "multiple_of") fun step hstep => ?_
  refine takes_first (flag_takes options "cast_str") fun castText _ => takes_last ?_
  subst hmin hmax habove hbelow hstep
  constructor
  · intro h
    refine ⟨?_, h.step⟩
    simpa using h.bounds
  · intro h
    refine ⟨?_, h.step⟩
    simpa using h.bounds

theorem valueKind_isSome_iff (name : String) :
    (ValueKind.ofName? name).isSome ↔ ∃ kind : ValueKind, kind.name = name := by
  constructor
  · intro found
    obtain ⟨kind, found⟩ := Option.isSome_iff_exists.mp found
    exact ⟨kind, by simpa using List.find?_some found⟩
  · rintro ⟨kind, rfl⟩
    cases kind <;> rfl

theorem class_takes (name : String) :
    Built.Takes (match ValueKind.ofName? name with
      | some kind => pure kind
      | none => throw (.invalidOption "classes" (.unknownClass name)))
      (∃ kind : ValueKind, kind.name = name) fun _ => True := by
  rw [← valueKind_isSome_iff]
  cases ValueKind.ofName? name with
  | some kind => exact (Takes.pure trivial).iff (by simp) fun _ _ h => h
  | none => exact (Takes.throw _).iff (by simp) fun _ _ h => h

theorem fits_classes_iff {value : Json} : Fits .classes value ↔
    Fits .texts value ∧ ∀ name ∈ listedTexts value, ∃ kind : ValueKind, kind.name = name := by
  constructor
  · intro fits
    cases fits with
    | oneClass kind => exact ⟨.oneText _, by simp [listedTexts]⟩
    | severalClasses kinds =>
      have texts := Fits.severalTexts (kinds.map ValueKind.name)
      have listed := filterMap_text? (kinds.map ValueKind.name)
      rw [List.map_map] at texts listed
      refine ⟨texts, fun name mem => ?_⟩
      have named : name ∈ kinds.map ValueKind.name := listed ▸ mem
      obtain ⟨kind, -, same⟩ := List.mem_map.mp named
      exact ⟨kind, same⟩
  · rintro ⟨fits, known⟩
    cases fits with
    | oneText s =>
      obtain ⟨kind, rfl⟩ := known s (List.mem_singleton_self s)
      exact .oneClass kind
    | severalTexts texts =>
      rw [listedTexts, filterMap_text?] at known
      have named : texts ∈ Set.range (List.map ValueKind.name) := by
        rw [Set.range_list_map]
        exact known
      obtain ⟨kinds, rfl⟩ := named
      rw [List.map_map]
      exact .severalClasses kinds

theorem classes_takes : (classes options).Takes (FitAll options NodeType.object.shapes)
    fun _ => True := by
  unfold classes
  have known (names : Option (List String))
      (listed : names = (given? options "classes").map listedTexts) :
      Built.Takes ((names.getD []).mapM fun name => match ValueKind.ofName? name with
        | some kind => pure kind
        | none => throw (SchemaError.invalidOption "classes" (.unknownClass name)))
        (∀ name ∈ givenTexts options "classes", ∃ kind : ValueKind, kind.name = name)
        fun _ => True := by
    subst listed
    exact (Takes.mapM fun name _ => class_takes name).iff .rfl fun _ _ _ => trivial
  refine (Takes.bind (strings?_takes options "classes") fun names listed =>
    .bind (known names listed) fun kinds _ => .pure trivial).iff ?_ fun _ _ h => h
  rw [and_true, NodeType.shapes, FitAll, List.forall_mem_singleton]
  cases found : given? options "classes" with
  | none => simp [fitsAt_of_none found, givenTexts, found]
  | some value => simp [fitsAt_iff_of_some found, fits_classes_iff, givenTexts, found]

variable {read : Json → Built Node}
  (reads : ∀ value, value.size ≤ Json.sizeFields options →
    (read value).Takes (Declares value) fun node =>
      node.options.required = true ↔ AsksForValue value)

include reads

theorem arrayRules_takes : (arrayRules read options).Takes (FitAll options NodeType.array.shapes)
    fun rules => rules.WellFormed ↔ ArrayConsistent options := by
  unfold arrayRules
  refine takes_first (itemShape_takes reads) fun items tuple => ?_
  refine takes_first (policy?_takes reads "additional_items") fun additional policy => ?_
  refine takes_first (node?_takes reads "contains") fun contains _ => ?_
  refine takes_first (count?_takes options "min_items") fun minItems least => ?_
  refine takes_first (count?_takes options "max_items") fun maxItems most => ?_
  refine takes_first (flag_takes options "unique_items") fun unique _ => ?_
  have known (value : Json) := @fits_predicate_iff value
  refine takes_first (named_takes options "filter" known) fun filter _ => ?_
  refine takes_first (named_takes options "reject" known) fun reject _ => ?_
  refine takes_first (flag_takes options "parse_json") fun parseText _ => takes_last ?_
  subst least most
  constructor
  · intro h
    refine ⟨fun value found => ?_, h.length⟩
    cases tail : additional with
    | none =>
      rw [policy.1.mp tail] at found
      cases found
    | some policy => exact tuple.mp (h.tail policy tail)
  · intro h
    refine ⟨fun other tail => ?_, h.count⟩
    have given : given? options "additional_items" ≠ none := by
      intro missing
      cases tail.symm.trans (policy.1.mpr missing)
    obtain ⟨value, found⟩ := Option.ne_none_iff_exists'.mp given
    exact tuple.mpr (h.tail value found)

theorem patterns_takes {start : HashRules} (empty : start.patternProperties = []) :
    Built.Takes (nodeMap read options "pattern_properties" >>= fun patterns => patterns.foldlM
      (fun rules entry => HashRules.patternProperty rules entry.1 entry.2) start)
        (FitsAt options ("pattern_properties", .patternMap)) fun rules =>
          (∀ entry ∈ rules.patternProperties, entry.2.options.required = false) ↔
            ∀ field ∈ givenFields options "pattern_properties", ¬ AsksForValue field.2 := by
  have parse {patterns : Entries Node} (same : List.Forall₂ (fun field entry =>
      entry.1 = field.1 ∧ (entry.2.options.required = true ↔ AsksForValue field.2))
      (givenFields options "pattern_properties") patterns) :
      (∀ entry ∈ patterns, ∃ expr, Regex.Expr.parse? entry.1 = some expr) ↔
        ∀ field ∈ givenFields options "pattern_properties",
          ∃ expr, Regex.Expr.parse? field.1 = some expr :=
    (forall_mem_iff_of_forall₂ same fun field entry h => by rw [h.1]).symm
  refine (Takes.bind (nodeMap_takes reads "pattern_properties") fun patterns same =>
    (patternProperties_takes patterns start).iff (parse same) fun rules _ h => ?_).iff ?_
      fun _ _ h => h
  · have asks : (∀ field ∈ givenFields options "pattern_properties", ¬ AsksForValue field.2) ↔
        ∀ entry ∈ patterns, entry.2.options.required = false :=
      forall_mem_iff_of_forall₂ same fun field entry h => by simp [← h.2]
    rw [h, asks, empty]
    exact and_iff_right (List.forall_mem_nil _)
  · cases found : given? options "pattern_properties" with
    | none => simp [fitsAt_of_none found, givenFields, found]
    | some value =>
      rw [fitsAt_iff_of_some found, fitsAt_iff_of_some found, givenFields, found]
      constructor
      · rintro ⟨fits, parse⟩
        cases fits with
        | declarationMap declare => exact .patternMap parse declare
      · intro fits
        cases fits with
        | patternMap parse declare => exact ⟨.declarationMap declare, parse⟩

theorem hashRules_takes : (hashRules read options).Takes (FitAll options NodeType.hash.shapes)
    fun rules => rules.WellFormed ↔ HashConsistent options := by
  unfold hashRules
  refine takes_first (nodeMap_takes reads "properties") fun properties _ => ?_
  dsimp only
  refine takes_first₂ (patterns_takes options reads (patternProperties_declared properties))
    fun rules patterns => ?_
  refine takes_first (policy?_takes reads "additional_properties") fun additional policy => ?_
  refine takes_first₂ (pattern?_takes options "property_names") fun propertyNames _ => ?_
  refine takes_first (dependencies_takes options "dependencies") fun dependencies named => ?_
  refine takes_first (count?_takes options "min_properties") fun minProperties least => ?_
  refine takes_first (count?_takes options "max_properties") fun maxProperties most => ?_
  refine takes_first (ignored_takes options "ignore_obsolete_properties") fun ignored all => ?_
  refine takes_first (strings?_takes options "includes") fun includes listed => takes_last ?_
  subst least most
  have listed : includes.getD [] = givenTexts options "includes" := by rw [listed, givenTexts]
  have allowed : additional.getD .reject = .allow ↔
      given? options "additional_properties" = some (.bool true) := by
    rw [← policy.2]
    cases additional <;> simp
  constructor
  · intro h
    refine ⟨patterns.mp h.patterns, fun admitted => ?_, h.count, ?_, ?_⟩
    · rw [ne_eq, ← all]
      exact h.policies (allowed.mpr admitted)
    · rw [← named]
      exact h.dependencies
    · rw [← listed]
      exact h.includes
  · intro h
    refine ⟨patterns.mpr h.patterns, fun admitted => ?_, h.count, ?_, ?_⟩
    · rw [ne_eq, all]
      exact h.policies (allowed.mp admitted)
    · rw [named]
      exact h.dependencies
    · rw [listed]
      exact h.includes

/-! ### Types -/

theorem nodeOptions_takes :
    (nodeOptions read options).Takes (FitAll options (NodeType.sharedShapes.drop 1))
      fun shared => shared.required = true ↔ given? options "required" = some (.bool true) := by
  unfold nodeOptions
  refine takes_first (flag_takes options "required") fun required asked => ?_
  refine takes_first (flag_takes options "require_key") fun requireKey _ => ?_
  refine takes_anything "default" ?_
  refine takes_first (string?_takes options "title") fun title _ => ?_
  refine takes_first (string?_takes options "description") fun description _ => ?_
  refine takes_first (values?_takes options "examples") fun examples _ => ?_
  refine takes_first (values?_takes options "enum") fun allowed _ => ?_
  refine takes_first (string?_takes options "as") fun outputName _ => ?_
  exact takes_first (nodeMap_takes reads "definitions") fun definitions _ => takes_last asked

theorem kind_takes (type : NodeType) :
    (kind read options type).Takes (FitAll options type.shapes ∧
      ∀ key ∈ type.needs, ∃ value, given? options key = some value)
      fun kind => kind.WellFormed ↔ Consistent options type := by
  have only {x : Built Kind} (h : x.Takes (FitAll options type.shapes) fun kind =>
      kind.WellFormed ↔ Consistent options type) (free : type.needs = []) :
      x.Takes (FitAll options type.shapes ∧
        ∀ key ∈ type.needs, ∃ value, given? options key = some value) fun kind =>
          kind.WellFormed ↔ Consistent options type :=
    h.iff (by simp [free]) fun _ _ h => h
  cases type with
  | string => exact only ((stringRules_takes options).map fun rules h => h) rfl
  | integer => exact only ((numericRules_takes options).map fun rules h => h) rfl
  | number => exact only ((numericRules_takes options).map fun rules h => h) rfl
  | boolean =>
    exact only (takes_first (flag_takes options "cast_str") fun _ _ => takes_last .rfl) rfl
  | symbol => exact only (takes_last .rfl) rfl
  | object => exact only ((classes_takes options).map fun classes _ => .rfl) rfl
  | hash => exact only ((hashRules_takes options reads).map fun rules h => h) rfl
  | array => exact only ((arrayRules_takes options reads).map fun rules h => h) rfl
  | combination combinator =>
    refine (Takes.bind (alternatives_takes reads combinator) fun nodes h =>
      (flag_takes options "treat_blank_as_nil").map fun blankAsNull _ => h blankAsNull).iff ?_
        fun _ _ h => h
    simp only [NodeType.shapes, NodeType.needs, FitAll, List.forall_mem_cons]
    tauto
  | reference =>
    refine (Takes.bind (Q := ∃ value, given? options "path" = some value)
      ((string?_takes options "path").iff .rfl fun target fits h => And.intro fits h)
        fun target h => ?_).iff ?_ fun _ _ h => h
    · obtain ⟨fits, rfl⟩ := h
      cases found : given? options "path" with
      | none => exact (Takes.throw _).iff (by simp) fun _ _ h => h
      | some value =>
        cases fits value found with
        | text s =>
          refine (Takes.pure ?_).iff (by simp) fun _ _ h => h
          simp [Kind.WellFormed, Consistent, found]
    · simp only [NodeType.shapes, NodeType.needs, FitAll, List.forall_mem_singleton]

theorem build_takes {name : String} :
    (build read name options).Takes (∃ type : NodeType, (name = type.name ∨ name ∈ type.aliases) ∧
      (∀ key ∈ Entries.keys options,
        key ∈ Entries.keys (NodeType.sharedShapes ++ type.shapes)) ∧
      FitAll options (NodeType.sharedShapes.drop 1 ++ type.shapes) ∧
      (∀ key ∈ type.needs, ∃ value, given? options key = some value) ∧
      Consistent options type)
      fun node => node.options.required = true ↔
        given? options "required" = some (.bool true) := by
  unfold build
  cases known : NodeType.ofName? name with
  | none =>
    refine (Takes.throw _).iff ⟨False.elim, fun ⟨type, named, _⟩ => ?_⟩ fun _ _ h => h
    cases known.symm.trans (nodeType_eq_iff.mpr named)
  | some type =>
    have built (shared : NodeOptions) (asked : shared.required = true ↔
        given? options "required" = some (.bool true)) (kind : Kind)
        (h : kind.WellFormed ↔ Consistent options type) :
        (Node.ofParts shared kind).Takes (Consistent options type) fun node =>
          node.options.required = true ↔ given? options "required" = some (.bool true) :=
      ((check_takes kind).iff h fun _ _ h => h).map fun _ _ => asked
    refine (Takes.guard (.bind (nodeOptions_takes options reads) fun shared asked =>
      .bind (kind_takes options reads type) fun kind h => built shared asked kind h)).iff ?_
        fun _ _ h => h
    have allowed : ¬ (!((Entries.keys options).filter fun key => !type.accepts key).isEmpty) ↔
        ∀ key ∈ Entries.keys options,
          key ∈ Entries.keys (NodeType.sharedShapes ++ type.shapes) := by
      simp [List.filter_eq_nil_iff, ← accepts_iff]
    have only (other : NodeType) : name = other.name ∨ name ∈ other.aliases ↔ type = other := by
      rw [← nodeType_eq_iff, known, Option.some.injEq]
    rw [allowed]
    simp only [only, exists_eq_left', FitAll, List.forall_mem_append, and_assoc]

end Rules

/-- Options that are not given contradict nothing. -/
theorem consistent_of_bare {options : Options} (type : NodeType)
    (bare : ∀ key, key ≠ "type" → given? options key = none) : Consistent options type := by
  have counts (lower upper : String) (h : lower ≠ "type") : CountsInOrder options lower upper := by
    simp [CountsInOrder, givenCount, bare lower h]
  have numbers : NumbersConsistent options := by
    constructor
    · simp [givenNumber, bare]
    · simp [givenNumber, bare]
  cases type with
  | string => exact counts _ _ (by decide)
  | integer => exact numbers
  | number => exact numbers
  | hash =>
    refine ⟨?_, ?_, counts _ _ (by decide), ?_, ?_⟩
    · simp [givenFields, bare]
    · simp [bare]
    · simp [givenFields, bare, Entries.ofPairs]
    · simp [givenTexts, bare]
  | array =>
    refine ⟨?_, counts _ _ (by decide)⟩
    simp [bare]
  | combination combinator => cases combinator <;> simp [Consistent, bare]
  | reference => simp [Consistent, bare]
  | _ => trivial

/-- With no options but the type, only what the type cannot do without may be missing. -/
theorem bare_iff {options : Options} (type : NodeType)
    (bare : ∀ key, key ≠ "type" → given? options key = none)
    (only : ∀ key ∈ Entries.keys options, key = "type") :
    ((∀ key ∈ Entries.keys options,
        key ∈ Entries.keys (NodeType.sharedShapes ++ type.shapes)) ∧
      FitAll options (NodeType.sharedShapes.drop 1 ++ type.shapes) ∧
      (∀ key ∈ type.needs, ∃ value, given? options key = some value) ∧
      Consistent options type) ↔ type.needs = [] := by
  have allowed : ∀ key ∈ Entries.keys options,
      key ∈ Entries.keys (NodeType.sharedShapes ++ type.shapes) := by
    intro key mem
    rw [only key mem]
    exact List.mem_cons_self ..
  have fits : FitAll options (NodeType.sharedShapes.drop 1 ++ type.shapes) := by
    have others : ∀ entry ∈ NodeType.sharedShapes.drop 1 ++ type.shapes, entry.1 ≠ "type" := by
      cases type <;> simp [NodeType.sharedShapes, NodeType.shapes]
    exact fun entry mem => fitsAt_of_none (bare _ (others entry mem))
  have needs : (∀ key ∈ type.needs, ∃ value, given? options key = some value) ↔
      type.needs = [] := by
    have others : ∀ key ∈ type.needs, key ≠ "type" := by
      cases type <;> simp [NodeType.needs]
    refine ⟨fun given => List.eq_nil_iff_forall_not_mem.mpr fun key mem => ?_, by simp_all⟩
    obtain ⟨value, found⟩ := given key mem
    cases found.symm.trans (bare key (others key mem))
  rw [needs]
  exact ⟨fun h => h.2.2.1, fun none => ⟨allowed, fits, none, consistent_of_bare type bare⟩⟩

theorem declares_object_iff {options : Options} :
    Declares (.obj options) ↔ ∃ name, Entries.get? options "type" = some (.str name) ∧
      ∃ type : NodeType, (name = type.name ∨ name ∈ type.aliases) ∧
      (∀ key ∈ Entries.keys options,
        key ∈ Entries.keys (NodeType.sharedShapes ++ type.shapes)) ∧
      FitAll options (NodeType.sharedShapes.drop 1 ++ type.shapes) ∧
      (∀ key ∈ type.needs, ∃ value, given? options key = some value) ∧
      Consistent options type := by
  constructor
  · intro declares
    cases declares with
    | object named known allowed fits complete consistent =>
      exact ⟨_, named, _, known, allowed, (fitAll_cons.mp fits).2, complete, consistent⟩
  · rintro ⟨name, named, type, known, allowed, fits, complete, consistent⟩
    have text : FitsAt options ("type", .text) := by
      intro value found
      rw [given?, named] at found
      cases found
      exact .text name
    exact .object named known allowed (fitAll_cons.mpr ⟨text, fits⟩) complete consistent

theorem readWith_takes {read : Json → Built Node} {value : Json}
    (reads : ∀ inner, inner.size < value.size → (read inner).Takes (Declares inner) fun node =>
      node.options.required = true ↔ AsksForValue inner) :
    (readWith read value).Takes (Declares value) fun node =>
      node.options.required = true ↔ AsksForValue value := by
  cases value with
  | str name =>
    have bare : ∀ key, key ≠ "type" → given? [("type", Json.str name)] key = none := by
      intro key other
      simp [given?, Entries.get?, other.symm]
    refine (build_takes [] fun inner smaller => ?_).iff ?_ fun node _ h => ?_
    · cases inner <;> simp [Json.size, Json.sizeFields] at smaller
    · have declares : Declares (.str name) ↔ Declares (.obj [("type", .str name)]) :=
        ⟨fun h => by cases h; assumption, .name⟩
      rw [declares, declares_object_iff]
      simp only [bare_iff _ bare (by simp [Entries.keys]),
        @bare_iff [] _ (fun _ _ => rfl) (by simp [Entries.keys])]
      simp [Entries.get?]
    · simp [h, AsksForValue, given?]
  | obj options =>
    have built (name : String) (named : Entries.get? options "type" = some (.str name)) :
        (build read name options).Takes (Declares (.obj options)) fun node =>
          node.options.required = true ↔ AsksForValue (.obj options) := by
      refine (build_takes options fun inner smaller => reads inner ?_).iff ?_ fun node _ h => ?_
      · exact Nat.lt_succ_of_le smaller
      · simp [declares_object_iff, named]
      · simp [h, AsksForValue]
    have refused (error : SchemaError)
        (other : ∀ name, Entries.get? options "type" ≠ some (.str name)) :
        Built.Takes (throw error : Built Node) (Declares (.obj options)) fun node =>
          node.options.required = true ↔ AsksForValue (.obj options) := by
      refine (Takes.throw error).iff ⟨False.elim, fun declares => ?_⟩ fun _ _ h => h
      obtain ⟨name, named, -⟩ := declares_object_iff.mp declares
      exact other name named
    rw [readWith]
    split
    · next name named => exact built name named
    · next missing => exact refused _ (by simp [missing])
    · next missing => exact refused _ (by simp [missing])
    · next value other _ found => exact refused _ (by simpa [found] using other)
  | _ => exact (Takes.throw _).iff ⟨False.elim, fun declares => by cases declares⟩ fun _ _ h => h

/-- By induction on how deep declarations may nest. -/
theorem read_takes {fuel : Nat} {value : Json} (enough : value.size ≤ fuel) :
    (Declaration.read fuel value).Takes (Declares value) fun node =>
      node.options.required = true ↔ AsksForValue value := by
  induction fuel generalizing value with
  | zero => cases value <;> simp [Json.size] at enough
  | succ fuel ih =>
    exact readWith_takes fun inner smaller => ih (Nat.le_of_lt_succ (smaller.trans_le enough))

end Declaration

/-- A value is read just if the grammar derives it. -/
theorem Node.ofJson_succeeds_iff (value : Json) :
    (∃ node, Node.ofJson value = .ok node) ↔ Declaration.Declares value :=
  (Declaration.read_takes (Nat.le_refl value.size)).succeeds

end SchemaCast
