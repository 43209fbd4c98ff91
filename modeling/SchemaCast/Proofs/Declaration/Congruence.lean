import SchemaCast.Proofs.Declaration.Acceptance

/-!
# What a declaration is read from

A declaration is read from what its options are given as and from what its inner declarations are
read as, and from nothing else. Two declarations whose options agree in this sense, entry by entry
of the table of their type, are read as the same node or turned down with the same error
(`Declaration.readWith_eq`). One consequence is that the bound on the depth has no influence
beyond the size of a declaration (`Node.ofJson_eq`).
-/
namespace SchemaCast

theorem Json.size_pos (value : Json) : 0 < value.size := by
  cases value <;> simp [Json.size]

/-- No declarations stand in values of the shape. -/
def OptionShape.IsPlain : OptionShape → Prop
  | .declaration | .declarations | .declarationOrList | .declarationMap | .patternMap
  | .policy => False
  | _ => True

namespace Declaration

section Agreement

variable (f g : Json → Built Node)

/-- Two values look the same to two ways of reading inner declarations: outside of declarations
they are equal, and the declarations in them are read alike. -/
inductive Agree : OptionShape → Json → Json → Prop where
  | plain {shape : OptionShape} (plain : shape.IsPlain) (value : Json) : Agree shape value value
  | declaration {value value' : Json} (same : f value = g value') :
    Agree .declaration value value'
  | declarations {items items' : List Json}
      (same : List.Forall₂ (fun a b => f a = g b) items items') :
    Agree .declarations (.arr items) (.arr items')
  | noDeclarations (value : Json) (other : ∀ items, value ≠ .arr items) :
    Agree .declarations value value
  | several {items items' : List Json} (same : List.Forall₂ (fun a b => f a = g b) items items') :
    Agree .declarationOrList (.arr items) (.arr items')
  | single {value value' : Json} (other : ∀ items, value ≠ .arr items)
      (other' : ∀ items, value' ≠ .arr items) (same : f value = g value') :
    Agree .declarationOrList value value'
  | declarationMap {fields fields' : List (String × Json)}
      (same : List.Forall₂ (fun a b => a.1 = b.1 ∧ f a.2 = g b.2) fields fields') :
    Agree .declarationMap (.obj fields) (.obj fields')
  | noDeclarationMap (value : Json) (other : ∀ fields, value ≠ .obj fields) :
    Agree .declarationMap value value
  | patternMap {value value' : Json} (same : Agree .declarationMap value value') :
    Agree .patternMap value value'
  | allOrNothing (b : Bool) : Agree .policy (.bool b) (.bool b)
  | onlyIf {value value' : Json} (other : ∀ b, value ≠ .bool b) (other' : ∀ b, value' ≠ .bool b)
      (same : f value = g value') : Agree .policy value value'

/-- An option is given as values that look the same, or on neither side. -/
def AgreeAt (options options' : Options) (entry : String × OptionShape) : Prop :=
  Option.Rel (Agree f g entry.2) (given? options entry.1) (given? options' entry.1)

end Agreement

section Readers

variable {f g : Json → Built Node} {options options' : Options} {key : String}
  {shape : OptionShape}

theorem Agree.eq {value value' : Json} (h : Agree f g shape value value')
    (plain : shape.IsPlain) : value = value' := by
  cases h with
  | plain => rfl
  | _ => exact plain.elim

theorem AgreeAt.given (h : AgreeAt f g options options' (key, shape)) :
    (given? options key = none ∧ given? options' key = none) ∨
      ∃ value value', given? options key = some value ∧ given? options' key = some value' ∧
        Agree f g shape value value' := by
  unfold AgreeAt at h
  generalize given? options key = a at h ⊢
  generalize given? options' key = b at h ⊢
  cases h with
  | none => exact .inl ⟨rfl, rfl⟩
  | some agree => exact .inr ⟨_, _, rfl, rfl, agree⟩

theorem AgreeAt.eq (h : AgreeAt f g options options' (key, shape)) (plain : shape.IsPlain) :
    given? options key = given? options' key := by
  rcases h.given with ⟨missing, missing'⟩ | ⟨value, value', found, found', agree⟩
  · rw [missing, missing']
  · rw [found, found', agree.eq plain]

/-- A value looks the same to readers that agree on everything within its size. -/
theorem Agree.of_size {value : Json} (h : ∀ inner, inner.size ≤ value.size → f inner = g inner) :
    Agree f g shape value value := by
  have whole : f value = g value := h value (Nat.le_refl _)
  have items (items : List Json) (hitems : value = .arr items) :
      List.Forall₂ (fun a b => f a = g b) items items := by
    rw [List.forall₂_same]
    intro item mem
    apply h
    have := Json.size_le_of_mem_items mem
    rw [hitems, Json.size]
    omega
  have fields (fields : List (String × Json)) (hfields : value = .obj fields) :
      List.Forall₂ (fun a b => a.1 = b.1 ∧ f a.2 = g b.2) fields fields := by
    rw [List.forall₂_same]
    intro field mem
    refine ⟨rfl, h _ ?_⟩
    have := Json.size_le_of_mem_fields mem
    rw [hfields, Json.size]
    omega
  have map : Agree f g .declarationMap value value := by
    cases value with
    | obj map => exact .declarationMap (fields map rfl)
    | _ => exact .noDeclarationMap _ (by simp)
  cases shape with
  | declaration => exact .declaration whole
  | declarations =>
    cases value with
    | arr list => exact .declarations (items list rfl)
    | _ => exact .noDeclarations _ (by simp)
  | declarationOrList =>
    cases value with
    | arr list => exact .several (items list rfl)
    | _ => exact .single (by simp) (by simp) whole
  | declarationMap => exact map
  | patternMap => exact .patternMap map
  | policy =>
    cases value with
    | bool b => exact .allOrNothing b
    | _ => exact .onlyIf (by simp) (by simp) whole
  | _ => exact .plain (by trivial) value

/-! ### Readers of inner declarations -/

theorem mapM_eq {α β γ : Type} {f : α → Built γ} {g : β → Built γ} {as : List α} {bs : List β}
    (same : List.Forall₂ (fun a b => f a = g b) as bs) : as.mapM f = bs.mapM g := by
  induction same with
  | nil => rfl
  | cons first _ ih => rw [List.mapM_cons, List.mapM_cons, first, ih]

theorem mapM_fields_eq {fields fields' : List (String × Json)}
    (same : List.Forall₂ (fun a b => a.1 = b.1 ∧ f a.2 = g b.2) fields fields') :
    (fields.mapM fun field => do return (field.1, ← f field.2)) =
      fields'.mapM fun field => do return (field.1, ← g field.2) := by
  apply mapM_eq
  refine same.imp ?_
  intro a b h
  rw [h.1, h.2]

theorem node?_eq (h : AgreeAt f g options options' (key, .declaration)) :
    node? f options key = node? g options' key := by
  rcases h.given with ⟨missing, missing'⟩ | ⟨value, value', found, found', agree⟩
  · rw [node?, node?, missing, missing']
    rfl
  · rw [node?, node?, found, found']
    cases agree with
    | plain plain => exact plain.elim
    | declaration same => rw [Option.mapM_some, Option.mapM_some, same]

theorem nodeMap_eq (h : AgreeAt f g options options' (key, .declarationMap)) :
    nodeMap f options key = nodeMap g options' key := by
  rcases h.given with ⟨missing, missing'⟩ | ⟨value, value', found, found', agree⟩
  · simp only [nodeMap, missing, missing']
  · simp only [nodeMap, found, found']
    cases agree with
    | plain plain => exact plain.elim
    | declarationMap same => exact mapM_fields_eq same
    | noDeclarationMap value other =>
      cases value with
      | obj fields => exact absurd rfl (other fields)
      | _ => rfl

theorem AgreeAt.of_patternMap (h : AgreeAt f g options options' (key, .patternMap)) :
    AgreeAt f g options options' (key, .declarationMap) := by
  rcases h.given with ⟨missing, missing'⟩ | ⟨value, value', found, found', agree⟩
  · rw [AgreeAt, missing, missing']
    exact .none
  · rw [AgreeAt, found, found']
    cases agree with
    | plain plain => exact plain.elim
    | patternMap same => exact .some same

theorem policy?_of_other {read : Json → Built Node} {value : Json}
    (found : given? options key = some value) (other : ∀ b, value ≠ .bool b) :
    policy? read options key = do return some (.schema (← read value)) := by
  simp only [policy?, found]
  cases value with
  | bool b => exact absurd rfl (other b)
  | _ => rfl

theorem policy?_eq (h : AgreeAt f g options options' (key, .policy)) :
    policy? f options key = policy? g options' key := by
  rcases h.given with ⟨missing, missing'⟩ | ⟨value, value', found, found', agree⟩
  · simp only [policy?, missing, missing']
  · cases agree with
    | plain plain => exact plain.elim
    | allOrNothing b => cases b <;> simp only [policy?, found, found']
    | onlyIf other other' same =>
      rw [policy?_of_other found other, policy?_of_other found' other', same]

theorem itemShape_of_other {read : Json → Built Node} {value : Json}
    (found : given? options "items" = some value) (other : ∀ items, value ≠ .arr items) :
    itemShape read options = do return .list (← read value) := by
  simp only [itemShape, found]

theorem itemShape_eq (h : AgreeAt f g options options' ("items", .declarationOrList)) :
    itemShape f options = itemShape g options' := by
  rcases h.given with ⟨missing, missing'⟩ | ⟨value, value', found, found', agree⟩
  · simp only [itemShape, missing, missing']
  · cases agree with
    | plain plain => exact plain.elim
    | several same => simp only [itemShape, found, found', mapM_eq same]
    | single other other' same =>
      rw [itemShape_of_other found other, itemShape_of_other found' other', same]

theorem alternatives_of_other {read : Json → Built Node} {value : Json}
    (found : given? options "of" = some value) (other : ∀ items, value ≠ .arr items) :
    alternatives read .not options = do return [← read value] := by
  simp only [alternatives, found]

theorem alternatives_eq {combinator : Combinator}
    (h : AgreeAt f g options options' ("of", NodeType.alternativesShape combinator)) :
    alternatives f combinator options = alternatives g combinator options' := by
  rcases h.given with ⟨missing, missing'⟩ | ⟨value, value', found, found', agree⟩
  · cases combinator <;> simp only [alternatives, missing, missing']
  · cases combinator with
    | not =>
      cases agree with
      | plain plain => exact plain.elim
      | several same => simp only [alternatives, found, found', mapM_eq same]
      | single other other' same =>
        rw [alternatives_of_other found other, alternatives_of_other found' other', same]
    | _ =>
      cases agree with
      | plain plain => exact plain.elim
      | declarations same => simp only [alternatives, found, found', mapM_eq same]
      | noDeclarations value other =>
        cases value with
        | arr items => exact absurd rfl (other items)
        | _ => simp only [alternatives, found, found']

/-! ### Readers of a type -/

theorem option?_eq {α : Type} (read : Json → Except OptionProblem α)
    (h : given? options key = given? options' key) :
    option? read options key = option? read options' key := by
  rw [option?, option?, h]

theorem flag_eq (h : given? options key = given? options' key) :
    flag options key = flag options' key := by
  rw [flag, flag, bool?, option?_eq _ h]

theorem nodeOptions_eq (h : ∀ entry ∈ NodeType.sharedShapes, AgreeAt f g options options' entry) :
    nodeOptions f options = nodeOptions g options' := by
  simp only [NodeType.sharedShapes, List.forall_mem_cons] at h
  obtain ⟨-, required, requireKey, default, title, description, examples, allowed, outputName,
    definitions, -⟩ := h
  simp only [nodeOptions, flag_eq (required.eq trivial), flag_eq (requireKey.eq trivial),
    default.eq trivial, string?, values?, option?_eq _ (title.eq trivial),
    option?_eq _ (description.eq trivial), option?_eq _ (examples.eq trivial),
    option?_eq _ (allowed.eq trivial), option?_eq _ (outputName.eq trivial),
    nodeMap_eq definitions]

theorem ignored_eq (h : given? options key = given? options' key) :
    ignored options key = ignored options' key := by
  simp only [ignored, h, strings?, option?_eq _ h]

theorem stringRules_eq (h : ∀ entry ∈ NodeType.string.shapes, AgreeAt f g options options' entry) :
    stringRules options = stringRules options' := by
  simp only [NodeType.shapes, List.forall_mem_cons] at h
  obtain ⟨minLength, maxLength, pattern, format, allowBlank, -⟩ := h
  simp only [stringRules, count?, string?, bool?, option?_eq _ (minLength.eq trivial),
    option?_eq _ (maxLength.eq trivial), option?_eq _ (pattern.eq trivial),
    option?_eq _ (format.eq trivial), option?_eq _ (allowBlank.eq trivial)]

theorem numericRules_eq
    (h : ∀ entry ∈ NodeType.integer.shapes, AgreeAt f g options options' entry) :
    numericRules options = numericRules options' := by
  simp only [NodeType.shapes, List.forall_mem_cons] at h
  obtain ⟨minimum, maximum, exclusiveMinimum, exclusiveMaximum, multipleOf, castText, -⟩ := h
  simp only [numericRules, number?, option?_eq _ (minimum.eq trivial),
    option?_eq _ (maximum.eq trivial), option?_eq _ (exclusiveMinimum.eq trivial),
    option?_eq _ (exclusiveMaximum.eq trivial), option?_eq _ (multipleOf.eq trivial),
    flag_eq (castText.eq trivial)]

theorem hashRules_eq (h : ∀ entry ∈ NodeType.hash.shapes, AgreeAt f g options options' entry) :
    hashRules f options = hashRules g options' := by
  simp only [NodeType.shapes, List.forall_mem_cons] at h
  obtain ⟨properties, patterns, additional, propertyNames, dependencies, minProperties,
    maxProperties, tolerated, includes, -⟩ := h
  simp only [hashRules, string?, count?, strings?, nodeMap_eq properties,
    nodeMap_eq patterns.of_patternMap, policy?_eq additional, option?_eq _ (propertyNames.eq trivial),
    option?_eq _ (dependencies.eq trivial), option?_eq _ (minProperties.eq trivial),
    option?_eq _ (maxProperties.eq trivial), ignored_eq (tolerated.eq trivial),
    option?_eq _ (includes.eq trivial)]

theorem arrayRules_eq (h : ∀ entry ∈ NodeType.array.shapes, AgreeAt f g options options' entry) :
    arrayRules f options = arrayRules g options' := by
  simp only [NodeType.shapes, List.forall_mem_cons] at h
  obtain ⟨items, additional, contains, minItems, maxItems, unique, filter, reject, parseText,
    -⟩ := h
  simp only [arrayRules, count?, predicate?, itemShape_eq items, policy?_eq additional,
    node?_eq contains, option?_eq _ (minItems.eq trivial), option?_eq _ (maxItems.eq trivial),
    flag_eq (unique.eq trivial), option?_eq _ (filter.eq trivial),
    option?_eq _ (reject.eq trivial), flag_eq (parseText.eq trivial)]

/-- The rules of a type follow from how the options of its table are read. -/
theorem kind_eq {type : NodeType} (h : ∀ entry ∈ type.shapes, AgreeAt f g options options' entry) :
    kind f options type = kind g options' type := by
  cases type with
  | string => rw [kind, kind, stringRules_eq h]
  | integer => rw [kind, kind, numericRules_eq h]
  | number => rw [kind, kind, numericRules_eq h]
  | boolean =>
    simp only [NodeType.shapes, List.forall_mem_cons] at h
    rw [kind, kind, flag_eq (h.1.eq trivial)]
  | symbol => rfl
  | object =>
    simp only [NodeType.shapes, List.forall_mem_cons] at h
    rw [kind, kind, classes, classes, strings?, option?_eq _ (h.1.eq trivial)]
  | hash => rw [kind, kind, hashRules_eq h]
  | array => rw [kind, kind, arrayRules_eq h]
  | combination combinator =>
    simp only [NodeType.shapes, List.forall_mem_cons] at h
    rw [kind, kind, alternatives_eq h.1, flag_eq (h.2.1.eq trivial)]
  | reference =>
    simp only [NodeType.shapes, List.forall_mem_cons] at h
    rw [kind, kind, string?, option?_eq _ (h.1.eq trivial)]

/-- Two declarations of one type are alike: the same keys are out of place, and the options of the
type are given as values that look the same. -/
structure Alike (f g : Json → Built Node) (type : NodeType) (options options' : Options) :
    Prop where
  disallowed : (options.keys.filter fun key => !type.accepts key) =
    options'.keys.filter fun key => !type.accepts key
  agree : ∀ entry ∈ NodeType.sharedShapes ++ type.shapes, AgreeAt f g options options' entry

theorem build_eq {name : String}
    (h : ∀ type, NodeType.ofName? name = some type → Alike f g type options options') :
    build f name options = build g name options' := by
  unfold build
  cases known : NodeType.ofName? name with
  | none => rfl
  | some type =>
    obtain ⟨disallowed, agree⟩ := h type known
    rw [List.forall_mem_append] at agree
    simp only [disallowed, nodeOptions_eq agree.1, kind_eq agree.2]

end Readers

/-- Objects with the same type and alike options are read alike. -/
theorem readWith_eq {f g : Json → Built Node} {options options' : Options}
    (named : Entries.get? options "type" = Entries.get? options' "type")
    (alike : ∀ name type, Entries.get? options "type" = some (.str name) →
      NodeType.ofName? name = some type → Alike f g type options options') :
    readWith f (.obj options) = readWith g (.obj options') := by
  simp only [readWith, ← named]
  cases found : Entries.get? options "type" with
  | none => rfl
  | some value =>
    cases value with
    | str name => exact build_eq fun type known => alike name type found known
    | _ => rfl

/-- Readers that agree on all that is smaller than a value read the value alike. -/
theorem readWith_eq_of_size {f g : Json → Built Node} {value : Json}
    (h : ∀ inner, inner.size < value.size → f inner = g inner) :
    readWith f value = readWith g value := by
  have alike (options : Options) (within : Json.sizeFields options < value.size)
      (type : NodeType) : Alike f g type options options := by
    refine ⟨rfl, ?_⟩
    intro entry _
    unfold AgreeAt
    cases found : given? options entry.1 with
    | none => exact .none
    | some value =>
      have size := size_le_of_given? found
      exact .some (Agree.of_size fun inner small => h inner (by omega))
  cases value with
  | str name => exact build_eq fun type _ => alike [] (by simp [Json.sizeFields, Json.size]) type
  | obj options =>
    exact readWith_eq rfl fun _ type _ _ => alike options (by simp [Json.size]) type
  | _ => rfl

/-- The bound on the depth has no influence beyond the size of a declaration. -/
theorem read_eq {value : Json} {fuel more : Nat} (enough : value.size ≤ fuel)
    (enough' : value.size ≤ more) : read fuel value = read more value := by
  have positive := value.size_pos
  induction fuel generalizing value more with
  | zero => omega
  | succ fuel ih =>
    obtain ⟨more, rfl⟩ : ∃ n, more = n + 1 := ⟨more - 1, by omega⟩
    apply readWith_eq_of_size
    intro inner small
    exact ih (by omega) (by omega) inner.size_pos

end Declaration

/-- A declaration is read by its own reader on the inside. -/
theorem Node.ofJson_eq (value : Json) :
    Node.ofJson value = Declaration.readWith Node.ofJson value := by
  have positive := value.size_pos
  obtain ⟨fuel, size⟩ : ∃ n, value.size = n + 1 := ⟨value.size - 1, by omega⟩
  rw [Node.ofJson, size]
  apply Declaration.readWith_eq_of_size
  intro inner small
  exact Declaration.read_eq (by omega) (Nat.le_refl _)

end SchemaCast
