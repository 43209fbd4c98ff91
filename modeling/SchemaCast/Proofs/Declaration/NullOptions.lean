import SchemaCast.Proofs.Declaration.Congruence

/-!
# Null options

An option that is null counts as missing, wherever the declaration stands that has it. `NullFor`
relates a declaration with a null option to the same declaration without that option; the place may
be the declaration itself or any declaration inside an option of it. Both are read as the same node
or turned down with the same error.
-/
namespace SchemaCast.Declaration

mutual

/-- Two declarations are the same, but for one option in one place that is null in the first one
and missing in the second one. The type that the object names, if it names one, has the option. -/
inductive NullFor : Json → Json → Prop where
  | here {options : Options} {key : String}
      (accepted : ∀ name type, Entries.get? options "type" = some (.str name) →
        NodeType.ofName? name = some type → type.accepts key) :
    NullFor (.obj (Entries.insert options key .null)) (.obj (Entries.erase options key))
  | inside {options : Options} {name key : String} {type : NodeType} {shape : OptionShape}
      {value value' : Json} (named : Entries.get? options "type" = some (.str name))
      (known : NodeType.ofName? name = some type)
      (option : (key, shape) ∈ NodeType.sharedShapes ++ type.shapes)
      (within : NullWithin shape value value') :
    NullFor (.obj (Entries.insert options key value)) (.obj (Entries.insert options key value'))

/-- The values of an option that are the same, but for such an option of one declaration. -/
inductive NullWithin : OptionShape → Json → Json → Prop where
  | declaration {value value' : Json} (inner : NullFor value value') :
    NullWithin .declaration value value'
  | single {value value' : Json} (inner : NullFor value value') :
    NullWithin .declarationOrList value value'
  | onlyIf {value value' : Json} (inner : NullFor value value') : NullWithin .policy value value'
  | item {shape : OptionShape} (lists : shape = .declarations ∨ shape = .declarationOrList)
      {before after : List Json} {value value' : Json} (inner : NullFor value value') :
    NullWithin shape (.arr (before ++ value :: after)) (.arr (before ++ value' :: after))
  | field {shape : OptionShape} (maps : shape = .declarationMap ∨ shape = .patternMap)
      {before after : List (String × Json)} {name : String} {value value' : Json}
      (inner : NullFor value value') :
    NullWithin shape (.obj (before ++ (name, value) :: after))
      (.obj (before ++ (name, value') :: after))

end

namespace NullFor

variable {value value' : Json}

theorem exists_obj (h : NullFor value value') :
    ∃ options options', value = .obj options ∧ value' = .obj options' := by
  cases h with
  | here => exact ⟨_, _, rfl, rfl⟩
  | inside => exact ⟨_, _, rfl, rfl⟩

theorem ne_arr (h : NullFor value value') :
    (∀ items, value ≠ .arr items) ∧ ∀ items, value' ≠ .arr items := by
  obtain ⟨options, options', rfl, rfl⟩ := h.exists_obj
  simp

theorem ne_bool (h : NullFor value value') : (∀ b, value ≠ .bool b) ∧ ∀ b, value' ≠ .bool b := by
  obtain ⟨options, options', rfl, rfl⟩ := h.exists_obj
  simp

end NullFor

theorem given?_insert_self {options : Options} {key : String} {value : Json}
    (present : value.isNull = false) :
    given? (Entries.insert options key value) key = some value := by
  simp [given?, present]

theorem given?_insert_of_ne {options : Options} {key other : String} {value : Json}
    (h : other ≠ key) : given? (Entries.insert options key value) other = given? options other := by
  rw [given?, given?, Entries.get?_insert_of_ne _ _ h]

/-- A null option is given as little as one that is not there. -/
theorem given?_insert_null (options : Options) (key other : String) :
    given? (Entries.insert options key .null) other = given? (Entries.erase options key) other := by
  by_cases h : other = key
  · subst h
    simp [given?, Json.isNull]
  · rw [given?_insert_of_ne h, given?, given?, Entries.get?_erase_of_ne _ h]

theorem keys_erase (options : Options) (key : String) :
    (Entries.erase options key).keys = options.keys.filter (· ≠ key) := by
  rw [Entries.keys, Entries.keys, Entries.erase, List.filter_map]
  rfl

/-- Whether a key that is not counted is there makes no difference to those that are. -/
theorem filter_keys_erase {options : Options} {key : String} {counts : String → Bool}
    (h : counts key = false) :
    (Entries.erase options key).keys.filter counts = options.keys.filter counts := by
  rw [keys_erase, List.filter_filter]
  apply List.filter_congr
  intro other _
  by_cases same : other = key
  · simp [same, h]
  · simp [same]

theorem filter_keys_insert {options : Options} {key : String} {value : Json}
    {counts : String → Bool} (h : counts key = false) :
    (Entries.insert options key value).keys.filter counts = options.keys.filter counts := by
  rw [Entries.keys_insert]
  split
  · rfl
  · simp [h]

/-- A key has one shape in the table of a type. -/
theorem shape_unique {type : NodeType} {key : String} {shape shape' : OptionShape}
    (h : (key, shape) ∈ NodeType.sharedShapes ++ type.shapes)
    (h' : (key, shape') ∈ NodeType.sharedShapes ++ type.shapes) : shape = shape' := by
  have once : (Entries.keys (NodeType.sharedShapes ++ type.shapes)).Nodup := by
    cases type with
    | combination combinator => cases combinator <;> decide
    | _ => decide
  have found := Entries.get?_of_mem once h
  rw [Entries.get?_of_mem once h', Option.some.injEq] at found
  exact found.symm

namespace NullWithin

variable {shape : OptionShape} {value value' : Json}

theorem not_plain (h : NullWithin shape value value') : ¬shape.IsPlain := by
  cases h with
  | item lists => rcases lists with rfl | rfl <;> exact id
  | field maps => rcases maps with rfl | rfl <;> exact id
  | _ => exact id

theorem isNull_eq (h : NullWithin shape value value') :
    value.isNull = false ∧ value'.isNull = false := by
  have objects {value value' : Json} (inner : NullFor value value') :
      value.isNull = false ∧ value'.isNull = false := by
    obtain ⟨options, options', rfl, rfl⟩ := inner.exists_obj
    exact ⟨rfl, rfl⟩
  cases h with
  | declaration inner => exact objects inner
  | single inner => exact objects inner
  | onlyIf inner => exact objects inner
  | item => exact ⟨rfl, rfl⟩
  | field => exact ⟨rfl, rfl⟩

/-- The option with the null inside is no type name. -/
theorem ne_type (h : NullWithin shape value value') {type : NodeType} {key : String}
    (option : (key, shape) ∈ NodeType.sharedShapes ++ type.shapes) : key ≠ "type" := by
  rintro rfl
  have text : ("type", OptionShape.text) ∈ NodeType.sharedShapes ++ type.shapes := by
    simp [NodeType.sharedShapes]
  have plain := h.not_plain
  rw [shape_unique option text] at plain
  exact plain trivial

end NullWithin

/-- One reader takes what is given in the same way for the same. -/
theorem AgreeAt.of_given {read : Json → Built Node} {options options' : Options}
    {entry : String × OptionShape}
    (h : given? options entry.1 = given? options' entry.1) :
    AgreeAt read read options options' entry := by
  rw [AgreeAt, ← h]
  cases given? options entry.1 with
  | none => exact .none
  | some value => exact .some (.of_size fun _ _ => rfl)

/-- The object itself has the null option. -/
theorem readWith_insert_null {read : Json → Built Node} {options : Options} {key : String}
    (accepted : ∀ name type, Entries.get? options "type" = some (.str name) →
      NodeType.ofName? name = some type → type.accepts key) :
    readWith read (.obj (Entries.insert options key .null)) =
      readWith read (.obj (Entries.erase options key)) := by
  by_cases isType : key = "type"
  · -- without a type both are turned down for that
    subst isType
    simp [readWith]
  · have named : Entries.get? (Entries.insert options key .null) "type" =
        Entries.get? options "type" := Entries.get?_insert_of_ne _ _ (Ne.symm isType)
    have named' : Entries.get? (Entries.erase options key) "type" =
        Entries.get? options "type" := Entries.get?_erase_of_ne _ (Ne.symm isType)
    apply readWith_eq
    · rw [named, named']
    · intro name type found known
      rw [named] at found
      have uncounted : (!type.accepts key) = false := by
        rw [accepted name type found known]
        rfl
      constructor
      · rw [filter_keys_insert uncounted, filter_keys_erase uncounted]
      · intro entry _
        exact .of_given (given?_insert_null options key entry.1)

/-- The declaration with the null option is inside an option. -/
theorem readWith_insert {options : Options} {key : String} {type : NodeType}
    {shape : OptionShape} {value value' : Json} {name : String}
    (named : Entries.get? options "type" = some (.str name))
    (known : NodeType.ofName? name = some type)
    (option : (key, shape) ∈ NodeType.sharedShapes ++ type.shapes)
    (within : NullWithin shape value value')
    (agree : Agree Node.ofJson Node.ofJson shape value value') :
    readWith Node.ofJson (.obj (Entries.insert options key value)) =
      readWith Node.ofJson (.obj (Entries.insert options key value')) := by
  have other : "type" ≠ key := (within.ne_type option).symm
  have named (value : Json) : Entries.get? (Entries.insert options key value) "type" =
      some (.str name) := by
    rw [Entries.get?_insert_of_ne _ _ other, named]
  apply readWith_eq
  · rw [named, named]
  · intro name' type' found known'
    rw [named, Option.some.injEq, Json.str.injEq] at found
    subst found
    cases known.symm.trans known'
    constructor
    · rw [Entries.keys_insert, Entries.keys_insert]
    · rintro ⟨key', shape'⟩ mem
      by_cases same : key' = key
      · subst same
        cases shape_unique option mem
        rw [AgreeAt, given?_insert_self within.isNull_eq.1, given?_insert_self within.isNull_eq.2]
        exact .some agree
      · apply AgreeAt.of_given
        rw [given?_insert_of_ne same, given?_insert_of_ne same]

theorem forall₂_middle {α : Type} {R : α → α → Prop} (self : ∀ a, R a a) {a b : α} (h : R a b)
    (before after : List α) : List.Forall₂ R (before ++ a :: after) (before ++ b :: after) := by
  induction before with
  | nil => exact .cons h (List.forall₂_same.2 fun c _ => self c)
  | cons first rest ih => exact .cons (self first) ih

mutual

theorem NullFor.ofJson_eq : ∀ {value value' : Json}, NullFor value value' →
    Node.ofJson value = Node.ofJson value'
  | _, _, .here accepted => by
    rw [Node.ofJson_eq, Node.ofJson_eq (.obj _)]
    exact readWith_insert_null accepted
  | _, _, .inside named known option within => by
    rw [Node.ofJson_eq, Node.ofJson_eq (.obj _)]
    exact readWith_insert named known option within within.agree

theorem NullWithin.agree : ∀ {shape : OptionShape} {value value' : Json},
    NullWithin shape value value' → Agree Node.ofJson Node.ofJson shape value value'
  | _, _, _, .declaration inner => .declaration inner.ofJson_eq
  | _, _, _, .single inner => .single inner.ne_arr.1 inner.ne_arr.2 inner.ofJson_eq
  | _, _, _, .onlyIf inner => .onlyIf inner.ne_bool.1 inner.ne_bool.2 inner.ofJson_eq
  | _, _, _, .item lists inner => by
    have same := forall₂_middle (R := fun a b => Node.ofJson a = Node.ofJson b) (fun _ => rfl)
      inner.ofJson_eq
    rcases lists with rfl | rfl
    · exact .declarations (same _ _)
    · exact .several (same _ _)
  | _, _, _, @NullWithin.field _ maps before after name value value' inner => by
    have same := forall₂_middle
      (R := fun a b : String × Json => a.1 = b.1 ∧ Node.ofJson a.2 = Node.ofJson b.2)
      (fun _ => ⟨rfl, rfl⟩) (a := (name, value)) (b := (name, value')) ⟨rfl, inner.ofJson_eq⟩
      before after
    rcases maps with rfl | rfl
    · exact .declarationMap same
    · exact .patternMap (.declarationMap same)

end

/-- **A null option is the same as a missing one.** In a declaration, any option that its type has
may be set to null or be left out, and in a declaration inside an option of another one, however
deep, too: the node is the same, or the error is. -/
theorem ofJson_null_option :
    (∀ (options : Options) (key : String),
      (∀ name type, Entries.get? options "type" = some (.str name) →
        NodeType.ofName? name = some type → type.accepts key) →
      Node.ofJson (.obj (Entries.insert options key .null)) =
        Node.ofJson (.obj (Entries.erase options key))) ∧
    ∀ value value', NullFor value value' → Node.ofJson value = Node.ofJson value' := by
  constructor
  · intro options key accepted
    exact (NullFor.here accepted).ofJson_eq
  · intro value value' h
    exact h.ofJson_eq

theorem ofJson_null_option_nested :
    Node.ofJson (.obj [("type", .str "array"),
      ("items", .obj [("type", .str "string"), ("pattern", .null)])]) =
    Node.ofJson (.obj [("type", .str "array"), ("items", .obj [("type", .str "string")])]) := by
  have inner : NullFor (.obj (Entries.insert [("type", .str "string")] "pattern" .null))
      (.obj (Entries.erase [("type", .str "string")] "pattern")) := by
    apply NullFor.here
    intro name type named known
    cases named
    cases known
    decide
  have outer : NullFor
      (.obj (Entries.insert [("type", .str "array")] "items"
        (.obj (Entries.insert [("type", .str "string")] "pattern" .null))))
      (.obj (Entries.insert [("type", .str "array")] "items"
        (.obj (Entries.erase [("type", .str "string")] "pattern")))) := by
    apply NullFor.inside rfl rfl _ (.single inner)
    simp [NodeType.sharedShapes, NodeType.shapes]
  exact ofJson_null_option.2 _ _ outer

end SchemaCast.Declaration
