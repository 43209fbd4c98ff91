import SchemaCast.Proofs.CastCalls
import SchemaCast.Proofs.Renewal.Hash

/-!
# Casts that renew values

A plain node neither fills in, renames nor picks values, so that what it makes of a value that
satisfies it is a value of the same shape: texts may have become the numbers, truth values or arrays
that they spell, keys may have changed places. If casts by the inner nodes renew values, then so
does the cast by a plain node.
-/
namespace SchemaCast

variable {σ : Type} {context : Context} {Sat Again : Place → Json → Prop} {place : Place}
  {checkNode : NodeCheck σ} {castNode : NodeCast σ} {Q : σ → Prop} {E : Fault → Prop}

/-- A kind does not change, drop or pick values: no converting format, no test of elements, no
further keys that are ignored, and `anyOf` or `not` as the only combinators. -/
def Kind.Plain : Kind → Prop
  | .string rules => ∀ format ∈ rules.format, ¬ format.converts
  | .hash rules => rules.ignored = .none
  | .array rules =>
    rules.unique = false ∧ rules.contains = none ∧ rules.filter = none ∧ rules.reject = none
  | .combination combinator _ blankAsNull =>
    (combinator = .anyOf ∨ combinator = .not) ∧ blankAsNull = false
  | _ => True

/-- A node without a default, a list of allowed values or an output name, whose kind is plain. -/
structure Node.Plain (node : Node) : Prop where
  default : node.default? = none
  allowed : node.options.allowed = none
  outputName : node.options.outputName = none
  kind : node.kind.Plain

/-- A plain node sees values as they are. -/
theorem Node.Plain.seen {node : Node} (plain : node.Plain) (value : Json) :
    node.seen value = value := by
  have kind := plain.kind
  unfold Node.seen
  split
  · rfl
  · next h _ =>
    rw [h] at kind
    cases kind.2
  · rfl

theorem Node.Plain.present {node : Node} (plain : node.Plain) {value : Json}
    (given : ¬ value.isNull) (type : node.kind.accepts value) :
    node.present value = .ok value := by
  simp [Node.present, plain.seen, given, type]

/-- A step that does not lead into a `not`. -/
def Place.Opens (context : Context) (place target : Place) : Prop :=
  place.Step context target ∧ ∀ alternatives blankAsNull,
    place.node.kind ≠ .combination .not alternatives blankAsNull

theorem StringRules.cast_of_plain {rules : StringRules}
    (plain : ∀ format ∈ rules.format, ¬ format.converts) (value : Json) :
    rules.cast value = value := by
  unfold StringRules.cast
  split
  · next format s found =>
    split
    · have unconverted := plain format found
      cases format with
      | integer => exact absurd rfl unconverted
      | number => exact absurd rfl unconverted
      | boolean => exact absurd rfl unconverted
      | integerList => exact absurd rfl unconverted
      | _ => rfl
    · rfl
  · rfl

/-- The numbers that texts are cast to. -/
def ValueKind.ofNumbers (integer : Bool) : ValueKind := if integer then .integer else .number

namespace NumericRules

theorem covers_of_accepts {integer : Bool} {s : String} (h : (textFormat integer).accepts s) :
    (ValueKind.ofNumbers integer).covers ((textFormat integer).cast s) := by
  cases integer with
  | true =>
    obtain ⟨n, hn⟩ := Option.isSome_iff_exists.mp (Bool.and_eq_true_iff.mp h).2
    have read : (textFormat true).cast s = .int n := by simp [textFormat, Format.cast, hn]
    rw [read]
    rfl
  | false =>
    obtain ⟨number, hnumber⟩ := Option.isSome_iff_exists.mp (Bool.and_eq_true_iff.mp h).2
    have read : (textFormat false).cast s = number := by simp [textFormat, Format.cast, hnumber]
    rw [read]
    unfold Format.number? at hnumber
    split at hnumber
    · cases hnumber
      rfl
    · split at hnumber
      · split at hnumber
        · cases hnumber
          rfl
        · cases hnumber
      · cases hnumber

/-- A value that follows the rules of a number is left alone, or it is a text, and the number that
it spells follows the rules. -/
theorem cast_cases {rules : NumericRules} {integer : Bool} {value : Json}
    (met : rules.Admits integer value) :
    rules.cast integer value = value ∨
      (rules.cast integer value).isNull = value.isNull ∧
        (ValueKind.ofNumbers integer).covers (rules.cast integer value) ∧
        rules.Admits integer (rules.cast integer value) := by
  cases value with
  | str s =>
    simp only [cast]
    split
    · next read =>
      have number := covers_of_accepts (Bool.and_eq_true_iff.mp read).2
      have bounds : rules.Bounds ((textFormat integer).cast s) := met.2
      right
      generalize (textFormat integer).cast s = output at number bounds
      cases output with
      | int n => exact ⟨rfl, number, bounds⟩
      | float x => exact ⟨rfl, number, bounds⟩
      | _ => cases integer <;> cases number
    · exact .inl rfl
  | _ => exact .inl rfl

end NumericRules

/-- A value is cast to a truth value, or it is left alone. -/
theorem Truth.cast_cases (castText : Bool) (value : Json) :
    Truth.cast castText value = value ∨
      value.isNull = false ∧ ∃ b, Truth.cast castText value = .bool b := by
  cases value with
  | str s =>
    simp only [cast]
    split
    · exact .inr ⟨rfl, _, rfl⟩
    · exact .inl rfl
  | _ => exact .inl rfl

namespace ArrayRules

variable (renews : ∀ target, place.Step context target → ∀ value, Sat target value →
  (castNode target.node value (target.scope (.ofContext context))).Holds Q E
    (target.Renews Again value))

include renews in
theorem renews_castItems {rules : ArrayRules} (kind : place.node.kind = .array rules)
    (unsearched : rules.contains = none) (index : Nat) (items : List Json)
    (met : rules.MeetsFrom Sat place index items) :
    (rules.castItems checkNode castNode ⟨.ofContext context, place.inner⟩ index items).Holds Q E
      fun outputs => outputs.length = items.length ∧ rules.MeetsFrom Again place index outputs := by
  induction items generalizing index with
  | nil => exact .pure ⟨rfl, by simp [MeetsFrom]⟩
  | cons item rest ih =>
    obtain ⟨due, others⟩ := meetsFrom_cons.mp met
    have first : (rules.castItem checkNode castNode ⟨.ofContext context, place.inner⟩ index
        item).Holds Q E fun output => ∀ node, rules.schemaAt? index = some node →
          Again ⟨node, place.inner⟩ output := by
      unfold castItem castByPlace
      rw [unsearched]
      cases found : rules.schemaAt? index with
      | none => exact .pure (by simp)
      | some node =>
        have owned := place.node.mem_children_of_schemaAt? kind found
        refine (renews _ (.child owned) item (due node found)).imp fun output houtput => ?_
        rintro _ ⟨⟩
        exact houtput.satisfied
    refine .bind first fun output houtput => .bind (ih (index + 1) others) fun outputs hrest => ?_
    obtain ⟨count, met⟩ := hrest
    exact .pure ⟨by simp [count], meetsFrom_cons.mpr ⟨houtput, met⟩⟩

include renews in
theorem renews_cast {rules : ArrayRules} (kind : place.node.kind = .array rules)
    (plain : (Kind.array rules).Plain) {value : Json} (met : rules.Meets Sat place value) :
    (rules.cast checkNode castNode value ⟨.ofContext context, place.inner⟩).Holds Q E fun output =>
      ∃ items, output = .arr items ∧ rules.Meets Again place (.arr items) := by
  obtain ⟨unique, unsearched, unfiltered, unrejected⟩ := plain
  have keeps (items : List Json) : items.filter rules.keeps = items := by
    simp [ArrayRules.keeps, unfiltered, unrejected]
  obtain ⟨elements, read, met⟩ := met
  rw [keeps] at met
  obtain ⟨count, from0⟩ := meetsShape_iff.mp met.shape
  simp only [cast, read, keeps]
  refine .bind (renews_castItems renews kind unsearched 0 elements from0) fun items hitems => ?_
  obtain ⟨length, again⟩ := hitems
  refine .pure ⟨items, rfl, items, rfl, ?_⟩
  rw [keeps]
  refine ⟨?_, ?_, ?_, meetsShape_iff.mpr ⟨?_, again⟩, ?_⟩
  · rw [length]
    exact met.minItems
  · rw [length]
    exact met.maxItems
  · simp [unique]
  · rw [length]
    exact count
  · simp [unsearched]

end ArrayRules

theorem Combinator.renews_castFirst {value : Json} {alternatives : List Node}
    (tried : ∀ node ∈ alternatives,
      (Check.trial (checkNode node value ⟨.ofContext context, place.inner⟩)).Holds Q E
        fun log => log.isEmpty ↔ Sat ⟨node, place.inner⟩ value)
    (renews : ∀ node ∈ alternatives, Sat ⟨node, place.inner⟩ value →
      (castNode node value ⟨.ofContext context, place.inner⟩).Holds Q E
        (Place.Renews Again ⟨node, place.inner⟩ value))
    (met : ∃ node ∈ alternatives, Sat ⟨node, place.inner⟩ value) :
    (castFirst checkNode castNode value ⟨.ofContext context, place.inner⟩ alternatives).Holds Q E
      fun output => ∃ node ∈ alternatives, Place.Renews Again ⟨node, place.inner⟩ value output := by
  induction alternatives with
  | nil => simp at met
  | cons node rest ih =>
    refine .bind (tried node (by simp)) fun log hlog => ?_
    split
    · next empty =>
      exact (renews node (by simp) (hlog.mp empty)).imp fun output h => ⟨node, by simp, h⟩
    · next messages =>
      have unmet : ¬ Sat ⟨node, place.inner⟩ value := fun h => messages (hlog.mpr h)
      obtain ⟨other, mem, sat⟩ := met
      have later : other ∈ rest := by
        rcases List.mem_cons.mp mem with rfl | mem
        · exact absurd sat unmet
        · exact mem
      refine (ih (fun node mem => tried node (by simp [mem])) (fun node mem => renews node
        (by simp [mem])) ⟨other, later, sat⟩).imp fun output h => ?_
      obtain ⟨found, mem, renewed⟩ := h
      exact ⟨found, by simp [mem], renewed⟩

/-- A value on which `anyOf` or `not` agree is cast to one on which they agree. -/
theorem Combinator.renews_cast {combinator : Combinator} {alternatives : List Node} {value : Json}
    (plain : combinator = .anyOf ∨ combinator = .not)
    (tried : ∀ node ∈ alternatives,
      (Check.trial (checkNode node value ⟨.ofContext context, place.inner⟩)).Holds Q E
        fun log => log.isEmpty ↔ Sat ⟨node, place.inner⟩ value)
    (renews : combinator = .anyOf → ∀ node ∈ alternatives, Sat ⟨node, place.inner⟩ value →
      (castNode node value ⟨.ofContext context, place.inner⟩).Holds Q E
        (Place.Renews Again ⟨node, place.inner⟩ value))
    (met : combinator.Meets Sat place alternatives value)
    (still : combinator.Meets Again place alternatives value) :
    (combinator.cast checkNode castNode alternatives value ⟨.ofContext context, place.inner⟩).Holds
      Q E fun output => output.isNull = value.isNull ∧
        combinator.Meets Again place alternatives output := by
  rcases plain with rfl | rfl
  · refine (renews_castFirst tried (renews rfl) met).imp fun output houtput => ?_
    obtain ⟨node, mem, chosen⟩ := houtput
    exact ⟨chosen.missing, node, mem, chosen.satisfied⟩
  · exact .pure ⟨rfl, still⟩

namespace Place

variable (renews : ∀ target, place.Opens context target → ∀ value, Sat target value →
    (castNode target.node value (target.scope (.ofContext context))).Holds Q E
      (target.Renews Again value))
  (regular : ∀ rules, place.node.kind = .hash rules → rules.Regular context place)

include renews regular in
/-- A value that a plain kind accepts is cast to one that it accepts. -/
theorem renews_castKind {value : Json} (plain : place.node.Plain)
    (tried : ∀ combinator alternatives blankAsNull,
      place.node.kind = .combination combinator alternatives blankAsNull → ∀ node ∈ alternatives,
        (Check.trial (checkNode node value ⟨.ofContext context, place.inner⟩)).Holds Q E
          fun log => log.isEmpty ↔ Sat ⟨node, place.inner⟩ value)
    (met : place.MeetsPresent context Sat value) (still : place.MeetsPresent context Again value) :
    (place.node.kind.cast checkNode castNode value ⟨.ofContext context, place.inner⟩).Holds Q E
      (place.Renews (MeetsPresent context Again) value) := by
  have renewed {output : Json} (missing : output.isNull = value.isNull)
      (type : place.node.kind.accepts output)
      (kind : place.node.kind.Meets context Again place output) :
      place.Renews (MeetsPresent context Again) value output :=
    ⟨missing, type, by simp [plain.allowed], kind⟩
  have unchanged {output : Json} (same : output = value) :
      place.Renews (MeetsPresent context Again) value output := by
    rw [same]
    exact ⟨rfl, still⟩
  have opens (single : ∀ combinator alternatives blankAsNull,
      place.node.kind ≠ .combination combinator alternatives blankAsNull) (target : Place)
      (step : place.Step context target) : place.Opens context target :=
    ⟨step, fun _ _ => single _ _ _⟩
  have plainKind := plain.kind
  have type := met.type
  have metKind := met.kind
  have stillKind := still.kind
  cases kind : place.node.kind with
  | string rules =>
    rw [kind] at plainKind
    exact .pure (unchanged (StringRules.cast_of_plain plainKind value))
  | integer rules =>
    rw [kind] at metKind renewed
    refine .pure ?_
    rcases NumericRules.cast_cases metKind with same | ⟨missing, number, again⟩
    · exact unchanged same
    · exact renewed missing (Bool.or_eq_true_iff.mpr (.inl number)) again
  | number rules =>
    rw [kind] at metKind renewed
    refine .pure ?_
    rcases NumericRules.cast_cases metKind with same | ⟨missing, number, again⟩
    · exact unchanged same
    · exact renewed missing (Bool.or_eq_true_iff.mpr (.inl number)) again
  | boolean castText =>
    rw [kind] at renewed
    refine .pure ?_
    rcases Truth.cast_cases castText value with same | ⟨given, b, truth⟩
    · exact unchanged same
    · rw [truth]
      exact renewed given.symm rfl (by rintro s ⟨⟩)
  | symbol => exact .pure (unchanged rfl)
  | object classes => exact .pure (unchanged rfl)
  | hash rules =>
    rw [kind] at plainKind metKind type renewed
    cases value with
    | obj fields =>
      refine (HashRules.renews_cast (fun target step => renews target (opens (by simp [kind]) target
        step)) kind plainKind (regular rules kind) (metKind fields rfl)).imp fun _ houtput => ?_
      obtain ⟨fields', rfl, again⟩ := houtput
      exact renewed rfl rfl (by rintro _ ⟨⟩; exact again)
    | _ => cases type
  | array rules =>
    rw [kind] at plainKind metKind type renewed
    refine (ArrayRules.renews_cast (fun target step => renews target (opens (by simp [kind]) target
      step)) kind plainKind metKind).imp fun _ houtput => ?_
    obtain ⟨items, rfl, again⟩ := houtput
    have given : value.isNull = false := by
      cases value with
      | null => simp [Kind.accepts, ValueKind.covers] at type
      | _ => rfl
    exact renewed given.symm rfl again
  | combination combinator alternatives blankAsNull =>
    rw [kind] at plainKind metKind stillKind renewed
    refine (Combinator.renews_cast plainKind.1 (tried combinator alternatives blankAsNull kind)
      (fun any node mem => renews _ ⟨.child ?_, ?_⟩ value) metKind stillKind).imp
      fun output houtput => renewed houtput.1 rfl houtput.2
    · simpa [Node.children, kind] using mem
    · simp [kind, any]
  | reference name =>
    rw [kind] at metKind renewed
    obtain ⟨target, leads, sat⟩ := metKind
    rw [Kind.cast, Scope.target_of_leads leads, pure_bind]
    exact (renews target (opens (by simp [kind]) target (.reference kind leads)) value sat).imp
      fun output houtput => renewed houtput.missing rfl ⟨target, leads, houtput.satisfied⟩

include renews regular in
/-- A value that a plain node accepts is cast to one that it accepts. -/
theorem renews_castWith {value : Json} (plain : place.node.Plain)
    (tried : place.node.present value = .ok value → ∀ combinator alternatives blankAsNull,
      place.node.kind = .combination combinator alternatives blankAsNull → ∀ node ∈ alternatives,
        (Check.trial (checkNode node value ⟨.ofContext context, place.inner⟩)).Holds Q E
          fun log => log.isEmpty ↔ Sat ⟨node, place.inner⟩ value)
    (met : place.Meets context Sat value) (still : place.Meets context Again value) :
    (place.node.castWith checkNode castNode value (place.scope (.ofContext context))).Holds Q E
      (place.Renews (Meets context Again) value) := by
  unfold Node.castWith
  rw [plain.seen, plain.default, place.enter_scope]
  by_cases missing : value.isNull
  · simp only [missing, if_true]
    have null : value = .null := by
      cases value with
      | null => rfl
      | _ => cases missing
    rw [null] at still ⊢
    exact .pure ⟨rfl, still⟩
  · have given (Sat : Place → Json → Prop) {value : Json} (given : ¬ value.isNull) :
        place.Meets context Sat value ↔ place.MeetsPresent context Sat value := by
      unfold Meets
      rw [plain.seen, if_neg given]
    rw [given _ missing] at met still
    simp only [missing]
    have tried := tried (plain.present missing met.type)
    refine (renews_castKind renews regular plain tried met still).imp fun output houtput => ?_
    refine ⟨houtput.missing, (given _ ?_).mpr houtput.satisfied⟩
    rwa [houtput.missing]

end Place

end SchemaCast
