import SchemaCast.Proofs.Simulation.Validation
import SchemaCast.Proofs.Verdict

/-!
# Validation of an array

If the checks of the inner nodes tell whether the places inside are satisfied, then the check of an
array tells whether its rules are met. The check goes from index to index and asks each time which
schema is due; the rules speak of the positions of a tuple and of its tail.
-/
namespace SchemaCast

variable {σ : Type} {context : Context} {Sat : Place → Json → Prop} {place : Place}
  {checkNode : NodeCheck σ}

namespace ArrayRules

theorem sizeViolations_eq_nil (rules : ArrayRules) (items : List Json) :
    rules.sizeViolations items = [] ↔
      (∀ least ∈ rules.minItems, least ≤ items.length) ∧
        (∀ most ∈ rules.maxItems, items.length ≤ most) ∧
        (rules.unique → items.Pairwise fun item other => ¬ other.beq item) := by
  simp only [sizeViolations, List.append_eq_nil_iff, violationsOf_eq_nil, and_assoc,
    ← hasDuplicates_eq_false]
  simp

/-- Every item satisfies the schema that is due at its index. -/
def MeetsFrom (Sat : Place → Json → Prop) (place : Place) (rules : ArrayRules) (index : Nat)
    (items : List Json) : Prop :=
  ∀ offset item, items[offset]? = some item → ∀ node, rules.schemaAt? (index + offset) = some node →
    Sat ⟨node, place.inner⟩ item

theorem meetsFrom_cons {rules : ArrayRules} {index : Nat} {item : Json} {rest : List Json} :
    rules.MeetsFrom Sat place index (item :: rest) ↔
      (∀ node, rules.schemaAt? index = some node → Sat ⟨node, place.inner⟩ item) ∧
        rules.MeetsFrom Sat place (index + 1) rest := by
  constructor
  · intro h
    refine ⟨fun node due => h 0 item rfl node due, fun offset other hother node due => ?_⟩
    refine h (offset + 1) other hother node ?_
    rwa [Nat.add_assoc, Nat.add_comm 1 offset] at due
  · rintro ⟨first, others⟩ offset other hother node due
    cases offset with
    | zero =>
      cases hother
      exact first node due
    | succ offset =>
      refine others offset other hother node ?_
      rwa [Nat.add_assoc, Nat.add_comm 1 offset]

theorem meetsFrom_tuple {rules : ArrayRules} {positions : List Node} {items : List Json}
    (shape : rules.items = .tuple positions) :
    rules.MeetsFrom Sat place 0 items ↔
      (∀ entry ∈ positions.zip items, Sat ⟨entry.1, place.inner⟩ entry.2) ∧
        ∀ node, rules.tail = .schema node →
          ∀ item ∈ items.drop positions.length, Sat ⟨node, place.inner⟩ item := by
  unfold MeetsFrom schemaAt?
  simp only [shape, Nat.zero_add]
  constructor
  · intro h
    constructor
    · rintro ⟨node, item⟩ mem
      obtain ⟨index, hindex⟩ := List.mem_iff_getElem?.mp mem
      obtain ⟨hnode, hitem⟩ := List.getElem?_zip_eq_some.mp hindex
      exact h index item hitem node (by simp [hnode])
    · intro node tail item mem
      obtain ⟨index, hindex⟩ := List.mem_iff_getElem?.mp mem
      rw [List.getElem?_drop] at hindex
      have behind : positions[positions.length + index]? = none :=
        List.getElem?_eq_none_iff.mpr (by omega)
      exact h _ item hindex node (by rw [behind, tail])
  · rintro ⟨front, back⟩ offset item hitem node due
    cases hposition : positions[offset]? with
    | some position =>
      simp only [hposition] at due
      cases due
      exact front (node, item)
        (List.mem_iff_getElem?.mpr ⟨offset, List.getElem?_zip_eq_some.mpr ⟨hposition, hitem⟩⟩)
    | none =>
      have behind := List.getElem?_eq_none_iff.mp hposition
      have mem : item ∈ items.drop positions.length := by
        refine List.mem_iff_getElem?.mpr ⟨offset - positions.length, ?_⟩
        rwa [List.getElem?_drop, Nat.add_sub_cancel' behind]
      cases tail : rules.tail with
      | schema policy =>
        simp only [hposition, tail] at due
        cases due
        exact back node tail item mem
      | reject => simp [hposition, tail] at due
      | allow => simp [hposition, tail] at due

/-- A shape is met if the number of items fits and each one satisfies the schema that is due. -/
theorem meetsShape_iff {rules : ArrayRules} {items : List Json} :
    rules.MeetsShape Sat place items ↔
      rules.wrongCount? items.length = none ∧ rules.MeetsFrom Sat place 0 items := by
  cases shape : rules.items with
  | any => simp [MeetsShape, wrongCount?, MeetsFrom, schemaAt?, shape]
  | list node =>
    simp only [MeetsShape, wrongCount?, MeetsFrom, schemaAt?, shape, true_and, Option.some.injEq,
      forall_eq', List.mem_iff_getElem?, forall_exists_index]
    exact forall_comm
  | tuple positions =>
    have count : rules.wrongCount? items.length = none ↔
        positions.length ≤ items.length ∧
          (rules.tail = .reject → items.length = positions.length) := by
      unfold wrongCount?
      cases tail : rules.tail <;> simp [shape] <;> omega
    rw [meetsFrom_tuple shape, count]
    unfold MeetsShape
    simp only [shape]
    cases tail : rules.tail with
    | reject =>
      constructor
      · intro h
        obtain ⟨least, front, same⟩ := h
        exact ⟨⟨least, fun _ => same⟩, front, fun _ other => by cases other⟩
      · intro h
        obtain ⟨⟨least, same⟩, front, _⟩ := h
        exact ⟨least, front, same rfl⟩
    | allow => simp
    | schema node => simp

section Nested

variable (inner : ∀ target, place.Step context target → ∀ value,
  (checkNode target.node value (target.scope (.ofContext context))).Tells (fun _ => True)
    (Sat target value))

include inner in
theorem tells_items {rules : ArrayRules} (kind : place.node.kind = .array rules) (index : Nat)
    (items : List Json) :
    (rules.checkItems checkNode ⟨.ofContext context, place.inner⟩ index items).Tells
      (fun _ => True) (rules.MeetsFrom Sat place index items) := by
  induction items generalizing index with
  | nil => exact (Check.Tells.pure trivial).congr (by simp [MeetsFrom])
  | cons item rest ih =>
    have first : (rules.checkItem checkNode ⟨.ofContext context, place.inner⟩ index item).Tells
        (fun _ => True) (∀ node, rules.schemaAt? index = some node →
          Sat ⟨node, place.inner⟩ item) := by
      unfold checkItem
      cases due : rules.schemaAt? index with
      | none => exact (Check.Tells.pure trivial).congr (by simp)
      | some node =>
        have owned := place.node.mem_children_of_schemaAt? kind due
        exact (Check.Tells.within _ (inner _ (.child owned) item)).congr (by simp)
    rw [checkItems_cons]
    exact (first.seq (ih (index + 1))).congr meetsFrom_cons.symm

include inner in
theorem gives_anyMatches {node : Node} (owned : node ∈ place.node.children)
    (items : List Json) :
    (anyMatches checkNode node ⟨.ofContext context, place.inner⟩ items).Gives
      fun found => found ↔ ∃ item ∈ items, Sat ⟨node, place.inner⟩ item := by
  induction items with
  | nil => exact .pure (by simp)
  | cons item rest ih =>
    refine .bind (Check.Tells.trial (inner _ (.child owned) item)) ?_
    intro log hlog
    split
    · next empty => exact .pure (by simp [hlog.mp empty])
    · next messages =>
      have unmet : ¬ Sat ⟨node, place.inner⟩ item := fun h => messages (hlog.mpr h)
      simp only [List.mem_cons, exists_eq_or_imp, unmet, false_or]
      exact ih

include inner in
theorem tells_validate {rules : ArrayRules} (kind : place.node.kind = .array rules)
    (value : Json) :
    (rules.validate checkNode value ⟨.ofContext context, place.inner⟩).Tells (fun _ => True)
      (rules.Meets Sat place value) := by
  unfold Meets
  cases read : rules.elements value with
  | error violation =>
    simp only [validate, read]
    exact (Check.Tells.record violation).congr (by simp)
  | ok elements =>
    rw [validate_of_elements _ _ _ read]
    generalize hitems : elements.filter rules.keeps = items
    have shape : (rules.checkShape checkNode ⟨.ofContext context, place.inner⟩ items).Tells
        (fun _ => True) (rules.MeetsShape Sat place items) := by
      unfold checkShape
      rw [meetsShape_iff]
      cases rules.wrongCount? items.length with
      | some expected => exact (Check.Tells.record _).congr (by simp)
      | none => exact (tells_items inner kind 0 items).congr (by simp)
    have contains : (rules.checkContains checkNode ⟨.ofContext context, place.inner⟩ items).Tells
        (fun _ => True)
        (∀ node ∈ rules.contains, ∃ item ∈ items, Sat ⟨node, place.inner⟩ item) := by
      unfold checkContains
      cases found : rules.contains with
      | none => exact (Check.Tells.pure trivial).congr (by simp)
      | some node =>
        have owned := place.node.mem_children_of_contains kind found
        refine (Check.Tells.bind (.ofRun (gives_anyMatches inner owned items)) ?_).congr
          (iff_of_eq (true_and _))
        intro matched hmatched
        exact (Check.Tells.recordIf _ _).congr (by simp [← hmatched])
    refine (Check.Tells.seq (.recordAll _) (shape.seq contains)).congr ?_
    rw [sizeViolations_eq_nil]
    constructor
    · intro h
      obtain ⟨⟨minItems, maxItems, unique⟩, shape, contains⟩ := h
      exact ⟨elements, rfl, by rw [hitems]; exact ⟨minItems, maxItems, unique, shape, contains⟩⟩
    · intro h
      obtain ⟨_, ⟨⟩, h⟩ := h
      rw [hitems] at h
      exact ⟨⟨h.minItems, h.maxItems, h.unique⟩, h.shape, h.contains⟩

end Nested

end ArrayRules

end SchemaCast
