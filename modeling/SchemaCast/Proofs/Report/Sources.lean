import SchemaCast.Proofs.Report
import SchemaCast.Proofs.Validity.Hash

/-!
# Where messages come from

The check of a value at a place records at the current path, or below a key or an index what the
check of a part of the value records there. `Place.Notes` lists the ways in which a message comes by
its path; trials leave none.
-/
namespace SchemaCast

variable {σ : Type} {context : Context} {place : Place} {checkNode : NodeCheck σ}

/-- What the checks of parts of a value write, and a check of the whole value at a place may write
then: the path below the place, and the message. -/
inductive Place.Notes (context : Context) (W : Place → Json → List Segment → String → Prop)
    (place : Place) : Json → List Segment → String → Prop where
  | here {seen : Json} {message : String} : Notes context W place seen [] message
  | keyMissing {fields : Entries Json} {entry : String × Node} (absent : ¬ fields.contains entry.1) :
      Notes context W place (.obj fields) [.key entry.1] Violation.keyMissing.message
  | property {fields : Entries Json} {entry : String × Node} {around : List Definitions}
      {below : List Segment} {message : String} (step : place.Step context ⟨entry.2, around⟩)
      (inner : W ⟨entry.2, around⟩ ((fields.get? entry.1).getD .null) below message) :
      Notes context W place (.obj fields) (.key entry.1 :: below) message
  | extra {fields : Entries Json} {field : String × Json} {node : Node} {below : List Segment}
      {message : String} (mem : field ∈ fields) (owned : node ∈ place.node.children)
      (inner : W ⟨node, place.inner⟩ field.2 below message) :
      Notes context W place (.obj fields) (.key field.1 :: below) message
  | item {rules : ArrayRules} {seen item : Json} {elements : List Json} {index : Nat} {node : Node}
      {below : List Segment} {message : String} (kind : place.node.kind = .array rules)
      (read : rules.elements seen = .ok elements)
      (at? : (elements.filter rules.keeps)[index]? = some item)
      (due : rules.schemaAt? index = some node)
      (inner : W ⟨node, place.inner⟩ item below message) :
      Notes context W place seen (.index index :: below) message
  | reference {name : String} {target : Place} {seen : Json} {below : List Segment}
      {message : String} (kind : place.node.kind = .reference name)
      (leads : context.place? place.inner name = some target)
      (inner : W target seen below message) : Notes context W place seen below message

section Inner

variable {W : Place → Json → List Segment → String → Prop}
  (inner : ∀ target, place.Step context target → ∀ value,
    (checkNode target.node value (target.scope (.ofContext context))).Writes (fun _ => True)
      (W target value))

namespace HashRules

variable {rules : HashRules} {fields : Entries Json}

include inner in
theorem writes_property {entry : String × Node} {around : List Definitions}
    (step : place.Step context ⟨entry.2, around⟩) :
    (checkProperty checkNode fields ⟨.ofContext context, around⟩ entry).Writes (fun _ => True)
      (place.Notes context W (.obj fields)) := by
  refine .within _ (.seq (.recordIf fun required => ?_) ?_)
  · exact .keyMissing (by simpa using (Bool.and_eq_true_iff.mp required).2)
  · exact (inner _ step _).imp fun below message written => .property step written

include inner in
theorem writes_includes (kind : place.node.kind = .hash rules) (names taken : List String)
    (listed : ∀ name ∈ names, name ∈ rules.includes) :
    (checkIncludes checkNode rules fields ⟨.ofContext context, place.inner⟩ taken names).Writes
      (fun _ => True) (place.Notes context W (.obj fields)) := by
  induction names generalizing taken with
  | nil => exact .pure trivial
  | cons name rest ih =>
    refine .bind (.ofRun (gives_includedBy rules taken name)) ?_
    rintro ⟨fresh, _⟩ ⟨target, properties, ⟨leads, targetRules, hash, rfl⟩, rfl, hfresh⟩
    refine .seq (.forM fresh fun entry mem => ?_)
      (ih _ fun other hother => listed other (by simp [hother]))
    exact writes_property inner
      (.included kind (listed name (by simp)) leads hash ((hfresh entry).mp mem).1)

include inner in
theorem writes_extra (kind : place.node.kind = .hash rules) {field : String × Json}
    (mem : field ∈ fields) :
    (checkExtra checkNode rules ⟨.ofContext context, place.inner⟩ field).Writes (fun _ => True)
      (place.Notes context W (.obj fields)) := by
  have below {node : Node} (owned : node ∈ place.node.children) :
      (Check.within (.key field.1) (checkNode node field.2
        ⟨.ofContext context, place.inner⟩)).Writes (fun _ => True)
        (place.Notes context W (.obj fields)) :=
    .within _ ((inner _ (.child owned) _).imp fun _ _ written => .extra mem owned written)
  unfold checkExtra
  cases found : rules.patternFor? field.1 with
  | some node => exact below (place.node.mem_children_of_patternFor? kind found)
  | none =>
    cases policy : rules.additional with
    | allow => exact .pure trivial
    | schema node => exact below (place.node.mem_children_of_additional kind policy)
    | reject => exact .recordIf fun _ => .here

include inner in
theorem writes_validate (kind : place.node.kind = .hash rules) :
    (rules.validate checkNode fields ⟨.ofContext context, place.inner⟩).Writes (fun _ => True)
      (place.Notes context W (.obj fields)) := by
  refine .seq (.recordAll fun _ _ => .here) (.seq (.forM _ fun entry mem => ?_) ?_)
  · exact writes_property inner (.child (place.node.mem_children_of_property kind mem))
  · refine .bind (writes_includes inner kind rules.includes [] fun _ h => h) fun taken _ => ?_
    refine .seq (.forM _ fun field mem => ?_)
      (.seq (.recordAll fun _ _ => .here) (.recordAll fun _ _ => .here))
    exact writes_extra inner kind (List.mem_filter.mp mem).1

end HashRules

namespace ArrayRules

variable {rules : ArrayRules} {value : Json} {elements : List Json}

include inner in
theorem writes_items (kind : place.node.kind = .array rules)
    (read : rules.elements value = .ok elements) (before items : List Json)
    (same : elements.filter rules.keeps = before ++ items) :
    (rules.checkItems checkNode ⟨.ofContext context, place.inner⟩ before.length items).Writes
      (fun _ => True) (place.Notes context W value) := by
  induction items generalizing before with
  | nil => exact .pure trivial
  | cons item rest ih =>
    have at? : (elements.filter rules.keeps)[before.length]? = some item := by simp [same]
    rw [checkItems_cons]
    refine .seq ?_ (by simpa using ih (before ++ [item]) (by simp [same]))
    unfold checkItem
    cases due : rules.schemaAt? before.length with
    | none => exact .pure trivial
    | some node =>
      have owned := place.node.mem_children_of_schemaAt? kind due
      exact .within _ ((inner _ (.child owned) item).imp fun _ _ written =>
        .item kind read at? due written)

include inner in
theorem writes_validate (kind : place.node.kind = .array rules) (value : Json) :
    (rules.validate checkNode value ⟨.ofContext context, place.inner⟩).Writes (fun _ => True)
      (place.Notes context W value) := by
  cases read : rules.elements value with
  | error violation =>
    simp only [validate, read]
    exact .record .here
  | ok elements =>
    rw [validate_of_elements _ _ _ read]
    refine .seq (.recordAll fun _ _ => .here) (.seq ?_ ?_)
    · unfold checkShape
      cases rules.wrongCount? (elements.filter rules.keeps).length with
      | some expected => exact .record .here
      | none => exact writes_items inner kind read [] _ rfl
    · unfold checkContains
      cases rules.contains with
      | none => exact .pure trivial
      | some node => exact .bind (.silent _) fun _ _ => .recordIf fun _ => .here

end ArrayRules

include inner in
theorem Kind.writes_validate (value : Json) :
    (place.node.kind.validate checkNode value ⟨.ofContext context, place.inner⟩).Writes
      (fun _ => True) (place.Notes context W value) := by
  cases kind : place.node.kind with
  | string rules =>
    cases value with
    | str s => exact .recordAll fun _ _ => .here
    | _ => exact .pure trivial
  | integer rules => exact .recordAll fun _ _ => .here
  | number rules => exact .recordAll fun _ _ => .here
  | boolean castText => exact .recordAll fun _ _ => .here
  | symbol => exact .pure trivial
  | object classes => exact .pure trivial
  | hash rules =>
    cases value with
    | obj fields => exact HashRules.writes_validate inner kind
    | _ => exact .pure trivial
  | array rules => exact ArrayRules.writes_validate inner kind value
  | combination combinator alternatives blankAsNull =>
    exact .bind (.silent _) fun _ _ => .recordAll fun _ _ => .here
  | reference name =>
    refine .bind (.ofRun (Scope.gives_target place.inner name)) ?_
    rintro _ ⟨target, leads, rfl⟩
    exact (inner target (.reference kind leads) value).imp fun _ _ written =>
      .reference kind leads written

include inner in
/-- The check of a value at a place writes what stops it at once, or what the rules of the place
have to say about the value that the place sees. -/
theorem Place.writes_checkWith (value : Json) :
    (place.node.checkWith checkNode value (place.scope (.ofContext context))).Writes
      (fun _ => True) fun below message =>
        (below = [] ∧ ∃ violation, place.node.present value = .error (some violation) ∧
          message = violation.message) ∨
        ∃ seen, place.node.present value = .ok seen ∧
          place.Notes context W seen below message := by
  unfold Node.checkWith
  rw [place.enter_scope]
  cases present : place.node.present value with
  | error violation =>
    refine .recordAll fun other mem => .inl ⟨rfl, other, ?_, rfl⟩
    rw [Option.mem_toList.mp mem]
  | ok seen =>
    exact (Check.Writes.seq (.recordAll fun _ _ => .here) (Kind.writes_validate inner seen)).imp
      fun _ _ written => .inr ⟨seen, rfl, written⟩

end Inner

end SchemaCast
