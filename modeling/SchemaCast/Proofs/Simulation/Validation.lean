import SchemaCast.Proofs.Parts
import SchemaCast.Proofs.Simulation.Basic

/-!
# Validations of related inner nodes

Two validations of one value at one place, with inner checks that a simulation relates, are
related as well. The lemmas follow the definitions in `Validation`, kind by kind.
-/
namespace SchemaCast

namespace ArrayRules

variable {σ : Type} (checkNode : NodeCheck σ) (rules : ArrayRules) (scope : Scope σ)

/-- The check of one element at its place. -/
def checkItem (index : Nat) (item : Json) : Check σ Unit :=
  match rules.schemaAt? index with
  | some node => Check.within (.index index) (checkNode node item scope)
  | none => pure ()

theorem checkItems_cons (index : Nat) (item : Json) (rest : List Json) :
    rules.checkItems checkNode scope index (item :: rest) =
      rules.checkItem checkNode scope index item >>= fun _ =>
        rules.checkItems checkNode scope (index + 1) rest := by
  unfold checkItem
  rw [checkItems]
  cases rules.schemaAt? index <;> rfl

/-- The check of the elements one by one, unless a tuple has the wrong number of them. -/
def checkShape (items : List Json) : Check σ Unit :=
  match rules.wrongCount? items.length with
  | some expected => Check.record (.wrongItemCount items.length expected)
  | none => rules.checkItems checkNode scope 0 items

/-- The check that some element is as the rules ask. -/
def checkContains (items : List Json) : Check σ Unit :=
  match rules.contains with
  | none => pure ()
  | some node => Check.ofRun (anyMatches checkNode node scope items) >>= fun found =>
      Check.recordIf (!found) (.containsMissing node.toJson)

/-- The steps of the validation of an array, one after the other. -/
theorem validate_of_elements {value : Json} {elements : List Json}
    (h : rules.elements value = .ok elements) :
    rules.validate checkNode value scope =
      Check.recordAll (rules.sizeViolations (elements.filter rules.keeps)) >>= fun _ =>
        rules.checkShape checkNode scope (elements.filter rules.keeps) >>= fun _ =>
          rules.checkContains checkNode scope (elements.filter rules.keeps) := by
  unfold validate checkShape checkContains
  rw [h]
  refine bind_congr fun _ => ?_
  cases rules.wrongCount? (elements.filter rules.keeps).length <;> rfl

end ArrayRules

namespace Simulation

variable {σ τ : Type} (S : Simulation σ τ) {context : Context} {r : Resolver σ}
  {r' : Resolver τ} {place : Place} {checkNode : NodeCheck σ} {checkNode' : NodeCheck τ}

theorem check_property {scope : Scope σ} {scope' : Scope τ} (fields : Entries Json)
    (entry : String × Node)
    (h : S.check (fun _ _ => True) (checkNode entry.2 ((fields.get? entry.1).getD .null) scope)
      (checkNode' entry.2 ((fields.get? entry.1).getD .null) scope')) :
    S.check (fun _ _ => True) (HashRules.checkProperty checkNode fields scope entry)
      (HashRules.checkProperty checkNode' fields scope' entry) :=
  S.check_within _ (S.check_seq (S.check_recordIf _ _) h)

variable (serves : S.Serves context r r' place)

section Hash

variable {fields : Entries Json}
  (inner : ∀ target value, place.Asks context (.obj fields) target value →
    S.check (fun _ _ => True) (checkNode target.node value (target.scope r))
      (checkNode' target.node value (target.scope r')))

include serves inner in
theorem check_includes {rules : HashRules} (kind : place.node.kind = .hash rules)
    (names taken : List String) (listed : ∀ name ∈ names, name ∈ rules.includes) :
    S.check Eq (HashRules.checkIncludes checkNode rules fields ⟨r, place.inner⟩ taken names)
      (HashRules.checkIncludes checkNode' rules fields ⟨r', place.inner⟩ taken names) := by
  induction names generalizing taken with
  | nil => exact S.check_pure rfl
  | cons name rest ih =>
    refine S.check_bind (S.check_ofRun
      (S.run_includedBy serves kind (listed name (by simp)) taken)) ?_
    rintro ⟨properties, _⟩ ⟨_, _⟩ ⟨rfl, target, rfl, rfl, steps⟩
    refine S.check_bind (S.check_forM properties fun entry hentry => S.check_property fields entry
      (inner _ _ (.part (steps entry hentry) (Json.below_of_get? fields entry.1)))) ?_
    intro _ _ _
    exact ih _ fun other hother => listed other (by simp [hother])

include inner in
theorem check_extra {rules : HashRules} (kind : place.node.kind = .hash rules)
    {field : String × Json} (mem : field ∈ fields) :
    S.check (fun _ _ => True) (HashRules.checkExtra checkNode rules ⟨r, place.inner⟩ field)
      (HashRules.checkExtra checkNode' rules ⟨r', place.inner⟩ field) := by
  have below : field.2.Below (.obj fields) := .field mem
  unfold HashRules.checkExtra
  cases found : rules.patternFor? field.1 with
  | some node =>
    have owned := place.node.mem_children_of_patternFor? kind found
    exact S.check_within _ (inner _ _ (.part (.child owned) below))
  | none =>
    cases policy : rules.additional with
    | allow => exact S.check_pure trivial
    | schema node =>
      have owned := place.node.mem_children_of_additional kind policy
      exact S.check_within _ (inner _ _ (.part (.child owned) below))
    | reject => exact S.check_recordIf _ _

include serves inner in
theorem check_hash {rules : HashRules} (kind : place.node.kind = .hash rules) :
    S.check (fun _ _ => True) (rules.validate checkNode fields ⟨r, place.inner⟩)
      (rules.validate checkNode' fields ⟨r', place.inner⟩) := by
  refine S.check_seq (S.check_recordAll _) ?_
  refine S.check_seq (S.check_forM _ fun entry hentry => S.check_property fields entry ?_) ?_
  · have owned := place.node.mem_children_of_property kind hentry
    exact inner _ _ (.part (.child owned) (Json.below_of_get? fields entry.1))
  refine S.check_bind (S.check_includes serves inner kind _ _ fun _ h => h) ?_
  intro taken _ same
  subst same
  refine S.check_seq (S.check_forM _ fun field mem => ?_) ?_
  · exact S.check_extra inner kind (List.mem_filter.mp mem).1
  exact S.check_seq (S.check_recordAll _) (S.check_recordAll _)

end Hash

section Whole

variable {seen : Json}
  (inner : ∀ target value, place.Asks context seen target value →
    S.check (fun _ _ => True) (checkNode target.node value (target.scope r))
      (checkNode' target.node value (target.scope r')))

include inner in
theorem check_items {rules : ArrayRules} (kind : place.node.kind = .array rules) (index : Nat)
    (items : List Json) (below : ∀ item ∈ items, item.Below seen) :
    S.check (fun _ _ => True) (rules.checkItems checkNode ⟨r, place.inner⟩ index items)
      (rules.checkItems checkNode' ⟨r', place.inner⟩ index items) := by
  induction items generalizing index with
  | nil => exact S.check_pure trivial
  | cons item rest ih =>
    rw [ArrayRules.checkItems_cons, ArrayRules.checkItems_cons]
    refine S.check_seq ?_ (ih (index + 1) fun other hother => below other (by simp [hother]))
    unfold ArrayRules.checkItem
    cases found : rules.schemaAt? index with
    | some node =>
      have owned := place.node.mem_children_of_schemaAt? kind found
      exact S.check_within _ (inner _ _ (.part (.child owned) (below item (by simp))))
    | none => exact S.check_pure trivial

include inner in
theorem run_anyMatches {node : Node} (owned : node ∈ place.node.children) (items : List Json)
    (below : ∀ item ∈ items, item.Below seen) :
    S.run Eq (ArrayRules.anyMatches checkNode node ⟨r, place.inner⟩ items)
      (ArrayRules.anyMatches checkNode' node ⟨r', place.inner⟩ items) := by
  induction items with
  | nil => exact S.run_pure rfl
  | cons item rest ih =>
    refine S.run_bind (S.run_trial (inner _ _ (.part (.child owned) (below item (by simp))))) ?_
    intro log _ same
    subst same
    split
    · exact S.run_pure rfl
    · exact ih fun other hother => below other (by simp [hother])

include inner in
theorem check_array {rules : ArrayRules} (kind : place.node.kind = .array rules) :
    S.check (fun _ _ => True) (rules.validate checkNode seen ⟨r, place.inner⟩)
      (rules.validate checkNode' seen ⟨r', place.inner⟩) := by
  cases read : rules.elements seen with
  | error violation =>
    simp only [ArrayRules.validate, read]
    exact S.check_record violation
  | ok elements =>
    have below (item : Json) (mem : item ∈ elements.filter rules.keeps) : item.Below seen :=
      ArrayRules.below_of_elements read (List.mem_filter.mp mem).1
    rw [ArrayRules.validate_of_elements _ _ _ read, ArrayRules.validate_of_elements _ _ _ read]
    refine S.check_seq (S.check_recordAll _) (S.check_seq ?_ ?_)
    · unfold ArrayRules.checkShape
      cases rules.wrongCount? (elements.filter rules.keeps).length with
      | some expected => exact S.check_record _
      | none => exact S.check_items inner kind 0 _ below
    · unfold ArrayRules.checkContains
      cases found : rules.contains with
      | none => exact S.check_pure trivial
      | some node =>
        have owned := place.node.mem_children_of_contains kind found
        refine S.check_bind (S.check_ofRun (S.run_anyMatches inner owned _ below)) ?_
        intro matched _ same
        subst same
        exact S.check_recordIf _ _

theorem run_trials (value : Json) (alternatives : List Node)
    (h : ∀ node ∈ alternatives, S.check (fun _ _ => True) (checkNode node value ⟨r, place.inner⟩)
      (checkNode' node value ⟨r', place.inner⟩)) :
    S.run Eq (Combinator.trials checkNode value ⟨r, place.inner⟩ alternatives)
      (Combinator.trials checkNode' value ⟨r', place.inner⟩ alternatives) := by
  induction alternatives with
  | nil => exact S.run_pure rfl
  | cons node rest ih =>
    refine S.run_bind (S.run_trial (h node (by simp))) ?_
    intro log _ same
    subst same
    refine S.run_bind (ih fun other hother => h other (by simp [hother])) ?_
    intro logs _ same
    subst same
    exact S.run_pure rfl

include serves inner in
theorem check_kind :
    S.check (fun _ _ => True) (place.node.kind.validate checkNode seen ⟨r, place.inner⟩)
      (place.node.kind.validate checkNode' seen ⟨r', place.inner⟩) := by
  cases kind : place.node.kind with
  | string rules =>
    cases seen with
    | str s => exact S.check_recordAll _
    | _ => exact S.check_pure trivial
  | integer rules => exact S.check_recordAll _
  | number rules => exact S.check_recordAll _
  | boolean castText => exact S.check_recordAll _
  | symbol => exact S.check_pure trivial
  | object classes => exact S.check_pure trivial
  | hash rules =>
    cases seen with
    | obj fields => exact S.check_hash serves inner kind
    | _ => exact S.check_pure trivial
  | array rules => exact S.check_array inner kind
  | combination combinator alternatives blankAsNull =>
    refine S.check_bind (S.check_ofRun (S.run_trials seen alternatives fun node owned => ?_)) ?_
    · exact inner _ _ (.whole (.alternative kind owned))
    intro logs _ same
    subst same
    exact S.check_recordAll _
  | reference target =>
    refine S.check_bind (S.check_ofRun (serves.target target (by simp [Kind.referenced, kind]))) ?_
    intro _ _ h
    obtain ⟨found, leads, rfl, rfl⟩ := h
    exact inner _ _ (.whole (.reference kind leads))

end Whole

include serves in
/-- A simulation that relates the checks that a check asks for relates the check itself. -/
theorem checkWith_asked (value : Json)
    (inner : ∀ seen, place.node.present value = .ok seen → ∀ target value,
      place.Asks context seen target value → S.check (fun _ _ => True)
        (checkNode target.node value (target.scope r))
        (checkNode' target.node value (target.scope r'))) :
    S.check (fun _ _ => True) (place.node.checkWith checkNode value (place.scope r))
      (place.node.checkWith checkNode' value (place.scope r')) := by
  unfold Node.checkWith
  rw [place.enter_scope, place.enter_scope]
  cases present : place.node.present value with
  | error violation => exact S.check_recordAll _
  | ok seen =>
    exact S.check_seq (S.check_recordAll _) (S.check_kind serves (inner seen present))

include serves in
/-- A simulation that relates the checks of the inner nodes of a place relates the checks of the
place. -/
theorem checkWith_related
    (inner : ∀ target, place.Step context target → ∀ value, S.check (fun _ _ => True)
      (checkNode target.node value (target.scope r))
      (checkNode' target.node value (target.scope r'))) (value : Json) :
    S.check (fun _ _ => True) (place.node.checkWith checkNode value (place.scope r))
      (place.node.checkWith checkNode' value (place.scope r')) :=
  S.checkWith_asked serves value fun _ _ target value asks => inner target asks.step value

end Simulation

end SchemaCast
