import SchemaCast.Proofs.Fuel
import SchemaCast.Proofs.Invariant
import SchemaCast.Proofs.Validity.Array
import SchemaCast.Proofs.Validity.Combinator
import SchemaCast.Proofs.Validity.Hash

/-!
# Validation decides satisfaction

If the checks of the inner nodes of a place tell whether the places inside are satisfied, then the
check of the place tells whether the value is as the place asks. By induction on the depth, a
validation that comes to an end leaves an empty log behind exactly if the value satisfies the
schema, or it breaks off because a name leads nowhere.
-/
namespace SchemaCast

variable {σ : Type} {context : Context} {Sat : Place → Json → Prop} {place : Place}
  {checkNode : NodeCheck σ}

section Inner

variable (inner : ∀ target, place.Step context target → ∀ value,
  (checkNode target.node value (target.scope (.ofContext context))).Tells (fun _ => True)
    (Sat target value))

include inner in
theorem Kind.tells_validate (value : Json) :
    (place.node.kind.validate checkNode value ⟨.ofContext context, place.inner⟩).Tells
      (fun _ => True) (place.node.kind.Meets context Sat place value) := by
  cases kind : place.node.kind with
  | string rules =>
    cases value with
    | str s => exact (Check.Tells.recordAll _).congr (by simp [Kind.Meets, rules.violations_eq_nil])
    | _ => exact (Check.Tells.pure trivial).congr (by simp [Kind.Meets])
  | integer rules => exact (Check.Tells.recordAll _).congr (rules.violations_eq_nil true value)
  | number rules => exact (Check.Tells.recordAll _).congr (rules.violations_eq_nil false value)
  | boolean castText => exact (Check.Tells.recordAll _).congr (Truth.violations_eq_nil value)
  | symbol => exact .pure trivial
  | object classes => exact .pure trivial
  | hash rules =>
    cases value with
    | obj fields =>
      exact (HashRules.tells_validate inner kind fields).congr (by simp [Kind.Meets])
    | _ => exact (Check.Tells.pure trivial).congr (by simp [Kind.Meets])
  | array rules => exact ArrayRules.tells_validate inner kind value
  | combination combinator alternatives blankAsNull =>
    refine combinator.tells_validate value alternatives fun node mem => ?_
    exact inner _ (.child (by simpa [Node.children, kind] using mem)) value
  | reference name =>
    refine (Check.Tells.bind (.ofRun (Scope.gives_target place.inner name)) ?_).congr
      (iff_of_eq (true_and _))
    intro _ h
    obtain ⟨target, leads, rfl⟩ := h
    exact (inner target (.reference kind leads) value).congr (by simp [Kind.Meets, leads])

omit inner in
theorem Node.notAllowed?_eq_none (node : Node) (value : Json) :
    node.notAllowed? value = none ↔
      ∀ values ∈ node.options.allowed, ∃ allowed ∈ values, allowed.beq value := by
  unfold notAllowed?
  cases node.options.allowed <;> simp

/-- The steps of a check follow what a place asks of a value that is not missing. -/
theorem Place.meetsPresent_iff (value : Json) :
    place.MeetsPresent context Sat value ↔ place.node.kind.accepts value ∧
      place.node.notAllowed? value = none ∧ place.node.kind.Meets context Sat place value := by
  rw [Node.notAllowed?_eq_none]
  exact ⟨fun h => ⟨h.type, h.allowed, h.kind⟩, fun h => ⟨h.1, h.2.1, h.2.2⟩⟩

theorem Place.meets_iff (value : Json) :
    place.Meets context Sat value ↔
      match place.node.present value with
      | .error violation => violation = none
      | .ok value => place.node.notAllowed? value = none ∧
          place.node.kind.Meets context Sat place value := by
  have present (value : Json) : place.MeetsPresent context Sat value ↔
      match (if place.node.kind.accepts value then .ok value
        else .error (some (.wrongType place.node.kind.expected)) :
          Except (Option Violation) Json) with
      | .error violation => violation = none
      | .ok value => place.node.notAllowed? value = none ∧
          place.node.kind.Meets context Sat place value := by
    rw [meetsPresent_iff]
    by_cases accepted : place.node.kind.accepts value <;> simp [accepted]
  unfold Place.Meets Node.present
  by_cases missing : (place.node.seen value).isNull
  · by_cases required : place.node.options.required
    · simp [missing, required]
    · cases place.node.default? with
      | none => simp [missing, required]
      | some value => simp [missing, required, present]
  · simp [missing, present]

include inner in
theorem Place.tells_checkWith (value : Json) :
    (place.node.checkWith checkNode value (place.scope (.ofContext context))).Tells
      (fun _ => True) (place.Meets context Sat value) := by
  unfold Node.checkWith
  rw [place.enter_scope, place.meets_iff]
  cases place.node.present value with
  | error violation => exact (Check.Tells.recordAll _).congr (by simp)
  | ok value =>
    refine (Check.Tells.seq (.recordAll _) (Kind.tells_validate inner value)).congr ?_
    simp

end Inner

namespace Place

/-- However deep the rules are unfolded beyond its bound, a check tells whether they are met. -/
theorem tells_check (fuel : Nat) {depth : Nat} (h : fuel ≤ depth) (place : Place) (value : Json) :
    (place.node.check fuel value (place.scope (.ofContext context : Resolver σ))).Tells
      (fun _ => True) (place.SatisfiesWithin context depth value) := by
  induction fuel generalizing depth place value with
  | zero => intro log s a log' s' heq; cases heq
  | succ fuel ih =>
    obtain ⟨depth, rfl⟩ : ∃ n, depth = n + 1 := ⟨depth - 1, by omega⟩
    exact tells_checkWith (fun target _ value => ih (by omega) target value) value

theorem tells_satisfies (fuel : Nat) (place : Place) (value : Json) :
    (place.node.check fuel value (place.scope (.ofContext context : Resolver σ))).Tells
      (fun _ => True) (place.Satisfies context value) := by
  intro log s a log' s' heq
  refine ⟨trivial, ?_⟩
  have deep (depth : Nat) (h : fuel ≤ depth) :
      log'.isEmpty ↔ log.isEmpty ∧ place.SatisfiesWithin context depth value :=
    (tells_check fuel h place value log s a log' s' heq).2
  constructor
  · intro empty
    have started : log.isEmpty := ((deep fuel (Nat.le_refl fuel)).mp empty).1
    exact ⟨started, fuel, fun depth h => ((deep depth h).mp empty).2⟩
  · intro h
    obtain ⟨empty, depth, satisfied⟩ := h
    exact (deep (max fuel depth) (by omega)).mpr ⟨empty, satisfied _ (by omega)⟩

/-- The log of a validation is empty exactly if the value satisfies the place. -/
theorem isEmpty_iff_satisfies {fuel : Nat} {place : Place} {value : Json} {s : σ} {log : ErrorLog}
    (h : (place.validate fuel (.ofContext context) value s).1 = .ok log) :
    log.isEmpty ↔ place.Satisfies context value :=
  ((tells_satisfies fuel place value).trial s trivial).2.1 log h

/-- Every solution of the rules of all places is what checks tell, so that there is but one solution
for values on which checks come to an end. -/
theorem tells_solution {Sat : Place → Json → Prop}
    (solution : ∀ place value, Sat place value ↔ place.Meets context Sat value) (fuel : Nat)
    (place : Place) (value : Json) :
    (place.node.check fuel value (place.scope (.ofContext context : Resolver σ))).Tells
      (fun _ => True) (Sat place value) := by
  induction fuel generalizing place value with
  | zero => intro log s a log' s' heq; cases heq
  | succ fuel ih =>
    exact (tells_checkWith (fun target _ value => ih target value) value).congr
      (solution place value).symm

/-- A validation that comes to an end has a log, which is empty exactly if the value satisfies the
place, and then the rules of the place are met with satisfaction for the places inside; or it breaks
off with the error of a name that is used somewhere in the schema. This holds for every bound on
the depth, that of `Node.validate` included. -/
theorem validate_decides (place : Place) (fuel : Nat) (value : Json) (s : σ)
    (ended : (place.validate fuel (.ofContext context) value s).1 ≠ .error .exhausted) :
    (∃ log, (place.validate fuel (.ofContext context) value s).1 = .ok log ∧
        (log.isEmpty ↔ place.Satisfies context value) ∧
        (place.Satisfies context value ↔ place.Meets context (Satisfies context) value)) ∨
      ∃ error, place.CanBreak context error ∧
        (place.validate fuel (.ofContext context) value s).1 = .error (.schema error) := by
  cases fuel with
  | zero => exact absurd rfl ended
  | succ fuel =>
    rcases hc : place.node.check (fuel + 1) value (place.scope (.ofContext context)) ({}, s) with
      ⟨fault | u, log, s'⟩
    · right
      cases fault with
      | exhausted =>
        refine absurd ?_ ended
        rw [validate, Check.trial_apply hc]
        rfl
      | schema error =>
        have result : (place.validate (fuel + 1) (.ofContext context) value s).1 =
            .error (.schema error) := by
          rw [validate, Check.trial_apply hc]
          rfl
        exact ⟨error, canBreak_of_validate result, result⟩
    · left
      have satisfied := (tells_satisfies (fuel + 1) place value {} s u log s' hc).2
      have met := (tells_checkWith (fun target _ value => tells_satisfies fuel target value) value
        {} s u log s' hc).2
      have empty : ({} : ErrorLog).isEmpty := rfl
      rw [and_iff_right empty] at satisfied met
      refine ⟨log, ?_, satisfied, satisfied.symm.trans met⟩
      rw [validate, Check.trial_apply hc]
      rfl

/-- A schema that includes a hash, which refers to itself in turn. -/
theorem validate_decides_include :
    let root : Node := ⟨{}, .hash { properties := [("a", ⟨{}, .integer {}⟩)], includes := ["b"] }⟩
    let choice : Node :=
      ⟨{}, .combination .oneOf [⟨{}, .reference "b"⟩, ⟨{}, .boolean false⟩] false⟩
    let context : Context :=
      [("b", ⟨{}, .hash { properties := [("a", ⟨{}, .string {}⟩), ("c", choice)] }⟩)]
    let value : Json := .obj [("a", .int 1), ("c", .obj [("a", .str "s")])]
    (root.place.validate 6 (.ofContext context : Resolver Unit) value ()).1 = .ok {} ∧
      root.place.Satisfies context value := by
  intro root choice context value
  have result : (root.place.validate 6 (.ofContext context : Resolver Unit) value ()).1 = .ok {} :=
    rfl
  have ended : (root.place.validate 6 (.ofContext context : Resolver Unit) value ()).1 ≠
      .error .exhausted := by
    rw [result]
    intro h
    cases h
  refine ⟨result, ?_⟩
  obtain ⟨log, hlog, satisfied, _⟩ | ⟨error, _, broken⟩ :=
    validate_decides root.place 6 value () ended
  · rw [result] at hlog
    cases hlog
    exact satisfied.mp rfl
  · rw [result] at broken
    cases broken

end Place

end SchemaCast
