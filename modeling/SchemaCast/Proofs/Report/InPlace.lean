import SchemaCast.Proofs.Report.Groups

/-!
# Checks in place

A check in the middle of a validation does what a trial of its own does: it has the same result and
leaves the same state behind, and what it records are the messages of the trial, below the path at
which it starts. `Check.Uniform` has a rule for each operation checks are made of, so this holds in
every scope, also where a lookup changes the state.
-/
namespace SchemaCast

variable {σ α β γ : Type}

/-- A check does the same on every log: neither its result nor the state after it depends on the log,
and it records the same notes below the current path. -/
def Check.Uniform (c : Check σ α) : Prop :=
  ∀ s, ∃ result notes s', ∀ log, c (log, s) = (result, ErrorLog.recordBelow log notes, s')

namespace Check.Uniform

theorem pure (a : α) : Uniform (Pure.pure a : Check σ α) := fun s => ⟨.ok a, [], s, fun _ => rfl⟩

theorem bind {c : Check σ α} {f : α → Check σ β} (hc : c.Uniform) (hf : ∀ a, (f a).Uniform) :
    Uniform (c >>= f) := by
  intro s
  obtain ⟨result, notes, s', same⟩ := hc s
  cases result with
  | error fault => exact ⟨.error fault, notes, s', fun log => Run.bind_error (same log)⟩
  | ok a =>
    obtain ⟨result, more, s'', same'⟩ := hf a s'
    refine ⟨result, notes ++ more, s'', fun log => ?_⟩
    rw [Run.bind_ok (same log), same', ErrorLog.recordBelow_append]

theorem seq {c : Check σ Unit} {d : Check σ β} (hc : c.Uniform) (hd : d.Uniform) :
    Uniform (c >>= fun _ => d) := bind hc fun _ => hd

/-- A run, such as that of trials on logs of their own, does not see the log. -/
theorem ofRun (x : Run σ α) : Uniform (Check.ofRun x) :=
  fun s => ⟨(x s).1, [], (x s).2, fun log => Check.ofRun_apply log rfl⟩

theorem record (violation : Violation) : Uniform (Check.record violation : Check σ Unit) := by
  intro s
  refine ⟨.ok (), [(.root, violation.message)], s, fun log => ?_⟩
  have same := LogStep.run_eq (.record violation.message) log
  exact congrArg (fun after => (Except.ok (), after, s)) same

theorem recordIf (condition : Bool) (violation : Violation) :
    Uniform (Check.recordIf condition violation : Check σ Unit) := by
  unfold Check.recordIf
  split
  · exact record violation
  · exact pure ()

theorem forM {f : γ → Check σ Unit} (items : List γ) (h : ∀ item ∈ items, (f item).Uniform) :
    Uniform (items.forM f) := by
  induction items with
  | nil => exact pure ()
  | cons item rest ih =>
    exact seq (h item (by simp)) (ih fun other hother => h other (by simp [hother]))

theorem recordAll (violations : List Violation) :
    Uniform (Check.recordAll violations : Check σ Unit) :=
  forM violations fun violation _ => record violation

/-- The path comes back, whether the check below the segment fails or not. -/
theorem within {c : Check σ α} (segment : Segment) (h : c.Uniform) :
    Uniform (Check.within segment c) := by
  intro s
  obtain ⟨result, notes, s', same⟩ := h s
  refine ⟨result, notes.map fun note => (⟨segment :: note.1.segments⟩, note.2), s', fun log => ?_⟩
  rw [Check.within_apply (same (log.enter segment)), ErrorLog.leave_recordBelow_enter]

end Check.Uniform

open Check (Uniform)

section Nested

variable {checkNode : NodeCheck σ} (inner : ∀ node value scope, (checkNode node value scope).Uniform)
  {scope : Scope σ}

include inner

namespace HashRules

variable {rules : HashRules} {fields : Entries Json}

theorem uniform_property (entry : String × Node) :
    Uniform (checkProperty checkNode fields scope entry) :=
  .within _ (.seq (.recordIf _ _) (inner _ _ _))

theorem uniform_includes (taken names : List String) :
    Uniform (checkIncludes checkNode rules fields scope taken names) := by
  induction names generalizing taken with
  | nil => exact .pure taken
  | cons name rest ih =>
    refine .bind (.ofRun _) fun (properties, around) => .seq (.forM _ fun entry _ => ?_) (ih _)
    exact uniform_property inner entry

theorem uniform_extra (field : String × Json) :
    Uniform (checkExtra checkNode rules scope field) := by
  unfold checkExtra
  cases rules.patternFor? field.1 with
  | some node => exact .within _ (inner _ _ _)
  | none =>
    cases rules.additional with
    | allow => exact .pure ()
    | schema node => exact .within _ (inner _ _ _)
    | reject => exact .recordIf _ _

theorem uniform_validate : Uniform (rules.validate checkNode fields scope) := by
  refine .seq (.recordAll _) (.seq (.forM _ fun entry _ => uniform_property inner entry) ?_)
  refine .bind (uniform_includes inner _ _) fun taken => ?_
  refine .seq (.forM _ fun field _ => uniform_extra inner field) ?_
  exact .seq (.recordAll _) (.recordAll _)

end HashRules

namespace ArrayRules

variable {rules : ArrayRules}

theorem uniform_items (index : Nat) (items : List Json) :
    Uniform (rules.checkItems checkNode scope index items) := by
  induction items generalizing index with
  | nil => exact .pure ()
  | cons item rest ih =>
    rw [checkItems_cons]
    refine .seq ?_ (ih (index + 1))
    unfold checkItem
    cases rules.schemaAt? index with
    | some node => exact .within _ (inner _ _ _)
    | none => exact .pure ()

theorem uniform_validate (value : Json) : Uniform (rules.validate checkNode value scope) := by
  cases read : rules.elements value with
  | error violation =>
    simp only [validate, read]
    exact .record violation
  | ok elements =>
    rw [validate_of_elements _ _ _ read]
    refine .seq (.recordAll _) (.seq ?_ ?_)
    · unfold checkShape
      cases rules.wrongCount? (elements.filter rules.keeps).length with
      | some expected => exact .record _
      | none => exact uniform_items inner 0 _
    · unfold checkContains
      cases rules.contains with
      | none => exact .pure ()
      | some node => exact .bind (.ofRun _) fun found => .recordIf _ _

end ArrayRules

theorem Kind.uniform_validate (kind : Kind) (value : Json) :
    Uniform (kind.validate checkNode value scope) := by
  cases kind with
  | string rules =>
    cases value with
    | str s => exact .recordAll _
    | _ => exact .pure ()
  | integer rules => exact .recordAll _
  | number rules => exact .recordAll _
  | boolean castText => exact .recordAll _
  | symbol => exact .pure ()
  | object classes => exact .pure ()
  | hash rules =>
    cases value with
    | obj fields => exact HashRules.uniform_validate inner
    | _ => exact .pure ()
  | array rules => exact ArrayRules.uniform_validate inner value
  | combination combinator alternatives blankAsNull =>
    exact .bind (.ofRun _) fun logs => .recordAll _
  | reference target => exact .bind (.ofRun _) fun found => inner _ _ _

theorem Node.uniform_checkWith (node : Node) (value : Json) :
    Uniform (node.checkWith checkNode value scope) := by
  unfold checkWith
  cases node.present value with
  | error violation => exact .recordAll _
  | ok seen => exact .seq (.recordAll _) (node.kind.uniform_validate inner seen)

end Nested

theorem Node.uniform_check (fuel : Nat) (node : Node) (value : Json) (scope : Scope σ) :
    Uniform (node.check fuel value scope) := by
  induction fuel generalizing node value scope with
  | zero => exact .ofRun _
  | succ fuel ih => exact node.uniform_checkWith ih value

/-- A check in place ends as a trial does, with the same fault if with any, and leaves the same state
behind. If the trial comes to a log, then its messages are recorded in their order, each below the
path at which the check starts, behind all that has been recorded before. The path is the same again
in every case. -/
theorem Node.check_in_place (fuel : Nat) (node : Node) (value : Json) (scope : Scope σ)
    (log : ErrorLog) (s : σ) :
    let inPlace := node.check fuel value scope (log, s)
    let alone := Check.trial (node.check fuel value scope) s
    (∀ fault, inPlace.1 = .error fault ↔ alone.1 = .error fault) ∧
    (∀ own, alone.1 = .ok own →
      inPlace.1 = .ok () ∧ inPlace.2.1 = log.recordBelow own.report ∧
        ∀ path, inPlace.2.1.messages path =
          log.messages path ++ saidAt (log.current.under own.report) path) ∧
    inPlace.2.1.current = log.current ∧ inPlace.2.2 = alone.2 := by
  intro inPlace alone
  obtain ⟨result, notes, s', same⟩ := node.uniform_check fuel value scope s
  have placed : inPlace = (result, log.recordBelow notes, s') := same log
  have tried : alone = (result.map fun _ => ErrorLog.recordBelow {} notes, s') :=
    Check.trial_apply (same {})
  rw [placed, tried]
  refine ⟨fun fault => ?_, fun own ended => ?_, rfl, rfl⟩
  · cases result <;> simp [Except.map]
  · cases result with
    | error fault => cases ended
    | ok done =>
      cases ended
      have report := log.recordBelow_report notes
      refine ⟨rfl, report.symm, fun path => ?_⟩
      show (log.recordBelow notes).messages path = _
      rw [← report]
      exact ErrorLog.inGroup_gather log.groups _ path

end SchemaCast
