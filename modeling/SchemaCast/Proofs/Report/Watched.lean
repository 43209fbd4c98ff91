import SchemaCast.Proofs.Fuel
import SchemaCast.Proofs.Report.Findings

/-!
# Checks under watch

`Node.checkWatching` checks a value as `Node.check` does, but is cut off once a log, that of a trial
included, is not as asked. So a statement about all logs that a check writes to, at any depth, is one
about the end of a single run. If the messages on logs as asked are of some sort, then so are all
messages that a check under watch leaves; `Check.Watched` has a rule for each operation checks are
made of.
-/
namespace SchemaCast

variable {σ : Type}

/-- Go on only if the log is as asked. -/
def Check.demand (holds : ErrorLog → Bool) : Check σ Unit := fun state =>
  (if holds state.1 then .ok () else .error .exhausted, state)

theorem Check.demand_eq_ok {holds : ErrorLog → Bool} {log log' : ErrorLog} {s s' : σ}
    (h : Check.demand holds (log, s) = (.ok (), log', s')) : (log', s') = (log, s) ∧ holds log' := by
  unfold Check.demand at h
  by_cases asked : holds log
  · rw [if_pos asked] at h
    cases h
    exact ⟨rfl, asked⟩
  · rw [if_neg asked] at h
    cases h

/-- Check a value as `Node.check` does, as long as each log is as asked when the check of a node is
done. -/
def Node.checkWatching (holds : ErrorLog → Bool) : Nat → NodeCheck σ
  | 0, _, _, _ => Check.ofRun Run.exhausted
  | fuel + 1, node, value, scope => do
    node.checkWith (checkWatching holds fuel) value scope
    Check.demand holds

/-- A check is cut off, or does the same as another one; its result is as stated, and it leaves a
log of fine messages if it finds one. -/
def Check.Watched {α : Type} (Fine : String → Prop) (V : α → Prop) (c d : Check σ α) : Prop :=
  ∀ log s, log.All Fine → (c (log, s)).1 = .error .exhausted ∨
    (c (log, s) = d (log, s) ∧ ∀ a log' s', c (log, s) = (.ok a, log', s') → V a ∧ log'.All Fine)

namespace Check.Watched

variable {α β γ : Type} {Fine : String → Prop} {V : α → Prop} {W : β → Prop} {c d : Check σ α}

theorem pure {a : α} (h : V a) :
    Watched Fine V (Pure.pure a : Check σ α) (Pure.pure a) := by
  intro log s fine
  refine .inr ⟨rfl, ?_⟩
  rintro _ _ _ ⟨⟩
  exact ⟨h, fine⟩

theorem bind {f g : α → Check σ β} (h : Watched Fine V c d)
    (hf : ∀ a, V a → Watched Fine W (f a) (g a)) : Watched Fine W (c >>= f) (d >>= g) := by
  intro log s fine
  rcases hc : c (log, s) with ⟨fault | a, log', s'⟩
  · rcases h log s fine with cut | ⟨same, _⟩
    · rw [Run.bind_error hc]
      rw [hc] at cut
      cases cut
      exact .inl rfl
    · rw [hc] at same
      rw [Run.bind_error hc, Run.bind_error same.symm]
      exact .inr ⟨rfl, fun _ _ _ h => by cases h⟩
  · rcases h log s fine with cut | ⟨same, ends⟩
    · rw [hc] at cut
      cases cut
    · obtain ⟨ha, fine'⟩ := ends a log' s' hc
      rw [hc] at same
      rw [Run.bind_ok hc, Run.bind_ok same.symm]
      exact hf a ha log' s' fine'

theorem seq {c d : Check σ Unit} {c' d' : Check σ β} (first : Watched Fine (fun _ => True) c d)
    (second : Watched Fine W c' d') : Watched Fine W (c >>= fun _ => c') (d >>= fun _ => d') :=
  bind first fun _ _ => second

theorem ofRun {x y : Run σ α} (h : CutOff (fun a b => a = b ∧ V a) x y) :
    Watched Fine V (Check.ofRun x) (Check.ofRun y) := by
  intro log s fine
  rcases hx : x s with ⟨r, t⟩
  rcases hy : y s with ⟨r', t'⟩
  have hs := h s
  rw [hx, hy] at hs
  rw [Check.ofRun_apply log hx, Check.ofRun_apply log hy]
  rcases hs with cut | ⟨same, result⟩
  · exact .inl cut
  · cases same
    cases result with
    | ok h =>
      obtain ⟨rfl, ha⟩ := h
      refine .inr ⟨rfl, ?_⟩
      rintro _ _ _ ⟨⟩
      exact ⟨ha, fine⟩
    | error fault => exact .inr ⟨rfl, fun _ _ _ h => by cases h⟩

/-- A run that leaves the log alone does not have to be watched. -/
theorem same (x : Run σ α) : Watched Fine (fun _ => True) (Check.ofRun x) (Check.ofRun x) := by
  refine ofRun fun s => .inr ⟨rfl, ?_⟩
  cases (x s).1 with
  | ok a => exact .ok ⟨rfl, trivial⟩
  | error fault => exact .error fault

/-- What is asked of the log cuts a check off, or nothing happens. -/
theorem demand (holds : ErrorLog → Bool) :
    Watched Fine (fun _ => True) (Check.demand holds : Check σ Unit) (Pure.pure ()) := by
  intro log s fine
  by_cases asked : holds log
  · have same : Check.demand holds (log, s) = (.ok (), log, s) := by
      rw [Check.demand, if_pos asked]
    rw [same]
    exact pure trivial log s fine
  · have cut : Check.demand holds (log, s) = (.error .exhausted, log, s) := by
      rw [Check.demand, if_neg asked]
    rw [cut]
    exact .inl rfl

theorem record {violation : Violation} (h : Fine violation.message) :
    Watched Fine (fun _ => True) (Check.record violation : Check σ Unit) (Check.record violation) := by
  intro log s fine
  refine .inr ⟨rfl, ?_⟩
  rintro _ _ _ ⟨⟩
  exact ⟨trivial, fine.record h⟩

theorem recordIf (condition : Bool) {violation : Violation} (h : Fine violation.message) :
    Watched Fine (fun _ => True) (Check.recordIf condition violation : Check σ Unit)
      (Check.recordIf condition violation) := by
  unfold Check.recordIf
  split
  · exact record h
  · exact pure trivial

theorem forM {f g : γ → Check σ Unit} (items : List γ)
    (h : ∀ item ∈ items, Watched Fine (fun _ => True) (f item) (g item)) :
    Watched Fine (fun _ => True) (items.forM f) (items.forM g) := by
  induction items with
  | nil => exact pure trivial
  | cons item rest ih =>
    exact seq (h item (by simp)) (ih fun other mem => h other (by simp [mem]))

theorem recordAll {violations : List Violation}
    (h : ∀ violation ∈ violations, Fine violation.message) :
    Watched Fine (fun _ => True) (Check.recordAll violations : Check σ Unit)
      (Check.recordAll violations) :=
  forM violations fun violation mem => record (h violation mem)

theorem within (segment : Segment) (h : Watched Fine V c d) :
    Watched Fine V (Check.within segment c) (Check.within segment d) := by
  intro log s fine
  rcases hc : c (log.enter segment, s) with ⟨r, log', s'⟩
  rcases hd : d (log.enter segment, s) with ⟨r', log'', t'⟩
  have hs := h (log.enter segment) s fine
  rw [hc, hd] at hs
  rw [Check.within_apply hc, Check.within_apply hd]
  rcases hs with cut | ⟨same, ends⟩
  · exact .inl cut
  · cases same
    refine .inr ⟨rfl, ?_⟩
    rintro a _ _ ⟨⟩
    exact ends a log' s' rfl

end Check.Watched

/-- The checks of all nodes are watched, and end with logs as asked. -/
structure NodeCheck.Watched (Fine : String → Prop) (holds : ErrorLog → Bool)
    (checkNode plain : NodeCheck σ) : Prop where
  check : ∀ node value scope,
    Check.Watched Fine (fun _ => True) (checkNode node value scope) (plain node value scope)
  holds : ∀ node value scope log s log' s',
    checkNode node value scope (log, s) = (.ok (), log', s') → holds log'

section Nested

variable {Fine : String → Prop} {holds : ErrorLog → Bool} {checkNode plain : NodeCheck σ}
  (watched : NodeCheck.Watched Fine holds checkNode plain)
  (told : ∀ violation : Violation, violation.Arises (ErrorLog.Sound Fine holds) →
    Fine violation.message)

include watched in
/-- A trial starts with an empty log, so that its log is sound. -/
theorem Check.Watched.trial (node : Node) (value : Json) (scope : Scope σ) :
    CutOff (fun log log' => log = log' ∧ log.Sound Fine holds)
      (Check.trial (checkNode node value scope)) (Check.trial (plain node value scope)) := by
  intro s
  rcases hc : checkNode node value scope ({}, s) with ⟨r, log, s'⟩
  rw [Check.trial_apply hc]
  rcases watched.check node value scope {} s .empty with cut | ⟨same, ends⟩
  · rw [hc] at cut
    cases cut
    exact .inl rfl
  · rw [hc] at same
    rw [Check.trial_apply same.symm]
    refine .inr ⟨rfl, ?_⟩
    cases r with
    | ok a => exact .ok ⟨rfl, (ends a log s' hc).2, watched.holds node value scope _ _ _ _ hc⟩
    | error fault => exact .error fault

namespace HashRules

variable {rules : HashRules} {fields : Entries Json} {scope : Scope σ}

include watched told in
theorem watched_property (entry : String × Node) :
    Check.Watched Fine (fun _ => True) (checkProperty checkNode fields scope entry)
      (checkProperty plain fields scope entry) :=
  .within _ (.seq (.recordIf _ (told .keyMissing trivial)) (watched.check _ _ _))

include watched told in
theorem watched_includes (names taken : List String) :
    Check.Watched Fine (fun _ => True) (checkIncludes checkNode rules fields scope taken names)
      (checkIncludes plain rules fields scope taken names) := by
  induction names generalizing taken with
  | nil => exact .pure trivial
  | cons name rest ih =>
    refine .bind (.same _) fun found _ => ?_
    exact .seq (.forM _ fun entry _ => watched_property watched told entry) (ih _)

include watched told in
theorem watched_extra (field : String × Json) :
    Check.Watched Fine (fun _ => True) (checkExtra checkNode rules scope field)
      (checkExtra plain rules scope field) := by
  unfold checkExtra
  cases rules.patternFor? field.1 with
  | some node => exact .within _ (watched.check _ _ _)
  | none =>
    cases rules.additional with
    | allow => exact .pure trivial
    | schema node => exact .within _ (watched.check _ _ _)
    | reject => exact .recordIf _ (told (.obsoleteProperty _) trivial)

include watched told in
theorem watched_validate :
    Check.Watched Fine (fun _ => True) (rules.validate checkNode fields scope)
      (rules.validate plain fields scope) := by
  refine .seq (.recordAll fun violation mem => told violation (arises_size mem)) ?_
  refine .seq (.forM _ fun entry _ => watched_property watched told entry) ?_
  refine .bind (watched_includes watched told rules.includes []) fun taken _ => ?_
  refine .seq (.forM _ fun field _ => watched_extra watched told field) ?_
  exact .seq (.recordAll fun violation mem => told violation (arises_name mem))
    (.recordAll fun violation mem => told violation (arises_dependency mem))

end HashRules

namespace ArrayRules

variable {rules : ArrayRules} {scope : Scope σ}

include watched in
theorem watched_items (index : Nat) (items : List Json) :
    Check.Watched Fine (fun _ => True) (rules.checkItems checkNode scope index items)
      (rules.checkItems plain scope index items) := by
  induction items generalizing index with
  | nil => exact .pure trivial
  | cons item rest ih =>
    rw [checkItems_cons, checkItems_cons]
    refine .seq ?_ (ih (index + 1))
    unfold checkItem
    cases rules.schemaAt? index with
    | some node => exact .within _ (watched.check _ _ _)
    | none => exact .pure trivial

include watched in
theorem watched_anyMatches (node : Node) (items : List Json) :
    CutOff (fun found found' => found = found' ∧ True) (anyMatches checkNode node scope items)
      (anyMatches plain node scope items) := by
  induction items with
  | nil => exact .pure ⟨rfl, trivial⟩
  | cons item rest ih =>
    refine .bind (Check.Watched.trial watched node item scope) ?_
    rintro log _ ⟨rfl, _⟩
    split
    · exact .pure ⟨rfl, trivial⟩
    · exact ih

include watched told in
theorem watched_validate (value : Json) :
    Check.Watched Fine (fun _ => True) (rules.validate checkNode value scope)
      (rules.validate plain value scope) := by
  cases read : rules.elements value with
  | error violation =>
    simp only [validate, read]
    exact .record (told violation (arises_elements read))
  | ok elements =>
    rw [validate_of_elements _ _ _ read, validate_of_elements _ _ _ read]
    refine .seq (.recordAll fun violation mem => told violation (arises_size mem)) (.seq ?_ ?_)
    · unfold checkShape
      cases rules.wrongCount? (elements.filter rules.keeps).length with
      | some expected => exact .record (told (.wrongItemCount _ _) trivial)
      | none => exact watched_items watched 0 _
    · unfold checkContains
      cases rules.contains with
      | none => exact .pure trivial
      | some node =>
        exact .bind (.ofRun (watched_anyMatches watched node _)) fun found _ =>
          .recordIf _ (told (.containsMissing _) trivial)

end ArrayRules

namespace Combinator

variable {scope : Scope σ}

include watched in
/-- The logs of all trials are sound. -/
theorem watched_trials (value : Json) (scope : Scope σ) (alternatives : List Node) :
    CutOff (fun logs logs' => logs = logs' ∧ ∀ log ∈ logs, log.Sound Fine holds)
      (trials checkNode value scope alternatives) (trials plain value scope alternatives) := by
  induction alternatives with
  | nil => exact .pure ⟨rfl, by simp⟩
  | cons node rest ih =>
    refine .bind (Check.Watched.trial watched node value scope) ?_
    rintro log _ ⟨rfl, sound⟩
    refine .bind ih ?_
    rintro logs _ ⟨rfl, others⟩
    exact .pure ⟨rfl, List.forall_mem_cons.mpr ⟨sound, others⟩⟩

include watched told in
theorem watched_validate (combinator : Combinator) (alternatives : List Node) (value : Json) :
    Check.Watched Fine (fun _ => True) (combinator.validate checkNode alternatives value scope)
      (combinator.validate plain alternatives value scope) := by
  refine .bind (.ofRun (watched_trials watched value scope alternatives)) fun logs sound => ?_
  refine .recordAll fun violation mem => told violation ?_
  exact arises_verdict sound (Option.mem_toList.mp mem)

end Combinator

include watched told in
theorem Kind.watched_validate (kind : Kind) (value : Json) (scope : Scope σ) :
    Check.Watched Fine (fun _ => True) (kind.validate checkNode value scope)
      (kind.validate plain value scope) := by
  cases kind with
  | string rules =>
    cases value with
    | str s => exact .recordAll fun violation mem => told violation (rules.arises mem)
    | _ => exact .pure trivial
  | integer rules => exact .recordAll fun violation mem => told violation (rules.arises mem)
  | number rules => exact .recordAll fun violation mem => told violation (rules.arises mem)
  | boolean castText => exact .recordAll fun violation mem => told violation (Truth.arises mem)
  | symbol => exact .pure trivial
  | object classes => exact .pure trivial
  | hash rules =>
    cases value with
    | obj fields => exact HashRules.watched_validate watched told
    | _ => exact .pure trivial
  | array rules => exact ArrayRules.watched_validate watched told value
  | combination combinator alternatives blankAsNull =>
    exact Combinator.watched_validate watched told combinator alternatives value
  | reference name =>
    exact .bind (.same _) fun found _ => watched.check _ _ _

include watched told in
/-- If the checks of the inner nodes are watched, so is the check of a node. -/
theorem Node.watched_checkWith (node : Node) (value : Json) (scope : Scope σ) :
    Check.Watched Fine (fun _ => True) (node.checkWith checkNode value scope)
      (node.checkWith plain value scope) := by
  unfold Node.checkWith
  cases present : node.present value with
  | error violation =>
    refine .recordAll fun other mem => told other ?_
    have found : node.present value = .error (some other) := by
      rw [present, Option.mem_toList.mp mem]
    exact Node.arises_present found
  | ok seen =>
    refine .seq (.recordAll fun violation mem => told violation ?_)
      (Kind.watched_validate watched told _ _ _)
    exact Node.arises_notAllowed (Option.mem_toList.mp mem)

end Nested

/-- If what is found under watch is told in fine messages, then a check under watch leaves logs of
fine messages that are as asked, unless it is cut off; and it does what the check without it does. -/
theorem Node.watched_checkWatching {Fine : String → Prop} {holds : ErrorLog → Bool}
    (told : ∀ violation : Violation, violation.Arises (ErrorLog.Sound Fine holds) →
      Fine violation.message) (fuel : Nat) :
    NodeCheck.Watched Fine holds (checkWatching holds fuel : NodeCheck σ) (Node.check fuel) := by
  induction fuel with
  | zero => exact ⟨fun _ _ _ _ _ _ => .inl rfl, fun _ _ _ _ _ _ _ h => by cases h⟩
  | succ fuel ih =>
    constructor
    · intro node value scope
      have whole := (node.watched_checkWith ih told value scope).seq (.demand holds)
      rwa [bind_pure_unit] at whole
    · intro node value scope log s log' s' h
      obtain ⟨_, ⟨before, t⟩, _, demanded⟩ := Run.bind_eq_ok h
      exact (Check.demand_eq_ok demanded).2

end SchemaCast
