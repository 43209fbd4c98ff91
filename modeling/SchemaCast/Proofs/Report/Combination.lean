import Mathlib.Data.List.Forall2
import SchemaCast.Proofs.Report.Blocks
import SchemaCast.Proofs.Report.Watched

/-!
# Messages of combinators

A combinator records nothing if as many alternatives match as it asks for, and one message at its own
path if not. The message lists the reports of the alternatives that failed, each behind spaces and
with its position: `validate_of_trials`. This holds in every scope, for every log that the message
goes to, and however deep combinators are within one another.
-/
namespace SchemaCast

open Text (Tidy Indented)

namespace Combinator

variable {σ : Type} {combinator : Combinator} {alternatives : List Node} {value : Json}
  {scope : Scope σ} {fuel : Nat} {s s' : σ} {logs : List ErrorLog}

/-- The number of alternatives that match is as a combinator asks. -/
def Suffices (matched total : Nat) : Combinator → Prop
  | .allOf => matched = total
  | .anyOf => 1 ≤ matched
  | .oneOf => matched = 1
  | .not => matched = 0

/-- How a message begins that goes on with the reports of the alternatives that failed. -/
def headline? (matched total : Nat) : Combinator → Option String
  | .allOf => some ("Matches " ++ Violation.countText matched ++ " of " ++
      Violation.countText total ++ " allOf conditions but must match all.")
  | .anyOf => some ("Matches 0 of " ++ Violation.countText total ++ " anyOf conditions.")
  | .oneOf =>
    if matched = 0 then some ("Matches 0 of " ++ Violation.countText total ++
      " oneOf conditions but must match exactly 1.")
    else none
  | .not => none

/-- The part of a message on a failed alternative, with its position. -/
def partText (part : Nat × String) : String :=
  "\n  - Condition " ++ Violation.countText (part.1 + 1) ++ ":\n" ++ part.2

/-- In the order of the alternatives there is a part for each one that failed: the report on it
behind four spaces. -/
structure Lists (logs : List ErrorLog) (parts : List (Nat × String)) : Prop where
  ordered : (parts.map Prod.fst).Pairwise (· < ·)
  failed : ∀ position, position ∈ parts.map Prod.fst ↔
    ∃ own, logs[position]? = some own ∧ ¬ own.isEmpty
  block : ∀ part ∈ parts, ∀ own, logs[part.1]? = some own → Indented 4 own.render part.2

theorem mem_failures {position : Nat} {own : ErrorLog} :
    (position, own) ∈ failures logs ↔ logs[position]? = some own ∧ ¬ own.isEmpty := by
  simp only [failures, List.mem_map, List.mem_filter, List.mem_zipIdx_iff_getElem?, Prod.mk.injEq,
    Bool.not_eq_true', Bool.not_eq_true]
  constructor
  · rintro ⟨_, ⟨at?, fails⟩, rfl, rfl⟩
    exact ⟨at?, fails⟩
  · intro h
    exact ⟨(own, position), h, rfl, rfl⟩

theorem failures_ordered (logs : List ErrorLog) :
    ((failures logs).map Prod.fst).Pairwise (· < ·) := by
  have positions : (logs.zipIdx.map Prod.snd).Pairwise (· < ·) := by
    rw [List.zipIdx_map_snd]
    exact List.pairwise_lt_range'
  rw [failures, List.map_map]
  exact positions.sublist (List.filter_sublist.map _)

/-- The failed alternatives are listed. -/
theorem lists_failures (sound : ∀ own ∈ logs, own.Sound Tidy ErrorLog.lacksReturns) :
    Lists logs ((failures logs).map fun failure => (failure.1, failure.2.renderNested 4)) where
  ordered := by
    rw [List.map_map]
    exact failures_ordered logs
  failed position := by
    rw [List.map_map, List.mem_map]
    constructor
    · rintro ⟨⟨position, own⟩, mem, rfl⟩
      exact ⟨own, mem_failures.mp mem⟩
    · rintro ⟨own, h⟩
      exact ⟨(position, own), mem_failures.mpr h, rfl⟩
  block part mem own at? := by
    obtain ⟨⟨position, found⟩, listed, rfl⟩ := List.mem_map.mp mem
    obtain ⟨at?', fails⟩ := mem_failures.mp listed
    cases at?.symm.trans at?'
    have tidy := ErrorLog.tidy_render (sound own (List.mem_of_getElem? at?)) fails
    exact Text.indented_indentLines tidy 4

theorem failuresText_eq (failures : List (Nat × ErrorLog)) : Violation.failuresText failures =
    String.join ((failures.map fun failure => (failure.1, failure.2.renderNested 4)).map
      partText) := by
  rw [Violation.failuresText, List.map_map]
  rfl

/-- What is said begins with the headline, if there is one, and goes on with the failed
alternatives. -/
theorem message_of_verdict {violation : Violation} {headline : String}
    (found : combinator.verdict alternatives logs = some violation)
    (begins : combinator.headline? (logs.countP ErrorLog.isEmpty) logs.length = some headline) :
    violation.message = headline ++ Violation.failuresText (failures logs) := by
  rw [verdict_eq] at found
  cases combinator with
  | allOf =>
    dsimp only at found
    split at found <;> cases found
    cases begins
    rfl
  | anyOf =>
    dsimp only at found
    split at found <;> cases found
    cases begins
    rfl
  | oneOf =>
    dsimp only at found
    split at found <;> cases found
    simp only [headline?] at begins
    split at begins <;> cases begins
    next none =>
      rw [none, if_pos rfl]
      rfl
  | not => cases begins

/-- Nothing is said exactly if enough alternatives match. -/
theorem verdict_eq_none_iff_suffices (combinator : Combinator)
    (total : logs.length = alternatives.length) :
    combinator.verdict alternatives logs = none ↔
      combinator.Suffices (logs.countP ErrorLog.isEmpty) logs.length := by
  have most := List.countP_le_length (p := ErrorLog.isEmpty) (l := logs)
  rw [verdict_eq]
  cases combinator with
  | allOf =>
    simp only [Suffices, ite_eq_right_iff, reduceCtorEq, imp_false]
    omega
  | anyOf =>
    simp only [Suffices, ite_eq_right_iff, reduceCtorEq, imp_false]
    omega
  | oneOf => simp [Suffices]
  | not =>
    cases alternatives with
    | nil =>
      have none : logs = [] := List.length_eq_zero_iff.mp total
      simp [none, Suffices]
    | cons node rest =>
      simp only [Suffices, List.head?_cons, Option.map_some, ite_eq_right_iff, reduceCtorEq,
        imp_false]
      omega

/-- Every log is that of a trial of its alternative alone. -/
theorem forall₂_trials (tried : trials (Node.check fuel) value scope alternatives s = (.ok logs, s')) :
    List.Forall₂ (fun alternative own => ∃ t t',
      Check.trial (alternative.check fuel value scope) t = (.ok own, t')) alternatives logs := by
  induction alternatives generalizing s logs with
  | nil =>
    cases tried
    exact .nil
  | cons alternative rest ih =>
    obtain ⟨own, t, first, tried⟩ := Run.bind_eq_ok tried
    obtain ⟨others, t', rest, ends⟩ := Run.bind_eq_ok tried
    cases ends
    exact .cons ⟨s, t, first⟩ (ih rest)

/-- The logs of trials that are watched for carriage returns are sound. -/
theorem sound_trials (tried : trials (Node.check fuel) value scope alternatives s = (.ok logs, s'))
    (lacking : (trials (Node.checkWatching ErrorLog.lacksReturns fuel) value scope alternatives
      s).1 ≠ .error .exhausted) :
    ∀ own ∈ logs, own.Sound Tidy ErrorLog.lacksReturns := by
  have watched := watched_trials
    (Node.watched_checkWatching (fun _ => Violation.tidy_message) fuel) value scope alternatives s
  rcases watched with cut | ⟨_, result⟩
  · exact absurd cut lacking
  · rw [tried] at result
    generalize (trials (Node.checkWatching ErrorLog.lacksReturns fuel) value scope alternatives
      s).1 = r at result
    cases result with
    | ok h => exact h.1 ▸ h.2

/-- If every alternative of a combination can be tried, then nothing is recorded where enough of them
match, and otherwise one message, at the path of the combination. Unless some path that the trials
record, at any depth, has a carriage return in a key, the message consists of a headline and of the
reports of the alternatives that failed, wherever a headline asks for these. -/
theorem validate_of_trials (combinator : Combinator) (blankAsNull : Bool) (log : ErrorLog)
    (tried : trials (Node.check fuel) value scope alternatives s = (.ok logs, s')) :
    let matched := logs.countP ErrorLog.isEmpty
    let check := (Kind.combination combinator alternatives blankAsNull).validate (Node.check fuel)
      value scope
    List.Forall₂ (fun alternative own => ∃ t t',
        Check.trial (alternative.check fuel value scope) t = (.ok own, t')) alternatives logs ∧
      (combinator.Suffices matched alternatives.length → check (log, s) = (.ok (), log, s')) ∧
      (¬ combinator.Suffices matched alternatives.length → ∃ message,
        check (log, s) = (.ok (), log.record message, s') ∧
        (log.record message).report.Perm ((log.current, message) :: log.report) ∧
        ∀ headline, combinator.headline? matched alternatives.length = some headline →
          (trials (Node.checkWatching ErrorLog.lacksReturns fuel) value scope alternatives s).1 ≠
            .error .exhausted →
          ∃ parts, Lists logs parts ∧
            message = headline ++ String.join (parts.map partText)) := by
  intro matched check
  have own := forall₂_trials tried
  have total : logs.length = alternatives.length := own.length_eq.symm
  have verdict : check (log, s) =
      Check.recordAll (combinator.verdict alternatives logs).toList (log, s') :=
    Run.bind_ok (Check.ofRun_apply log tried)
  have none := verdict_eq_none_iff_suffices combinator total
  rw [total] at none
  refine ⟨own, fun enough => ?_, fun fails => ?_⟩
  · rw [verdict, none.mpr enough]
    rfl
  · obtain ⟨violation, found⟩ := Option.ne_none_iff_exists'.mp (mt none.mp fails)
    refine ⟨violation.message, ?_, log.report_record _, fun headline begins lacking => ?_⟩
    · rw [verdict, found]
      rfl
    · refine ⟨_, lists_failures (sound_trials tried lacking), ?_⟩
      rw [← failuresText_eq]
      rw [← total] at begins
      exact message_of_verdict found begins

/-- One of the alternatives that failed is a combination in turn, whose message has the reports of its
own alternatives. -/
theorem validate_of_trials_nested :
    let count : Node := ⟨{}, .integer {}⟩
    let record : Node := ⟨{}, .hash { properties := [("a", count)] }⟩
    let inner : Node := ⟨{}, .combination .oneOf [count, record] false⟩
    let truth : Node := ⟨{}, .boolean false⟩
    let alternatives : List Node := [inner, record, truth]
    let value : Json := .obj [("a", .str "x")]
    let scope : Scope Unit := .root (.ofContext [])
    let wrong (expected : String) : String := Violation.message (.wrongType expected)
    let noCount : ErrorLog := ⟨.root, [(.root, [wrong "integer"])]⟩
    let noRecord : ErrorLog := ⟨.root, [(⟨[.key "a"]⟩, [wrong "integer"])]⟩
    let noTruth : ErrorLog := ⟨.root, [(.root, [wrong "boolean"])]⟩
    let neither : ErrorLog :=
      ⟨.root, [(.root, [Violation.message (.notOne 0 2 [(0, noCount), (1, noRecord)])])]⟩
    let logs : List ErrorLog := [neither, noRecord, noTruth]
    trials (Node.check 3) value scope alternatives () = (.ok logs, ()) ∧
      (trials (Node.checkWatching ErrorLog.lacksReturns 3) value scope alternatives ()).1 ≠
        .error .exhausted ∧
      ∃ message, (Kind.combination .anyOf alternatives false).validate (Node.check 3) value scope
          ({}, ()) = (.ok (), ErrorLog.record {} message, ()) ∧
        ∃ parts, Lists logs parts ∧
          message = "Matches 0 of 3 anyOf conditions." ++ String.join (parts.map partText) := by
  intro count record inner truth alternatives value scope wrong noCount noRecord noTruth neither logs
  have tried : trials (Node.check 3) value scope alternatives () = (.ok logs, ()) := rfl
  have watched : trials (Node.checkWatching ErrorLog.lacksReturns 3) value scope alternatives () =
      (.ok logs, ()) := by
    -- A local name would stop the evaluation where a path is searched for a carriage return.
    unfold logs neither noCount noRecord noTruth wrong alternatives inner record truth count
    rfl
  have lacking : (trials (Node.checkWatching ErrorLog.lacksReturns 3) value scope alternatives
      ()).1 ≠ .error .exhausted := by
    rw [watched]
    intro h
    cases h
  obtain ⟨_, _, fails⟩ := validate_of_trials .anyOf false {} tried
  have none : ¬ Suffices (logs.countP ErrorLog.isEmpty) alternatives.length .anyOf :=
    Nat.not_succ_le_zero 0
  have begins : headline? (logs.countP ErrorLog.isEmpty) alternatives.length .anyOf =
      some "Matches 0 of 3 anyOf conditions." := by decide
  obtain ⟨message, checked, _, listed⟩ := fails none
  obtain ⟨parts, lists, whole⟩ := listed _ begins lacking
  exact ⟨tried, lacking, message, checked, parts, lists, whole⟩

end Combinator

end SchemaCast
