import SchemaCast.Proofs.Validity.Combinator

/-!
# What a check can find

The texts of most violations are made of numbers and quoted names alone. `Violation.Arises` says what
is known of the others when a check records them: where the names of types come from, and what the
logs of failed alternatives are like.
-/
namespace SchemaCast

namespace ErrorLog

variable {Fine : String → Prop} {log : ErrorLog} {message : String}

/-- Every path of a log has messages, and all of them are of some sort. -/
def All (Fine : String → Prop) (log : ErrorLog) : Prop :=
  ∀ group ∈ log.groups, group.2 ≠ [] ∧ ∀ message ∈ group.2, Fine message

theorem All.empty : ErrorLog.All Fine {} := fun _ mem => by cases mem

theorem All.addTo {path : Path} {groups : List (Path × List String)} (fine : Fine message)
    (h : ∀ group ∈ groups, group.2 ≠ [] ∧ ∀ message ∈ group.2, Fine message) :
    ∀ group ∈ addTo path message groups, group.2 ≠ [] ∧ ∀ message ∈ group.2, Fine message := by
  induction groups with
  | nil => simpa [ErrorLog.addTo] using fine
  | cons first rest ih =>
    obtain ⟨here, others⟩ := List.forall_mem_cons.mp h
    obtain ⟨place, messages⟩ := first
    rw [ErrorLog.addTo]
    split
    · refine List.forall_mem_cons.mpr ⟨⟨by simp, ?_⟩, others⟩
      intro other mem
      rcases List.mem_append.mp mem with known | new
      · exact here.2 other known
      · exact List.mem_singleton.mp new ▸ fine
    · exact List.forall_mem_cons.mpr ⟨here, ih others⟩

theorem All.record (h : log.All Fine) (fine : Fine message) : (log.record message).All Fine :=
  All.addTo fine h

/-- A log of fine messages is as asked. -/
def Sound (Fine : String → Prop) (holds : ErrorLog → Bool) (log : ErrorLog) : Prop :=
  log.All Fine ∧ holds log

end ErrorLog

/-- What a check can find: types are named as kinds name them, and the logs of failed alternatives
are not empty, and as stated. -/
def Violation.Arises (Good : ErrorLog → Prop) : Violation → Prop
  | .wrongType expected => ∃ kind : Kind, expected = kind.expected
  | .notAll _ _ failures => ∀ failure ∈ failures, Good failure.2 ∧ ¬ failure.2.isEmpty
  | .notAny _ failures => ∀ failure ∈ failures, Good failure.2 ∧ ¬ failure.2.isEmpty
  | .notOne _ _ failures => ∀ failure ∈ failures, Good failure.2 ∧ ¬ failure.2.isEmpty
  | _ => True

section Arises

variable {Good : ErrorLog → Prop} {violation : Violation}

theorem StringRules.arises {rules : StringRules} {s : String}
    (mem : violation ∈ rules.violations s) : violation.Arises Good := by
  cases violation <;> first | trivial | simp [violations] at mem

theorem NumericRules.arises {rules : NumericRules} {integer : Bool} {value : Json}
    (mem : violation ∈ rules.violations integer value) : violation.Arises Good := by
  have number (number : Json) (mem : violation ∈ rules.numberViolations number) :
      violation.Arises Good := by
    unfold numberViolations at mem
    split at mem
    · cases mem
    · cases violation <;> first | trivial | simp at mem
  cases value with
  | str s =>
    simp only [violations] at mem
    split at mem
    · exact number _ mem
    · cases List.mem_singleton.mp mem
      trivial
  | _ =>
    simp only [violations] at mem
    exact number _ mem

theorem Truth.arises {value : Json} (mem : violation ∈ violations value) :
    violation.Arises Good := by
  cases value with
  | str s =>
    simp only [violations] at mem
    split at mem
    · cases mem
    · cases List.mem_singleton.mp mem
      trivial
  | _ => cases mem

theorem HashRules.arises_size {rules : HashRules} {fields : Entries Json}
    (mem : violation ∈ rules.sizeViolations fields) : violation.Arises Good := by
  cases violation <;> first | trivial | simp [sizeViolations] at mem

theorem HashRules.arises_name {rules : HashRules} {extras : Entries Json}
    (mem : violation ∈ rules.nameViolations extras) : violation.Arises Good := by
  unfold nameViolations at mem
  split at mem
  · cases mem
  · obtain ⟨key, _, rfl⟩ := List.mem_map.mp mem
    trivial

theorem HashRules.arises_dependency {rules : HashRules} {fields : Entries Json}
    (mem : violation ∈ rules.dependencyViolations fields) : violation.Arises Good := by
  obtain ⟨entry, _, mem⟩ := List.mem_flatMap.mp mem
  split at mem
  · obtain ⟨target, _, rfl⟩ := List.mem_map.mp mem
    trivial
  · cases mem

theorem ArrayRules.arises_size {rules : ArrayRules} {items : List Json}
    (mem : violation ∈ rules.sizeViolations items) : violation.Arises Good := by
  cases violation <;> first | trivial | simp [sizeViolations] at mem

theorem Node.arises_notAllowed {node : Node} {value : Json}
    (found : node.notAllowed? value = some violation) : violation.Arises Good := by
  unfold notAllowed? at found
  split at found
  · split at found
    · cases found
    · cases found
      trivial
  · cases found

/-- Before the rules of its kind, a node finds a missing value or one of a wrong type. -/
theorem Node.arises_present {node : Node} {value : Json}
    (found : node.present value = .error (some violation)) : violation.Arises Good := by
  unfold present at found
  dsimp only at found
  split at found
  · next early stopped =>
    cases found
    split at stopped
    · split at stopped
      · cases stopped
        trivial
      · split at stopped <;> cases stopped
    · cases stopped
  · split at found <;> cases found
    exact ⟨node.kind, rfl⟩

/-- The elements of a value are read, or the value is no array. -/
theorem ArrayRules.arises_elements {rules : ArrayRules} {value : Json}
    (found : rules.elements value = .error violation) : violation.Arises Good := by
  have array : (Violation.wrongType "array").Arises Good := ⟨.array { items := .any }, rfl⟩
  cases value with
  | arr items => cases found
  | str s =>
    simp only [elements] at found
    split at found
    · split at found <;> cases found
      · exact array
      · trivial
    · cases found
      exact array
  | _ =>
    cases found
    exact array

namespace Combinator

/-- The logs of the alternatives that failed, each with its position. -/
def failures (logs : List ErrorLog) : List (Nat × ErrorLog) :=
  (logs.zipIdx.filter fun log => !log.1.isEmpty).map fun log => (log.2, log.1)

/-- What a combinator has to say depends on the number of empty logs, and on the others. -/
theorem verdict_eq (combinator : Combinator) (alternatives : List Node) (logs : List ErrorLog) :
    combinator.verdict alternatives logs =
      match combinator with
      | .allOf =>
        if logs.countP ErrorLog.isEmpty < logs.length then
          some (.notAll (logs.countP ErrorLog.isEmpty) logs.length (failures logs)) else none
      | .anyOf =>
        if logs.countP ErrorLog.isEmpty = 0 then some (.notAny logs.length (failures logs)) else none
      | .oneOf =>
        if logs.countP ErrorLog.isEmpty = 1 then none
        else some (.notOne (logs.countP ErrorLog.isEmpty) logs.length
          (if logs.countP ErrorLog.isEmpty = 0 then failures logs else []))
      | .not =>
        if 0 < logs.countP ErrorLog.isEmpty then
          alternatives.head?.map fun node => .matchesExcluded node.toJson else none := by
  rw [← matched_eq logs]
  rfl

/-- A combinator finds that alternatives failed, with logs of trials that are not empty. -/
theorem arises_verdict {combinator : Combinator} {alternatives : List Node}
    {logs : List ErrorLog} (good : ∀ log ∈ logs, Good log)
    (found : combinator.verdict alternatives logs = some violation) : violation.Arises Good := by
  have failed (failure : Nat × ErrorLog) (mem : failure ∈ failures logs) :
      Good failure.2 ∧ ¬ failure.2.isEmpty := by
    obtain ⟨entry, kept, rfl⟩ := List.mem_map.mp mem
    obtain ⟨listed, fails⟩ := List.mem_filter.mp kept
    exact ⟨good _ (List.fst_mem_of_mem_zipIdx listed), by simpa using fails⟩
  rw [verdict_eq] at found
  cases combinator with
  | allOf =>
    dsimp only at found
    split at found <;> cases found
    exact failed
  | anyOf =>
    dsimp only at found
    split at found <;> cases found
    exact failed
  | oneOf =>
    dsimp only at found
    split at found <;> cases found
    split
    · exact failed
    · exact fun failure mem => by cases mem
  | not =>
    dsimp only at found
    split at found
    · obtain ⟨node, _, rfl⟩ := Option.map_eq_some_iff.mp found
      trivial
    · cases found

end Combinator

end Arises

end SchemaCast
