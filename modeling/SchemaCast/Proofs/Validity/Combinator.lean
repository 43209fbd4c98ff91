import SchemaCast.Proofs.Verdict

/-!
# Validation of a combination

Every alternative is tried on a log of its own. The verdict of a combinator depends on the number of
empty logs among them, and that is the number of alternatives that the value satisfies.
-/
namespace SchemaCast

open scoped Classical

variable {σ : Type} {context : Context} {Sat : Place → Json → Prop} {place : Place}
  {checkNode : NodeCheck σ}

namespace Combinator

/-- Whether a value satisfies an alternative at a place. -/
noncomputable def fits (Sat : Place → Json → Prop) (place : Place) (value : Json) (node : Node) :
    Bool := decide (Sat ⟨node, place.inner⟩ value)

theorem fits_iff (Sat : Place → Json → Prop) (place : Place) (value : Json) (node : Node) :
    fits Sat place value node = true ↔ Sat ⟨node, place.inner⟩ value := by
  simp [fits]

/-- Every trial tells whether its alternative fits. -/
theorem gives_trials (value : Json) (alternatives : List Node)
    (inner : ∀ node ∈ alternatives,
      (checkNode node value ⟨.ofContext context, place.inner⟩).Tells (fun _ => True)
        (Sat ⟨node, place.inner⟩ value)) :
    (trials checkNode value ⟨.ofContext context, place.inner⟩ alternatives).Gives
      fun logs => logs.map ErrorLog.isEmpty = alternatives.map (fits Sat place value) := by
  induction alternatives with
  | nil => exact .pure rfl
  | cons node rest ih =>
    refine .bind (inner node (by simp)).trial ?_
    intro log hlog
    refine .bind (ih fun other hother => inner other (by simp [hother])) ?_
    intro logs hlogs
    refine .pure ?_
    rw [List.map_cons, List.map_cons, hlogs, Bool.eq_iff_iff.mpr (hlog.trans (fits_iff ..).symm)]

/-- What a combinator counts is the number of empty logs. -/
theorem matched_eq (logs : List ErrorLog) :
    logs.length - ((logs.zipIdx.filter fun log => !log.1.isEmpty).map
      fun log => (log.2, log.1)).length = logs.countP ErrorLog.isEmpty := by
  have failures : (logs.zipIdx.filter fun log => !log.1.isEmpty).length =
      logs.countP fun log => !log.isEmpty := by
    rw [← List.countP_eq_length_filter, ← List.zipIdx_map_fst 0 logs, List.countP_map,
      List.zipIdx_map_fst]
    rfl
  have split := List.length_eq_countP_add_countP ErrorLog.isEmpty (l := logs)
  simp only [Bool.not_eq_true, Bool.decide_eq_false] at split
  rw [List.length_map, failures]
  omega

theorem countP_eq_one {p : Node → Bool} (nodes : List Node) :
    nodes.countP p = 1 ↔ ∃ before node after, nodes = before ++ node :: after ∧ p node ∧
      ∀ other ∈ before ++ after, ¬ p other := by
  constructor
  · intro h
    obtain ⟨node, mem, hnode⟩ := List.countP_pos_iff.mp (by omega : 0 < nodes.countP p)
    obtain ⟨before, after, rfl⟩ := List.append_of_mem mem
    refine ⟨before, node, after, rfl, hnode, ?_⟩
    rw [List.countP_append, List.countP_cons_of_pos hnode] at h
    rw [← List.countP_eq_zero, List.countP_append]
    omega
  · intro h
    obtain ⟨before, node, after, rfl, hnode, others⟩ := h
    rw [← List.countP_eq_zero, List.countP_append] at others
    rw [List.countP_append, List.countP_cons_of_pos hnode]
    omega

theorem verdict_eq_none (combinator : Combinator) {alternatives : List Node} {value : Json}
    {logs : List ErrorLog}
    (h : logs.map ErrorLog.isEmpty = alternatives.map (fits Sat place value)) :
    combinator.verdict alternatives logs = none ↔
      combinator.Meets Sat place alternatives value := by
  have matched : logs.countP ErrorLog.isEmpty = alternatives.countP (fits Sat place value) := by
    have := congrArg (List.countP id) h
    simpa [List.countP_map] using this
  have total : logs.length = alternatives.length := by simpa using congrArg List.length h
  have count := matched_eq logs
  rw [matched, total] at count
  unfold verdict Meets
  simp only [total, count, ← fits_iff Sat place value]
  cases combinator with
  | allOf =>
    have := List.countP_le_length (p := fits Sat place value) (l := alternatives)
    simp only [ite_eq_right_iff, reduceCtorEq, imp_false, Nat.not_lt, ← List.countP_eq_length]
    omega
  | anyOf =>
    simp only [ite_eq_right_iff, reduceCtorEq, imp_false, ← List.countP_pos_iff]
    omega
  | oneOf =>
    rw [← countP_eq_one]
    simp
  | not =>
    rw [← List.countP_eq_zero]
    cases alternatives with
    | nil => simp
    | cons node rest => simp only [List.head?_cons, Option.map_some, ite_eq_right_iff,
        reduceCtorEq, imp_false, Nat.not_lt, Nat.le_zero]

theorem tells_validate (combinator : Combinator) (value : Json) (alternatives : List Node)
    (inner : ∀ node ∈ alternatives,
      (checkNode node value ⟨.ofContext context, place.inner⟩).Tells (fun _ => True)
        (Sat ⟨node, place.inner⟩ value)) :
    (combinator.validate checkNode alternatives value ⟨.ofContext context, place.inner⟩).Tells
      (fun _ => True) (combinator.Meets Sat place alternatives value) := by
  refine (Check.Tells.bind (.ofRun (gives_trials value alternatives inner)) ?_).congr
    (iff_of_eq (true_and _))
  intro logs hlogs
  refine (Check.Tells.recordAll _).congr ?_
  rw [← verdict_eq_none combinator hlogs]
  simp [Option.toList_eq_nil_iff]

end Combinator

end SchemaCast
