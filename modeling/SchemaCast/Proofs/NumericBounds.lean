import SchemaCast.Proofs.Number.Rounding
import SchemaCast.Scalar
import SchemaCast.Schema.Build

/-!
# Verdicts on integers

Bounds are doubles, and a value is rounded to a double before it is compared with them. For
bounds that are integers up to `2^53` this is the comparison of the integers themselves, but for
one value on either side: `2^53 + 1` is taken for `2^53`, and its negative for the negative.
Steps are compared without rounding, up to the greatest signed 64-bit integer.
-/
namespace SchemaCast

open Number (Exact RoundsOnto exists_toInt?_ofInt int64Min int64Max word64Max)

/-- The double is an integer, in the range where doubles leave out none. -/
def Number.Exact.IsBound (bound : Exact) (b : Int) : Prop :=
  bound.toInt? = some b ∧ b.natAbs ≤ 2 ^ 53

/-- The double of an integer compares with a bound as the integer does, unless it is rounded onto
the bound. -/
theorem Number.Exact.IsBound.compare {bound : Exact} {b n : Int} (h : bound.IsBound b)
    (hn : n.natAbs ≤ word64Max) :
    ((Exact.ofInt n).lt bound ↔ n < b ∧ ¬RoundsOnto n b) ∧
    (bound.lt (.ofInt n) ↔ b < n ∧ ¬RoundsOnto n b) ∧
    ((Exact.ofInt n).le bound ↔ n ≤ b ∨ RoundsOnto n b) ∧
    (bound.le (.ofInt n) ↔ b ≤ n ∨ RoundsOnto n b) := by
  obtain ⟨hbound, hb⟩ := h
  obtain ⟨r, hr, hcompare⟩ := exists_toInt?_ofInt hn
  obtain ⟨hbelow, habove⟩ := hcompare b hb
  rw [Exact.lt_of_toInt? hr hbound, Exact.lt_of_toInt? hbound hr, Exact.le_of_toInt? hr hbound,
    Exact.le_of_toInt? hbound hr]
  simp only [decide_eq_true_eq]
  refine ⟨hbelow, habove, ?_, ?_⟩
  · by_cases htie : RoundsOnto n b
    · simp only [htie, not_true, and_false, or_true, iff_true, iff_false] at habove ⊢
      omega
    · simp only [htie, not_false_iff, and_true, or_false] at habove ⊢
      omega
  · by_cases htie : RoundsOnto n b
    · simp only [htie, not_true, and_false, or_true, iff_true, iff_false] at hbelow ⊢
      omega
    · simp only [htie, not_false_iff, and_true, or_false] at hbelow ⊢
      omega

namespace NumericRules

/-- What an integer breaks: one comparison for each option that is set. -/
theorem mem_violations_int {rules : NumericRules} {integer : Bool} {n : Int}
    {violation : Violation} :
    violation ∈ rules.violations integer (.int n) ↔
      (∃ bound ∈ rules.minimum, (Exact.ofInt n).lt bound ∧ .belowMinimum bound = violation) ∨
      (∃ bound ∈ rules.maximum, bound.lt (.ofInt n) ∧ .aboveMaximum bound = violation) ∨
      (∃ bound ∈ rules.exclusiveMinimum,
        (Exact.ofInt n).le bound ∧ .notAboveMinimum bound = violation) ∨
      (∃ bound ∈ rules.exclusiveMaximum,
        bound.le (.ofInt n) ∧ .notBelowMaximum bound = violation) ∨
      ∃ step ∈ rules.multipleOf,
        isMultiple (.int n) step = false ∧ .notMultiple step = violation := by
  simp [violations, numberViolations, Json.number?, and_assoc]

/-- A signed 64-bit integer is tried against an integral step without rounding. -/
theorem isMultiple_int {n d : Int} {step : Exact} (hstep : step.toInt? = some d)
    (hn : n ≤ int64Max) (hd : d.natAbs < 9000000000000000) :
    isMultiple (.int n) step = decide (d ∣ n) := by
  simp only [isMultiple, hstep, hn, hd, and_self, if_true]
  exact decide_eq_decide.2 Int.dvd_iff_emod_eq_zero.symm

/-- **Verdicts on integers.** A bound that is an integer up to `2^53` is compared with integers as
an integer, except that an integer that is rounded onto the bound counts as equal to it. An
integral step below `9 · 10^15` is compared exactly with the signed 64-bit integers. -/
theorem integer_verdicts (rules : NumericRules) (integer : Bool) {n : Int} (hlow : int64Min ≤ n)
    (hhigh : n ≤ word64Max) :
    (∀ bound b, rules.minimum = some bound → bound.IsBound b →
      (.belowMinimum bound ∈ rules.violations integer (.int n) ↔ n < b ∧ ¬RoundsOnto n b)) ∧
    (∀ bound b, rules.maximum = some bound → bound.IsBound b →
      (.aboveMaximum bound ∈ rules.violations integer (.int n) ↔ b < n ∧ ¬RoundsOnto n b)) ∧
    (∀ bound b, rules.exclusiveMinimum = some bound → bound.IsBound b →
      (.notAboveMinimum bound ∈ rules.violations integer (.int n) ↔ n ≤ b ∨ RoundsOnto n b)) ∧
    (∀ bound b, rules.exclusiveMaximum = some bound → bound.IsBound b →
      (.notBelowMaximum bound ∈ rules.violations integer (.int n) ↔ b ≤ n ∨ RoundsOnto n b)) ∧
    (∀ step d, rules.multipleOf = some step → step.toInt? = some d →
      1 ≤ d → d < 9000000000000000 → n ≤ int64Max →
      (.notMultiple step ∈ rules.violations integer (.int n) ↔ ¬d ∣ n)) := by
  have hn : n.natAbs ≤ word64Max := by
    simp only [int64Min, word64Max] at hlow hhigh ⊢
    omega
  refine ⟨?_, ?_, ?_, ?_, ?_⟩
  · intro bound b hset hbound
    simpa [mem_violations_int, hset] using (hbound.compare hn).1
  · intro bound b hset hbound
    simpa [mem_violations_int, hset] using (hbound.compare hn).2.1
  · intro bound b hset hbound
    simpa [mem_violations_int, hset] using (hbound.compare hn).2.2.1
  · intro bound b hset hbound
    simpa [mem_violations_int, hset] using (hbound.compare hn).2.2.2
  · intro step d hset hstep hpos hsmall hsigned
    have hmultiple := isMultiple_int hstep hsigned (by omega)
    simp [mem_violations_int, hset, hmultiple]

/-- Even and at most `2^53`. -/
def evenUpToPower : NumericRules :=
  { maximum := some (.ofInt 9007199254740992), multipleOf := some (.ofInt 2) }

/-- Of the integers next to `2^53` only the nearest escapes the maximum, and the step is still
exact at the greatest signed integer. -/
theorem integer_verdicts_ends :
    .aboveMaximum (.ofInt 9007199254740992) ∈
        evenUpToPower.violations true (.int 9007199254740994) ∧
      .aboveMaximum (.ofInt 9007199254740992) ∉
        evenUpToPower.violations true (.int 9007199254740993) ∧
      .notMultiple (.ofInt 2) ∈ evenUpToPower.violations true (.int 9223372036854775807) := by
  have hbound : Exact.IsBound (.ofInt 9007199254740992) 9007199254740992 :=
    ⟨by decide +kernel, by decide⟩
  have hbeyond :=
    integer_verdicts evenUpToPower true (n := 9007199254740994) (by decide) (by decide)
  have hnext :=
    integer_verdicts evenUpToPower true (n := 9007199254740993) (by decide) (by decide)
  have hgreatest :=
    integer_verdicts evenUpToPower true (n := 9223372036854775807) (by decide) (by decide)
  refine ⟨?_, ?_, ?_⟩
  · refine (hbeyond.2.1 _ _ rfl hbound).2 ⟨by decide, ?_⟩
    unfold RoundsOnto
    omega
  · intro habove
    refine ((hnext.2.1 _ _ rfl hbound).1 habove).2 ?_
    unfold RoundsOnto
    omega
  · exact (hgreatest.2.2.2.2 _ 2 rfl (by decide +kernel) (by decide) (by decide) (by decide)).2
      (by decide)

/-- At most `2^53`. -/
def upToPower : NumericRules := { maximum := some (.ofInt 9007199254740992) }

/-- Even numbers. -/
def even : NumericRules := { multipleOf := some (.ofInt 2) }

/-- The integer `2^53 + 1` passes a maximum of `2^53`, and `2^64 - 1` passes for even. -/
theorem integer_verdicts_inexact :
    upToPower.check.toOption = some () ∧
      upToPower.violations true (.int 9007199254740993) = [] ∧
      even.check.toOption = some () ∧
      even.violations true (.int 18446744073709551615) = [] := by
  refine ⟨?_, ?_, ?_, ?_⟩
  · decide +kernel
  · apply List.isEmpty_iff.1
    decide +kernel
  · decide +kernel
  · apply List.isEmpty_iff.1
    decide +kernel

end NumericRules
end SchemaCast
