import SchemaCast.Casting
import SchemaCast.Proofs.Format.Integers

/-!
# Strings in place of integers

An integer node may read strings (`castText`). The decimal text of an integer is then checked and
cast as the integer is, as long as it fits into a signed 64-bit word. Integers above that are
values too, up to `2^64 - 1`, but their texts are no texts of the format: they are turned down,
whatever the rules, and stay texts.
-/
namespace SchemaCast

open Number (IsInt64 int64Min int64Max word64Max intText int64?_intText spells_intText)

namespace Format

theorem accepts_intText (n : Int) : accepts .integer (intText n) = decide (IsInt64 n) := by
  have hdigits : isSignedDigits (intText n).toList = true :=
    isSignedDigits_iff.2 ⟨n, spells_intText n⟩
  have hread : (Number.int64? (intText n).toList).isSome = decide (IsInt64 n) := by
    rw [int64?_intText]
    by_cases hn : IsInt64 n <;> simp [hn]
  simp only [accepts, isInteger, hdigits, hread, Bool.true_and]

theorem cast_intText {n : Int} (hn : IsInt64 n) : cast .integer (intText n) = .int n := by
  simp only [cast, int64?_intText, if_pos hn, Option.map_some, Option.getD_some]

end Format

namespace NumericRules

variable (rules : NumericRules) {n : Int}

theorem violations_intText (hn : IsInt64 n) :
    rules.violations true (.str (intText n)) = rules.violations true (.int n) := by
  simp only [violations, textFormat, if_true, Format.accepts_intText, decide_eq_true hn,
    Format.cast_intText hn]

theorem violations_intText_of_large (hn : ¬IsInt64 n) :
    rules.violations true (.str (intText n)) = [.formatMismatch "integer"] := by
  simp only [violations, textFormat, if_true, Format.accepts_intText, decide_eq_false hn,
    Bool.false_eq_true, if_false]
  rfl

theorem cast_intText (hcast : rules.castText = true) :
    rules.cast true (.str (intText n)) =
      if IsInt64 n then .int n else .str (intText n) := by
  by_cases hn : IsInt64 n
  · simp only [cast, textFormat, if_true, hcast, Format.accepts_intText, decide_eq_true hn,
      Bool.and_self, Format.cast_intText hn, if_pos hn]
  · simp only [cast, textFormat, if_true, Format.accepts_intText, decide_eq_false hn,
      Bool.and_false, Bool.false_eq_true, if_false, if_neg hn]

end NumericRules

namespace Node

variable {σ : Type} {node : Node} {rules : NumericRules} {value : Json}

/-- What an integer node deals with: integers, and texts if it reads them. -/
theorem present_integer (hkind : node.kind = .integer rules)
    (hvalue : (∃ n, value = .int n) ∨ rules.castText = true ∧ ∃ s, value = .str s) :
    node.present value = .ok value := by
  rcases hvalue with ⟨n, rfl⟩ | ⟨hcast, s, rfl⟩
  · simp [present, seen, hkind, Json.isNull, Kind.accepts, ValueKind.covers]
  · simp [present, seen, hkind, Json.isNull, Kind.accepts, ValueKind.covers, hcast]

theorem check_integer (hkind : node.kind = .integer rules) (hallowed : node.options.allowed = none)
    (hpresent : node.present value = .ok value) (fuel : Nat) (scope : Scope σ) :
    node.check (fuel + 1) value scope = Check.recordAll (rules.violations true value) := by
  simp only [check, checkWith, hpresent, notAllowed?, hallowed, hkind, Kind.validate]
  rfl

theorem castTo_integer (hkind : node.kind = .integer rules) (hnull : value.isNull = false)
    (fuel : Nat) (scope : Scope σ) :
    node.castTo (fuel + 1) value scope = pure (rules.cast true value) := by
  simp [castTo, castWith, seen, hkind, hnull, Kind.cast]

theorem exists_depthBound_eq (node : Node) (resolver : Resolver σ) (value : Json) :
    ∃ fuel, node.depthBound resolver value = fuel + 1 := by
  have hpos : 0 < node.depthBound resolver value := by
    unfold depthBound
    exact Nat.mul_pos (Nat.succ_pos _) (by omega)
  exact ⟨node.depthBound resolver value - 1, by omega⟩

/-- The text of an integer counts as the integer: it is checked in the same way, wherever and
under whatever bound, and it is cast to the integer. -/
structure ReadsText (σ : Type) (node : Node) (n : Int) : Prop where
  check_eq : ∀ (fuel fuel' : Nat) (scope : Scope σ),
    node.check (fuel + 1) (.str (intText n)) scope = node.check (fuel' + 1) (.int n) scope
  castTo_eq : ∀ (fuel : Nat) (scope : Scope σ),
    node.castTo (fuel + 1) (.str (intText n)) scope = pure (.int n)
  validate_eq : ∀ resolver : Resolver σ,
    node.validate resolver (.str (intText n)) = node.validate resolver (.int n)
  cast_eq : ∀ resolver : Resolver σ, node.cast resolver (.str (intText n)) = pure (.int n)

/-- The text of an integer is turned down for its format alone, and it stays a text. -/
structure RefusesText (σ : Type) (node : Node) (n : Int) : Prop where
  validate_eq : ∀ resolver : Resolver σ,
    node.validate resolver (.str (intText n)) = Check.trial (.record (.formatMismatch "integer"))
  cast_eq : ∀ resolver : Resolver σ,
    node.cast resolver (.str (intText n)) = pure (.str (intText n))

section Reader

variable (hkind : node.kind = .integer rules) (hcast : rules.castText = true)
  (hallowed : node.options.allowed = none) {n : Int}

include hkind hcast

theorem present_intText : node.present (.str (intText n)) = .ok (.str (intText n)) :=
  present_integer hkind (.inr ⟨hcast, _, rfl⟩)

include hallowed

theorem readsText (hn : IsInt64 n) : ReadsText σ node n := by
  have hcheck (fuel fuel' : Nat) (scope : Scope σ) :
      node.check (fuel + 1) (.str (intText n)) scope = node.check (fuel' + 1) (.int n) scope := by
    rw [check_integer hkind hallowed (present_intText hkind hcast),
      check_integer hkind hallowed (present_integer hkind (.inl ⟨n, rfl⟩)),
      rules.violations_intText hn]
  have hcastTo (fuel : Nat) (scope : Scope σ) :
      node.castTo (fuel + 1) (.str (intText n)) scope = pure (.int n) := by
    rw [castTo_integer hkind rfl, rules.cast_intText hcast, if_pos hn]
  refine ⟨hcheck, hcastTo, ?_, ?_⟩
  · intro resolver
    obtain ⟨fuel, hfuel⟩ := node.exists_depthBound_eq resolver (.str (intText n))
    obtain ⟨fuel', hfuel'⟩ := node.exists_depthBound_eq resolver (.int n)
    rw [validate, validate, hfuel, hfuel', hcheck fuel fuel']
  · intro resolver
    obtain ⟨fuel, hfuel⟩ := node.exists_depthBound_eq resolver (.str (intText n))
    rw [cast, hfuel, hcastTo]

theorem refusesText (hn : ¬IsInt64 n) : RefusesText σ node n := by
  constructor
  · intro resolver
    obtain ⟨fuel, hfuel⟩ := node.exists_depthBound_eq resolver (.str (intText n))
    rw [validate, hfuel, check_integer hkind hallowed (present_intText hkind hcast),
      rules.violations_intText_of_large hn]
    rfl
  · intro resolver
    obtain ⟨fuel, hfuel⟩ := node.exists_depthBound_eq resolver (.str (intText n))
    rw [cast, hfuel, castTo_integer hkind rfl, rules.cast_intText hcast, if_neg hn]

end Reader

/-- **The text of an integer counts as the integer exactly if it fits into 64 bits.** This holds
for every integer node that reads texts and lists no values, whatever its bounds. -/
theorem integer_reads_text (σ : Type) {node : Node} {rules : NumericRules}
    (hkind : node.kind = .integer rules) (hcast : rules.castText = true)
    (hallowed : node.options.allowed = none) (n : Int) :
    (IsInt64 n → ReadsText σ node n) ∧ (¬IsInt64 n → RefusesText σ node n) :=
  ⟨readsText hkind hcast hallowed, refusesText hkind hcast hallowed⟩

/-- An integer node that reads texts and has no bounds. -/
def textReader : Node := { options := {}, kind := .integer { castText := true } }

theorem integer_reads_text_least : ReadsText Unit textReader int64Min := by
  have hkind : textReader.kind = .integer { castText := true } := rfl
  exact (integer_reads_text Unit hkind rfl rfl int64Min).1 (by decide)

/-- The integer `2^63` is valid, and its text is not. -/
theorem integer_text_refused :
    ((textReader.validate (.empty : Resolver Unit) (.int 9223372036854775808) ()).1.toOption.map
        ErrorLog.isEmpty) = some true ∧
      ((textReader.validate (.empty : Resolver Unit)
        (.str (intText 9223372036854775808)) ()).1.toOption.map ErrorLog.isEmpty) = some false := by
  have hrefused : RefusesText Unit textReader 9223372036854775808 :=
    refusesText rfl rfl rfl (by decide)
  constructor
  · rfl
  · rw [hrefused.validate_eq]
    rfl

end Node
end SchemaCast
