import SchemaCast.Number.Layout
import SchemaCast.Number.Reading

/-!
# Integers in decimal digits

A text spells an integer if it is an optional minus sign and at least one digit (`Spells`).
Leading zeros are allowed, so an integer has many spellings; the one that is printed
(`intText`) is among them. The 64-bit reader gives the value of every spelling that is in
range and nothing for one that is not.
-/
namespace SchemaCast.Number

/-- An optional minus sign and decimal digits, and the value they stand for. -/
inductive Spells : List Char → Int → Prop where
  | plain {digits : List Char} (nonempty : digits ≠ []) (isDigit : ∀ c ∈ digits, c.isDigit) :
    Spells digits (Nat.ofDigitChars 10 digits 0)
  | minus {digits : List Char} (nonempty : digits ≠ []) (isDigit : ∀ c ∈ digits, c.isDigit) :
    Spells ('-' :: digits) (-(Nat.ofDigitChars 10 digits 0))

/-- The numbers that a signed 64-bit word holds. -/
def IsInt64 (n : Int) : Prop := int64Min ≤ n ∧ n ≤ int64Max
  deriving Decidable

theorem natOfDigits_eq (digits : List Char) :
    natOfDigits digits = Nat.ofDigitChars 10 digits 0 := rfl

theorem isDigit_of_mem_digitsOf {n : Nat} {c : Char} (h : c ∈ digitsOf n) : c.isDigit :=
  Nat.isDigit_of_mem_toDigits (by decide) (by decide) h

theorem digitsOf_ne_nil (n : Nat) : digitsOf n ≠ [] := Nat.toDigits_ne_nil

theorem ofDigitChars_digitsOf (n : Nat) : Nat.ofDigitChars 10 (digitsOf n) 0 = n := by
  simp [digitsOf]

/-- An integer is spelt by its decimal text. -/
theorem spells_intText (n : Int) : Spells (intText n).toList n := by
  have hplain := Spells.plain (digitsOf_ne_nil n.natAbs) fun _ => isDigit_of_mem_digitsOf
  have hminus := Spells.minus (digitsOf_ne_nil n.natAbs) fun _ => isDigit_of_mem_digitsOf
  rw [ofDigitChars_digitsOf] at hplain hminus
  by_cases hn : n < 0
  · have habs : -(n.natAbs : Int) = n := by omega
    rw [habs] at hminus
    simpa [intText, hn] using hminus
  · have habs : (n.natAbs : Int) = n := by omega
    rw [habs] at hplain
    simpa [intText, hn] using hplain

/-- Digits have no sign to split off. -/
theorem splitSign_eq {digits : List Char} (isDigit : ∀ c ∈ digits, c.isDigit) :
    splitSign digits = (false, digits) := by
  unfold splitSign
  split
  · exact absurd (isDigit '-' List.mem_cons_self) (by decide)
  · exact absurd (isDigit '+' List.mem_cons_self) (by decide)
  · rfl

namespace Spells

variable {text : List Char} {n : Int}

theorem mem (h : Spells text n) {c : Char} (hc : c ∈ text) : c = '-' ∨ c.isDigit := by
  cases h with
  | plain nonempty isDigit => exact .inr (isDigit c hc)
  | minus nonempty isDigit =>
    rcases List.mem_cons.1 hc with rfl | hc
    · exact .inl rfl
    · exact .inr (isDigit c hc)

theorem comma_notMem (h : Spells text n) : ',' ∉ text := by
  intro hc
  rcases h.mem hc with hc | hc
  · exact absurd hc (by decide)
  · exact absurd hc (by decide)

/-- The 64-bit reader gives the value of a spelling, as far as it is in range. -/
theorem int64?_eq (h : Spells text n) : int64? text = if IsInt64 n then some n else none := by
  cases h with
  | plain nonempty isDigit =>
    simp only [int64?, splitSign_eq isDigit, List.isEmpty_eq_false_iff.2 nonempty,
      List.all_eq_true.2 isDigit, natOfDigits_eq]
    rfl
  | minus nonempty isDigit =>
    simp only [int64?, splitSign, List.isEmpty_eq_false_iff.2 nonempty,
      List.all_eq_true.2 isDigit, natOfDigits_eq]
    rfl

end Spells

theorem int64?_intText (n : Int) :
    int64? (intText n).toList = if IsInt64 n then some n else none :=
  (spells_intText n).int64?_eq

theorem comma_notMem_intText (n : Int) : ',' ∉ (intText n).toList :=
  (spells_intText n).comma_notMem

end SchemaCast.Number
