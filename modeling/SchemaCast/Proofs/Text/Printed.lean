import SchemaCast.Proofs.Text.Lines
import SchemaCast.Violation

/-!
# Printed texts

Numbers, quoted texts and JSON are printed without carriage returns: digits are none, and in texts
they are escaped.
-/
namespace SchemaCast

open Text (NoReturn)

namespace Number

theorem return_ne_digitChar (n : Nat) : '\r' ≠ Nat.digitChar n := by
  have branch {p : Prop} [Decidable p] {a b : Char} (ha : '\r' ≠ a) (hb : '\r' ≠ b) :
      '\r' ≠ if p then a else b := by split <;> assumption
  unfold Nat.digitChar
  repeat' apply branch
  all_goals decide

theorem return_not_mem_toDigits (base n : Nat) : '\r' ∉ Nat.toDigits base n := by
  have core (fuel n : Nat) (rest : List Char) (h : '\r' ∉ rest) :
      '\r' ∉ Nat.toDigitsCore base fuel n rest := by
    induction fuel generalizing n rest with
    | zero => exact h
    | succ fuel ih =>
      have next : '\r' ∉ Nat.digitChar (n % base) :: rest := by
        simp [h, return_ne_digitChar]
      rw [Nat.toDigitsCore]
      split
      · exact next
      · exact ih _ _ next
  exact core _ _ _ List.not_mem_nil

theorem noReturn_intText (n : Int) : NoReturn (intText n) := by
  have digits := return_not_mem_toDigits 10 n.natAbs
  unfold NoReturn intText digitsOf
  split <;> simp [digits]

theorem return_not_mem_positionalText (layout : Layout) {digits : List Char} (exponent : Int)
    (h : '\r' ∉ digits) : '\r' ∉ positionalText layout digits exponent := by
  unfold positionalText
  split
  · split <;> simp [h]
  · have taken (n : Nat) (padded : List Char) (h : '\r' ∉ padded) :
        '\r' ∉ padded.take n ++ '.' :: padded.drop n := by
      simp only [List.mem_append, List.mem_cons, not_or]
      exact ⟨fun mem => h (List.mem_of_mem_take mem), by decide,
        fun mem => h (List.mem_of_mem_drop mem)⟩
    exact taken _ _ (by simp [h])

theorem return_not_mem_exponentText {digits : List Char} (exponent : Int) (h : '\r' ∉ digits) :
    '\r' ∉ exponentText digits exponent := by
  have power := return_not_mem_toDigits 10 exponent.natAbs
  have sign : '\r' ≠ if exponent < 0 then '-' else '+' := by split <;> decide
  have tail : '\r' ∉ 'e' :: (if exponent < 0 then '-' else '+') :: digitsOf exponent.natAbs := by
    simp only [List.mem_cons, not_or]
    exact ⟨by decide, sign, power⟩
  unfold exponentText
  match digits, h with
  | [], _ => simpa using tail
  | [d], h => exact fun mem => (List.mem_append.mp mem).elim h tail
  | d :: e :: rest, h =>
    simp only [List.mem_cons, not_or] at h
    obtain ⟨first, second, others⟩ := h
    refine fun mem => (List.mem_append.mp mem).elim ?_ tail
    simp [first, second, others]

theorem return_not_mem_decimal (layout : Layout) (decimal : Decimal) :
    '\r' ∉ decimal.text layout := by
  have digits := return_not_mem_toDigits 10 decimal.digits
  unfold Decimal.text
  dsimp only
  split
  · exact return_not_mem_positionalText _ _ digits
  · exact return_not_mem_exponentText _ digits

theorem noReturn_text (layout : Layout) (x : Exact) : NoReturn (x.text layout) := by
  cases x with
  | nan => simp [NoReturn, Exact.text]
  | infinite negative => cases negative <;> simp [NoReturn, Exact.text]
  | finite negative mantissa exponent =>
    have size : '\r' ∉ if mantissa = 0 then Decimal.text layout ⟨0, 0⟩
        else (shortest mantissa exponent).text layout := by
      split <;> exact return_not_mem_decimal layout _
    cases negative <;> simpa [NoReturn, Exact.text] using size

end Number

namespace Text

theorem noReturn_quoted (s : String) : NoReturn (quoted s) := by
  have escaped (c : Char) : '\r' ∉ escapeChar c := by
    have digits := Number.return_not_mem_toDigits 16 c.toNat
    by_cases same : '\r' = c
    · subst same
      decide
    · unfold escapeChar numberEscape
      repeat' split
      all_goals simp [same, digits]
  simpa [NoReturn, quoted] using fun c _ => escaped c

theorem noReturn_quotedList (items : List String) : NoReturn (quotedList items) := by
  have bracket : NoReturn "[" ∧ NoReturn "]" ∧ NoReturn ", " := by simp [NoReturn]
  obtain ⟨opening, closing, comma⟩ := bracket
  refine (opening.append (.intercalate comma fun text mem => ?_)).append closing
  obtain ⟨item, _, rfl⟩ := List.mem_map.mp mem
  exact noReturn_quoted item

end Text

namespace Json

theorem noReturn_stringText (s : String) : NoReturn (stringText s) := by
  have escaped (c : Char) : '\r' ∉ escapeChar c := by
    have digits := Number.return_not_mem_toDigits 16 c.toNat
    by_cases same : '\r' = c
    · subst same
      decide
    · unfold escapeChar fourHex
      repeat' split
      all_goals simp [same, digits]
  simpa [NoReturn, stringText] using fun c _ => escaped c

mutual

theorem noReturn_render (value : Json) : NoReturn value.render := by
  cases value with
  | null => simp [NoReturn, render]
  | bool b => cases b <;> simp [NoReturn, render]
  | int n => exact Number.noReturn_intText n
  | float x => exact Number.noReturn_text _ _
  | str s => exact noReturn_stringText s
  | arr items =>
    have brackets : NoReturn "[" ∧ NoReturn "]" ∧ NoReturn "," := by simp [NoReturn]
    obtain ⟨opening, closing, comma⟩ := brackets
    rw [render]
    exact (opening.append (.intercalate comma (noReturn_renderItems items))).append closing
  | obj fields =>
    have braces : NoReturn "\x7b" ∧ NoReturn "\x7d" ∧ NoReturn "," := by simp [NoReturn]
    obtain ⟨opening, closing, comma⟩ := braces
    rw [render]
    exact (opening.append (.intercalate comma (noReturn_renderFields fields))).append closing

theorem noReturn_renderItems (items : List Json) : ∀ text ∈ renderItems items, NoReturn text := by
  cases items with
  | nil => simp [renderItems]
  | cons item rest =>
    rw [renderItems]
    exact List.forall_mem_cons.mpr ⟨noReturn_render item, noReturn_renderItems rest⟩

theorem noReturn_renderFields (fields : List (String × Json)) :
    ∀ text ∈ renderFields fields, NoReturn text := by
  match fields with
  | [] => simp [renderFields]
  | (key, value) :: rest =>
    have colon : NoReturn ":" := by simp [NoReturn]
    rw [renderFields]
    refine List.forall_mem_cons.mpr ⟨?_, noReturn_renderFields rest⟩
    exact ((noReturn_stringText key).append colon).append (noReturn_render value)

end

end Json

end SchemaCast
