import SchemaCast.Proofs.Format.Integers
import SchemaCast.Proofs.Regex.Alphabet

/-!
# Dates and times as texts

The grammars of dates and times read two-digit numbers between marks. Wherever a grammar leaves a
digit free it takes a digit of any script, so that a date need not be an ASCII text: the digits of
the year and the last one of a day from 10 to 29 may be foreign. No other character outside of
ASCII is ever part of a date or time. A date and time is a date, the letter `T` and a time that
carries an offset.
-/
namespace SchemaCast.Grammar

open SchemaCast.Regex (Expr CharSet)
open SchemaCast.Text (decimalDigits)

variable {word : List Char} {c : Char}

/-! ### Numbers of two digits -/

/-- A number below a hundred in two ASCII digits. -/
def twoDigits (n : Nat) : List Char := [Nat.digitChar (n / 10), Nat.digitChar (n % 10)]

theorem twoDigits_eq (tens : Nat) {unit : Nat} (h : unit < 10) :
    twoDigits (10 * tens + unit) = [Nat.digitChar tens, Nat.digitChar unit] := by
  have htens : (10 * tens + unit) / 10 = tens := by omega
  have hunit : (10 * tens + unit) % 10 = unit := by omega
  rw [twoDigits, htens, hunit]

/-- A range of ASCII digits, as it is written in the grammars. -/
theorem contains_digits {a b : Nat} (h : a ≤ b ∧ b < 10) :
    (CharSet.ofRanges [((Nat.digitChar a).toNat, (Nat.digitChar b).toNat)]).contains c ↔
      ∃ n, a ≤ n ∧ n ≤ b ∧ c = Nat.digitChar n := by
  have value {n : Nat} (hn : n < 10) : (Nat.digitChar n).toNat = 48 + n :=
    Nat.toNat_digitChar_of_lt_ten hn
  simp only [CharSet.contains, Text.Ranges.contains, List.any_cons, List.any_nil, Bool.or_false,
    Bool.and_eq_true, decide_eq_true_eq, value h.2, value (Nat.lt_of_le_of_lt h.1 h.2)]
  constructor
  · intro hc
    refine ⟨c.toNat - 48, by omega, by omega, ?_⟩
    rw [← Char.toNat_inj, value (by omega)]
    omega
  · rintro ⟨n, hlow, hhigh, rfl⟩
    rw [value (by omega)]
    omega

theorem contains_digitChar {n : Nat} (h : n < 10) :
    decimalDigits.contains (Nat.digitChar n) := by
  apply Text.contains_decimalDigits_ascii
  rw [Nat.isDigit_digitChar]
  exact decide_eq_true h

theorem exists_digitChar (h : c.isDigit) : ∃ n < 10, c = Nat.digitChar n := by
  rw [← contains_asciiDigit] at h
  obtain ⟨n, -, hn, rfl⟩ := (contains_digits (a := 0) (b := 9) (by decide)).1 h
  exact ⟨n, by omega, rfl⟩

/-- The numbers with given tens whose other digit comes from a range. -/
theorem mem_language_twoDigits (word : List Char) (tens : Nat) {k l : Nat} (h : k ≤ l ∧ l < 10) :
    word ∈ (Expr.seq (char (Nat.digitChar tens))
        (.range (Nat.digitChar k) (Nat.digitChar l))).language ↔
      ∃ n, 10 * tens + k ≤ n ∧ n ≤ 10 * tens + l ∧ word = twoDigits n := by
  rw [char, Expr.range, Expr.mem_language_pair]
  simp only [contains_digits h, CharSet.contains_single, decide_eq_true_eq]
  constructor
  · rintro ⟨_, _, rfl, ⟨unit, hk, hl, rfl⟩, rfl⟩
    exact ⟨10 * tens + unit, by omega, by omega, (twoDigits_eq tens (by omega)).symm⟩
  · rintro ⟨n, hlow, hhigh, rfl⟩
    obtain ⟨unit, rfl⟩ := Nat.exists_eq_add_of_le (Nat.le_of_add_right_le hlow)
    exact ⟨_, _, rfl, ⟨unit, by omega, by omega, rfl⟩, twoDigits_eq tens (by omega)⟩

/-! ### Dates -/

/-- A month from 01 to 12. -/
def month : Expr := .alt (.seq (char '0') (.range '1' '9')) (.seq (char '1') (.range '0' '2'))

/-- A day from 01 to 31. -/
def day : Expr :=
  .alt (.seq (char '0') (.range '1' '9'))
    (.alt (.seq (.range '1' '2') digit) (.seq (char '3') (.range '0' '1')))

theorem date_eq : date = .ofSeq [.times digit 4, char '-', month, char '-', day] := rfl

theorem mem_language_month :
    word ∈ month.language ↔ ∃ n, 1 ≤ n ∧ n ≤ 12 ∧ word = twoDigits n := by
  have low := mem_language_twoDigits word 0 (k := 1) (l := 9) (by decide)
  have high := mem_language_twoDigits word 1 (k := 0) (l := 2) (by decide)
  rw [month, Expr.mem_language_alt]
  constructor
  · rintro (h | h)
    · obtain ⟨n, hlow, hhigh, rfl⟩ := low.1 h
      exact ⟨n, by omega, by omega, rfl⟩
    · obtain ⟨n, hlow, hhigh, rfl⟩ := high.1 h
      exact ⟨n, by omega, by omega, rfl⟩
  · rintro ⟨n, hlow, hhigh, rfl⟩
    by_cases hn : n < 10
    · exact .inl (low.2 ⟨n, by omega, by omega, rfl⟩)
    · exact .inr (high.2 ⟨n, by omega, by omega, rfl⟩)

/-- The text of a day from 01 to 31. Behind a one or a two, any `digit` will do. -/
def IsDay (digit : Char → Bool) (text : List Char) : Prop :=
  (∃ n, 1 ≤ n ∧ n ≤ 31 ∧ text = twoDigits n) ∨
    ∃ tens unit, 1 ≤ tens ∧ tens ≤ 2 ∧ digit unit ∧ text = [Nat.digitChar tens, unit]

/-- The text of a date: a year of four digits, a month from 01 to 12 and a day from 01 to 31, with
hyphens between them. -/
def IsDate (digit : Char → Bool) (text : List Char) : Prop :=
  ∃ year month day, text = year ++ '-' :: (twoDigits month ++ '-' :: day) ∧
    year.length = 4 ∧ (∀ c ∈ year, digit c) ∧ 1 ≤ month ∧ month ≤ 12 ∧ IsDay digit day

theorem mem_language_day : word ∈ day.language ↔ IsDay decimalDigits.contains word := by
  have low := mem_language_twoDigits word 0 (k := 1) (l := 9) (by decide)
  have middle : word ∈ (Expr.seq (.range (Nat.digitChar 1) (Nat.digitChar 2)) digit).language ↔
      ∃ tens unit, 1 ≤ tens ∧ tens ≤ 2 ∧ decimalDigits.contains unit ∧
        word = [Nat.digitChar tens, unit] := by
    rw [Expr.range, digit, Expr.mem_language_pair]
    simp only [contains_digits (a := 1) (b := 2) (by decide)]
    constructor
    · rintro ⟨_, unit, ⟨tens, hlow, hhigh, rfl⟩, hunit, rfl⟩
      exact ⟨tens, unit, hlow, hhigh, hunit, rfl⟩
    · rintro ⟨tens, unit, hlow, hhigh, hunit, rfl⟩
      exact ⟨_, unit, ⟨tens, hlow, hhigh, rfl⟩, hunit, rfl⟩
  have high := mem_language_twoDigits word 3 (k := 0) (l := 1) (by decide)
  rw [day, Expr.mem_language_alt, Expr.mem_language_alt]
  constructor
  · rintro (h | h | h)
    · obtain ⟨n, hlow, hhigh, rfl⟩ := low.1 h
      exact .inl ⟨n, by omega, by omega, rfl⟩
    · exact .inr (middle.1 h)
    · obtain ⟨n, hlow, hhigh, rfl⟩ := high.1 h
      exact .inl ⟨n, by omega, by omega, rfl⟩
  · rintro (⟨n, hlow, hhigh, rfl⟩ | h)
    · by_cases hone : n < 10
      · exact .inl (low.2 ⟨n, by omega, by omega, rfl⟩)
      · by_cases hthree : 30 ≤ n
        · exact .inr (.inr (high.2 ⟨n, by omega, by omega, rfl⟩))
        · have hunit := contains_digitChar (n := n % 10) (by omega)
          exact .inr (.inl (middle.2 ⟨n / 10, _, by omega, by omega, hunit, rfl⟩))
    · exact .inr (.inl (middle.2 h))

theorem mem_language_date : word ∈ date.language ↔ IsDate decimalDigits.contains word := by
  have year (text : List Char) : text ∈ (digit.times 4).language ↔
      text.length = 4 ∧ ∀ c ∈ text, decimalDigits.contains c := Expr.mem_language_times_chars
  simp only [date_eq, Expr.ofSeq, Expr.mem_language_seq, mem_language_char, year,
    mem_language_month, mem_language_day, IsDate]
  constructor
  · rintro ⟨year, ⟨hlength, hyear⟩, _, ⟨_, rfl, _, ⟨_, ⟨month, hlow, hhigh, rfl⟩, _, ⟨_, rfl, day,
      hday, rfl⟩, rfl⟩, rfl⟩, rfl⟩
    exact ⟨year, month, day, rfl, hlength, hyear, hlow, hhigh, hday⟩
  · rintro ⟨year, month, day, rfl, hlength, hyear, hlow, hhigh, hday⟩
    exact ⟨year, ⟨hlength, hyear⟩, _, ⟨_, rfl, _, ⟨_, ⟨month, hlow, hhigh, rfl⟩, _, ⟨_, rfl, day,
      hday, rfl⟩, rfl⟩, rfl⟩, rfl⟩

/-! ### ASCII dates -/

/-- All characters of a text are ASCII. -/
def IsAscii (text : List Char) : Prop := ∀ c ∈ text, c.toNat < 128

instance (text : List Char) : Decidable (IsAscii text) := List.decidableBAll _ text

/-- Ten ASCII characters `dddd-mm-dd` with `mm` from 01 to 12 and `dd` from 01 to 31. -/
def IsAsciiDate (text : List Char) : Prop :=
  ∃ year month day, text = year ++ '-' :: (twoDigits month ++ '-' :: twoDigits day) ∧
    year.length = 4 ∧ (∀ c ∈ year, c.isDigit) ∧ (1 ≤ month ∧ month ≤ 12) ∧ 1 ≤ day ∧ day ≤ 31

theorem ascii_of_isDigit (h : c.isDigit) : c.toNat < 128 := by
  obtain ⟨n, hn, rfl⟩ := exists_digitChar h
  rw [Nat.toNat_digitChar_of_lt_ten hn]
  omega

/-- The ASCII digits are the only digits in ASCII. -/
theorem isDigit_of_ascii (h : decimalDigits.contains c) (ascii : c.toNat < 128) : c.isDigit := by
  have foreign : ∀ range ∈ decimalDigits, range = ('0'.toNat, '9'.toNat) ∨ 128 ≤ range.1 := by
    decide
  obtain ⟨range, hrange, hlow, hhigh⟩ := Text.Ranges.contains_iff.1 h
  rcases foreign range hrange with rfl | hforeign
  · rw [← contains_asciiDigit]
    exact Text.Ranges.contains_iff.2 ⟨_, List.mem_singleton_self _, hlow, hhigh⟩
  · omega

theorem ascii_twoDigits {n : Nat} (h : n < 100) : IsAscii (twoDigits n) := by
  have ascii {k : Nat} (hk : k < 10) : (Nat.digitChar k).toNat < 128 := by
    rw [Nat.toNat_digitChar_of_lt_ten hk]
    omega
  intro c hc
  simp only [twoDigits, List.mem_cons, List.not_mem_nil, or_false] at hc
  rcases hc with rfl | rfl
  · exact ascii (by omega)
  · exact ascii (by omega)

theorem isDay_ascii_iff {text : List Char} :
    IsDay decimalDigits.contains text ∧ IsAscii text ↔
      ∃ n, (1 ≤ n ∧ n ≤ 31) ∧ text = twoDigits n := by
  constructor
  · rintro ⟨⟨n, hlow, hhigh, rfl⟩ | ⟨tens, unit, hlow, hhigh, hunit, rfl⟩, ascii⟩
    · exact ⟨n, ⟨hlow, hhigh⟩, rfl⟩
    · obtain ⟨n, hn, rfl⟩ := exists_digitChar (isDigit_of_ascii hunit (ascii unit (by simp)))
      exact ⟨10 * tens + n, by omega, (twoDigits_eq tens hn).symm⟩
  · rintro ⟨n, ⟨hlow, hhigh⟩, rfl⟩
    exact ⟨.inl ⟨n, hlow, hhigh, rfl⟩, ascii_twoDigits (by omega)⟩

/-- The dates in ASCII are the ASCII dates. -/
theorem isDate_ascii_iff {text : List Char} :
    IsDate decimalDigits.contains text ∧ IsAscii text ↔ IsAsciiDate text := by
  have append (left right : List Char) :
      IsAscii (left ++ right) ↔ IsAscii left ∧ IsAscii right := List.forall_mem_append
  have hyphen (rest : List Char) : IsAscii ('-' :: rest) ↔ IsAscii rest := by
    simp [IsAscii]
  constructor
  · rintro ⟨⟨year, month, day, rfl, hlength, hyear, hlow, hhigh, hday⟩, ascii⟩
    simp only [append, hyphen] at ascii
    obtain ⟨n, hn, rfl⟩ := isDay_ascii_iff.1 ⟨hday, ascii.2.2⟩
    have digits : ∀ c ∈ year, c.isDigit := fun c hc => isDigit_of_ascii (hyear c hc) (ascii.1 c hc)
    exact ⟨year, month, n, rfl, hlength, digits, ⟨hlow, hhigh⟩, hn⟩
  · rintro ⟨year, month, day, rfl, hlength, hyear, hmonth, hday⟩
    have given := isDay_ascii_iff.2 ⟨day, hday, rfl⟩
    have hdigits : ∀ c ∈ year, decimalDigits.contains c :=
      fun c hc => Text.contains_decimalDigits_ascii (hyear c hc)
    refine ⟨⟨year, month, _, rfl, hlength, hdigits, hmonth.1, hmonth.2, given.1⟩, ?_⟩
    simp only [append, hyphen]
    exact ⟨fun c hc => ascii_of_isDigit (hyear c hc), ascii_twoDigits (by omega), given.2⟩

/-! ### Characters of dates and times -/

theorem over_digit : digit.Over fun c => decimalDigits.contains c := fun _ h => h

theorem over_digits {a b : Nat} (h : a ≤ b ∧ b < 10) :
    (Expr.range (Nat.digitChar a) (Nat.digitChar b)).Over fun c => decimalDigits.contains c := by
  intro c hc
  obtain ⟨n, -, hn, rfl⟩ := (contains_digits h).1 hc
  exact contains_digitChar (by omega)

theorem over_char {P : Char → Prop} (h : P c) : (char c).Over P := by
  intro d hd
  rw [CharSet.contains_single, decide_eq_true_eq] at hd
  rwa [hd]

theorem contains_oneOf {letters : String} :
    (CharSet.ofRanges (letters.toList.map fun c => (c.toNat, c.toNat))).contains c ↔
      c ∈ letters.toList := by
  simp only [CharSet.contains, Text.Ranges.contains_iff, List.mem_map, ← Nat.le_antisymm_iff,
    exists_exists_and_eq_and, Char.toNat_inj, exists_eq_right]

theorem eq_of_mem_sign (h : c ∈ "+-".toList) : c = '+' ∨ c = '-' := by
  simpa using h

theorem over_hour : hour.Over fun c => decimalDigits.contains c :=
  ⟨⟨over_digits (a := 0) (b := 1) (by decide), over_digit⟩,
    over_char (by decide), over_digits (a := 0) (b := 3) (by decide)⟩

theorem over_sixtieth : sixtieth.Over fun c => decimalDigits.contains c :=
  ⟨over_digits (a := 0) (b := 5) (by decide), over_digit⟩

/-- A character of a time of day. -/
def IsClockChar (c : Char) : Prop := decimalDigits.contains c ∨ c = ':' ∨ c = '.'

theorem over_clock : clock.Over IsClockChar :=
  have colon : (char ':').Over IsClockChar := over_char (.inr (.inl rfl))
  have point : (char '.').Over IsClockChar := over_char (.inr (.inr rfl))
  ⟨over_hour.mono fun _ => .inl, colon, over_sixtieth.mono fun _ => .inl, colon,
    over_sixtieth.mono fun _ => .inl, point, over_digit.mono fun _ => .inl⟩

/-- A character of a date or time, by itself or together with the other. -/
def IsDateChar (c : Char) : Prop :=
  decimalDigits.contains c ∨ c ∈ ['-', ':', '.', '+', 'T', 'Z']

theorem IsClockChar.isDateChar (h : IsClockChar c) : IsDateChar c := by
  rcases h with h | rfl | rfl
  · exact .inl h
  · exact .inr (by decide)
  · exact .inr (by decide)

theorem over_date : date.Over IsDateChar :=
  have digits {e : Expr} (h : e.Over fun c => decimalDigits.contains c) : e.Over IsDateChar :=
    h.mono fun _ => .inl
  have hyphen : (char '-').Over IsDateChar := over_char (.inr (by decide))
  ⟨digits over_digit, hyphen,
    ⟨⟨digits (over_char (by decide)), digits (over_digits (a := 1) (b := 9) (by decide))⟩,
      digits (over_char (by decide)), digits (over_digits (a := 0) (b := 2) (by decide))⟩,
    hyphen,
    ⟨digits (over_char (by decide)), digits (over_digits (a := 1) (b := 9) (by decide))⟩,
    ⟨digits (over_digits (a := 1) (b := 2) (by decide)), digits over_digit⟩,
    digits (over_char (by decide)), digits (over_digits (a := 0) (b := 1) (by decide))⟩

theorem over_offset : offset.Over IsDateChar :=
  have sign : (oneOf "+-").Over IsDateChar := by
    intro c hc
    rcases eq_of_mem_sign (contains_oneOf.1 hc) with rfl | rfl
    · exact .inr (by decide)
    · exact .inr (by decide)
  ⟨over_char (.inr (by decide)), sign, over_hour.mono fun _ => .inl, over_char (.inr (by decide)),
    over_sixtieth.mono fun _ => .inl⟩

theorem over_time : time.Over IsDateChar := ⟨over_clock.mono fun _ h => h.isDateChar, over_offset⟩

theorem over_dateTime : dateTime.Over IsDateChar :=
  ⟨over_date, over_char (.inr (by decide)), over_clock.mono fun _ h => h.isDateChar, over_offset⟩

/-! ### Offsets -/

/-- A time ends in an offset, to judge by its last character and the sixth one from the end. -/
def CarriesOffset (text : List Char) : Prop :=
  text.getLast? = some 'Z' ∨ text.reverse[5]? = some '+' ∨ text.reverse[5]? = some '-'

theorem length_of_mem_hour (h : word ∈ hour.language) : word.length = 2 := by
  rw [hour, Expr.mem_language_alt] at h
  rcases h with h | h
  · obtain ⟨a, b, -, -, rfl⟩ := Expr.mem_language_pair.1 h
    rfl
  · obtain ⟨a, b, -, -, rfl⟩ := Expr.mem_language_pair.1 h
    rfl

theorem length_of_mem_sixtieth (h : word ∈ sixtieth.language) : word.length = 2 := by
  obtain ⟨a, b, -, -, rfl⟩ := Expr.mem_language_pair.1 h
  rfl

/-- A text that an offset has been put behind carries it. -/
theorem carriesOffset_append (clock : List Char) (h : word ∈ offset.language) :
    CarriesOffset (clock ++ word) := by
  rw [offset, Expr.mem_language_alt, mem_language_char] at h
  rcases h with rfl | h
  · exact .inl List.getLast?_concat
  · simp only [Expr.ofSeq, Expr.mem_language_seq, mem_language_char] at h
    obtain ⟨_, ⟨sign, hsign, rfl⟩, _, ⟨hours, hhours, _, ⟨_, rfl, minutes, hminutes, rfl⟩, rfl⟩,
      rfl⟩ := h
    have sixth : (clock ++ ([sign] ++ (hours ++ ([':'] ++ minutes)))).reverse[5]? = some sign := by
      obtain ⟨a, b, rfl⟩ := List.length_eq_two.1 (length_of_mem_hour hhours)
      obtain ⟨c, d, rfl⟩ := List.length_eq_two.1 (length_of_mem_sixtieth hminutes)
      simp
    rw [CarriesOffset, sixth]
    rcases eq_of_mem_sign (contains_oneOf.1 hsign) with rfl | rfl
    · exact .inr (.inl rfl)
    · exact .inr (.inr rfl)

/-- A time of day carries no offset of its own. -/
theorem not_carriesOffset_clock (h : word ∈ clock.language) : ¬ CarriesOffset word := by
  have known {c : Char} (hc : c ∈ word) : IsClockChar c := over_clock.forall_mem h c hc
  have sixth {c : Char} (hc : word.reverse[5]? = some c) : IsClockChar c :=
    known (List.mem_reverse.1 (List.mem_of_getElem? hc))
  have others : ¬ IsClockChar 'Z' ∧ ¬ IsClockChar '+' ∧ ¬ IsClockChar '-' := by
    unfold IsClockChar
    decide
  rintro (hlast | hplus | hminus)
  · exact others.1 (known (List.mem_of_getLast? hlast))
  · exact others.2.1 (sixth hplus)
  · exact others.2.2 (sixth hminus)

/-- A time that carries an offset is a time of day with an offset behind it. -/
theorem mem_language_time_and_offset :
    word ∈ time.language ∧ CarriesOffset word ↔ word ∈ (Expr.seq clock offset).language := by
  simp only [time, Expr.mem_language_seq, Expr.mem_language_optional]
  constructor
  · rintro ⟨⟨day, hday, rest, rfl | hrest, rfl⟩, carries⟩
    · rw [List.append_nil] at carries
      exact absurd carries (not_carriesOffset_clock hday)
    · exact ⟨day, hday, rest, hrest, rfl⟩
  · rintro ⟨day, hday, rest, hrest, rfl⟩
    exact ⟨⟨day, hday, rest, .inr hrest, rfl⟩, carriesOffset_append day hrest⟩

theorem mem_language_dateTime :
    word ∈ dateTime.language ↔ ∃ date' ∈ date.language, ∃ time' ∈ time.language,
      CarriesOffset time' ∧ date' ++ 'T' :: time' = word := by
  have whole : dateTime = .seq date (.seq (char 'T') (.seq clock offset)) := rfl
  rw [whole]
  simp only [@Expr.mem_language_seq date, @Expr.mem_language_seq (char 'T'), mem_language_char,
    ← mem_language_time_and_offset]
  constructor
  · rintro ⟨date', hdate, _, ⟨_, rfl, time', ⟨htime, carries⟩, rfl⟩, rfl⟩
    exact ⟨date', hdate, time', htime, carries, rfl⟩
  · rintro ⟨date', hdate, time', htime, carries, rfl⟩
    exact ⟨date', hdate, _, ⟨_, rfl, time', ⟨htime, carries⟩, rfl⟩, rfl⟩

end SchemaCast.Grammar

namespace SchemaCast.Format

open Grammar Text

theorem accepts_date {s : String} : accepts .date s = true ↔ s.toList ∈ Grammar.date.language :=
  over_date.matchesAll_iff

theorem accepts_time {s : String} : accepts .time s = true ↔ s.toList ∈ Grammar.time.language :=
  over_time.matchesAll_iff

theorem accepts_dateTime {s : String} :
    accepts .dateTime s = true ↔ s.toList ∈ Grammar.dateTime.language :=
  over_dateTime.matchesAll_iff

theorem isDateChar_of_accepts {format : Format} {s : String}
    (among : format ∈ [Format.date, .dateTime, .time]) (h : accepts format s = true) :
    ∀ c ∈ s.toList, IsDateChar c := by
  simp only [List.mem_cons, List.not_mem_nil, or_false] at among
  rcases among with rfl | rfl | rfl
  · exact over_date.forall_mem (accepts_date.1 h)
  · exact over_dateTime.forall_mem (accepts_dateTime.1 h)
  · exact over_time.forall_mem (accepts_time.1 h)

/-- The second day cannot be written with an Arabic two. -/
example : accepts .date "2024-02-0\u0662" = false := by decide +kernel

/-- **A date and time is a date, the letter `T` and a time with an offset.** -/
theorem accepts_dateTime_iff (s : String) :
    accepts .dateTime s = true ↔ ∃ d t : String, s = d ++ "T" ++ t ∧
      accepts .date d = true ∧ accepts .time t = true ∧ CarriesOffset t.toList := by
  rw [accepts_dateTime, mem_language_dateTime]
  simp only [accepts_date, accepts_time]
  constructor
  · rintro ⟨d, hd, t, ht, carries, whole⟩
    refine ⟨String.ofList d, String.ofList t, ?_, ?_⟩
    · rw [← String.toList_inj, ← whole]
      simp
    · simp only [String.toList_ofList]
      exact ⟨hd, ht, carries⟩
  · rintro ⟨d, t, rfl, hd, ht, carries⟩
    exact ⟨d.toList, hd, t.toList, ht, carries, by simp⟩

end SchemaCast.Format
