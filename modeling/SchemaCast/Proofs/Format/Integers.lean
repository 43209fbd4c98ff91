import SchemaCast.Proofs.Number.Decimal
import SchemaCast.Proofs.Regex.Matching
import SchemaCast.Scalar

/-!
# Integers and lists of integers as texts

The formats `integer` and `integer-list` are given by grammars and by the range of the numbers.
Here both are said once more as regular expressions, and the two ways to say them agree. A list
of integers, printed and joined with commas, is read back as that list; a text of the format is
read as one integer for each part between commas.
-/
namespace SchemaCast.Grammar

open SchemaCast.Regex (Expr)
open SchemaCast.Number (Spells)

/-- An optional minus sign and digits. -/
def integer : Expr := .seq minus (.many1 asciiDigit)

/-- Integers with commas between them. -/
def integerList : Expr := .seq integer (.many (.seq (char ',') integer))

theorem contains_asciiDigit (c : Char) :
    (Regex.CharSet.ofRanges [('0'.toNat, '9'.toNat)]).contains c = c.isDigit := by
  simp [Regex.CharSet.contains, Text.Ranges.contains, Char.isDigit, UInt32.le_iff_toNat_le]

theorem mem_language_char {c : Char} {word : List Char} :
    word ∈ (char c).language ↔ word = [c] := by
  simp [char, Expr.mem_language_chars]

theorem mem_language_minus {word : List Char} :
    word ∈ minus.language ↔ word = [] ∨ word = ['-'] := by
  rw [minus, Expr.mem_language_optional, mem_language_char]

theorem mem_language_digits {word : List Char} :
    word ∈ asciiDigit.many1.language ↔ word ≠ [] ∧ ∀ c ∈ word, c.isDigit := by
  rw [asciiDigit, Expr.range, Expr.mem_language_many1_chars]
  simp only [contains_asciiDigit]

/-- The words of the grammar are the spellings of integers. -/
theorem mem_language_integer {word : List Char} :
    word ∈ integer.language ↔ ∃ n, Spells word n := by
  rw [integer, Expr.language, Language.mem_mul]
  constructor
  · rintro ⟨sign, hsign, digits, hdigits, rfl⟩
    obtain ⟨nonempty, isDigit⟩ := mem_language_digits.1 hdigits
    rcases mem_language_minus.1 hsign with rfl | rfl
    · exact ⟨_, .plain nonempty isDigit⟩
    · exact ⟨_, .minus nonempty isDigit⟩
  · rintro ⟨n, h⟩
    cases h with
    | plain nonempty isDigit =>
      exact ⟨[], mem_language_minus.2 (.inl rfl), word,
        mem_language_digits.2 ⟨nonempty, isDigit⟩, rfl⟩
    | minus nonempty isDigit =>
      exact ⟨['-'], mem_language_minus.2 (.inr rfl), _,
        mem_language_digits.2 ⟨nonempty, isDigit⟩, rfl⟩

theorem intercalate_cons_eq (c : Char) (first : List Char) (fields : List (List Char)) :
    [c].intercalate (first :: fields) = first ++ (fields.map (c :: ·)).flatten := by
  induction fields generalizing first with
  | nil => simp
  | cons field fields ih => rw [List.intercalate_cons_cons, ih]; simp

/-- A list with separators: one field, and any number of fields behind a separator each. -/
theorem mem_language_separated {c : Char} {e : Expr} {word : List Char} :
    word ∈ (Expr.seq e (.many (.seq (char c) e))).language ↔
      ∃ fields, fields ≠ [] ∧ (∀ field ∈ fields, field ∈ e.language) ∧
        [c].intercalate fields = word := by
  rw [Expr.language, Language.mem_mul, Expr.language_many]
  constructor
  · rintro ⟨first, hfirst, others, hothers, rfl⟩
    obtain ⟨words, rfl, hwords⟩ := Language.mem_kstar.1 hothers
    have hcut : ∀ word ∈ words, word.tail ∈ e.language ∧ c :: word.tail = word := by
      intro word hword
      obtain ⟨separator, hseparator, field, hfield, rfl⟩ := Language.mem_mul.1 (hwords word hword)
      rw [mem_language_char.1 hseparator]
      exact ⟨hfield, rfl⟩
    refine ⟨first :: words.map List.tail, List.cons_ne_nil _ _, ?_, ?_⟩
    · simp only [List.mem_cons, List.mem_map]
      rintro field (rfl | ⟨word, hword, rfl⟩)
      · exact hfirst
      · exact (hcut word hword).1
    · rw [intercalate_cons_eq, List.map_map]
      congr 2
      exact (List.map_congr_left fun word hword => (hcut word hword).2).trans (List.map_id _)
  · rintro ⟨fields, nonempty, hfields, rfl⟩
    obtain ⟨first, rest, rfl⟩ := List.exists_cons_of_ne_nil nonempty
    refine ⟨first, hfields first List.mem_cons_self, (rest.map (c :: ·)).flatten,
      Language.join_mem_kstar ?_, (intercalate_cons_eq c first rest).symm⟩
    intro word hword
    obtain ⟨field, hfield, rfl⟩ := List.mem_map.1 hword
    exact Language.mem_mul.2 ⟨[c], mem_language_char.2 rfl, field,
      hfields field (List.mem_cons_of_mem first hfield), rfl⟩

/-- The words of the grammar are those with the spelling of an integer between any two commas. -/
theorem mem_language_integerList {word : List Char} :
    word ∈ integerList.language ↔ ∀ field ∈ word.splitOn ',', ∃ n, Spells field n := by
  rw [integerList, mem_language_separated]
  simp only [mem_language_integer]
  constructor
  · rintro ⟨fields, nonempty, hfields, rfl⟩
    rwa [List.splitOn_intercalate ',' _ nonempty]
    intro field hfield
    obtain ⟨n, hn⟩ := hfields field hfield
    exact hn.comma_notMem
  · intro h
    exact ⟨word.splitOn ',', List.splitOn_ne_nil ',' word, h, List.intercalate_splitOn ','⟩

theorem integer_anchorless : integer.Anchorless := ⟨trivial, trivial⟩

theorem integerList_anchorless : integerList.Anchorless :=
  ⟨integer_anchorless, trivial, integer_anchorless⟩

end SchemaCast.Grammar

namespace SchemaCast.Format

open SchemaCast.Number (Spells IsInt64 int64? intText spells_intText comma_notMem_intText)

theorem isSignedDigits_iff {text : List Char} :
    isSignedDigits text = true ↔ ∃ n, Spells text n := by
  constructor
  · intro h
    unfold isSignedDigits at h
    split at h
    · rename_i digits
      simp only [Bool.and_eq_true, Bool.not_eq_true', List.isEmpty_eq_false_iff,
        List.all_eq_true] at h
      exact ⟨_, .minus h.1 h.2⟩
    · simp only [Bool.and_eq_true, Bool.not_eq_true', List.isEmpty_eq_false_iff,
        List.all_eq_true] at h
      exact ⟨_, .plain h.1 h.2⟩
  · rintro ⟨n, h⟩
    cases h with
    | plain nonempty isDigit =>
      unfold isSignedDigits
      split
      · exact absurd (isDigit '-' List.mem_cons_self) (by decide)
      · simpa [nonempty] using isDigit
    | minus nonempty isDigit => simpa [isSignedDigits, nonempty] using isDigit

theorem isInteger_iff {text : List Char} :
    isInteger text = true ↔ ∃ n, Spells text n ∧ IsInt64 n := by
  rw [isInteger, Bool.and_eq_true, isSignedDigits_iff]
  constructor
  · rintro ⟨⟨n, hn⟩, hsome⟩
    refine ⟨n, hn, ?_⟩
    by_contra hrange
    rw [hn.int64?_eq, if_neg hrange] at hsome
    exact absurd hsome (by decide)
  · rintro ⟨n, hn, hrange⟩
    refine ⟨⟨n, hn⟩, ?_⟩
    rw [hn.int64?_eq, if_pos hrange]
    rfl

/-- The format is the grammar together with the range of the number. -/
theorem accepts_integer (s : String) :
    accepts .integer s = (Grammar.integer.matchesAll s.toList && (int64? s.toList).isSome) := by
  have hgrammar : isSignedDigits s.toList = Grammar.integer.matchesAll s.toList := by
    rw [Bool.eq_iff_iff, isSignedDigits_iff,
      Regex.Expr.matchesAll_iff Grammar.integer_anchorless, Grammar.mem_language_integer]
  rw [← hgrammar]
  rfl

theorem accepts_integerList_iff {s : String} :
    accepts .integerList s = true ↔
      ∀ field ∈ s.toList.splitOn ',', ∃ n, Spells field n ∧ IsInt64 n := by
  simp only [accepts, List.all_eq_true, isInteger_iff]

/-- The format is the grammar together with the range of each field. -/
theorem accepts_integerList (s : String) :
    accepts .integerList s = (Grammar.integerList.matchesAll s.toList &&
      (s.toList.splitOn ',').all fun field => (int64? field).isSome) := by
  have hgrammar : (s.toList.splitOn ',').all isSignedDigits =
      Grammar.integerList.matchesAll s.toList := by
    rw [Bool.eq_iff_iff, List.all_eq_true,
      Regex.Expr.matchesAll_iff Grammar.integerList_anchorless, Grammar.mem_language_integerList]
    simp only [isSignedDigits_iff]
  rw [← hgrammar, Bool.eq_iff_iff, Bool.and_eq_true]
  simp only [accepts, List.all_eq_true, isInteger, Bool.and_eq_true, forall₂_and]

/-- The text is taken for the list of integers: by the format, by its conversion, and so by every
rule that asks for the format. -/
structure ReadsAs (s : String) (ns : List Int) : Prop where
  accepts_eq : accepts .integerList s = true
  cast_eq : cast .integerList s = .arr (ns.map .int)
  rules_eq : ∀ rules : StringRules, rules.format = some .integerList →
    rules.cast (.str s) = .arr (ns.map .int)

/-- A value for each item is a list of values. -/
theorem exists_forall₂_iff {α β : Type} {R : α → β → Prop} {xs : List α} :
    (∀ x ∈ xs, ∃ y, R x y) ↔ ∃ ys, List.Forall₂ R xs ys := by
  constructor
  · intro h
    induction xs with
    | nil => exact ⟨[], .nil⟩
    | cons x xs ih =>
      obtain ⟨y, hy⟩ := h x List.mem_cons_self
      obtain ⟨ys, hys⟩ := ih fun z hz => h z (List.mem_cons_of_mem x hz)
      exact ⟨y :: ys, .cons hy hys⟩
  · rintro ⟨ys, h⟩
    induction h with
    | nil => simp
    | cons head tail ih =>
      rintro z (_ | ⟨_, hz⟩)
      · exact ⟨_, head⟩
      · exact ih z hz

theorem mapM_int64? {fields : List (List Char)} {ns : List Int}
    (h : List.Forall₂ (fun field n => Spells field n ∧ IsInt64 n) fields ns) :
    fields.mapM int64? = some ns := by
  induction h with
  | nil => rfl
  | cons head tail ih =>
    rw [List.mapM_cons, head.1.int64?_eq, if_pos head.2, ih]
    rfl

theorem readsAs_of_fields {s : String} {ns : List Int}
    (h : List.Forall₂ (fun field n => Spells field n ∧ IsInt64 n) (s.toList.splitOn ',') ns) :
    ReadsAs s ns := by
  have haccepts : accepts .integerList s = true := by
    rw [accepts_integerList_iff, exists_forall₂_iff]
    exact ⟨ns, h⟩
  have hcast : cast .integerList s = .arr (ns.map .int) := by
    simp only [cast, mapM_int64? h]
  refine ⟨haccepts, hcast, ?_⟩
  intro rules hformat
  simp only [StringRules.cast, hformat, haccepts, if_true, hcast]

/-- **Lists of integers are read as they are written.** Any integers of 64 bits, printed with
commas between them, are read back in their order. Any text of the format, whatever its zeros,
is read as an array with the value of each field, and never stays a text. The format is the
grammar with the range of each field. -/
theorem integerList_codec :
    (∀ ns : List Int, ns ≠ [] → (∀ n ∈ ns, IsInt64 n) →
      ReadsAs (",".intercalate (ns.map intText)) ns) ∧
    (∀ s, accepts .integerList s = true →
      ∃ ns, ReadsAs s ns ∧ List.Forall₂ Spells (s.toList.splitOn ',') ns) ∧
    ∀ s, accepts .integerList s = (Grammar.integerList.matchesAll s.toList &&
      (s.toList.splitOn ',').all fun field => (int64? field).isSome) := by
  refine ⟨?_, ?_, accepts_integerList⟩
  · intro ns nonempty hrange
    apply readsAs_of_fields
    have hfields : (",".intercalate (ns.map intText)).toList.splitOn ',' =
        ns.map fun n => (intText n).toList := by
      rw [String.toList_intercalate, List.map_map]
      apply List.splitOn_intercalate
      · intro field hfield
        obtain ⟨n, -, rfl⟩ := List.mem_map.1 hfield
        exact comma_notMem_intText n
      · simpa using nonempty
    rw [hfields, List.forall₂_map_left_iff, List.forall₂_same]
    intro n hn
    exact ⟨spells_intText n, hrange n hn⟩
  · intro s h
    rw [accepts_integerList_iff, exists_forall₂_iff] at h
    obtain ⟨ns, hns⟩ := h
    exact ⟨ns, readsAs_of_fields hns, hns.imp fun _ _ both => both.1⟩

theorem integerList_codec_ends :
    ReadsAs (",".intercalate ([Number.int64Min, 0, Number.int64Max].map intText))
      [Number.int64Min, 0, Number.int64Max] :=
  integerList_codec.1 _ (by decide) (by decide)

/-- Zeros in front of a number are no part of the value. -/
example : cast .integerList "007,-0" = .arr [.int 7, .int 0] := by rfl

end SchemaCast.Format
