import Mathlib.Order.CompletePartialOrder
import SchemaCast.Proofs.Regex.Matching

/-!
# The characters of matched words

A word that an expression matches is put together from members of the sets in the expression, so
what holds of all members of these sets holds of all characters of the word. Further down are the
words of a sequence of two sets and of a fixed number of characters.
-/
namespace SchemaCast.Regex.Expr

variable {P Q : Char → Prop}

/-- An expression without anchors in whose sets all members have a property. -/
def Over (P : Char → Prop) : Expr → Prop
  | .empty => True
  | .chars set => ∀ c, set.contains c → P c
  | .anchor _ => False
  | .seq first second => first.Over P ∧ second.Over P
  | .alt left right => left.Over P ∧ right.Over P
  | .loop body _ _ => body.Over P

theorem Over.mono {e : Expr} (h : e.Over P) (imp : ∀ c, P c → Q c) : e.Over Q := by
  induction e with
  | empty => trivial
  | chars set => exact fun c hc => imp c (h c hc)
  | anchor condition => exact h
  | seq first second ih₁ ih₂ => exact ⟨ih₁ h.1, ih₂ h.2⟩
  | alt left right ih₁ ih₂ => exact ⟨ih₁ h.1, ih₂ h.2⟩
  | loop body least most ih => exact ih h

theorem Over.anchorless {e : Expr} (h : e.Over P) : e.Anchorless := by
  induction e with
  | empty => trivial
  | chars set => trivial
  | anchor condition => exact h
  | seq first second ih₁ ih₂ => exact ⟨ih₁ h.1, ih₂ h.2⟩
  | alt left right ih₁ ih₂ => exact ⟨ih₁ h.1, ih₂ h.2⟩
  | loop body least most ih => exact ih h

/-- All words whose characters have a property. -/
def wordsOver (P : Char → Prop) : Language Char := {word | ∀ c ∈ word, P c}

theorem one_le_wordsOver : 1 ≤ wordsOver P := by
  intro word hword
  rw [(Language.mem_one word).1 hword]
  exact fun c hc => absurd hc List.not_mem_nil

theorem mul_le_wordsOver {L M : Language Char} (hL : L ≤ wordsOver P) (hM : M ≤ wordsOver P) :
    L * M ≤ wordsOver P := by
  intro word hword c hc
  obtain ⟨first, hfirst, second, hsecond, rfl⟩ := Language.mem_mul.1 hword
  rcases List.mem_append.1 hc with hc | hc
  · exact hL hfirst c hc
  · exact hM hsecond c hc

theorem pow_le_wordsOver {L : Language Char} (hL : L ≤ wordsOver P) (n : Nat) :
    L ^ n ≤ wordsOver P := by
  induction n with
  | zero => exact one_le_wordsOver
  | succ n ih =>
    rw [pow_succ]
    exact mul_le_wordsOver ih hL

theorem kstar_le_wordsOver {L : Language Char} (hL : L ≤ wordsOver P) :
    KStar.kstar L ≤ wordsOver P := by
  intro word hword c hc
  obtain ⟨words, rfl, hwords⟩ := Language.mem_kstar.1 hword
  obtain ⟨part, hpart, hc⟩ := List.mem_flatten.1 hc
  exact hL (hwords part hpart) c hc

/-- One case for each kind of expression; a loop repeats words that keep to the property. -/
theorem Over.language_le {e : Expr} (h : e.Over P) : e.language ≤ wordsOver P := by
  induction e with
  | empty => exact one_le_wordsOver
  | chars set =>
    rintro word ⟨c, hset, rfl⟩ d hd
    rw [List.mem_singleton.1 hd]
    exact h c hset
  | anchor condition => exact absurd h id
  | seq first second ih₁ ih₂ => exact mul_le_wordsOver (ih₁ h.1) (ih₂ h.2)
  | alt left right ih₁ ih₂ => exact sup_le (ih₁ h.1) (ih₂ h.2)
  | loop body least most ih =>
    have hleast := pow_le_wordsOver (ih h) least
    cases most with
    | none => exact mul_le_wordsOver hleast (kstar_le_wordsOver (ih h))
    | some most =>
      have hmore : (1 + body.language) ^ (most - least) ≤ wordsOver P :=
        pow_le_wordsOver (sup_le one_le_wordsOver (ih h)) _
      exact mul_le_wordsOver hleast hmore

theorem Over.forall_mem {e : Expr} (h : e.Over P) {word : List Char} (hword : word ∈ e.language) :
    ∀ c ∈ word, P c :=
  h.language_le hword

theorem Over.matchesAll_iff {e : Expr} (h : e.Over P) {text : List Char} :
    e.matchesAll text = true ↔ text ∈ e.language :=
  Expr.matchesAll_iff h.anchorless text

/-! ### Sequences of sets -/

theorem mem_language_seq {first second : Expr} {word : List Char} :
    word ∈ (seq first second).language ↔
      ∃ start ∈ first.language, ∃ rest ∈ second.language, start ++ rest = word := Language.mem_mul

theorem mem_language_alt {left right : Expr} {word : List Char} :
    word ∈ (alt left right).language ↔ word ∈ left.language ∨ word ∈ right.language :=
  Language.mem_add ..

theorem mem_language_pair {first second : CharSet} {word : List Char} :
    word ∈ (seq (chars first) (chars second)).language ↔
      ∃ a b, first.contains a ∧ second.contains b ∧ word = [a, b] := by
  simp only [mem_language_seq, mem_language_chars]
  constructor
  · rintro ⟨_, ⟨a, ha, rfl⟩, _, ⟨b, hb, rfl⟩, rfl⟩
    exact ⟨a, b, ha, hb, rfl⟩
  · rintro ⟨a, b, ha, hb, rfl⟩
    exact ⟨[a], ⟨a, ha, rfl⟩, [b], ⟨b, hb, rfl⟩, rfl⟩

theorem language_times (e : Expr) (n : Nat) : (e.times n).language = e.language ^ n := by
  rw [times, language, Nat.sub_self, pow_zero, mul_one]

theorem mem_language_times_chars {set : CharSet} {n : Nat} {word : List Char} :
    word ∈ ((chars set).times n).language ↔ word.length = n ∧ ∀ c ∈ word, set.contains c := by
  rw [language_times]
  induction n generalizing word with
  | zero =>
    rw [pow_zero, Language.mem_one, List.length_eq_zero_iff]
    constructor
    · rintro rfl
      exact ⟨rfl, by simp⟩
    · exact And.left
  | succ n ih =>
    rw [pow_succ', Language.mem_mul]
    constructor
    · rintro ⟨_, ⟨c, hc, rfl⟩, rest, hrest, rfl⟩
      obtain ⟨hlength, hall⟩ := ih.1 hrest
      simpa [hlength, hc] using hall
    · rintro ⟨hlength, hall⟩
      obtain ⟨c, rest, rfl⟩ := List.exists_cons_of_length_eq_add_one hlength
      have hrest : rest.length = n ∧ ∀ d ∈ rest, set.contains d :=
        ⟨by simpa using hlength, fun d hd => hall d (List.mem_cons_of_mem c hd)⟩
      exact ⟨[c], ⟨c, hall c List.mem_cons_self, rfl⟩, rest, ih.2 hrest, rfl⟩

end SchemaCast.Regex.Expr
