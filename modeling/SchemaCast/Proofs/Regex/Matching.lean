import Mathlib.Algebra.BigOperators.Group.List.Basic
import Mathlib.Algebra.Order.Monoid.Unbundled.Pow
import Mathlib.Computability.Language
import SchemaCast.Regex.Marks

/-!
# The language of a regular expression

The matcher moves sets of boundaries over a text. An expression without anchors has a language,
the set of the words it matches, composed as the expression is (`Expr.language`), and the matcher
decides it: from the marked boundaries it reaches exactly those behind a word of the language
(`Expr.moves`), so that the whole text matches if and only if it is such a word
(`Expr.matchesAll_iff`). An unbounded loop stops after as many rounds as the text has boundaries,
which is enough since a round that adds a boundary reads at least one character.
-/
namespace SchemaCast.Regex

namespace Marks

/-- The boundary with index `i` is marked. -/
def Has (marks : Marks) (i : Nat) : Prop := marks[i]? = some true

@[simp] theorem not_has_nil (i : Nat) : ¬Has [] i := by simp [Has]

@[simp] theorem has_cons_zero (mark : Bool) (marks : Marks) :
    Has (mark :: marks) 0 ↔ mark = true := by
  simp [Has]

@[simp] theorem has_cons_succ (mark : Bool) (marks : Marks) (i : Nat) :
    Has (mark :: marks) (i + 1) ↔ marks.Has i := by
  simp [Has]

theorem Has.lt_length {marks : Marks} {i : Nat} (h : marks.Has i) : i < marks.length :=
  (List.getElem?_eq_some_iff.1 h).1

theorem has_union (a b : Marks) (i : Nat) : (a.union b).Has i ↔ a.Has i ∨ b.Has i := by
  induction a, b using union.induct generalizing i with
  | case1 a as b bs ih => cases i <;> simp [union, ih]
  | case2 bs => simp [union]
  | case3 as h => cases as <;> simp [union]

theorem has_minus (a b : Marks) (i : Nat) : (a.minus b).Has i ↔ a.Has i ∧ ¬b.Has i := by
  induction a, b using minus.induct generalizing i with
  | case1 a as b bs ih => cases i <;> simp [minus, ih]
  | case2 as => cases as <;> simp [minus]
  | case3 bs h => simp [minus]

theorem isAny_iff (marks : Marks) : marks.isAny = true ↔ ∃ i, marks.Has i := by
  simp only [isAny, List.any_eq_true, id_eq, exists_eq_right, Has, List.mem_iff_getElem?]

theorem has_before (set : CharSet) (text : List Char) (marks : Marks) (i : Nat) :
    (before set text marks).Has i ↔ marks.Has i ∧ ∃ c, text[i]? = some c ∧ set.contains c := by
  induction text generalizing marks i with
  | nil => simp [before]
  | cons c text ih =>
    cases marks with
    | nil => simp [before]
    | cons mark marks => cases i <;> simp [before, ih]

@[simp] theorem length_union (a b : Marks) : (a.union b).length = max a.length b.length := by
  induction a, b using union.induct with
  | case1 a as b bs ih => simp [union, ih]
  | case2 bs => simp [union]
  | case3 as h => cases as <;> simp [union]

@[simp] theorem length_minus (a b : Marks) : (a.minus b).length = a.length := by
  induction a, b using minus.induct with
  | case1 a as b bs ih => simp [minus, ih]
  | case2 as => cases as <;> simp [minus]
  | case3 bs h => simp [minus]

@[simp] theorem length_before (set : CharSet) (text : List Char) (marks : Marks) :
    (before set text marks).length = min text.length marks.length := by
  induction text generalizing marks with
  | nil => simp [before]
  | cons c text ih =>
    cases marks with
    | nil => simp [before]
    | cons mark marks => simp [before, ih]

end Marks

/-- A word of the language stands between the boundaries `i` and `j` of a text. -/
def Spans (text : List Char) (L : Language Char) (i j : Nat) : Prop :=
  ∃ before word after, text = before ++ word ++ after ∧ before.length = i ∧
    i + word.length = j ∧ word ∈ L

namespace Spans

variable {text : List Char} {L M : Language Char} {i j : Nat}

theorem le_length (h : Spans text L i j) : i ≤ j ∧ j ≤ text.length := by
  obtain ⟨before, word, after, rfl, rfl, rfl, -⟩ := h
  simp

theorem mono (hLM : ∀ word ∈ L, word ∈ M) (h : Spans text L i j) : Spans text M i j := by
  obtain ⟨before, word, after, htext, hi, hj, hword⟩ := h
  exact ⟨before, word, after, htext, hi, hj, hLM word hword⟩

theorem one_iff : Spans text 1 i j ↔ i = j ∧ i ≤ text.length := by
  constructor
  · intro h
    have hle := h.le_length
    obtain ⟨before, word, after, -, -, hj, hword⟩ := h
    rw [Language.mem_one] at hword
    subst hword
    simp only [List.length_nil, Nat.add_zero] at hj
    omega
  · rintro ⟨rfl, hi⟩
    refine ⟨text.take i, [], text.drop i, ?_, ?_, ?_, Language.nil_mem_one⟩
    · simp
    · simp [hi]
    · simp

theorem add_iff : Spans text (L + M) i j ↔ Spans text L i j ∨ Spans text M i j := by
  constructor
  · rintro ⟨before, word, after, htext, hi, hj, hword | hword⟩
    · exact .inl ⟨before, word, after, htext, hi, hj, hword⟩
    · exact .inr ⟨before, word, after, htext, hi, hj, hword⟩
  · rintro (h | h)
    · exact h.mono fun word hword => .inl hword
    · exact h.mono fun word hword => .inr hword

theorem mul_iff : Spans text (L * M) i j ↔ ∃ k, Spans text L i k ∧ Spans text M k j := by
  constructor
  · rintro ⟨before, word, after, rfl, hi, hj, hword⟩
    obtain ⟨first, hfirst, second, hsecond, rfl⟩ := Language.mem_mul.1 hword
    rw [List.length_append] at hj
    refine ⟨i + first.length, ⟨before, first, second ++ after, ?_, hi, rfl, hfirst⟩,
      ⟨before ++ first, second, after, ?_, ?_, ?_, hsecond⟩⟩
    · simp
    · simp
    · simp [hi]
    · omega
  · rintro ⟨k, ⟨before, first, after, rfl, hi, hk, hfirst⟩,
      ⟨before', second, after', htext, hk', hj, hsecond⟩⟩
    -- both texts are cut at the boundary between the two words
    have hcut : before ++ first = before' ∧ after = second ++ after' := by
      rw [List.append_assoc before'] at htext
      apply List.append_inj htext
      simp only [List.length_append]
      omega
    refine ⟨before, first ++ second, after', ?_, hi, ?_, Language.append_mem_mul hfirst hsecond⟩
    · rw [hcut.2]
      simp
    · simp only [List.length_append]
      omega

theorem whole_iff : Spans text L 0 text.length ↔ text ∈ L := by
  constructor
  · rintro ⟨before, word, after, htext, hbefore, hword, hmem⟩
    have hlength := congrArg List.length htext
    simp only [List.length_append] at hlength
    have hnone : before = [] ∧ after = [] := by
      constructor
      · exact List.length_eq_zero_iff.1 hbefore
      · exact List.length_eq_zero_iff.1 (by omega)
    rw [hnone.1, hnone.2, List.nil_append, List.append_nil] at htext
    rwa [htext]
  · intro h
    exact ⟨[], text, [], by simp, rfl, by simp, h⟩

/-- A repetition that stands in a text needs no more rounds than the text has characters. -/
theorem kstar_iff {rounds : Nat} (hrounds : text.length ≤ rounds) :
    Spans text (KStar.kstar L) i j ↔ Spans text ((1 + L) ^ rounds) i j := by
  constructor
  · intro h
    have hle := h.le_length
    obtain ⟨before, word, after, htext, hi, hj, hword⟩ := h
    obtain ⟨words, rfl, hwords⟩ := Language.mem_kstar_iff_exists_nonempty.1 hword
    have hcount : words.length ≤ rounds := by
      have hlong : words.length ≤ words.flatten.length := by
        rw [List.length_flatten, ← List.length_map (f := List.length)]
        apply List.length_le_sum_of_one_le
        intro n hn
        obtain ⟨word, hmem, rfl⟩ := List.mem_map.1 hn
        exact List.length_pos_iff.2 (hwords word hmem).2
      omega
    have hpow : words.flatten ∈ L ^ words.length :=
      Language.mem_pow.2 ⟨words, rfl, rfl, fun word hmem => (hwords word hmem).1⟩
    have hpower : L ^ words.length ≤ (1 + L) ^ rounds :=
      (pow_le_pow_left' le_add_self _).trans (pow_le_pow_right' le_self_add hcount)
    exact ⟨before, words.flatten, after, htext, hi, hj, hpower hpow⟩
  · intro h
    apply h.mono
    change (1 + L) ^ rounds ≤ KStar.kstar L
    calc (1 + L) ^ rounds ≤ KStar.kstar L ^ rounds :=
          pow_le_pow_left' (add_le one_le_kstar le_kstar) _
      _ ≤ KStar.kstar (KStar.kstar L) := pow_le_kstar
      _ = KStar.kstar L := kstar_idem L

/-- What a language preserves, its repetitions preserve. -/
theorem preserved_pow {P : Nat → Prop} (h : ∀ i j, P i → Spans text L i j → P j) (n : Nat)
    (hi : P i) (hij : Spans text (L ^ n) i j) : P j := by
  induction n generalizing i with
  | zero =>
    rw [pow_zero, one_iff] at hij
    rwa [← hij.1]
  | succ n ih =>
    rw [pow_succ', mul_iff] at hij
    obtain ⟨k, hik, hkj⟩ := hij
    exact ih (h i k hi hik) hkj

end Spans

/-- A step moves each mark over all the words of the language that start there, and to no other
boundary. -/
structure Moves (text : List Char) (L : Language Char) (step : Marks → Marks) : Prop where
  length_eq : ∀ {marks}, marks.length = text.length + 1 → (step marks).length = text.length + 1
  has_iff : ∀ {marks}, marks.length = text.length + 1 →
    ∀ j, (step marks).Has j ↔ ∃ i, marks.Has i ∧ Spans text L i j

namespace Moves

variable {text : List Char} {L M : Language Char} {step next : Marks → Marks}

theorem one (text : List Char) : Moves text 1 id where
  length_eq h := h
  has_iff {marks} h j := by
    simp only [Spans.one_iff]
    constructor
    · intro hj
      exact ⟨j, hj, rfl, by have := hj.lt_length; simp only [id_eq] at this; omega⟩
    · rintro ⟨i, hi, rfl, -⟩
      exact hi

theorem chars (text : List Char) (set : CharSet) :
    Moves text {word | ∃ c, set.contains c ∧ word = [c]} (Marks.advance set text) where
  length_eq h := by
    simp only [Marks.advance, List.length_cons, Marks.length_before]
    omega
  has_iff {marks} h j := by
    constructor
    · intro hj
      cases j with
      | zero => simp [Marks.advance] at hj
      | succ i =>
        simp only [Marks.advance, Marks.has_cons_succ, Marks.has_before] at hj
        obtain ⟨hi, c, hc, hset⟩ := hj
        obtain ⟨hlt, rfl⟩ := List.getElem?_eq_some_iff.1 hc
        refine ⟨i, hi, text.take i, [text[i]], text.drop (i + 1), ?_, ?_, rfl, _, hset, rfl⟩
        · simp
        · simp only [List.length_take]
          omega
    · rintro ⟨i, hi, before, word, after, rfl, rfl, rfl, c, hset, rfl⟩
      have hc : (before ++ [c] ++ after)[before.length]? = some c := by simp
      simp only [Marks.advance, List.length_singleton, Marks.has_cons_succ, Marks.has_before]
      exact ⟨hi, c, hc, hset⟩

theorem comp (hstep : Moves text L step) (hnext : Moves text M next) :
    Moves text (L * M) fun marks => next (step marks) where
  length_eq h := hnext.length_eq (hstep.length_eq h)
  has_iff {marks} h j := by
    rw [hnext.has_iff (hstep.length_eq h)]
    simp only [hstep.has_iff h, Spans.mul_iff]
    constructor
    · rintro ⟨k, ⟨i, hi, hik⟩, hkj⟩
      exact ⟨i, hi, k, hik, hkj⟩
    · rintro ⟨i, hi, k, hik, hkj⟩
      exact ⟨k, ⟨i, hi, hik⟩, hkj⟩

theorem union (hstep : Moves text L step) (hnext : Moves text M next) :
    Moves text (L + M) fun marks => (step marks).union (next marks) where
  length_eq h := by
    rw [Marks.length_union, hstep.length_eq h, hnext.length_eq h, Nat.max_self]
  has_iff {marks} h j := by
    rw [Marks.has_union, hstep.has_iff h, hnext.has_iff h]
    simp only [Spans.add_iff, and_or_left, exists_or]

theorem iterate (hstep : Moves text L step) (n : Nat) :
    Moves text (L ^ n) (Marks.iterate step n) := by
  induction n with
  | zero => exact one text
  | succ n ih =>
    have hboth := comp hstep ih
    constructor
    · intro marks h
      by_cases hany : marks.isAny
      · simpa [Marks.iterate, hany] using hboth.length_eq h
      · simpa [Marks.iterate, hany] using h
    · intro marks h j
      by_cases hany : marks.isAny
      · simpa [Marks.iterate, hany, pow_succ'] using hboth.has_iff h j
      · have hnone : ∀ i, ¬marks.Has i := by
          simpa [Marks.isAny_iff] using hany
        simp [Marks.iterate, hany, hnone]

end Moves

/-- The state of a spread: the latest marks are among those seen, and a step from the others
reaches only what has been seen. -/
structure Frontier (text : List Char) (L : Language Char) (seen latest : Marks) : Prop where
  length_seen : seen.length = text.length + 1
  length_latest : latest.length = text.length + 1
  subset : ∀ i, latest.Has i → seen.Has i
  closed : ∀ i j, seen.Has i → ¬latest.Has i → Spans text L i j → seen.Has j

namespace Frontier

variable {text : List Char} {L : Language Char} {step : Marks → Marks} {seen latest : Marks}

theorem start {marks : Marks} (h : marks.length = text.length + 1) :
    Frontier text L marks marks where
  length_seen := h
  length_latest := h
  subset _ hi := hi
  closed _ _ hi hni _ := absurd hi hni

theorem le_length (f : Frontier text L seen latest) {i : Nat} (hi : seen.Has i) :
    i ≤ text.length := by
  have hlt := hi.lt_length
  rw [f.length_seen] at hlt
  omega

/-- One round sees what the latest marks reach, and by then all that any seen mark reaches. -/
theorem has_round (f : Frontier text L seen latest) (hstep : Moves text L step) (j : Nat) :
    (seen.union ((step latest).minus seen)).Has j ↔
      ∃ i, seen.Has i ∧ Spans text (1 + L) i j := by
  rw [Marks.has_union, Marks.has_minus, hstep.has_iff f.length_latest]
  simp only [Spans.add_iff, Spans.one_iff]
  constructor
  · rintro (hj | ⟨⟨i, hi, hij⟩, -⟩)
    · exact ⟨j, hj, .inl ⟨rfl, f.le_length hj⟩⟩
    · exact ⟨i, f.subset i hi, .inr hij⟩
  · rintro ⟨i, hi, ⟨rfl, -⟩ | hij⟩
    · exact .inl hi
    · by_cases hj : seen.Has j
      · exact .inl hj
      · by_cases hlatest : latest.Has i
        · exact .inr ⟨⟨i, hlatest, hij⟩, hj⟩
        · exact absurd (f.closed i j hi hlatest hij) hj

theorem next (f : Frontier text L seen latest) (hstep : Moves text L step) :
    Frontier text L (seen.union ((step latest).minus seen)) ((step latest).minus seen) where
  length_seen := by
    rw [Marks.length_union, Marks.length_minus, hstep.length_eq f.length_latest, f.length_seen,
      Nat.max_self]
  length_latest := by
    rw [Marks.length_minus, hstep.length_eq f.length_latest]
  subset i hi := (Marks.has_union _ _ _).2 (.inr hi)
  closed i j hi hni hij := by
    have hseen : seen.Has i := ((Marks.has_union _ _ _).1 hi).resolve_right hni
    exact (f.has_round hstep j).2 ⟨i, hseen, hij.mono fun word hword => .inr hword⟩

/-- Once a round adds nothing, no number of rounds does. -/
theorem has_of_stop (f : Frontier text L seen latest) (hstep : Moves text L step)
    (hstop : ((step latest).minus seen).isAny = false) {n i j : Nat} (hi : seen.Has i)
    (hij : Spans text ((1 + L) ^ n) i j) : seen.Has j := by
  apply Spans.preserved_pow _ n hi hij
  intro i j hi hij
  have hj := (f.has_round hstep j).2 ⟨i, hi, hij⟩
  have hold : ¬((step latest).minus seen).Has j := by
    intro hnew
    have hany := (Marks.isAny_iff _).2 ⟨j, hnew⟩
    rw [hstop] at hany
    exact absurd hany Bool.false_ne_true
  exact ((Marks.has_union _ _ _).1 hj).resolve_right hold

theorem has_spread (f : Frontier text L seen latest) (hstep : Moves text L step) (rounds j : Nat) :
    (Marks.spread step rounds seen latest).Has j ↔
      ∃ i, seen.Has i ∧ Spans text ((1 + L) ^ rounds) i j := by
  induction rounds generalizing seen latest with
  | zero => exact (Moves.one text).has_iff f.length_seen j
  | succ rounds ih =>
    simp only [Marks.spread]
    split
    · rw [ih (f.next hstep)]
      simp only [f.has_round hstep, pow_succ', Spans.mul_iff]
      constructor
      · rintro ⟨k, ⟨i, hi, hik⟩, hkj⟩
        exact ⟨i, hi, k, hik, hkj⟩
      · rintro ⟨i, hi, k, hik, hkj⟩
        exact ⟨k, ⟨i, hi, hik⟩, hkj⟩
    · rename_i hstop
      constructor
      · intro hj
        have hempty : Spans text 1 j j := Spans.one_iff.2 ⟨rfl, f.le_length hj⟩
        have hrounds : (1 : Language Char) ≤ (1 + L) ^ (rounds + 1) :=
          one_le_pow_of_one_le' le_self_add _
        exact ⟨j, hj, hempty.mono hrounds⟩
      · rintro ⟨i, hi, hij⟩
        exact f.has_of_stop hstep (Bool.eq_false_iff.2 hstop) hi hij

theorem length_spread (f : Frontier text L seen latest) (hstep : Moves text L step)
    (rounds : Nat) : (Marks.spread step rounds seen latest).length = text.length + 1 := by
  induction rounds generalizing seen latest with
  | zero => exact f.length_seen
  | succ rounds ih =>
    simp only [Marks.spread]
    split
    · exact ih (f.next hstep)
    · exact f.length_seen

end Frontier

theorem Moves.spread {text : List Char} {L : Language Char} {step : Marks → Marks}
    (hstep : Moves text L step) (rounds : Nat) :
    Moves text ((1 + L) ^ rounds) fun marks => Marks.spread step rounds marks marks where
  length_eq h := (Frontier.start h).length_spread hstep rounds
  has_iff h j := (Frontier.start h).has_spread hstep rounds j

namespace Expr

/-- The expression has no anchors. -/
def Anchorless : Expr → Prop
  | .empty => True
  | .chars _ => True
  | .anchor _ => False
  | .seq first second => first.Anchorless ∧ second.Anchorless
  | .alt left right => left.Anchorless ∧ right.Anchorless
  | .loop body _ _ => body.Anchorless

/-- The words that an expression without anchors matches. -/
def language : Expr → Language Char
  | .empty => 1
  | .chars set => {word | ∃ c, set.contains c ∧ word = [c]}
  | .anchor _ => 0
  | .seq first second => first.language * second.language
  | .alt left right => left.language + right.language
  | .loop body least none => body.language ^ least * KStar.kstar body.language
  | .loop body least (some most) =>
    body.language ^ least * (1 + body.language) ^ (most - least)

/-- The matcher reaches the ends of the words of the language, one case for each kind of
expression. -/
theorem moves (e : Expr) (h : e.Anchorless) (text : List Char) :
    Moves text e.language (e.ends text) := by
  induction e with
  | empty => exact Moves.one text
  | chars set => exact Moves.chars text set
  | anchor condition => exact absurd h id
  | seq first second ih₁ ih₂ => exact (ih₁ h.1).comp (ih₂ h.2)
  | alt left right ih₁ ih₂ => exact (ih₁ h.1).union (ih₂ h.2)
  | loop body least most ih =>
    have hleast := (ih h).iterate least
    cases most with
    | some most => exact hleast.comp ((ih h).spread (most - least))
    | none =>
      have hrounds := (ih h).spread (text.length + 1)
      have hstar : Moves text (KStar.kstar body.language) fun marks =>
          Marks.spread (body.ends text) (text.length + 1) marks marks := by
        refine ⟨hrounds.length_eq, ?_⟩
        intro marks hmarks j
        simp only [Spans.kstar_iff (Nat.le_succ text.length)]
        exact hrounds.has_iff hmarks j
      exact hleast.comp hstar

/-- The whole text matches if and only if it is a word of the language. -/
theorem matchesAll_iff {e : Expr} (h : e.Anchorless) (text : List Char) :
    e.matchesAll text = true ↔ text ∈ e.language := by
  have hlength : (true :: List.replicate text.length false).length = text.length + 1 := by simp
  have hstart (i : Nat) : Marks.Has (true :: List.replicate text.length false) i ↔ i = 0 := by
    cases i with
    | zero => simp
    | succ i => simp [Marks.Has, List.getElem?_replicate]
  have hends := e.moves h text
  have hlast : e.matchesAll text = true ↔
      (e.ends text (true :: List.replicate text.length false)).Has text.length := by
    rw [matchesAll, decide_eq_true_iff, List.getLast?_eq_getElem?, hends.length_eq hlength,
      Nat.add_sub_cancel, Marks.Has]
  rw [hlast, hends.has_iff hlength]
  simp only [hstart, exists_eq_left, Spans.whole_iff]

theorem mem_language_chars {set : CharSet} {word : List Char} :
    word ∈ (chars set).language ↔ ∃ c, set.contains c ∧ word = [c] := Iff.rfl

theorem mem_language_optional {e : Expr} {word : List Char} :
    word ∈ e.optional.language ↔ word = [] ∨ word ∈ e.language := by
  rw [optional, language, pow_zero, one_mul, Nat.sub_zero, pow_one, Language.mem_add,
    Language.mem_one]

theorem language_many (e : Expr) : e.many.language = KStar.kstar e.language := by
  rw [many, language, pow_zero, one_mul]

/-- A loop over a set of characters matches the words over that set. -/
theorem mem_language_many_chars {set : CharSet} {word : List Char} :
    word ∈ (chars set).many.language ↔ ∀ c ∈ word, set.contains c := by
  rw [language_many]
  constructor
  · intro h
    obtain ⟨words, rfl, hwords⟩ := Language.mem_kstar.1 h
    intro c hc
    obtain ⟨word, hword, hc⟩ := List.mem_flatten.1 hc
    obtain ⟨d, hd, rfl⟩ := hwords word hword
    rwa [List.mem_singleton.1 hc]
  · intro h
    refine Language.mem_kstar.2 ⟨word.map fun c => [c], ?_, ?_⟩
    · rw [← List.flatMap_def, List.flatMap_singleton']
    intro single hsingle
    obtain ⟨c, hc, rfl⟩ := List.mem_map.1 hsingle
    exact ⟨c, h c hc, rfl⟩

theorem mem_language_many1_chars {set : CharSet} {word : List Char} :
    word ∈ (chars set).many1.language ↔ word ≠ [] ∧ ∀ c ∈ word, set.contains c := by
  rw [many1, language, pow_one, ← language_many]
  constructor
  · intro h
    obtain ⟨first, ⟨c, hc, rfl⟩, rest, hrest, rfl⟩ := Language.mem_mul.1 h
    rw [mem_language_many_chars] at hrest
    simpa [hc] using hrest
  · rintro ⟨hne, h⟩
    obtain ⟨c, rest, rfl⟩ := List.exists_cons_of_ne_nil hne
    refine Language.mem_mul.2 ⟨[c], ⟨c, h c List.mem_cons_self, rfl⟩, rest, ?_, rfl⟩
    exact mem_language_many_chars.2 fun d hd => h d (List.mem_cons_of_mem c hd)

end Expr

end SchemaCast.Regex
