import Mathlib.Data.List.Basic
import SchemaCast.Text.Lines

/-!
# Indented texts

A text is its lines with a newline between two of them, and splitting at newlines finds these lines
again. Reading lines drops carriage returns at their ends and a last line that is empty. A `Tidy`
text has neither, so it can be read back from an indented one: `indented_indentLines`.
-/
namespace SchemaCast.Text

variable {line rest cs : List Char} {lines : List (List Char)} {c : Char}

theorem splitNewlines_ne_nil (cs : List Char) : splitNewlines cs ≠ [] := by
  cases cs with
  | nil => exact List.cons_ne_nil _ _
  | cons c rest =>
    rw [splitNewlines]
    split
    · exact List.cons_ne_nil _ _
    · split <;> exact List.cons_ne_nil _ _

/-- A character that is no newline begins the first line. -/
theorem splitNewlines_cons (rest : List Char) (other : c ≠ '\n') : ∃ first others,
    splitNewlines rest = first :: others ∧ splitNewlines (c :: rest) = (c :: first) :: others := by
  rw [splitNewlines, if_neg other]
  cases found : splitNewlines rest with
  | nil => exact absurd found (splitNewlines_ne_nil rest)
  | cons first others => exact ⟨first, others, rfl, rfl⟩

theorem splitNewlines_of_not_mem (h : '\n' ∉ line) : splitNewlines line = [line] := by
  induction line with
  | nil => rfl
  | cons c rest ih =>
    simp only [List.mem_cons, not_or] at h
    obtain ⟨first, others, found, split⟩ := splitNewlines_cons rest (Ne.symm h.1)
    rw [ih h.2] at found
    cases found
    exact split

theorem splitNewlines_append_newline (h : '\n' ∉ line) :
    splitNewlines (line ++ '\n' :: rest) = line :: splitNewlines rest := by
  induction line with
  | nil => simp [splitNewlines]
  | cons c before ih =>
    simp only [List.mem_cons, not_or] at h
    obtain ⟨first, others, found, split⟩ :=
      splitNewlines_cons (before ++ '\n' :: rest) (Ne.symm h.1)
    rw [ih h.2] at found
    cases found
    exact split

/-- Lines are found again in the text that they make up. -/
theorem splitNewlines_intercalate (some : lines ≠ []) (h : ∀ line ∈ lines, '\n' ∉ line) :
    splitNewlines (['\n'].intercalate lines) = lines := by
  induction lines with
  | nil => exact absurd rfl some
  | cons line others ih =>
    have first : '\n' ∉ line := h line (by simp)
    cases others with
    | nil => simpa using splitNewlines_of_not_mem first
    | cons next others =>
      rw [List.intercalate_cons_cons, List.append_assoc]
      change splitNewlines (line ++ '\n' :: ['\n'].intercalate (next :: others)) = _
      rw [splitNewlines_append_newline first,
        ih (by simp) fun other mem => h other (List.mem_cons_of_mem _ mem)]

/-- The lines of a text have no newlines, and no characters but those of the text. -/
theorem mem_of_mem_splitNewlines (mem : line ∈ splitNewlines cs) (h : c ∈ line) :
    c ≠ '\n' ∧ c ∈ cs := by
  induction cs generalizing line with
  | nil =>
    simp only [splitNewlines, List.mem_singleton] at mem
    subst mem
    cases h
  | cons d rest ih =>
    by_cases newline : d = '\n'
    · rw [splitNewlines, if_pos newline] at mem
      rcases List.mem_cons.mp mem with rfl | mem
      · cases h
      · exact (ih mem h).imp_right (List.mem_cons_of_mem d)
    · obtain ⟨first, others, found, split⟩ := splitNewlines_cons rest newline
      rw [split] at mem
      rcases List.mem_cons.mp mem with rfl | mem
      · rcases List.mem_cons.mp h with rfl | h
        · exact ⟨newline, List.mem_cons_self⟩
        · exact (ih (by simp [found]) h).imp_right (List.mem_cons_of_mem d)
      · exact (ih (by simp [found, mem]) h).imp_right (List.mem_cons_of_mem d)

/-- A text that does not end with a newline ends its last line. -/
theorem splitNewlines_append_singleton (other : c ≠ '\n') (cs : List Char) :
    ∃ before last, splitNewlines (cs ++ [c]) = before ++ [last ++ [c]] := by
  induction cs with
  | nil => exact ⟨[], [], splitNewlines_of_not_mem (by simpa using Ne.symm other)⟩
  | cons d rest ih =>
    obtain ⟨before, last, whole⟩ := ih
    by_cases newline : d = '\n'
    · refine ⟨[] :: before, last, ?_⟩
      rw [List.cons_append, splitNewlines, if_pos newline, whole]
      rfl
    · obtain ⟨first, others, found, split⟩ := splitNewlines_cons (rest ++ [c]) newline
      rw [whole] at found
      cases before with
      | nil =>
        cases found
        exact ⟨[], d :: last, split⟩
      | cons line before =>
        cases found
        exact ⟨(d :: first) :: before, last, split⟩

/-- Lines that do not end with a carriage return are kept as they are, if the last one is not
empty. -/
theorem endLines_append_singleton {last : List Char} (some : last ≠ [])
    (h : ∀ line ∈ lines, '\r' ∉ line) : endLines (lines ++ [last]) = lines ++ [last] := by
  induction lines with
  | nil => simp [endLines, some]
  | cons line others ih =>
    have kept : dropReturn line = line := by
      unfold dropReturn
      rw [if_neg]
      intro ends
      exact h line (by simp) (List.mem_of_getLast? ends)
    cases rest : others ++ [last] with
    | nil => simp at rest
    | cons next rest' =>
      rw [List.cons_append, rest, endLines, kept, ← rest,
        ih fun other mem => h other (List.mem_cons_of_mem _ mem)]
      simp

/-! ### Tidy texts -/

/-- A text has no carriage return. -/
def NoReturn (s : String) : Prop := '\r' ∉ s.toList

/-- A text has no carriage return, and does not end with a newline. -/
structure Tidy (s : String) : Prop where
  noReturn : NoReturn s
  last : ∃ front c, s.toList = front ++ [c] ∧ c ≠ '\n'

/-- Every line of a block is the line of a text behind some spaces. -/
def Indented (indent : Nat) (text block : String) : Prop :=
  splitNewlines block.toList =
    (splitNewlines text.toList).map fun line => List.replicate indent ' ' ++ line

variable {s t : String} {texts : List String}

@[simp] theorem noReturn_append : NoReturn (s ++ t) ↔ NoReturn s ∧ NoReturn t := by
  simp [NoReturn]

theorem NoReturn.append (hs : NoReturn s) (ht : NoReturn t) : NoReturn (s ++ t) :=
  noReturn_append.mpr ⟨hs, ht⟩

theorem NoReturn.intercalate (hs : NoReturn s) (h : ∀ text ∈ texts, NoReturn text) :
    NoReturn (s.intercalate texts) := by
  induction texts with
  | nil => exact List.not_mem_nil
  | cons text others ih =>
    have first : NoReturn text := h text (by simp)
    have rest := ih fun other mem => h other (List.mem_cons_of_mem _ mem)
    cases others with
    | nil => simpa using first
    | cons next others =>
      rw [String.intercalate_cons_cons]
      exact (first.append hs).append rest

theorem NoReturn.join (h : ∀ text ∈ texts, NoReturn text) : NoReturn (String.join texts) := by
  unfold NoReturn
  rw [String.toList_join]
  intro mem
  obtain ⟨text, listed, within⟩ := List.mem_flatMap.mp mem
  exact h text listed within

/-- A text that ends with a stop is tidy if it has no carriage return. -/
theorem Tidy.of_stop (h : NoReturn s) (stop : s.toList.getLast? = some '.') : Tidy s := by
  obtain ⟨front, ends⟩ := List.getLast?_eq_some_iff.mp stop
  exact ⟨h, front, '.', ends, by decide⟩

/-- What comes before a tidy text has but to be free of carriage returns. -/
theorem Tidy.append (hs : NoReturn s) (ht : Tidy t) : Tidy (s ++ t) := by
  obtain ⟨front, c, ends, other⟩ := ht.last
  refine ⟨hs.append ht.noReturn, s.toList ++ front, c, ?_, other⟩
  rw [String.toList_append, ends, List.append_assoc]

/-- Lines make up a tidy text if the last one is tidy. -/
theorem Tidy.intercalate (hs : NoReturn s) (h : ∀ text ∈ texts, NoReturn text) (last : Tidy t) :
    Tidy (s.intercalate (texts ++ [t])) := by
  induction texts with
  | nil => simpa using last
  | cons text others ih =>
    have first : NoReturn text := h text (by simp)
    have rest := ih fun other mem => h other (List.mem_cons_of_mem _ mem)
    rw [List.cons_append, String.intercalate_cons_of_ne_nil (by simp)]
    exact Tidy.append (first.append hs) rest

/-- The last line of a tidy text is not empty. -/
theorem Tidy.split_eq (h : Tidy s) : ∃ before last c, c ≠ '\n' ∧
    splitNewlines s.toList = before ++ [last ++ [c]] := by
  obtain ⟨front, c, ends, other⟩ := h.last
  obtain ⟨before, last, split⟩ := splitNewlines_append_singleton other front
  rw [← ends] at split
  exact ⟨before, last, c, other, split⟩

theorem Tidy.noReturn_of_mem (h : Tidy s) (mem : line ∈ splitNewlines s.toList) : '\r' ∉ line :=
  fun within => h.noReturn (mem_of_mem_splitNewlines mem within).2

/-- Reading the lines of a tidy text drops nothing but the newlines. -/
theorem Tidy.lines_eq (h : Tidy s) :
    Text.lines s = (splitNewlines s.toList).map String.ofList := by
  obtain ⟨before, last, c, _, split⟩ := h.split_eq
  rw [Text.lines, split, endLines_append_singleton (by simp)]
  intro line mem
  exact h.noReturn_of_mem (by simp [split, mem])

/-- Behind spaces a tidy text is tidy. -/
theorem Tidy.indentLines (h : Tidy s) (indent : Nat) : Tidy (Text.indentLines indent s) := by
  obtain ⟨before, last, c, other, split⟩ := h.split_eq
  have newline : NoReturn "\n" := by simp [NoReturn]
  have padded (line : List Char) (mem : line ∈ splitNewlines s.toList) :
      NoReturn (String.ofList (List.replicate indent ' ') ++ String.ofList line) := by
    simpa [NoReturn] using h.noReturn_of_mem mem
  have ends : Tidy (String.ofList (List.replicate indent ' ') ++ String.ofList (last ++ [c])) :=
    ⟨padded _ (by simp [split]), List.replicate indent ' ' ++ last, c, by simp, other⟩
  rw [Text.indentLines, h.lines_eq, List.map_map, split, List.map_append]
  refine Tidy.intercalate newline (fun text mem => ?_) ends
  obtain ⟨line, listed, rfl⟩ := List.mem_map.mp mem
  exact padded line (by simp [split, listed])

/-- The lines of a tidy text are found again behind the spaces. -/
theorem indented_indentLines (h : Tidy s) (indent : Nat) :
    Indented indent s (Text.indentLines indent s) := by
  have pieces : (Text.indentLines indent s).toList = ['\n'].intercalate
      ((splitNewlines s.toList).map fun line => List.replicate indent ' ' ++ line) := by
    rw [Text.indentLines, h.lines_eq, String.toList_intercalate, List.map_map, List.map_map]
    congr 2
    funext line
    simp
  unfold Indented
  rw [pieces]
  refine splitNewlines_intercalate (by simpa using splitNewlines_ne_nil _) fun padded mem => ?_
  obtain ⟨line, listed, rfl⟩ := List.mem_map.mp mem
  intro within
  rcases List.mem_append.mp within with within | within
  · simp at within
  · exact (mem_of_mem_splitNewlines listed within).1 rfl

end SchemaCast.Text
