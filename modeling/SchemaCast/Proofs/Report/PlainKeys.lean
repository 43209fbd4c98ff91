import SchemaCast.Path
import SchemaCast.Proofs.Number.Decimal
import SchemaCast.Proofs.Registry.Paths

/-!
# Paths with plain keys

The text of a path is flat: slashes, keys as they are, and positions in brackets. So a key with a slash,
or one that looks like a position, is read as something else. `Path.ofText` divides a text at its slashes
and takes each piece that is written like a position for one. It finds a path again exactly if no key has
a slash or looks like a position, and the path is not a single empty key, whose text is that of the whole
value. Hence paths with plain keys are told apart by their texts.
-/
namespace SchemaCast

/-- A slash in front of every text divides them, behind an empty one. -/
theorem join_eq_intercalate (texts : List String) :
    String.join (texts.map ("/" ++ ·)) = "/".intercalate ("" :: texts) := by
  induction texts with
  | nil => rfl
  | cons text rest ih =>
    rw [List.map_cons, String.join_cons, ih]
    cases rest with
    | nil => simp
    | cons next rest => simp [String.append_assoc]

namespace Segment

/-- The position that a text in brackets is written for. -/
def position? (text : String) : Option Nat :=
  let position := Nat.ofDigitChars 10 (text.toList.filter Char.isDigit) 0
  if text = "[" ++ toString position ++ "]" then some position else none

theorem toList_brackets (n : Nat) :
    ("[" ++ toString n ++ "]").toList = '[' :: Number.digitsOf n ++ [']'] := by
  simp [Number.digitsOf]

theorem position?_eq_some_iff {text : String} {n : Nat} :
    position? text = some n ↔ text = "[" ++ toString n ++ "]" := by
  simp only [position?]
  constructor
  · intro found
    split at found
    · next written =>
      cases found
      exact written
    · cases found
  · rintro rfl
    have digits : ('[' :: Number.digitsOf n ++ [']']).filter Char.isDigit = Number.digitsOf n := by
      have all : (Number.digitsOf n).filter Char.isDigit = Number.digitsOf n :=
        List.filter_eq_self.mpr fun _ => Number.isDigit_of_mem_digitsOf
      simp [all]
    rw [toList_brackets, digits, Number.ofDigitChars_digitsOf, if_pos rfl]

theorem position?_eq_none_iff {text : String} :
    position? text = none ↔ ∀ position : Nat, text ≠ "[" ++ toString position ++ "]" := by
  simp only [Option.eq_none_iff_forall_ne_some, ne_eq, position?_eq_some_iff]

/-- Read a step: what is written like a position is one. -/
def ofText (text : String) : Segment :=
  match position? text with
  | some position => .index position
  | none => .key text

theorem text_index (position : Nat) : (index position).text = "[" ++ toString position ++ "]" := rfl

theorem ofText_text_index (position : Nat) : ofText (index position).text = .index position := by
  rw [ofText, position?_eq_some_iff.mpr (text_index position)]

theorem ofText_eq_key_iff {text name : String} :
    ofText text = .key name ↔
      text = name ∧ ∀ position : Nat, name ≠ "[" ++ toString position ++ "]" := by
  rw [← position?_eq_none_iff]
  unfold ofText
  cases found : position? text with
  | some position =>
    refine ⟨fun same => (by cases same), ?_⟩
    rintro ⟨rfl, none⟩
    rw [found] at none
    cases none
  | none =>
    refine ⟨fun same => ?_, fun same => by rw [same.1]⟩
    cases same
    exact ⟨rfl, found⟩

theorem flat_index (position : Nat) : '/' ∉ (index position).text.toList := by
  rw [text_index, toList_brackets]
  intro mem
  have digit : '/' ∈ Number.digitsOf position := by simpa using mem
  exact absurd (Number.isDigit_of_mem_digitsOf digit) (by decide)

theorem text_eq_empty_iff {segment : Segment} : segment.text = "" ↔ segment = .key "" := by
  cases segment with
  | key name => simp [text]
  | index position => simp [text_index]

/-- A position, or a key that is not empty, has no slash and is not written like a position. A number
with leading zeros is no position. -/
def Plain : Segment → Prop
  | .key name =>
    name ≠ "" ∧ '/' ∉ name.toList ∧ ∀ position : Nat, name ≠ "[" ++ toString position ++ "]"
  | .index _ => True

instance : DecidablePred Plain
  | .key name => decidable_of_iff (name ≠ "" ∧ '/' ∉ name.toList ∧ position? name = none) <|
    and_congr_right' (and_congr_right' position?_eq_none_iff)
  | .index _ => .isTrue trivial

end Segment

namespace Path

/-- Read a path: a single slash is the whole value, and otherwise there is one in front of each step. -/
def ofText (text : String) : Path :=
  if text = "/" then .root else ⟨(pathSteps text).tail.map Segment.ofText⟩

theorem ofText_slash : ofText "/" = .root := if_pos rfl

/-- A path whose keys are plain. -/
def Plain (path : Path) : Prop := ∀ segment ∈ path.segments, segment.Plain
  deriving Decidable

theorem text_eq_intercalate {path : Path} (inside : path ≠ .root) :
    path.text = "/".intercalate ("" :: path.segments.map Segment.text) := by
  obtain ⟨segments⟩ := path
  cases segments with
  | nil => exact absurd rfl inside
  | cons segment rest =>
    rw [← join_eq_intercalate, List.map_map]
    rfl

/-- Where no key has a slash, the steps of a path are the pieces of its text. -/
theorem pathSteps_text {path : Path} (inside : path ≠ .root)
    (flat : ∀ name, .key name ∈ path.segments → '/' ∉ name.toList) :
    pathSteps path.text = "" :: path.segments.map Segment.text := by
  rw [text_eq_intercalate inside]
  refine pathSteps_intercalate (List.cons_ne_nil _ _) ?_
  rw [List.forall_mem_cons, List.forall_mem_map]
  refine ⟨by simp, fun segment mem => ?_⟩
  cases segment with
  | key name => exact flat name mem
  | index position => exact Segment.flat_index position

/-- Beside the whole value, only a single empty key has a slash for its text. -/
theorem text_eq_slash_iff {path : Path} :
    path.text = "/" ↔ path = .root ∨ path = ⟨[.key ""]⟩ := by
  constructor
  · intro slash
    by_cases root : path = .root
    · exact .inl root
    · right
      rw [text_eq_intercalate root, ← join_eq_intercalate] at slash
      obtain ⟨segments⟩ := path
      cases segments with
      | nil => exact absurd rfl root
      | cons segment rest =>
        have alone : segment.text = "" ∧
            String.join ((rest.map Segment.text).map ("/" ++ ·)) = "" := by
          simpa [String.append_assoc] using slash
        cases rest with
        | nil => rw [Segment.text_eq_empty_iff.mp alone.1]
        | cons next rest => simp [String.append_assoc] at alone
  · rintro (rfl | rfl) <;> rfl

/-- A path is found by its text exactly if it is not a single empty key, and none of its keys has a slash
or is written like a position. -/
theorem ofText_text_iff {path : Path} : ofText path.text = path ↔ path ≠ ⟨[.key ""]⟩ ∧
    ∀ name, .key name ∈ path.segments →
      '/' ∉ name.toList ∧ ∀ position : Nat, name ≠ "[" ++ toString position ++ "]" := by
  by_cases slash : path.text = "/"
  · rcases text_eq_slash_iff.mp slash with rfl | rfl
    · rw [slash, ofText_slash]
      simp [root]
    · rw [slash, ofText_slash]
      simp [root]
  · have other : path ≠ .root ∧ path ≠ ⟨[.key ""]⟩ := by
      simpa [text_eq_slash_iff] using slash
    rw [ofText, if_neg slash]
    constructor
    · intro same
      refine ⟨other.2, fun name mem => ?_⟩
      rw [← same] at mem
      obtain ⟨step, listed, read⟩ := List.mem_map.mp mem
      obtain ⟨rfl, unlike⟩ := Segment.ofText_eq_key_iff.mp read
      exact ⟨flat_of_mem_pathSteps (List.mem_of_mem_tail listed), unlike⟩
    · rintro ⟨_, plain⟩
      rw [pathSteps_text other.1 fun name mem => (plain name mem).1, List.tail_cons, List.map_map]
      have back : path.segments.map (Segment.ofText ∘ Segment.text) = path.segments := by
        refine (List.map_congr_left fun segment mem => ?_).trans (List.map_id _)
        cases segment with
        | key name => exact Segment.ofText_eq_key_iff.mpr ⟨rfl, (plain name mem).2⟩
        | index position => exact Segment.ofText_text_index position
      rw [back]

theorem Plain.ofText_text {path : Path} (plain : path.Plain) : ofText path.text = path := by
  refine ofText_text_iff.mpr ⟨?_, fun name mem => ?_⟩
  · rintro rfl
    exact (plain (.key "") List.mem_cons_self).1 rfl
  · exact (plain (.key name) mem).2

theorem plain_root : Path.Plain .root := fun _ mem => by cases mem

/-- Paths with plain keys are told apart by their texts, and of all of them the root alone is written as
a single slash. -/
theorem text_inj_of_plain {path place : Path} (plain : path.Plain) (plain' : place.Plain) :
    (path.text = place.text → path = place) ∧ (path ≠ .root → path.text ≠ "/") := by
  have found {path place : Path} (plain : path.Plain) (plain' : place.Plain)
      (same : path.text = place.text) : path = place := by
    rw [← plain.ofText_text, same, plain'.ofText_text]
  refine ⟨found plain plain', fun inside slash => inside ?_⟩
  exact found plain plain_root slash

/-- A position is not taken for a key with one zero more. -/
theorem text_inj_of_plain_zeros :
    let path : Path := ⟨[.key "users", .index 0]⟩
    let place : Path := ⟨[.key "users", .key "[00]"]⟩
    path.Plain ∧ place.Plain ∧ path.text ≠ place.text ∧ path.text ≠ "/" := by
  intro path place
  have plain : path.Plain := by decide
  have plain' : place.Plain := by decide
  obtain ⟨told, below⟩ := text_inj_of_plain plain plain'
  exact ⟨plain, plain', fun same => absurd (told same) (by decide), below (by decide)⟩

end Path

end SchemaCast
