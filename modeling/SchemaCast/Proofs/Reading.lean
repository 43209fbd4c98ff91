import SchemaCast.Json.Reader

/-!
# What is read is no larger than the text

A value that is read takes at least as many characters as its size, which counts the characters of
its strings too. The lemmas follow the reader: what a part of it takes from a text and what it
leaves are together no longer than the text.
-/
namespace SchemaCast.Json

/-! ### Lengths of what is left -/

theorem length_skipSpace_le (text : List Char) : (skipSpace text).length ≤ text.length :=
  (List.dropWhile_suffix _).length_le

theorem length_fourHex? {text rest : List Char} {n : Nat} (h : fourHex? text = some (n, rest)) :
    text.length = rest.length + 4 := by
  unfold fourHex? at h
  split at h
  · simp only [Option.bind_eq_bind, Option.bind_eq_some_iff, Option.some.injEq, Prod.mk.injEq] at h
    obtain ⟨_, _, _, _, _, _, _, _, _, rfl⟩ := h
    simp
  · cases h

theorem length_unicodeEscape? {text rest : List Char} {c : Char}
    (h : unicodeEscape? text = some (c, rest)) : rest.length < text.length := by
  simp only [unicodeEscape?, Option.bind_eq_bind, Option.bind_eq_some_iff, Prod.exists] at h
  obtain ⟨high, after, first, h⟩ := h
  have := length_fourHex? first
  split at h
  · split at h
    · simp only [Option.bind_eq_some_iff, Prod.exists] at h
      obtain ⟨low, last, second, h⟩ := h
      have := length_fourHex? second
      split at h
      · obtain ⟨_, rfl⟩ := Prod.mk.inj (Option.some.inj h)
        simp only [List.length_cons] at *
        omega
      · cases h
    · cases h
  · split at h
    · cases h
    · obtain ⟨_, rfl⟩ := Prod.mk.inj (Option.some.inj h)
      omega

theorem length_stringBody? {fuel : Nat} {done text chars rest : List Char}
    (h : stringBody? fuel done text = some (chars, rest)) :
    chars.length + rest.length < done.length + text.length := by
  induction fuel generalizing done text with
  | zero => cases h
  | succ fuel ih =>
    unfold stringBody? at h
    split at h
    · cases h
    · cases h
      simp
    · split at h
      · next c after escape =>
        have := length_unicodeEscape? escape
        have := ih h
        simp only [List.length_cons] at *
        omega
      · cases h
    · split at h
      · have := ih h
        simp only [List.length_cons] at *
        omega
      · cases h
    · cases h
    · split at h
      · cases h
      · have := ih h
        simp only [List.length_cons] at *
        omega

theorem length_string? {text rest : List Char} {s : String} (h : string? text = some (s, rest)) :
    s.length + rest.length < text.length := by
  obtain ⟨⟨chars, after⟩, body, h⟩ := Option.map_eq_some_iff.mp h
  cases h
  simpa using length_stringBody? body

theorem length_spanDigits (text : List Char) :
    (spanDigits text).1.length + (spanDigits text).2.length = text.length := by
  rw [spanDigits, ← List.length_append, List.takeWhile_append_dropWhile]

theorem length_places? {text rest : List Char} {places : Option (List Char)}
    (h : places? text = some (places, rest)) : rest.length ≤ text.length := by
  unfold places? at h
  split at h
  · next after =>
    have := length_spanDigits after
    dsimp only at h
    split at h
    · cases h
    · cases h
      simp only [List.length_cons]
      omega
  · cases h
    exact Nat.le_refl _

theorem length_exponent? {text rest : List Char} {exponent : Option Int}
    (h : exponent? text = some (exponent, rest)) : rest.length ≤ text.length := by
  unfold exponent? at h
  split at h
  · next c after =>
    split at h
    · have sign : (Number.splitSign after).2.length ≤ after.length := by
        unfold Number.splitSign
        split <;> simp
      have := length_spanDigits (Number.splitSign after).2
      dsimp only at h
      split at h
      · cases h
      · obtain ⟨_, rfl⟩ := Prod.mk.inj (Option.some.inj h)
        simp only [List.length_cons]
        omega
    · cases h
      exact Nat.le_refl _
  · cases h
    exact Nat.le_refl _

theorem length_afterWord? {word text rest : List Char} (h : afterWord? word text = some rest) :
    rest.length ≤ text.length := by
  induction word generalizing text with
  | nil =>
    cases h
    exact Nat.le_refl _
  | cons c word ih =>
    cases text with
    | nil => cases h
    | cons d text =>
      rw [afterWord?] at h
      split at h
      · have := ih h
        simp only [List.length_cons]
        omega
      · cases h

/-! ### Sizes of what is read -/

theorem size_wholeNumber {negative : Bool} {digits : List Char} {value : Json}
    (h : wholeNumber negative digits = some value) : value.size = 1 := by
  unfold wholeNumber at h
  dsimp only at h
  split at h
  · split at h
    · cases h
      rfl
    · obtain ⟨x, _, rfl⟩ := Option.map_eq_some_iff.mp h
      rfl
  · split at h
    · cases h
      rfl
    · obtain ⟨x, _, rfl⟩ := Option.map_eq_some_iff.mp h
      rfl

theorem size_word {word text rest : List Char} {constant value : Json} (one : constant.size = 1)
    (h : (afterWord? word text).map (constant, ·) = some (value, rest)) :
    value.size + rest.length ≤ text.length + 1 := by
  obtain ⟨left, read, same⟩ := Option.map_eq_some_iff.mp h
  cases same
  have := length_afterWord? read
  omega

theorem size_number {text rest : List Char} {value : Json} (h : number text = some (value, rest)) :
    value.size + rest.length ≤ text.length := by
  unfold number at h
  split at h
  next negative body sign =>
    have shorter : body.length ≤ text.length := by
      split at sign <;> cases sign <;> simp
    have digits := length_spanDigits body
    dsimp only at h
    split at h
    · cases h
    · next refused =>
      simp only [Option.bind_eq_bind, Option.bind_eq_some_iff, Prod.exists] at h
      obtain ⟨places, afterPlaces, hplaces, exponent, afterExponent, hexponent, h⟩ := h
      have := length_places? hplaces
      have := length_exponent? hexponent
      have some_digit : 0 < (spanDigits body).1.length := by
        rw [List.length_pos_iff]
        intro none
        simp [none] at refused
      split at h
      · obtain ⟨number, whole, same⟩ := Option.map_eq_some_iff.mp h
        cases same
        have := size_wholeNumber whole
        omega
      · obtain ⟨x, _, same⟩ := Option.map_eq_some_iff.mp h
        cases same
        simp only [size]
        omega

theorem sizeItems_reverse (items : List Json) : sizeItems items.reverse = sizeItems items := by
  have append (items more : List Json) :
      sizeItems (items ++ more) = sizeItems items + sizeItems more := by
    induction items with
    | nil => simp [sizeItems]
    | cons item rest ih => simp [sizeItems, ih, Nat.add_assoc]
  induction items with
  | nil => rfl
  | cons item rest ih =>
    rw [List.reverse_cons, append, ih]
    simp [sizeItems, Nat.add_comm]

theorem sizeFields_insert_le (fields : Entries Json) (key : String) (value : Json) :
    sizeFields (fields.insert key value) ≤ sizeFields fields + value.size := by
  induction fields with
  | nil => simp [Entries.insert, sizeFields]
  | cons entry rest ih =>
    obtain ⟨name, old⟩ := entry
    unfold Entries.insert
    split
    · simp only [sizeFields]
      omega
    · simp only [sizeFields]
      omega

/-- Within a bound on the recursion, values are no larger than what they take from a text. -/
def ValuesFit (fuel : Nat) : Prop :=
  ∀ depth text value rest, value? fuel depth text = some (value, rest) →
    value.size + rest.length ≤ text.length

/-- Within a bound on the recursion, items are no larger than what they take from a text. -/
def ItemsFit (fuel : Nat) : Prop :=
  ∀ depth done text items rest, items? fuel depth done text = some (items, rest) →
    sizeItems items + rest.length < sizeItems done + text.length

/-- Within a bound on the recursion, fields are no larger than what they take from a text. -/
def FieldsFit (fuel : Nat) : Prop :=
  ∀ depth done text fields rest, members? fuel depth done text = some (fields, rest) →
    sizeFields fields + rest.length < sizeFields done + text.length

section Readers

variable {fuel : Nat} (ihValue : ValuesFit fuel)

include ihValue in
theorem itemsFit_succ (ihItems : ItemsFit fuel) : ItemsFit (fuel + 1) := by
  intro depth done text items rest h
  rw [items?] at h
  split at h
  · cases h
  · next item after read =>
    have := ihValue _ _ _ _ read
    have skipped := length_skipSpace_le after
    split at h
    · next more separated =>
      have := ihItems _ _ _ _ _ h
      rw [separated] at skipped
      simp only [sizeItems, List.length_cons] at *
      omega
    · next last closed =>
      cases h
      rw [closed] at skipped
      simp only [sizeItems_reverse, sizeItems, List.length_cons] at *
      omega
    · cases h

include ihValue in
theorem fieldsFit_succ (ihFields : FieldsFit fuel) : FieldsFit (fuel + 1) := by
  intro depth done text fields rest h
  have skipped := length_skipSpace_le text
  rw [members?] at h
  split at h
  · next opened start =>
    rw [start] at skipped
    split at h
    · cases h
    · next key afterKey readKey =>
      have := length_string? readKey
      have skippedKey := length_skipSpace_le afterKey
      split at h
      · next afterColon colon =>
        rw [colon] at skippedKey
        split at h
        · cases h
        · next value afterValue readValue =>
          have := ihValue _ _ _ _ readValue
          have skippedValue := length_skipSpace_le afterValue
          have written := sizeFields_insert_le done key value
          split at h
          · next more separated =>
            have := ihFields _ _ _ _ _ h
            rw [separated] at skippedValue
            simp only [List.length_cons] at *
            omega
          · next last closed =>
            cases h
            rw [closed] at skippedValue
            simp only [List.length_cons] at *
            omega
          · cases h
      · cases h
  · cases h

theorem valuesFit_succ (ihItems : ItemsFit fuel) (ihFields : FieldsFit fuel) :
    ValuesFit (fuel + 1) := by
  intro depth text value rest h
  have skipped := length_skipSpace_le text
  have taken {c : Char} {after : List Char} (start : skipSpace text = c :: after)
      (read : value.size + rest.length ≤ after.length + 1) :
      value.size + rest.length ≤ text.length := by
    rw [start, List.length_cons] at skipped
    omega
  rw [value?] at h
  split at h
  · next after start => exact taken start (size_word rfl h)
  · next after start => exact taken start (size_word rfl h)
  · next after start => exact taken start (size_word rfl h)
  · next after start =>
    obtain ⟨⟨s, left⟩, read, same⟩ := Option.map_eq_some_iff.mp h
    cases same
    have := length_string? read
    refine taken start ?_
    simp only [size]
    omega
  · next after start =>
    have skippedAfter := length_skipSpace_le after
    refine taken start ?_
    split at h
    · cases h
    · split at h
      · next left closed =>
        cases h
        rw [closed] at skippedAfter
        simp only [size, sizeItems, List.length_cons] at *
        omega
      · obtain ⟨⟨items, left⟩, read, same⟩ := Option.map_eq_some_iff.mp h
        cases same
        have := ihItems _ _ _ _ _ read
        simp only [size, sizeItems] at *
        omega
  · next after start =>
    have skippedAfter := length_skipSpace_le after
    refine taken start ?_
    split at h
    · cases h
    · split at h
      · next left closed =>
        cases h
        rw [closed] at skippedAfter
        simp only [size, sizeFields, List.length_cons] at *
        omega
      · obtain ⟨⟨fields, left⟩, read, same⟩ := Option.map_eq_some_iff.mp h
        cases same
        have := ihFields _ _ _ _ _ read
        simp only [size, sizeFields] at *
        omega
  · next c after _ _ _ _ _ _ start =>
    rw [start] at skipped
    split at h
    · have := size_number h
      omega
    · cases h
  · cases h

end Readers

theorem readers_fit (fuel : Nat) : ValuesFit fuel ∧ ItemsFit fuel ∧ FieldsFit fuel := by
  induction fuel with
  | zero => exact ⟨fun _ _ _ _ h => (by cases h), fun _ _ _ _ _ h => (by cases h),
      fun _ _ _ _ _ h => (by cases h)⟩
  | succ fuel ih =>
    obtain ⟨ihValue, ihItems, ihFields⟩ := ih
    exact ⟨valuesFit_succ ihItems ihFields, itemsFit_succ ihValue ihItems,
      fieldsFit_succ ihValue ihFields⟩

/-- A value is no larger than the text from which it is read. -/
theorem size_le_of_parse? {text : String} {value : Json} (h : parse? text = some value) :
    value.size ≤ text.length := by
  unfold parse? at h
  dsimp only at h
  split at h
  · next found rest read =>
    split at h
    · cases h
      have := (readers_fit _).1 _ _ _ _ read
      rw [String.length_toList] at this
      omega
    · cases h
  · cases h

end SchemaCast.Json
