import SchemaCast.Casting
import SchemaCast.Proofs.Parts

/-!
# The height of values

A value is higher than its parts, and a text is as high as it is long, since it may spell an array.
A missing value has no height. What the rules of texts, numbers and truth values make of a value is
never higher than the value, whether or not they accept it.
-/
namespace SchemaCast

namespace Json

mutual

/-- How many parts can lie within one another. -/
def height : Json → Nat
  | .null => 0
  | .str s => s.length + 1
  | .arr items => heightItems items + 1
  | .obj fields => heightFields fields + 1
  | _ => 1

/-- The height of the highest item of an array. -/
def heightItems : List Json → Nat
  | [] => 0
  | item :: rest => max item.height (heightItems rest)

/-- The height of the highest value of an object. -/
def heightFields : List (String × Json) → Nat
  | [] => 0
  | (_, value) :: rest => max value.height (heightFields rest)

end

/-- Only a missing value has no height. -/
theorem height_pos {value : Json} (given : ¬ value.isNull) : 0 < value.height := by
  cases value with
  | null => exact absurd rfl given
  | _ => simp [height]

theorem height_le_heightItems {items : List Json} {item : Json} (mem : item ∈ items) :
    item.height ≤ heightItems items := by
  induction items with
  | nil => cases mem
  | cons first rest ih =>
    rw [heightItems]
    rcases List.mem_cons.mp mem with rfl | mem
    · exact Nat.le_max_left ..
    · exact Nat.le_trans (ih mem) (Nat.le_max_right ..)

theorem height_le_heightFields {fields : Entries Json} {field : String × Json}
    (mem : field ∈ fields) : field.2.height ≤ heightFields fields := by
  induction fields with
  | nil => cases mem
  | cons first rest ih =>
    rw [heightFields]
    rcases List.mem_cons.mp mem with rfl | mem
    · exact Nat.le_max_left ..
    · exact Nat.le_trans (ih mem) (Nat.le_max_right ..)

theorem heightItems_le {items : List Json} {bound : Nat}
    (h : ∀ item ∈ items, item.height ≤ bound) : heightItems items ≤ bound := by
  induction items with
  | nil => exact Nat.zero_le bound
  | cons first rest ih =>
    exact Nat.max_le.mpr ⟨h first (by simp), ih fun item mem => h item (by simp [mem])⟩

mutual

theorem height_le_size : (value : Json) → value.height ≤ value.size
  | .null | .bool _ | .int _ | .float _ | .str _ => by simp [height, size]
  | .arr items => Nat.succ_le_succ (heightItems_le_sizeItems items)
  | .obj fields => Nat.succ_le_succ (heightFields_le_sizeFields fields)

theorem heightItems_le_sizeItems : (items : List Json) → heightItems items ≤ sizeItems items
  | [] => Nat.le_refl 0
  | item :: rest => by
    have := height_le_size item
    have := heightItems_le_sizeItems rest
    simp only [heightItems, sizeItems]
    omega

theorem heightFields_le_sizeFields :
    (fields : List (String × Json)) → heightFields fields ≤ sizeFields fields
  | [] => Nat.le_refl 0
  | (_, value) :: rest => by
    have := height_le_size value
    have := heightFields_le_sizeFields rest
    simp only [heightFields, sizeFields]
    omega

end

/-- A part is not as high as the whole. -/
theorem Below.height_lt {value whole : Json} (below : value.Below whole) (given : ¬ whole.isNull) :
    value.height < whole.height := by
  cases below with
  | missing => exact height_pos given
  | item mem => exact Nat.lt_succ_of_le (height_le_heightItems mem)
  | field mem => exact Nat.lt_succ_of_le (height_le_heightFields mem)
  | @read s items item reads mem =>
    have whole : (arr items).height ≤ s.length :=
      Nat.le_trans (height_le_size _) (size_le_of_parse? reads)
    have part := height_le_heightItems mem
    simp only [height] at whole ⊢
    omega

end Json

/-! ### Scalar values -/

/-- A text that spells a value is no lower than the value. -/
theorem Format.height_cast_le (format : Format) (s : String) :
    (format.cast s).height ≤ (Json.str s).height := by
  have scalar : 1 ≤ (Json.str s).height := Json.height_pos (by simp [Json.isNull])
  unfold cast
  split
  · cases Number.int64? s.toList with
    | none => exact Nat.le_refl _
    | some n => exact scalar
  · cases read : number? s.toList with
    | none => exact Nat.le_refl _
    | some number =>
      have one : number.height = 1 := by
        unfold number? at read
        split at read
        · cases read
          rfl
        · split at read
          · split at read
            · cases read
              rfl
            · cases read
          · cases read
      rw [Option.getD_some, one]
      exact scalar
  · exact scalar
  · split
    · next numbers read =>
      have some_char : s.toList ≠ [] := by
        intro none
        rw [none] at read
        cases read
      have long : 0 < s.length := by
        rw [← String.length_toList]
        exact List.length_pos_iff.mpr some_char
      have flat : Json.heightItems (numbers.map .int) ≤ 1 := by
        refine Json.heightItems_le fun item mem => ?_
        obtain ⟨n, _, rfl⟩ := List.mem_map.mp mem
        exact Nat.le_refl 1
      simp only [Json.height]
      omega
    · exact Nat.le_refl _
  · exact Nat.le_refl _

theorem StringRules.height_cast_le (rules : StringRules) (value : Json) :
    (rules.cast value).height ≤ value.height := by
  unfold cast
  split
  · next format s _ =>
    split
    · exact format.height_cast_le s
    · exact Nat.le_refl _
  · exact Nat.le_refl _

theorem NumericRules.height_cast_le (rules : NumericRules) (integer : Bool) (value : Json) :
    (rules.cast integer value).height ≤ value.height := by
  unfold cast
  split
  · next s =>
    dsimp only
    split
    · exact (textFormat integer).height_cast_le s
    · exact Nat.le_refl _
  · exact Nat.le_refl _

theorem Truth.height_cast_le (castText : Bool) (value : Json) :
    (Truth.cast castText value).height ≤ value.height := by
  unfold cast
  split
  · split
    · exact Json.height_pos (by simp [Json.isNull])
    · exact Nat.le_refl _
  · exact Nat.le_refl _

end SchemaCast
