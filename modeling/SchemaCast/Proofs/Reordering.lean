import Mathlib.Data.List.Forall2
import Mathlib.Data.List.Perm.Basic
import Mathlib.Data.Option.Basic
import SchemaCast.Proofs.Entries
import SchemaCast.Schema.ValueKind

/-!
# Values up to the order of keys

`Json.Reordered` relates values that differ in the order of object keys only, at any depth. Two
entries of one key never pass each other, so that what a key stands for stays the same; in an object
whose keys are distinct the entries may take any order. The relation has a parameter that says
whether the order may differ at all: if it may not, related values are equal.
-/
namespace SchemaCast

variable {α β γ : Type} {free : Prop}

namespace Entries

/-- The same keys in the same order, with related values. -/
inductive Aligned (R : α → β → Prop) : Entries α → Entries β → Prop where
  | nil : Aligned R [] []
  | cons {key : String} {a : α} {b : β} {rest : Entries α} {rest' : Entries β} (head : R a b)
      (tail : Aligned R rest rest') : Aligned R ((key, a) :: rest) ((key, b) :: rest')

/-- The same entries in another order, where entries of one key keep theirs. -/
inductive Shuffled (free : Prop) : Entries α → Entries α → Prop where
  | nil : Shuffled free [] []
  | cons (entry : String × α) {rest rest' : Entries α} (tail : Shuffled free rest rest') :
      Shuffled free (entry :: rest) (entry :: rest')
  | swap (h : free) {first second : String × α} (distinct : first.1 ≠ second.1)
      (rest : Entries α) : Shuffled free (first :: second :: rest) (second :: first :: rest)
  | trans {before between after : Entries α} (left : Shuffled free before between)
      (right : Shuffled free between after) : Shuffled free before after

/-- The same keys in another order, with related values. -/
def Reordered (free : Prop) (R : α → β → Prop) (entries : Entries α) (entries' : Entries β) :
    Prop :=
  ∃ between, Shuffled free entries between ∧ Aligned R between entries'

theorem get?_append_of_ne (entries : Entries α) (value : α) {key other : String}
    (distinct : key ≠ other) : (entries ++ [(key, value)]).get? other = entries.get? other := by
  simp [get?_append, get?, distinct]

namespace Aligned

variable {R : α → β → Prop} {entries : Entries α} {entries' : Entries β}

theorem self {R : α → α → Prop} {entries : Entries α} (h : ∀ entry ∈ entries, R entry.2 entry.2) :
    Aligned R entries entries := by
  induction entries with
  | nil => exact .nil
  | cons entry rest ih =>
    exact .cons (h entry (by simp)) (ih fun other mem => h other (by simp [mem]))

theorem imp {R' : α → β → Prop} (himp : ∀ a b, R a b → R' a b) (h : Aligned R entries entries') :
    Aligned R' entries entries' := by
  induction h with
  | nil => exact .nil
  | cons head _ ih => exact .cons (himp _ _ head) ih

theorem flip {R' : β → α → Prop} (himp : ∀ a b, R a b → R' b a) (h : Aligned R entries entries') :
    Aligned R' entries' entries := by
  induction h with
  | nil => exact .nil
  | cons head _ ih => exact .cons (himp _ _ head) ih

theorem eq {entries entries' : Entries α} (h : Aligned Eq entries entries') :
    entries = entries' := by
  induction h with
  | nil => rfl
  | cons head _ ih => rw [head, ih]

theorem keys_eq (h : Aligned R entries entries') : entries.keys = entries'.keys := by
  induction h with
  | nil => rfl
  | cons _ _ ih => exact congrArg (_ :: ·) ih

theorem get? (h : Aligned R entries entries') (key : String) :
    Option.Rel R (entries.get? key) (entries'.get? key) := by
  induction h with
  | nil => exact .none
  | @cons name _ _ _ _ head _ ih =>
    by_cases same : name = key
    · simpa only [Entries.get?, same, if_true] using .some head
    · simpa only [Entries.get?, same, if_false] using ih

theorem contains_eq (h : Aligned R entries entries') (key : String) :
    entries.contains key = entries'.contains key := by
  have related := h.get? key
  unfold contains
  revert related
  cases entries.get? key <;> cases entries'.get? key <;> rintro ⟨⟩ <;> rfl

theorem exists_of_mem (h : Aligned R entries entries') {key : String} {a : α}
    (mem : (key, a) ∈ entries) : ∃ b, (key, b) ∈ entries' ∧ R a b := by
  induction h with
  | nil => cases mem
  | cons head _ ih =>
    rcases List.mem_cons.mp mem with same | mem
    · cases same
      exact ⟨_, List.mem_cons_self, head⟩
    · obtain ⟨b, hb, hab⟩ := ih mem
      exact ⟨b, List.mem_cons_of_mem _ hb, hab⟩

theorem filter (p : String → Bool) (h : Aligned R entries entries') :
    Aligned R (entries.filter fun entry => p entry.1) (entries'.filter fun entry => p entry.1) := by
  induction h with
  | nil => exact .nil
  | @cons key _ _ _ _ head _ ih =>
    cases keep : p key
    · simpa [keep] using ih
    · simpa [keep] using .cons head ih

theorem append {more : Entries α} {more' : Entries β} (h : Aligned R entries entries')
    (hmore : Aligned R more more') : Aligned R (entries ++ more) (entries' ++ more') := by
  induction h with
  | nil => exact hmore
  | cons head _ ih => exact .cons head ih

theorem insert (h : Aligned R entries entries') (key : String) {a : α} {b : β} (hab : R a b) :
    Aligned R (entries.insert key a) (entries'.insert key b) := by
  induction h with
  | nil => exact .cons hab .nil
  | @cons name _ _ _ _ head tail ih =>
    by_cases same : name = key
    · simpa only [Entries.insert, same, if_true] using .cons hab tail
    · simpa only [Entries.insert, same, if_false] using .cons head ih

end Aligned

namespace Shuffled

variable {entries entries' : Entries α}

theorem refl (entries : Entries α) : Shuffled free entries entries := by
  induction entries with
  | nil => exact .nil
  | cons entry rest ih => exact .cons entry ih

theorem symm (h : Shuffled free entries entries') : Shuffled free entries' entries := by
  induction h with
  | nil => exact .nil
  | cons entry _ ih => exact .cons entry ih
  | swap h distinct rest => exact .swap h distinct.symm rest
  | trans _ _ ihl ihr => exact ihr.trans ihl

theorem eq (fixed : ¬ free) (h : Shuffled free entries entries') : entries = entries' := by
  induction h with
  | nil => rfl
  | cons entry _ ih => rw [ih]
  | swap h => exact absurd h fixed
  | trans _ _ ihl ihr => exact ihl.trans ihr

theorem perm (h : Shuffled free entries entries') : entries.Perm entries' := by
  induction h with
  | nil => exact .nil
  | cons entry _ ih => exact ih.cons entry
  | swap _ _ rest => exact .swap _ _ rest
  | trans _ _ ihl ihr => exact ihl.trans ihr

/-- Entries with distinct keys may take any order. -/
theorem of_perm (may : free) (h : entries.Perm entries') (distinct : entries.keys.Nodup) :
    Shuffled free entries entries' := by
  induction h with
  | nil => exact .nil
  | cons entry _ ih => exact .cons entry (ih (List.nodup_cons.mp distinct).2)
  | swap first second rest =>
    refine .swap may (fun same => ?_) rest
    have := (List.nodup_cons.mp distinct).1
    exact this (by simp [same])
  | trans left _ ihl ihr => exact (ihl distinct).trans (ihr ((left.map Prod.fst).nodup distinct))

theorem get?_eq (h : Shuffled free entries entries') (key : String) :
    entries.get? key = entries'.get? key := by
  induction h with
  | nil => rfl
  | cons entry _ ih => simp only [Entries.get?, ih]
  | @swap _ first second distinct rest =>
    simp only [Entries.get?]
    by_cases hfirst : first.1 = key
    · have hsecond : second.1 ≠ key := fun h => distinct (hfirst.trans h.symm)
      simp [hfirst, hsecond]
    · simp [hfirst]
  | trans _ _ ihl ihr => exact ihl.trans ihr

theorem filter (p : String → Bool) (h : Shuffled free entries entries') :
    Shuffled free (entries.filter fun entry => p entry.1)
      (entries'.filter fun entry => p entry.1) := by
  induction h with
  | nil => exact .nil
  | cons entry _ ih =>
    cases keep : p entry.1
    · simpa [keep] using ih
    · simpa [keep] using .cons entry ih
  | @swap may first second distinct rest =>
    cases hfirst : p first.1 <;> cases hsecond : p second.1 <;> simp only [List.filter_cons, hfirst,
      hsecond, if_true]
    · exact .refl _
    · exact .refl _
    · exact .refl _
    · exact .swap may distinct _
  | trans _ _ ihl ihr => exact ihl.trans ihr

theorem append_right (h : Shuffled free entries entries') (more : Entries α) :
    Shuffled free (entries ++ more) (entries' ++ more) := by
  induction h with
  | nil => exact .refl more
  | cons entry _ ih => exact .cons entry ih
  | swap may distinct rest => exact .swap may distinct (rest ++ more)
  | trans _ _ ihl ihr => exact ihl.trans ihr

theorem append_left (entries : Entries α) {more more' : Entries α}
    (h : Shuffled free more more') : Shuffled free (entries ++ more) (entries ++ more') := by
  induction entries with
  | nil => exact h
  | cons entry rest ih => exact .cons entry ih

theorem insert (h : Shuffled free entries entries') (key : String) (value : α) :
    Shuffled free (entries.insert key value) (entries'.insert key value) := by
  induction h with
  | nil => exact .refl _
  | cons entry tail ih =>
    simp only [Entries.insert]
    split
    · exact .cons _ tail
    · exact .cons _ ih
  | @swap may first second distinct rest =>
    simp only [Entries.insert]
    by_cases hfirst : first.1 = key <;> by_cases hsecond : second.1 = key
    · exact absurd (hfirst.trans hsecond.symm) distinct
    all_goals simp only [hfirst, hsecond, if_true, if_false]
    · exact .swap may (by rw [← hfirst]; exact distinct) rest
    · exact .swap may (by rw [← hsecond]; exact distinct) rest
    · exact .swap may distinct _
  | trans _ _ ihl ihr => exact ihl.trans ihr

theorem contains_eq (h : Shuffled free entries entries') (key : String) :
    entries.contains key = entries'.contains key := by
  unfold contains
  rw [h.get?_eq]

theorem insertNew (h : Shuffled free entries entries') (key : String) (value : α) :
    Shuffled free (entries.insertNew key value) (entries'.insertNew key value) := by
  unfold Entries.insertNew
  rw [h.contains_eq]
  by_cases known : entries'.contains key
  · simpa only [known, if_true] using h
  · simpa [known] using h.append_right _

/-- New entries may be written in any order. -/
theorem insertNew_comm (may : free) (entries : Entries α) {key other : String}
    (distinct : key ≠ other) (value value' : α) :
    Shuffled free ((entries.insertNew key value).insertNew other value')
      ((entries.insertNew other value').insertNew key value) := by
  have unaffected {key other : String} (distinct : key ≠ other) (value : α) :
      (entries.insertNew key value).contains other = entries.contains other := by
    unfold Entries.insertNew contains
    split
    · rfl
    · rw [get?_append_of_ne _ _ distinct]
  have written (entries : Entries α) (key : String) (value : α) : entries.insertNew key value =
      if entries.contains key then entries else entries ++ [(key, value)] := rfl
  rw [written, unaffected distinct, written (entries.insertNew other value'),
    unaffected distinct.symm, written, written]
  by_cases known : entries.contains key <;> by_cases known' : entries.contains other
  · simpa [known, known'] using .refl _
  · simpa [known, known'] using .refl _
  · simpa [known, known'] using .refl _
  · simpa [known, known'] using append_left entries (.swap may distinct [])

/-- It is the same to reorder entries before or after their values change. -/
theorem aligned_comm {R : α → β → Prop} {between : Entries α} {after : Entries β}
    (h : Shuffled free entries between) (aligned : Aligned R between after) :
    ∃ aside, Aligned R entries aside ∧ Shuffled free aside after := by
  induction h generalizing after with
  | nil => exact ⟨after, aligned, .refl _⟩
  | cons entry _ ih =>
    cases aligned with
    | cons head tail =>
      obtain ⟨aside, htail, hshuffled⟩ := ih tail
      exact ⟨_, .cons head htail, .cons _ hshuffled⟩
  | swap may distinct rest =>
    rcases aligned with _ | ⟨hsecond, _ | ⟨hfirst, tail⟩⟩
    refine ⟨_, .cons hfirst (.cons hsecond tail), .swap may ?_ _⟩
    exact distinct
  | trans _ _ ihl ihr =>
    obtain ⟨between, hright, later⟩ := ihr aligned
    obtain ⟨aside, hleft, earlier⟩ := ihl hright
    exact ⟨aside, hleft, earlier.trans later⟩

end Shuffled

namespace Reordered

variable {R : α → β → Prop} {entries : Entries α} {entries' : Entries β}

theorem of_shuffled {between : Entries α} (order : Shuffled free entries between)
    (h : Reordered free R between entries') : Reordered free R entries entries' := by
  obtain ⟨aside, later, aligned⟩ := h
  exact ⟨aside, order.trans later, aligned⟩

theorem of_aligned (h : Aligned R entries entries') : Reordered free R entries entries' :=
  ⟨entries, .refl entries, h⟩

theorem keys_perm (h : Reordered free R entries entries') : entries.keys.Perm entries'.keys := by
  obtain ⟨between, shuffled, aligned⟩ := h
  rw [← aligned.keys_eq]
  exact shuffled.perm.map Prod.fst

theorem length_eq (h : Reordered free R entries entries') : entries.length = entries'.length := by
  simpa [keys] using h.keys_perm.length_eq

theorem isEmpty_eq (h : Reordered free R entries entries') :
    entries.isEmpty = entries'.isEmpty := by
  rw [Bool.eq_iff_iff, List.isEmpty_iff_length_eq_zero, List.isEmpty_iff_length_eq_zero,
    h.length_eq]

theorem get? (h : Reordered free R entries entries') (key : String) :
    Option.Rel R (entries.get? key) (entries'.get? key) := by
  obtain ⟨between, shuffled, aligned⟩ := h
  rw [shuffled.get?_eq]
  exact aligned.get? key

theorem contains_eq (h : Reordered free R entries entries') (key : String) :
    entries.contains key = entries'.contains key := by
  obtain ⟨between, shuffled, aligned⟩ := h
  rw [shuffled.contains_eq, aligned.contains_eq]

theorem filter (p : String → Bool) (h : Reordered free R entries entries') :
    Reordered free R (entries.filter fun entry => p entry.1)
      (entries'.filter fun entry => p entry.1) := by
  obtain ⟨between, shuffled, aligned⟩ := h
  exact ⟨_, shuffled.filter p, aligned.filter p⟩

theorem insert (h : Reordered free R entries entries') (key : String) {a : α} {b : β}
    (hab : R a b) : Reordered free R (entries.insert key a) (entries'.insert key b) := by
  obtain ⟨between, shuffled, aligned⟩ := h
  exact ⟨_, shuffled.insert key a, aligned.insert key hab⟩

theorem insertNew (h : Reordered free R entries entries') (key : String) {a : α} {b : β}
    (hab : R a b) : Reordered free R (entries.insertNew key a) (entries'.insertNew key b) := by
  unfold Entries.insertNew
  rw [h.contains_eq key]
  split
  · exact h
  · obtain ⟨between, shuffled, aligned⟩ := h
    exact ⟨_, shuffled.append_right _, aligned.append (.cons hab .nil)⟩

end Reordered

end Entries

namespace Json

/-- The same value up to the order of object keys. -/
inductive Reordered (free : Prop) : Json → Json → Prop where
  | refl (value : Json) : Reordered free value value
  | arr {items items' : List Json} (each : List.Forall₂ (Reordered free) items items') :
      Reordered free (.arr items) (.arr items')
  | obj {fields between fields' : Entries Json} (order : Entries.Shuffled free fields between)
      (each : Entries.Aligned (Reordered free) between fields') :
      Reordered free (.obj fields) (.obj fields')

/-- The fields of an object up to their order and the order of keys inside. -/
abbrev ReorderedFields (free : Prop) : Entries Json → Entries Json → Prop :=
  Entries.Reordered free (Reordered free)

theorem ReorderedFields.getD_get? {fields fields' : Entries Json}
    (h : ReorderedFields free fields fields') (key : String) :
    Reordered free ((fields.get? key).getD .null) ((fields'.get? key).getD .null) := by
  have related := h.get? key
  revert related
  cases fields.get? key <;> cases fields'.get? key <;> rintro ⟨⟩
  · exact .refl .null
  · assumption

namespace Reordered

/-- Induction over the parts of two values, where the parts of an object are first put in order. -/
@[elab_as_elim]
theorem parts_induction {motive : Json → Json → Prop} (refl : ∀ value, motive value value)
    (arr : ∀ items items', List.Forall₂ motive items items' → motive (.arr items) (.arr items'))
    (obj : ∀ fields between fields', Entries.Shuffled free fields between →
      Entries.Aligned motive between fields' → motive (.obj fields) (.obj fields'))
    {value value' : Json} (h : Reordered free value value') : motive value value' :=
  @Reordered.rec free (fun value value' _ => motive value value')
    (fun items items' _ => List.Forall₂ motive items items')
    (fun fields fields' _ => Entries.Aligned motive fields fields')
    refl (fun _ each => arr _ _ each) (fun order _ each => obj _ _ _ order each)
    .nil (fun _ _ head tail => .cons head tail) .nil (fun _ _ head tail => .cons head tail)
    value value' h

variable {value value' : Json}

theorem symm (h : Reordered free value value') : Reordered free value' value := by
  refine parts_induction (fun value => ?_) (fun items items' each => ?_)
    (fun fields between fields' order each => ?_) h
  · exact .refl value
  · exact .arr each.flip
  · obtain ⟨aside, haligned, hshuffled⟩ := order.aligned_comm each
    exact .obj hshuffled.symm (haligned.flip fun _ _ h => h)

theorem eq (fixed : ¬ free) (h : Reordered free value value') : value = value' := by
  refine parts_induction (fun value => ?_) (fun items items' each => ?_)
    (fun fields between fields' order each => ?_) h
  · rfl
  · rw [List.forall₂_eq_eq_eq] at each
    rw [each]
  · rw [order.eq fixed, each.eq]

theorem items_refl (items : List Json) : List.Forall₂ (Reordered free) items items :=
  List.forall₂_same.mpr fun item _ => .refl item

theorem fields_refl (fields : Entries Json) : ReorderedFields free fields fields :=
  .of_aligned (.self fun _ _ => .refl _)

theorem exists_of_arr {items : List Json} (h : Reordered free (.arr items) value) :
    ∃ items', value = .arr items' ∧ List.Forall₂ (Reordered free) items items' := by
  cases h with
  | refl => exact ⟨items, rfl, items_refl items⟩
  | arr each => exact ⟨_, rfl, each⟩

theorem exists_of_obj {fields : Entries Json} (h : Reordered free (.obj fields) value) :
    ∃ fields', value = .obj fields' ∧ ReorderedFields free fields fields' := by
  cases h with
  | refl => exact ⟨fields, rfl, fields_refl fields⟩
  | obj order each => exact ⟨_, rfl, _, order, each⟩

/-- What is done to texts alone is done to equal values. -/
theorem map_texts {f : Json → Json} (h : Reordered free value value')
    (other : ∀ value, (∀ s, value ≠ .str s) → f value = value) :
    Reordered free (f value) (f value') := by
  cases h with
  | refl => exact .refl _
  | arr each =>
    rw [other _ fun _ h => (by cases h), other _ fun _ h => (by cases h)]
    exact .arr each
  | obj order each =>
    rw [other _ fun _ h => (by cases h), other _ fun _ h => (by cases h)]
    exact .obj order each

theorem isNull_eq (h : Reordered free value value') : value.isNull = value'.isNull := by
  cases h <;> rfl

theorem number?_eq (h : Reordered free value value') : value.number? = value'.number? := by
  cases h <;> rfl

theorem covers_eq (h : Reordered free value value') (kind : ValueKind) :
    kind.covers value = kind.covers value' := by
  cases h <;> cases kind <;> rfl

theorem isBlank_eq (h : Reordered free value value') : value.isBlank = value'.isBlank := by
  cases h with
  | refl => rfl
  | arr each => cases each <;> rfl
  | obj order each => exact Entries.Reordered.isEmpty_eq ⟨_, order, each⟩

theorem isEmpty?_eq (h : Reordered free value value') : value.isEmpty? = value'.isEmpty? := by
  cases h with
  | refl => rfl
  | arr each => cases each <;> rfl
  | obj order each => exact congrArg some (Entries.Reordered.isEmpty_eq ⟨_, order, each⟩)

theorem size_eq (h : Reordered free value value') : value.size = value'.size := by
  refine parts_induction (fun _ => rfl) (fun items items' each => ?_)
    (fun fields between fields' order each => ?_) h
  · have : sizeItems items = sizeItems items' := by
      induction each with
      | nil => rfl
      | cons head _ ih => simp only [sizeItems, head, ih]
    simp only [size, this]
  · have ordered : sizeFields fields = sizeFields between := by
      clear each
      induction order with
      | nil => rfl
      | cons entry _ ih => simp only [sizeFields, ih]
      | swap _ _ rest => simp only [sizeFields]; omega
      | trans _ _ ihl ihr => exact ihl.trans ihr
    have aligned : sizeFields between = sizeFields fields' := by
      clear order ordered
      induction each with
      | nil => rfl
      | cons head _ ih => simp only [sizeFields, head, ih]
    simp only [size, ordered, aligned]

/-- Fields are found in an object or not, whatever the order of its keys. -/
theorem beqFields_right {fields fields' : Entries Json}
    (h : Entries.Reordered free (fun value value' => ∀ other : Json,
      other.beq value = other.beq value') fields fields') (others : Entries Json) :
    beqFields others fields = beqFields others fields' := by
  induction others with
  | nil => rfl
  | cons entry rest ih =>
    have related := h.get? entry.1
    simp only [beqFields, ih]
    congr 1
    revert related
    cases fields.get? entry.1 <;> cases fields'.get? entry.1 <;> rintro ⟨⟩
    · rfl
    · next same => exact same entry.2

theorem beqFields_left {fields fields' : Entries Json}
    (h : Entries.Reordered free (fun value value' => ∀ other : Json,
      value.beq other = value'.beq other) fields fields') (others : Entries Json) :
    beqFields fields others = beqFields fields' others := by
  obtain ⟨between, order, each⟩ := h
  have ordered : beqFields fields others = beqFields between others := by
    clear each
    induction order with
    | nil => rfl
    | cons entry _ ih => simp only [beqFields, ih]
    | swap _ _ rest => simp only [beqFields, Bool.and_left_comm]
    | trans _ _ ihl ihr => exact ihl.trans ihr
  rw [ordered]
  clear order ordered
  induction each with
  | nil => rfl
  | cons head _ ih => simp only [beqFields, head, ih]

theorem beq_right (h : Reordered free value value') : ∀ other : Json,
    other.beq value = other.beq value' := by
  refine parts_induction (fun _ _ => rfl) (fun items items' each other => ?_)
    (fun fields between fields' order each other => ?_) h
  · cases other with
    | arr others =>
      simp only [beq]
      induction each generalizing others with
      | nil => rfl
      | cons head _ ih =>
        cases others with
        | nil => rfl
        | cons other others => simp only [beqItems, head, ih]
    | _ => rfl
  · cases other with
    | obj others =>
      have related : Entries.Reordered free _ fields fields' := ⟨between, order, each⟩
      simp only [beq, beqFields_right related, related.length_eq]
    | _ => rfl

theorem beq_left (h : Reordered free value value') : ∀ other : Json,
    value.beq other = value'.beq other := by
  refine parts_induction (fun _ _ => rfl) (fun items items' each other => ?_)
    (fun fields between fields' order each other => ?_) h
  · cases other with
    | arr others =>
      simp only [beq]
      induction each generalizing others with
      | nil => rfl
      | cons head _ ih =>
        cases others with
        | nil => rfl
        | cons other others => simp only [beqItems, head, ih]
    | _ => rfl
  · cases other with
    | obj others =>
      have related : Entries.Reordered free _ fields fields' := ⟨between, order, each⟩
      simp only [beq, beqFields_left related, related.length_eq]
    | _ => rfl

end Reordered

end Json

end SchemaCast
