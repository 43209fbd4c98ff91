/-!
# Entries in insertion order

A finite map from names that remembers the order in which names were first given. Writing a
name that is already there replaces its value where it stands; a new name goes to the end. The
view of the map is the function `get?` together with the list `keys`.
-/
namespace SchemaCast

/-- Named values, in the order in which the names were first given. -/
abbrev Entries (α : Type) := List (String × α)

namespace Entries

variable {α : Type}

/-- The value of `key`, if there is one. -/
def get? : Entries α → String → Option α
  | [], _ => none
  | (name, value) :: rest, key => if name = key then some value else get? rest key

/-- Whether `key` has a value. -/
def contains (entries : Entries α) (key : String) : Bool := (entries.get? key).isSome

/-- The names, in order. -/
def keys (entries : Entries α) : List String := entries.map Prod.fst

/-- Give `key` the value `value`: in place if the name is known, at the end otherwise. -/
def insert : Entries α → String → α → Entries α
  | [], key, value => [(key, value)]
  | (name, old) :: rest, key, value =>
    if name = key then (name, value) :: rest else (name, old) :: insert rest key value

/-- Give `key` the value `value` unless the name is known. -/
def insertNew (entries : Entries α) (key : String) (value : α) : Entries α :=
  if entries.contains key then entries else entries ++ [(key, value)]

/-- Drop every entry of `key`. -/
def erase (entries : Entries α) (key : String) : Entries α :=
  entries.filter fun entry => entry.1 ≠ key

/-- The map that results from writing the pairs one after the other. -/
def ofPairs (pairs : List (String × α)) : Entries α :=
  pairs.foldl (fun entries pair => insert entries pair.1 pair.2) []

@[simp] theorem get?_nil (key : String) : get? ([] : Entries α) key = none := rfl

theorem mem_of_get? {entries : Entries α} {key : String} {value : α}
    (h : entries.get? key = some value) : (key, value) ∈ entries := by
  induction entries with
  | nil => cases h
  | cons entry rest ih =>
    obtain ⟨name, old⟩ := entry
    simp only [get?] at h
    split at h
    · next same =>
      cases h
      simp [same]
    · exact List.mem_cons_of_mem _ (ih h)

theorem get?_eq_none_iff {entries : Entries α} {key : String} :
    entries.get? key = none ↔ key ∉ entries.keys := by
  induction entries with
  | nil => simp [keys]
  | cons entry rest ih =>
    obtain ⟨name, old⟩ := entry
    by_cases same : name = key
    · simp [get?, keys, same]
    · simpa [get?, keys, same, Ne.symm same] using ih

theorem contains_iff {entries : Entries α} {key : String} :
    entries.contains key ↔ key ∈ entries.keys := by
  rw [contains, Option.isSome_iff_ne_none, ne_eq, get?_eq_none_iff, Classical.not_not]

theorem get?_of_mem {entries : Entries α} {key : String} {value : α} (once : entries.keys.Nodup)
    (h : (key, value) ∈ entries) : entries.get? key = some value := by
  induction entries with
  | nil => cases h
  | cons entry rest ih =>
    obtain ⟨name, old⟩ := entry
    have distinct := List.nodup_cons.mp once
    rcases List.mem_cons.mp h with same | mem
    · cases same
      simp [get?]
    · have other : name ≠ key := by
        rintro rfl
        exact distinct.1 (List.mem_map.mpr ⟨_, mem, rfl⟩)
      simpa [get?, other] using ih distinct.2 mem

@[simp] theorem get?_insert_self (entries : Entries α) (key : String) (value : α) :
    (insert entries key value).get? key = some value := by
  induction entries with
  | nil => simp [insert, get?]
  | cons entry rest ih =>
    obtain ⟨name, old⟩ := entry
    by_cases h : name = key <;> simp [insert, get?, h, ih]

theorem get?_insert_of_ne (entries : Entries α) {key other : String} (value : α)
    (h : other ≠ key) : (insert entries key value).get? other = entries.get? other := by
  induction entries with
  | nil => simp [insert, get?, Ne.symm h]
  | cons entry rest ih =>
    obtain ⟨name, old⟩ := entry
    by_cases hk : name = key
    · subst hk
      simp [insert, get?, Ne.symm h]
    · by_cases ho : name = other
      · subst ho
        simp [insert, get?, hk]
      · simp [insert, get?, hk, ho, ih]

@[simp] theorem get?_erase_self (entries : Entries α) (key : String) :
    (erase entries key).get? key = none := by
  rw [get?_eq_none_iff]
  simp [keys, erase]

theorem get?_erase_of_ne (entries : Entries α) {key other : String} (h : other ≠ key) :
    (erase entries key).get? other = entries.get? other := by
  induction entries with
  | nil => rfl
  | cons entry rest ih =>
    obtain ⟨name, value⟩ := entry
    simp only [erase, ne_eq, decide_not] at ih
    by_cases hk : name = key
    · simp [erase, get?, hk, Ne.symm h, ih]
    · simp [erase, get?, hk, ih]

/-- Writing keeps the order of the known names and puts a new one last. -/
theorem keys_insert (entries : Entries α) (key : String) (value : α) :
    (insert entries key value).keys =
      if entries.contains key then entries.keys else entries.keys ++ [key] := by
  induction entries with
  | nil => simp [insert, keys, contains]
  | cons entry rest ih =>
    obtain ⟨name, old⟩ := entry
    by_cases h : name = key
    · simp [insert, keys, contains, get?, h]
    · have ih' : List.map Prod.fst (insert rest key value) =
          if (get? rest key).isSome then List.map Prod.fst rest
          else List.map Prod.fst rest ++ [key] := ih
      by_cases hc : (get? rest key).isSome <;>
        simp [insert, keys, contains, get?, h, ih', hc]

end Entries

end SchemaCast
