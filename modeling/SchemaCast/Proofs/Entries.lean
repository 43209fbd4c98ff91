import SchemaCast.Entries

/-!
# What entries hold after a change

Entries that are put together out of others hold nothing but what they are made of. Where a name has
a value in the first of two parts, the second one does not count.
-/
namespace SchemaCast

namespace Entries

variable {α : Type}

theorem get?_append (entries more : Entries α) (key : String) :
    get? (entries ++ more) key = (entries.get? key).or (more.get? key) := by
  induction entries with
  | nil => rfl
  | cons entry rest ih =>
    obtain ⟨name, value⟩ := entry
    by_cases same : name = key
    · simp [get?, same]
    · simpa [get?, same] using ih

/-- Entries that are made of keys and a function hold the values of the function. -/
theorem get?_filterMap (value : String → Option α) (keys : List String) (key : String) :
    get? (keys.filterMap fun name => (value name).map fun found => (name, found)) key =
      if key ∈ keys then value key else none := by
  induction keys with
  | nil => rfl
  | cons first rest ih =>
    by_cases same : key = first
    · subst same
      cases found : value key with
      | none => simp [found, ih]
      | some other => simp [found, get?]
    · cases found : value first with
      | none => simp [found, ih, same]
      | some other => simp [found, get?, ih, same, Ne.symm same]

theorem get?_insertNew (entries : Entries α) (key other : String) (value : α) :
    (entries.insertNew key value).get? other =
      (entries.get? other).or (if key = other then some value else none) := by
  unfold insertNew
  split
  · next known =>
    by_cases same : key = other
    · obtain ⟨old, found⟩ := Option.isSome_iff_exists.mp known
      simp [← same, found]
    · simp [same]
  · rw [get?_append, get?]
    rfl

theorem get?_foldl_insertNew (more entries : Entries α) (key : String) :
    (more.foldl (fun all entry => insertNew all entry.1 entry.2) entries).get? key =
      (entries.get? key).or (more.get? key) := by
  induction more generalizing entries with
  | nil => simp
  | cons entry rest ih =>
    obtain ⟨name, value⟩ := entry
    rw [List.foldl_cons, ih, get?_insertNew, Option.or_assoc]
    by_cases same : name = key <;> simp [get?, same]

/-! ### Members -/

theorem mem_of_mem_insert {entries : Entries α} {key : String} {value : α} {entry : String × α}
    (h : entry ∈ entries.insert key value) : entry = (key, value) ∨ entry ∈ entries := by
  induction entries with
  | nil => exact .inl (List.mem_singleton.mp h)
  | cons first rest ih =>
    obtain ⟨name, old⟩ := first
    rw [insert] at h
    split at h
    · next same =>
      rcases List.mem_cons.mp h with rfl | mem
      · exact .inl (by rw [same])
      · exact .inr (List.mem_cons_of_mem _ mem)
    · rcases List.mem_cons.mp h with rfl | mem
      · exact .inr (List.mem_cons_self ..)
      · exact (ih mem).imp_right (List.mem_cons_of_mem _)

theorem mem_of_mem_ofPairs {pairs : List (String × α)} {entry : String × α}
    (h : entry ∈ ofPairs pairs) : entry ∈ pairs := by
  refine List.foldlRecOn (motive := fun entries => entry ∈ entries → entry ∈ pairs) pairs _
    (fun none => by cases none) (fun entries ih pair known mem => ?_) h
  rcases mem_of_mem_insert mem with rfl | mem
  · exact known
  · exact ih mem

theorem mem_of_mem_insertNew {entries : Entries α} {key : String} {value : α} {entry : String × α}
    (mem : entry ∈ entries.insertNew key value) : entry ∈ entries ∨ entry = (key, value) := by
  unfold insertNew at mem
  split at mem
  · exact .inl mem
  · exact (List.mem_append.mp mem).imp_right List.mem_singleton.mp

theorem mem_of_mem_foldl_insertNew {more entries : Entries α} {entry : String × α}
    (mem : entry ∈ more.foldl (fun all entry => insertNew all entry.1 entry.2) entries) :
    entry ∈ entries ∨ entry ∈ more := by
  refine List.foldlRecOn
    (motive := fun all : Entries α => entry ∈ all → entry ∈ entries ∨ entry ∈ more) more _
    .inl (fun all ih added known mem => ?_) mem
  rcases mem_of_mem_insertNew mem with mem | rfl
  · exact ih mem
  · exact .inr known

end Entries

end SchemaCast
