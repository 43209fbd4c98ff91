import SchemaCast.Registry

/-!
# What a lookup comes to

What a lookup can come to while schemas are loaded one by one is said once, by `Registry.Finds`.
`Registry.find` is what files hold for a name, whatever has been read before; a lookup comes to just
that if what is kept under the name is what the file holds that it seems to come from.
-/
namespace SchemaCast

namespace Registry

variable {registry : Registry} {files : FileTree} {name : String}

/-- How a lookup comes out while schemas are loaded one by one. -/
inductive Finds (registry : Registry) (files : FileTree) (name : String) :
    Except SchemaError (Option Loaded) × Registry → Prop where
  | unnamed (h : ¬ isSchemaName name) : Finds registry files name (.ok none, registry)
  | missing (h : isSchemaName name) (provided : registry.providers files name = []) :
      Finds registry files name (.ok none, registry.forget name)
  | kept (h : isSchemaName name) {path : String} {file : File} {loaded : Loaded}
      (provided : registry.providers files name = [(path, file)])
      (current : registry.current? name path file.modified = some loaded) :
      Finds registry files name (.ok (some loaded), registry)
  | broken (h : isSchemaName name) {path : String} {file : File} {error : SchemaError}
      (provided : registry.providers files name = [(path, file)])
      (outdated : registry.current? name path file.modified = none)
      (read : readSchema path file = .error error) :
      Finds registry files name (.error error, registry)
  | read (h : isSchemaName name) {path : String} {file : File} {node : Node}
      (provided : registry.providers files name = [(path, file)])
      (outdated : registry.current? name path file.modified = none)
      (read : readSchema path file = .ok node) :
      Finds registry files name
        (.ok (some (registry.keep name node path file.modified).1),
          (registry.keep name node path file.modified).2)
  | collision (h : isSchemaName name) (several : 2 ≤ (registry.providers files name).length) :
      Finds registry files name
        (.error (.collision name ((registry.providers files name).map Prod.fst)), registry)

theorem lookup_finds (lazy : registry.phase ≠ .eagerLoaded) :
    registry.Finds files name (registry.lookup files name) := by
  unfold lookup
  rw [if_neg lazy]
  by_cases named : isSchemaName name
  · simp only [named, Bool.not_true, Bool.false_eq_true, if_false]
    cases provided : registry.providers files name with
    | nil => exact .missing named provided
    | cons first rest =>
      obtain ⟨path, file⟩ := first
      cases rest with
      | nil =>
        show registry.Finds files name (registry.load name path file)
        unfold load
        cases current : registry.current? name path file.modified with
        | some loaded => exact .kept named provided current
        | none =>
          cases read : readSchema path file with
          | error error => exact .broken named provided current read
          | ok node => exact .read named provided current read
      | cons second others =>
        have several : registry.Finds files name
            (.error (.collision name ((registry.providers files name).map Prod.fst)), registry) :=
          .collision named (by simp [provided])
        simpa only [provided] using several
  · simp only [named, Bool.not_false, if_true]
    exact .unnamed named

/-- The providers of a name are the files at the paths that a root, the name and an extension
make. -/
theorem mem_providers_iff {path : String} {file : File} :
    (path, file) ∈ registry.providers files name ↔
      (∃ root ∈ registry.roots, ∃ extension ∈ registry.extensions,
        path = joinPath root (name ++ "." ++ extension)) ∧ files.fileAt? path = some file := by
  constructor
  · intro mem
    obtain ⟨root, known, mem⟩ := List.mem_flatMap.mp mem
    obtain ⟨extension, listed, found⟩ := List.mem_filterMap.mp mem
    obtain ⟨other, found, same⟩ := Option.map_eq_some_iff.mp found
    cases same
    exact ⟨⟨root, known, extension, listed, rfl⟩, found⟩
  · rintro ⟨⟨root, known, extension, listed, rfl⟩, found⟩
    refine List.mem_flatMap.mpr ⟨root, known, ?_⟩
    exact List.mem_filterMap.mpr ⟨extension, listed, Option.map_eq_some_iff.mpr ⟨file, found, rfl⟩⟩

/-- The files that provide a name are there. -/
theorem fileAt?_of_mem_providers {path : String} {file : File}
    (mem : (path, file) ∈ registry.providers files name) : files.fileAt? path = some file :=
  (mem_providers_iff.mp mem).2

/-! ### Final schemas -/

theorem lookup_of_final (final : registry.phase = .eagerLoaded) (files : FileTree) (name : String) :
    registry.lookup files name = (.ok (registry.schemas.get? name), registry) := by
  rw [lookup, if_pos final]

theorem reload_of_final (final : registry.phase = .eagerLoaded) (files : FileTree) (name : String) :
    registry.reload files name = (.error .alreadyEagerLoaded, registry) := by
  rw [reload, if_pos final]

theorem eagerLoad_of_final (final : registry.phase = .eagerLoaded) (files : FileTree) :
    registry.eagerLoad files = (.error .alreadyEagerLoaded, registry) := by
  rw [eagerLoad, if_pos final]

/-! ### Schemas that are not final -/

/-- No lookup changes where schemas are searched. -/
theorem Finds.search_eq {outcome : Except SchemaError (Option Loaded) × Registry}
    (h : registry.Finds files name outcome) :
    outcome.2.roots = registry.roots ∧ outcome.2.extensions = registry.extensions := by
  cases h <;> exact ⟨rfl, rfl⟩

theorem reload_of_lazy (lazy : registry.phase ≠ .eagerLoaded) (files : FileTree) (name : String) :
    registry.reload files name = (registry.forget name).lookup files name := by
  rw [reload, if_neg lazy]

/-- An eager load fails and changes nothing, or it replaces all schemas. -/
theorem eagerLoad_cases (lazy : registry.phase ≠ .eagerLoaded) (files : FileTree) :
    (∃ error, registry.eagerLoad files = (.error error, registry)) ∨
      ∃ schemas,
        loadAll (registry.allProviders files) registry.serial
            (distinctNames ((registry.allProviders files).map Prod.fst)) = .ok schemas ∧
          registry.eagerLoad files =
            (.ok (), { registry with
              phase := .eagerLoaded
              schemas
              serial := registry.serial + schemas.length }) := by
  unfold eagerLoad
  rw [if_neg lazy]
  dsimp only
  split
  · next error _ => exact .inl ⟨error, rfl⟩
  · next schemas loaded => exact .inr ⟨schemas, loaded, rfl⟩

/-- An eager load succeeds if the schemas are final after it. -/
theorem eagerLoad_of_phase (lazy : registry.phase ≠ .eagerLoaded)
    (final : (registry.eagerLoad files).2.phase = .eagerLoaded) :
    (registry.eagerLoad files).1 = .ok () := by
  rcases eagerLoad_cases lazy files with ⟨error, failed⟩ | ⟨schemas, _, loaded⟩
  · rw [failed] at final
    exact absurd final lazy
  · rw [loaded]

/-! ### What files hold -/

/-- The schema in an answer, wherever and whenever it was read. -/
def schemaOf (answer : Except SchemaError (Option Loaded)) : Except SchemaError (Option Node) :=
  answer.map (Option.map Loaded.node)

/-- What files hold for a name, whatever has been read before. -/
def find (registry : Registry) (files : FileTree) (name : String) :
    Except SchemaError (Option Node) :=
  if isSchemaName name then
    match registry.providers files name with
    | [] => .ok none
    | [(path, file)] => (readSchema path file).map some
    | several => .error (.collision name (several.map Prod.fst))
  else .ok none

theorem find_of_providers {path : String} {file : File} (named : isSchemaName name)
    (provided : registry.providers files name = [(path, file)]) :
    registry.find files name = (readSchema path file).map some := by
  rw [find, if_pos named, provided]

/-- If what is kept under a name seems to come from a file, then it is what the file holds. -/
def Coherent (registry : Registry) (files : FileTree) (name : String) : Prop :=
  ∀ path file loaded, files.fileAt? path = some file →
    registry.current? name path file.modified = some loaded →
      readSchema path file = .ok loaded.node

theorem coherent_of_unknown (unknown : registry.schemas.get? name = none) :
    registry.Coherent files name := by
  intro path file loaded _ current
  rw [current?, unknown] at current
  cases current

theorem Finds.schemaOf_eq {outcome : Except SchemaError (Option Loaded) × Registry}
    (h : registry.Finds files name outcome) (coherent : registry.Coherent files name) :
    schemaOf outcome.1 = registry.find files name := by
  cases h with
  | unnamed unnamed =>
    rw [find, if_neg unnamed]
    rfl
  | missing named provided =>
    rw [find, if_pos named, provided]
    rfl
  | @kept named path file loaded provided current =>
    have mem : (path, file) ∈ registry.providers files name := by simp [provided]
    have read := coherent path file loaded (fileAt?_of_mem_providers mem) current
    rw [find_of_providers named provided, read]
    rfl
  | broken named provided _ read =>
    rw [find_of_providers named provided, read]
    rfl
  | read named provided _ read =>
    rw [find_of_providers named provided, read]
    rfl
  | collision named several =>
    rw [find, if_pos named]
    -- Only the last case of the match has two files or more.
    split
    · next provided => simp [provided] at several
    · next provided => simp [provided] at several
    · rfl

theorem schemaOf_lookup (lazy : registry.phase ≠ .eagerLoaded)
    (coherent : registry.Coherent files name) :
    schemaOf (registry.lookup files name).1 = registry.find files name :=
  (lookup_finds lazy).schemaOf_eq coherent

/-- What is forgotten first is read again. -/
theorem schemaOf_reload (lazy : registry.phase ≠ .eagerLoaded) (files : FileTree) (name : String) :
    schemaOf (registry.reload files name).1 = registry.find files name := by
  have unknown : (registry.forget name).schemas.get? name = none := Entries.get?_erase_self _ _
  have lazy' : (registry.forget name).phase ≠ .eagerLoaded := lazy
  rw [reload_of_lazy lazy]
  exact schemaOf_lookup lazy' (coherent_of_unknown unknown)

theorem schemaOf_ofRoots (roots extensions : List String) (files : FileTree) (name : String) :
    schemaOf ((ofRoots roots extensions).lookup files name).1 =
      (ofRoots roots extensions).find files name :=
  schemaOf_lookup (by simp [ofRoots]) (coherent_of_unknown rfl)

/-- Where schemas are searched decides what is found. -/
theorem find_eq_ofRoots (registry : Registry) (files : FileTree) (name : String) :
    registry.find files name = (ofRoots registry.roots registry.extensions).find files name := rfl

end Registry

end SchemaCast
