import SchemaCast.Proofs.Registry.Lookup
import SchemaCast.Proofs.Registry.Names

/-!
# What a lookup reads

No name leads out of the search roots, whatever steps it has: each file that a lookup reads lies
within one of them, provided that no extension brings further steps. `Registry.lookupNoting` is a
lookup that notes the files it reads. Beyond what it notes, a lookup does not depend on the files
that lie elsewhere at all (`Registry.lookup_congr`), not even on whether they are there.
-/
namespace SchemaCast

namespace FileTree

variable {files other : FileTree}

/-- Files do not matter for where steps lead to. -/
theorem walk_congr (same : other.directories = files.directories) (here : Location)
    (steps : List String) : other.walk here steps = files.walk here steps := by
  have directory (spot : Location) : other.isDirectory spot = files.isDirectory spot := by
    rw [isDirectory, isDirectory, same]
  induction steps generalizing here with
  | nil => rfl
  | cons step rest ih => simp only [walk, directory, ih]

theorem locate_congr (same : other.directories = files.directories) (path : String) :
    other.locate path = files.locate path := by
  rw [locate, locate, walk_congr same]

end FileTree

namespace Registry

variable {registry : Registry} {files other : FileTree} {name : String}

/-! ### Lookups with notes -/

/-- What is loaded from a file, and the files read for it. -/
def loadNoting (registry : Registry) (name path : String) (file : File) :
    (Except SchemaError (Option Loaded) × Registry) × List (String × File) :=
  match registry.current? name path file.modified with
  | some loaded => ((.ok (some loaded), registry), [])
  | none =>
    match readSchema path file with
    | .error error => ((.error error, registry), [(path, file)])
    | .ok node =>
      let (loaded, registry) := registry.keep name node path file.modified
      ((.ok (some loaded), registry), [(path, file)])

/-- What a lookup comes to, and the files that it reads. -/
def lookupNoting (registry : Registry) (files : FileTree) (name : String) :
    (Except SchemaError (Option Loaded) × Registry) × List (String × File) :=
  if registry.phase = .eagerLoaded then ((.ok (registry.schemas.get? name), registry), [])
  else if !isSchemaName name then ((.ok none, registry), [])
  else
    match registry.providers files name with
    | [] => ((.ok none, registry.forget name), [])
    | [(path, file)] => registry.loadNoting name path file
    | several => ((.error (.collision name (several.map Prod.fst)), registry), [])

/-- What a reload comes to, and the files that it reads. -/
def reloadNoting (registry : Registry) (files : FileTree) (name : String) :
    (Except SchemaError (Option Loaded) × Registry) × List (String × File) :=
  if registry.phase = .eagerLoaded then ((.error .alreadyEagerLoaded, registry), [])
  else (registry.forget name).lookupNoting files name

theorem loadNoting_fst (registry : Registry) (name path : String) (file : File) :
    (registry.loadNoting name path file).1 = registry.load name path file := by
  unfold loadNoting load
  cases registry.current? name path file.modified with
  | some loaded => rfl
  | none => cases readSchema path file <;> rfl

/-- Noting what is read does not change what a lookup comes to. -/
theorem lookupNoting_fst (registry : Registry) (files : FileTree) (name : String) :
    (registry.lookupNoting files name).1 = registry.lookup files name := by
  unfold lookupNoting lookup
  split
  · rfl
  · split
    · rfl
    · rcases registry.providers files name with _ | ⟨⟨path, file⟩, _ | ⟨second, others⟩⟩
      · rfl
      · exact loadNoting_fst registry name path file
      · rfl

theorem reloadNoting_fst (registry : Registry) (files : FileTree) (name : String) :
    (registry.reloadNoting files name).1 = registry.reload files name := by
  unfold reloadNoting reload
  split
  · rfl
  · exact lookupNoting_fst ..

theorem eq_of_mem_loadNoting {path : String} {file : File} {read : String × File}
    (mem : read ∈ (registry.loadNoting name path file).2) : read = (path, file) := by
  unfold loadNoting at mem
  split at mem
  · cases mem
  · split at mem
    · exact List.mem_singleton.mp mem
    · exact List.mem_singleton.mp mem

/-- Only files that provide the name of a schema are read. -/
theorem mem_providers_of_read {read : String × File}
    (mem : read ∈ (registry.lookupNoting files name).2) :
    isSchemaName name ∧ read ∈ registry.providers files name := by
  unfold lookupNoting at mem
  split at mem
  · cases mem
  · split at mem
    · cases mem
    · next named =>
      refine ⟨by simpa using named, ?_⟩
      split at mem
      · cases mem
      · next single =>
        rw [single, eq_of_mem_loadNoting mem]
        exact List.mem_singleton_self _
      · cases mem

/-! ### Files within the roots -/

/-- The location of what one of the search roots holds. -/
def Reaches (registry : Registry) (files : FileTree) (location : Location) : Prop :=
  ∃ root ∈ registry.roots, files.Within root location

section Flat

variable (flat : ∀ extension ∈ registry.extensions, '/' ∉ extension.toList)

include flat

/-- A path that is looked at leads to a location within a root, if it leads anywhere. -/
theorem reaches_of_locate {root extension : String} {location : Location}
    (named : isSchemaName name) (known : root ∈ registry.roots)
    (listed : extension ∈ registry.extensions)
    (located : files.locate (joinPath root (name ++ "." ++ extension)) = some location) :
    registry.Reaches files location :=
  ⟨root, known, FileTree.within_of_name named (flat extension listed) located⟩

theorem reaches_of_mem_providers {read : String × File} (named : isSchemaName name)
    (mem : read ∈ registry.providers files name) :
    ∃ location, files.locate read.1 = some location ∧ files.file? location = some read.2 ∧
      registry.Reaches files location := by
  obtain ⟨⟨root, known, extension, listed, path⟩, opened⟩ := mem_providers_iff.mp mem
  obtain ⟨location, located, there⟩ := Option.bind_eq_some_iff.mp opened
  rw [path] at located ⊢
  exact ⟨location, located, there, reaches_of_locate flat named known listed located⟩

end Flat

/-- Two trees have the same directories, and the same files within the search roots. -/
structure AgreeWithin (registry : Registry) (files other : FileTree) : Prop where
  directories_eq : other.directories = files.directories
  file?_eq : ∀ location, registry.Reaches files location →
    other.file? location = files.file? location

theorem providers_congr (flat : ∀ extension ∈ registry.extensions, '/' ∉ extension.toList)
    (agree : registry.AgreeWithin files other) (named : isSchemaName name) :
    registry.providers other name = registry.providers files name := by
  unfold providers
  refine List.flatMap_congr fun root known => ?_
  refine List.filterMap_congr fun extension listed => ?_
  have same : other.fileAt? (joinPath root (name ++ "." ++ extension)) =
      files.fileAt? (joinPath root (name ++ "." ++ extension)) := by
    rw [FileTree.fileAt?, FileTree.fileAt?, FileTree.locate_congr agree.directories_eq]
    cases located : files.locate (joinPath root (name ++ "." ++ extension)) with
    | none => rfl
    | some location =>
      exact agree.file?_eq location (reaches_of_locate flat named known listed located)
  simp only [same]

/-- A lookup depends on the files within the search roots alone. -/
theorem lookup_congr (flat : ∀ extension ∈ registry.extensions, '/' ∉ extension.toList)
    (agree : registry.AgreeWithin files other) :
    registry.lookup other name = registry.lookup files name := by
  unfold lookup
  by_cases named : isSchemaName name
  · rw [providers_congr flat agree named]
  · simp only [named, Bool.not_false, if_true]

theorem reload_congr (flat : ∀ extension ∈ registry.extensions, '/' ∉ extension.toList)
    (agree : registry.AgreeWithin files other) :
    registry.reload other name = registry.reload files name := by
  unfold reload
  have forgotten : (registry.forget name).AgreeWithin files other :=
    ⟨agree.directories_eq, agree.file?_eq⟩
  have same : (registry.forget name).lookup other name = (registry.forget name).lookup files name :=
    lookup_congr flat forgotten
  rw [same]

/-- **Names cannot escape the search roots.** If no extension has a slash in it, every file that a
lookup or a reload reads lies within one of the roots, whatever steps the name has. Which files
there are elsewhere matters neither for the answer nor for what is kept. -/
theorem lookup_confined {registry : Registry}
    (flat : ∀ extension ∈ registry.extensions, '/' ∉ extension.toList) (files : FileTree)
    (name : String) :
    ((registry.lookupNoting files name).1 = registry.lookup files name ∧
      (registry.reloadNoting files name).1 = registry.reload files name) ∧
    (∀ read ∈ (registry.lookupNoting files name).2 ++ (registry.reloadNoting files name).2,
      ∃ location, files.locate read.1 = some location ∧ files.file? location = some read.2 ∧
        registry.Reaches files location) ∧
    ∀ other, registry.AgreeWithin files other →
      registry.lookup other name = registry.lookup files name ∧
        registry.reload other name = registry.reload files name := by
  refine ⟨⟨lookupNoting_fst registry files name, reloadNoting_fst registry files name⟩, ?_, ?_⟩
  · intro read mem
    rcases List.mem_append.mp mem with mem | mem
    · obtain ⟨named, provided⟩ := mem_providers_of_read mem
      exact reaches_of_mem_providers flat named provided
    · unfold reloadNoting at mem
      split at mem
      · cases mem
      · obtain ⟨named, provided⟩ := mem_providers_of_read mem
        -- A registry that has forgotten a schema searches where it has searched before.
        have provided : read ∈ registry.providers files name := provided
        exact reaches_of_mem_providers flat named provided
  · intro other agree
    exact ⟨lookup_congr flat agree, reload_congr flat agree⟩

/-- A name whose last step would lead out behind an empty extension, and one with idle steps. -/
theorem lookup_confined_circle :
    let circle : File := { contents := "\"string\"".toUTF8, modified := 1 }
    let files := (FileTree.write {} "lib/shapes/circle.json" circle).write "secret.json" circle
    let registry := ofRoots ["lib"] ["json", ""]
    (registry.lookupNoting files "shapes/.").2 = [] ∧
    (registry.lookupNoting files "shapes//./circle").2.map Prod.fst =
      ["lib/shapes//./circle.json"] ∧
    ∀ read ∈ (registry.lookupNoting files "shapes//./circle").2, ∃ location,
      files.locate read.1 = some location ∧ registry.Reaches files location := by
  intro circle files registry
  have flat : ∀ extension ∈ registry.extensions, '/' ∉ extension.toList := by decide
  refine ⟨List.map_eq_nil_iff (f := Prod.fst).mp (by decide +kernel), by decide +kernel, ?_⟩
  intro read mem
  obtain ⟨location, located, _, reached⟩ :=
    (lookup_confined flat files "shapes//./circle").2.1 read (List.mem_append_left _ mem)
  exact ⟨location, located, reached⟩

end Registry

end SchemaCast
