import SchemaCast.Proofs.Registry.Files
import SchemaCast.Proofs.Registry.Session

/-!
# Coherence with the files

As long as schemas are loaded one by one, a lookup finds what a registry without any memory would
find. A kept schema is used for a file that seems to be the one it was read from, so that the time
of modification has to tell whether the contents of a file have changed; a reload does not rely on
it. The invariant of a session is that each kept schema was read from a file that once was where the
schema is said to come from.
-/
namespace SchemaCast

namespace Registry

variable {registry : Registry} {files : FileTree} {trees : List FileTree} {name : String}

/-- Every kept schema was read from a file of one of several trees. -/
def ReadFrom (registry : Registry) (trees : List FileTree) : Prop :=
  ∀ name loaded, registry.schemas.get? name = some loaded → ∃ tree ∈ trees, ∃ file,
    tree.fileAt? loaded.path = some file ∧ file.modified = loaded.modified ∧
      readSchema loaded.path file = .ok loaded.node

theorem ReadFrom.mono {more : List FileTree} (h : registry.ReadFrom trees)
    (sub : trees ⊆ more) : registry.ReadFrom more := by
  intro name loaded found
  obtain ⟨tree, mem, origin⟩ := h name loaded found
  exact ⟨tree, sub mem, origin⟩

theorem ReadFrom.forget (h : registry.ReadFrom trees) (name : String) :
    (registry.forget name).ReadFrom trees := by
  intro other loaded found
  by_cases same : other = name
  · rw [same] at found
    simp [Registry.forget] at found
  · apply h other loaded
    rw [← found]
    exact (Entries.get?_erase_of_ne registry.schemas same).symm

theorem ReadFrom.keep (h : registry.ReadFrom trees) (now : files ∈ trees) {path : String}
    {file : File} {node : Node} (there : files.fileAt? path = some file)
    (read : readSchema path file = .ok node) :
    (registry.keep name node path file.modified).2.ReadFrom trees := by
  intro other loaded found
  by_cases same : other = name
  · rw [same] at found
    simp only [Registry.keep, Entries.get?_insert_self, Option.some.injEq] at found
    subst found
    exact ⟨files, now, file, there, rfl, read⟩
  · apply h other loaded
    rw [← found]
    exact (Entries.get?_insert_of_ne registry.schemas _ same).symm

theorem Finds.readFrom {outcome : Except SchemaError (Option Loaded) × Registry}
    (found : registry.Finds files name outcome) (h : registry.ReadFrom trees)
    (now : files ∈ trees) : outcome.2.ReadFrom trees := by
  cases found with
  | unnamed => exact h
  | missing => exact h.forget name
  | kept => exact h
  | broken => exact h
  | @read _ path file node provided _ read =>
    have mem : (path, file) ∈ registry.providers files name := by simp [provided]
    exact h.keep now (fileAt?_of_mem_providers mem) read
  | collision => exact h

/-- Files that are found at one path with the same time of modification hold the same. -/
def Faithful (trees : List FileTree) : Prop :=
  ∀ tree ∈ trees, ∀ other ∈ trees, ∀ path file version, tree.fileAt? path = some file →
    other.fileAt? path = some version → file.modified = version.modified →
      file.contents = version.contents

/-- It is enough to compare the files of one location. -/
theorem faithful_of_files (same : ∀ tree ∈ trees, ∀ other ∈ trees, ∀ entry ∈ tree.files,
    ∀ version ∈ other.files, entry.1 = version.1 → entry.2.modified = version.2.modified →
      entry.2.contents = version.2.contents) : Faithful trees := by
  intro tree mem other mem' path file version found found' modified
  obtain ⟨location, located, there⟩ := FileTree.exists_of_fileAt? found
  obtain ⟨location', located', there'⟩ := FileTree.exists_of_fileAt? found'
  exact same tree mem other mem' _ there _ there' (FileTree.locate_unique located located') modified

theorem ReadFrom.coherent (h : registry.ReadFrom trees) (faithful : Faithful trees)
    (now : files ∈ trees) (name : String) : registry.Coherent files name := by
  intro path file loaded there current
  obtain ⟨found, seems⟩ := Option.filter_eq_some_iff.mp current
  simp only [Bool.and_eq_true, decide_eq_true_eq] at seems
  obtain ⟨rfl, modified⟩ := seems
  obtain ⟨tree, mem, version, once, dated, read⟩ := h name loaded found
  have unmodified : version.modified = file.modified := dated.trans modified
  have unchanged := faithful tree mem files now loaded.path version file once there unmodified
  have same : file = version := by
    cases file
    cases version
    simp only [File.mk.injEq]
    exact ⟨unchanged.symm, unmodified.symm⟩
  rw [same]
  exact read

/-! ### What a registry keeps track of -/

/-- Where a registry searches, and that it has read what it keeps from one of several trees. -/
structure Tracks (registry : Registry) (roots extensions : List String) (trees : List FileTree) :
    Prop where
  roots_eq : registry.roots = roots
  extensions_eq : registry.extensions = extensions
  readFrom : registry.phase ≠ .eagerLoaded → registry.ReadFrom trees

namespace Tracks

variable {roots extensions : List String} (h : registry.Tracks roots extensions trees)

include h

theorem mono {more : List FileTree} (sub : trees ⊆ more) :
    registry.Tracks roots extensions more :=
  ⟨h.roots_eq, h.extensions_eq, fun lazy => (h.readFrom lazy).mono sub⟩

theorem forget (name : String) : (registry.forget name).Tracks roots extensions trees :=
  ⟨h.roots_eq, h.extensions_eq, fun lazy => (h.readFrom lazy).forget name⟩

theorem lookup (now : files ∈ trees) (name : String) :
    (registry.lookup files name).2.Tracks roots extensions trees := by
  by_cases final : registry.phase = .eagerLoaded
  · rw [lookup_of_final final]
    exact h
  · have found : registry.Finds files name (registry.lookup files name) := lookup_finds final
    obtain ⟨roots_eq, extensions_eq⟩ := found.search_eq
    exact ⟨roots_eq.trans h.roots_eq, extensions_eq.trans h.extensions_eq,
      fun _ => found.readFrom (h.readFrom final) now⟩

theorem reload (now : files ∈ trees) (name : String) :
    (registry.reload files name).2.Tracks roots extensions trees := by
  by_cases final : registry.phase = .eagerLoaded
  · rw [reload_of_final final]
    exact h
  · rw [reload_of_lazy final]
    exact (h.forget name).lookup now name

theorem eagerLoad (files : FileTree) :
    (registry.eagerLoad files).2.Tracks roots extensions trees := by
  by_cases final : registry.phase = .eagerLoaded
  · rw [eagerLoad_of_final final]
    exact h
  · rcases eagerLoad_cases final files with ⟨error, failed⟩ | ⟨schemas, _, loaded⟩
    · rw [failed]
      exact h
    · rw [loaded]
      exact ⟨h.roots_eq, h.extensions_eq, fun lazy => absurd rfl lazy⟩

end Tracks

end Registry

/-- The files from an event on, if it changes them. -/
def Event.tree? : Event → Option FileTree
  | .change files => some files
  | _ => none

namespace Session

open Registry

/-- All files that there have been in a session. -/
def history (files : FileTree) (events : List Event) : List FileTree :=
  files :: events.filterMap Event.tree?

theorem history_append (files : FileTree) (events : List Event) (event : Event) :
    history files (events ++ [event]) = history files events ++ event.tree?.toList := by
  cases event <;> simp [history, Event.tree?]

/-- At any time in a session, the files are among those that there have been, and the registry has
read what it keeps from them. -/
theorem run_tracks (roots extensions : List String) (files : FileTree) (events : List Event) :
    ((start roots extensions files).run events).2.files ∈ history files events ∧
      ((start roots extensions files).run events).2.registry.Tracks roots extensions
        (history files events) := by
  induction events using run_induction (start roots extensions files) with
  | start => exact ⟨by simp [start, history], rfl, rfl, fun _ _ _ found => by cases found⟩
  | step events answers now event h =>
    obtain ⟨current, tracks⟩ := h
    have sub : history files events ⊆ history files (events ++ [event]) := by
      rw [history_append]
      exact List.subset_append_left ..
    have tracks := tracks.mono sub
    cases event with
    | change files => exact ⟨by simp [step, history_append, Event.tree?], tracks⟩
    | lookup name => exact ⟨sub current, tracks.lookup (sub current) name⟩
    | reload name => exact ⟨sub current, tracks.reload (sub current) name⟩
    | eagerLoad => exact ⟨sub current, tracks.eagerLoad now.files⟩

/-- Until all schemas are loaded together, a lookup is answered as by a registry that has loaded
nothing yet, if the files of one path and time of modification have always held the same. A reload
is answered so in any case. -/
theorem lookup_coherent (roots extensions : List String) (files : FileTree) (events : List Event)
    (lazy : ((start roots extensions files).run events).2.registry.phase ≠ .eagerLoaded)
    (name : String) :
    let now := ((start roots extensions files).run events).2
    let fresh := schemaOf ((ofRoots roots extensions).lookup now.files name).1
    (Faithful (history files events) →
      schemaOf (now.registry.lookup now.files name).1 = fresh) ∧
    schemaOf (now.registry.reload now.files name).1 = fresh := by
  intro now fresh
  obtain ⟨current, tracks⟩ := run_tracks roots extensions files events
  have same : now.registry.find now.files name = fresh := by
    rw [find_eq_ofRoots, tracks.roots_eq, tracks.extensions_eq]
    exact (schemaOf_ofRoots roots extensions now.files name).symm
  constructor
  · intro faithful
    rw [← same]
    exact schemaOf_lookup lazy ((tracks.readFrom lazy).coherent faithful current name)
  · rw [← same]
    exact schemaOf_reload lazy now.files name

/-- A schema whose file is written anew, taken away and put back. -/
theorem lookup_coherent_circle :
    let circle (text : String) (modified : Int) : FileTree :=
      { files := [(["lib", "shapes", "circle.json"], { contents := text.toUTF8, modified })]
        directories := [["lib"], ["lib", "shapes"]] }
    let old := circle "\"string\"" 1
    let new := circle "\"integer\"" 2
    let events : List Event := [.lookup "shapes/circle", .change new, .lookup "shapes/circle",
      .change {}, .change old]
    let now := ((start ["lib"] ["json"] old).run events).2
    now.registry.phase ≠ .eagerLoaded ∧ Faithful (history old events) ∧
      schemaOf (now.registry.lookup now.files "shapes/circle").1 =
        schemaOf ((ofRoots ["lib"] ["json"]).lookup now.files "shapes/circle").1 := by
  intro circle old new events now
  have lazy : now.registry.phase ≠ .eagerLoaded := by decide +kernel
  have faithful : Faithful (history old events) := faithful_of_files (by decide +kernel)
  have coherent := lookup_coherent ["lib"] ["json"] old events lazy "shapes/circle"
  exact ⟨lazy, faithful, coherent.1 faithful⟩

end Session

end SchemaCast
