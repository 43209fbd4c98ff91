import SchemaCast.Proofs.Registry.Coherence
import SchemaCast.Proofs.Registry.EagerLoading
import SchemaCast.Proofs.Registry.Names
import SchemaCast.Proofs.Registry.Phases

/-!
# Names of one file

Steps of a name that stay where they are make no difference to the file that it leads to, except for
the last one. So a file has many names while schemas are loaded one by one: all those with the same
plain steps (`plainSteps`), and no others, if extensions are texts without dots and slashes. Names
without idle steps are not among each other's aliases. Once all schemas have been loaded together,
each file has one name.
-/
namespace SchemaCast

/-- The steps of a name without those that stay where they are. The last step counts in any case,
since the extension is put behind it. -/
def plainSteps (name : String) : List String :=
  movingSteps (pathSteps name).dropLast ++ (pathSteps name).getLast?.toList

theorem NameParts.plainSteps_eq {name last : String} {outer : List String}
    (parts : NameParts name outer last) : plainSteps name = movingSteps outer ++ [last] := by
  simp [plainSteps, parts.steps_eq]

/-- The plain steps of a name that has no others tell the name. -/
theorem plainSteps_inj {name other : String} (inward : ∀ step ∈ pathSteps name, Inward step)
    (inward' : ∀ step ∈ pathSteps other, Inward step) (same : plainSteps name = plainSteps other) :
    name = other := by
  have whole {text : String} (inward : ∀ step ∈ pathSteps text, Inward step) :
      plainSteps text = pathSteps text := by
    rw [plainSteps, movingSteps_eq fun step mem => inward step (List.dropLast_subset _ mem),
      List.getLast?_eq_some_getLast (pathSteps_ne_nil text), Option.toList_some,
      List.dropLast_append_getLast]
  rw [whole inward, whole inward'] at same
  rw [← intercalate_pathSteps name, same, intercalate_pathSteps]

/-- An extension that can be told from a file name. -/
structure IsExtension (extension : String) : Prop where
  given : extension ≠ ""
  undotted : '.' ∉ extension.toList
  flat : '/' ∉ extension.toList

theorem isExtension_of_default {extension : String}
    (listed : extension ∈ Settings.defaultExtensions) : IsExtension extension := by
  have all : ∀ extension ∈ Settings.defaultExtensions,
      extension ≠ "" ∧ '.' ∉ extension.toList ∧ '/' ∉ extension.toList := by decide
  obtain ⟨given, undotted, flat⟩ := all extension listed
  exact ⟨given, undotted, flat⟩

/-- A step with an extension behind it leads inward, even if the step by itself does not. -/
theorem IsExtension.inward {last extension : String} (ext : IsExtension extension)
    (flat : '/' ∉ last.toList) : Inward (last ++ "." ++ extension) := by
  refine ⟨by simp, ?_, ?_, by simp [flat, ext.flat]⟩
  · intro here
    have chars := congrArg List.length (congrArg String.toList here)
    have given : extension.toList ≠ [] := mt String.toList_eq_nil_iff.mp ext.given
    have positive := List.length_pos_iff.mpr given
    simp only [String.toList_append, List.length_append] at chars
    have one : ".".toList.length = 1 := rfl
    omega
  · intro up
    have chars := congrArg String.toList up
    rcases eq_of_append_eq_up up with rfl | rfl
    · have dot : extension.toList = ['.'] := by simpa using chars
      apply ext.undotted
      rw [dot]
      exact List.mem_singleton_self _
    · exact ext.given (by simpa using chars)

/-- An extension is what stands behind the last dot. -/
theorem takeWhile_extension (last : String) {extension : String}
    (undotted : '.' ∉ extension.toList) :
    (last ++ "." ++ extension).toList.reverse.takeWhile (· ≠ '.') = extension.toList.reverse := by
  have chars : (last ++ "." ++ extension).toList.reverse =
      extension.toList.reverse ++ '.' :: last.toList.reverse := by simp
  have plain : ∀ c ∈ extension.toList.reverse, decide (c ≠ '.') = true := by
    intro c mem
    apply decide_eq_true
    rintro rfl
    exact undotted (List.mem_reverse.mp mem)
  rw [chars, List.takeWhile_append_of_pos plain, List.takeWhile_cons_of_neg (by simp),
    List.append_nil]

theorem eq_of_append_extension {last last' extension extension' : String}
    (undotted : '.' ∉ extension.toList) (undotted' : '.' ∉ extension'.toList)
    (same : last ++ "." ++ extension = last' ++ "." ++ extension') :
    last = last' ∧ extension = extension' := by
  have behind : extension.toList.reverse = extension'.toList.reverse := by
    rw [← takeWhile_extension last undotted, same, takeWhile_extension last' undotted']
  have equal : extension = extension' := String.toList_inj.mp (List.reverse_injective behind)
  rw [equal, String.append_left_inj, String.append_left_inj] at same
  exact ⟨same, equal⟩

namespace FileTree

variable {tree other : FileTree} {location : Location} {root name synonym : String}
  {extension extension' : String}

/-- Idle steps in front of another step can be left out. -/
theorem walk_append_movingSteps (here : Location) (steps : List String) {rest : List String}
    (given : rest ≠ []) :
    tree.walk here (steps ++ rest) = tree.walk here (movingSteps steps ++ rest) := by
  induction steps generalizing here with
  | nil => rfl
  | cons step steps ih =>
    by_cases idle : step.isEmpty || step = "."
    · -- Both an idle step and the one behind it need a directory to be taken from.
      obtain ⟨next, others, found⟩ := List.exists_cons_of_ne_nil
        (List.append_ne_nil_of_right_ne_nil steps given)
      rw [movingSteps_cons_of_idle idle, ← ih, List.cons_append, walk, if_pos idle, found, walk]
      by_cases directory : tree.isDirectory here
      · simp [directory]
      · simp [directory]
    · simp only [movingSteps_cons_of_moving idle, List.cons_append, walk, ih]

/-- Names with the same plain steps lead to the same place. -/
theorem locate_of_plainSteps (named : isSchemaName name) (named' : isSchemaName synonym)
    (flat : '/' ∉ extension.toList) (same : plainSteps name = plainSteps synonym) :
    tree.locate (joinPath root (name ++ "." ++ extension)) =
      tree.locate (joinPath root (synonym ++ "." ++ extension)) := by
  have way {name last : String} {outer : List String} (parts : NameParts name outer last) :
      tree.locate (joinPath root (name ++ "." ++ extension)) =
        (tree.locate root).bind fun top =>
          tree.walk top (movingSteps outer ++ [last ++ "." ++ extension]) := by
    have relative := parts.relative ("." ++ extension)
    rw [← String.append_assoc] at relative
    rw [locate_joinPath root relative, parts.pathSteps_append flat]
    simp only [walk_append_movingSteps _ outer (List.cons_ne_nil _ [])]
  obtain ⟨outer, last, parts⟩ := exists_nameParts named
  obtain ⟨outer', last', parts'⟩ := exists_nameParts named'
  rw [parts.plainSteps_eq, parts'.plainSteps_eq] at same
  obtain ⟨before, end'⟩ := List.append_inj' same rfl
  rw [way parts, way parts', before, List.cons.inj end' |>.1]

/-- The file of a name lies behind the plain steps of the name. -/
theorem location_of_name {outer : List String} {last : String} (parts : NameParts name outer last)
    (ext : IsExtension extension)
    (located : tree.locate (joinPath root (name ++ "." ++ extension)) = some location) :
    ∃ top, tree.locate root = some top ∧
      location = top ++ (movingSteps outer ++ [last ++ "." ++ extension]) := by
  obtain ⟨top, there, _, walked⟩ := walk_of_name parts ext.flat located
  have mem : last ∈ pathSteps name := by simp [parts.steps_eq]
  have flat : '/' ∉ last.toList := flat_of_mem_pathSteps mem
  have inward : ∀ step ∈ [last ++ "." ++ extension], Inward step := by
    intro step mem
    rw [List.mem_singleton.mp mem]
    exact ext.inward flat
  exact ⟨top, there, by rw [walk_inward inward walked, List.append_assoc]⟩

/-- Names that lead to one place, even in two trees, have the same plain steps. -/
theorem plainSteps_of_locate (named : isSchemaName name) (named' : isSchemaName synonym)
    (ext : IsExtension extension) (ext' : IsExtension extension')
    (located : tree.locate (joinPath root (name ++ "." ++ extension)) = some location)
    (located' : other.locate (joinPath root (synonym ++ "." ++ extension')) = some location) :
    plainSteps name = plainSteps synonym ∧ extension = extension' := by
  obtain ⟨outer, last, parts⟩ := exists_nameParts named
  obtain ⟨outer', last', parts'⟩ := exists_nameParts named'
  obtain ⟨top, there, same⟩ := location_of_name parts ext located
  obtain ⟨top', there', same'⟩ := location_of_name parts' ext' located'
  rw [same, locate_unique there there', List.append_cancel_left_eq] at same'
  obtain ⟨before, end'⟩ := List.append_inj' same' rfl
  obtain ⟨rfl, equal⟩ :=
    eq_of_append_extension ext.undotted ext'.undotted (List.cons.inj end').1
  exact ⟨by rw [parts.plainSteps_eq, parts'.plainSteps_eq, before], equal⟩

end FileTree

/-- Two schemas were read from one place, whenever it was that their paths led there. -/
def Loaded.SharesFile (loaded other : Loaded) : Prop :=
  ∃ (tree tree' : FileTree) (location : Location),
    tree.locate loaded.path = some location ∧ tree'.locate other.path = some location

namespace Registry

variable {registry : Registry} {files : FileTree} {trees : List FileTree} {name : String}

/-! ### Where kept schemas come from -/

/-- The path is one that the name is looked up at. -/
def Makes (registry : Registry) (name path : String) : Prop :=
  isSchemaName name ∧ ∃ root ∈ registry.roots, ∃ extension ∈ registry.extensions,
    path = joinPath root (name ++ "." ++ extension)

theorem makes_of_mem_providers {path : String} {file : File} (named : isSchemaName name)
    (mem : (path, file) ∈ registry.providers files name) : registry.Makes name path :=
  ⟨named, (mem_providers_iff.mp mem).1⟩

/-- The schema that a lookup finds comes from the one file that provides the name. -/
theorem providers_of_lookup {loaded : Loaded} (lazy : registry.phase ≠ .eagerLoaded)
    (answer : (registry.lookup files name).1 = .ok (some loaded)) :
    isSchemaName name ∧ ∃ file, registry.providers files name = [(loaded.path, file)] := by
  have found : registry.Finds files name (registry.lookup files name) := lookup_finds lazy
  rw [← Prod.eta (registry.lookup files name), answer] at found
  generalize (registry.lookup files name).2 = next at found
  cases found with
  | @kept named path file _ provided current =>
    have same : loaded.path = path ∧ loaded.modified = file.modified := by
      simpa using (Option.filter_eq_some_iff.mp current).2
    exact ⟨named, file, by rw [same.1, provided]⟩
  | @read named path file node provided _ _ => exact ⟨named, file, provided⟩

theorem makes_of_lookup {loaded : Loaded} (lazy : registry.phase ≠ .eagerLoaded)
    (answer : (registry.lookup files name).1 = .ok (some loaded)) :
    registry.Makes name loaded.path := by
  obtain ⟨named, file, provided⟩ := providers_of_lookup lazy answer
  have mem : (loaded.path, file) ∈ registry.providers files name := by simp [provided]
  exact makes_of_mem_providers named mem

/-- What is kept after all schemas have been loaded together comes from the files they were loaded
from. -/
theorem exists_provided_of_get? {provided : List (String × String × File)} {serial : Nat}
    {names : List String} {schemas : Entries Loaded} {loaded : Loaded}
    (all : loadAll provided serial names = .ok schemas) (found : schemas.get? name = some loaded) :
    ∃ file, (name, loaded.path, file) ∈ provided := by
  induction names generalizing serial schemas with
  | nil =>
    cases all
    cases found
  | cons first rest ih =>
    obtain ⟨path, file, node, others, single, _, more, rfl⟩ := loadAll_cons all
    by_cases same : first = name
    · subst same
      simp only [Entries.get?, if_true, Option.some.injEq] at found
      subst found
      have mem : (path, file) ∈
          (provided.filter fun entry => entry.1 = first).map Prod.snd := by simp [single]
      obtain ⟨⟨under, _⟩, mem, rfl⟩ := List.mem_map.mp mem
      obtain ⟨mem, equal⟩ := List.mem_filter.mp mem
      have equal : under = first := by simpa using equal
      exact ⟨file, equal ▸ mem⟩
    · exact ih more (by simpa [Entries.get?, same] using found)

/-- Every kept schema comes from a path that its name makes or, once all have been loaded together,
from a file of one tree that the name was made from. -/
structure Origins (registry : Registry) (trees : List FileTree) : Prop where
  made : registry.phase ≠ .eagerLoaded → ∀ name loaded,
    registry.schemas.get? name = some loaded → registry.Makes name loaded.path
  walked : registry.phase = .eagerLoaded → ∃ tree ∈ trees, ∀ name loaded,
    registry.schemas.get? name = some loaded →
      ∃ file, (name, loaded.path, file) ∈ registry.allProviders tree

namespace Origins

variable (h : registry.Origins trees)

include h

theorem mono {more : List FileTree} (sub : trees ⊆ more) : registry.Origins more := by
  refine ⟨h.made, fun final => ?_⟩
  obtain ⟨tree, mem, origin⟩ := h.walked final
  exact ⟨tree, sub mem, origin⟩

theorem forget (lazy : registry.phase ≠ .eagerLoaded) (name : String) :
    (registry.forget name).Origins trees := by
  refine ⟨fun _ other loaded found => ?_, fun final => absurd final lazy⟩
  by_cases same : other = name
  · rw [same] at found
    simp [Registry.forget] at found
  · apply h.made lazy other loaded
    rw [← found]
    exact (Entries.get?_erase_of_ne registry.schemas same).symm

theorem keep (lazy : registry.phase ≠ .eagerLoaded) {path : String} {file : File} (node : Node)
    (named : isSchemaName name) (provided : registry.providers files name = [(path, file)]) :
    (registry.keep name node path file.modified).2.Origins trees := by
  refine ⟨fun _ other loaded found => ?_, fun final => by cases final⟩
  by_cases same : other = name
  · rw [same] at found ⊢
    simp only [Registry.keep, Entries.get?_insert_self, Option.some.injEq] at found
    subst found
    have mem : (path, file) ∈ registry.providers files name := by simp [provided]
    exact makes_of_mem_providers named mem
  · apply h.made lazy other loaded
    rw [← found]
    exact (Entries.get?_insert_of_ne registry.schemas _ same).symm

theorem finds (lazy : registry.phase ≠ .eagerLoaded)
    {outcome : Except SchemaError (Option Loaded) × Registry}
    (found : registry.Finds files name outcome) : outcome.2.Origins trees := by
  cases found with
  | unnamed => exact h
  | missing => exact h.forget lazy name
  | kept => exact h
  | broken => exact h
  | read named provided _ _ => exact h.keep lazy _ named provided
  | collision => exact h

theorem lookup (files : FileTree) (name : String) :
    (registry.lookup files name).2.Origins trees := by
  by_cases final : registry.phase = .eagerLoaded
  · rw [lookup_of_final final]
    exact h
  · exact h.finds final (lookup_finds final)

theorem reload (files : FileTree) (name : String) :
    (registry.reload files name).2.Origins trees := by
  by_cases final : registry.phase = .eagerLoaded
  · rw [reload_of_final final]
    exact h
  · rw [reload_of_lazy final]
    exact (h.forget final name).lookup files name

theorem eagerLoad (now : files ∈ trees) : (registry.eagerLoad files).2.Origins trees := by
  by_cases final : registry.phase = .eagerLoaded
  · rw [eagerLoad_of_final final]
    exact h
  · rcases eagerLoad_cases final files with ⟨error, failed⟩ | ⟨schemas, all, loaded⟩
    · rw [failed]
      exact h
    · rw [loaded]
      exact ⟨fun lazy => absurd rfl lazy,
        fun _ => ⟨files, now, fun name kept found => exists_provided_of_get? all found⟩⟩

end Origins

/-! ### Files of names -/

/-- The registry has one search root and the extensions that are tried unless others are given. -/
structure Searches (registry : Registry) (root : String) : Prop where
  roots_eq : registry.roots = [root]
  extensions_eq : registry.extensions = Settings.defaultExtensions

section Searches

variable {later : Registry} {files' : FileTree} {root synonym path path' : String}
  {file file' : File} {loaded found : Loaded}
  (searches : registry.Searches root) (searches' : later.Searches root)

include searches

theorem Searches.exists_extension (made : registry.Makes name path) : isSchemaName name ∧
    ∃ extension ∈ registry.extensions, IsExtension extension ∧
      path = joinPath root (name ++ "." ++ extension) := by
  obtain ⟨named, root', known, extension, listed, same⟩ := made
  rw [searches.roots_eq, List.mem_singleton] at known
  have default : extension ∈ Settings.defaultExtensions := searches.extensions_eq ▸ listed
  exact ⟨named, extension, listed, isExtension_of_default default, known ▸ same⟩

include searches'

theorem plainSteps_of_makes (made : registry.Makes name loaded.path)
    (made' : later.Makes synonym found.path) (shares : loaded.SharesFile found) :
    plainSteps name = plainSteps synonym := by
  obtain ⟨tree, tree', location, located, located'⟩ := shares
  obtain ⟨named, extension, _, ext, path⟩ := searches.exists_extension made
  obtain ⟨named', extension', _, ext', path'⟩ := searches'.exists_extension made'
  rw [path] at located
  rw [path'] at located'
  exact (FileTree.plainSteps_of_locate named named' ext ext' located located').1

/-- Two lookups come to the schemas of one file for names with the same plain steps only. -/
theorem plainSteps_of_lookup (lazy : registry.phase ≠ .eagerLoaded)
    (lazy' : later.phase ≠ .eagerLoaded)
    (answer : (registry.lookup files name).1 = .ok (some loaded))
    (answer' : (later.lookup files' synonym).1 = .ok (some found))
    (shares : loaded.SharesFile found) : plainSteps name = plainSteps synonym := by
  have made := makes_of_lookup lazy answer
  have made' := makes_of_lookup lazy' answer'
  exact plainSteps_of_makes searches searches' made made' shares

/-- Names with the same plain steps are provided by the same file, if each has one. -/
theorem locate_of_providers (named : isSchemaName name) (named' : isSchemaName synonym)
    (provided : registry.providers files name = [(path, file)])
    (provided' : later.providers files synonym = [(path', file')])
    (same : plainSteps name = plainSteps synonym) : files.locate path = files.locate path' := by
  have mem : (path', file') ∈ later.providers files synonym := by simp [provided']
  have there : files.fileAt? path' = some file' := fileAt?_of_mem_providers mem
  obtain ⟨_, extension, listed, ext, rfl⟩ :=
    searches'.exists_extension (makes_of_mem_providers named' mem)
  have way : files.locate (joinPath root (name ++ "." ++ extension)) =
      files.locate (joinPath root (synonym ++ "." ++ extension)) :=
    FileTree.locate_of_plainSteps named named' ext.flat same
  have here : files.fileAt? (joinPath root (name ++ "." ++ extension)) = some file' := by
    rw [FileTree.fileAt?, way]
    exact there
  have listed : extension ∈ registry.extensions := by
    rw [searches.extensions_eq, ← searches'.extensions_eq]
    exact listed
  have mem' :
      (joinPath root (name ++ "." ++ extension), file') ∈ registry.providers files name :=
    mem_providers_iff.mpr ⟨⟨root, by simp [searches.roots_eq], extension, listed, rfl⟩, here⟩
  rw [provided, List.mem_singleton] at mem'
  rw [← (Prod.mk.inj mem').1, way]

/-- In one tree, lookups of names with the same plain steps come to the schemas of one file. -/
theorem sharesFile_of_lookup (lazy : registry.phase ≠ .eagerLoaded)
    (lazy' : later.phase ≠ .eagerLoaded)
    (answer : (registry.lookup files name).1 = .ok (some loaded))
    (answer' : (later.lookup files synonym).1 = .ok (some found))
    (same : plainSteps name = plainSteps synonym) : loaded.SharesFile found := by
  obtain ⟨named, file, provided⟩ := providers_of_lookup lazy answer
  obtain ⟨named', file', provided'⟩ := providers_of_lookup lazy' answer'
  have mem : (loaded.path, file) ∈ registry.providers files name := by simp [provided]
  obtain ⟨location, located, _⟩ := FileTree.exists_of_fileAt? (fileAt?_of_mem_providers mem)
  have equal := locate_of_providers searches searches' named named' provided provided' same
  exact ⟨files, files, location, located, equal ▸ located⟩

end Searches

/-- A file that a walk through the roots has come by tells its name. -/
theorem locate_of_mem_allProviders {root path : String} {file : File} (sound : files.Sound)
    (roots_eq : registry.roots = [root])
    (mem : (name, path, file) ∈ registry.allProviders files) :
    ∃ top inner, files.locate root = some top ∧ files.locate path = some (top ++ inner) ∧
      name = schemaName inner := by
  rw [allProviders_eq, roots_eq, List.flatMap_singleton] at mem
  obtain ⟨⟨inner, content⟩, below, provided⟩ := List.mem_filterMap.mp mem
  obtain ⟨_, top, located, there⟩ := FileTree.mem_filesBelow.mp below
  have placed : files.Placed (top ++ inner) := sound.placed _ there
  have named : name = schemaName inner ∧
      path = if inner.isEmpty then root else joinPath root ("/".intercalate inner) := by
    unfold provided? at provided
    dsimp only at provided
    split at provided
    · split at provided
      · cases provided
        exact ⟨rfl, rfl⟩
      · cases provided
    · cases provided
  refine ⟨top, inner, located, ?_, named.1⟩
  rw [named.2]
  cases inner with
  | nil => simpa using located
  | cons first rest =>
    have inward (step : String) (mem : step ∈ first :: rest) : Inward step :=
      placed.inward step (List.mem_append_right _ mem)
    have steps := pathSteps_intercalate (List.cons_ne_nil first rest)
      fun step mem => (inward step mem).flat
    rw [List.isEmpty_cons, if_neg Bool.false_ne_true,
      FileTree.locate_joinPath root (relative_intercalate (List.cons_ne_nil first rest) inward),
      located, Option.bind_some, steps, FileTree.walk_of_placed placed]

/-- Once all schemas have been loaded together, no two of them share a file. -/
theorem Origins.eq_of_sharesFile {root other : String} {loaded found : Loaded}
    (origins : registry.Origins trees) (final : registry.phase = .eagerLoaded)
    (roots_eq : registry.roots = [root]) (sound : ∀ tree ∈ trees, tree.Sound)
    (kept : registry.schemas.get? name = some loaded)
    (kept' : registry.schemas.get? other = some found) (shares : loaded.SharesFile found) :
    name = other := by
  obtain ⟨tree, tree', location, located, located'⟩ := shares
  obtain ⟨walked, mem, origin⟩ := origins.walked final
  obtain ⟨file, provided⟩ := origin name loaded kept
  obtain ⟨file', provided'⟩ := origin other found kept'
  obtain ⟨top, inner, there, place, rfl⟩ :=
    locate_of_mem_allProviders (sound walked mem) roots_eq provided
  obtain ⟨top', inner', there', place', rfl⟩ :=
    locate_of_mem_allProviders (sound walked mem) roots_eq provided'
  have same : top ++ inner = top' ++ inner' := by
    rw [← FileTree.locate_unique located place, ← FileTree.locate_unique located' place']
  rw [FileTree.locate_unique there there', List.append_cancel_left_eq] at same
  rw [same]

end Registry

namespace Session

open Registry

theorem run_origins (roots extensions : List String) (files : FileTree) (events : List Event) :
    ((start roots extensions files).run events).2.registry.Origins (history files events) := by
  have both : ((start roots extensions files).run events).2.files ∈ history files events ∧
      ((start roots extensions files).run events).2.registry.Origins (history files events) := by
    induction events using run_induction (start roots extensions files) with
    | start =>
      refine ⟨by simp [start, history], ⟨fun _ _ _ found => ?_, fun final => ?_⟩⟩
      · cases found
      · cases final
    | step events answers now event h =>
      obtain ⟨current, origins⟩ := h
      have sub : history files events ⊆ history files (events ++ [event]) := by
        rw [history_append]
        exact List.subset_append_left ..
      have origins := origins.mono sub
      cases event with
      | change files => exact ⟨by simp [step, history_append, Event.tree?], origins⟩
      | lookup name => exact ⟨sub current, origins.lookup now.files name⟩
      | reload name => exact ⟨sub current, origins.reload now.files name⟩
      | eagerLoad => exact ⟨sub current, origins.eagerLoad (sub current)⟩
  exact both.2

/-- **A file has the names with its plain steps.** In a session with one root and the extensions
that are tried unless others are given: while schemas are loaded one by one, two names whose schemas
share a file have the same plain steps, at whatever times they are looked up or kept; at one time,
names with the same plain steps share a file. So no two names without idle steps do. Once all
schemas have been loaded together, no file is kept under two names at all. -/
theorem sharesFile_iff (root : String) (files : FileTree) (events more : List Event) :
    let now := ((start [root] Settings.defaultExtensions files).run events).2
    let later := (now.run more).2
    (later.registry.phase ≠ .eagerLoaded →
      (∀ name other loaded found,
        (now.registry.lookup now.files name).1 = .ok (some loaded) →
        (later.registry.lookup later.files other).1 = .ok (some found) →
        (loaded.SharesFile found → plainSteps name = plainSteps other) ∧
        (now.files = later.files → plainSteps name = plainSteps other →
          loaded.SharesFile found)) ∧
      ∀ name other loaded found, later.registry.schemas.get? name = some loaded →
        later.registry.schemas.get? other = some found → loaded.SharesFile found →
          plainSteps name = plainSteps other) ∧
    (later.registry.phase = .eagerLoaded → (∀ tree ∈ history files (events ++ more), tree.Sound) →
      ∀ name other loaded found, later.registry.schemas.get? name = some loaded →
        later.registry.schemas.get? other = some found → loaded.SharesFile found → name = other) ∧
    ∀ name other, (∀ step ∈ pathSteps name, Inward step) →
      (∀ step ∈ pathSteps other, Inward step) → plainSteps name = plainSteps other →
        name = other := by
  intro now later
  have whole : later = ((start [root] Settings.defaultExtensions files).run (events ++ more)).2 :=
    (congrArg Prod.snd (run_append _ events more)).symm
  have searches {events : List Event} {session : Session}
      (ran : session = ((start [root] Settings.defaultExtensions files).run events).2) :
      session.registry.Searches root := by
    obtain ⟨_, tracks⟩ := run_tracks [root] Settings.defaultExtensions files events
    rw [ran]
    exact ⟨tracks.roots_eq, tracks.extensions_eq⟩
  have searchesNow : now.registry.Searches root := searches rfl
  have searchesLater : later.registry.Searches root := searches whole
  have origins : later.registry.Origins (history files (events ++ more)) := by
    rw [whole]
    exact run_origins _ _ files (events ++ more)
  refine ⟨fun lazy => ⟨?_, ?_⟩, ?_, fun name other => plainSteps_inj⟩
  · intro name other loaded found answer answer'
    have lazyNow : now.registry.phase ≠ .eagerLoaded := by
      intro final
      have same : later.registry = now.registry := run_of_final now final more
      exact lazy (same ▸ final)
    refine ⟨plainSteps_of_lookup searchesNow searchesLater lazyNow lazy answer answer', ?_⟩
    intro unchanged same
    rw [← unchanged] at answer'
    exact sharesFile_of_lookup searchesNow searchesLater lazyNow lazy answer answer' same
  · intro name other loaded found kept kept' shares
    have made := origins.made lazy name loaded kept
    have made' := origins.made lazy other found kept'
    exact plainSteps_of_makes searchesLater searchesLater made made' shares
  · intro final sound name other loaded found kept kept' shares
    exact origins.eq_of_sharesFile final searchesLater.roots_eq sound kept kept' shares

theorem exists_of_succeeds {result : Except SchemaError (Option Loaded)}
    (h : (Answer.schema result).succeeds = true) : ∃ loaded, result = .ok (some loaded) := by
  match result, h with
  | .ok (some loaded), _ => exact ⟨loaded, rfl⟩

/-- Two names of one file that have the same plain steps. -/
theorem sharesFile_iff_nested :
    let b : File := { contents := "\"string\"".toUTF8, modified := 1 }
    let files := FileTree.write {} "lib/nested/b.json" b
    let now := ((start ["lib"] Settings.defaultExtensions files).run []).2
    let later := (now.run [.lookup "nested/b"]).2
    later.registry.phase ≠ .eagerLoaded ∧ ∃ loaded found,
      (now.registry.lookup now.files "nested/b").1 = .ok (some loaded) ∧
      (later.registry.lookup later.files "nested/.//b").1 = .ok (some found) ∧
      loaded.SharesFile found := by
  intro b files now later
  have lazy : later.registry.phase ≠ .eagerLoaded := by decide +kernel
  have first : (Answer.schema (now.registry.lookup now.files "nested/b").1).succeeds = true := by
    decide +kernel
  have second : (Answer.schema
      (later.registry.lookup later.files "nested/.//b").1).succeeds = true := by
    decide +kernel
  obtain ⟨loaded, answer⟩ := exists_of_succeeds first
  obtain ⟨found, answer'⟩ := exists_of_succeeds second
  have shares := ((sharesFile_iff "lib" files [] [.lookup "nested/b"]).1 lazy).1
    "nested/b" "nested/.//b" loaded found answer answer'
  exact ⟨lazy, loaded, found, answer, answer', shares.2 rfl (by decide)⟩

/-- A file is kept under two names, since its path is written in two ways. -/
theorem nested_has_two_names :
    let b : File := { contents := "\"string\"".toUTF8, modified := 1 }
    let files := FileTree.write {} "lib/nested/b.json" b
    let now := (start ["lib"] Settings.defaultExtensions files).run
      [.lookup "nested/b", .lookup "nested//b"]
    now.1.all Answer.succeeds ∧ now.2.registry.phase = .partiallyLoaded ∧
      ("nested/b" ∈ now.2.registry.names ∧ "nested//b" ∈ now.2.registry.names) ∧
      ((now.2.registry.schemas.get? "nested/b").map Loaded.path = some "lib/nested/b.json" ∧
        (now.2.registry.schemas.get? "nested//b").map Loaded.path = some "lib/nested//b.json") ∧
      files.locate "lib/nested/b.json" = some ["lib", "nested", "b.json"] ∧
      files.locate "lib/nested//b.json" = some ["lib", "nested", "b.json"] := by
  intro b files now
  have keys : now.2.registry.schemas.keys = ["nested/b", "nested//b"] := by decide +kernel
  have listed : "nested/b" ∈ now.2.registry.names ∧ "nested//b" ∈ now.2.registry.names := by
    simp only [Registry.names, List.mem_mergeSort, keys]
    decide
  exact ⟨by decide +kernel, by decide +kernel, listed, by decide +kernel, by decide +kernel⟩

end Session

end SchemaCast
