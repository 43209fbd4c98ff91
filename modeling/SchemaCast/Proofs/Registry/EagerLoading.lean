import SchemaCast.Proofs.Registry.Files
import SchemaCast.Proofs.Registry.Lookup
import Mathlib.Data.List.Perm.Basic

/-!
# Loading all schemas together

Loading all schemas together goes from files to names, while a lookup goes from a name to files. For
a name whose steps lead inward both come to the same files: below each search root with a name, the
files that are found for the name are those that the name is made from, in another order perhaps. So
whatever is loaded together is what lookups below these roots find one by one. Below the root with
the empty name only lookups find anything.
-/
namespace SchemaCast

namespace Registry

variable {registry : Registry} {files : FileTree} {root name : String}

/-! ### From a file to its name -/

/-- The name, path and file that a registry makes of a file below a search root. -/
def provided? (registry : Registry) (root : String) (entry : Location × File) :
    Option (String × String × File) :=
  let path := if entry.1.isEmpty then root else joinPath root ("/".intercalate entry.1)
  match pathExtension? path with
  | some extension =>
    if registry.extensions.contains extension then some (schemaName entry.1, path, entry.2)
    else none
  | none => none

theorem allProviders_eq (registry : Registry) (files : FileTree) :
    registry.allProviders files =
      registry.roots.flatMap fun root =>
        (files.filesBelow root).filterMap (registry.provided? root) := rfl

/-- Files whose names and locations tell the names of their schemas. -/
structure Tellable (files : FileTree) : Prop where
  sound : files.Sound
  stems : ∀ entry ∈ files.files, ∀ last ∈ entry.1.getLast?, (splitExtension last).1 ≠ "."

section Below

variable (tellable : Tellable files) (directory : files.fileAt? root = none)
  {entry : Location × File} (below : entry ∈ files.filesBelow root)

include tellable directory below

/-- A file below a root that is no file itself has a name there, and it is found when going on from
the root. -/
theorem exists_last_of_below : ∃ outer last, entry.1 = outer ++ [last] ∧
    (∀ step ∈ outer ++ [last], Inward step) ∧ (splitExtension last).1 ≠ "." ∧
      files.fileAt? (joinPath root ("/".intercalate (outer ++ [last]))) = some entry.2 := by
  obtain ⟨inner, file⟩ := entry
  obtain ⟨_, top, located, mem⟩ := FileTree.mem_filesBelow.mp below
  have placed : files.Placed (top ++ inner) := tellable.sound.placed _ mem
  have content : files.file? (top ++ inner) = some file := FileTree.file?_of_mem tellable.sound mem
  rcases List.eq_nil_or_concat' inner with rfl | ⟨outer, last, rfl⟩
  · have found : files.fileAt? root = some file := by
      rw [FileTree.fileAt?, located]
      simpa using content
    rw [directory] at found
    cases found
  · have inward (step : String) (mem : step ∈ outer ++ [last]) : Inward step :=
      placed.inward step (List.mem_append_right _ mem)
    have steps := pathSteps_intercalate (by simp) fun step mem => (inward step mem).flat
    refine ⟨outer, last, rfl, inward, tellable.stems _ mem last (by simp), ?_⟩
    rw [FileTree.fileAt?, FileTree.locate_joinPath root (relative_intercalate (by simp) inward),
      located, Option.bind_some, steps, FileTree.walk_of_placed placed]
    exact content

/-- A file that is loaded together with the others is one that its name is made from. -/
theorem path_of_provided? {path : String} {file : File}
    (provided : registry.provided? root entry = some (name, path, file)) :
    path = joinPath root ("/".intercalate entry.1) ∧ file = entry.2 ∧ name ≠ "" ∧
      files.fileAt? path = some file ∧
      ∃ extension ∈ registry.extensions, path = joinPath root (name ++ "." ++ extension) := by
  obtain ⟨outer, last, same, inward, notHere, there⟩ :=
    exists_last_of_below tellable directory below
  have ending := pathExtension?_joinPath root
    (fun step mem => (inward step (List.mem_append_left _ mem)).flat) (inward last (by simp))
  cases divided : splitExtension last with
  | mk stem extension? =>
    rw [divided] at ending notHere
    cases extension? with
    | none => simp [provided?, same, ending] at provided
    | some extension =>
      have named := schemaName_append outer divided notHere
      simp only [provided?, same, List.isEmpty_iff, List.append_eq_nil_iff, List.cons_ne_self,
        and_false, if_false, ending, named] at provided
      split at provided
      · next listed =>
        cases provided
        obtain ⟨lastEq, given⟩ := eq_of_splitExtension divided
        refine ⟨by rw [same], rfl, ?_, there, extension, by simpa using listed, ?_⟩
        · exact intercalate_ne_empty outer given
        · rw [String.append_assoc, intercalate_append, ← String.append_assoc, ← lastEq]
      · cases provided

end Below

/-- A file that a name is made from is loaded together with the others. -/
theorem provided?_of_path {outer : List String} {last extension : String} {file : File}
    (nonempty : root ≠ "") (inward : ∀ step ∈ outer ++ [last], Inward step)
    (named : "/".intercalate (outer ++ [last]) = name) (listed : extension ∈ registry.extensions)
    (plain : '.' ∉ extension.toList ∧ '/' ∉ extension.toList)
    (there : files.fileAt? (joinPath root (name ++ "." ++ extension)) = some file) :
    ∃ entry ∈ files.filesBelow root, registry.provided? root entry =
      some (name, joinPath root (name ++ "." ++ extension), file) := by
  have path : name ++ "." ++ extension =
      "/".intercalate (outer ++ [last ++ "." ++ extension]) := by
    rw [← named, String.append_assoc, intercalate_append, ← String.append_assoc]
  have inwardLast : Inward last := inward last (by simp)
  have inwardFile : Inward (last ++ "." ++ extension) := inward_append inwardLast plain.1 plain.2
  have inwardSteps (step : String) (mem : step ∈ outer ++ [last ++ "." ++ extension]) :
      Inward step := by
    rcases List.mem_append.mp mem with mem | mem
    · exact inward step (List.mem_append_left _ mem)
    · rw [List.mem_singleton.mp mem]
      exact inwardFile
  have divided := splitExtension_append inwardLast.given plain.1
  have ending := pathExtension?_joinPath root
    (fun step mem => (inward step (List.mem_append_left _ mem)).flat) inwardFile
  rw [path] at there ⊢
  refine ⟨(outer ++ [last ++ "." ++ extension], file), ?_, ?_⟩
  · obtain ⟨location, located, mem⟩ := FileTree.exists_of_fileAt? there
    rw [FileTree.locate_joinPath root (relative_intercalate (by simp) inwardSteps),
      pathSteps_intercalate (by simp) fun step mem => (inwardSteps step mem).flat] at located
    obtain ⟨top, located, walked⟩ := Option.bind_eq_some_iff.mp located
    rw [FileTree.walk_inward inwardSteps walked] at mem
    exact FileTree.mem_filesBelow.mpr ⟨nonempty, top, located, mem⟩
  · have name := schemaName_append outer divided inwardLast.notHere
    simp [provided?, ending, divided, name, named, listed]

/-! ### All files of a name -/

/-- The files that are loaded together under a name. -/
def loadedUnder (registry : Registry) (files : FileTree) (name : String) : List (String × File) :=
  ((registry.allProviders files).filter fun entry => entry.1 = name).map Prod.snd

/-- Nothing is loaded below the root with the empty name. -/
theorem loadedUnder_filter (roots extensions : List String) (files : FileTree) (name : String) :
    (ofRoots (roots.filter (· ≠ "")) extensions).loadedUnder files name =
      (ofRoots roots extensions).loadedUnder files name := by
  have provided : (ofRoots (roots.filter (· ≠ "")) extensions).allProviders files =
      (ofRoots roots extensions).allProviders files := by
    simp only [allProviders_eq, ofRoots]
    induction roots with
    | nil => rfl
    | cons root rest ih =>
      by_cases nonempty : root = ""
      · rw [List.filter_cons_of_neg (by simpa using nonempty), ih, nonempty]
        rfl
      · rw [List.filter_cons_of_pos (by simpa using nonempty)]
        exact congrArg (_ ++ ·) ih
  rw [loadedUnder, provided, loadedUnder]

theorem mem_loadedUnder {path : String} {file : File} :
    (path, file) ∈ registry.loadedUnder files name ↔
      ∃ root ∈ registry.roots, ∃ entry ∈ files.filesBelow root,
        registry.provided? root entry = some (name, path, file) := by
  simp [loadedUnder, allProviders_eq]

theorem nodup_provided (tellable : Tellable files) (directory : files.fileAt? root = none) :
    ((files.filesBelow root).filterMap (registry.provided? root)).Nodup := by
  have distinct := FileTree.nodup_filesBelow tellable.sound root
  refine List.Pairwise.filterMap _ ?_ (List.Pairwise.and_mem.mp distinct)
  intro entry other ⟨below, below', different⟩ result provided result' provided' same
  subst same
  obtain ⟨name, path, file⟩ := result
  obtain ⟨joined, content, _⟩ := path_of_provided? tellable directory below provided
  obtain ⟨joined', content', _⟩ := path_of_provided? tellable directory below' provided'
  obtain ⟨outer, last, steps, inward, _⟩ := exists_last_of_below tellable directory below
  obtain ⟨outer', last', steps', inward', _⟩ := exists_last_of_below tellable directory below'
  have location : entry.1 = other.1 := by
    have whole := joinPath_inj.mp (joined.symm.trans joined')
    rw [steps, steps'] at whole ⊢
    exact intercalate_inj (by simp) (by simp) (fun step mem => (inward step mem).flat)
      (fun step mem => (inward' step mem).flat) whole
  exact different (Prod.ext location (content.symm.trans content'))

section Names

variable (tellable : Tellable files)
  (plain : ∀ extension ∈ registry.extensions, '.' ∉ extension.toList ∧ '/' ∉ extension.toList)
  {outer : List String} {last : String} (inward : ∀ step ∈ outer ++ [last], Inward step)
  (named : "/".intercalate (outer ++ [last]) = name)

include tellable plain inward named

theorem exists_provided?_iff (nonempty : root ≠ "") (directory : files.fileAt? root = none)
    (path : String) (file : File) :
    (∃ entry ∈ files.filesBelow root,
      registry.provided? root entry = some (name, path, file)) ↔
    ∃ extension ∈ registry.extensions,
      joinPath root (name ++ "." ++ extension) = path ∧ files.fileAt? path = some file := by
  constructor
  · intro ⟨entry, below, provided⟩
    obtain ⟨_, _, _, there, extension, listed, same⟩ :=
      path_of_provided? tellable directory below provided
    exact ⟨extension, listed, same.symm, there⟩
  · rintro ⟨extension, listed, rfl, there⟩
    exact provided?_of_path nonempty inward named listed (plain extension listed) there

/-- Loading all schemas together goes over the files that a name is made from. -/
theorem loadedUnder_perm (nonempty : ∀ root ∈ registry.roots, root ≠ "")
    (directories : ∀ root ∈ registry.roots, files.fileAt? root = none)
    (distinct : registry.extensions.Nodup) :
    (registry.loadedUnder files name).Perm (registry.providers files name) := by
  rw [loadedUnder, allProviders_eq, List.filter_flatMap, List.map_flatMap, providers]
  apply List.Perm.flatMap_left
  intro root mem
  have directory := directories root mem
  refine (List.perm_ext_iff_of_nodup ?_ ?_).mpr fun entry => ?_
  · -- Under one name, entries differ in what is behind the name.
    refine List.Nodup.map_on ?_ ((nodup_provided tellable directory).filter _)
    intro entry found other found' same
    have under : entry.1 = name := by simpa using (List.mem_filter.mp found).2
    have under' : other.1 = name := by simpa using (List.mem_filter.mp found').2
    exact Prod.ext (under.trans under'.symm) same
  · -- Different extensions make different paths.
    refine List.Nodup.filterMap ?_ distinct
    intro extension extension' entry found found'
    obtain ⟨_, _, rfl⟩ := Option.map_eq_some_iff.mp found
    obtain ⟨_, _, same⟩ := Option.map_eq_some_iff.mp found'
    have paths := joinPath_inj.mp (congrArg Prod.fst same).symm
    exact (String.append_right_inj _).mp paths
  · obtain ⟨path, file⟩ := entry
    have same := exists_provided?_iff tellable plain inward named (nonempty root mem) directory
      path file
    simp only [List.mem_map, List.mem_filter, List.mem_filterMap, decide_eq_true_eq,
      Option.map_eq_some_iff, Prod.mk.injEq, Prod.exists] at same ⊢
    constructor
    · rintro ⟨_, _, _, ⟨⟨inner, content, below, provided⟩, rfl⟩, rfl, rfl⟩
      obtain ⟨extension, listed, rfl, there⟩ := same.mp ⟨inner, content, below, provided⟩
      exact ⟨extension, listed, _, there, rfl, rfl⟩
    · rintro ⟨extension, listed, _, there, rfl, rfl⟩
      obtain ⟨inner, content, below, provided⟩ := same.mpr ⟨extension, listed, rfl, there⟩
      exact ⟨_, _, _, ⟨⟨inner, content, below, provided⟩, rfl⟩, rfl, rfl⟩

end Names

/-! ### Reading all files -/

theorem mem_distinctNames {names : List String} : name ∈ distinctNames names ↔ name ∈ names := by
  simp [distinctNames]

section Loading

variable {provided : List (String × String × File)} {serial : Nat} {first : String}
  {names : List String} {schemas : Entries Loaded}

/-- The schemas of names can be loaded only if each of them has one file. -/
theorem loadAll_cons (loaded : loadAll provided serial (first :: names) = .ok schemas) :
    ∃ path file node others,
      (provided.filter fun entry => entry.1 = first).map Prod.snd = [(path, file)] ∧
      readSchema path file = .ok node ∧ loadAll provided (serial + 1) names = .ok others ∧
      schemas = (first, { node, path, modified := file.modified, serial }) :: others := by
  rw [loadAll] at loaded
  split at loaded
  · next path file single =>
    split at loaded
    · cases loaded
    · next node read =>
      split at loaded
      · cases loaded
      · next others found =>
        cases loaded
        exact ⟨path, file, node, others, single, read, found, rfl⟩
  · cases loaded

theorem keys_loadAll (loaded : loadAll provided serial names = .ok schemas) :
    schemas.keys = names := by
  induction names generalizing serial schemas with
  | nil =>
    cases loaded
    rfl
  | cons first rest ih =>
    obtain ⟨_, _, _, others, _, _, found, rfl⟩ := loadAll_cons loaded
    exact congrArg (first :: ·) (ih found)

/-- The schema in the one file of a name is kept. -/
theorem get?_loadAll (loaded : loadAll provided serial names = .ok schemas) (mem : name ∈ names) :
    ∃ path file schema,
      (provided.filter fun entry => entry.1 = name).map Prod.snd = [(path, file)] ∧
        readSchema path file = .ok schema.node ∧ schemas.get? name = some schema := by
  induction names generalizing serial schemas with
  | nil => cases mem
  | cons first rest ih =>
    obtain ⟨path, file, node, others, single, read, found, rfl⟩ := loadAll_cons loaded
    by_cases same : first = name
    · subst same
      refine ⟨path, file, { node, path, modified := file.modified, serial }, single, read, ?_⟩
      simp [Entries.get?]
    · have later : name ∈ rest := (List.mem_cons.mp mem).resolve_left (Ne.symm same)
      obtain ⟨path, file, schema, single, read, kept⟩ := ih found later
      exact ⟨path, file, schema, single, read, by simpa [Entries.get?, same] using kept⟩

end Loading

theorem loadedUnder_eq_nil_iff : registry.loadedUnder files name = [] ↔
    name ∉ (registry.allProviders files).map Prod.fst := by
  rw [loadedUnder, List.map_eq_nil_iff, List.filter_eq_nil_iff, List.mem_map, not_exists]
  simp only [decide_eq_true_eq, not_and]

/-- A name under which files are loaded is not empty. -/
theorem loadedUnder_empty (tellable : Tellable files)
    (directories : ∀ root ∈ registry.roots, files.fileAt? root = none) :
    registry.loadedUnder files "" = [] := by
  refine List.eq_nil_iff_forall_not_mem.mpr fun ⟨path, file⟩ mem => ?_
  obtain ⟨root, known, entry, below, provided⟩ := mem_loadedUnder.mp mem
  exact (path_of_provided? tellable (directories root known) below provided).2.2.1 rfl

/-- Once all schemas are loaded together, a name has the schema in the one file that was loaded
under it, or none. -/
theorem schemaOf_eagerLoad (lazy : registry.phase ≠ .eagerLoaded)
    (loaded : (registry.eagerLoad files).1 = .ok ()) (tree : FileTree) (name : String) :
    (registry.loadedUnder files name = [] ∧
      schemaOf ((registry.eagerLoad files).2.lookup tree name).1 = .ok none) ∨
    ∃ path file node, registry.loadedUnder files name = [(path, file)] ∧
      readSchema path file = .ok node ∧
      schemaOf ((registry.eagerLoad files).2.lookup tree name).1 = .ok (some node) := by
  rcases eagerLoad_cases lazy files with ⟨error, failed⟩ | ⟨schemas, all, done⟩
  · rw [failed] at loaded
    cases loaded
  · rw [done, lookup_of_final rfl]
    show _ ∧ Except.ok ((schemas.get? name).map Loaded.node) = _ ∨ ∃ path file node, _ ∧ _ ∧
      Except.ok ((schemas.get? name).map Loaded.node) = _
    by_cases mem : name ∈ (registry.allProviders files).map Prod.fst
    · right
      obtain ⟨path, file, schema, single, read, kept⟩ :=
        get?_loadAll all (mem_distinctNames.mpr mem)
      exact ⟨path, file, schema.node, single, read, by rw [kept]; rfl⟩
    · left
      have unknown : schemas.get? name = none := by
        rw [Entries.get?_eq_none_iff, keys_loadAll all, mem_distinctNames]
        exact mem
      exact ⟨loadedUnder_eq_nil_iff.mpr mem, by rw [unknown]; rfl⟩

/-- If lookups in a registry go over the files that are loaded together under a name, they find the
schema that is kept for it. -/
theorem schemaOf_eagerLoad_of_perm (lazy : registry.phase ≠ .eagerLoaded)
    (loaded : (registry.eagerLoad files).1 = .ok ()) {other : Registry} (named : isSchemaName name)
    (perm : (registry.loadedUnder files name).Perm (other.providers files name)) :
    schemaOf ((registry.eagerLoad files).2.lookup files name).1 = other.find files name := by
  rcases schemaOf_eagerLoad lazy loaded files name with
    ⟨nothing, none⟩ | ⟨path, file, node, single, read, found⟩
  · rw [nothing] at perm
    rw [none, find, if_pos named, List.nil_perm.mp perm]
  · rw [single] at perm
    rw [found, find_of_providers named (List.singleton_perm.mp perm).symm, read]
    rfl

end Registry

end SchemaCast
