import SchemaCast.Proofs.Registry.EagerLoading

/-!
# The order of files

A disk may list the files below a directory in any order. What is loaded together does not depend on
it: files are gathered by name first, and the names are gone through in their own order, so the first
name that several files provide, or whose file cannot be read, decides on the error. Only the files of
a collision come in the order in which they are listed.
-/
namespace SchemaCast

/-- One error, but for the order in which the files of a collision are listed. -/
inductive SchemaError.SameButOrder : SchemaError → SchemaError → Prop where
  | same (error : SchemaError) : SameButOrder error error
  | collision {name : String} {paths paths' : List String} (perm : paths.Perm paths') :
      SameButOrder (.collision name paths) (.collision name paths')

namespace Registry

variable {registry : Registry} {files : FileTree}

/-! ### Walks -/

/-- For each search root in turn a list of the files below it, in any order. -/
def Walks (registry : Registry) (files : FileTree) (walks : List (List (Location × File))) : Prop :=
  List.Forall₂ (fun root walk => walk.Perm (files.filesBelow root)) registry.roots walks

/-- All files that have one of the extensions, as they come on walks below the search roots, by the
name of the schema in them. -/
def foundOn (registry : Registry) (walks : List (List (Location × File))) :
    List (String × String × File) :=
  (registry.roots.zip walks).flatMap fun part => part.2.filterMap (registry.provided? part.1)

/-- Read the schemas of names that files provide, in order; the first error ends it. The files of a
collision are listed as they are arranged. -/
def loadArranged (arrange : List String → List String) (found : List (String × String × File))
    (serial : Nat) : List String → Except SchemaError (Entries Loaded)
  | [] => .ok []
  | name :: rest =>
    match (found.filter fun entry => entry.1 = name).map Prod.snd with
    | [(path, file)] =>
      match readSchema path file with
      | .error error => .error error
      | .ok node =>
        match loadArranged arrange found (serial + 1) rest with
        | .error error => .error error
        | .ok others =>
          .ok ((name, { node, path, modified := file.modified, serial }) :: others)
    | several => .error (.collision name (arrange (several.map Prod.fst)))

/-- A registry with all schemas final, if they could be loaded. -/
def conclude (registry : Registry) :
    Except SchemaError (Entries Loaded) → Except SchemaError Unit × Registry
  | .error error => (.error error, registry)
  | .ok schemas =>
    (.ok (),
      { registry with
        phase := .eagerLoaded
        schemas
        serial := registry.serial + schemas.length })

/-- Read all schema files that come on walks below the search roots, and list the files of a collision
in the order in which they come. -/
def eagerLoadOn (registry : Registry) (walks : List (List (Location × File))) :
    Except SchemaError Unit × Registry :=
  if registry.phase = .eagerLoaded then (.error .alreadyEagerLoaded, registry)
  else
    let found := registry.foundOn walks
    registry.conclude (loadArranged id found registry.serial (distinctNames (found.map Prod.fst)))

/-- The order in which the files of a collision are listed by `Registry.eagerLoad`. -/
def sortPaths (paths : List String) : List String := paths.mergeSort fun a b => decide (a ≤ b)

theorem loadAll_eq (found : List (String × String × File)) (serial : Nat) (names : List String) :
    loadAll found serial names = loadArranged sortPaths found serial names := by
  induction names generalizing serial with
  | nil => rfl
  | cons name rest ih =>
    rw [loadAll, loadArranged, ih]
    rfl

theorem eagerLoad_eq (lazy : registry.phase ≠ .eagerLoaded) : registry.eagerLoad files =
    registry.conclude (loadArranged sortPaths (registry.allProviders files) registry.serial
      (distinctNames ((registry.allProviders files).map Prod.fst))) := by
  rw [eagerLoad, if_neg lazy, ← loadAll_eq]
  dsimp only
  split
  · next failed => rw [failed]; rfl
  · next loaded => rw [loaded]; rfl

theorem foundOn_perm {walks : List (List (Location × File))} (walked : registry.Walks files walks) :
    (registry.foundOn walks).Perm (registry.allProviders files) := by
  rw [allProviders_eq, foundOn]
  have along {roots : List String} {walks : List (List (Location × File))}
      (walked : List.Forall₂ (fun root walk => walk.Perm (files.filesBelow root)) roots walks) :
      ((roots.zip walks).flatMap fun part => part.2.filterMap (registry.provided? part.1)).Perm
        (roots.flatMap fun root => (files.filesBelow root).filterMap (registry.provided? root)) := by
    induction walked with
    | nil => exact .refl _
    | cons first _ ih => exact (first.filterMap _).append ih
  exact along walked

theorem pairwise_sortPaths (texts : List String) : (sortPaths texts).Pairwise (· ≤ ·) := by
  have pairwise : (sortPaths texts).Pairwise fun a b => decide (a ≤ b) = true := by
    refine List.pairwise_mergeSort (fun a b c => ?_) (fun a b => ?_) texts
    · simpa only [decide_eq_true_eq] using String.le_trans
    · simpa only [Bool.or_eq_true, decide_eq_true_eq] using String.le_total a b
  simpa only [decide_eq_true_eq] using pairwise

theorem distinctNames_perm {names names' : List String} (perm : names.Perm names') :
    distinctNames names = distinctNames names' := by
  have sorted : (sortPaths names).Perm (sortPaths names') :=
    (List.mergeSort_perm _ _).trans (perm.trans (List.mergeSort_perm _ _).symm)
  show (sortPaths names).eraseDups = (sortPaths names').eraseDups
  rw [List.Perm.eq_of_pairwise (fun _ _ _ _ => String.le_antisymm) (pairwise_sortPaths names)
    (pairwise_sortPaths names') sorted]

/-! ### Two ways to load -/

/-- Two ways to load schemas come to the same ones, or to errors that differ in the order of the files
of a collision at most. -/
inductive SameLoad : Except SchemaError (Entries Loaded) → Except SchemaError (Entries Loaded) → Prop
    where
  | loaded (schemas : Entries Loaded) : SameLoad (.ok schemas) (.ok schemas)
  | failed {error error' : SchemaError} (same : error.SameButOrder error') :
      SameLoad (.error error) (.error error')

/-- Files that are found in another order are loaded alike: each name has the same files, and the
names come in the same order. -/
theorem sameLoad_of_perm {arrange arrange' : List String → List String}
    (arranged : ∀ paths, (arrange paths).Perm paths)
    (arranged' : ∀ paths, (arrange' paths).Perm paths)
    {found found' : List (String × String × File)} (perm : found.Perm found') (serial : Nat)
    (names : List String) :
    SameLoad (loadArranged arrange found serial names)
      (loadArranged arrange' found' serial names) := by
  induction names generalizing serial with
  | nil => exact .loaded []
  | cons name rest ih =>
    have files : ((found.filter fun entry => entry.1 = name).map Prod.snd).Perm
        ((found'.filter fun entry => entry.1 = name).map Prod.snd) := (perm.filter _).map _
    rw [loadArranged, loadArranged]
    generalize (found.filter fun entry => entry.1 = name).map Prod.snd = provided at files
    generalize (found'.filter fun entry => entry.1 = name).map Prod.snd = provided' at files
    -- Both ways come across one and the same file, or both end with a collision of this name.
    by_cases single : provided.length = 1
    · obtain ⟨⟨path, file⟩, rfl⟩ := List.length_eq_one_iff.mp single
      obtain rfl := List.singleton_perm.mp files
      dsimp only
      cases readSchema path file with
      | error error => exact .failed (.same error)
      | ok node =>
        dsimp only
        have others := ih (serial + 1)
        generalize loadArranged arrange found (serial + 1) rest = result at others ⊢
        generalize loadArranged arrange' found' (serial + 1) rest = result' at others ⊢
        cases others with
        | loaded schemas => exact .loaded _
        | failed same => exact .failed same
    · have single' : provided'.length ≠ 1 := files.length_eq ▸ single
      have paths := (arranged _).trans ((files.map Prod.fst).trans (arranged' _).symm)
      split
      · exact absurd rfl single
      · split
        · exact absurd rfl single'
        · exact .failed (.collision paths)

/-- Two outcomes of loading all schemas together: the registry is the same, and so is what is returned,
but for the order of the files of a collision. -/
structure SameOutcome (outcome outcome' : Except SchemaError Unit × Registry) : Prop where
  registry : outcome.2 = outcome'.2
  result : (outcome.1 = .ok () ∧ outcome'.1 = .ok ()) ∨
    ∃ error error', outcome.1 = .error error ∧ outcome'.1 = .error error' ∧
      error.SameButOrder error'

theorem SameLoad.conclude {result result' : Except SchemaError (Entries Loaded)}
    (same : SameLoad result result') (registry : Registry) :
    SameOutcome (registry.conclude result) (registry.conclude result') := by
  cases same with
  | loaded schemas => exact ⟨rfl, .inl ⟨rfl, rfl⟩⟩
  | failed same => exact ⟨rfl, .inr ⟨_, _, rfl, rfl, same⟩⟩

/-- In whichever order walks come across the files below each search root, all schemas together are
loaded with the same outcome, which is that of `Registry.eagerLoad`: the registry is in the same phase
and keeps the same schemas of the same files under the same names, or the error is the same, with the
files of a collision in another order perhaps. -/
theorem eagerLoad_of_walks {walks walks' : List (List (Location × File))}
    (walked : registry.Walks files walks) (walked' : registry.Walks files walks') :
    SameOutcome (registry.eagerLoadOn walks) (registry.eagerLoadOn walks') ∧
      SameOutcome (registry.eagerLoadOn walks) (registry.eagerLoad files) := by
  have found := foundOn_perm walked
  have found' := found.trans (foundOn_perm walked').symm
  have asFound : ∀ paths : List String, (id paths).Perm paths := fun paths => .refl paths
  have sorted (paths : List String) : (sortPaths paths).Perm paths := List.mergeSort_perm _ _
  by_cases final : registry.phase = .eagerLoaded
  · have refused (walks : List (List (Location × File))) :
        registry.eagerLoadOn walks = (.error .alreadyEagerLoaded, registry) := if_pos final
    rw [refused walks, refused walks', eagerLoad_of_final final]
    have again : SameOutcome (.error .alreadyEagerLoaded, registry)
        (.error .alreadyEagerLoaded, registry) := ⟨rfl, .inr ⟨_, _, rfl, rfl, .same _⟩⟩
    exact ⟨again, again⟩
  · have lazy (walks : List (List (Location × File))) : registry.eagerLoadOn walks =
        registry.conclude (loadArranged id (registry.foundOn walks) registry.serial
          (distinctNames ((registry.foundOn walks).map Prod.fst))) := if_neg final
    rw [lazy walks, lazy walks', eagerLoad_eq final]
    constructor
    · rw [distinctNames_perm (found'.map Prod.fst)]
      exact (sameLoad_of_perm asFound asFound found' _ _).conclude registry
    · rw [distinctNames_perm (found.map Prod.fst)]
      exact (sameLoad_of_perm asFound sorted found _ _).conclude registry

/-- Two files of one name come before a file that cannot be read, in either order of the files. -/
theorem eagerLoad_of_walks_reverse :
    let file (text : String) : File := { contents := text.toUTF8, modified := 1 }
    let files := ((FileTree.write {} "lib/tags.json" (file "\x7b")).write "lib/shapes.json"
      (file "\"string\"")).write "lib/shapes.yml" (file "integer")
    let registry := ofRoots ["lib"] ["json", "yml"]
    let forth := [files.filesBelow "lib"]
    let back := [(files.filesBelow "lib").reverse]
    let collision (outcome : Except SchemaError Unit × Registry) : List String :=
      match outcome.1 with
      | .error (.collision name paths) => name :: paths
      | _ => []
    registry.Walks files forth ∧ registry.Walks files back ∧
      collision (registry.eagerLoadOn forth) = ["shapes", "lib/shapes.json", "lib/shapes.yml"] ∧
      collision (registry.eagerLoadOn back) = ["shapes", "lib/shapes.yml", "lib/shapes.json"] ∧
      SameOutcome (registry.eagerLoadOn forth) (registry.eagerLoadOn back) := by
  intro file files registry forth back collision
  have walked : registry.Walks files forth := .cons (.refl _) .nil
  have walked' : registry.Walks files back := .cons (List.reverse_perm _) .nil
  have names : distinctNames ["shapes", "shapes", "tags"] = ["shapes", "tags"] := by
    have sorted : ["shapes", "shapes", "tags"].Pairwise fun a b : String => decide (a ≤ b) := by
      decide
    rw [distinctNames, List.mergeSort_of_pairwise sorted]
    decide
  have outcome (walks : List (List (Location × File)))
      (found : ((registry.foundOn walks).map Prod.fst).Perm ["shapes", "shapes", "tags"]) :
      registry.eagerLoadOn walks = registry.conclude
        (loadArranged id (registry.foundOn walks) registry.serial ["shapes", "tags"]) := by
    rw [← names, ← distinctNames_perm found]
    rfl
  refine ⟨walked, walked', ?_, ?_, (eagerLoad_of_walks walked walked').1⟩
  · rw [outcome forth (by decide +kernel)]
    decide +kernel
  · rw [outcome back (by decide +kernel)]
    decide +kernel

end Registry

end SchemaCast
