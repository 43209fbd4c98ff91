import SchemaCast.Proofs.Registry.Paths
import Mathlib.Data.List.Nodup

/-!
# Files below a path

In a tree that writing and removing files lead to, each location has one file at most, and all
directories that lead to a file are there. Then going from a path through steps that lead inward
ends where the steps are put behind the location of the path, so that the files below a path that is
not empty are those that can be found by going on behind it.
-/
namespace SchemaCast

namespace FileTree

variable {tree : FileTree} {location : Location} {path : String} {file : File}

/-- A location that directories lead to. -/
structure Placed (tree : FileTree) (location : Location) : Prop where
  inward : ∀ step ∈ location, Inward step
  named : ∀ step ∈ location, isFileName step
  inside : ∀ outer, outer <+: location → outer ≠ location → tree.isDirectory outer

/-- A tree as there can be one. The empty tree is sound, and writing files, making directories and
removing either keep a tree sound. -/
structure Sound (tree : FileTree) : Prop where
  once : (tree.files.map Prod.fst).Nodup
  placed : ∀ entry ∈ tree.files, tree.Placed entry.1

theorem exists_of_fileAt? (found : tree.fileAt? path = some file) :
    ∃ location, tree.locate path = some location ∧ (location, file) ∈ tree.files := by
  obtain ⟨location, located, found⟩ := Option.bind_eq_some_iff.mp found
  obtain ⟨entry, there, rfl⟩ := Option.map_eq_some_iff.mp found
  have same : entry.1 = location := by simpa using List.find?_some there
  exact ⟨location, located, same ▸ List.mem_of_find?_eq_some there⟩

theorem file?_of_mem (sound : tree.Sound) (mem : (location, file) ∈ tree.files) :
    tree.file? location = some file := by
  unfold file?
  cases found : tree.files.find? fun entry => entry.1 = location with
  | none => simpa using List.find?_eq_none.mp found _ mem
  | some entry =>
    have same : entry.1 = location := by simpa using List.find?_some found
    have only := List.inj_on_of_nodup_map sound.once (List.mem_of_find?_eq_some found) mem same
    rw [only]
    rfl

/-! ### Ways through a tree -/

theorem walk_append (here : Location) (steps more : List String) :
    tree.walk here (steps ++ more) = (tree.walk here steps).bind fun mid => tree.walk mid more := by
  induction steps generalizing here with
  | nil => rfl
  | cons step rest ih =>
    simp only [List.cons_append, walk]
    split
    · rfl
    · split
      · exact ih here
      · split
        · split
          · rfl
          · exact ih _
        · split
          · exact ih _
          · rfl

/-- Where steps lead to does not depend on the tree, if they lead anywhere. -/
theorem walk_unique {other : FileTree} {here location' : Location} {steps : List String}
    (found : tree.walk here steps = some location)
    (found' : other.walk here steps = some location') : location = location' := by
  induction steps generalizing here with
  | nil => exact Option.some.inj (found.symm.trans found')
  | cons step rest ih =>
    simp only [walk, Option.ite_none_left_eq_some] at found found'
    obtain ⟨_, found⟩ := found
    obtain ⟨_, found'⟩ := found'
    by_cases stays : step.isEmpty || step = "."
    · rw [if_pos stays] at found found'
      exact ih found found'
    · rw [if_neg stays] at found found'
      by_cases up : step = ".."
      · simp only [up, if_true, Option.ite_none_left_eq_some] at found found'
        exact ih found.2 found'.2
      · simp only [up, if_false, Option.ite_none_right_eq_some] at found found'
        exact ih found.2 found'.2

theorem locate_unique {other : FileTree} {location' : Location}
    (found : tree.locate path = some location) (found' : other.locate path = some location') :
    location = location' := by
  simp only [locate, Option.ite_none_left_eq_some] at found found'
  exact walk_unique found.2 found'.2

theorem walk_cons {step : String} (inward : Inward step) (here : Location) (rest : List String) :
    tree.walk here (step :: rest) =
      if tree.isDirectory here && isFileName step then tree.walk (here ++ [step]) rest
      else none := by
  have given : step.isEmpty = false := by simpa using inward.given
  by_cases directory : tree.isDirectory here
  · simp [walk, directory, given, inward.notHere, inward.notUp]
  · simp [walk, directory]

/-- Steps that lead inward lead to where they say, if they lead anywhere. -/
theorem walk_inward {here : Location} {steps : List String} (inward : ∀ step ∈ steps, Inward step)
    (found : tree.walk here steps = some location) : location = here ++ steps := by
  induction steps generalizing here with
  | nil => simpa [walk, eq_comm] using found
  | cons step rest ih =>
    rw [walk_cons (inward step (by simp))] at found
    split at found
    · have := ih (fun other mem => inward other (by simp [mem])) found
      simpa using this
    · cases found

/-- Steps lead to a location, if directories do. -/
theorem walk_of_placed {here : Location} {steps : List String}
    (placed : tree.Placed (here ++ steps)) : tree.walk here steps = some (here ++ steps) := by
  induction steps generalizing here with
  | nil => simp [walk]
  | cons step rest ih =>
    have named : isFileName step := placed.named step (by simp)
    have directory : tree.isDirectory here := placed.inside here (by simp) (by simp)
    have next : tree.walk (here ++ [step]) rest = some (here ++ [step] ++ rest) :=
      ih (by simpa using placed)
    rw [walk_cons (placed.inward step (by simp)), directory, named, next]
    simp

/-- A path that goes on behind another one goes on from where that one leads. -/
theorem locate_joinPath (outer : String) {inner : String} (relative : ¬ inner.startsWith "/") :
    tree.locate (joinPath outer inner) =
      (tree.locate outer).bind fun top => tree.walk top (pathSteps inner) := by
  rw [locate, locate, startsWith_joinPath outer relative]
  split
  · rfl
  · rcases joinPath_cases outer with ⟨rfl, joined⟩ | ⟨_, base, rfl | rfl, joined⟩
    · rw [joined]
      simp [pathSteps, piecesAt, walk, isDirectory]
    · rw [joined, pathSteps_append, walk_append]
    · -- The step behind a last slash stays, but only in a directory.
      rw [joined, pathSteps_append, pathSteps_slash, walk_append, walk_append]
      cases tree.walk [] (pathSteps base) with
      | none => rfl
      | some top =>
        obtain ⟨first, rest, steps⟩ := List.exists_cons_of_ne_nil (pathSteps_ne_nil inner)
        by_cases directory : tree.isDirectory top
        · simp [walk, directory]
        · simp [walk, directory, steps]

/-! ### Files below a path -/

theorem mem_filesBelow {entry : Location × File} :
    entry ∈ tree.filesBelow path ↔
      path ≠ "" ∧ ∃ top, tree.locate path = some top ∧ (top ++ entry.1, entry.2) ∈ tree.files := by
  obtain ⟨inner, file⟩ := entry
  unfold filesBelow
  by_cases named : path = ""
  · simp [named]
  rw [if_neg (by simpa using named)]
  cases tree.locate path with
  | none => simp
  | some top =>
    simp only [List.mem_filterMap, List.isPrefixOf_iff_prefix, Option.some.injEq, exists_eq_left',
      ne_eq, named, not_false_eq_true, true_and]
    constructor
    · rintro ⟨entry, mem, found⟩
      split at found
      · next below =>
        obtain ⟨rest, same⟩ := below
        simp only [← same, List.drop_left, Option.some.injEq, Prod.mk.injEq] at found
        rw [← found.1, ← found.2, same]
        exact mem
      · cases found
    · intro mem
      exact ⟨_, mem, by simp⟩

theorem nodup_filesBelow (sound : tree.Sound) (path : String) : (tree.filesBelow path).Nodup := by
  unfold filesBelow
  split
  · exact List.nodup_nil
  cases tree.locate path with
  | none => exact List.nodup_nil
  | some top =>
    refine List.Nodup.filterMap (fun entry other found inFirst inSecond => ?_)
      (List.Nodup.of_map Prod.fst sound.once)
    simp only [List.isPrefixOf_iff_prefix, Option.mem_def, Option.ite_none_right_eq_some,
      Option.some.injEq] at inFirst inSecond
    obtain ⟨⟨rest, same⟩, rfl⟩ := inFirst
    obtain ⟨⟨rest', same'⟩, found⟩ := inSecond
    simp only [← same, ← same', List.drop_left, Prod.mk.injEq] at found
    ext1
    · rw [← same, ← same', found.1]
    · exact found.2.symm

/-! ### Writing and removing -/

theorem Placed.mono {grown : FileTree} (h : tree.Placed location)
    (grows : tree.directories ⊆ grown.directories) : grown.Placed location := by
  refine ⟨h.inward, h.named, fun outer before proper => ?_⟩
  have known := h.inside outer before proper
  simp only [isDirectory, Bool.or_eq_true, List.contains_iff_mem] at known ⊢
  exact known.imp id fun mem => grows mem

theorem Placed.dropLast (h : tree.Placed location) : tree.Placed location.dropLast := by
  refine ⟨fun step mem => h.inward step ((List.dropLast_prefix _).subset mem),
    fun step mem => h.named step ((List.dropLast_prefix _).subset mem), fun outer before proper => ?_⟩
  refine h.inside outer (before.trans (List.dropLast_prefix _)) fun same => proper ?_
  subst same
  have := before.length_le
  rw [List.length_dropLast] at this
  cases outer with
  | nil => rfl
  | cons first rest =>
    simp only [List.length_cons] at this
    omega

theorem Placed.enter (h : tree.Placed location) (directory : tree.isDirectory location)
    {step : String} (inward : Inward step) (named : isFileName step) :
    tree.Placed (location ++ [step]) := by
  refine ⟨?_, ?_, fun outer before proper => ?_⟩
  · intro other mem
    rcases List.mem_append.mp mem with mem | mem
    · exact h.inward other mem
    · rw [List.mem_singleton.mp mem]
      exact inward
  · intro other mem
    rcases List.mem_append.mp mem with mem | mem
    · exact h.named other mem
    · rw [List.mem_singleton.mp mem]
      exact named
  · have before := (List.prefix_concat_iff.mp before).resolve_left proper
    by_cases same : outer = location
    · rw [same]
      exact directory
    · exact h.inside outer before same

theorem addDirectory_grows (tree : FileTree) (location : Location) :
    (tree.addDirectory location).files = tree.files ∧
      tree.directories ⊆ (tree.addDirectory location).directories := by
  unfold addDirectory
  split
  · exact ⟨rfl, fun _ mem => mem⟩
  · exact ⟨rfl, fun _ mem => List.mem_append_left _ mem⟩

/-- Making a path adds directories, and they lead to where the path ends. -/
theorem makePath_placed {here : Location} {steps : List String} {made : FileTree}
    (flat : ∀ step ∈ steps, '/' ∉ step.toList) (placed : tree.Placed here)
    (h : tree.makePath here steps = some (made, location)) :
    made.files = tree.files ∧ tree.directories ⊆ made.directories ∧ made.Placed location := by
  induction steps generalizing tree here with
  | nil =>
    cases h
    exact ⟨rfl, fun _ mem => mem, placed⟩
  | cons step rest ih =>
    obtain ⟨files, grows⟩ := tree.addDirectory_grows here
    have flatRest : ∀ step ∈ rest, '/' ∉ step.toList := fun other mem => flat other (by simp [mem])
    have later {next : Location} (placed : (tree.addDirectory here).Placed next)
        (h : (tree.addDirectory here).makePath next rest = some (made, location)) :
        made.files = tree.files ∧ tree.directories ⊆ made.directories ∧ made.Placed location := by
      obtain ⟨files', grows', placed⟩ := ih flatRest placed h
      exact ⟨files'.trans files, fun _ mem => grows' (grows mem), placed⟩
    have placed := placed.mono grows
    simp only [makePath] at h
    split at h
    · cases h
    · next directory =>
      have directory : (tree.addDirectory here).isDirectory here := by simpa using directory
      split at h
      · exact later placed h
      · next given =>
        split at h
        · split at h
          · cases h
          · exact later placed.dropLast h
        · next notUp =>
          split at h
          · next named =>
            simp only [Bool.or_eq_true, String.isEmpty_iff, decide_eq_true_eq, not_or] at given
            have inward : Inward step := ⟨given.1, given.2, notUp, flat step (by simp)⟩
            exact later (placed.enter directory inward named) h
          · cases h

theorem placed_nil (tree : FileTree) : tree.Placed [] :=
  ⟨by simp, by simp, fun outer before proper => absurd (List.prefix_nil.mp before) proper⟩

theorem Sound.grow {grown : FileTree} (sound : tree.Sound) (files : grown.files = tree.files)
    (grows : tree.directories ⊆ grown.directories) : grown.Sound := by
  refine ⟨files ▸ sound.once, fun entry mem => ?_⟩
  rw [files] at mem
  exact (sound.placed entry mem).mono grows

theorem sound_empty : ({} : FileTree).Sound := ⟨List.nodup_nil, by simp⟩

theorem Sound.write (sound : tree.Sound) (path : String) (file : File) :
    (tree.write path file).Sound := by
  unfold FileTree.write
  cases made : tree.makePath [] (pathSteps path) with
  | none => exact sound
  | some result =>
    obtain ⟨grown, location⟩ := result
    obtain ⟨files, grows, placed⟩ :=
      makePath_placed (fun step mem => flat_of_mem_pathSteps mem) tree.placed_nil made
    have sound : grown.Sound := sound.grow files grows
    dsimp only
    split
    · exact sound
    · refine ⟨?_, ?_⟩
      · have kept : ((grown.files.filter fun entry => entry.1 ≠ location).map Prod.fst).Nodup :=
          sound.once.sublist (List.filter_sublist.map _)
        simp only [List.map_append, List.map_cons, List.map_nil]
        refine List.nodup_append.mpr ⟨kept, by simp, ?_⟩
        simp
      · intro entry mem
        rcases List.mem_append.mp mem with mem | mem
        · exact (sound.placed entry (List.mem_filter.mp mem).1).mono fun _ mem => mem
        · rw [List.mem_singleton.mp mem]
          exact placed.mono fun _ mem => mem

theorem Sound.makeDirectory (sound : tree.Sound) (path : String) :
    (tree.makeDirectory path).Sound := by
  unfold FileTree.makeDirectory
  cases made : tree.makePath [] (pathSteps path) with
  | none => exact sound
  | some result =>
    obtain ⟨grown, location⟩ := result
    obtain ⟨files, grows, _⟩ :=
      makePath_placed (fun step mem => flat_of_mem_pathSteps mem) tree.placed_nil made
    obtain ⟨files', grows'⟩ := grown.addDirectory_grows location
    exact sound.grow (files'.trans files) fun _ mem => grows' (grows mem)

theorem Sound.remove (sound : tree.Sound) (path : String) : (tree.remove path).Sound := by
  unfold FileTree.remove
  cases tree.locate path with
  | none => exact sound
  | some location =>
    refine ⟨sound.once.sublist (List.filter_sublist.map _), fun entry mem => ?_⟩
    obtain ⟨mem, stays⟩ := List.mem_filter.mp mem
    have placed := sound.placed entry mem
    refine ⟨placed.inward, placed.named, fun outer before proper => ?_⟩
    have known := placed.inside outer before proper
    -- What is removed with a directory is everything that goes through it.
    have outside : ¬ location <+: outer := by
      intro through
      simp only [Bool.not_eq_true', List.isPrefixOf_iff_prefix, ← Bool.not_eq_true] at stays
      exact stays (through.trans before)
    simp only [isDirectory, Bool.or_eq_true, List.contains_iff_mem, List.mem_filter] at known ⊢
    refine known.imp id fun mem => ⟨mem, ?_⟩
    simpa [List.isPrefixOf_iff_prefix, ← Bool.not_eq_true] using outside

end FileTree

end SchemaCast
