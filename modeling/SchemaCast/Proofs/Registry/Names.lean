import SchemaCast.Proofs.Registry.Files

/-!
# The file that a name leads to

A name of a schema is a path with steps of any kind, but the first step leads inward and no step
leads out. An extension is put behind the last step, which may be empty or a dot, so that the last
step of the path to the file is not always one of the name. All the other steps go inward or stay,
and therefore the file lies at or below the root where it is searched.
-/
namespace SchemaCast

/-- The steps that do not stay where they are. -/
def movingSteps (steps : List String) : List String :=
  steps.filter fun step => !step.isEmpty && step != "."

theorem movingSteps_cons_of_idle {step : String} (idle : step.isEmpty || step = ".")
    (rest : List String) : movingSteps (step :: rest) = movingSteps rest := by
  rw [movingSteps, List.filter_cons_of_neg]
  · rfl
  · simpa [or_iff_not_imp_left] using idle

theorem movingSteps_cons_of_moving {step : String} (moving : ¬ (step.isEmpty || step = "."))
    (rest : List String) : movingSteps (step :: rest) = step :: movingSteps rest := by
  rw [movingSteps, List.filter_cons_of_pos]
  · rfl
  · simpa [not_or] using moving

theorem movingSteps_eq {steps : List String} (inward : ∀ step ∈ steps, Inward step) :
    movingSteps steps = steps := by
  rw [movingSteps, List.filter_eq_self]
  intro step mem
  simp [(inward step mem).given, (inward step mem).notHere]

/-! ### Steps of a name -/

theorem intercalate_pathSteps (path : String) : "/".intercalate (pathSteps path) = path := by
  rw [← String.toList_inj, String.toList_intercalate, pathSteps, piecesAt_eq_splitOn, List.map_map]
  simp [Function.comp_def, List.intercalate_splitOn]

/-- A text without slashes that is put behind a path goes to its last step. -/
theorem pathSteps_append_flat {path text last : String} {outer : List String}
    (steps : pathSteps path = outer ++ [last]) (flat : '/' ∉ text.toList) :
    pathSteps (path ++ text) = outer ++ [last ++ text] := by
  have flatSteps : ∀ step ∈ outer ++ [last], '/' ∉ step.toList := by
    intro step mem
    rw [← steps] at mem
    exact flat_of_mem_pathSteps mem
  rw [← intercalate_pathSteps path, steps, intercalate_append]
  refine pathSteps_intercalate (by simp) fun step mem => ?_
  rcases List.mem_append.mp mem with mem | mem
  · exact flatSteps step (List.mem_append_left _ mem)
  · rw [List.mem_singleton.mp mem, String.toList_append, List.mem_append, not_or]
    exact ⟨flatSteps last (by simp), flat⟩

/-- Only the empty path and a path from the top have an empty first step. -/
theorem head?_pathSteps (path : String) :
    (pathSteps path).head? = some "" ↔ path = "" ∨ path.startsWith "/" := by
  rw [String.startsWith_string_iff, ← String.toList_eq_nil_iff, pathSteps]
  cases path.toList with
  | nil => simp [piecesAt]
  | cons c rest =>
    by_cases slash : c = '/'
    · simp [piecesAt, slash]
    · cases pieces : piecesAt '/' rest with
      | nil => simp [piecesAt, pieces, slash, Ne.symm slash]
      | cons piece others => simp [piecesAt, pieces, slash, Ne.symm slash]

/-- A name of a schema goes inward first and never out. -/
theorem isSchemaName_iff {name : String} :
    isSchemaName name ↔
      ∃ first rest, pathSteps name = first :: rest ∧ Inward first ∧ ".." ∉ rest := by
  have starts := head?_pathSteps name
  have flat {step : String} : step ∈ pathSteps name → '/' ∉ step.toList := flat_of_mem_pathSteps
  obtain ⟨first, rest, steps⟩ := List.exists_cons_of_ne_nil (pathSteps_ne_nil name)
  simp only [steps, List.head?_cons, Option.some.injEq] at starts
  have unfolded : isSchemaName name ↔
      (name ≠ "" ∧ ¬ name.startsWith "/") ∧ first ≠ "." ∧ ".." ∉ first :: rest := by
    simp [isSchemaName, steps, and_assoc]
  rw [unfolded, ← not_or, ← starts]
  constructor
  · rintro ⟨given, notHere, stays⟩
    rw [List.mem_cons, not_or] at stays
    exact ⟨first, rest, steps, ⟨given, notHere, Ne.symm stays.1, flat (by simp [steps])⟩, stays.2⟩
  · rintro ⟨_, _, same, inward, stays⟩
    obtain ⟨rfl, rfl⟩ := List.cons.inj (steps.symm.trans same)
    refine ⟨inward.given, inward.notHere, ?_⟩
    rw [List.mem_cons, not_or]
    exact ⟨Ne.symm inward.notUp, stays⟩

/-- The parts of a name: the steps before the last one, and the last one. -/
structure NameParts (name : String) (outer : List String) (last : String) : Prop where
  steps_eq : pathSteps name = outer ++ [last]
  notUp : ".." ∉ outer
  relative : ∀ text, ¬ (name ++ text).startsWith "/"
  /-- The last step of a name without any other leads inward. -/
  inward : outer = [] → Inward last
  moving : outer ≠ [] → movingSteps outer ≠ []

theorem exists_nameParts {name : String} (named : isSchemaName name) :
    ∃ outer last, NameParts name outer last := by
  obtain ⟨first, rest, steps, inward, stays⟩ := isSchemaName_iff.mp named
  obtain ⟨outer, last, parts⟩ := (List.eq_nil_or_concat' (pathSteps name)).resolve_left
    (pathSteps_ne_nil name)
  have notUp : ".." ∉ outer ++ [last] := by
    rw [← parts, steps, List.mem_cons, not_or]
    exact ⟨Ne.symm inward.notUp, stays⟩
  have relative (text : String) : ¬ (name ++ text).startsWith "/" := by
    have starts := mt (head?_pathSteps name).mpr (by simpa [steps] using inward.given)
    rw [not_or, String.startsWith_string_iff] at starts
    rw [String.startsWith_string_iff, String.toList_append]
    obtain ⟨c, chars, name'⟩ := List.exists_cons_of_ne_nil (mt String.toList_eq_nil_iff.mp starts.1)
    rw [name'] at starts ⊢
    simpa using starts.2
  rw [steps] at parts
  refine ⟨outer, last, steps.trans parts, fun mem => notUp (List.mem_append_left _ mem), relative,
    ?_, ?_⟩
  · rintro rfl
    exact (List.cons.inj parts).1 ▸ inward
  · intro several
    obtain ⟨_, others, rfl⟩ := List.exists_cons_of_ne_nil several
    have moving : ¬ (first.isEmpty || first = ".") := by simp [inward.given, inward.notHere]
    rw [← (List.cons.inj parts).1, movingSteps_cons_of_moving moving]
    exact List.cons_ne_nil _ _

/-- Only behind nothing or a dot does an extension make two dots. -/
theorem eq_of_append_eq_up {last extension : String} (h : last ++ "." ++ extension = "..") :
    last = "" ∨ last = "." := by
  have whole := congrArg String.toList h
  rw [← String.toList_inj, ← String.toList_inj]
  simp only [String.toList_append] at whole
  cases chars : last.toList with
  | nil => exact .inl rfl
  | cons c rest =>
    right
    cases rest with
    | nil =>
      have both : c = '.' ∧ extension = "" := by simpa [chars] using whole
      rw [both.1]
      rfl
    | cons d rest => simp [chars] at whole

/-- An extension goes to the last step of a name. -/
theorem NameParts.pathSteps_append {name last extension : String} {outer : List String}
    (parts : NameParts name outer last) (flat : '/' ∉ extension.toList) :
    pathSteps (name ++ "." ++ extension) = outer ++ [last ++ "." ++ extension] := by
  rw [String.append_assoc, pathSteps_append_flat parts.steps_eq (by simpa using flat),
    String.append_assoc]

namespace FileTree

variable {tree : FileTree} {location : Location} {root name extension : String}

/-- Steps that do not go out lead to where those among them that move lead. -/
theorem walk_movingSteps {here : Location} {steps : List String} (stays : ".." ∉ steps)
    (found : tree.walk here steps = some location) : location = here ++ movingSteps steps := by
  induction steps generalizing here with
  | nil => simpa [walk, movingSteps, eq_comm] using found
  | cons step rest ih =>
    rw [List.mem_cons, not_or] at stays
    simp only [walk, Option.ite_none_left_eq_some] at found
    obtain ⟨_, found⟩ := found
    by_cases idle : step.isEmpty || step = "."
    · rw [if_pos idle] at found
      rw [movingSteps_cons_of_idle idle]
      exact ih stays.2 found
    · rw [if_neg idle, if_neg (Ne.symm stays.1), Option.ite_none_right_eq_some] at found
      rw [movingSteps_cons_of_moving idle, ih stays.2 found.2]
      simp

/-- Steps can only be taken from a directory. -/
theorem isDirectory_of_walk {here : Location} {step : String} {rest : List String}
    (found : tree.walk here (step :: rest) = some location) : tree.isDirectory here := by
  simp only [walk, Option.ite_none_left_eq_some] at found
  simpa using found.1

/-- The file of a name is reached by the steps before the last one, which move inward if they move,
and one step more. -/
theorem walk_of_name {outer : List String} {last : String} (parts : NameParts name outer last)
    (flat : '/' ∉ extension.toList)
    (located : tree.locate (joinPath root (name ++ "." ++ extension)) = some location) :
    ∃ top, tree.locate root = some top ∧ tree.isDirectory top ∧
      tree.walk (top ++ movingSteps outer) [last ++ "." ++ extension] = some location := by
  have steps := parts.pathSteps_append flat
  rw [String.append_assoc, locate_joinPath root (parts.relative _), ← String.append_assoc,
    Option.bind_eq_some_iff] at located
  obtain ⟨top, located, walked⟩ := located
  have directory : tree.isDirectory top := by
    obtain ⟨first, rest, same⟩ := List.exists_cons_of_ne_nil
      (pathSteps_ne_nil (name ++ "." ++ extension))
    rw [same] at walked
    exact isDirectory_of_walk walked
  rw [steps, walk_append, Option.bind_eq_some_iff] at walked
  obtain ⟨mid, before, last⟩ := walked
  rw [walk_movingSteps parts.notUp before] at last
  exact ⟨top, located, directory, last⟩

/-- A location at or below the directory that a path leads to. -/
def Within (tree : FileTree) (root : String) (location : Location) : Prop :=
  ∃ top, tree.locate root = some top ∧ tree.isDirectory top ∧ top <+: location

/-- The file of a name lies within the root. Only the last step of the path can go out, if a dot and
an extension make two dots of it, and then a step before it has gone inward. -/
theorem within_of_name (named : isSchemaName name) (flat : '/' ∉ extension.toList)
    (located : tree.locate (joinPath root (name ++ "." ++ extension)) = some location) :
    tree.Within root location := by
  obtain ⟨outer, last, parts⟩ := exists_nameParts named
  obtain ⟨top, there, directory, walked⟩ := walk_of_name parts flat located
  refine ⟨top, there, directory, ?_⟩
  by_cases up : last ++ "." ++ extension = ".."
  · have several : outer ≠ [] := by
      intro none
      have inward := parts.inward none
      rcases eq_of_append_eq_up up with given | here
      · exact inward.given given
      · exact inward.notHere here
    have moving := parts.moving several
    rw [up] at walked
    have back : tree.isDirectory (top ++ movingSteps outer) ∧
        (top ++ movingSteps outer).dropLast = location := by
      simpa [walk, moving] using walked
    rw [← back.2, List.dropLast_append_of_ne_nil moving]
    exact List.prefix_append _ _
  · have found := walk_movingSteps (by simpa using Ne.symm up) walked
    rw [found, List.append_assoc]
    exact List.prefix_append _ _

end FileTree

end SchemaCast
