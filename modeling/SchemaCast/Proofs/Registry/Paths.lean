import SchemaCast.Registry

/-!
# Texts of paths

A registry goes from names to files by putting texts together, and from files to names by taking
texts apart. Both are related to the steps of a path here: steps that lead inward can be joined and
divided again, a path that goes on behind another one goes through the steps of both, and a file
name with an extension is divided where the extension was put behind it.
-/
namespace SchemaCast

theorem piecesAt_eq_splitOn (c : Char) (chars : List Char) :
    piecesAt c chars = chars.splitOn c := by
  induction chars with
  | nil => rfl
  | cons d rest ih =>
    rw [piecesAt, List.splitOn_cons_eq_if_modifyHead, ih]
    by_cases same : d = c
    · simp [same]
    · cases pieces : rest.splitOn c with
      | nil => exact absurd pieces (List.splitOn_ne_nil c rest)
      | cons piece others => simp [same]

theorem not_mem_of_mem_piecesAt {c : Char} {chars piece : List Char}
    (mem : piece ∈ piecesAt c chars) : c ∉ piece := by
  induction chars generalizing piece with
  | nil =>
    rw [List.mem_singleton.mp mem]
    simp
  | cons d rest ih =>
    rw [piecesAt] at mem
    split at mem
    · rcases List.mem_cons.mp mem with rfl | mem
      · simp
      · exact ih mem
    · next other =>
      cases pieces : piecesAt c rest with
      | nil =>
        simp only [pieces, List.mem_singleton] at mem
        simp [mem, Ne.symm other]
      | cons first others =>
        simp only [pieces] at mem
        rcases List.mem_cons.mp mem with rfl | mem
        · have before : c ∉ first := ih (by simp [pieces])
          simp [before, Ne.symm other]
        · exact ih (by simp [pieces, mem])

/-- A step that leads from a directory to what it holds under that name. -/
structure Inward (step : String) : Prop where
  given : step ≠ ""
  notHere : step ≠ "."
  notUp : step ≠ ".."
  flat : '/' ∉ step.toList

/-! ### Steps of a path -/

theorem pathSteps_ne_nil (path : String) : pathSteps path ≠ [] := by
  simp [pathSteps, piecesAt_eq_splitOn, List.splitOn_ne_nil]

theorem flat_of_mem_pathSteps {path step : String} (mem : step ∈ pathSteps path) :
    '/' ∉ step.toList := by
  obtain ⟨piece, known, rfl⟩ := List.mem_map.mp mem
  simpa using not_mem_of_mem_piecesAt known

theorem pathSteps_append (outer inner : String) :
    pathSteps (outer ++ "/" ++ inner) = pathSteps outer ++ pathSteps inner := by
  have chars : (outer ++ "/" ++ inner).toList = outer.toList ++ '/' :: inner.toList := by simp
  simp only [pathSteps, piecesAt_eq_splitOn, chars, List.splitOn_append_cons_self, List.map_append]

theorem pathSteps_slash (path : String) : pathSteps (path ++ "/") = pathSteps path ++ [""] := by
  simpa [pathSteps, piecesAt] using pathSteps_append path ""

theorem pathSteps_intercalate {steps : List String} (given : steps ≠ [])
    (flat : ∀ step ∈ steps, '/' ∉ step.toList) : pathSteps ("/".intercalate steps) = steps := by
  have texts : ("/".intercalate steps).toList = ['/'].intercalate (steps.map String.toList) := by
    simp [String.toList_intercalate]
  rw [pathSteps, piecesAt_eq_splitOn, texts, List.splitOn_intercalate]
  · simp [Function.comp_def, String.ofList_toList]
  · intro chars mem
    obtain ⟨step, known, rfl⟩ := List.mem_map.mp mem
    exact flat step known
  · simpa using given

theorem intercalate_inj {steps others : List String} (given : steps ≠ []) (given' : others ≠ [])
    (flat : ∀ step ∈ steps, '/' ∉ step.toList) (flat' : ∀ step ∈ others, '/' ∉ step.toList)
    (same : "/".intercalate steps = "/".intercalate others) : steps = others := by
  rw [← pathSteps_intercalate given flat, same, pathSteps_intercalate given' flat']

theorem intercalate_append (outer : List String) (last text : String) :
    "/".intercalate (outer ++ [last]) ++ text = "/".intercalate (outer ++ [last ++ text]) := by
  cases outer with
  | nil => simp
  | cons first rest =>
    rw [String.intercalate_append_of_ne_nil (by simp) (by simp),
      String.intercalate_append_of_ne_nil (by simp) (by simp)]
    simp [String.append_assoc]

theorem intercalate_ne_empty (outer : List String) {last : String} (given : last ≠ "") :
    "/".intercalate (outer ++ [last]) ≠ "" := by
  cases outer with
  | nil => simpa using given
  | cons first rest =>
    rw [String.intercalate_append_of_ne_nil (by simp) (by simp)]
    simp

/-- What goes on behind a path is put behind one slash, unless the path is empty. -/
theorem joinPath_cases (outer : String) :
    (outer = "" ∧ ∀ inner, joinPath outer inner = inner) ∨
      outer ≠ "" ∧ ∃ base, (outer = base ∨ outer = base ++ "/") ∧
        ∀ inner, joinPath outer inner = base ++ "/" ++ inner := by
  by_cases empty : outer = ""
  · left
    refine ⟨empty, fun inner => ?_⟩
    rw [empty]
    simp [joinPath]
  · right
    refine ⟨empty, ?_⟩
    have given : outer.isEmpty = false := by simpa using empty
    by_cases ends : outer.endsWith "/"
    · have suffix : "/".toList <:+ outer.toList := by
        rw [String.endsWith_eq_endsWith_toSlice, String.Slice.endsWith_string_iff] at ends
        simpa using ends
      obtain ⟨chars, same⟩ := suffix
      have divided : outer = String.ofList chars ++ "/" := by
        rw [← String.toList_inj, ← same]
        simp
      refine ⟨String.ofList chars, .inr divided, fun inner => ?_⟩
      simp only [joinPath, ends, Bool.or_true, if_true]
      rw [← divided]
    · refine ⟨outer, .inl rfl, fun inner => ?_⟩
      simp [joinPath, given, ends]

theorem startsWith_joinPath (outer : String) {inner : String} (relative : ¬ inner.startsWith "/") :
    (joinPath outer inner).startsWith "/" = outer.startsWith "/" := by
  rw [Bool.eq_iff_iff, String.startsWith_string_iff, String.startsWith_string_iff]
  rcases joinPath_cases outer with ⟨rfl, joined⟩ | ⟨given, base, rfl | rfl, joined⟩
  · rw [String.startsWith_string_iff] at relative
    simpa [joined] using relative
  · obtain ⟨first, rest, chars⟩ := List.exists_cons_of_ne_nil
      (fun none => given (String.toList_eq_nil_iff.mp none))
    simp [joined, chars]
  · simp only [joined, String.toList_append]
    cases base.toList <;> simp

theorem joinPath_inj {outer inner other : String} :
    joinPath outer inner = joinPath outer other ↔ inner = other := by
  rcases joinPath_cases outer with ⟨_, joined⟩ | ⟨_, base, _, joined⟩
  · rw [joined, joined]
  · rw [joined, joined, String.append_right_inj]

/-! ### Extensions -/

theorem splitExtension_append {stem extension : String} (given : stem ≠ "")
    (undotted : '.' ∉ extension.toList) :
    splitExtension (stem ++ "." ++ extension) = (stem, some extension) := by
  have chars : (stem ++ "." ++ extension).toList.reverse =
      extension.toList.reverse ++ '.' :: stem.toList.reverse := by simp
  have plain : ∀ c ∈ extension.toList.reverse, decide (c ≠ '.') = true := by
    intro c mem
    have mem : c ∈ extension.toList := by simpa using mem
    simp only [ne_eq, decide_not, Bool.not_eq_true', decide_eq_false_iff_not]
    rintro rfl
    exact undotted mem
  have before : stem.toList.reverse ≠ [] := by simpa using given
  unfold splitExtension
  simp only [chars, List.takeWhile_append_of_pos plain, List.dropWhile_append_of_pos plain]
  cases reversed : stem.toList.reverse with
  | nil => exact absurd reversed before
  | cons last rest =>
    have same : stem.toList = (last :: rest).reverse := by rw [← reversed, List.reverse_reverse]
    simp [← same, String.ofList_toList]

theorem eq_of_splitExtension {name stem extension : String}
    (h : splitExtension name = (stem, some extension)) :
    name = stem ++ "." ++ extension ∧ stem ≠ "" := by
  unfold splitExtension at h
  dsimp only at h
  split at h
  · cases h
  · cases h
  · next dot before nontrivial found =>
    cases h
    have whole := List.takeWhile_append_dropWhile (p := fun c => decide (c ≠ '.'))
      (l := name.toList.reverse)
    have isDot : dot = '.' := by
      have first := List.head_dropWhile_not (fun c => decide (c ≠ '.')) (l := name.toList.reverse)
        (by rw [found]; simp)
      simp only [found, List.head_cons] at first
      simpa using first
    rw [found, isDot] at whole
    generalize name.toList.reverse.takeWhile (fun c => decide (c ≠ '.')) = behind at whole ⊢
    constructor
    · have reversed := congrArg List.reverse whole
      rw [List.reverse_reverse] at reversed
      rw [← String.toList_inj, ← reversed]
      simp
    · intro none
      exact nontrivial (by simpa using congrArg String.toList none)

/-- A file name that an extension has been put behind leads inward. -/
theorem inward_append {stem extension : String} (inward : Inward stem)
    (undotted : '.' ∉ extension.toList) (flat : '/' ∉ extension.toList) :
    Inward (stem ++ "." ++ extension) := by
  have divided := splitExtension_append inward.given undotted
  refine ⟨by simp [inward.given], ?_, ?_, ?_⟩
  · intro same
    rw [same] at divided
    cases divided
  · intro same
    rw [same] at divided
    exact inward.notHere (congrArg Prod.fst divided).symm
  · simp [inward.flat, flat]

theorem pathExtension?_joinPath (outer : String) {steps : List String} {name : String}
    (flat : ∀ step ∈ steps, '/' ∉ step.toList) (inward : Inward name) :
    pathExtension? (joinPath outer ("/".intercalate (steps ++ [name]))) =
      (splitExtension name).2 := by
  have inner : pathSteps ("/".intercalate (steps ++ [name])) = steps ++ [name] := by
    refine pathSteps_intercalate (by simp) fun step mem => ?_
    rcases List.mem_append.mp mem with mem | mem
    · exact flat step mem
    · rw [List.mem_singleton.mp mem]
      exact inward.flat
  obtain ⟨before, same⟩ : ∃ before,
      pathSteps (joinPath outer ("/".intercalate (steps ++ [name]))) = before ++ [name] := by
    rcases joinPath_cases outer with ⟨_, joined⟩ | ⟨_, base, _, joined⟩
    · exact ⟨steps, by rw [joined, inner]⟩
    · exact ⟨pathSteps base ++ steps, by rw [joined, pathSteps_append, inner, List.append_assoc]⟩
  have last : ((before ++ [name]).filter fun step => !step.isEmpty && step != ".").getLast? =
      some name := by
    simp [List.filter_append, inward.given, inward.notHere]
  unfold pathExtension?
  rw [same, last]
  split
  · next none => cases none
  · next up => exact absurd (Option.some.inj up) inward.notUp
  · next other found => rw [Option.some.inj found]

/-! ### Names of schemas -/

theorem schemaName_append (steps : List String) {name stem : String} {extension : Option String}
    (divided : splitExtension name = (stem, extension)) (notHere : stem ≠ ".") :
    schemaName (steps ++ [name]) = "/".intercalate (steps ++ [stem]) := by
  simp [schemaName, divided, notHere]

theorem relative_intercalate {steps : List String} (given : steps ≠ [])
    (inward : ∀ step ∈ steps, Inward step) : ¬ ("/".intercalate steps).startsWith "/" := by
  have divided := pathSteps_intercalate given fun step mem => (inward step mem).flat
  obtain ⟨first, rest, rfl⟩ := List.exists_cons_of_ne_nil given
  rw [String.startsWith_string_iff]
  intro ⟨chars, same⟩
  have whole : "" ++ "/" ++ String.ofList chars = "/".intercalate (first :: rest) := by
    rw [← String.toList_inj, ← same]
    simp
  rw [← whole, pathSteps_append] at divided
  exact (inward first (by simp)).given (List.cons.inj divided).1.symm

theorem isSchemaName_intercalate {steps : List String} (given : steps ≠ [])
    (inward : ∀ step ∈ steps, Inward step) : isSchemaName ("/".intercalate steps) := by
  have divided := pathSteps_intercalate given fun step mem => (inward step mem).flat
  have relative := relative_intercalate given inward
  have nonempty : "/".intercalate steps ≠ "" := by
    have last := inward (steps.getLast given) (List.getLast_mem given)
    rw [← List.dropLast_concat_getLast given]
    exact intercalate_ne_empty _ last.given
  have starts : steps.head? ≠ some "." :=
    fun here => (inward "." (List.mem_of_head? here)).notHere rfl
  have stays : ".." ∉ steps := fun mem => (inward _ mem).notUp rfl
  unfold isSchemaName
  simp only [divided, Bool.eq_false_iff.mpr relative]
  simp [nonempty, starts, stays]

end SchemaCast
