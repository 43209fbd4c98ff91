import Mathlib.Data.List.Induction
import Mathlib.Data.List.Nodup
import SchemaCast.Proofs.Report
import SchemaCast.Proofs.Report.Findings

/-!
# Groups of messages

A log groups what is recorded by path. The groups stand in the order of their first messages, and each
one has its messages in the order in which they came. A report lists the messages group by group, so
it is another order of the notes that the steps on a log make; recording the notes anew in that order
gives the same groups, also below another path and behind what a log has already.
-/
namespace SchemaCast

/-- Notes with their paths seen from further out. -/
def Path.under (outer : Path) (notes : List (Path × String)) : List (Path × String) :=
  notes.map fun note => (outer.append note.1, note.2)

/-- What notes say at a path, in order. -/
def saidAt (notes : List (Path × String)) (path : Path) : List String :=
  (notes.filter fun note => note.1 = path).map Prod.snd

theorem saidAt_cons (path : Path) (message : String) (rest : List (Path × String)) (place : Path) :
    saidAt ((path, message) :: rest) place =
      (if path = place then [message] else []) ++ saidAt rest place := by
  by_cases same : path = place <;> simp [saidAt, same]

@[simp] theorem Path.root_under (notes : List (Path × String)) : Path.root.under notes = notes := by
  simp [under]

theorem Path.append_inj (outer : Path) {path place : Path} :
    outer.append path = outer.append place ↔ path = place := by
  obtain ⟨segments⟩ := path
  obtain ⟨others⟩ := place
  simp [append]

namespace ErrorLog

variable {groups : List (Path × List String)} {path place : Path} {message : String}

/-- The messages in the group of a path. -/
def inGroup (groups : List (Path × List String)) (path : Path) : List String :=
  ((groups.find? fun group => group.1 = path).map Prod.snd).getD []

/-- The messages that have been recorded at a path, in order. -/
def messages (log : ErrorLog) (path : Path) : List String := inGroup log.groups path

/-- Put notes into groups, one after the other. -/
def gather (groups : List (Path × List String)) (notes : List (Path × String)) :
    List (Path × List String) :=
  notes.foldl (fun groups note => addTo note.1 note.2 groups) groups

/-- All messages of groups with their paths. -/
def listed (groups : List (Path × List String)) : List (Path × String) :=
  groups.flatMap fun group => group.2.map fun message => (group.1, message)

/-- Record notes below the current path, one after the other. -/
def recordBelow (log : ErrorLog) (notes : List (Path × String)) : ErrorLog :=
  { log with groups := gather log.groups (log.current.under notes) }

theorem gather_append (groups : List (Path × List String)) (notes more : List (Path × String)) :
    gather groups (notes ++ more) = gather (gather groups notes) more :=
  List.foldl_append

theorem recordBelow_append (log : ErrorLog) (notes more : List (Path × String)) :
    (log.recordBelow notes).recordBelow more = log.recordBelow (notes ++ more) := by
  simp [recordBelow, Path.under, gather_append]

/-- What is recorded below a segment is recorded further in. -/
theorem leave_recordBelow_enter (log : ErrorLog) (segment : Segment)
    (notes : List (Path × String)) :
    ((log.enter segment).recordBelow notes).leave =
      log.recordBelow (notes.map fun note => (⟨segment :: note.1.segments⟩, note.2)) := by
  have joined (path : Path) : (log.current.push segment).append path =
      log.current.append ⟨segment :: path.segments⟩ := by
    simp [Path.append, Path.push]
  simp [recordBelow, leave, enter, Path.under, joined, Function.comp_def]

/-! ### One message -/

theorem keys_addTo (path : Path) (message : String) (groups : List (Path × List String)) :
    (addTo path message groups).map Prod.fst =
      if path ∈ groups.map Prod.fst then groups.map Prod.fst
      else groups.map Prod.fst ++ [path] := by
  induction groups with
  | nil => rfl
  | cons group rest ih =>
    obtain ⟨other, messages⟩ := group
    by_cases same : other = path
    · simp [addTo, same]
    · rw [addTo, if_neg same, List.map_cons, ih]
      by_cases known : path ∈ rest.map Prod.fst <;> simp [known, Ne.symm same]

theorem mem_keys_addTo : place ∈ (addTo path message groups).map Prod.fst ↔
    place ∈ groups.map Prod.fst ∨ place = path := by
  rw [keys_addTo]
  by_cases known : path ∈ groups.map Prod.fst
  · rw [if_pos known]
    exact ⟨.inl, fun mem => mem.elim id fun same => same ▸ known⟩
  · rw [if_neg known, List.mem_append, List.mem_singleton]

/-- A message joins the group of its path and no other one. -/
theorem inGroup_addTo (path : Path) (message : String) (groups : List (Path × List String))
    (place : Path) : inGroup (addTo path message groups) place =
      inGroup groups place ++ if path = place then [message] else [] := by
  induction groups with
  | nil => by_cases same : path = place <;> simp [addTo, inGroup, same]
  | cons group rest ih =>
    obtain ⟨other, messages⟩ := group
    by_cases first : other = path
    · by_cases same : path = place <;> simp [addTo, inGroup, first, same]
    · by_cases here : other = place
      · have different : path ≠ place := fun same => first (here.trans same.symm)
        have others (groups : List (Path × List String)) :
            inGroup ((other, messages) :: groups) place = messages := by
          simp [inGroup, here]
        rw [addTo, if_neg first, others, others, if_neg different, List.append_nil]
      · have others (groups : List (Path × List String)) :
            inGroup ((other, messages) :: groups) place = inGroup groups place := by
          simp [inGroup, here]
        rw [addTo, if_neg first, others, others, ih]

/-- Messages of different paths can be put into groups in either order, once the first path has its
place. -/
theorem addTo_comm (different : path ≠ place) (known : path ∈ groups.map Prod.fst)
    (message other : String) : addTo path message (addTo place other groups) =
      addTo place other (addTo path message groups) := by
  induction groups with
  | nil => cases known
  | cons group rest ih =>
    obtain ⟨first, messages⟩ := group
    by_cases here : first = path
    · have there : first ≠ place := fun same => different (here.symm.trans same)
      simp [addTo, here, different]
    · have later : path ∈ rest.map Prod.fst := by simpa [Ne.symm here] using known
      by_cases there : first = place
      · simp [addTo, there, Ne.symm different]
      · simp [addTo, here, there, ih later]

/-! ### Notes in a row -/

theorem mem_keys_gather {notes : List (Path × String)} :
    place ∈ (gather groups notes).map Prod.fst ↔
      place ∈ groups.map Prod.fst ∨ place ∈ notes.map Prod.fst := by
  induction notes generalizing groups with
  | nil => simp [gather]
  | cons note rest ih =>
    show place ∈ (gather (addTo note.1 note.2 groups) rest).map Prod.fst ↔ _
    rw [ih, mem_keys_addTo, List.map_cons, List.mem_cons, or_assoc]

/-- A path has the messages that its group had before, and those that the notes say there. -/
theorem inGroup_gather (groups : List (Path × List String)) (notes : List (Path × String))
    (place : Path) :
    inGroup (gather groups notes) place = inGroup groups place ++ saidAt notes place := by
  induction notes generalizing groups with
  | nil => simp [gather, saidAt]
  | cons note rest ih =>
    show inGroup (gather (addTo note.1 note.2 groups) rest) place = _
    rw [ih, inGroup_addTo, saidAt_cons, List.append_assoc]

theorem keys_gather_nil (notes : List (Path × String)) :
    (gather [] notes).map Prod.fst = (notes.map Prod.fst).eraseDups := by
  induction notes using List.reverseRecOn with
  | nil => rfl
  | append_singleton notes note ih =>
    rw [gather_append]
    show (addTo note.1 note.2 (gather [] notes)).map Prod.fst = _
    rw [keys_addTo, ih, List.map_append, List.eraseDups_append]
    have alone : [note.1].eraseDups = [note.1] := rfl
    by_cases known : note.1 ∈ notes.map Prod.fst <;> simp [List.removeAll, known, alone]

/-- Groups with different paths, each of which has a message. -/
structure Grouped (groups : List (Path × List String)) : Prop where
  once : (groups.map Prod.fst).Nodup
  given : ∀ group ∈ groups, group.2 ≠ []

theorem Grouped.addTo (grouped : Grouped groups) (path : Path) (message : String) :
    Grouped (ErrorLog.addTo path message groups) := by
  refine ⟨?_, fun group mem => ?_⟩
  · rw [keys_addTo]
    split
    · exact grouped.once
    · next unknown =>
      refine List.nodup_append.mpr ⟨grouped.once, List.nodup_singleton path, ?_⟩
      intro known mem new fresh same
      rw [List.mem_singleton.mp fresh] at same
      exact unknown (same ▸ mem)
  · have all : ∀ group ∈ ErrorLog.addTo path message groups,
        group.2 ≠ [] ∧ ∀ message ∈ group.2, (fun _ => True) message :=
      All.addTo trivial fun group mem => ⟨grouped.given group mem, fun _ _ => trivial⟩
    exact (all group mem).1

theorem Grouped.gather (grouped : Grouped groups) (notes : List (Path × String)) :
    Grouped (ErrorLog.gather groups notes) := by
  induction notes generalizing groups with
  | nil => exact grouped
  | cons note rest ih => exact ih (grouped.addTo note.1 note.2)

theorem grouped_nil : Grouped [] := ⟨List.nodup_nil, by simp⟩

/-- Groups with different paths are what they hold at their paths. -/
theorem Grouped.eq_map (grouped : Grouped groups) :
    groups = (groups.map Prod.fst).map fun path => (path, inGroup groups path) := by
  have found (group : Path × List String) (mem : group ∈ groups) :
      inGroup groups group.1 = group.2 := by
    cases search : groups.find? fun other => other.1 = group.1 with
    | none => simpa using List.find?_eq_none.mp search group mem
    | some other =>
      have same : other.1 = group.1 := by simpa using List.find?_some search
      have only := List.inj_on_of_nodup_map grouped.once (List.mem_of_find?_eq_some search) mem same
      rw [inGroup, search, only]
      rfl
  rw [List.map_map]
  refine (List.map_id groups).symm.trans (List.map_congr_left fun group mem => ?_)
  exact Prod.ext rfl (found group mem).symm

/-- From nothing, notes are grouped by their paths: in the order of the first notes, each with all that
is said there. -/
theorem gather_nil (notes : List (Path × String)) :
    gather [] notes = (notes.map Prod.fst).eraseDups.map fun path => (path, saidAt notes path) := by
  rw [(grouped_nil.gather notes).eq_map, keys_gather_nil]
  refine List.map_congr_left fun path _ => ?_
  rw [inGroup_gather]
  rfl

/-! ### Reports -/

theorem gather_addTo {notes : List (Path × String)} (known : path ∈ groups.map Prod.fst)
    (other : path ∉ notes.map Prod.fst) (message : String) :
    gather (addTo path message groups) notes = addTo path message (gather groups notes) := by
  induction notes generalizing groups with
  | nil => rfl
  | cons note rest ih =>
    simp only [List.map_cons, List.mem_cons, not_or] at other
    show gather (addTo note.1 note.2 (addTo path message groups)) rest =
      addTo path message (gather (addTo note.1 note.2 groups) rest)
    rw [← addTo_comm other.1 known]
    exact ih (mem_keys_addTo.mpr (.inl known)) other.2

/-- Whether a message is put into groups before or after they are listed makes no difference to the
groups that the list is put into. -/
theorem gather_listed_addTo {reported : List (Path × List String)} (grouped : Grouped reported)
    (groups : List (Path × List String)) (outer path : Path) (message : String) :
    gather groups (outer.under (listed (addTo path message reported))) =
      addTo (outer.append path) message (gather groups (outer.under (listed reported))) := by
  induction reported generalizing groups with
  | nil => rfl
  | cons group rest ih =>
    obtain ⟨place, messages⟩ := group
    obtain ⟨once, given⟩ := grouped
    obtain ⟨fresh, once⟩ := List.nodup_cons.mp once
    obtain ⟨some, given⟩ := List.forall_mem_cons.mp given
    have listed_cons (messages : List String) (groups : List (Path × List String)) :
        outer.under (listed ((place, messages) :: groups)) =
          (messages.map fun message => (outer.append place, message)) ++
            outer.under (listed groups) := by
      simp [listed, Path.under]
    by_cases here : place = path
    · subst here
      have split : (messages ++ [message]).map (fun message => (outer.append place, message)) =
          messages.map (fun message => (outer.append place, message)) ++
            [(outer.append place, message)] := by
        simp
      rw [addTo, if_pos rfl, listed_cons, listed_cons, split, List.append_assoc, gather_append,
        gather_append, gather_append]
      -- The messages that the group has already give its path a place, and no later group has that path.
      refine gather_addTo (mem_keys_gather.mpr (.inr ?_)) ?_ message
      · obtain ⟨first, mem⟩ := List.exists_mem_of_ne_nil messages some
        exact List.mem_map.mpr ⟨_, List.mem_map_of_mem mem, rfl⟩
      · intro mem
        simp only [Path.under, listed, List.map_map, List.mem_map, List.mem_flatMap,
          Function.comp_apply] at mem
        obtain ⟨_, ⟨group, later, _, _, rfl⟩, same⟩ := mem
        exact fresh (List.mem_map.mpr ⟨group, later, (Path.append_inj outer).mp same⟩)
    · rw [addTo, if_neg here, listed_cons, listed_cons, gather_append, gather_append]
      exact ih ⟨once, given⟩ _

/-- Groups may be made from notes, or from the list of the groups that these make. -/
theorem gather_listed (groups : List (Path × List String)) (outer : Path)
    (notes : List (Path × String)) :
    gather groups (outer.under (listed (gather [] notes))) = gather groups (outer.under notes) := by
  induction notes using List.reverseRecOn with
  | nil => rfl
  | append_singleton notes note ih =>
    have last : outer.under (notes ++ [note]) =
        outer.under notes ++ [(outer.append note.1, note.2)] := by
      simp [Path.under]
    rw [last, gather_append, gather_append, ← ih]
    exact gather_listed_addTo (grouped_nil.gather notes) groups outer note.1 note.2

/-- Recording the report of some notes is recording the notes. -/
theorem recordBelow_report (log : ErrorLog) (notes : List (Path × String)) :
    log.recordBelow (recordBelow {} notes).report = log.recordBelow notes := by
  have reported : (recordBelow {} notes).report = listed (gather [] notes) := by
    show listed (gather [] (Path.under .root notes)) = _
    rw [Path.root_under]
  rw [reported, recordBelow, gather_listed]
  rfl

end ErrorLog

namespace LogStep

mutual

/-- A step records its notes below the path where it begins. -/
theorem run_eq (step : LogStep) (log : ErrorLog) : run step log = log.recordBelow (notes step) := by
  cases step with
  | record message =>
    show log.record message = log.recordBelow [(.root, message)]
    simp [ErrorLog.record, ErrorLog.recordBelow, ErrorLog.gather, Path.under]
  | within segment body =>
    rw [run, ErrorLog.within, runAll_eq body, ErrorLog.leave_recordBelow_enter]
    rfl

/-- Steps in a row record their notes below the path where they begin. -/
theorem runAll_eq (steps : List LogStep) (log : ErrorLog) :
    runAll steps log = log.recordBelow (notesAll steps) := by
  cases steps with
  | nil => rfl
  | cons step rest =>
    rw [runAll, runAll_eq rest, run_eq step, ErrorLog.recordBelow_append]
    rfl

end

/-- From an empty log, steps leave a group for each path that they note something at. -/
theorem groups_runAll (steps : List LogStep) : (runAll steps {}).groups =
    ((notesAll steps).map Prod.fst).eraseDups.map fun path =>
      (path, saidAt (notesAll steps) path) := by
  rw [runAll_eq, ← ErrorLog.gather_nil]
  show ErrorLog.gather [] (Path.under .root (notesAll steps)) = _
  rw [Path.root_under]

end LogStep

end SchemaCast
