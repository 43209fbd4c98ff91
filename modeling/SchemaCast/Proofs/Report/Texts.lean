import SchemaCast.Proofs.Report.Groups

/-!
# Messages by the text of a path

Keys may hold slashes and brackets, so different paths can have one text. Where two such paths have
messages, `ErrorLog.byText` has those of the path that came last, and `ErrorLog.messagesAt` those of
the path that came first. So nothing is lost exactly if all paths with messages differ in their texts.
-/
namespace SchemaCast

namespace Entries

variable {α : Type}

theorem ofPairs_append_singleton (pairs : List (String × α)) (pair : String × α) :
    ofPairs (pairs ++ [pair]) = (ofPairs pairs).insert pair.1 pair.2 := by
  simp [ofPairs]

/-- Of pairs with one name the last one gives the value. -/
theorem get?_ofPairs (pairs : List (String × α)) (key : String) :
    (ofPairs pairs).get? key = (pairs.reverse.find? fun pair => pair.1 = key).map Prod.snd := by
  induction pairs using List.reverseRecOn with
  | nil => rfl
  | append_singleton pairs pair ih =>
    rw [ofPairs_append_singleton, List.reverse_append, List.reverse_singleton,
      List.singleton_append, List.find?_cons]
    by_cases same : pair.1 = key
    · simp [same]
    · rw [get?_insert_of_ne _ _ (Ne.symm same), ih]
      simp [same]

/-- The number of values in lists that have names. -/
def total (entries : Entries (List α)) : Nat :=
  entries.foldr (fun entry count => entry.2.length + count) 0

theorem total_cons (entry : String × List α) (rest : Entries (List α)) :
    total (entry :: rest) = entry.2.length + total rest := rfl

theorem total_append_singleton (entries : Entries (List α)) (entry : String × List α) :
    total (entries ++ [entry]) = total entries + entry.2.length := by
  induction entries with
  | nil => simp [total]
  | cons first rest ih =>
    rw [List.cons_append, total_cons, total_cons, ih, Nat.add_assoc]

/-- A list takes the place of the one that had its name before. -/
theorem total_insert (entries : Entries (List α)) (key : String) (values : List α) :
    total (entries.insert key values) + ((entries.get? key).getD []).length =
      total entries + values.length := by
  induction entries with
  | nil => simp [insert, total, get?]
  | cons entry rest ih =>
    obtain ⟨name, old⟩ := entry
    by_cases same : name = key
    · simp only [insert, if_pos same, get?, total_cons, Option.getD_some]
      omega
    · simp only [insert, if_neg same, get?, total_cons]
      omega

/-- Lists keep all their values exactly if their names differ. -/
theorem total_ofPairs (pairs : List (String × List α)) (given : ∀ pair ∈ pairs, pair.2 ≠ []) :
    total (ofPairs pairs) ≤ total pairs ∧
      (total (ofPairs pairs) = total pairs ↔ (pairs.map Prod.fst).Nodup) := by
  induction pairs using List.reverseRecOn with
  | nil => simp [ofPairs]
  | append_singleton pairs pair ih =>
    obtain ⟨most, all⟩ := ih fun other mem => given other (List.mem_append_left _ mem)
    have placed := total_insert (ofPairs pairs) pair.1 pair.2
    rw [ofPairs_append_singleton, total_append_singleton, List.map_append, List.map_singleton,
      List.nodup_append_comm, List.singleton_append, List.nodup_cons]
    rw [get?_ofPairs] at placed
    -- The last pair takes the place of another one with its name, whose values are lost.
    cases found : pairs.reverse.find? fun other => other.1 = pair.1 with
    | none =>
      have unknown : pair.1 ∉ pairs.map Prod.fst := by
        intro mem
        obtain ⟨other, listed, same⟩ := List.mem_map.mp mem
        simpa [same] using List.find?_eq_none.mp found other (List.mem_reverse.mpr listed)
      rw [found] at placed
      simp only [Option.map_none, Option.getD_none, List.length_nil, Nat.add_zero] at placed
      rw [placed, Nat.add_right_cancel_iff, all]
      exact ⟨Nat.add_le_add_right most _, by simp [unknown]⟩
    | some other =>
      have listed : other ∈ pairs := List.mem_reverse.mp (List.mem_of_find?_eq_some found)
      have same : other.1 = pair.1 := by simpa using List.find?_some found
      have known : pair.1 ∈ pairs.map Prod.fst := List.mem_map.mpr ⟨other, listed, same⟩
      have lost : 0 < other.2.length :=
        List.length_pos_iff.mpr (given other (List.mem_append_left _ listed))
      rw [found] at placed
      simp only [Option.map_some, Option.getD_some] at placed
      refine ⟨by omega, ⟨fun kept => ?_, fun ⟨fresh, _⟩ => absurd known fresh⟩⟩
      omega

end Entries

/-- Where only one element is as asked, it is found from either end. -/
theorem find?_reverse_of_unique {α : Type} {p : α → Bool} {items : List α}
    (unique : ∀ x ∈ items, ∀ y ∈ items, p x → p y → x = y) :
    items.reverse.find? p = items.find? p := by
  cases found : items.find? p with
  | none =>
    rw [List.find?_eq_none] at found ⊢
    exact fun x mem => found x (List.mem_reverse.mp mem)
  | some x =>
    cases back : items.reverse.find? p with
    | none =>
      have fails := List.find?_eq_none.mp back x (List.mem_reverse.mpr (List.mem_of_find?_eq_some found))
      exact absurd (List.find?_some found) fails
    | some y =>
      have mem : y ∈ items := List.mem_reverse.mp (List.mem_of_find?_eq_some back)
      rw [unique y mem x (List.mem_of_find?_eq_some found) (List.find?_some back)
        (List.find?_some found)]

namespace ErrorLog

/-- The views of a log by text lose nothing: a message is there under the text of its path, all
together are as many as have been recorded, and one view says what the other one says. -/
structure Lossless (log : ErrorLog) (notes : List (Path × String)) : Prop where
  shown : ∀ note ∈ notes, ∃ messages, log.byText.get? note.1.text = some messages ∧
    note.2 ∈ messages
  total : Entries.total log.byText = log.count
  agrees : ∀ text, log.messagesAt text = (log.byText.get? text).getD []

theorem count_eq (log : ErrorLog) :
    log.count = Entries.total (log.groups.map fun group => (group.1.text, group.2)) := by
  rw [count, Entries.total, List.foldr_map]

/-- The paths of notes, in the order of their first ones. -/
def placesOf (notes : List (Path × String)) : List Path := (notes.map Prod.fst).eraseDups

theorem nodup_placesOf (notes : List (Path × String)) : (placesOf notes).Nodup := by
  rw [placesOf, ← keys_gather_nil]
  exact (grouped_nil.gather notes).once

theorem mem_placesOf {events : List (Path × String)} {path : Path} :
    path ∈ placesOf events ↔ ∃ message, (path, message) ∈ events := by
  simp [placesOf]

theorem placesOf_eq_nil_iff {events : List (Path × String)} : placesOf events = [] ↔ events = [] := by
  cases events with
  | nil => simp [placesOf]
  | cons event rest => simp [placesOf, List.eraseDups_cons]

/-- Among paths with different texts, a path is found by its text. -/
theorem find?_text {paths : List Path} {path : Path} (mem : path ∈ paths)
    (distinct : ∀ path ∈ paths, ∀ place ∈ paths, path.text = place.text → path = place) :
    paths.find? (fun place => place.text = path.text) = some path := by
  cases found : paths.find? fun place => place.text = path.text with
  | none => simpa using List.find?_eq_none.mp found path mem
  | some place =>
    have text : place.text = path.text := by simpa using List.find?_some found
    rw [distinct place (List.mem_of_find?_eq_some found) path mem text]

section Steps

variable {steps : List LogStep}

theorem messagesAt_runAll (text : String) : (LogStep.runAll steps {}).messagesAt text =
    (((placesOf (LogStep.notesAll steps)).find? fun path => path.text = text).map
      (saidAt (LogStep.notesAll steps))).getD [] := by
  rw [messagesAt, LogStep.groups_runAll, List.find?_map, Option.map_map]
  rfl

theorem get?_byText_runAll (text : String) : (LogStep.runAll steps {}).byText.get? text =
    ((placesOf (LogStep.notesAll steps)).reverse.find? fun path => path.text = text).map
      (saidAt (LogStep.notesAll steps)) := by
  rw [byText, Entries.get?_ofPairs, LogStep.groups_runAll, List.map_map, ← List.map_reverse,
    List.find?_map, Option.map_map]
  rfl

/-- All messages are there by text exactly if no two paths with messages have one text. -/
theorem total_byText_runAll :
    Entries.total (LogStep.runAll steps {}).byText = (LogStep.runAll steps {}).count ↔
      ∀ path ∈ placesOf (LogStep.notesAll steps), ∀ place ∈ placesOf (LogStep.notesAll steps),
        path.text = place.text → path = place := by
  have given : ∀ pair ∈ (LogStep.runAll steps {}).groups.map fun group => (group.1.text, group.2),
      pair.2 ≠ [] := by
    intro pair mem
    obtain ⟨group, grouped, rfl⟩ := List.mem_map.mp mem
    rw [LogStep.runAll_eq] at grouped
    exact (grouped_nil.gather _).given group grouped
  have texts : ((LogStep.runAll steps {}).groups.map fun group => (group.1.text, group.2)).map
      Prod.fst = (placesOf (LogStep.notesAll steps)).map Path.text := by
    rw [LogStep.groups_runAll, List.map_map, List.map_map]
    rfl
  rw [count_eq, byText, (Entries.total_ofPairs _ given).2, texts]
  exact List.nodup_map_iff_inj_on (nodup_placesOf _)

/-- Whatever steps a log has taken, it shows at a text what was said at the first path with the text,
or at the last one where it lists all texts; so nothing is lost exactly if no two paths with messages
have one text. -/
theorem byText_lossless_iff (steps : List LogStep) :
    let log := LogStep.runAll steps {}
    let notes := LogStep.notesAll steps
    (∀ text, log.messagesAt text =
      (((placesOf notes).find? fun path => path.text = text).map (saidAt notes)).getD []) ∧
    (∀ text, log.byText.get? text =
      ((placesOf notes).reverse.find? fun path => path.text = text).map (saidAt notes)) ∧
    (log.Lossless notes ↔ ∀ path ∈ placesOf notes, ∀ place ∈ placesOf notes,
      path.text = place.text → path = place) := by
  intro log notes
  refine ⟨messagesAt_runAll, get?_byText_runAll, fun lossless => ?_, fun distinct => ?_⟩
  · exact total_byText_runAll.mp lossless.total
  · have either (text : String) : (placesOf notes).reverse.find? (fun path => path.text = text) =
        (placesOf notes).find? fun path => path.text = text := by
      refine find?_reverse_of_unique fun path mem place mem' has has' => ?_
      simp only [decide_eq_true_eq] at has has'
      exact distinct path mem place mem' (has.trans has'.symm)
    refine ⟨fun note mem => ?_, total_byText_runAll.mpr distinct, fun text => ?_⟩
    · have placed : note.1 ∈ placesOf notes := List.mem_eraseDups.mpr (List.mem_map_of_mem mem)
      refine ⟨saidAt notes note.1, ?_, ?_⟩
      · rw [get?_byText_runAll, either, find?_text placed distinct]
        rfl
      · exact List.mem_map.mpr ⟨note, List.mem_filter.mpr ⟨mem, by simp⟩, rfl⟩
    · rw [messagesAt_runAll, get?_byText_runAll, either]

end Steps

/-- A key in brackets and a position have paths with one text: of the two messages each view has but
one, and not the same one. -/
theorem byText_loses_brackets :
    let steps : List LogStep :=
      [.within (.key "[0]") [.record "first"], .within (.index 0) [.record "second"]]
    let log := LogStep.runAll steps {}
    log.byText = [("/[0]", ["second"])] ∧ log.messagesAt "/[0]" = ["first"] ∧ log.count = 2 ∧
      ¬ log.Lossless (LogStep.notesAll steps) := by
  intro steps log
  refine ⟨by decide, by decide, by decide, fun lossless => ?_⟩
  have total := lossless.total
  revert total
  decide

end ErrorLog

end SchemaCast
