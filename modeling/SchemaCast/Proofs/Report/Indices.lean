import SchemaCast.Proofs.Fuel
import SchemaCast.Proofs.Report.Sources

/-!
# Indices of messages

The elements that a filter or a rejection drops are gone before the elements of an array are
numbered. An index in a path therefore counts the kept elements before the one that a message is
about, which is its index in the array only if none of those before it is dropped.
-/
namespace SchemaCast

variable {σ : Type} {context : Context}

/-- A kept element stands in a list where as many kept ones come before it as its index among them
says. -/
theorem exists_position_of_filter {α : Type} {p : α → Bool} {items : List α} {index : Nat} {item : α}
    (at? : (items.filter p)[index]? = some item) :
    ∃ position, items[position]? = some item ∧ p item ∧
      (items.take position).countP p = index := by
  induction items generalizing index with
  | nil => simp at at?
  | cons first rest ih =>
    by_cases kept : p first
    · rw [List.filter_cons_of_pos kept] at at?
      cases index with
      | zero =>
        have same : first = item := by simpa using at?
        subst same
        exact ⟨0, rfl, kept, rfl⟩
      | succ index =>
        obtain ⟨position, found, holds, before⟩ := ih (by simpa using at?)
        exact ⟨position + 1, by simpa using found, holds, by simp [kept, before]⟩
    · rw [List.filter_cons_of_neg kept] at at?
      obtain ⟨position, found, holds, before⟩ := ih at?
      exact ⟨position + 1, by simpa using found, holds, by simp [kept, before]⟩

theorem ErrorLog.not_isEmpty_of_mem_report {log : ErrorLog} {entry : Path × String}
    (mem : entry ∈ log.report) : ¬ log.isEmpty := by
  intro empty
  have none : log.groups = [] := List.isEmpty_iff.mp empty
  simp [ErrorLog.report, none] at mem

/-- An array of any value is seen as it is. -/
theorem Node.present_arr {node : Node} {rules : ArrayRules} (kind : node.kind = .array rules)
    (elements : List Json) : node.present (.arr elements) = .ok (.arr elements) := by
  have seen : node.seen (.arr elements) = .arr elements := by simp [Node.seen, kind]
  have given : (Json.arr elements).isNull = false := rfl
  have accepted : node.kind.accepts (.arr elements) = true := by
    simp [kind, Kind.accepts, ValueKind.covers]
  simp [Node.present, seen, given, accepted]

/-- A message below an index of a list is what the schema of the elements, with any greater bound on
the depth, says of the kept element with that many kept ones before it. -/
theorem report_index_counts_kept {place : Place} {rules : ArrayRules} {item : Node}
    (kind : place.node.kind = .array rules) (shape : rules.items = .list item) (fuel : Nat)
    (elements : List Json) {s : σ} {log : ErrorLog}
    (ended : (place.validate fuel (.ofContext context) (.arr elements) s).1 = .ok log)
    (index : Nat) (below : List Segment) (message : String)
    (mem : (⟨.index index :: below⟩, message) ∈ log.report) :
    ∃ position element, elements[position]? = some element ∧ rules.keeps element ∧
      (elements.take position).countP rules.keeps = index ∧
      ∃ own, (∀ more ≥ fuel, ((Place.mk item place.inner).validate more
          (.ofContext context : Resolver σ) element s).1 = .ok own) ∧
        ¬ own.isEmpty ∧ (⟨below⟩, message) ∈ own.report := by
  cases fuel with
  | zero => cases ended
  | succ fuel =>
    rcases (Place.writes_checkWith (fun target _ value => target.writes_check fuel value)
        (.arr elements)).report ended mem with
      ⟨here, _⟩ | ⟨seen, present, notes⟩
    · cases here
    · have same : seen = .arr elements := by
        rw [Node.present_arr kind] at present
        exact (Except.ok.inj present).symm
      subst same
      -- Only the elements of an array are below an index.
      generalize path : Segment.index index :: below = whole at notes
      cases notes with
      | here => cases path
      | @item _ _ element _ _ _ _ _ kind' read at? due told =>
        cases kind.symm.trans kind'
        cases path
        cases read
        have node : rules.schemaAt? index = some item := by simp [ArrayRules.schemaAt?, shape]
        cases node.symm.trans due
        obtain ⟨position, found, kept, before⟩ := exists_position_of_filter at?
        obtain ⟨own, came, entry⟩ := told
        have ends : ((Place.mk item place.inner).validate fuel
            (.ofContext context : Resolver σ) element s).1 = .ok own :=
          (Place.validate_state _ fuel element s ()).trans came
        have enough (more : Nat) (le : fuel + 1 ≤ more) :
            ((Place.mk item place.inner).validate more
              (.ofContext context : Resolver σ) element s).1 = .ok own := by
          rw [Place.validate_of_le _ element (by omega : fuel ≤ more) (by simp [ends]), ends]
        exact ⟨position, element, found, kept, before, own, enough,
          ErrorLog.not_isEmpty_of_mem_report entry, entry⟩
      | reference kind' => cases kind.symm.trans kind'

/-- The second of the kept elements is the fourth one of the array, with a null and an
empty list dropped before it. -/
theorem report_index_counts_kept_fourth :
    let present : Predicate := ⟨"present", fun value => some !value.isBlank⟩
    let empty : Predicate := ⟨"empty", Json.isEmpty?⟩
    let item : Node := ⟨{}, .integer {}⟩
    let rules : ArrayRules := { items := .list item, filter := some present, reject := some empty }
    let root : Node := ⟨{}, .array rules⟩
    let elements : List Json := [.int 7, .null, .arr [], .str "x"]
    let log : ErrorLog := ⟨.root, [(⟨[.index 1]⟩, ["Invalid type, expected integer."])]⟩
    (root.place.validate 2 (.ofContext [] : Resolver Unit) (.arr elements) ()).1 = .ok log ∧
      ∃ position element, elements[position]? = some element ∧ rules.keeps element ∧
        (elements.take position).countP rules.keeps = 1 ∧
        ∃ own, (∀ more ≥ 2, ((Place.mk item root.place.inner).validate more
            (.ofContext [] : Resolver Unit) element ()).1 = .ok own) ∧
          ¬ own.isEmpty ∧ (⟨[]⟩, "Invalid type, expected integer.") ∈ own.report := by
  intro present empty item rules root elements log
  have ended : (root.place.validate 2 (.ofContext [] : Resolver Unit) (.arr elements) ()).1 =
      .ok log := rfl
  exact ⟨ended, report_index_counts_kept rfl rfl 2 elements ended 1 [] _ (List.mem_singleton_self _)⟩

/-- The message at the first index is about the second element: the first one is dropped, and the
schema of the elements accepts it. -/
theorem report_index_of_dropped :
    let blank : Predicate := ⟨"blank", fun value => some value.isBlank⟩
    let item : Node := ⟨{}, .integer {}⟩
    let root : Node := ⟨{}, .array { items := .list item, reject := some blank }⟩
    let elements : List Json := [.null, .str "x"]
    let log : ErrorLog := ⟨.root, [(⟨[.index 0]⟩, ["Invalid type, expected integer."])]⟩
    blank ∈ Predicate.builtin ∧
      (root.validate (.ofContext [] : Resolver Unit) (.arr elements) ()).1 = .ok log ∧
      elements[0]? = some .null ∧
      (item.validate (.ofContext [] : Resolver Unit) .null ()).1 = .ok {} := by
  exact ⟨.head _, rfl, rfl, rfl⟩

end SchemaCast
