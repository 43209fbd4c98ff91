import SchemaCast.Proofs.Report.Sources
import SchemaCast.Proofs.Termination

/-!
# Paths of messages

Where no default stands in for a missing value, and arrays are checked as they are, every path in a
report leads from key to key and from index to index to a part of the value. Only its last key may
be missing, and then the message says just that.
-/
namespace SchemaCast

variable {σ : Type} {context : Context}

namespace Json

/-- A key or an index of a value leads to a part of it. -/
inductive Selects : Json → Segment → Json → Prop where
  | key {fields : Entries Json} {name : String} {part : Json} (mem : (name, part) ∈ fields) :
      Selects (.obj fields) (.key name) part
  | index {items : List Json} {position : Nat} {part : Json} (at? : items[position]? = some part) :
      Selects (.arr items) (.index position) part

/-- A path leads to a part of a value. -/
inductive Leads : Json → List Segment → Json → Prop where
  | here {whole : Json} : Leads whole [] whole
  | inside {whole part inner : Json} {segment : Segment} {rest : List Segment}
      (selects : whole.Selects segment part) (leads : Leads part rest inner) :
      Leads whole (segment :: rest) inner

/-- A path leads to an object, but for its last step, which is a key that the object lacks. -/
def Misses (whole : Json) (path : List Segment) : Prop :=
  ∃ before name fields, path = before ++ [.key name] ∧ whole.Leads before (.obj fields) ∧
    name ∉ Entries.keys fields

/-- A message at a path says something of a part of a value, or that the value of a key is
missing. -/
def Locates (whole : Json) (path : List Segment) (message : String) : Prop :=
  (∃ part, whole.Leads path part) ∨
    whole.Misses path ∧ (message = "Value must be given." ∨ message = "Key must be given.")

variable {whole part : Json} {segment : Segment} {path : List Segment} {message : String}

theorem Locates.here : whole.Locates [] message := .inl ⟨whole, .here⟩

theorem Locates.inside (selects : whole.Selects segment part) (h : part.Locates path message) :
    whole.Locates (segment :: path) message := by
  rcases h with ⟨inner, leads⟩ | ⟨⟨before, name, fields, rfl, leads, lacks⟩, missing⟩
  · exact .inl ⟨inner, .inside selects leads⟩
  · exact .inr ⟨⟨segment :: before, name, fields, rfl, .inside selects leads, lacks⟩, missing⟩

theorem Locates.missing {fields : Entries Json} {name : String} (lacks : ¬ fields.contains name)
    (h : message = "Value must be given." ∨ message = "Key must be given.") :
    (Json.obj fields).Locates [.key name] message := by
  have absent : name ∉ fields.keys := fun mem => lacks (Entries.contains_iff.mpr mem)
  exact .inr ⟨⟨[], name, fields, rfl, .here, absent⟩, h⟩

end Json

/-- What is said of a value is said of a part of it; of a missing value there is one thing to
say. -/
structure Json.Tells (value : Json) (path : List Segment) (message : String) : Prop where
  located : value.Locates path message
  missing : value = .null → path = [] ∧ message = "Value must be given."

/-- The elements of an array are checked at their own positions: none is dropped before, and no text
is read as an array. -/
structure ArrayRules.Entire (rules : ArrayRules) : Prop where
  filter : rules.filter = none
  reject : rules.reject = none
  parseText : rules.parseText = false

theorem ArrayRules.Entire.elements {rules : ArrayRules} (entire : rules.Entire) {value : Json}
    {elements : List Json} (read : rules.elements value = .ok elements) :
    value = .arr elements ∧ elements.filter rules.keeps = elements := by
  constructor
  · cases value with
    | arr items =>
      cases read
      rfl
    | _ => simp [ArrayRules.elements, entire.parseText] at read
  · have keeps (element : Json) : rules.keeps element = true := by
      simp [ArrayRules.keeps, entire.filter, entire.reject]
    exact List.filter_eq_self.mpr fun element _ => keeps element

/-- A missing value without a default is at most reported as missing. -/
theorem Node.violation_of_present_null {node : Node} (undefaulted : node.default? = none)
    {violation : Violation} (present : node.present .null = .error (some violation)) :
    violation = .valueMissing := by
  have seen : node.seen .null = .null := by
    rcases node.seen_cases .null with same | same <;> exact same
  have null : Json.null.isNull = true := rfl
  by_cases required : node.options.required
  · simp only [Node.present, seen, null, required, if_true] at present
    cases present
    rfl
  · simp [Node.present, seen, null, required, undefaulted] at present

namespace Place

variable {place : Place}

/-- What the checks of the parts of a value tell locates what the check of the value notes. -/
theorem Notes.located {seen : Json} {path : List Segment} {message : String}
    (entire : ∀ rules, place.node.kind = .array rules → rules.Entire)
    (notes : place.Notes context (fun _ => Json.Tells) seen path message) :
    seen.Locates path message := by
  cases notes with
  | here => exact .here
  | keyMissing absent => exact .missing absent (.inr rfl)
  | @property fields entry _ below _ step inner =>
    cases found : fields.get? entry.1 with
    | some part =>
      rw [found] at inner
      exact inner.located.inside (.key (Entries.mem_of_get? found))
    | none =>
      rw [found] at inner
      obtain ⟨rfl, same⟩ := inner.missing rfl
      exact .missing (by simp [Entries.contains, found]) (.inl same)
  | extra mem owned inner => exact inner.located.inside (.key mem)
  | item kind read at? due inner =>
    obtain ⟨rfl, same⟩ := (entire _ kind).elements read
    rw [same] at at?
    exact inner.located.inside (.index at?)
  | reference kind leads inner => exact inner.located

theorem tells_of_validate {root : Node}
    (undefaulted : ∀ place, root.place.Reaches context place → place.node.default? = none)
    (entire : ∀ place, root.place.Reaches context place → ∀ rules,
      place.node.kind = .array rules → rules.Entire)
    (fuel : Nat) (reached : root.place.Reaches context place) (value : Json) {s : σ}
    {log : ErrorLog}
    (ended : (place.validate fuel (.ofContext context) value s).1 = .ok log) :
    ∀ entry ∈ log.report, value.Tells entry.1.segments entry.2 := by
  induction fuel generalizing place value s log with
  | zero => cases ended
  | succ fuel ih =>
    have inner (target : Place) (step : place.Step context target) (value : Json) :
        (target.node.check fuel value (target.scope (.ofContext context : Resolver σ))).Writes
          (fun _ => True) value.Tells := by
      refine (target.writes_check fuel value).imp fun below message written => ?_
      obtain ⟨trial, came, mem⟩ := written
      exact ih (s := s) (reached.tail step) value ((validate_state ..).trans came) _ mem
    intro entry mem
    rcases (writes_checkWith inner value).report ended mem with
      ⟨here, violation, present, same⟩ | ⟨seen, present, notes⟩
    · rw [here]
      refine ⟨.here, fun null => ⟨rfl, ?_⟩⟩
      subst null
      rw [same, Node.violation_of_present_null (undefaulted place reached) present]
      rfl
    · obtain ⟨given, origin⟩ := Node.cases_of_present present
      have same : seen = value := origin.resolve_right (by simp [undefaulted place reached])
      subst same
      refine ⟨notes.located (entire place reached), fun null => ?_⟩
      subst null
      exact absurd rfl given

end Place

/-- Where no default can be met and no array that drops elements or reads texts, every path in the
report of a validation leads to a part of the value, but that the last key of a path may be missing
in the object before it, where the message says that the value or the key must be given. This holds
for every bound on the depth, that of `Node.validate` included. -/
theorem report_locates {root : Node}
    (undefaulted : ∀ place, root.place.Reaches context place → place.node.default? = none)
    (entire : ∀ place, root.place.Reaches context place → ∀ rules,
      place.node.kind = .array rules →
        rules.filter = none ∧ rules.reject = none ∧ rules.parseText = false)
    (fuel : Nat) (value : Json) {s : σ} {log : ErrorLog}
    (ended : (root.place.validate fuel (.ofContext context) value s).1 = .ok log) :
    ∀ entry ∈ log.report, (∃ part, value.Leads entry.1.segments part) ∨
      value.Misses entry.1.segments ∧
        (entry.2 = "Value must be given." ∨ entry.2 = "Key must be given.") := by
  intro entry mem
  have whole (place : Place) (reached : root.place.Reaches context place) (rules : ArrayRules)
      (kind : place.node.kind = .array rules) : rules.Entire := by
    obtain ⟨filter, reject, parseText⟩ := entire place reached rules kind
    exact ⟨filter, reject, parseText⟩
  exact (Place.tells_of_validate undefaulted whole fuel .refl value ended entry mem).located

/-- Two elements of a list are wrong, and two properties are missing: of one the key, and of the
other the value. -/
theorem report_locates_list :
    let count : Node := ⟨{ required := true }, .integer {}⟩
    let word : Node := ⟨{ requireKey := true }, .symbol⟩
    let list : Node := ⟨{}, .array { items := .list count }⟩
    let root : Node := ⟨{}, .hash { properties := [("l", list), ("n", count), ("w", word)] }⟩
    let value : Json := .obj [("l", .arr [.int 1, .str "x", .null])]
    let log : ErrorLog := ⟨.root, [(⟨[.key "l", .index 1]⟩, ["Invalid type, expected integer."]),
      (⟨[.key "l", .index 2]⟩, ["Value must be given."]), (⟨[.key "n"]⟩, ["Value must be given."]),
      (⟨[.key "w"]⟩, ["Key must be given."])]⟩
    (root.place.validate 3 (.ofContext [] : Resolver Unit) value ()).1 = .ok log ∧
      ∀ entry ∈ log.report, (∃ part, value.Leads entry.1.segments part) ∨
        value.Misses entry.1.segments ∧
          (entry.2 = "Value must be given." ∨ entry.2 = "Key must be given.") := by
  intro count word list root value log
  have ended : (root.place.validate 3 (.ofContext [] : Resolver Unit) value ()).1 = .ok log := rfl
  have reached (used : Place) (h : root.place.Reaches [] used) :
      used.node = root ∨ used.node = list ∨ used.node = count ∨ used.node = word := by
    induction h with
    | refl => exact .inl rfl
    | tail _ step ih =>
      cases step with
      | child owned =>
        rcases ih with h | h | h | h <;> rw [h] at owned <;>
          simp [Node.children, Node.ofPolicy, root, list, count, word] at owned
        · rcases owned with rfl | rfl | rfl <;> simp [list, count, word]
        · exact .inr (.inr (.inl owned))
      | reference kind => rcases ih with h | h | h | h <;> rw [h] at kind <;> cases kind
      | included kind listed =>
        rcases ih with h | h | h | h <;> rw [h] at kind <;> cases kind
        cases listed
  refine ⟨ended, report_locates (fun used h => ?_) (fun used h rules kind => ?_) 3 value ended⟩
  · rcases reached used h with same | same | same | same <;> rw [same] <;> rfl
  · rcases reached used h with same | same | same | same <;> rw [same] at kind <;> cases kind
    exact ⟨rfl, rfl, rfl⟩

end SchemaCast
