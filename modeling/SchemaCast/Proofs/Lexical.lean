import SchemaCast.Proofs.Place
import SchemaCast.Schema.Size

/-!
# Where nodes are written

A node owns its children and its definitions, and both are smaller than it. `Place.Within` follows
ownership, so that a place within the place of a schema is where a node of the schema is written.
The definitions around such a place are those of the nodes around it; a name that they declare
leads to the place where the declared node is written.
-/
namespace SchemaCast

namespace Schema

theorem size_le_sizeAll {nodes : List Node} {node : Node} (h : node ∈ nodes) :
    node.size ≤ sizeAll nodes := by
  induction nodes with
  | nil => cases h
  | cons first rest ih =>
    simp only [sizeAll]
    rcases List.mem_cons.mp h with rfl | h
    · omega
    · have := ih h
      omega

theorem sizeAll_append (nodes more : List Node) :
    sizeAll (nodes ++ more) = sizeAll nodes + sizeAll more := by
  induction nodes with
  | nil => simp [sizeAll]
  | cons first rest ih => simp [sizeAll, ih, Nat.add_assoc]

theorem sizeNamed_eq (entries : List (String × Node)) :
    sizeNamed entries = sizeAll (entries.map Prod.snd) := by
  induction entries with
  | nil => rfl
  | cons first rest ih => simp [sizeNamed, sizeAll, ih]

theorem sizePatterned_eq (entries : List (Pattern × Node)) :
    sizePatterned entries = sizeAll (entries.map Prod.snd) := by
  induction entries with
  | nil => rfl
  | cons first rest ih => simp [sizePatterned, sizeAll, ih]

theorem sizePolicy_eq (policy : Policy Node) :
    sizePolicy policy = sizeAll (Node.ofPolicy policy) := by
  cases policy <;> rfl

end Schema

namespace Node

open Schema

/-- The size of a kind is that of the nodes that a node of the kind owns as its children. -/
theorem sizeAll_children (node : Node) : sizeAll node.children = node.kind.size := by
  obtain ⟨options, kind⟩ := node
  cases kind with
  | hash rules =>
    obtain ⟨properties, patternProperties, additional, _, _, _, _, _, _⟩ := rules
    simp only [children, Kind.size, sizeAll_append, sizeNamed_eq, sizePatterned_eq, sizePolicy_eq]
  | array rules =>
    obtain ⟨items, additional, contains, _, _, _, _, _, _⟩ := rules
    have tail : sizeAll ((additional.map ofPolicy).getD []) = sizeTail additional := by
      cases additional with
      | none => rfl
      | some policy => exact (sizePolicy_eq policy).symm
    have search : sizeAll contains.toList = sizeOptional contains := by
      cases contains <;> rfl
    simp only [children, Kind.size, sizeAll_append, tail, search]
    cases items <;> rfl
  | _ => rfl

theorem size_eq (node : Node) :
    node.size = node.options.size + sizeAll node.children + 1 := by
  rw [sizeAll_children]
  obtain ⟨options, kind⟩ := node
  rfl

theorem sizeNamed_definitions_le (node : Node) :
    sizeNamed node.definitions ≤ node.options.size := by
  obtain ⟨⟨_, _, _, _, _, _, _, _, _, definitions⟩, kind⟩ := node
  exact Nat.le_add_left _ _

theorem size_lt_of_child {node child : Node} (h : child ∈ node.children) :
    child.size < node.size := by
  have := size_le_sizeAll h
  rw [node.size_eq]
  omega

theorem size_lt_of_definition {node : Node} {entry : String × Node}
    (h : entry ∈ node.definitions) : entry.2.size < node.size := by
  have declared : entry.2.size ≤ sizeNamed node.definitions := by
    rw [sizeNamed_eq]
    exact size_le_sizeAll (List.mem_map_of_mem h)
  have := node.sizeNamed_definitions_le
  rw [node.size_eq]
  omega

/-- Induction over the nodes that a node owns. -/
theorem owned_induction {motive : Node → Prop}
    (step : ∀ node, (∀ child ∈ node.children, motive child) →
      (∀ entry ∈ node.definitions, motive entry.2) → motive node) (node : Node) : motive node :=
  step node (fun child _ => owned_induction step child)
    (fun entry _ => owned_induction step entry.2)
termination_by node.size
decreasing_by
  · exact size_lt_of_child ‹_›
  · exact size_lt_of_definition ‹_›

end Node

namespace Place

/-- A node that another one owns, at the place where it is written. -/
inductive Owns (place : Place) : Place → Prop where
  | child {node : Node} (owned : node ∈ place.node.children) : Owns place ⟨node, place.inner⟩
  | definition {entry : String × Node} (declared : entry ∈ place.node.definitions) :
      Owns place ⟨entry.2, place.inner⟩

/-- A place inside another one, or the place itself. -/
def Within : Place → Place → Prop := Relation.ReflTransGen Owns

/-- A list of nodes without definitions that holds all children of its nodes holds every node within
one of them. -/
theorem Within.mem_of_closed {nodes : List Node}
    (closed : ∀ node ∈ nodes, node.children ⊆ nodes ∧ node.definitions = [])
    {root place : Place} (within : root.Within place) (start : root.node ∈ nodes)
    (outermost : root.outer = []) : place.node ∈ nodes ∧ place.outer = [] := by
  induction within with
  | refl => exact ⟨start, outermost⟩
  | tail _ owns found =>
    obtain ⟨mem, outermost⟩ := found
    obtain ⟨children, none⟩ := closed _ mem
    cases owns with
    | child owned =>
      exact ⟨children owned, by simp [Place.inner, External.stackBelow, none, outermost]⟩
    | definition declared => simp [none] at declared

theorem lookupLocal_eq_none {name : String} {stack : List Definitions}
    (undeclared : ∀ definitions ∈ stack, definitions.get? name = none) :
    lookupLocal name stack = none := by
  induction stack with
  | nil => rfl
  | cons definitions rest ih =>
    rw [lookupLocal, undeclared definitions (by simp)]
    exact ih fun other mem => undeclared other (by simp [mem])

/-- Outer definitions are looked at if the inner ones do not declare a name. -/
theorem lookupLocal_append (name : String) (inner outer : List Definitions) :
    lookupLocal name (inner ++ outer) =
      match lookupLocal name inner with
      | some (node, found) => some (node, found ++ outer)
      | none => lookupLocal name outer := by
  induction inner with
  | nil => rfl
  | cons definitions rest ih =>
    rw [List.cons_append, lookupLocal, lookupLocal]
    cases definitions.get? name with
    | some node => rfl
    | none => exact ih

/-- What is found in definitions is found in one of them, which starts the definitions around it. -/
theorem exists_of_lookupLocal {stack found : List Definitions} {name : String} {node : Node}
    (h : lookupLocal name stack = some (node, found)) :
    ∃ definitions outer, found = definitions :: outer ∧ found <:+ stack ∧
      (name, node) ∈ definitions := by
  induction stack with
  | nil => cases h
  | cons definitions outer ih =>
    rw [lookupLocal] at h
    cases hname : definitions.get? name with
    | some declared =>
      simp only [hname] at h
      cases h
      exact ⟨definitions, outer, rfl, List.suffix_refl _, Entries.mem_of_get? hname⟩
    | none =>
      simp only [hname] at h
      obtain ⟨inner, around, hfound, hsuffix, hmem⟩ := ih h
      exact ⟨inner, around, hfound, hsuffix.trans (List.suffix_cons _ _), hmem⟩

/-- The definitions inside a place start with its own, if it declares any. -/
theorem inner_cases (place : Place) :
    (place.node.definitions = [] ∧ place.inner = place.outer) ∨
      (place.node.definitions ≠ [] ∧ place.inner = place.node.definitions :: place.outer) := by
  unfold inner External.stackBelow
  cases h : place.node.definitions with
  | nil => exact .inl ⟨rfl, rfl⟩
  | cons entry rest => exact .inr ⟨by simp, rfl⟩

variable {root place : Place}

/-- All definitions around a place of a schema are declared by a node around it. -/
theorem declares_of_suffix (top : root.outer = []) (h : root.Within place)
    {definitions : Definitions} {outer : List Definitions}
    (suffix : definitions :: outer <:+ place.inner) :
    ∃ owner : Place, root.Within owner ∧ owner.node.definitions = definitions ∧
      owner.inner = definitions :: outer := by
  induction h with
  | refl =>
    rcases root.inner_cases with ⟨_, hinner⟩ | ⟨_, hinner⟩ <;> rw [hinner, top] at suffix
    · exact absurd (List.suffix_nil.mp suffix) (by simp)
    · have same : definitions :: outer = [root.node.definitions] :=
        (List.suffix_cons_iff.mp suffix).resolve_right fun h =>
          absurd (List.suffix_nil.mp h) (by simp)
      refine ⟨root, .refl, ?_, ?_⟩
      · exact (List.cons.inj same).1.symm
      · rw [hinner, top, same]
  | @tail before place hbefore owns ih =>
    -- Only the outermost entry can be new at an owned place, so a proper suffix was there before.
    have houter : place.outer = before.inner := by cases owns <;> rfl
    rcases place.inner_cases with ⟨_, hinner⟩ | ⟨_, hinner⟩ <;>
      rw [hinner, houter] at suffix
    · exact ih suffix
    · rcases List.suffix_cons_iff.mp suffix with same | suffix
      · refine ⟨place, hbefore.tail owns, (List.cons.inj same).1.symm, ?_⟩
        rw [hinner, houter, same]
      · exact ih suffix

/-- A name that definitions of a schema declare leads to a place of that schema. -/
theorem within_of_lookupLocal (top : root.outer = []) (h : root.Within place) {name : String}
    {node : Node} {found : List Definitions}
    (declared : lookupLocal name place.inner = some (node, found)) :
    root.Within ⟨node, found⟩ := by
  obtain ⟨definitions, outer, rfl, suffix, hmem⟩ := exists_of_lookupLocal declared
  obtain ⟨owner, howner, rfl, hinner⟩ := declares_of_suffix top h suffix
  rw [← hinner]
  exact howner.tail (.definition hmem)

end Place

end SchemaCast
