import SchemaCast.Proofs.Entries
import SchemaCast.Proofs.Lexical
import SchemaCast.Schema.Export

/-!
# Schemas inside of an export

The vocabulary of JSON Schema says under which keywords a schema holds further schemas; what stands
under other keywords, such as defaults and examples, is plain data. `Json.Subschema` follows the
keywords. Every schema in the export of a node is the export of a node that is written in it, or
stands for an included name, or refers to nothing.
-/
namespace SchemaCast

namespace Json

/-- The keywords with a schema as their value. -/
def schemaKeywords : List String :=
  ["additionalProperties", "propertyNames", "items", "additionalItems", "contains", "not"]

/-- The keywords with a list of schemas as their value. -/
def listKeywords : List String := ["items", "allOf", "anyOf", "oneOf"]

/-- The keywords with schemas by name as their value. -/
def mapKeywords : List String := ["properties", "patternProperties", "dependencies", "definitions"]

/-- The keywords of all three sorts. -/
def keywords : List String := schemaKeywords ++ listKeywords ++ mapKeywords

/-- The schemas under a keyword. Truth values are left out, since they hold nothing. -/
def heldUnder (keyword : String) : Json → List Json
  | .arr items => if keyword ∈ listKeywords then items else []
  | .obj fields =>
    if keyword ∈ mapKeywords then fields.map Prod.snd
    else if keyword ∈ schemaKeywords then [.obj fields]
    else []
  | _ => []

/-- The schemas that a schema holds. -/
def held (fields : Entries Json) : List Json :=
  fields.flatMap fun field => heldUnder field.1 field.2

/-- A schema inside of a document, or the document itself. -/
inductive Subschema (document : Json) : Json → Prop where
  | self : Subschema document document
  | held {fields : Entries Json} {inner : Json} (outer : Subschema document (.obj fields))
      (mem : inner ∈ held fields) : Subschema document inner

/-- A schema that holds nothing and refers to nothing. -/
def IsPlain (value : Json) : Prop :=
  ∀ fields, value = .obj fields → held fields = [] ∧ ∀ target, ("$ref", target) ∉ fields

theorem isPlain_arr (items : List Json) : IsPlain (.arr items) := by
  intro _ h
  cases h

theorem isPlain_pattern (pattern : Json) : IsPlain (.obj [("pattern", pattern)]) := by
  intro _ h
  cases h
  cases pattern <;> simp [held, heldUnder, mapKeywords, schemaKeywords, listKeywords]

@[simp] theorem held_nil : held [] = [] := rfl

@[simp] theorem held_cons (keyword : String) (value : Json) (fields : Entries Json) :
    held ((keyword, value) :: fields) = heldUnder keyword value ++ held fields := by
  simp [held]

@[simp] theorem held_append (fields more : Entries Json) :
    held (fields ++ more) = held fields ++ held more := by
  simp [held]

theorem heldUnder_of_unknown {keyword : String} (unknown : keyword ∉ keywords) (value : Json) :
    heldUnder keyword value = [] := by
  simp only [keywords, List.mem_append, not_or] at unknown
  cases value <;> simp [heldUnder, unknown]

theorem eq_of_mem_heldUnder (keyword : String) {fields : Entries Json} {inner : Json}
    (single : keyword ∉ mapKeywords) (mem : inner ∈ heldUnder keyword (.obj fields)) :
    inner = .obj fields := by
  simp only [heldUnder, single, if_false] at mem
  split at mem
  · exact List.mem_singleton.mp mem
  · cases mem

end Json

namespace Export

open Json

/-! ### Fields of an export -/

theorem held_field? (keyword : String) (value : Option Json) :
    held (field? keyword value) = value.toList.flatMap (heldUnder keyword) := by
  cases value <;> simp [field?]

theorem held_field?_of_unknown {keyword : String} (unknown : keyword ∉ keywords)
    (value : Option Json) : held (field? keyword value) = [] := by
  simp [held_field?, heldUnder_of_unknown unknown]

theorem held_listField (keyword : String) (items : List Json) :
    held (listField keyword items) = heldUnder keyword (.arr items) := by
  cases items <;> simp [listField, heldUnder]

theorem held_mapField (keyword : String) (fields : Entries Json) (known : keyword ∈ mapKeywords) :
    held (mapField keyword fields) = fields.map Prod.snd := by
  cases fields <;> simp [mapField, heldUnder, known]

theorem named_eq (entries : List (String × Node)) :
    named entries = entries.map fun entry => (entry.1, entry.2.toJson) := by
  induction entries with
  | nil => rfl
  | cons entry rest ih => simp [named, ih, Node.toJson]

theorem patterned_eq (entries : List (Pattern × Node)) :
    patterned entries = entries.map fun entry => (entry.1.source, entry.2.toJson) := by
  induction entries with
  | nil => rfl
  | cons entry rest ih => simp [patterned, ih, Node.toJson]

theorem values_eq (nodes : List Node) : values nodes = nodes.map Node.toJson := by
  induction nodes with
  | nil => rfl
  | cons node rest ih => simp [values, ih, Node.toJson]

theorem node_eq (node : Node) :
    Export.node node = rules node.kind ++ metadata node.options := by
  obtain ⟨options, kind⟩ := node
  rw [Export.node]

theorem held_metadata (options : NodeOptions) :
    held (metadata options) = options.definitions.map fun entry => entry.2.toJson := by
  obtain ⟨_, _, _, default, title, description, examples, allowed, _, definitions⟩ := options
  rw [metadata, held_append, held_mapField _ _ (by decide), named_eq]
  simp (disch := decide) [held_field?_of_unknown, held_listField, heldUnder_of_unknown]

theorem exists_of_held_policy {keyword : String} (single : keyword ∉ mapKeywords)
    {additional : Policy Node} {inner : Json}
    (mem : inner ∈ heldUnder keyword (policy additional)) :
    ∃ child ∈ Node.ofPolicy additional, inner = child.toJson := by
  cases additional with
  | schema node => exact ⟨node, List.mem_singleton_self _, eq_of_mem_heldUnder keyword single mem⟩
  | reject => cases mem
  | allow => cases mem

theorem held_hash {rules : HashRules} {inner : Json} (mem : inner ∈ held (hash rules)) :
    (∃ child ∈ (⟨{}, .hash rules⟩ : Node).children, inner = child.toJson) ∨
      (∃ name ∈ rules.includes, inner = reference name) ∨ inner.IsPlain := by
  obtain ⟨properties, patternProperties, additional, propertyNames, dependencies, _, _, _,
    includes⟩ := rules
  simp (disch := decide) only [hash, held_cons, held_append, held_mapField, held_listField,
    held_field?_of_unknown, heldUnder_of_unknown, held_nil, List.nil_append, List.append_nil,
    List.mem_append, List.map_map, named_eq, List.mem_map, Function.comp_apply] at mem
  simp only [Node.children, List.mem_append, List.mem_map]
  rcases mem with
    ((((⟨entry, mem, rfl⟩ | ⟨entry, mem, rfl⟩) | mem) | mem) | ⟨entry, _, rfl⟩) | mem
  · exact .inl ⟨entry.2, .inl (.inl ⟨entry, mem, rfl⟩), rfl⟩
  · have written := Entries.mem_of_mem_ofPairs mem
    rw [patterned_eq] at written
    obtain ⟨property, declared, rfl⟩ := List.mem_map.mp written
    exact .inl ⟨property.2, .inl (.inr ⟨property, declared, rfl⟩), rfl⟩
  · obtain ⟨child, owned, rfl⟩ := exists_of_held_policy (by decide) mem
    exact .inl ⟨child, .inr owned, rfl⟩
  · cases propertyNames with
    | none => cases mem
    | some pattern =>
      have same : inner = .obj [("pattern", .str pattern.source)] :=
        eq_of_mem_heldUnder "propertyNames" (by decide) (by simpa [held_field?] using mem)
      exact .inr (.inr (same ▸ isPlain_pattern _))
  · exact .inr (.inr (isPlain_arr _))
  · have listed : inner ∈ includes.map reference := by
      simpa [heldUnder, listKeywords] using mem
    obtain ⟨name, included, rfl⟩ := List.mem_map.mp listed
    exact .inr (.inl ⟨name, included, rfl⟩)

theorem held_array {rules : ArrayRules} {inner : Json} (mem : inner ∈ held (array rules)) :
    ∃ child ∈ (⟨{}, .array rules⟩ : Node).children, inner = child.toJson := by
  obtain ⟨items, additional, contains, _, _, unique, _, _, _⟩ := rules
  have flag : held (if unique then [("uniqueItems", Json.bool true)] else []) = [] := by
    cases unique <;> rfl
  simp (disch := decide) only [array, held_cons, held_append, held_field?_of_unknown,
    heldUnder_of_unknown, flag, List.nil_append, List.append_nil, List.mem_append] at mem
  simp only [Node.children, List.mem_append]
  rcases mem with mem | mem
  · cases items with
    | any => cases mem
    | list item =>
      have same : inner = item.toJson :=
        eq_of_mem_heldUnder "items" (by decide) (by simpa [shape] using mem)
      exact ⟨item, .inl (.inl (List.mem_singleton_self _)), same⟩
    | tuple positions =>
      simp only [shape, held_cons, held_nil, List.append_nil, List.mem_append, values_eq] at mem
      rcases mem with mem | mem
      · have listed : inner ∈ positions.map Node.toJson := by
          simpa [heldUnder, listKeywords] using mem
        obtain ⟨position, owned, rfl⟩ := List.mem_map.mp listed
        exact ⟨position, .inl (.inl owned), rfl⟩
      · cases additional with
        | none => cases mem
        | some policy =>
          obtain ⟨child, owned, rfl⟩ := exists_of_held_policy (by decide) mem
          exact ⟨child, .inl (.inr owned), rfl⟩
  · cases contains with
    | none => cases mem
    | some search =>
      have same : inner = search.toJson :=
        eq_of_mem_heldUnder "contains" (by decide)
          (by simpa [optional, held_field?] using mem)
      exact ⟨search, .inr (by simp), same⟩

theorem held_combination {combinator : Combinator} {alternatives : List Node} {blankAsNull : Bool}
    {inner : Json} (mem : inner ∈ held (rules (.combination combinator alternatives blankAsNull))) :
    ∃ child ∈ alternatives, inner = child.toJson := by
  have listed (h : inner ∈ alternatives.map Node.toJson) :
      ∃ child ∈ alternatives, inner = child.toJson := by
    obtain ⟨child, owned, rfl⟩ := List.mem_map.mp h
    exact ⟨child, owned, rfl⟩
  cases combinator with
  | not =>
    cases alternatives with
    | nil => cases mem
    | cons first rest =>
      have same : inner = first.toJson :=
        eq_of_mem_heldUnder "not" (by decide)
          (by simpa [rules, values, held_field?] using mem)
      exact ⟨first, List.mem_cons_self .., same⟩
  | _ =>
    refine listed ?_
    simpa [rules, keyword, values_eq, heldUnder, listKeywords] using mem

/-- What the rules of a node hold in its export are exports of its children, schemas that stand for
includes, and schemas that refer to nothing. -/
theorem held_rules {kind : Kind} {inner : Json} (mem : inner ∈ held (rules kind)) :
    (∃ child ∈ (⟨{}, kind⟩ : Node).children, inner = child.toJson) ∨
      (∃ name ∈ kind.referenced, inner = reference name) ∨ inner.IsPlain := by
  cases kind with
  | hash rules =>
    rw [Export.rules] at mem
    exact held_hash mem
  | array rules =>
    rw [Export.rules] at mem
    exact .inl (held_array mem)
  | combination combinator alternatives blankAsNull => exact .inl (held_combination mem)
  | object classes =>
    have none : held (object classes) = [] := by
      unfold object
      split <;> simp (disch := decide) [heldUnder_of_unknown]
    rw [rules, none] at mem
    cases mem
  | _ =>
    simp (disch := decide) [rules, string, numeric, heldUnder_of_unknown, held_field?_of_unknown]
      at mem

end Export

end SchemaCast
