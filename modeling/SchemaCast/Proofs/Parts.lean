import SchemaCast.Proofs.Place
import SchemaCast.Proofs.Reading

/-!
# What a check asks about

The check of a value at a place asks for checks at further places: of the value as it is at the
alternatives of a combination and at the target of a reference, and of parts of the value, or of
missing ones, everywhere else. Also the elements of an array that is read from a text are parts of
the text. Parts are not as high as the whole, where a text is as high as it is long.
-/
namespace SchemaCast

namespace Json

/-- A value is missing or a part of another one. -/
inductive Below : Json → Json → Prop where
  | missing {whole : Json} : Below .null whole
  | item {items : List Json} {item : Json} (mem : item ∈ items) : Below item (.arr items)
  | field {fields : Entries Json} {field : String × Json} (mem : field ∈ fields) :
      Below field.2 (.obj fields)
  | read {s : String} {items : List Json} {item : Json} (reads : parse? s = some (.arr items))
      (mem : item ∈ items) : Below item (.str s)

theorem below_of_get? (fields : Entries Json) (key : String) :
    ((fields.get? key).getD .null).Below (.obj fields) := by
  cases found : fields.get? key with
  | none => exact .missing
  | some value => exact .field (Entries.mem_of_get? found)

end Json

/-- The elements of a value are parts of it, also when they are read from a text. -/
theorem ArrayRules.below_of_elements {rules : ArrayRules} {value item : Json}
    {elements : List Json} (h : rules.elements value = .ok elements) (mem : item ∈ elements) :
    item.Below value := by
  cases value with
  | arr items =>
    cases h
    exact .item mem
  | str s =>
    simp only [ArrayRules.elements] at h
    split at h
    · split at h
      · next items read =>
        cases h
        exact .read read mem
      · cases h
      · cases h
    · cases h
  | _ => cases h

namespace Place

/-- A step at which a value is handed on as it is. -/
inductive Idles (context : Context) (place : Place) : Place → Prop where
  | alternative {combinator : Combinator} {alternatives : List Node} {blankAsNull : Bool}
      {node : Node} (kind : place.node.kind = .combination combinator alternatives blankAsNull)
      (owned : node ∈ alternatives) : Idles context place ⟨node, place.inner⟩
  | reference {name : String} {target : Place} (kind : place.node.kind = .reference name)
      (leads : context.place? place.inner name = some target) : Idles context place target

theorem Idles.step {context : Context} {place target : Place} (h : place.Idles context target) :
    place.Step context target := by
  cases h with
  | alternative kind owned => exact .child (by simpa [Node.children, kind] using owned)
  | reference kind leads => exact .reference kind leads

/-- The check of a value at a place asks for the check of a value at another place. -/
inductive Asks (context : Context) (place : Place) (seen : Json) : Place → Json → Prop where
  | whole {target : Place} (idle : place.Idles context target) : Asks context place seen target seen
  | part {target : Place} {value : Json} (step : place.Step context target)
      (below : value.Below seen) : Asks context place seen target value

theorem Asks.step {context : Context} {place target : Place} {seen value : Json}
    (h : place.Asks context seen target value) : place.Step context target := by
  cases h with
  | whole idle => exact idle.step
  | part step => exact step

end Place

end SchemaCast
