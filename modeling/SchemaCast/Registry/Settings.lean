import SchemaCast.Json.Basic

/-!
# Settings of a registry

Settings are given as an object, in which other keys are ignored, or as an array of at most three
values in the order of the fields. What is not given has a default; `null` is not a value of any
field.
-/
namespace SchemaCast

/-- Where schema files are searched, and when they are read. -/
structure Settings where
  /-- The directories that are searched, in order. -/
  searchRoots : List String := []
  /-- The extensions that are tried for each name, without the dot. -/
  extensions : List String := ["json", "yaml", "yml"]
  /-- Whether all schemas are read at the start. -/
  eagerLoad : Bool := false
  deriving DecidableEq, Repr

namespace Settings

/-- The extensions that are tried unless others are given. -/
def defaultExtensions : List String := ({} : Settings).extensions

/-- The texts of an array of strings. -/
def texts? : Json → Option (List String)
  | .arr items => items.mapM Json.text?
  | _ => none

/-- A field that may be left out. -/
def field? {α : Type} (read : Json → Option α) (default : α) : Option Json → Option α
  | none => some default
  | some value => read value

/-- Settings from the values of their fields. -/
def ofFields? (searchRoots extensions eagerLoad : Option Json) : Option Settings := do
  let defaults : Settings := {}
  let searchRoots ← field? texts? defaults.searchRoots searchRoots
  let extensions ← field? texts? defaults.extensions extensions
  let eagerLoad ← field? Json.bool? defaults.eagerLoad eagerLoad
  return { searchRoots, extensions, eagerLoad }

/-- The settings that a value describes. -/
def ofJson? : Json → Option Settings
  | .obj fields =>
    ofFields? (Entries.get? fields "search_roots") (Entries.get? fields "extensions")
      (Entries.get? fields "eager_load")
  | .arr values =>
    if values.length ≤ 3 then ofFields? values[0]? values[1]? values[2]? else none
  | _ => none

/-- Settings as an object with all fields. -/
def toJson (settings : Settings) : Json :=
  .obj
    [("search_roots", .arr (settings.searchRoots.map .str)),
      ("extensions", .arr (settings.extensions.map .str)),
      ("eager_load", .bool settings.eagerLoad)]

theorem ofJson?_toJson (settings : Settings) : ofJson? settings.toJson = some settings := by
  have texts (xs : List String) : texts? (.arr (xs.map .str)) = some xs := by
    induction xs with
    | nil => rfl
    | cons x xs ih =>
      have ih : (xs.map Json.str).mapM Json.text? = some xs := ih
      simp [texts?, Json.text?, ih]
  simp [ofJson?, toJson, ofFields?, field?, Entries.get?, texts, Json.bool?]

end Settings

end SchemaCast
