import SchemaCast.Schema.Node

/-!
# Export

A schema can be written as a JSON value in the vocabulary of JSON Schema. The export shows the
structure and the constraints of every node; a reference becomes a pointer into `definitions`, and
so does every include. Rules without a counterpart there are left out.

A token of a JSON Pointer stands for a key; in it the tilde is written `~0` and the slash `~1`. To
read a token back, `~1` becomes a slash first and `~0` a tilde afterwards.
-/
namespace SchemaCast

namespace Pointer

/-- A character of a key as it stands in a token. -/
def escapeChar (c : Char) : List Char :=
  if c = '~' then ['~', '0'] else if c = '/' then ['~', '1'] else [c]

/-- The token of a key. -/
def escape (key : String) : String := String.ofList (key.toList.flatMap escapeChar)

/-- Replace a tilde followed by `mark` with `c`, everywhere. -/
def replaceMark (mark c : Char) : List Char → List Char
  | '~' :: d :: rest =>
    if d = mark then c :: replaceMark mark c rest else '~' :: replaceMark mark c (d :: rest)
  | d :: rest => d :: replaceMark mark c rest
  | [] => []

/-- The key of a token. -/
def unescape (token : String) : String :=
  String.ofList (replaceMark '0' '~' (replaceMark '1' '/' token.toList))

/-- The pointer to the definition of a name. -/
def toDefinition (name : String) : String := "#/definitions/" ++ escape name

end Pointer

namespace Export

/-- A field that is there if it has a value. -/
def field? (key : String) (value : Option Json) : Entries Json :=
  match value with
  | some value => [(key, value)]
  | none => []

/-- A field that is there if a list is not empty. -/
def listField (key : String) (items : List Json) : Entries Json :=
  if items.isEmpty then [] else [(key, .arr items)]

/-- A field that is there if a map is not empty. -/
def mapField (key : String) (fields : Entries Json) : Entries Json :=
  if fields.isEmpty then [] else [(key, .obj fields)]

/-- A count. -/
def count (n : Nat) : Json := .int n

/-- A bound: an integer if it is one and exactly known, else a double, else null. -/
def bound (x : Number.Exact) : Json :=
  match x.toInt? with
  | some n => if n.natAbs < 9007199254740992 then .int n else .float x.toFloat
  | none => if x.isFinite then .float x.toFloat else .null

/-- The pointer that stands for a schema with a name. -/
def reference (name : String) : Json := .obj [("$ref", .str (Pointer.toDefinition name))]

/-- The fields of a string. -/
def string (rules : StringRules) : Entries Json :=
  ("type", .str "string") ::
    (field? "minLength" (rules.minLength.map count) ++
      field? "maxLength" (rules.maxLength.map count) ++
      field? "pattern" (rules.pattern.map fun pattern => .str pattern.source) ++
      field? "format" (rules.format.map fun format => .str format.name))

/-- The fields of a number with a type name. -/
def numeric (type : String) (rules : NumericRules) : Entries Json :=
  ("type", .str type) ::
    (field? "minimum" (rules.minimum.map bound) ++
      field? "maximum" (rules.maximum.map bound) ++
      field? "exclusiveMinimum" (rules.exclusiveMinimum.map bound) ++
      field? "exclusiveMaximum" (rules.exclusiveMaximum.map bound) ++
      field? "multipleOf" (rules.multipleOf.map bound))

/-- The fields of an object node: one class by name, several as a list. -/
def object (classes : List ValueKind) : Entries Json :=
  match classes with
  | [] => []
  | [kind] => [("type", .str kind.name)]
  | kinds => [("type", .arr (kinds.map fun kind => .str kind.name))]

/-- The names of the properties that are required. -/
def requiredNames (properties : List (String × Node)) : List Json :=
  (properties.filter fun entry => entry.2.options.required).map fun entry => .str entry.1

/-- The keyword of a combinator with many alternatives. -/
def keyword : Combinator → String
  | .allOf => "allOf"
  | .anyOf => "anyOf"
  | .oneOf => "oneOf"
  | .not => "not"

mutual

/-- The fields of a node. -/
def node : Node → Entries Json
  | ⟨options, kind⟩ => rules kind ++ metadata options

/-- The fields of the options of a node. -/
def metadata : NodeOptions → Entries Json
  | ⟨_, _, _, default, title, description, examples, allowed, _, definitions⟩ =>
    field? "title" (title.map .str) ++ field? "description" (description.map .str) ++
      listField "examples" examples ++ field? "enum" (allowed.map .arr) ++
      field? "default" default ++ mapField "definitions" (named definitions)

/-- The fields of the rules of a node. -/
def rules : Kind → Entries Json
  | .string rules => string rules
  | .integer rules => numeric "integer" rules
  | .number rules => numeric "number" rules
  | .boolean _ => [("type", .str "boolean")]
  | .symbol => [("type", .str "string")]
  | .object classes => object classes
  | .hash rules => hash rules
  | .array rules => array rules
  | .combination .not alternatives _ => field? "not" (values alternatives).head?
  | .combination combinator alternatives _ => [(keyword combinator, .arr (values alternatives))]
  | .reference target => [("$ref", .str (Pointer.toDefinition target))]

/-- The fields of a hash. -/
def hash : HashRules → Entries Json
  | ⟨properties, patternProperties, additional, propertyNames, dependencies, minProperties,
      maxProperties, _, includes⟩ =>
    ("type", .str "object") ::
      (mapField "properties" (named properties) ++
        listField "required" (requiredNames properties) ++
        mapField "patternProperties" (Entries.ofPairs (patterned patternProperties)) ++
        [("additionalProperties", policy additional)] ++
        field? "propertyNames"
          (propertyNames.map fun pattern => .obj [("pattern", .str pattern.source)]) ++
        mapField "dependencies"
          (dependencies.map fun entry => (entry.1, .arr (entry.2.map .str))) ++
        field? "minProperties" (minProperties.map count) ++
        field? "maxProperties" (maxProperties.map count) ++
        listField "allOf" (includes.map reference))

/-- The fields of an array. -/
def array : ArrayRules → Entries Json
  | ⟨items, additional, contains, minItems, maxItems, unique, _, _, _⟩ =>
    ("type", .str "array") ::
      (shape (tail additional) items ++ field? "contains" (optional contains) ++
        field? "minItems" (minItems.map count) ++ field? "maxItems" (maxItems.map count) ++
        if unique then [("uniqueItems", .bool true)] else [])

/-- The fields of the shape of an array; only a tuple has a tail. -/
def shape (tail : Json) : ItemShape → Entries Json
  | .any => []
  | .list item => [("items", .obj (node item))]
  | .tuple positions => [("items", .arr (values positions)), ("additionalItems", tail)]

/-- The export of a policy. -/
def policy : Policy Node → Json
  | .reject => .bool false
  | .allow => .bool true
  | .schema n => .obj (node n)

/-- The export of the policy for the tail of a tuple; none rejects. -/
def tail : Option (Policy Node) → Json
  | none => .bool false
  | some p => policy p

/-- The export of a node that may be missing. -/
def optional : Option Node → Option Json
  | none => none
  | some n => some (.obj (node n))

/-- The exports of nodes by name. -/
def named : List (String × Node) → Entries Json
  | [] => []
  | (name, n) :: rest => (name, .obj (node n)) :: named rest

/-- The exports of nodes by the written form of their pattern. -/
def patterned : List (Pattern × Node) → List (String × Json)
  | [] => []
  | (pattern, n) :: rest => (pattern.source, .obj (node n)) :: patterned rest

/-- The exports of nodes in a row. -/
def values : List Node → List Json
  | [] => []
  | n :: rest => .obj (node n) :: values rest

end

end Export

/-- The export of a node, with its own definitions. -/
def Node.toJson (node : Node) : Json := .obj (Export.node node)

end SchemaCast
