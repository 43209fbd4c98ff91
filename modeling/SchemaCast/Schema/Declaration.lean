import SchemaCast.Schema.Build

/-!
# Declarations

A schema may be written as a JSON value: the name of a node type, or an object that gives the type
and its options. `Node.ofJson` reads such a declaration. An option that is null counts as missing.
The shared options are read first, then those of the type in a fixed order, and last the rules are
checked against one another, so that of several mistakes the first one in this order is reported.
-/
namespace SchemaCast

/-- The types that a declaration may name. -/
inductive NodeType where
  | string
  | integer
  | number
  | boolean
  | symbol
  | object
  | hash
  | array
  | combination (combinator : Combinator)
  | reference
  deriving DecidableEq, Repr

namespace NodeType

/-- All types. -/
def all : List NodeType :=
  [.string, .integer, .number, .boolean, .symbol, .object, .hash, .array, .combination .allOf,
   .combination .anyOf, .combination .oneOf, .combination .not, .reference]

/-- The canonical name of a type. -/
def name : NodeType → String
  | .string => "string"
  | .integer => "integer"
  | .number => "number"
  | .boolean => "boolean"
  | .symbol => "symbol"
  | .object => "object"
  | .hash => "hash"
  | .array => "array"
  | .combination combinator => combinator.name
  | .reference => "reference"

/-- The other names of a type. -/
def aliases : NodeType → List String
  | .string => ["str"]
  | .integer => ["int"]
  | .number => ["num"]
  | .boolean => ["boo"]
  | .symbol => ["sym"]
  | .object => ["obj"]
  | .hash => ["hsh"]
  | .array => ["ary"]
  | .combination .not => ["not"]
  | .combination _ => []
  | .reference => ["ref"]

/-- The options of a type, besides the shared ones. -/
def options : NodeType → List String
  | .string => ["min_length", "max_length", "pattern", "format", "allow_blank"]
  | .integer | .number =>
    ["minimum", "maximum", "exclusive_minimum", "exclusive_maximum", "multiple_of", "cast_str"]
  | .boolean => ["cast_str"]
  | .symbol => []
  | .object => ["classes"]
  | .hash =>
    ["properties", "pattern_properties", "additional_properties", "property_names",
     "dependencies", "min_properties", "max_properties", "ignore_obsolete_properties",
     "includes"]
  | .array =>
    ["items", "additional_items", "contains", "min_items", "max_items", "unique_items", "filter",
     "reject", "parse_json"]
  | .combination _ => ["of", "treat_blank_as_nil"]
  | .reference => ["path"]

/-- The options that every type has. -/
def sharedOptions : List String :=
  ["type", "required", "require_key", "default", "title", "description", "examples", "enum", "as",
   "definitions"]

/-- Whether a name is the canonical name of a type or one of the others. -/
def isNamed (type : NodeType) (s : String) : Bool := type.name = s || type.aliases.contains s

/-- Whether a type has an option. -/
def accepts (type : NodeType) (option : String) : Bool :=
  sharedOptions.contains option || type.options.contains option

/-- The type with a name. -/
def ofName? (s : String) : Option NodeType := all.find? fun type => type.isNamed s

end NodeType

namespace Declaration

/-- The options of a declaration by key. -/
abbrev Options := Entries Json

/-- The value of an option that is neither missing nor null. -/
def given? (options : Options) (key : String) : Option Json :=
  (options.get? key).filter fun value => !value.isNull

/-- An option that is read by `read`, which fails with a problem. -/
def option? (read : Json → Except OptionProblem α) (options : Options) (key : String) :
    Built (Option α) :=
  match given? options key with
  | none => pure none
  | some value =>
    match read value with
    | .ok a => pure (some a)
    | .error problem => throw (.invalidOption key problem)

/-- The value that `f` finds, or a problem. -/
def orProblem (problem : OptionProblem) : Option α → Except OptionProblem α
  | some a => .ok a
  | none => .error problem

/-- A text. -/
def string? : Options → String → Built (Option String) :=
  option? fun value => orProblem .notString value.text?

/-- A number of either kind. -/
def number? : Options → String → Built (Option Number.Exact) :=
  option? fun value => orProblem .notNumber value.number?

/-- A whole number that is not negative. -/
def count? : Options → String → Built (Option Nat) :=
  option? fun value => orProblem .notCount value.nat?

/-- A truth value. -/
def bool? : Options → String → Built (Option Bool) :=
  option? fun value => orProblem .notBoolean value.bool?

/-- A truth value that is false when it is missing. -/
def flag (options : Options) (key : String) : Built Bool := do
  return (← bool? options key).getD false

/-- A list of any values. -/
def values? : Options → String → Built (Option (List Json)) :=
  option? fun
    | .arr items => .ok items
    | _ => .error .notArray

/-- A text, or a list of texts. -/
def readStrings (itemProblem problem : OptionProblem) : Json → Except OptionProblem (List String)
  | .str s => .ok [s]
  | .arr items => orProblem itemProblem (items.mapM Json.text?)
  | _ => .error problem

/-- A list of texts; a single text counts as a list of one. -/
def strings? : Options → String → Built (Option (List String)) :=
  option? (readStrings .itemsNotStrings .notStrings)

/-- The keys and targets of dependencies, in order. -/
def readDependencies : Json → Except OptionProblem (Entries (List String))
  | .obj fields =>
    fields.mapM fun field => do
      return (field.1, ← readStrings .targetItemsNotStrings .targetsNotStrings field.2)
  | _ => .error .notObject

/-- The keys that an obsolete-key option tolerates: none, all, or a list. -/
def ignored (options : Options) (key : String) : Built Ignored :=
  match given? options key with
  | none => pure .none
  | some (.bool false) => pure .none
  | some (.bool true) => pure .all
  | some _ => do return .keys ((← strings? options key).getD [])

/-- A predicate by its name. -/
def predicate? : Options → String → Built (Option Predicate) :=
  option? fun value => do
    let name ← orProblem .notString value.text?
    orProblem (.unknownPredicate name) (Predicate.named? name)

/-- The rules of a string. -/
def stringRules (options : Options) : Built StringRules := do
  let minLength ← count? options "min_length"
  let maxLength ← count? options "max_length"
  let pattern ← (← string? options "pattern").mapM Pattern.compile
  let format ← option? (fun value => do
    let name ← orProblem .notString value.text?
    orProblem (.unknownFormat name) (Format.ofName? name)) options "format"
  let allowBlank ← bool? options "allow_blank"
  return { minLength, maxLength, pattern, format, allowBlank := allowBlank.getD true }

/-- The rules of an integer or a number. -/
def numericRules (options : Options) : Built NumericRules := do
  let minimum ← number? options "minimum"
  let maximum ← number? options "maximum"
  let exclusiveMinimum ← number? options "exclusive_minimum"
  let exclusiveMaximum ← number? options "exclusive_maximum"
  let multipleOf ← number? options "multiple_of"
  let castText ← flag options "cast_str"
  return { minimum, maximum, exclusiveMinimum, exclusiveMaximum, multipleOf, castText }

/-- The kinds of values that an object node admits. -/
def classes (options : Options) : Built (List ValueKind) := do
  let names := (← strings? options "classes").getD []
  let kinds ← names.mapM fun name =>
    match ValueKind.ofName? name with
    | some kind => pure kind
    | none => throw (.invalidOption "classes" (.unknownClass name))
  return kinds.eraseDups

section Nested

variable (read : Json → Built Node)

/-- A declaration inside an option. -/
def node? (options : Options) (key : String) : Built (Option Node) := (given? options key).mapM read

/-- Declarations by name. -/
def nodeMap (options : Options) (key : String) : Built (Entries Node) :=
  match given? options key with
  | none => pure []
  | some (.obj fields) => fields.mapM fun field => do return (field.1, ← read field.2)
  | some _ => throw (.invalidOption key .notDeclarationMap)

/-- A policy: a truth value or a declaration. -/
def policy? (options : Options) (key : String) : Built (Option (Policy Node)) :=
  match given? options key with
  | none => pure none
  | some (.bool false) => pure (some .reject)
  | some (.bool true) => pure (some .allow)
  | some value => do return some (.schema (← read value))

/-- The options that every type has. -/
def nodeOptions (options : Options) : Built NodeOptions := do
  let required ← flag options "required"
  let requireKey ← flag options "require_key"
  let default := given? options "default"
  let title ← string? options "title"
  let description ← string? options "description"
  let examples ← values? options "examples"
  let allowed ← values? options "enum"
  let outputName ← string? options "as"
  let definitions ← nodeMap read options "definitions"
  return { required, requireKey, default, title, description, examples := examples.getD [],
           allowed, outputName, definitions }

/-- The rules of a hash. -/
def hashRules (options : Options) : Built HashRules := do
  let properties ← nodeMap read options "properties"
  let rules : HashRules := properties.foldl (fun rules entry => rules.property entry.1 entry.2) {}
  let patterns ← nodeMap read options "pattern_properties"
  let rules ← patterns.foldlM (fun rules entry => rules.patternProperty entry.1 entry.2) rules
  let additional ← policy? read options "additional_properties"
  let propertyNames ← (← string? options "property_names").mapM Pattern.compile
  let dependencies ← option? readDependencies options "dependencies"
  let minProperties ← count? options "min_properties"
  let maxProperties ← count? options "max_properties"
  let ignored ← ignored options "ignore_obsolete_properties"
  let includes ← strings? options "includes"
  return { rules with
    additional := additional.getD .reject
    propertyNames
    dependencies := Entries.ofPairs (dependencies.getD [])
    minProperties, maxProperties, ignored
    includes := includes.getD [] }

/-- The shape of the elements: any, a declaration for all, or one for each position. -/
def itemShape (options : Options) : Built ItemShape :=
  match given? options "items" with
  | none => pure .any
  | some (.arr items) => do return .tuple (← items.mapM read)
  | some value => do return .list (← read value)

/-- The rules of an array. -/
def arrayRules (options : Options) : Built ArrayRules := do
  let items ← itemShape read options
  let additional ← policy? read options "additional_items"
  let contains ← node? read options "contains"
  let minItems ← count? options "min_items"
  let maxItems ← count? options "max_items"
  let unique ← flag options "unique_items"
  let filter ← predicate? options "filter"
  let reject ← predicate? options "reject"
  let parseText ← flag options "parse_json"
  return { items, additional, contains, minItems, maxItems, unique, filter, reject, parseText }

/-- The alternatives of a combinator. A negation may give its one alternative without a list. -/
def alternatives (combinator : Combinator) (options : Options) : Built (List Node) :=
  match combinator, given? options "of" with
  | .not, none => throw (.invalidOption "of" .noAlternative)
  | _, none => throw (.invalidOption "of" .noAlternatives)
  | _, some (.arr items) => items.mapM read
  | .not, some value => do return [← read value]
  | _, some _ => throw (.invalidOption "of" .notDeclarations)

/-- The rules of a type. -/
def kind (options : Options) : NodeType → Built Kind
  | .string => do return .string (← stringRules options)
  | .integer => do return .integer (← numericRules options)
  | .number => do return .number (← numericRules options)
  | .boolean => do return .boolean (← flag options "cast_str")
  | .symbol => pure .symbol
  | .object => do return .object (← classes options)
  | .hash => do return .hash (← hashRules read options)
  | .array => do return .array (← arrayRules read options)
  | .combination combinator => do
    let alternatives ← alternatives read combinator options
    let blankAsNull ← flag options "treat_blank_as_nil"
    return .combination combinator alternatives blankAsNull
  | .reference => do
    match ← string? options "path" with
    | some target => return .reference target
    | none => throw (.invalidOption "path" .noReference)

/-- The node of a type name and options. -/
def build (name : String) (options : Options) : Built Node := do
  match NodeType.ofName? name with
  | none => throw (.unknownType name)
  | some type =>
    let disallowed := options.keys.filter fun key => !type.accepts key
    if !disallowed.isEmpty then throw (.disallowedOptions type.name disallowed)
    Node.ofParts (← nodeOptions read options) (← kind read options type)

/-- The node of a declaration whose inner declarations are read by `read`. -/
def readWith : Json → Built Node
  | .str name => build read name []
  | .obj options =>
    match Entries.get? options "type" with
    | some (.str name) => build read name options
    | none => throw .missingType
    | some .null => throw .missingType
    | some _ => throw (.invalidOption "type" .notString)
  | value => throw (.invalidStructure (.notDeclaration value))

end Nested

/-- The node of a declaration that nests less than `fuel` deep. -/
def read : Nat → Json → Built Node
  | 0, value => throw (.invalidStructure (.notDeclaration value))
  | fuel + 1, value => readWith (read fuel) value

end Declaration

/-- The node that a declaration describes. -/
def Node.ofJson (value : Json) : Built Node := Declaration.read value.size value

end SchemaCast
