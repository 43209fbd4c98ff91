import SchemaCast.Json.Printer
import SchemaCast.Text.Quoted

/-!
# Errors in schemas

A schema can be broken in its own right, whatever the data: its declaration is malformed, its
constraints cannot be met, a name leads nowhere, a schema file cannot be used. `SchemaError` names
the cause and `SchemaError.message` words it.
-/
namespace SchemaCast

open Text

/-- What is wrong with the value of an option. -/
inductive OptionProblem where
  | notString
  | notNumber
  | notCount
  | notBoolean
  | notStrings
  | itemsNotStrings
  | notArray
  | notDeclarations
  | notDeclarationMap
  | notObject
  | targetsNotStrings
  | targetItemsNotStrings
  | unknownFormat (name : String)
  | unknownClass (name : String)
  | unknownPredicate (name : String)
  | notPositive
  | emptyDependency
  | emptyInclude
  | noAlternatives
  | noAlternative
  | noReference
  deriving DecidableEq, Repr

/-- The wording of a problem. -/
def OptionProblem.message : OptionProblem → String
  | .notString => "must be a string"
  | .notNumber => "must be a number"
  | .notCount => "must be a non-negative integer"
  | .notBoolean => "must be a boolean"
  | .notStrings => "must be a string or an array of strings"
  | .itemsNotStrings => "items must be strings"
  | .notArray => "must be an array"
  | .notDeclarations => "must be an array of schemas"
  | .notDeclarationMap => "must be an object of schemas"
  | .notObject => "must be an object"
  | .targetsNotStrings => "targets must be a string or an array of strings"
  | .targetItemsNotStrings => "targets must be strings"
  | .unknownFormat name => "unknown format " ++ quoted name
  | .unknownClass name => "unknown class " ++ quoted name
  | .unknownPredicate name => "unknown predicate " ++ quoted name
  | .notPositive => "must be a positive number"
  | .emptyDependency => "keys and targets must be non-empty"
  | .emptyInclude => "names must be non-empty"
  | .noAlternatives => "alternatives must be given"
  | .noAlternative => "alternative must be given"
  | .noReference => "reference name must be given"

/-- Why a schema can never be used. -/
inductive StructureProblem where
  | notDeclaration (value : Json)
  | lowerAboveUpper (lower upper : String)
  | requiredPattern (source : String)
  | additionalAndIgnored
  | additionalWithoutTuple
  /-- A combinator with a name takes as many alternatives as `expected` says. -/
  | arity (name expected : String) (count : Nat)
  | includeNotHash (name type : String)

/-- The wording of a problem. -/
def StructureProblem.message : StructureProblem → String
  | .notDeclaration value =>
    "Schema declaration must be a type name or an object, got " ++ value.render
  | .lowerAboveUpper lower upper =>
    "Option " ++ quoted lower ++ " can't be greater than " ++ quoted upper
  | .requiredPattern source => "Pattern properties can't be required: " ++ quoted source
  | .additionalAndIgnored =>
    "Options \"additional_properties\" and \"ignore_obsolete_properties\" can't both be true"
  | .additionalWithoutTuple => "Option \"additional_items\" can only be used with tuple items"
  | .arity name expected count =>
    "Node " ++ quoted name ++ " takes " ++ expected ++ " alternative(s), got " ++
      Number.intText count
  | .includeNotHash name type =>
    "Included schema " ++ quoted name ++ " must be a hash, got " ++ quoted type

/-- A broken schema. -/
inductive SchemaError where
  | missingType
  | unknownType (name : String)
  | disallowedOptions (type : String) (options : List String)
  | invalidOption (option : String) (problem : OptionProblem)
  | invalidStructure (problem : StructureProblem)
  | invalidPattern (source : String)
  | unresolvedReference (name : String)
  | collision (name : String) (paths : List String)
  | alreadyEagerLoaded
  | unreadable (path : String)
  | malformed (path : String)

/-- The wording of an error. -/
def SchemaError.message : SchemaError → String
  | .missingType => "Node type must be given"
  | .unknownType name => "Unknown node type " ++ quoted name
  | .disallowedOptions type options =>
    "Options " ++ quotedList options ++ " are not allowed for node type " ++ quoted type
  | .invalidOption option problem => "Invalid option " ++ quoted option ++ ": " ++ problem.message
  | .invalidStructure problem => "Invalid schema: " ++ problem.message
  | .invalidPattern source => "Invalid pattern " ++ quoted source
  | .unresolvedReference name => "Schema " ++ quoted name ++ " not found"
  | .collision name paths =>
    "Schema " ++ quoted name ++ " is defined more than once: " ++
      bracketed (paths.map quotedPath)
  | .alreadyEagerLoaded => "Global context has already been eager loaded"
  | .unreadable path => "Could not read schema file " ++ path
  | .malformed path => "Could not parse schema file " ++ path

end SchemaCast
