import SchemaCast.Context
import SchemaCast.FileTree
import SchemaCast.Json.Reader
import SchemaCast.Registry.Settings
import SchemaCast.Schema.Declaration
import SchemaCast.Yaml.Reader

/-!
# Schemas kept in files

A registry finds the schema of a name in a file: `shapes/circle` is the file
`shapes/circle.<extension>` below one of the search roots. What has been read is kept. While
schemas are loaded one by one, a kept schema is used only as long as it comes from the same path
with the same time of modification; once all schemas have been loaded together, files no longer
count. Two files for one name are an error.
-/
namespace SchemaCast

/-- How far a registry has come. -/
inductive Phase where
  /-- Nothing has been loaded. -/
  | empty
  /-- Schemas are loaded when they are asked for. -/
  | partiallyLoaded
  /-- All schemas have been loaded and are final. -/
  | eagerLoaded
  deriving DecidableEq, Repr

/-- A schema that has been read from a file. -/
structure Loaded where
  node : Node
  path : String
  modified : Int
  /-- The number of the read; two answers with one number are the same schema. -/
  serial : Nat

/-- Schemas that have been read from files, and where to find more. -/
structure Registry where
  roots : List String
  extensions : List String
  phase : Phase := .empty
  schemas : Entries Loaded := []
  /-- The number of the next read. -/
  serial : Nat := 0

/-- Whether a name stands for files below the search roots: it is relative and leads only inward. -/
def isSchemaName (name : String) : Bool :=
  let steps := pathSteps name
  !name.isEmpty && !name.startsWith "/" && steps.head? != some "." && !steps.contains ".."

/-- The extension of the last step of a path, if there is one. -/
def pathExtension? (path : String) : Option String :=
  match ((pathSteps path).filter fun step => !step.isEmpty && step != ".").getLast? with
  | none => none
  | some ".." => none
  | some name => (splitExtension name).2

/-- The name of the schema in a file below a search root: the way to the file without its
extension. -/
def schemaName (location : Location) : String :=
  match location.getLast? with
  | none => ""
  | some name =>
    let stem := (splitExtension name).1
    let steps := location.dropLast
    "/".intercalate (if stem = "." && !steps.isEmpty then steps else steps ++ [stem])

/-- The value that a schema file holds: a file with the extension `json` holds JSON, any other
YAML. -/
def declaration? (path text : String) : Option Json :=
  if pathExtension? path = some "json" then Json.parse? text else Yaml.parse? text

/-- The schema in a file. -/
def readSchema (path : String) (file : File) : Except SchemaError Node :=
  match file.text? with
  | none => .error (.unreadable path)
  | some text =>
    match declaration? path text with
    | none => .error (.malformed path)
    | some value => Node.ofJson value

namespace Registry

/-- A registry that has loaded nothing yet. -/
def ofRoots (roots extensions : List String) : Registry := { roots, extensions }

/-- The names of the schemas that are kept, in order. -/
def names (registry : Registry) : List String :=
  registry.schemas.keys.mergeSort fun a b => decide (a ≤ b)

/-- The files that provide a name, root by root and extension by extension. -/
def providers (registry : Registry) (files : FileTree) (name : String) : List (String × File) :=
  registry.roots.flatMap fun root =>
    registry.extensions.filterMap fun extension =>
      let path := joinPath root (name ++ "." ++ extension)
      (files.fileAt? path).map fun file => (path, file)

/-- Keep a schema under a name. -/
def keep (registry : Registry) (name : String) (node : Node) (path : String) (modified : Int) :
    Loaded × Registry :=
  let loaded : Loaded := { node, path, modified, serial := registry.serial }
  (loaded,
    { registry with
      schemas := registry.schemas.insert name loaded
      serial := registry.serial + 1
      phase := .partiallyLoaded })

/-- Forget the schema of a name. -/
def forget (registry : Registry) (name : String) : Registry :=
  { registry with schemas := registry.schemas.erase name }

/-- What is kept under a name, if it was read from the path at its time of modification. -/
def current? (registry : Registry) (name path : String) (modified : Int) : Option Loaded :=
  (registry.schemas.get? name).filter fun loaded =>
    loaded.path = path && loaded.modified = modified

/-- The schema of a name from the one file that provides it. -/
def load (registry : Registry) (name path : String) (file : File) :
    Except SchemaError (Option Loaded) × Registry :=
  match registry.current? name path file.modified with
  | some loaded => (.ok (some loaded), registry)
  | none =>
    match readSchema path file with
    | .error error => (.error error, registry)
    | .ok node =>
      let (loaded, registry) := registry.keep name node path file.modified
      (.ok (some loaded), registry)

/-- The schema of a name, which is read from its file if need be. A name that no file provides is
forgotten; after an error everything is as before. -/
def lookup (registry : Registry) (files : FileTree) (name : String) :
    Except SchemaError (Option Loaded) × Registry :=
  if registry.phase = .eagerLoaded then (.ok (registry.schemas.get? name), registry)
  else if !isSchemaName name then (.ok none, registry)
  else
    match registry.providers files name with
    | [] => (.ok none, registry.forget name)
    | [(path, file)] => registry.load name path file
    | several => (.error (.collision name (several.map Prod.fst)), registry)

/-- Read the schema of a name again. -/
def reload (registry : Registry) (files : FileTree) (name : String) :
    Except SchemaError (Option Loaded) × Registry :=
  if registry.phase = .eagerLoaded then (.error .alreadyEagerLoaded, registry)
  else (registry.forget name).lookup files name

/-- All files below the search roots that have one of the extensions, by the name of the schema in
them. -/
def allProviders (registry : Registry) (files : FileTree) : List (String × String × File) :=
  registry.roots.flatMap fun root =>
    (files.filesBelow root).filterMap fun entry =>
      let path := if entry.1.isEmpty then root else joinPath root ("/".intercalate entry.1)
      match pathExtension? path with
      | some extension =>
        if registry.extensions.contains extension then
          some (schemaName entry.1, path, entry.2)
        else none
      | none => none

/-- The distinct names of a list, in order. -/
def distinctNames (names : List String) : List String :=
  (names.mergeSort fun a b => decide (a ≤ b)).eraseDups

/-- Read the schemas of names that files provide, in order; the first error ends it. -/
def loadAll (provided : List (String × String × File)) (serial : Nat) :
    List String → Except SchemaError (Entries Loaded)
  | [] => .ok []
  | name :: rest =>
    match (provided.filter fun entry => entry.1 = name).map Prod.snd with
    | [(path, file)] =>
      match readSchema path file with
      | .error error => .error error
      | .ok node =>
        match loadAll provided (serial + 1) rest with
        | .error error => .error error
        | .ok others =>
          .ok ((name, { node, path, modified := file.modified, serial }) :: others)
    | several =>
      .error (.collision name ((several.map Prod.fst).mergeSort fun a b => decide (a ≤ b)))

/-- Read all schema files below the search roots. From then on the schemas are final. -/
def eagerLoad (registry : Registry) (files : FileTree) : Except SchemaError Unit × Registry :=
  if registry.phase = .eagerLoaded then (.error .alreadyEagerLoaded, registry)
  else
    let provided := registry.allProviders files
    match loadAll provided registry.serial (distinctNames (provided.map Prod.fst)) with
    | .error error => (.error error, registry)
    | .ok schemas =>
      (.ok (),
        { registry with
          phase := .eagerLoaded
          schemas
          serial := registry.serial + schemas.length })

/-- The registry that settings describe. -/
def ofSettings (settings : Settings) (files : FileTree) : Except SchemaError Registry :=
  let registry := ofRoots settings.searchRoots settings.extensions
  if settings.eagerLoad then
    let (result, registry) := registry.eagerLoad files
    result.map fun _ => registry
  else .ok registry

/-- The size of the schema in a file. -/
def fileSize (entry : Location × File) : Nat :=
  match readSchema (joinPath "" ("/".intercalate entry.1)) entry.2 with
  | .ok node => node.size
  | .error _ => 0

/-- A registry as a place where schemas are found. -/
def resolver (registry : Registry) (files : FileTree) : Resolver Registry where
  external name := fun state =>
    let (result, state) := state.lookup files name
    match result with
    | .ok loaded => (.ok (loaded.map Loaded.node), state)
    | .error error => (.error (.schema error), state)
  size :=
    Schema.sizeNamed (registry.schemas.map fun entry => (entry.1, entry.2.node)) +
      files.files.foldr (fun entry size => fileSize entry + size) 0

end Registry

end SchemaCast
