import SchemaCast.Yaml.Core
import SchemaCast.Yaml.Layout
import SchemaCast.Yaml.Tree

/-!
# Reading YAML

`parse?` reads a text that holds one YAML document, or none, as a JSON value. A key has to be a
scalar and counts by its text; a key that is given again keeps its first place and takes its last
value. Collections nest at most 128 deep, also through aliases, and aliases may be followed at most
a hundred times as often as the document has parts.
-/
namespace SchemaCast.Yaml

namespace Tree

mutual

/-- The number of parts of a node: one for a scalar or alias, and for a collection its beginning,
its end and what it holds. -/
def parts : Tree → Nat
  | .scalar _ _ _ => 1
  | .alias _ => 1
  | .sequence _ items => partsOfItems items + 2
  | .mapping _ entries => partsOfEntries entries + 2

/-- The number of parts of nodes in a row. -/
def partsOfItems : List Tree → Nat
  | [] => 0
  | item :: rest => item.parts + partsOfItems rest

/-- The number of parts of the fields of a mapping. -/
def partsOfEntries : List (Tree × Tree) → Nat
  | [] => 0
  | (key, value) :: rest => key.parts + value.parts + partsOfEntries rest

end

end Tree

namespace Document

/-- The node that the aliases with a number stand for. -/
def node? (document : Document) (number : Nat) : Option Tree :=
  (document.anchored.toList.reverse.find? fun entry => entry.1 = number).map Prod.snd

/-- How many aliases have been followed; a run without a result is a document without a value. -/
abbrev Counted (α : Type) := StateT Nat Option α

/-- The node itself, or the one that it is an alias of. -/
def follow (document : Document) : Tree → Counted Tree
  | .alias number => do
    let followed := (← get) + 1
    if document.root.parts * 100 < followed then failure
    set followed
    match document.node? number with
    | some tree => return tree
    | none => failure
  | tree => return tree

/-- Whether a collection may carry a tag: only those of an application are refused. -/
def allowsTag (tag : Option String) : Bool := !tag.any fun tag => tag.startsWith "!"

/-- The text of a key. -/
def keyText (document : Document) (key : Tree) : Counted String := do
  match ← document.follow key with
  | .scalar _ _ text => return text
  | _ => failure

/-- The value of a node, with so many levels of collections left. -/
def value (document : Document) : Nat → Tree → Counted Json
  | depth, tree => do
    match ← document.follow tree with
    | .scalar tag isPlain text =>
      match Core.scalar? tag isPlain text with
      | some value => return value
      | none => failure
    | .sequence tag items =>
      match depth with
      | 0 => failure
      | depth + 1 =>
        if !allowsTag tag then failure
        return .arr (← items.mapM fun item => value document depth item)
    | .mapping tag entries =>
      match depth with
      | 0 => failure
      | depth + 1 =>
        if !allowsTag tag then failure
        let fields ← entries.mapM fun entry => do
          let key ← document.keyText entry.1
          return (key, ← value document depth entry.2)
        return .obj (Entries.ofPairs fields)
    | .alias _ => failure

/-- The value of a document. -/
def toJson? (document : Document) : Option Json :=
  (document.value 128 document.root).run' 0

end Document

/-- The value of the only document in a text. -/
def parse? (text : String) : Option Json :=
  tokens? text.toList >>= Document.ofTokens? >>= Document.toJson?

end SchemaCast.Yaml
