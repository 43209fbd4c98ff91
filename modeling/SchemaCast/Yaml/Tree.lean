import SchemaCast.Entries
import SchemaCast.Yaml.Text

/-!
# Documents

A document is a tree of scalars, sequences and mappings, in which aliases stand for nodes that
carry an anchor. Anchors are numbered by how many names of anchors were known before; an alias has
the number of the last anchor with its name, and stands for the last node with that number.
-/
namespace SchemaCast.Yaml

/-- A node of a document. -/
inductive Tree where
  | scalar (tag : Option String) (isPlain : Bool) (text : String)
  | sequence (tag : Option String) (items : List Tree)
  | mapping (tag : Option String) (entries : List (Tree × Tree))
  | alias (number : Nat)
  deriving Inhabited

/-- A document with the nodes that carry anchors, in the order in which they begin. -/
structure Document where
  root : Tree
  anchored : Array (Nat × Tree)

/-- What is known while a document is read. -/
structure Reading where
  tokens : List Token
  /-- What the handles of tags stand for. -/
  handles : Entries String
  /-- The number of the last anchor with a name. -/
  names : Entries Nat := []
  anchored : Array (Nat × Tree) := #[]

/-- A step of reading a document. -/
abbrev Read (α : Type) := StateT Reading Option α

namespace Read

/-- The next token. -/
def peek : Read Token := fun reading =>
  match reading.tokens with
  | [] => none
  | token :: _ => some (token, reading)

/-- Go on behind the next token. -/
def skip : Read Unit := modify fun reading => { reading with tokens := reading.tokens.drop 1 }

/-- Go on behind a given token. -/
def expect (token : Token) : Read Unit := do
  if (← peek) = token then skip else failure

end Read

/-- The properties in front of a node. -/
structure Properties where
  anchor : Option String := none
  tag : Option String := none

namespace Properties

/-- The tag that a handle and a suffix stand for. -/
def tagText (handle suffix : String) : Read String := do
  if handle.isEmpty then return suffix
  match (← get).handles.get? handle with
  | some beginning => return beginning ++ suffix
  | none => failure

/-- Read an anchor and a tag, in either order. -/
def read : Read Properties := do
  match ← Read.peek with
  | .anchor name =>
    Read.skip
    match ← Read.peek with
    | .tag handle suffix =>
      Read.skip
      return { anchor := some name, tag := some (← tagText handle suffix) }
    | _ => return { anchor := some name }
  | .tag handle suffix =>
    Read.skip
    match ← Read.peek with
    | .anchor name =>
      Read.skip
      return { anchor := some name, tag := some (← tagText handle suffix) }
    | _ => return { tag := some (← tagText handle suffix) }
  | _ => return {}

/-- Whether there is an anchor or a tag. -/
def isGiven (properties : Properties) : Bool :=
  properties.anchor.isSome || properties.tag.isSome

end Properties

/-- Read a node that may carry an anchor. Its place among the anchored nodes is taken before its
content is read. -/
def anchoring (anchor : Option String) (content : Read Tree) : Read Tree := do
  match anchor with
  | none => content
  | some name =>
    let reading ← get
    let number := reading.names.length
    let place := reading.anchored.size
    set { reading with
      names := reading.names.insert name number
      anchored := reading.anchored.push (number, .alias number) }
    let tree ← content
    modify fun reading =>
      { reading with anchored := reading.anchored.setIfInBounds place (number, tree) }
    return tree

namespace Tree

/-- A node without any text. -/
def empty : Tree := .scalar none true ""

/-- The node that an alias stands for. -/
def ofAlias (name : String) : Read Tree := do
  match (← get).names.get? name with
  | some number => return .alias number
  | none => failure

/-- The tokens that end a block entry without content. -/
def endsEntry (token : Token) : Bool := token = .blockEntry || token = .blockEnd

/-- The tokens that end a key or value of a block mapping without content. -/
def endsField (token : Token) : Bool := token = .key || token = .value || token = .blockEnd

mutual

/-- Read a node. Block collections are possible only outside of brackets; a sequence without
indentation of its own only as a key or value of a block mapping. -/
def read (block indentless : Bool) : Nat → Read Tree
  | 0 => failure
  | fuel + 1 => do
    match ← Read.peek with
    | .alias name =>
      Read.skip
      ofAlias name
    | _ =>
      let properties ← Properties.read
      anchoring properties.anchor (content block indentless properties fuel)

/-- Read the content of a node. The tag `!` means nothing in front of a scalar. -/
def content (block indentless : Bool) (properties : Properties) : Nat → Read Tree
  | 0 => failure
  | fuel + 1 => do
    let tag := properties.tag
    match ← Read.peek with
    | .blockEntry =>
      if indentless then return .sequence tag (← indentlessItems fuel)
      else if properties.isGiven then return .scalar tag true ""
      else failure
    | .scalar text isPlain =>
      Read.skip
      return .scalar (if tag = some "!" then none else tag) isPlain text
    | .flowSequenceStart =>
      Read.skip
      return .sequence tag (← flowItems true fuel)
    | .flowMappingStart =>
      Read.skip
      return .mapping tag (← flowFields true fuel)
    | .blockSequenceStart =>
      if block then
        Read.skip
        return .sequence tag (← blockItems fuel)
      else if properties.isGiven then return .scalar tag true ""
      else failure
    | .blockMappingStart =>
      if block then
        Read.skip
        return .mapping tag (← blockFields fuel)
      else if properties.isGiven then return .scalar tag true ""
      else failure
    | _ => if properties.isGiven then return .scalar tag true "" else failure

/-- Read the items of a block sequence. -/
def blockItems : Nat → Read (List Tree)
  | 0 => failure
  | fuel + 1 => do
    match ← Read.peek with
    | .blockEntry =>
      Read.skip
      let item ← if endsEntry (← Read.peek) then pure empty else read true false fuel
      return item :: (← blockItems fuel)
    | .blockEnd =>
      Read.skip
      return []
    | _ => failure

/-- Read the items of a sequence without indentation of its own. -/
def indentlessItems : Nat → Read (List Tree)
  | 0 => failure
  | fuel + 1 => do
    match ← Read.peek with
    | .blockEntry =>
      Read.skip
      let next ← Read.peek
      let item ← if endsEntry next || endsField next then pure empty else read true false fuel
      return item :: (← indentlessItems fuel)
    | _ => return []

/-- Read the fields of a block mapping. -/
def blockFields : Nat → Read (List (Tree × Tree))
  | 0 => failure
  | fuel + 1 => do
    match ← Read.peek with
    | .key =>
      Read.skip
      let key ← if endsField (← Read.peek) then pure empty else read true true fuel
      let value ← blockValue fuel
      return (key, value) :: (← blockFields fuel)
    | .blockEnd =>
      Read.skip
      return []
    | _ => failure

/-- Read the value behind a key of a block mapping. -/
def blockValue : Nat → Read Tree
  | 0 => failure
  | fuel + 1 => do
    match ← Read.peek with
    | .value =>
      Read.skip
      if endsField (← Read.peek) then return empty else read true true fuel
    | _ => return empty

/-- Read the items of a sequence in brackets. A single field counts as a mapping. -/
def flowItems (first : Bool) : Nat → Read (List Tree)
  | 0 => failure
  | fuel + 1 => do
    if (← Read.peek) = .flowSequenceEnd then
      Read.skip
      return []
    if !first then Read.expect .flowEntry
    match ← Read.peek with
    | .flowSequenceEnd =>
      Read.skip
      return []
    | .key =>
      Read.skip
      let field ← flowPair fuel
      return .mapping none [field] :: (← flowItems false fuel)
    | _ =>
      let item ← read false false fuel
      return item :: (← flowItems false fuel)

/-- Read a single field in a sequence. A token that cannot begin its key is passed over. -/
def flowPair : Nat → Read (Tree × Tree)
  | 0 => failure
  | fuel + 1 => do
    let next ← Read.peek
    if next = .value || next = .flowEntry || next = .flowSequenceEnd then
      Read.skip
      return (empty, ← flowValue .flowSequenceEnd fuel)
    else
      let key ← read false false fuel
      return (key, ← flowValue .flowSequenceEnd fuel)

/-- Read the value behind a key in brackets, which end with `close`. -/
def flowValue (close : Token) : Nat → Read Tree
  | 0 => failure
  | fuel + 1 => do
    match ← Read.peek with
    | .value =>
      Read.skip
      let next ← Read.peek
      if next = .flowEntry || next = close then return empty else read false false fuel
    | _ => return empty

/-- Read the fields of a mapping in braces. -/
def flowFields (first : Bool) : Nat → Read (List (Tree × Tree))
  | 0 => failure
  | fuel + 1 => do
    if (← Read.peek) = .flowMappingEnd then
      Read.skip
      return []
    if !first then Read.expect .flowEntry
    match ← Read.peek with
    | .flowMappingEnd =>
      Read.skip
      return []
    | .key =>
      Read.skip
      let next ← Read.peek
      let key ←
        if next = .value || next = .flowEntry || next = .flowMappingEnd then pure empty
        else read false false fuel
      let value ← flowValue .flowMappingEnd fuel
      return (key, value) :: (← flowFields false fuel)
    | _ =>
      let key ← read false false fuel
      return (key, empty) :: (← flowFields false fuel)

end

end Tree

namespace Document

/-- The handles that every document knows. -/
def defaultHandles : Entries String := [("!", "!"), ("!!", "tag:yaml.org,2002:")]

/-- Read directives: at most one version, which must be 1.1 or 1.2, and every handle at most
once. -/
def directives? (seenVersion : Bool) (handles : Entries String) :
    List Token → Option (Entries String × List Token)
  | .version major minor :: rest =>
    if seenVersion || major ≠ 1 || (minor ≠ 1 && minor ≠ 2) then none
    else directives? true handles rest
  | .tagHandle handle beginning :: rest =>
    if handles.contains handle then none
    else directives? seenVersion (handles ++ [(handle, beginning)]) rest
  | tokens => some (handles, tokens)

/-- Whether nothing more comes than the ends of documents. -/
def isOver (tokens : List Token) : Bool :=
  tokens.dropWhile (· = .documentEnd) = [.streamEnd]

/-- The tokens that end a document without content. -/
def endsDocument : Token → Bool
  | .version _ _ => true
  | .tagHandle _ _ => true
  | .documentStart => true
  | .documentEnd => true
  | .streamEnd => true
  | _ => false

/-- Read the content of a document, the only one. -/
def content? (handles : Entries String) (mayBeEmpty : Bool) (tokens : List Token) :
    Option Document :=
  if mayBeEmpty && (tokens.head?.map endsDocument).getD true then
    if isOver tokens then some ⟨.empty, #[]⟩ else none
  else
    match (Tree.read true false (2 * tokens.length + 2)).run { tokens, handles } with
    | some (root, reading) =>
      if isOver reading.tokens then some ⟨root, reading.anchored⟩ else none
    | none => none

/-- The document that tokens spell; without any token it is empty. -/
def ofTokens? (tokens : List Token) : Option Document :=
  match tokens with
  | [.streamEnd] => some ⟨.empty, #[]⟩
  | token :: _ =>
    if endsDocument token && token ≠ .documentEnd then
      match directives? false [] tokens with
      | some (handles, .documentStart :: rest) =>
        let defaults := defaultHandles.filter fun handle => !handles.contains handle.1
        content? (handles ++ defaults) true rest
      | _ => none
    else content? defaultHandles false tokens
  | [] => none

end Document

end SchemaCast.Yaml
