/-!
# A tree of files

Files are kept by their location, which is the list of names that leads to them. A path is a text
in which slashes divide steps: an empty step or a dot stays where it is, two dots go back out, any
other step goes in. A step can only be taken from a directory, so a path that goes on behind a file
leads nowhere.

Every path, a search root included, is taken from the top of the tree, which is the working
directory; a path that begins with a slash or climbs above the top leads out of the tree, that is
nowhere. Nothing is lost by that. Of a search root only two things count: the place where it leads,
and its text, which is a prefix of the paths that errors name. A root that lies elsewhere, absolute
or not, therefore does what a root of another name does that leads to the same files in the tree.
-/
namespace SchemaCast

/-- The names that lead from the top of a tree to a place in it. -/
abbrev Location := List String

/-- A regular file. -/
structure File where
  contents : ByteArray
  /-- When the file was last written, in seconds. -/
  modified : Int

/-- The text of a file, if it is well-formed UTF-8. -/
def File.text? (file : File) : Option String := String.fromUTF8? file.contents

/-- Regular files and directories. -/
structure FileTree where
  files : List (Location × File) := []
  /-- All directories but the top. -/
  directories : List Location := []

/-- The pieces of a list between the places where `c` stands. -/
def piecesAt (c : Char) : List Char → List (List Char)
  | [] => [[]]
  | d :: rest =>
    if d = c then [] :: piecesAt c rest
    else
      match piecesAt c rest with
      | [] => [[d]]
      | piece :: pieces => (d :: piece) :: pieces

/-- The steps of a path. -/
def pathSteps (path : String) : List String := (piecesAt '/' path.toList).map String.ofList

/-- The path that goes on behind a path. -/
def joinPath (outer inner : String) : String :=
  if outer.isEmpty || outer.endsWith "/" then outer ++ inner else outer ++ "/" ++ inner

/-- Whether a file or directory can have the name: at most 255 bytes, none of them zero. -/
def isFileName (name : String) : Bool := name.utf8ByteSize ≤ 255 && !name.toList.contains '\x00'

/-- A file name before its last dot, and behind it; a name with nothing before the last dot has no
extension. -/
def splitExtension (name : String) : String × Option String :=
  let behind := name.toList.reverse.takeWhile (· ≠ '.')
  match name.toList.reverse.dropWhile (· ≠ '.') with
  | [] => (name, none)
  | [_] => (name, none)
  | _ :: before => (String.ofList before.reverse, some (String.ofList behind.reverse))

namespace FileTree

/-- The file at a location. -/
def file? (tree : FileTree) (location : Location) : Option File :=
  (tree.files.find? fun entry => entry.1 = location).map Prod.snd

/-- Whether a location is a directory. -/
def isDirectory (tree : FileTree) (location : Location) : Bool :=
  location.isEmpty || tree.directories.contains location

/-- Where steps lead to from a location; nothing needs to be there. -/
def walk (tree : FileTree) (here : Location) : List String → Option Location
  | [] => some here
  | step :: rest =>
    if !tree.isDirectory here then none
    else if step.isEmpty || step = "." then walk tree here rest
    else if step = ".." then
      if here.isEmpty then none else walk tree here.dropLast rest
    else if isFileName step then walk tree (here ++ [step]) rest
    else none

/-- Where a path leads to. -/
def locate (tree : FileTree) (path : String) : Option Location :=
  if path.startsWith "/" then none else tree.walk [] (pathSteps path)

/-- The regular file that a path leads to. -/
def fileAt? (tree : FileTree) (path : String) : Option File := tree.locate path >>= tree.file?

/-- The regular files that a walk from a path comes by, each with the names that lead from the path
to it. A walk looks at its path first, and nothing is to be seen at the empty path, although the
paths that go on behind it do lead somewhere. -/
def filesBelow (tree : FileTree) (path : String) : List (Location × File) :=
  if path.isEmpty then []
  else
    match tree.locate path with
    | none => []
    | some top =>
      tree.files.filterMap fun entry =>
        if top.isPrefixOf entry.1 then some (entry.1.drop top.length, entry.2) else none

/-- Make a directory at a location, unless a file is there. -/
def addDirectory (tree : FileTree) (location : Location) : FileTree :=
  if tree.isDirectory location || (tree.file? location).isSome then tree
  else { tree with directories := tree.directories ++ [location] }

/-- Make all directories that steps go through, and the location they lead to. -/
def makePath (tree : FileTree) (here : Location) : List String → Option (FileTree × Location)
  | [] => some (tree, here)
  | step :: rest =>
    let tree := tree.addDirectory here
    if !tree.isDirectory here then none
    else if step.isEmpty || step = "." then makePath tree here rest
    else if step = ".." then
      if here.isEmpty then none else makePath tree here.dropLast rest
    else if isFileName step then makePath tree (here ++ [step]) rest
    else none

/-- Write a file, with the directories that lead to it. Nothing happens where no file can be. -/
def write (tree : FileTree) (path : String) (file : File) : FileTree :=
  match tree.makePath [] (pathSteps path) with
  | none => tree
  | some (tree, location) =>
    if tree.isDirectory location then tree
    else
      { tree with
        files := (tree.files.filter fun entry => entry.1 ≠ location) ++ [(location, file)] }

/-- Make a directory, with those that lead to it. -/
def makeDirectory (tree : FileTree) (path : String) : FileTree :=
  match tree.makePath [] (pathSteps path) with
  | none => tree
  | some (tree, location) => tree.addDirectory location

/-- Remove a file, or a directory with everything below it. -/
def remove (tree : FileTree) (path : String) : FileTree :=
  match tree.locate path with
  | none => tree
  | some location =>
    { files := tree.files.filter fun entry => !location.isPrefixOf entry.1
      directories := tree.directories.filter fun directory => !location.isPrefixOf directory }

end FileTree

end SchemaCast
