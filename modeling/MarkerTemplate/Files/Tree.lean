import MarkerTemplate.Text

/-!
# File trees

The files of a machine as a value, and what reading and writing them by path comes to.

## Main definitions

- `FileTree` says what is found at each location
- `FileTree.readText` reads the text of a file
- `FileTree.write` gives the tree with a file written
- `FileError` says why a file cannot be read or written

## Design notes

A path is followed name by name from the root or from the current directory. All that is passed
on the way must be a directory, also where the path only goes on with a slash or a point. The first
thing that goes wrong on the way is the error.

Writing creates a file or replaces its content. It makes no directory, and it changes one
location only.
-/

namespace MarkerTemplate

inductive FileError where
  | notFound
  | notADirectory
  | isADirectory
  | nameTooLong
  | nulInName
  | notUtf8
  -- A failure outside this library's knowledge, in the words of the system.
  | other (description : String)
  deriving DecidableEq, Repr

def FileError.message : FileError → String
  | .notFound => "No such file or directory (os error 2)"
  | .notADirectory => "Not a directory (os error 20)"
  | .isADirectory => "Is a directory (os error 21)"
  | .nameTooLong => "File name too long (os error 36)"
  | .nulInName => "file name contained an unexpected NUL byte"
  | .notUtf8 => "stream did not contain valid UTF-8"
  | .other description => description

inductive FileNode where
  | directory
  | file (content : ByteArray)

abbrev Location := List Text

def decodeUtf8 (bytes : ByteArray) : Except FileError Text :=
  match String.fromUTF8? bytes with
  | some s => .ok s.toList
  | none => .error .notUtf8

def encodeUtf8 (s : Text) : ByteArray :=
  (String.ofList s).toUTF8

def maxNameLength : Nat :=
  255

def maxPathLength : Nat :=
  4095

structure FileTree where
  -- What is found at a location other than the root, which is a directory.
  nodeBelowRoot? : Location → Option FileNode
  -- The directory from which relative paths are followed.
  here : Location

namespace FileTree

def node? (tree : FileTree) (location : Location) : Option FileNode :=
  if location = [] then some .directory else tree.nodeBelowRoot? location

/-- The tree with something else at a location. -/
def set (tree : FileTree) (location : Location) (node : Option FileNode) : FileTree :=
  { tree with
    nodeBelowRoot? := fun other => if other = location then node else tree.nodeBelowRoot? other }

/-- The tree with nothing in it but the current directory. -/
def bare (here : Location) : FileTree :=
  ⟨fun location => if location.isPrefixOf here then some .directory else none, here⟩

/-- The place reached from `location` by following names. -/
def follow (tree : FileTree) (location : Location) : List Text → Except FileError Location
  | [] => .ok location
  | name :: names =>
    match tree.node? location with
    | some .directory =>
      if name = [] ∨ name = ['.'] then tree.follow location names
      else if name = ['.', '.'] then tree.follow location.dropLast names
      else if maxNameLength < Text.utf8Length name then .error .nameTooLong
      else if (tree.node? (location ++ [name])).isNone then .error .notFound
      else tree.follow (location ++ [name]) names
    | some (.file _) => .error .notADirectory
    | none => .error .notFound

/-- Where following a path begins, and the names to follow. The path must be one that can be
followed at all. -/
def start (tree : FileTree) (path : Text) : Except FileError (Location × List Text) :=
  if path.contains '\x00' then .error .nulInName
  else if path = [] then .error .notFound
  else if maxPathLength < Text.utf8Length path then .error .nameTooLong
  else
    let pieces := Text.splitAll ['/'] path
    if pieces.first = [] then .ok ([], pieces.later)
    else .ok (tree.here, pieces.first :: pieces.later)

def readBytes (tree : FileTree) (path : Text) : Except FileError ByteArray := do
  let (location, names) ← tree.start path
  let location ← tree.follow location names
  match tree.node? location with
  | some (.file content) => return content
  | some .directory => throw .isADirectory
  | none => throw .notFound

def readText (tree : FileTree) (path : Text) : Except FileError Text := do
  decodeUtf8 (← tree.readBytes path)

/-- The location of the file that writing to a path creates or replaces. Its directory must be
there. -/
def target (tree : FileTree) (path : Text) : Except FileError Location := do
  let (location, names) ← tree.start path
  let names := names.reverse
  match names.dropWhile (· = []) with
  | [] => throw .isADirectory
  | name :: before =>
    let location ← tree.follow location (before.reverse ++ [[]])
    if names.head? = some [] ∨ name = ['.'] ∨ name = ['.', '.'] then throw .isADirectory
    else if maxNameLength < Text.utf8Length name then throw .nameTooLong
    else
      match tree.node? (location ++ [name]) with
      | some .directory => throw .isADirectory
      | _ => return location ++ [name]

/-- The tree with the text written to the file at a path. -/
def write (tree : FileTree) (path : Text) (s : Text) : Except FileError FileTree := do
  let location ← tree.target path
  return tree.set location (some (.file (encodeUtf8 s)))

def remove (tree : FileTree) (path : Text) : Except FileError FileTree := do
  let (location, names) ← tree.start path
  let location ← tree.follow location names
  match tree.node? location with
  | some (.file _) => return tree.set location none
  | some .directory => throw .isADirectory
  | none => throw .notFound

/-- The tree with something put at a location and with directories all the way to it. -/
def plant (tree : FileTree) (location : Location) (node : FileNode) : FileTree :=
  let above := (List.range location.length).map location.take
  (above.foldl (fun tree directory => tree.set directory (some .directory)) tree).set location
    (some node)

end FileTree

end MarkerTemplate
