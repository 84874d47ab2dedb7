import MarkerTemplate.Text

/-!
# Paths

Paths as texts, taken apart at their slashes without a look at any file.

## Main definitions

- `Path.join` puts a path behind a directory
- `Path.lastNamed?` finds the last name of a path, and what stands before it
- `Path.extension?` and `Path.withExtension` read and replace the ending of the last name
- `Path.isStandardStream` recognises the path that means the standard output

## Design notes

A segment that is empty or a single point stands for no step, unless it comes first. Such segments
at the end of a path are passed over when its last name is looked for, and they are lost when its
extension is replaced.
-/

namespace MarkerTemplate

namespace Path

/-- The path `path` seen from the directory `directory`. A path that begins with a slash is taken
as it is. -/
def join (directory path : Text) : Text :=
  if ['/'].isPrefixOf path then path
  else if directory.isEmpty || ['/'].isSuffixOf directory then directory ++ path
  else directory ++ '/' :: path

/-- The segments between the slashes, the last one first. -/
def segmentsFromEnd (path : Text) : List Text :=
  let pieces := Text.splitAll ['/'] path
  (pieces.first :: pieces.later).reverse

/-- The segments from the end without those that stand for no step. The first segment of the path
stays. -/
def dropIdle : List Text → List Text
  | [] => []
  | [first] => [first]
  | segment :: segments =>
    if segment = [] ∨ segment = ['.'] then dropIdle segments else segment :: segments

/-- The last name of a path and the text before it. -/
structure Entry where
  -- The text before the name, which is empty or ends in a slash.
  parent : Text
  name : Text
  deriving DecidableEq, Repr

/-- The last name of a path, if it ends in a name and not in a step upwards or in nothing. -/
def lastNamed? (path : Text) : Option Entry :=
  match dropIdle (segmentsFromEnd path) with
  | [] => none
  | name :: before =>
    if name = [] ∨ name = ['.'] ∨ name = ['.', '.'] then none
    else some ⟨before.reverse.flatMap (· ++ ['/']), name⟩

/-- A name without its extension, and the extension: what stands behind its last point. A point
at the very beginning does not count. -/
def splitName (name : Text) : Text × Option Text :=
  match Text.splitOnce? ['.'] name.reverse with
  | none => (name, none)
  | some (extension, stem) =>
    if stem.isEmpty then (name, none) else (stem.reverse, some extension.reverse)

def extension? (path : Text) : Option Text :=
  (lastNamed? path).bind fun entry => (splitName entry.name).2

/-- The path with another extension at its last name. A path without a last name stays as it
is. -/
def withExtension (path extension : Text) : Text :=
  match lastNamed? path with
  | none => path
  | some entry => entry.parent ++ (splitName entry.name).1 ++ '.' :: extension

/-- Whether the path is the name `-`, which stands for the standard output. -/
def isStandardStream (path : Text) : Bool :=
  dropIdle (segmentsFromEnd path) = [['-']]

end Path

end MarkerTemplate
