import MarkerTemplate.Files.Path
import MarkerTemplate.Files.Tree
import MarkerTemplate.OrderedMap

/-!
# Template sources

Where the text of a template comes from.

## Main definitions

- `Directory.pathFor?` is the file that a template id stands for
- `TemplateSource.load` gives the text of a template, if there is one
- `TemplateSource.put` and `TemplateSource.delete` change what a source holds

## Design notes

An id is a path from the root of the directory, to which the default extension is added. Whether
the id has an extension is seen from the id alone, while the extension is put on the whole path.

A template that is missing is no failure of the source.
-/

namespace MarkerTemplate

inductive TemplateError where
  | notFound (id : Text)
  | file (error : FileError)
  -- The default extension holds a slash and fits no file.
  | unusableExtension (extension : Text)
  deriving DecidableEq, Repr

def TemplateError.message : TemplateError → String
  | .notFound id => "Template not found: " ++ String.ofList id
  | .file error => "I/O error: " ++ error.message
  | .unusableExtension extension =>
    "A file extension cannot contain a slash: " ++ String.ofList extension

structure Directory where
  root : Text
  -- The extension of the files of templates whose id has none.
  extension : Text := "html".toList
  deriving DecidableEq, Repr

/-- The path of the file that an id stands for. There is none if the extension is needed and holds
a slash. -/
def Directory.pathFor? (directory : Directory) (id : Text) : Option Text :=
  let path := Path.join directory.root id
  if (Path.extension? id).isSome || directory.extension.isEmpty then some path
  else if directory.extension.contains '/' then none
  else some (Path.withExtension path directory.extension)

inductive TemplateSource where
  | memory (templates : OrderedMap Text)
  | directory (folder : Directory) (files : FileTree)

namespace TemplateSource

/-- The text of a template, or `none` if the source does not have it. -/
def load : TemplateSource → Text → Except TemplateError (Option Text)
  | .memory templates, id => .ok (templates.get? id)
  | .directory folder files, id =>
    match folder.pathFor? id with
    | none => .error (.unusableExtension folder.extension)
    | some path =>
      match files.readText path with
      | .ok s => .ok (some s)
      | .error .notFound => .ok none
      | .error error => .error (.file error)

/-- The source with the text `s` for `id`; in a directory, `id` is the name of a file. A file that
cannot be written leaves the source as it is. -/
def put : TemplateSource → Text → Text → TemplateSource
  | .memory templates, id, s => .memory (templates.insert id s)
  | .directory folder files, id, s =>
    match files.write (Path.join folder.root id) s with
    | .ok files => .directory folder files
    | .error _ => .directory folder files

/-- The source without the template `id`; in a directory, `id` is the name of a file. -/
def delete : TemplateSource → Text → TemplateSource
  | .memory templates, id => .memory (templates.erase id)
  | .directory folder files, id =>
    match files.remove (Path.join folder.root id) with
    | .ok files => .directory folder files
    | .error _ => .directory folder files

end TemplateSource

end MarkerTemplate
