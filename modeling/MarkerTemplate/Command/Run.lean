import MarkerTemplate.Command.Arguments
import MarkerTemplate.Command.Assignment
import MarkerTemplate.Files.Path
import MarkerTemplate.Files.Tree
import MarkerTemplate.Merge

/-!
# Running commands

What a command writes, given the files that it reads.

## Main definitions

- `Command.result` is the text that a command makes
- `Command.deliver` puts it where the command wants it: on the standard output or in a file
- `Command.run` is the outcome on a tree of files: the failure, if there is one, the standard
  output and the files
- `CommandError` says why a command fails

## Design notes

`Command.result` only reads. It takes the way of reading files as an argument, so the same function
serves a tree of files held as a value and the files of a machine. Nothing is written before the
whole text is there, so a command that fails leaves everything as it was.
-/

namespace MarkerTemplate

inductive CommandError where
  | template (path : Text) (error : FileError)
  | data (path : Text) (error : FileError)
  | notJson (path : Text) (error : Json.ReadError)
  | notVariables (path : Text) (error : DataError)
  | notACollection (path : Text)
  | assignment (error : AssignmentError)
  | output (path : Text) (error : FileError)
  deriving DecidableEq, Repr

def CommandError.message : CommandError → String
  | .template path error => s!"Failed to read template: {String.ofList path}: {error.message}"
  | .data path error => s!"Failed to read file: {String.ofList path}: {error.message}"
  | .notJson path error => s!"Invalid JSON in {String.ofList path}: {error.message}"
  | .notVariables path error =>
    s!"Invalid variables file: {String.ofList path}: {error.message}"
  | .notACollection path => s!"Items must be a JSON array or object: {String.ofList path}"
  | .assignment error => error.message
  | .output path error => s!"Failed to write output: {String.ofList path}: {error.message}"

/-- A way to read the bytes of the file at a path. -/
abbrev FileReader := Text → Except FileError ByteArray

namespace FileReader

def text (read : FileReader) (path : Text) : Except FileError Text := do
  decodeUtf8 (← read path)

def template (read : FileReader) (path : Text) : Except CommandError Text :=
  (read.text path).mapError (.template path)

def data (read : FileReader) (path : Text) : Except CommandError Json := do
  let s ← (read.text path).mapError (.data path)
  (Json.read s).mapError (.notJson path)

/-- The collection in a file. -/
def collection (read : FileReader) (path : Text) : Except CommandError Collection := do
  let json ← read.data path
  match Collection.ofJson? json with
  | none => throw (.notACollection path)
  | some collection => return collection

end FileReader

namespace Settings

/-- The variables in the file, if one is given. -/
def fileVariables (settings : Settings) (read : FileReader) : Except CommandError Variables :=
  match settings.vars with
  | none => .ok .empty
  | some path => do
    let json ← read.data path
    let vars := if settings.flatten then Variables.ofJsonFlattened json else Variables.ofJson json
    vars.mapError (.notVariables path)

/-- The variables with those given one by one, which win over earlier ones. -/
def assign : List Text → Variables → Except CommandError Variables
  | [], vars => .ok vars
  | assignment :: assignments, vars => do
    let (key, value) ← (Assignment.read assignment).mapError .assignment
    assign assignments (vars.insert key value)

def bindings (settings : Settings) (read : FileReader) : Except CommandError Variables := do
  assign settings.assignments (← settings.fileVariables read)

end Settings

/-- The text of a computation. No value read from a file or an argument asks a supplier, so none
of the computations of a command waits. -/
def settledText (x : Effect Text) : Text :=
  (x []).result.getD []

def Block.toJson (block : Block) : Json :=
  .object [
    ("key".toList, .string block.key), ("content".toList, .string block.content),
    ("alt_content".toList, .string block.elseText), ("resolved".toList, .bool block.isBound)]

namespace Command

def settings : Command → Settings
  | .render settings | .each _ settings | .blocks settings => settings

/-- The text that a command makes of the files. The template is read first, then the collection,
then the variables. -/
def result (read : FileReader) : Command → Except CommandError Text
  | .render settings => do
    let raw ← read.template settings.template
    let vars ← settings.bindings read
    return settledText (merge raw vars settings.spacer)
  | .each items settings => do
    let raw ← read.template settings.template
    let collection ← read.collection items
    let vars ← settings.bindings read
    return settledText (renderCollection raw collection vars settings.spacer)
  | .blocks settings => do
    let raw ← read.template settings.template
    let vars ← settings.bindings read
    let blocks := extractBlocks (expandShorthand raw) vars settings.spacer
    let json : Json := .array (blocks.entries.map (·.2.toJson))
    return json.writeIndented ++ ['\n']

/-- The path of the file that the output goes to, unless it goes to the standard output. -/
def outputPath? (command : Command) : Option Text :=
  command.settings.output.filter fun path => !Path.isStandardStream path

structure Outcome where
  failure : Option CommandError
  stdout : Text
  files : FileTree

/-- The outcome of putting a text where the command wants it. -/
def deliver (command : Command) (s : Text) (files : FileTree) : Outcome :=
  match command.outputPath? with
  | none => ⟨none, s, files⟩
  | some path =>
    match files.write path s with
    | .error error => ⟨some (.output path error), [], files⟩
    | .ok files => ⟨none, [], files⟩

/-- The outcome of the command on a tree of files. -/
def run (command : Command) (files : FileTree) : Outcome :=
  match command.result files.readBytes with
  | .error error => ⟨some error, [], files⟩
  | .ok s => command.deliver s files

end Command

end MarkerTemplate
