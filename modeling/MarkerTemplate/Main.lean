import MarkerTemplate.Command.Run

/-!
# The program

The commands on the command line, with the files of the machine.

## Main definitions

- `main` runs the command that its arguments ask for

## Design notes

All that a command may read is read before it runs. What it does with it is `Command.result`; this
file only fetches bytes and delivers the text.
-/

namespace MarkerTemplate

namespace Program

def usage : String :=
  "Merge variables into marker-based templates

Usage: marker-template [-v] COMMAND

Commands:
  render TEMPLATE   Merge variables into a template
  each TEMPLATE     Render a template once per element of a JSON array or object
  blocks TEMPLATE   Print the conditional blocks found in a template as JSON
  help [COMMAND]    Print this text

Options of a command:
      --items FILE      JSON file with the elements (each only)
      --vars FILE       JSON file with an object of variables
  -s, --set KEY=VALUE   Set a variable; VALUE is read as JSON when possible
      --flatten         Flatten nested objects in the variables file
      --spacer TEXT     Text around branches and between elements
  -o, --output FILE     Write to FILE ('-' for the standard output)
  -h, --help            Print this text"

/-- What is said about arguments that ask for no command. -/
def complaint : UsageError → String
  | .nothingGiven | .helpAsked => usage
  | .versionAsked => "marker-template 0.1.0"
  | .missingCommand => "error: a command is required\n\n" ++ usage
  | .unknownCommand => "error: unrecognized command\n\n" ++ usage
  | .missingArgument => "error: a required argument was not given\n\n" ++ usage
  | .unknownArgument => "error: unexpected argument\n\n" ++ usage
  | .invalidValue => "error: a value is missing or empty\n\n" ++ usage
  | .unexpectedValue => "error: an option without a value was given one\n\n" ++ usage
  | .repeatedArgument => "error: an argument cannot be used more than once\n\n" ++ usage

/-- The number of an error of the system, which may come with its sign turned. -/
def errorNumber (code : UInt32) : Nat :=
  (min code (0 - code)).toNat

def fileError (error : IO.Error) : FileError :=
  match error with
  | .noFileOrDirectory .. => .notFound
  | .inappropriateType _ code _ | .invalidArgument _ code _ =>
    match errorNumber code with
    | 20 => .notADirectory
    | 21 => .isADirectory
    | 36 => .nameTooLong
    | _ => .other error.toString
  | _ => .other error.toString

/-- The files that a command may read, each with its bytes or the reason why it has none. -/
def readInputs (command : Command) : IO FileReader := do
  let items : List Text :=
    match command with
    | .each items _ => [items]
    | _ => []
  let paths := command.settings.template :: (command.settings.vars.toList ++ items)
  let contents ← paths.mapM fun path => do
    try
      return (path, Except.ok (← IO.FS.readBinFile (String.ofList path)))
    catch error =>
      return (path, Except.error (fileError error))
  return fun path => (contents.lookup path).getD (.error .notFound)

def deliver (command : Command) (s : Text) : IO (Except CommandError Unit) := do
  match command.outputPath? with
  | none =>
    IO.print (String.ofList s)
    return .ok ()
  | some path =>
    try
      IO.FS.writeBinFile (String.ofList path) (encodeUtf8 s)
      return .ok ()
    catch error =>
      return .error (.output path (fileError error))

/-- The command run, and the failure reported if there is one. -/
def runCommand (command : Command) : IO UInt32 := do
  let outcome ←
    match command.result (← readInputs command) with
    | .ok s => deliver command s
    | .error error => pure (.error error)
  match outcome with
  | .ok () => return 0
  | .error error =>
    IO.eprintln ("Error: " ++ error.message)
    return 1

end Program

end MarkerTemplate

/-- Run the command that the arguments ask for. -/
def main (arguments : List String) : IO UInt32 := do
  match MarkerTemplate.Command.ofArguments (arguments.map String.toList) with
  | .ok command => MarkerTemplate.Program.runCommand command
  | .error error =>
    let text := MarkerTemplate.Program.complaint error
    match error with
    | .helpAsked | .versionAsked =>
      IO.println text
      return 0
    | _ =>
      IO.eprintln text
      return 2
