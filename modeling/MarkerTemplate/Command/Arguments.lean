import MarkerTemplate.Text

/-!
# Command-line arguments

From the arguments of the program to the command they ask for.

## Main definitions

- `Command` is a command with its settings
- `Command.ofArguments` reads a command off the arguments
- `UsageError` says why arguments ask for none

## Design notes

A value may stand in the argument of its option or be the argument behind it. In the second case
it is looked at only when the next option or name has been recognised, or when the arguments end:
so of two mistakes the later may be found first. `ArgumentState.settle` is that moment.

Behind `--` no argument is an option.
-/

namespace MarkerTemplate

inductive UsageError where
  | nothingGiven
  | missingCommand
  | unknownCommand
  | missingArgument
  | unknownArgument
  | invalidValue
  | unexpectedValue
  | repeatedArgument
  | helpAsked
  | versionAsked
  deriving DecidableEq, Repr

inductive Field where
  | template
  | vars
  | assignment
  | spacer
  | output
  | items
  deriving DecidableEq, Repr

/-- Whether the text is the path of a file, which cannot be empty. -/
def Field.isPath : Field → Bool
  | .template | .vars | .output | .items => true
  | .assignment | .spacer => false

inductive Flag where
  | flatten
  | verbose
  | help
  | version
  deriving DecidableEq, Repr

inductive OptionKind where
  | flag (flag : Flag)
  | field (field : Field)
  deriving DecidableEq, Repr

/-- The options in force at a place, by their long and short names. -/
structure Grammar where
  long : List (Text × OptionKind)
  short : List (Char × OptionKind)

namespace Grammar

/-- The options before the name of the command. -/
def general : Grammar where
  long := [
    ("verbose".toList, .flag .verbose), ("help".toList, .flag .help),
    ("version".toList, .flag .version)]
  short := [('v', .flag .verbose), ('h', .flag .help), ('V', .flag .version)]

def ofCommand : Grammar where
  long := [
    ("vars".toList, .field .vars), ("set".toList, .field .assignment),
    ("flatten".toList, .flag .flatten), ("spacer".toList, .field .spacer),
    ("output".toList, .field .output), ("verbose".toList, .flag .verbose),
    ("help".toList, .flag .help)]
  short := [
    ('s', .field .assignment), ('o', .field .output), ('v', .flag .verbose), ('h', .flag .help)]

/-- The options of a command that renders a collection. -/
def ofCollectionCommand : Grammar where
  long := ("items".toList, .field .items) :: ofCommand.long
  short := ofCommand.short

end Grammar

/-- What the arguments read so far have settled. -/
structure ArgumentState where
  values : List (Field × Text)
  flags : List Flag
  -- A setting that has not been looked at yet, with its value if that has come.
  pending : Option (Field × Option Text)

namespace ArgumentState

def initial : ArgumentState :=
  ⟨[], [], none⟩

/-- The state with a value for a field. Only assignments may come again. -/
def store (state : ArgumentState) (field : Field) (value : Text) :
    Except UsageError ArgumentState :=
  if field ≠ .assignment ∧ field ∈ state.values.map Prod.fst then .error .repeatedArgument
  else if field.isPath ∧ value = [] then .error .invalidValue
  else .ok { state with values := state.values ++ [(field, value)] }

def settle (state : ArgumentState) : Except UsageError ArgumentState :=
  match state.pending with
  | none => .ok state
  | some (_, none) => .error .invalidValue
  | some (field, some value) => { state with pending := none }.store field value

def give (state : ArgumentState) (field : Field) (value : Text) :
    Except UsageError ArgumentState := do
  (← state.settle).store field value

/-- The state after a setting whose value is in an argument of its own. -/
def await (state : ArgumentState) (field : Field) (value : Option Text) :
    Except UsageError ArgumentState := do
  return { ← state.settle with pending := some (field, value) }

def raise (state : ArgumentState) (flag : Flag) : Except UsageError ArgumentState := do
  let state ← state.settle
  match flag with
  | .help => throw .helpAsked
  | .version => throw .versionAsked
  | flag =>
    if flag ∈ state.flags then throw .repeatedArgument
    else return { state with flags := flag :: state.flags }

def hasTemplate (state : ArgumentState) : Bool :=
  Field.template ∈ state.values.map Prod.fst ∨ state.pending.map Prod.fst = some .template

/-- The state after the option `name`, or `name=value`, written behind two dashes. -/
def readLong (state : ArgumentState) (grammar : Grammar) (s : Text) :
    Except UsageError ArgumentState :=
  let (name, value) : Text × Option Text :=
    match Text.splitOnce? ['='] s with
    | some (name, value) => (name, some value)
    | none => (s, none)
  match grammar.long.lookup name, value with
  | none, _ => .error .unknownArgument
  | some (.flag _), some _ => .error .unexpectedValue
  | some (.flag flag), none => state.raise flag
  | some (.field field), some value => state.give field value
  | some (.field field), none => state.await field none

/-- The state after options of one letter, written behind one dash. The first that takes a value
takes the letters behind it, less an equals sign. -/
def readShort (state : ArgumentState) (grammar : Grammar) :
    Text → Except UsageError ArgumentState
  | [] => .ok state
  | c :: letters =>
    match grammar.short.lookup c with
    | none => .error .unknownArgument
    | some (.flag flag) => do (← state.raise flag).readShort grammar letters
    | some (.field field) =>
      match letters with
      | [] => state.await field none
      | '=' :: value => state.give field value
      | value => state.give field value

/-- The state after an argument that names something. Only the template is named so. -/
def readName (state : ArgumentState) (name : Text) : Except UsageError ArgumentState :=
  if state.hasTemplate then .error .unknownArgument else state.await .template (some name)

/-- The state after the arguments of a command; behind `--` they are `namesOnly`. -/
def readAll (grammar : Grammar) (namesOnly : Bool) :
    List Text → ArgumentState → Except UsageError ArgumentState
  | [], state => state.settle
  | argument :: arguments, state =>
    if namesOnly then do
      readAll grammar true arguments (← state.readName argument)
    else
      match argument with
      | ['-', '-'] => readAll grammar true arguments state
      | '-' :: '-' :: s => do readAll grammar false arguments (← state.readLong grammar s)
      | '-' :: c :: s => do readAll grammar false arguments (← state.readShort grammar (c :: s))
      | argument =>
        match state.pending with
        | some (field, none) =>
          readAll grammar false arguments { state with pending := some (field, some argument) }
        | _ => do readAll grammar false arguments (← state.readName argument)

end ArgumentState

structure Settings where
  template : Text
  vars : Option Text
  flatten : Bool
  assignments : List Text
  spacer : Text
  output : Option Text
  deriving DecidableEq, Repr

inductive Command where
  | render (settings : Settings)
  | each (items : Text) (settings : Settings)
  | blocks (settings : Settings)
  deriving DecidableEq, Repr

namespace Command

inductive Name where
  | render
  | each
  | blocks
  | help
  deriving DecidableEq, Repr

def Name.ofText? (s : Text) : Option Name :=
  [("render".toList, Name.render), ("each".toList, .each), ("blocks".toList, .blocks),
    ("help".toList, .help)].lookup s

/-- The settings that the arguments of a command have left. -/
def settingsOf (state : ArgumentState) : Except UsageError Settings :=
  match state.values.lookup .template with
  | none => .error .missingArgument
  | some template =>
    .ok {
      template
      vars := state.values.lookup .vars
      flatten := decide (Flag.flatten ∈ state.flags)
      assignments := (state.values.filter (·.1 = .assignment)).map Prod.snd
      spacer := (state.values.lookup .spacer).getD []
      output := state.values.lookup .output }

def ofNamed (name : Name) (arguments : List Text) : Except UsageError Command := do
  match name with
  | .render => .render <$> settings .ofCommand
  | .blocks => .blocks <$> settings .ofCommand
  | .each =>
    let state ← ArgumentState.readAll .ofCollectionCommand false arguments .initial
    match state.values.lookup .items with
    | none => throw .missingArgument
    | some items => .each items <$> settingsOf state
  | .help =>
    -- Help is given on one command at most.
    match arguments with
    | [] => throw .helpAsked
    | [name] => throw (if (Name.ofText? name).isSome then .helpAsked else .unknownCommand)
    | _ => throw .unknownCommand
where
  settings (grammar : Grammar) : Except UsageError Settings := do
    settingsOf (← ArgumentState.readAll grammar false arguments .initial)

/-- The command that the arguments ask for, where general options may stand before its name.
Behind `--` only names can follow, and none that is a command. -/
def readGeneral (namesOnly : Bool) : List Text → ArgumentState → Except UsageError Command
  | [], state => .error (if state.flags.isEmpty then .nothingGiven else .missingCommand)
  | argument :: arguments, state =>
    match namesOnly, Name.ofText? argument with
    | true, some _ => .error .unknownArgument
    | true, none => .error .unknownCommand
    | false, some name => ofNamed name arguments
    | false, none =>
      match argument with
      | ['-', '-'] => readGeneral true arguments state
      | '-' :: '-' :: s => do readGeneral false arguments (← state.readLong .general s)
      | '-' :: c :: s => do readGeneral false arguments (← state.readShort .general (c :: s))
      | _ => .error .unknownCommand

def ofArguments (arguments : List Text) : Except UsageError Command :=
  readGeneral false arguments .initial

end Command

end MarkerTemplate
