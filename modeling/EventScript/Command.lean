/-!
# Commands

What the command line asks for, and how its arguments are read.  An argument is
a flag, an option with a value, or the name of a file; short flags may be run
together, and a value may be attached to its option.  Behind two hyphens every
argument is the name of a file.
-/

namespace EventScript

/-- What is done with a file. -/
inductive Task where
  /-- Convert a script for one side. -/
  | convert (clientSide : Bool)
  /-- Convert a script to a bundle. -/
  | split
  /-- Recover the script of a bundle. -/
  | recover
  deriving DecidableEq, Repr

/-- A task with its files. -/
structure Command where
  task : Task
  /-- The file that is read. -/
  file : String
  /-- The file with the options. -/
  config : Option String := none
  /-- The file that is written; otherwise the result is printed. -/
  output : Option String := none
  deriving DecidableEq, Repr

/-- The meaning of a command line. -/
inductive Invocation where
  | run (command : Command)
  | version
  | help
  /-- The arguments are wrong. -/
  | invalid
  deriving DecidableEq, Repr

/-- The names of the tasks on the command line. -/
inductive Verb where
  | convert
  | split
  | recover
  deriving DecidableEq, Repr

/-- The task with a given name. -/
def Verb.ofName? : String → Option Verb
  | "convert" => some .convert
  | "split" => some .split
  | "recover" => some .recover
  | _ => none

/-- Options with a value. -/
inductive Valued where
  | config
  | output
  deriving DecidableEq, Repr

/-- Whether a task has an option. -/
def Verb.takes : Verb → Valued → Bool
  | .recover, .config => false
  | _, _ => true

/-- The arguments of a task so far. -/
structure Given where
  verbose : Bool := false
  client : Bool := false
  file : Option String := none
  config : Option String := none
  output : Option String := none

namespace Given

/-- Give the name of the file.  It is given once and is not empty. -/
def setFile (given : Given) (name : String) : Option Given :=
  if given.file.isNone && !name.isEmpty then some { given with file := some name } else none

/-- Give the value of an option.  It is given once and is not empty. -/
def setValue (given : Given) (option : Valued) (value : String) : Option Given :=
  if value.isEmpty then none
  else
    match option with
    | .config => if given.config.isNone then some { given with config := some value } else none
    | .output => if given.output.isNone then some { given with output := some value } else none

/-- Give the flag for more messages, once. -/
def setVerbose (given : Given) : Option Given :=
  if given.verbose then none else some { given with verbose := true }

/-- Give the flag for the client side, once. -/
def setClient (given : Given) : Option Given :=
  if given.client then none else some { given with client := true }

/-- The command of a task, if its file is given. -/
def command? (given : Given) (verb : Verb) : Option Command :=
  given.file.map fun file =>
    let task := match verb with
      | .convert => Task.convert given.client
      | .split => .split
      | .recover => .recover
    { task := task, file := file, config := given.config, output := given.output }

end Given

/-! ## Single arguments -/

/-- What one argument says. -/
inductive Word where
  /-- The arguments with this one added. -/
  | accepted (arguments : Given)
  /-- The value of an option follows. -/
  | awaits (arguments : Given) (option : Valued)
  /-- Only names of files follow. -/
  | endOfOptions
  | help
  | invalid

/-- An argument that was added, or that must not be given. -/
def Word.ofOption : Option Given → Word
  | some given => .accepted given
  | none => .invalid

/-- Read short flags that are run together, from behind the hyphen. -/
def readCluster (given : Given) : List Char → Word
  | [] => .accepted given
  | 'v' :: rest =>
    match given.setVerbose with
    | some given => readCluster given rest
    | none => .invalid
  | 'h' :: _ => .help
  | 'o' :: [] => .awaits given .output
  | 'o' :: '=' :: value => .ofOption (given.setValue .output (String.ofList value))
  | 'o' :: value => .ofOption (given.setValue .output (String.ofList value))
  | _ => .invalid

/-- Read a long option, from behind the two hyphens: its name and the value
that is attached to it. -/
def readLong (verb : Verb) (given : Given) (name : String) (attached : Option String) : Word :=
  let valued (option : Valued) : Word :=
    if verb.takes option then
      match attached with
      | some value => .ofOption (given.setValue option value)
      | none => .awaits given option
    else .invalid
  match name, attached with
  | "config", _ => valued .config
  | "output", _ => valued .output
  | "verbose", none => .ofOption given.setVerbose
  | "client", none => if verb = .convert then .ofOption given.setClient else .invalid
  | "help", none => .help
  | _, _ => .invalid

/-- Split a long option at its first equals sign. -/
def splitLong (text : List Char) : String × Option String :=
  match text.span fun character => character != '=' with
  | (name, '=' :: value) => (String.ofList name, some (String.ofList value))
  | (name, _) => (String.ofList name, none)

/-- Read one argument of a task.  A single hyphen is the name of a file. -/
def readWord (verb : Verb) (given : Given) (argument : String) : Word :=
  match argument.toList with
  | ['-', '-'] => .endOfOptions
  | '-' :: '-' :: text =>
    let (name, attached) := splitLong text
    readLong verb given name attached
  | '-' :: letter :: rest => readCluster given (letter :: rest)
  | _ => .ofOption (given.setFile argument)

/-- Whether an argument can be the value of an option in front of it. -/
def isValue (argument : String) : Bool :=
  match argument.toList with
  | '-' :: _ :: _ => false
  | _ => true

/-! ## Command lines -/

/-- The invocation of a task that is complete or lacks its file. -/
def Given.invocation (given : Given) (verb : Verb) : Invocation :=
  match given.command? verb with
  | some command => .run command
  | none => .invalid

/-- Read the arguments behind the name of a task. -/
def readTask (verb : Verb) : Given → List String → Invocation
  | given, [] => given.invocation verb
  | given, argument :: rest =>
    match readWord verb given argument with
    | .accepted given => readTask verb given rest
    | .awaits given option =>
      match rest with
      | value :: rest =>
        if isValue value then
          match given.setValue option value with
          | some given => readTask verb given rest
          | none => .invalid
        else .invalid
      | [] => .invalid
    | .endOfOptions =>
      match rest.foldl (fun given name => given.bind (·.setFile name)) (some given) with
      | some given => given.invocation verb
      | none => .invalid
    | .help => .help
    | .invalid => .invalid

/-- Read the short flags in front of a task, from behind the hyphen; whether
more messages are asked for by then. -/
def readLeadingCluster (verbose : Bool) : List Char → Except Invocation Bool
  | [] => .ok verbose
  | 'v' :: rest => if verbose then .error .invalid else readLeadingCluster true rest
  | 'V' :: _ => .error .version
  | 'h' :: _ => .error .help
  | _ => .error .invalid

/-- Read one flag in front of a task. -/
def readLeadingFlag (verbose : Bool) (argument : String) : Except Invocation Bool :=
  match argument with
  | "--verbose" => if verbose then .error .invalid else .ok true
  | "--version" => .error .version
  | "--help" => .error .help
  | other =>
    match other.toList with
    | '-' :: '-' :: _ => .error .invalid
    | '-' :: letter :: rest => readLeadingCluster verbose (letter :: rest)
    | _ => .error .invalid

/-- The meaning of a request for help, which may name one task. -/
def readHelp : List String → Invocation
  | [] | ["help"] => .help
  | [name] => if (Verb.ofName? name).isSome then .help else .invalid
  | _ => .invalid

/-- Read a command line from its first argument that is not read yet. -/
def readLeading (verbose : Bool) : List String → Invocation
  | [] => .invalid
  | argument :: rest =>
    match Verb.ofName? argument with
    | some verb => readTask verb {} rest
    | none =>
      if argument = "help" then readHelp rest
      else
        match readLeadingFlag verbose argument with
        | .ok verbose => readLeading verbose rest
        | .error invocation => invocation

/-- The meaning of the arguments of a command line. -/
def Invocation.ofArguments (arguments : List String) : Invocation :=
  readLeading false arguments

end EventScript
