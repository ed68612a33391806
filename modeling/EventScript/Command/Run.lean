import EventScript.Bundle
import EventScript.Command
import EventScript.Directory
import EventScript.Options.Load

/-!
# Running commands

The result of a command is computed from the files it reads, and only then
written, so a command that fails changes nothing.
-/

namespace EventScript

/-- Why a command failed. -/
inductive Failure where
  | loadingOptions (path : String) (error : LoadError)
  | reading (path : String) (error : LoadError)
  | writing (path : String)
  deriving DecidableEq, Repr

/-- The wording of a failure. -/
def Failure.message : Failure → String
  | .loadingOptions path _ => "Failed to load options from " ++ path
  | .reading path _ => "Failed to read " ++ path
  | .writing path => "Failed to write " ++ path

namespace Command

/-- The options of a command; without an options file, the defaults. -/
def options (command : Command) (read : String → Option ByteArray) : Except Failure Options :=
  match command.config with
  | none => .ok {}
  | some path => (Options.load path (read path)).mapError (Failure.loadingOptions path)

/-- The text that a command works on. -/
def source (command : Command) (read : String → Option ByteArray) : Except Failure String :=
  (textOf (read command.file)).mapError (Failure.reading command.file)

/-- What a task makes of a text. -/
def transform (task : Task) (options : Options) (text : String) : String :=
  match task with
  | .convert clientSide => (convert { options with clientSide := clientSide } text).code
  | .split => Bundle.ofSource options text
  | .recover => Bundle.recover text

/-- The result of a command.  The options are loaded before the text is read. -/
def result (command : Command) (read : String → Option ByteArray) : Except Failure String := do
  let options ← command.options read
  let source ← command.source read
  return transform command.task options source

end Command

/-- What a command line leaves behind. -/
structure Outcome where
  exitCode : Nat
  /-- What is printed. -/
  output : String := ""
  /-- The complaint, which shows paths as they were given. -/
  complaint : Option String := none
  /-- The files afterwards. -/
  directory : Directory

/-- The outcome of a failure. -/
def Failure.outcome (failure : Failure) (directory : Directory) : Outcome :=
  { exitCode := 1, complaint := some ("Error: " ++ failure.message), directory := directory }

/-- Run a command in a directory. -/
def Command.runIn (command : Command) (directory : Directory) : Outcome :=
  match command.result directory.read? with
  | .error failure => failure.outcome directory
  | .ok text =>
    match command.output with
    | none => { exitCode := 0, output := text, directory := directory }
    | some path =>
      match directory.write? path text.toUTF8 with
      | some written => { exitCode := 0, directory := written }
      | none => (Failure.writing path).outcome directory

/-- The version of the program. -/
def versionLine : String :=
  "gs1conv 0.1.0\n"

/-- How the program is called. -/
def usage : String :=
  "Convert GS1 scripts to event-callback code\n\n" ++
    "Usage: gs1conv [OPTIONS] <COMMAND>\n\n" ++
    "Commands:\n" ++
    "  convert <FILE> [--client] [--config <FILE>] [--output <FILE>]\n" ++
    "  split <FILE> [--config <FILE>] [--output <FILE>]\n" ++
    "  recover <FILE> [--output <FILE>]\n\n" ++
    "Options:\n" ++
    "  -v, --verbose\n  -h, --help\n  -V, --version\n"

/-- Run a command line in a directory. -/
def Invocation.runIn (invocation : Invocation) (directory : Directory) : Outcome :=
  match invocation with
  | .run command => command.runIn directory
  | .version => { exitCode := 0, output := versionLine, directory := directory }
  | .help => { exitCode := 0, output := usage, directory := directory }
  | .invalid => { exitCode := 2, complaint := some usage, directory := directory }

end EventScript
