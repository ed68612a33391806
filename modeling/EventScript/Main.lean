import EventScript.Command.Run

/-!
# The program

Reads the files that a command names, computes its result and writes or prints
it.  Everything else is decided by the pure modules.
-/

namespace EventScript

/-- The contents of a file, if it can be read. -/
def readContents (path : String) : IO (Option ByteArray) := do
  try
    return some (← IO.FS.readBinFile path)
  catch _ =>
    return none

/-- Report a failure. -/
def complain (failure : Failure) : IO UInt32 := do
  IO.eprintln ("Error: " ++ failure.message)
  return 1

/-- Run a command on the files of the system. -/
def runCommand (command : Command) : IO UInt32 := do
  let config ← match command.config with
    | some path => readContents path
    | none => pure none
  let source ← readContents command.file
  let read (path : String) : Option ByteArray :=
    if command.config = some path then config else source
  match command.result read with
  | .error failure => complain failure
  | .ok text =>
    match command.output with
    | none =>
      IO.print text
      return 0
    | some path =>
      try
        IO.FS.writeBinFile path text.toUTF8
        return 0
      catch _ =>
        complain (.writing path)

end EventScript

open EventScript in
/-- The command line. -/
def main (arguments : List String) : IO UInt32 := do
  match Invocation.ofArguments arguments with
  | .run command => runCommand command
  | .version =>
    IO.print versionLine
    return 0
  | .help =>
    IO.print usage
    return 0
  | .invalid =>
    IO.eprint usage
    return 2
