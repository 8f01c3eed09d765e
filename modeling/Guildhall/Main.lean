-- SUMMARY: The command: it looks at the world, and does what is decided about it.
import Guildhall.CommandLine.Outcome
import Std.Internal.UV.System
import Std.Time.DateTime.Timestamp

/-!
# The command

What is done is decided by `CommandLine.run`. Here its world is gathered, and its outcome is
printed. Nothing listens on a port here: where requests are to be served, this is said and the
command ends.
-/

namespace Guildhall.CommandLine

/-- The text of a file, if it can be read. -/
def readText? (path : String) : IO (Option String) := do
  match ← (IO.FS.readFile path).toBaseIO with
  | .ok text => return some text
  | .error _ => return none

/-- Gathers the world: the files are those that the command looks at. -/
def gather (args : List String) : IO World := do
  let environment ← Std.Internal.UV.System.osEnviron
  let now ← Std.Time.Timestamp.now
  let bare : World :=
    { args
      environment := environment.toList
      file? := fun _ => none
      now := now.toSecondsSinceUnixEpoch.val }
  let files ← bare.paths.mapM fun path => return (path, ← readText? path)
  return { bare with file? := fun path => (files.find? fun f => f.1 == path).bind (·.2) }

/-- Carries out an outcome and gives the exit code. -/
def perform : Outcome → IO UInt32
  | .print text => do
    IO.println text
    return 0
  | .fail why => do
    IO.eprintln ("Error: " ++ why.message)
    return 1
  | .misuse => do
    IO.eprintln "Usage: hearth [OPTIONS] [COMMAND]\n\nFor more information, try '--help'."
    return 2
  | .crash => do
    IO.eprintln "the lifetime of the token is out of bounds"
    return 101
  | .serve _ _ _ port => do
    IO.eprintln ("Error: requests on port " ++ toString port ++ " cannot be served from here")
    return 1

end Guildhall.CommandLine

/-- Runs the command. -/
def main (args : List String) : IO UInt32 := do
  Guildhall.CommandLine.perform (Guildhall.CommandLine.run
    (← Guildhall.CommandLine.gather args))
