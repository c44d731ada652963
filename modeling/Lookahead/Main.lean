import Lookahead.CommandLine.Run

/-!
# The command

Reads what the arguments ask for, runs the command, and writes the log and the failure to standard
error and the rest to standard output.
-/

namespace Lookahead.CommandLine

/-- The bytes of the file at `path`, if it can be read. -/
def readFile? (path : String) : IO (Option (List UInt8)) := do
  try
    return some (← IO.FS.readBinFile path).data.toList
  catch _ =>
    return none

/-- What the command can read, as far as it is going to. -/
def readSource (source : Option Source) : IO Environment := do
  match source with
  | none => return ⟨[], fun _ => none⟩
  | some .input =>
    let bytes ← (← IO.getStdin).readBinToEnd
    return ⟨bytes.data.toList, fun _ => none⟩
  | some (.file path) =>
    let bytes ← readFile? path
    return ⟨[], fun _ => bytes⟩

end Lookahead.CommandLine

open Lookahead.CommandLine

def main (arguments : List String) : IO UInt32 := do
  let env ← readSource (source? arguments)
  let outcome := run env arguments
  for event in outcome.log do
    IO.eprintln (event.level.name ++ " " ++ event.message)
  IO.print outcome.output
  match outcome.result with
  | .ok _ => pure ()
  | .error .columnTooWide => IO.eprintln Failure.columnTooWide.message
  | .error failure => IO.eprintln ("Error: " ++ failure.message)
  return outcome.exitCode.toUInt32
