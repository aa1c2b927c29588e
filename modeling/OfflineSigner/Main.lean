import OfflineSigner.CommandLine

/-!
# The program

Reads the files and the input that the command asks for, and prints its answer.
-/

namespace OfflineSigner.CommandLine

/-- The system's fault behind a failed reading. Its number may come negated, as one of 32 bits. -/
def systemFault? : IO.Error → Option SystemFault
  | .noFileOrDirectory _ code _ | .inappropriateType _ code _ | .permissionDenied _ code _ | .invalidArgument _ code _
  | .resourceExhausted _ code _ | .hardwareFault code _ | .otherError code _ =>
    SystemFault.ofNumber? code.toInt32.toInt.natAbs
  | _ => none

/-- What comes of reading bytes. Faults that are none of those known end the program. -/
def readText (bytes : IO ByteArray) : IO FileText := do
  try
    match String.fromUTF8? (← bytes) with
    | some s => return .text s
    | none => return .malformed
  catch e =>
    match systemFault? e with
    | some f => return .fault f
    | none => throw e

/-- The world with the files that a command reads. -/
def readWorld (command : Command) : IO World := do
  let files ← command.files.mapM fun (path : String) => do return (path, ← readText (IO.FS.readBinFile path))
  let input ← if command.readsInput then readText (do (← IO.getStdin).readBinToEnd) else pure (.text "")
  return { file := fun path => (files.lookup path).getD (.fault .missing), input }

/-- Answers the arguments; the result is the exit code. -/
def serve (arguments : List String) : IO UInt32 := do
  match parse? arguments with
  | none => return 2
  | some command =>
    let a := run (← readWorld command) command
    IO.print a.output
    return a.exitCode

end OfflineSigner.CommandLine

/-- The entry point. -/
def main (arguments : List String) : IO UInt32 := OfflineSigner.CommandLine.serve arguments
