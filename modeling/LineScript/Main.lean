import LineScript.CommandLine
/-!
# The program

Reads the arguments, the script and the standard input, and prints the report of the command.
-/

namespace LineScript

/-- The system's number for an error, which may be given with its sign turned. -/
def errorNumber (code : UInt32) : Nat :=
  (min code (0 - code)).toNat

def fileError : IO.Error → FileError
  | .noFileOrDirectory .. => .notFound
  | .permissionDenied .. => .denied
  | .inappropriateType _ code _ => if errorNumber code = 20 then .notDirectory else .isDirectory
  | .invalidArgument file code details =>
      if errorNumber code = 36 then .nameTooLong else .other (toString (IO.Error.invalidArgument file code details))
  | e => .other (toString e)

def readScript (path : String) : IO (Except FileError ByteArray) := do
  try
    return .ok (← IO.FS.readBinFile path)
  catch e =>
    return .error (fileError e)

partial def readAll (stream : IO.FS.Stream) (read : ByteArray) : IO ByteArray := do
  let chunk ← stream.read 65536
  if chunk.isEmpty then return read else readAll stream (read ++ chunk)

def perform (command : Command) : IO Report := do
  let file ←
    match command.script? with
    | some path => readScript path
    | none => pure (.ok .empty)
  let input ←
    match command with
    | .check _ => pure .empty
    | _ => readAll (← IO.getStdin) .empty
  return command.perform file (InputLine.ofInput input)

end LineScript

open LineScript in
def main (args : List String) : IO UInt32 := do
  let report ←
    match Request.ofArgs? args with
    | none => pure .usageError
    | some .version => pure ⟨0, versionLine, ""⟩
    | some (.perform command) => perform command
  IO.print report.stdout
  IO.eprint report.stderr
  return report.code.toUInt32
