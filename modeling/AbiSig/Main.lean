import AbiSig.CommandLine.Program

/-!
# The executable

Reads the source that the program asks for, writes its report, and exits with its status.
-/

namespace AbiSig.CommandLine

/-- The number of a system error; some calls report it with its sign turned. -/
def errorNumber (code : UInt32) : Nat :=
  code.toInt32.toInt.natAbs

/-- The fault that an error of the system amounts to. -/
def ReadFault.ofError : IO.Error → ReadFault
  | .noFileOrDirectory .. => .missing
  | .permissionDenied .. => .denied
  | .inappropriateType _ code _ =>
    if errorNumber code = 20 then .notDirectory else .isDirectory
  | .invalidArgument _ code details =>
    if errorNumber code = 36 then .nameTooLong else .other details
  | e => .other (toString e)

/-- All bytes that remain in the stream. -/
partial def readStream (stream : IO.FS.Stream) (bytes : ByteArray) : IO ByteArray := do
  let block ← stream.read 65536
  if block.isEmpty then return bytes else readStream stream (bytes ++ block)

/-- The bytes of a source. -/
def Source.read (source : Source) : IO (Except ReadFault ByteArray) := do
  try
    match source with
    | .standardInput => return .ok (← readStream (← IO.getStdin) .empty)
    | .file path => return .ok (← IO.FS.readBinFile path)
  catch e => return .error (.ofError e)

/-- The report of a run, after reading what it waits for. -/
def Program.run : Program → IO Report
  | .finished report => return report
  | .reading source resume => return resume (← source.read)

end AbiSig.CommandLine

open AbiSig.CommandLine in
/-- Runs the program. -/
def main (args : List String) : IO UInt32 := do
  let report ← (program args).run
  (← IO.getStdout).putStr report.output
  (← IO.getStderr).putStr report.errors
  return UInt32.ofNat report.status
