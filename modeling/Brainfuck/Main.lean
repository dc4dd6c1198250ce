import Brainfuck.Command.Execution

namespace Brainfuck.Command

/-- More instructions than any run executes. -/
def patience : Nat := 1000000000000000000

/-- The code of the system for a path that leads through a file. -/
def notADirectory : UInt32 := 20

/-- What is found at a path of the file system. -/
def lookUp (path : String) : IO Entry := do
  if path.toList.contains '\x00' then return .invalid
  try
    return .file (← IO.FS.readBinFile (Path.shorten path))
  catch
    | .noFileOrDirectory .. => return .missing
    | .invalidArgument .. => return .tooLong
    | .inappropriateType _ code _ => return if code = notADirectory then .obstructed else .directory
    | _ => return .directory

partial def readAll (stream : IO.FS.Stream) (read : ByteArray) : IO ByteArray := do
  let bytes ← stream.read 65536
  if bytes.isEmpty then return read else readAll stream (read ++ bytes)

end Brainfuck.Command

open Brainfuck.Command in
def main (arguments : List String) : IO UInt32 := do
  let (entry, input) ← match Settings.ofArguments arguments with
    | .error _ => pure (.missing, ByteArray.empty)
    | .ok settings => do
      let entry ← lookUp settings.file
      let input ← if settings.expand then pure ByteArray.empty
        else readAll (← IO.getStdin) ByteArray.empty
      pure (entry, input)
  match run (fun _ => entry) arguments input "<time>" patience with
  | none => return 4
  | some outcome =>
    (← IO.getStdout).putStr outcome.output
    (← IO.getStderr).putStr outcome.errors
    match outcome.ending with
    | .exit code => return code.toUInt32
    | .raised fault =>
      (← IO.getStderr).putStrLn (fault.message?.getD "")
      return 1
