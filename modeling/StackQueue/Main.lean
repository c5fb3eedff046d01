import StackQueue.Command
import StackQueue.Machine.Basic

/-! The command line: reads the file named by the only argument, runs it on a stack, prints what
the program printed, and on a fault writes its message to standard error and exits with 1. -/

namespace StackQueue

/-- The bytes of a file, or none if it cannot be read. -/
def readBytes? (path : String) : IO (Option ByteArray) := do
  try
    return some (← IO.FS.readBinFile ⟨path⟩)
  catch _ =>
    return none

/-- Runs the command line's file and answers the exit code. -/
def runCommand (args : List String) : IO UInt32 := do
  match Command.ofArgs args with
  | .error f =>
    IO.eprintln f.message
    return 1
  | .ok cmd =>
    match Program.load (← readBytes? cmd.file) cmd.file with
    | .error f =>
      IO.eprintln f.message
      return 1
    | .ok program =>
      let (m, result) := (Machine.init .stack).run program
      let out ← IO.getStdout
      out.putStr m.release.output
      out.flush
      match result with
      | .ok () => return 0
      | .error f =>
        IO.eprintln f.message
        return 1

end StackQueue

/-- Runs the file named on the command line. -/
def main (args : List String) : IO UInt32 := StackQueue.runCommand args
