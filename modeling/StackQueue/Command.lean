import StackQueue.Fault

/-! The command line: the words after the program's name must be exactly one, the file to run.
Every word counts as a file name, also `--`, `--help` and the empty word. -/

namespace StackQueue

/-- What the command line asks for: the file to run. -/
structure Command where
  /-- The file to run. -/
  file : String
  deriving DecidableEq, Repr

/-- The command of the words after the program's name, or a usage fault unless there is exactly
one. -/
def Command.ofArgs : List String → Except Fault Command
  | [file] => .ok ⟨file⟩
  | _ => .error .usage

end StackQueue
