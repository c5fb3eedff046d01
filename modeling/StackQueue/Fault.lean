import StackQueue.Opcode
import StackQueue.Text.Numeral

/-! Why a run stops. A `Trap` is the cause of an instruction's failure; a `Fault` is a trap at
its line, a command line without exactly one file, or a file that cannot be read. Every fault
has one fixed message; those of traps begin with `L`, the line number and a colon. -/

namespace StackQueue

/-- Why an instruction failed. -/
inductive Trap where
  /-- The name is no opcode. -/
  | unknownInstruction (name : String)
  /-- `push` without an argument that reads as a word. -/
  | pushWithoutInteger
  /-- `pint` on an empty container. -/
  | pintOnEmpty
  /-- `pop` on an empty container. -/
  | popOnEmpty
  /-- An opcode that needs two values found fewer. -/
  | tooShort (op : Opcode)
  /-- `div` or `mod` with a zero front value. -/
  | divisionByZero
  /-- `pchar` on a front value outside 0..127. -/
  | pcharOutOfRange
  /-- `pchar` on an empty container. -/
  | pcharOnEmpty
  deriving DecidableEq, Repr

/-- Why a run stopped. -/
inductive Fault where
  /-- The command line did not name exactly one file. -/
  | usage
  /-- The file could not be read. -/
  | cannotOpen (path : String)
  /-- The instruction at `line` failed. -/
  | trap (line : Nat) (cause : Trap)
  deriving DecidableEq, Repr

/-- The text of a trap, after its line. -/
def Trap.message : Trap → String
  | .unknownInstruction name => "unknown instruction " ++ name
  | .pushWithoutInteger => "usage: push integer"
  | .pintOnEmpty => "can't pint, stack empty"
  | .popOnEmpty => "can't pop an empty stack"
  | .tooShort op => "can't " ++ op.name ++ ", stack too short"
  | .divisionByZero => "division by zero"
  | .pcharOutOfRange => "can't pchar, value out of range"
  | .pcharOnEmpty => "can't pchar, stack empty"

namespace Fault

/-- The diagnostic line of a fault. -/
def message : Fault → String
  | usage => "USAGE: monty file"
  | cannotOpen path => "Error: Can't open file " ++ path
  | trap line cause => "L" ++ Numeral.natText line ++ ": " ++ cause.message

/-- The line a fault refers to: that of the failing instruction, and none for the others. -/
def line? : Fault → Option Nat
  | trap line _ => some line
  | _ => none

end Fault

end StackQueue
