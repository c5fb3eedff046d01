import StackQueue.Word

/-! The instruction set: sixteen opcodes, each named by a fixed lower-case word. Names are
matched exactly, case included, and only `push` reads an argument. -/

namespace StackQueue

/-- The instructions a program can use. -/
inductive Opcode where
  /-- Inserts the argument: at the front of a stack, at the back of a queue. -/
  | push
  /-- Prints every value, front first. -/
  | pall
  /-- Prints the front value. -/
  | pint
  /-- Removes the front value. -/
  | pop
  /-- Exchanges the two front values. -/
  | swap
  /-- Replaces the two front values by the result of an arithmetic operation. -/
  | arith (op : Arith)
  /-- Prints the front value as an ASCII character. -/
  | pchar
  /-- Prints the characters stored from the front. -/
  | pstr
  /-- Moves the front value to the back. -/
  | rotl
  /-- Moves the back value to the front. -/
  | rotr
  /-- Makes pushes go to the front. -/
  | stack
  /-- Makes pushes go to the back. -/
  | queue
  deriving DecidableEq, Repr

namespace Opcode

/-- The opcode's name in a program. -/
def name : Opcode → String
  | push => "push"
  | pall => "pall"
  | pint => "pint"
  | pop => "pop"
  | swap => "swap"
  | arith op => op.name
  | pchar => "pchar"
  | pstr => "pstr"
  | rotl => "rotl"
  | rotr => "rotr"
  | stack => "stack"
  | queue => "queue"

/-- Every opcode, once each. -/
def all : List Opcode :=
  [push, pall, pint, pop, swap, arith .add, arith .sub, arith .div, arith .mul, arith .mod, pchar,
    pstr, rotl, rotr, stack, queue]

/-- The opcode with the given name, matched exactly. -/
def ofName? (name : String) : Option Opcode := all.find? fun op => op.name == name

/-- Whether the opcode reads the instruction's argument. -/
def takesArgument : Opcode → Bool
  | push => true
  | _ => false

example : ofName? "mod" = some (arith .mod) ∧ ofName? "PUSH" = none := by decide

end Opcode

end StackQueue
