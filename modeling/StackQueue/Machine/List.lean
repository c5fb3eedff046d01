import StackQueue.Contents
import StackQueue.Machine.Basic

/-! The machine on contents: a machine whose container is a plain list of values with its
discipline. It steps by `Contents.exec`, so what each instruction does is said by cases on the
list; it records lines, counts instructions and halts as a machine does. A machine of slots is
right when the view of it, its container read as contents, steps the same way. -/

namespace StackQueue

/-- A machine whose container is given by its contents. -/
structure ListMachine where
  contents : Contents
  output : String
  line : Nat
  executed : Nat
  status : Status
  deriving DecidableEq, Repr

namespace ListMachine

/-- Runs one instruction on the contents, and halts on the first failure. -/
def step (m : ListMachine) (ins : Instruction) : ListMachine × Except Fault Unit :=
  match m.status with
  | .running =>
    match Contents.exec ins m.contents with
    | .ok (c, text) =>
      ({ m with
          contents := c
          output := m.output ++ text
          line := ins.line
          executed := m.executed + 1 }, .ok ())
    | .error f => ({ m with line := ins.line, status := .failed }, .error f)
  | _ => (m, .ok ())

/-- Marks a running machine as finished. -/
def finish (m : ListMachine) : ListMachine :=
  match m.status with
  | .running => { m with status := .finished }
  | _ => m

/-- Runs the instructions in order until one fails, and finishes a machine that is still running
at the end. -/
def run (m : ListMachine) : Program → ListMachine × Except Fault Unit
  | [] => (m.finish, .ok ())
  | ins :: rest =>
    match m.step ins with
    | (m, .ok ()) => m.run rest
    | (m, .error f) => (m, .error f)

end ListMachine

/-- The machine with its container read as contents. -/
def Machine.view (m : Machine) : ListMachine :=
  ⟨m.deque.contents, m.output, m.line, m.executed, m.status⟩

end StackQueue
