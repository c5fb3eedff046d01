import StackQueue.Machine.Exec

/-! The machine: a container, the text printed so far, the line of the last instruction it
tried, the number of instructions that succeeded, and whether it is still running. A step runs
one instruction; the first failure halts the machine, and a run that reaches the end of its
program while the machine is still running finishes it. Once halted, either way, the machine
ignores every later step and run. -/

namespace StackQueue

/-- Where a machine is in its life. -/
inductive Status where
  /-- Accepting instructions. -/
  | running
  /-- A run reached its end without a failure. -/
  | finished
  /-- An instruction failed. -/
  | failed
  deriving DecidableEq, Repr

/-- The state of the machine. -/
structure Machine where
  /-- The container every instruction works on. -/
  deque : Deque
  /-- Everything printed so far. -/
  output : String
  /-- The line of the last instruction tried, or 0 before any. -/
  line : Nat
  /-- The number of instructions that succeeded. -/
  executed : Nat
  /-- Whether the machine is running, finished or failed. -/
  status : Status
  deriving Repr

namespace Machine

/-- A running machine with an empty container of the given discipline. -/
def init (mode : Mode) : Machine := ⟨Deque.empty mode, "", 0, 0, .running⟩

/-- Whether the machine has stopped, finished or failed. -/
def halted (m : Machine) : Bool := m.status != .running

/-- Runs one instruction. A running machine records the instruction's line and takes the
container the instruction leaves; on success it appends the printed text and counts the
instruction, and on failure it fails. A halted machine changes nothing and reports no failure. -/
def step (m : Machine) (ins : Instruction) : Machine × Except Fault Unit :=
  match m with
  | ⟨d, output, _, executed, .running⟩ =>
    -- the container is taken out of the machine, so that the instruction can update it in place
    match ins.exec d with
    | (d, .ok text) => (⟨d, output ++ text, ins.line, executed + 1, .running⟩, .ok ())
    | (d, .error f) => (⟨d, output, ins.line, executed, .failed⟩, .error f)
  | m => (m, .ok ())

/-- A halted machine ignores the instruction. -/
theorem step_of_halted {m : Machine} (h : m.status ≠ .running) (ins : Instruction) :
    m.step ins = (m, .ok ()) := by
  obtain ⟨d, output, line, executed, status⟩ := m
  cases status with
  | running => exact absurd rfl h
  | finished => rfl
  | failed => rfl

/-- A running machine on which the instruction succeeds takes the container it leaves, appends
what it prints, records the line and counts it. -/
theorem step_of_ok {m : Machine} {ins : Instruction} {d : Deque} {text : String}
    (h : m.status = .running) (hx : ins.exec m.deque = (d, .ok text)) :
    m.step ins =
      ({ m with
          deque := d
          output := m.output ++ text
          line := ins.line
          executed := m.executed + 1 }, .ok ()) := by
  obtain ⟨d, output, line, executed, status⟩ := m
  subst h
  simp only [step, hx]

/-- A running machine on which the instruction fails takes the container it leaves, records the
line and fails, and keeps its output and its count. -/
theorem step_of_error {m : Machine} {ins : Instruction} {d : Deque} {f : Fault}
    (h : m.status = .running) (hx : ins.exec m.deque = (d, .error f)) :
    m.step ins = ({ m with deque := d, line := ins.line, status := .failed }, .error f) := by
  obtain ⟨d, output, line, executed, status⟩ := m
  subst h
  simp only [step, hx]

/-- Marks a running machine as finished. -/
def finish (m : Machine) : Machine :=
  match m.status with
  | .running => { m with status := .finished }
  | _ => m

/-- Runs the instructions in order until one fails, and finishes a machine that is still running
at the end. -/
def run (m : Machine) : Program → Machine × Except Fault Unit
  | [] => (m.finish, .ok ())
  | ins :: rest =>
    match m.step ins with
    | (m, .ok ()) => m.run rest
    | (m, .error f) => (m, .error f)

/-- Drops the container's values and keeps everything printed. -/
def release (m : Machine) : Machine := { m with deque := m.deque.releaseAll }

/-- The machines that steps and runs build from a new one, of either discipline. -/
inductive Reachable : Machine → Prop
  | init (mode : Mode) : Reachable (init mode)
  | step {m : Machine} (ins : Instruction) : Reachable m → Reachable (m.step ins).1
  | run {m : Machine} (p : Program) : Reachable m → Reachable (m.run p).1

example : ((init .stack).run (Program.parse "push 3\npush 5\nadd\npint\n")).1.output = "8\n" := by
  decide +kernel

end Machine

end StackQueue
