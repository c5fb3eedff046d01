import StackQueue.Deque.Basic
import StackQueue.Program

/-! What one instruction does to the container. Each opcode checks the container first and, when
a check fails, hands it back untouched with its trap; otherwise it changes the container and
prints. An arithmetic opcode has one more way to fail, after a change: it removes the front value
and then writes its result over the new front, and a container left without a front fails there.
Removal, printing and arithmetic act at the front; a push goes where the container's discipline
says. Each branch uses the container once, so its slots are updated in place. -/

namespace StackQueue

namespace Deque

/-- The text that `pall` prints: each value in decimal on a line of its own, front first. -/
def listing (d : Deque) : String :=
  String.join (d.toList.map fun v => Numeral.render v ++ "\n")

end Deque

/-- The value that `push` inserts: its argument read as a word. -/
def pushValue? (argument : Option String) : Option Word :=
  argument.bind fun a => Numeral.parse? a.toList

namespace Opcode

/-- What the opcode does to the container, given the argument it reads: the container afterwards,
and the printed text or the trap. An arithmetic opcode checks for two values before it checks for
a zero divisor. -/
def exec (op : Opcode) (argument : Option String) (d : Deque) : Deque × Except Trap String :=
  match op with
  | .push =>
    match pushValue? argument with
    | some v => (d.push v, .ok "")
    | none => (d, .error .pushWithoutInteger)
  | .pall => (d, .ok d.listing)
  | .pint =>
    match d.front? with
    | some v => (d, .ok (Numeral.render v ++ "\n"))
    | none => (d, .error .pintOnEmpty)
  | .pop =>
    match d.front? with
    | some _ => (d.dropFront, .ok "")
    | none => (d, .error .popOnEmpty)
  | .swap =>
    match d.frontPair? with
    | some _ => (d.swapFront, .ok "")
    | none => (d, .error (.tooShort .swap))
  | .arith a =>
    match d.frontPair? with
    | none => (d, .error (.tooShort (.arith a)))
    | some (front, second) =>
      match a.apply second front with
      | none => (d, .error .divisionByZero)
      | some r =>
        let d := d.dropFront
        match d.front? with
        | some _ => (d.setFront r, .ok "")
        | none => (d, .error (.tooShort (.arith a)))
  | .pchar =>
    match d.front? with
    | none => (d, .error .pcharOnEmpty)
    | some v =>
      match v.toAscii? with
      | some c => (d, .ok (String.ofList [c, '\n']))
      | none => (d, .error .pcharOutOfRange)
  | .pstr => (d, .ok (String.ofList (Word.textPrefix d.toList ++ ['\n'])))
  | .rotl => (d.rotateLeft, .ok "")
  | .rotr => (d.rotateRight, .ok "")
  | .stack => (d.setMode .stack, .ok "")
  | .queue => (d.setMode .queue, .ok "")

end Opcode

namespace Instruction

/-- The outcome of the instruction on the container: the container afterwards, and the printed
text or the fault at the instruction's line. A name that is no opcode fails before the container
is read, and only an opcode that takes an argument is given one. -/
def exec (ins : Instruction) (d : Deque) : Deque × Except Fault String :=
  match Opcode.ofName? ins.opcode with
  | none => (d, .error (.trap ins.line (.unknownInstruction ins.opcode)))
  | some op =>
    match op.exec (if op.takesArgument then ins.argument else none) d with
    | (d, .ok text) => (d, .ok text)
    | (d, .error t) => (d, .error (.trap ins.line t))

/-- Every fault of an instruction is reported at the instruction's line. -/
theorem line_of_exec {ins : Instruction} {d d' : Deque} {f : Fault}
    (h : ins.exec d = (d', .error f)) : f.line? = some ins.line := by
  unfold exec at h
  split at h
  · cases h
    rfl
  · split at h
    · cases h
    · cases h
      rfl

end Instruction

end StackQueue
