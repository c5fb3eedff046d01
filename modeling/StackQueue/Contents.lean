import StackQueue.Deque.Call
import StackQueue.Program

/-! The contents of a container: its values from front to back and its discipline, with no slots
and no links. Each operation of the container, and each instruction, has a rule on contents,
written by cases on a plain list. A container of slots is right when its contents follow these
rules, and a machine is right when its steps follow `Contents.exec`. -/

namespace StackQueue

/-- What a container holds, as a plain list. -/
structure Contents where
  /-- The values, front first. -/
  values : List Word
  /-- Where a push goes. -/
  mode : Mode
  deriving DecidableEq, Repr

/-- The contents of a container: the values read along its chain, and its discipline. -/
def Deque.contents (d : Deque) : Contents := ⟨d.toList, d.mode⟩

theorem Deque.values_contents (d : Deque) : d.contents.values = d.toList := rfl

namespace Contents

/-- Empty contents with the given discipline. -/
def empty (mode : Mode) : Contents := ⟨[], mode⟩

/-- Puts `v` before the front. -/
def pushFront (c : Contents) (v : Word) : Contents := { c with values := v :: c.values }

/-- Puts `v` after the back. -/
def pushBack (c : Contents) (v : Word) : Contents := { c with values := c.values ++ [v] }

/-- Puts `v` where the discipline says. -/
def push (c : Contents) (v : Word) : Contents :=
  match c.mode with
  | .stack => c.pushFront v
  | .queue => c.pushBack v

/-- Drops the front value, if any. -/
def dropFront (c : Contents) : Contents := { c with values := c.values.tail }

/-- Drops the back value, if any. -/
def dropBack (c : Contents) : Contents := { c with values := c.values.dropLast }

/-- Replaces the front value, if any. -/
def setFront (c : Contents) (v : Word) : Contents :=
  match c.values with
  | [] => c
  | _ :: rest => { c with values := v :: rest }

/-- Exchanges the two front values, if there are two. -/
def swapFront (c : Contents) : Contents :=
  match c.values with
  | a :: b :: rest => { c with values := b :: a :: rest }
  | _ => c

/-- Moves the front value to the back, if there are two values. -/
def rotateLeft (c : Contents) : Contents :=
  match c.values with
  | a :: b :: rest => { c with values := b :: rest ++ [a] }
  | _ => c

/-- Moves the back value to the front, if there are two values. -/
def rotateRight (c : Contents) : Contents :=
  match c.values.reverse with
  | z :: y :: rest => { c with values := z :: (y :: rest).reverse }
  | _ => c

/-- With at least two values, the back value moves to the front. -/
theorem rotateRight_append {vs : List Word} (hvs : vs ≠ []) (z : Word) (mode : Mode) :
    rotateRight ⟨vs ++ [z], mode⟩ = ⟨z :: vs, mode⟩ := by
  obtain ⟨y, rest, hr⟩ : ∃ y rest, vs.reverse = y :: rest :=
    List.exists_cons_of_ne_nil (by simpa using hvs)
  have hvs' : vs = (y :: rest).reverse := by rw [← hr, List.reverse_reverse]
  simp only [rotateRight, List.reverse_append, List.reverse_singleton, List.singleton_append, hr]
  rw [hvs']

@[simp] theorem mode_setFront (c : Contents) (v : Word) : (c.setFront v).mode = c.mode := by
  unfold setFront
  split <;> rfl

@[simp] theorem mode_swapFront (c : Contents) : c.swapFront.mode = c.mode := by
  unfold swapFront
  split <;> rfl

@[simp] theorem mode_rotateLeft (c : Contents) : c.rotateLeft.mode = c.mode := by
  unfold rotateLeft
  split <;> rfl

@[simp] theorem mode_rotateRight (c : Contents) : c.rotateRight.mode = c.mode := by
  unfold rotateRight
  split <;> rfl

/-- Changes the discipline. -/
def setMode (c : Contents) (mode : Mode) : Contents := { c with mode := mode }

/-- Drops every value and keeps the discipline. -/
def clear (c : Contents) : Contents := { c with values := [] }

/-- The answer of a call of the container's interface on contents, and the contents afterwards. -/
def call (c : Contents) : Call → Reply × Contents
  | .push v => (.done, c.push v)
  | .pushFront v => (.done, c.pushFront v)
  | .pushBack v => (.done, c.pushBack v)
  | .popFront line =>
    match c.values with
    | [] => (.fault (.trap line .popOnEmpty), c)
    | v :: _ => (.word v, c.dropFront)
  | .peekFront line =>
    match c.values with
    | [] => (.fault (.trap line .pintOnEmpty), c)
    | v :: _ => (.word v, c)
  | .front => (.value c.values.head?, c)
  | .back => (.value c.values.getLast?, c)
  | .takeFront => (.value c.values.head?, c.dropFront)
  | .takeBack => (.value c.values.getLast?, c.dropBack)
  | .swapFront => (.flag (decide (2 ≤ c.values.length)), c.swapFront)
  | .rotateLeft => (.done, c.rotateLeft)
  | .rotateRight => (.done, c.rotateRight)
  | .releaseAll => (.done, c.clear)
  | .setMode mode => (.done, c.setMode mode)
  | .setFront v => (.flag !c.values.isEmpty, c.setFront v)

/-- The outcome of an opcode on contents, given the instruction's argument: the new contents and
the printed text, or the trap. -/
def execOp (op : Opcode) (argument : Option String) (c : Contents) :
    Except Trap (Contents × String) :=
  match op, c.values with
  | .push, _ =>
    match argument.bind fun a => Numeral.parse? a.toList with
    | some v => .ok (c.push v, "")
    | none => .error .pushWithoutInteger
  | .pall, l => .ok (c, String.join (l.map fun v => Numeral.render v ++ "\n"))
  | .pint, [] => .error .pintOnEmpty
  | .pint, v :: _ => .ok (c, Numeral.render v ++ "\n")
  | .pop, [] => .error .popOnEmpty
  | .pop, _ :: rest => .ok ({ c with values := rest }, "")
  | .swap, a :: b :: rest => .ok ({ c with values := b :: a :: rest }, "")
  | .swap, _ => .error (.tooShort .swap)
  | .arith a, front :: second :: rest =>
    match a.apply second front with
    | some r => .ok ({ c with values := r :: rest }, "")
    | none => .error .divisionByZero
  | .arith a, _ => .error (.tooShort (.arith a))
  | .pchar, [] => .error .pcharOnEmpty
  | .pchar, v :: _ =>
    match v.toAscii? with
    | some ch => .ok (c, String.ofList [ch, '\n'])
    | none => .error .pcharOutOfRange
  | .pstr, l => .ok (c, String.ofList (Word.textPrefix l ++ ['\n']))
  | .rotl, _ => .ok (c.rotateLeft, "")
  | .rotr, _ => .ok (c.rotateRight, "")
  | .stack, _ => .ok (c.setMode .stack, "")
  | .queue, _ => .ok (c.setMode .queue, "")

/-- The outcome of an instruction on contents: the fault at the instruction's line, or the new
contents and the printed text. -/
def exec (ins : Instruction) (c : Contents) : Except Fault (Contents × String) :=
  match Opcode.ofName? ins.opcode with
  | none => .error (.trap ins.line (.unknownInstruction ins.opcode))
  | some op => (execOp op ins.argument c).mapError (.trap ins.line)

example : (⟨[1, 2, 3, 4], .stack⟩ : Contents).rotateRight.values = [4, 1, 2, 3] := by decide

example : (⟨[1, 2, 3, 4], .stack⟩ : Contents).rotateLeft.values = [2, 3, 4, 1] := by decide

end Contents

end StackQueue
