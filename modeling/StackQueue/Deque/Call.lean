import StackQueue.Deque.Basic
import StackQueue.Fault

/-! The interface of the container as data: a `Call` names one operation with its arguments, and
`Deque.call` runs it and gives its answer. The containers that calls build from an empty one are
the reachable ones; `Reaches` also follows the largest size a container has had since it was
made or last emptied. -/

namespace StackQueue

/-- One call of the container's interface: the operation of `Deque` it names, with its
arguments; `popFront` and `peekFront` carry the line at which they fail on an empty container. -/
inductive Call where
  | push (v : Word)
  | pushFront (v : Word)
  | pushBack (v : Word)
  | popFront (line : Nat)
  | peekFront (line : Nat)
  | front
  | back
  | takeFront
  | takeBack
  | swapFront
  | rotateLeft
  | rotateRight
  | releaseAll
  | setMode (mode : Mode)
  | setFront (v : Word)
  deriving DecidableEq, Repr

/-- What a call answers. -/
inductive Reply where
  /-- Nothing: the call only changes the container. -/
  | done
  /-- A value, or none when there is none to give. -/
  | value (v : Option Word)
  /-- The value of a call that needs one. -/
  | word (v : Word)
  /-- The fault of a call that needs a value and found none. -/
  | fault (f : Fault)
  /-- Whether the call found what it needed. -/
  | flag (b : Bool)
  deriving DecidableEq, Repr

namespace Deque

/-- Removes the front value, or fails at the given line because there is none. -/
def popFront (d : Deque) (line : Nat) : Except Fault (Word × Deque) :=
  match d.takeFront? with
  | some r => .ok r
  | none => .error (.trap line .popOnEmpty)

/-- The front value, or a failure at the given line because there is none. -/
def peekFront (d : Deque) (line : Nat) : Except Fault Word :=
  match d.front? with
  | some v => .ok v
  | none => .error (.trap line .pintOnEmpty)

/-- Runs a call: its answer and the container afterwards. -/
def call (d : Deque) : Call → Reply × Deque
  | .push v => (.done, d.push v)
  | .pushFront v => (.done, d.pushFront v)
  | .pushBack v => (.done, d.pushBack v)
  | .popFront line =>
    match d.popFront line with
    | .ok (v, d') => (.word v, d')
    | .error f => (.fault f, d)
  | .peekFront line =>
    match d.peekFront line with
    | .ok v => (.word v, d)
    | .error f => (.fault f, d)
  | .front => (.value d.front?, d)
  | .back => (.value d.back?, d)
  | .takeFront =>
    match d.takeFront? with
    | some (v, d') => (.value (some v), d')
    | none => (.value none, d)
  | .takeBack =>
    match d.takeBack? with
    | some (v, d') => (.value (some v), d')
    | none => (.value none, d)
  | .swapFront =>
    match d.swapFront? with
    | some d' => (.flag true, d')
    | none => (.flag false, d)
  | .rotateLeft => (.done, d.rotateLeft)
  | .rotateRight => (.done, d.rotateRight)
  | .releaseAll => (.done, d.releaseAll)
  | .setMode mode => (.done, d.setMode mode)
  | .setFront v =>
    match d.setFront? v with
    | some d' => (.flag true, d')
    | none => (.flag false, d)

/-- The containers that calls build from an empty one. -/
inductive Reachable : Deque → Prop
  | empty (mode : Mode) : Reachable (empty mode)
  | call {d : Deque} (c : Call) : Reachable d → Reachable (d.call c).2

/-- `d.Reaches peak`: calls build `d` from an empty container, and `peak` is the largest size the
container has had since it was made or last emptied by `releaseAll`. -/
inductive Reaches : Deque → Nat → Prop
  | empty (mode : Mode) : Reaches (empty mode) 0
  | call {d : Deque} {peak : Nat} (c : Call) :
      c ≠ .releaseAll → Reaches d peak → Reaches (d.call c).2 (max peak (d.call c).2.size)
  | releaseAll {d : Deque} {peak : Nat} : Reaches d peak → Reaches (d.call .releaseAll).2 0

end Deque

end StackQueue
