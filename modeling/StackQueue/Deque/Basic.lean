import StackQueue.Word

/-! The container: a sequence of words with a front and a back, and a discipline that says where
a push goes. The values sit in an array of slots that link to their neighbours by index, so that
both ends can be reached, and a value can be removed or moved, without walking the sequence.
Slots of removed values are kept on a free list and reused, the most recently freed first.

The meaning of a container is `toList`, its values from front to back, read by following the
forward links from `head`. -/

namespace StackQueue

/-- Where a push goes. -/
inductive Mode where
  /-- Last in, first out: pushes go to the front. -/
  | stack
  /-- First in, first out: pushes go to the back. -/
  | queue
  deriving DecidableEq, Repr

/-- One slot: a value and the indices of its neighbours in the chain. -/
structure Slot where
  value : Word
  /-- The slot nearer the front. -/
  prev : Option Nat
  /-- The slot nearer the back. -/
  next : Option Nat
  deriving DecidableEq, Repr

/-- The container. -/
structure Deque where
  /-- Every slot ever used: those on the chain and those on the free list. -/
  slots : Array Slot
  /-- Slots that may be reused, the next to reuse first. -/
  free : List Nat
  /-- The slot of the front value. -/
  head : Option Nat
  /-- The slot of the back value. -/
  tail : Option Nat
  size : Nat
  mode : Mode
  deriving Repr

namespace Deque

/-- The empty container with the given discipline. -/
def empty (mode : Mode) : Deque := ⟨#[], [], none, none, 0, mode⟩

/-- Changes the discipline and keeps the values. -/
def setMode (d : Deque) (mode : Mode) : Deque := { d with mode := mode }

/-! ### The view -/

/-- The slots met by following forward links from `start`, at most `fuel` of them and only while
the indices lie in `slots`. -/
def chainFrom (slots : Array Slot) : Nat → Option Nat → List Nat
  | 0, _ => []
  | _ + 1, none => []
  | fuel + 1, some i =>
    match slots[i]? with
    | some s => i :: chainFrom slots fuel s.next
    | none => []

/-- The slots of the values, front to back. A chain that lists no slot twice is no longer than
the array, so the array's size bounds the walk. -/
def ids (d : Deque) : List Nat := chainFrom d.slots d.slots.size d.head

/-- The values, front to back. -/
def toList (d : Deque) : List Word := d.ids.filterMap fun i => d.slots[i]?.map Slot.value

/-- Whether the container holds no value. -/
def isEmpty (d : Deque) : Bool := d.head.isNone

/-- The front value. -/
def front? (d : Deque) : Option Word := do
  let i ← d.head
  let s ← d.slots[i]?
  pure s.value

/-- The back value. -/
def back? (d : Deque) : Option Word := do
  let i ← d.tail
  let s ← d.slots[i]?
  pure s.value

/-- The front value and the value behind it. -/
def frontPair? (d : Deque) : Option (Word × Word) := do
  let i ← d.head
  let s ← d.slots[i]?
  let j ← s.next
  let t ← d.slots[j]?
  pure (s.value, t.value)

/-! ### Links -/

/-- Sets the forward link of slot `i`. -/
def setNext (slots : Array Slot) (i : Nat) (n : Option Nat) : Array Slot :=
  slots.modify i fun s => { s with next := n }

/-- Sets the backward link of slot `i`. -/
def setPrev (slots : Array Slot) (i : Nat) (p : Option Nat) : Array Slot :=
  slots.modify i fun s => { s with prev := p }

/-- Puts the detached slot `i` at the front of the chain. -/
def linkFront (d : Deque) (i : Nat) : Deque :=
  let slots := d.slots.modify i fun s => { s with prev := none, next := d.head }
  match d.head with
  | some h => { d with slots := setPrev slots h (some i), head := some i, size := d.size + 1 }
  | none => { d with slots := slots, head := some i, tail := some i, size := d.size + 1 }

/-- Puts the detached slot `i` at the back of the chain. -/
def linkBack (d : Deque) (i : Nat) : Deque :=
  let slots := d.slots.modify i fun s => { s with prev := d.tail, next := none }
  match d.tail with
  | some t => { d with slots := setNext slots t (some i), tail := some i, size := d.size + 1 }
  | none => { d with slots := slots, head := some i, tail := some i, size := d.size + 1 }

/-- Takes slot `i` out of the chain: its neighbours link to each other, and it keeps its value
and no links. It goes neither to the free list nor anywhere else. -/
def unlink (d : Deque) (i : Nat) : Deque :=
  match d.slots[i]? with
  | none => d
  | some s =>
    let d := match s.prev with
      | some p => { d with slots := setNext d.slots p s.next }
      | none => { d with head := s.next }
    let d := match s.next with
      | some n => { d with slots := setPrev d.slots n s.prev }
      | none => { d with tail := s.prev }
    { d with
      slots := d.slots.modify i fun t => { t with prev := none, next := none }
      size := d.size - 1 }

/-- A detached slot holding `v`: the most recently freed slot, or a new one at the end. -/
def allocate (d : Deque) (v : Word) : Deque × Nat :=
  match d.free with
  | i :: rest => ({ d with slots := d.slots.setIfInBounds i ⟨v, none, none⟩, free := rest }, i)
  | [] =>
    -- the size is read before the push, so that the array is not shared while it grows
    let i := d.slots.size
    ({ d with slots := d.slots.push ⟨v, none, none⟩ }, i)

/-- Unlinks slot `i` and puts it on the free list. -/
def release (d : Deque) (i : Nat) : Deque :=
  let d := d.unlink i
  { d with free := i :: d.free }

/-! ### Operations -/

/-- Inserts `v` before the front. -/
def pushFront (d : Deque) (v : Word) : Deque :=
  let (d, i) := d.allocate v
  d.linkFront i

/-- Inserts `v` after the back. -/
def pushBack (d : Deque) (v : Word) : Deque :=
  let (d, i) := d.allocate v
  d.linkBack i

/-- Inserts `v` where the discipline says: at the front of a stack, at the back of a queue. -/
def push (d : Deque) (v : Word) : Deque :=
  match d.mode with
  | .stack => d.pushFront v
  | .queue => d.pushBack v

/-- Removes the front value; an empty container stays as it is. -/
def dropFront (d : Deque) : Deque :=
  match d.head with
  | some i => d.release i
  | none => d

/-- Removes the back value; an empty container stays as it is. -/
def dropBack (d : Deque) : Deque :=
  match d.tail with
  | some i => d.release i
  | none => d

/-- Removes the front value and returns it, if there is one. -/
def takeFront? (d : Deque) : Option (Word × Deque) :=
  match d.front? with
  | some v => some (v, d.dropFront)
  | none => none

/-- Removes the back value and returns it, if there is one. -/
def takeBack? (d : Deque) : Option (Word × Deque) :=
  match d.back? with
  | some v => some (v, d.dropBack)
  | none => none

/-- Overwrites the front value; an empty container stays as it is. -/
def setFront (d : Deque) (v : Word) : Deque :=
  match d.head with
  | some i => { d with slots := d.slots.modify i fun s => { s with value := v } }
  | none => d

/-- Overwrites the front value, if there is one. -/
def setFront? (d : Deque) (v : Word) : Option Deque :=
  match d.front? with
  | some _ => some (d.setFront v)
  | none => none

/-- Exchanges the two front values; with fewer than two values nothing changes. -/
def swapFront (d : Deque) : Deque :=
  match d.head with
  | none => d
  | some i =>
    match d.slots[i]? with
    | none => d
    | some s =>
      match s.next with
      | none => d
      | some j =>
        match d.slots[j]? with
        | none => d
        | some t =>
          { d with
            slots := (d.slots.modify i fun u => { u with value := t.value }).modify j
              fun u => { u with value := s.value } }

/-- Exchanges the two front values, if there are two. -/
def swapFront? (d : Deque) : Option Deque :=
  match d.frontPair? with
  | some _ => some d.swapFront
  | none => none

/-- Moves the front value to the back; with fewer than two values nothing changes. -/
def rotateLeft (d : Deque) : Deque :=
  if d.size < 2 then d
  else
    match d.head with
    | some i => (d.unlink i).linkBack i
    | none => d

/-- Moves the back value to the front; with fewer than two values nothing changes. -/
def rotateRight (d : Deque) : Deque :=
  if d.size < 2 then d
  else
    match d.tail with
    | some i => (d.unlink i).linkFront i
    | none => d

/-- Drops every value and every slot, and keeps the discipline. A container with no slot and no
front is left as it is. -/
def releaseAll (d : Deque) : Deque :=
  if d.slots.isEmpty && d.head.isNone then d else empty d.mode

example : ((((empty .stack).push 1).push 2).setMode .queue |>.push 3).toList = [2, 1, 3] := by
  decide +kernel

end Deque

end StackQueue
