/-! Words are the 32-bit signed integers that the container holds. This module holds the five
arithmetic operations of the machine and the reading of a word as an ASCII character.
Arithmetic wraps modulo `2^32`; division truncates toward zero and the remainder takes the sign
of the dividend, so that `second = front * (second / front) + second % front` modulo `2^32`. -/

namespace StackQueue

/-- A value held by the container: a 32-bit signed integer. -/
abbrev Word := Int32

/-- The five arithmetic instructions. Each combines the value behind the front with the front
value. -/
inductive Arith where
  | add
  | sub
  | mul
  | div
  | mod
  deriving DecidableEq, Repr

namespace Arith

/-- The instruction's name in a program. -/
def name : Arith → String
  | add => "add"
  | sub => "sub"
  | mul => "mul"
  | div => "div"
  | mod => "mod"

/-- `second op front`, modulo `2^32`. A zero divisor of `div` or `mod` has no result; otherwise
`div` truncates toward zero (so the least word divided by `-1` is the least word again) and
`mod` is the remainder of that division, with the sign of `second`. -/
def apply : Arith → Word → Word → Option Word
  | add, second, front => some (second + front)
  | sub, second, front => some (second - front)
  | mul, second, front => some (second * front)
  | div, second, front => if front = 0 then none else some (second / front)
  | mod, second, front => if front = 0 then none else some (second % front)

example : apply .div (-7) 2 = some (-3) ∧ apply .mod (-7) 2 = some (-1) := by decide

example : apply .div (-2147483648) (-1) = some (-2147483648) := by decide

end Arith

namespace Word

/-- The ASCII character of a word from 0 to 127, the range that `pchar` prints. -/
def toAscii? (w : Word) : Option Char :=
  if 0 ≤ w.toInt ∧ w.toInt ≤ 127 then some (Char.ofNat w.toInt.toNat) else none

/-- The character of a word inside a printed string: ASCII from 1 to 127, since zero ends the
string. -/
def toTextChar? (w : Word) : Option Char :=
  if w = 0 then none else w.toAscii?

/-- The characters of a string stored from the front: every word up to the first that is zero or
not ASCII. -/
def textPrefix : List Word → List Char
  | [] => []
  | w :: ws =>
    match w.toTextChar? with
    | some c => c :: textPrefix ws
    | none => []

example : textPrefix [72, 105, 0, 33] = ['H', 'i'] := by decide

end Word

end StackQueue
