import StackQueue.Word

/-! Decimal numerals of words and of line numbers. A numeral that a program may write is an
optional `-` followed by one or more ASCII digits, with any number of leading zeros, whose value
lies in the range of a word; `render` writes the shortest such numeral, so reading what it
writes gives the word back. -/

namespace StackQueue.Numeral

/-- The value of an ASCII decimal digit. -/
def digitValue (c : Char) : Nat := c.toNat - '0'.toNat

/-- The value of a string of ASCII digits, most significant first; `none` if it is empty or holds
anything else. -/
def natValue? (cs : List Char) : Option Nat :=
  if cs ≠ [] ∧ cs.all Char.isDigit then
    some (cs.foldl (fun n c => 10 * n + digitValue c) 0)
  else none

/-- The word with integer value `v`, if `v` lies from `-2^31` to `2^31 - 1`. -/
def wordOfInt? (v : Int) : Option Word :=
  if -2147483648 ≤ v ∧ v < 2147483648 then some (Int32.ofInt v) else none

/-- Reads a numeral: an optional single `-`, then ASCII digits whose value fits a word. A `+`,
blanks and non-ASCII digits are refused. -/
def parse? : List Char → Option Word
  | '-' :: ds => (natValue? ds).bind fun n => wordOfInt? (-(n : Int))
  | ds => (natValue? ds).bind fun n => wordOfInt? n

example : parse? "-007".toList = some (-7) := by decide

example : parse? "+5".toList = none ∧ parse? "2147483648".toList = none := by decide

/-- The ASCII digit of a value below ten. -/
def digitChar (d : Nat) : Char := Char.ofNat ('0'.toNat + d)

/-- The decimal digits of `n`, most significant first, without leading zeros. -/
def natDigits (n : Nat) : List Char :=
  if n < 10 then [digitChar n] else natDigits (n / 10) ++ [digitChar (n % 10)]

/-- The decimal text of a natural number. -/
def natText (n : Nat) : String := String.ofList (natDigits n)

/-- The decimal text of a word: a `-` before the digits of a negative word. -/
def render (w : Word) : String :=
  if w.toInt < 0 then String.ofList ('-' :: natDigits w.toInt.natAbs)
  else String.ofList (natDigits w.toInt.natAbs)

end StackQueue.Numeral
