/-! Blank characters and the words of a line. A character is blank when it has the Unicode
property White_Space: 25 code points in ten ranges. Zero-width space (U+200B), the Mongolian
vowel separator (U+180E) and the byte order mark (U+FEFF) are not blank. The words of a line are
its maximal runs of characters that are not blank, in order. -/

namespace StackQueue.Text

/-- The code points with the Unicode property White_Space, as closed ranges, ascending and apart. -/
def blankRanges : List (Nat × Nat) :=
  [(0x09, 0x0D), (0x20, 0x20), (0x85, 0x85), (0xA0, 0xA0), (0x1680, 0x1680), (0x2000, 0x200A),
   (0x2028, 0x2029), (0x202F, 0x202F), (0x205F, 0x205F), (0x3000, 0x3000)]

/-- Whether a character separates words. -/
def isBlank (c : Char) : Bool := blankRanges.any fun r => r.1 ≤ c.toNat && c.toNat ≤ r.2

example : isBlank '\u3000' = true ∧ isBlank '\u200B' = false ∧ isBlank '\uFEFF' = false := by
  decide

/-- The words of `cs`, after the word read so far, which `current` holds in reverse. -/
def wordsFrom (current : List Char) : List Char → List (List Char)
  | [] => if current.isEmpty then [] else [current.reverse]
  | c :: cs =>
    if isBlank c then
      if current.isEmpty then wordsFrom [] cs else current.reverse :: wordsFrom [] cs
    else wordsFrom (c :: current) cs

/-- The maximal runs of characters that are not blank, in order. -/
def words (cs : List Char) : List (List Char) := wordsFrom [] cs

example : words " push\t12  x".toList = ["push".toList, "12".toList, "x".toList] := by decide

end StackQueue.Text
