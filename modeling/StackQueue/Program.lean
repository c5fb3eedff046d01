import StackQueue.Fault
import StackQueue.Text.Blank
import StackQueue.Text.Utf8

/-! Programs as text. A program has one instruction per line: the first word of the line names
the opcode and the second, if any, is its argument; later words are ignored. Lines without a
word, and lines whose first word starts with `#`, hold no instruction but are counted, so each
instruction carries the number of its line, counted from 1. Lines end at line feeds; a carriage
return before a line feed is blank and so changes no word. The reader checks neither names nor
arguments: the machine does, when the instruction runs. -/

namespace StackQueue

/-- The words of a line that make an instruction: the opcode's name and its argument. -/
structure Tokens where
  /-- The first word. -/
  opcode : String
  /-- The second word, if there is one. -/
  argument : Option String
  deriving DecidableEq, Repr

/-- The tokens of a line, or none for a line without a word or whose first word starts with
`#`. -/
def Tokens.ofLine? (line : List Char) : Option Tokens :=
  match Text.words line with
  | [] => none
  | word :: rest =>
    if word.head? = some '#' then none
    else some ⟨String.ofList word, rest.head?.map String.ofList⟩

/-- One instruction of a program, as read. -/
structure Instruction where
  /-- The opcode's name as written. -/
  opcode : String
  /-- The word after the name, if any. Only `push` reads it. -/
  argument : Option String
  /-- The number of the instruction's line, counted from 1. -/
  line : Nat
  deriving DecidableEq, Repr

/-- The lines of a text: the pieces between line feeds, after the piece read so far, which
`current` holds in reverse. -/
def linesFrom (current : List Char) : List Char → List (List Char)
  | [] => [current.reverse]
  | c :: cs => if c = '\n' then current.reverse :: linesFrom [] cs else linesFrom (c :: current) cs

/-- The pieces of a text between line feeds, in order. A text with `n` line feeds has `n + 1`
pieces; a last piece that is empty holds no instruction. -/
def lines (cs : List Char) : List (List Char) := linesFrom [] cs

/-- A program: its instructions in the order of their lines. -/
abbrev Program := List Instruction

namespace Program

/-- The instructions of a text given as characters. -/
def ofChars (cs : List Char) : Program :=
  (lines cs).zipIdx.filterMap fun (line, i) =>
    (Tokens.ofLine? line).map fun t => ⟨t.opcode, t.argument, i + 1⟩

/-- The instructions of a text. -/
def parse (text : String) : Program := ofChars text.toList

/-- The instructions of a file's bytes, read as UTF-8 with each ill-formed part replaced. -/
def decode (bytes : ByteArray) : Program := ofChars (Utf8.decode bytes.toList)

/-- The program in the file at `path`, given the file's bytes if it could be read. -/
def load (contents : Option ByteArray) (path : String) : Except Fault Program :=
  match contents with
  | some bytes => .ok (decode bytes)
  | none => .error (.cannotOpen path)

example :
    parse "push 1\n\n# note\n   pall\n" = [⟨"push", some "1", 1⟩, ⟨"pall", none, 4⟩] := by
  decide

end Program

end StackQueue
