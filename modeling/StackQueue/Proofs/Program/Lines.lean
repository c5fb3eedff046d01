import StackQueue.Program

/-! How the reader numbers lines. Reading splits at line feeds: the instructions of two texts
joined by a line feed are those of the first, then those of the second moved down by the lines
of the first; and a text without a line feed is one line, with at most one instruction, at line 1.

The pieces between line feeds are not quite the lines of the usual convention (`crlfLines`),
which drops a carriage return before each line feed and has no empty last line after a final
line ending. They differ only where there is no word, so the instructions are one for each line
of that convention whose first word exists and does not start with `#`, numbered by the line's
place among all lines, blank and comment lines included, and their numbers strictly increase. -/

namespace StackQueue

/-- The instruction moved `k` lines further down. -/
def Instruction.shift (k : Nat) (ins : Instruction) : Instruction :=
  { ins with line := ins.line + k }

@[simp] theorem Instruction.line_shift (k : Nat) (ins : Instruction) :
    (ins.shift k).line = ins.line + k := rfl

/-! ### A blank at the end of a line -/

namespace Text

/-- A blank at the end of a text ends the word being read and starts no other. -/
theorem wordsFrom_append_blank {c : Char} (hc : isBlank c = true) (current cs : List Char) :
    wordsFrom current (cs ++ [c]) = wordsFrom current cs := by
  induction cs generalizing current with
  | nil => cases current <;> simp [wordsFrom, hc]
  | cons x cs ih => simp only [List.cons_append, wordsFrom, ih]

theorem words_append_blank {c : Char} (hc : isBlank c = true) (cs : List Char) :
    words (cs ++ [c]) = words cs :=
  wordsFrom_append_blank hc [] cs

end Text

/-- A line without a word makes no instruction. -/
@[simp] theorem Tokens.ofLine?_nil : Tokens.ofLine? [] = none := rfl

theorem Tokens.ofLine?_append_blank {c : Char} (hc : Text.isBlank c = true) (line : List Char) :
    Tokens.ofLine? (line ++ [c]) = Tokens.ofLine? line := by
  unfold Tokens.ofLine?
  rw [Text.words_append_blank hc]

/-! ### The pieces between line feeds -/

theorem linesFrom_append_newline (current a b : List Char) :
    linesFrom current (a ++ '\n' :: b) = linesFrom current a ++ lines b := by
  induction a generalizing current with
  | nil => simp [linesFrom, lines]
  | cons x a ih => by_cases hx : x = '\n' <;> simp [linesFrom, hx, ih]

/-- A line feed splits the pieces of a text in two. -/
theorem lines_append_newline (a b : List Char) : lines (a ++ '\n' :: b) = lines a ++ lines b :=
  linesFrom_append_newline [] a b

theorem linesFrom_of_newline_not_mem (current : List Char) {cs : List Char} (h : '\n' ∉ cs) :
    linesFrom current cs = [current.reverse ++ cs] := by
  induction cs generalizing current with
  | nil => simp [linesFrom]
  | cons x cs ih =>
    have hx : x ≠ '\n' := fun e => h (e ▸ List.mem_cons_self)
    rw [linesFrom, if_neg hx, ih (x :: current) fun hm => h (List.mem_cons_of_mem _ hm)]
    simp

theorem lines_of_newline_not_mem {cs : List Char} (h : '\n' ∉ cs) : lines cs = [cs] :=
  linesFrom_of_newline_not_mem [] h

theorem length_linesFrom (current cs : List Char) :
    (linesFrom current cs).length = cs.count '\n' + 1 := by
  induction cs generalizing current with
  | nil => rfl
  | cons x cs ih => by_cases hx : x = '\n' <;> simp [linesFrom, hx, ih]

/-- A text has one piece more than it has line feeds. -/
theorem length_lines (cs : List Char) : (lines cs).length = cs.count '\n' + 1 :=
  length_linesFrom [] cs

/-! ### Lines by the usual convention -/

/-- The lines of a text by the usual convention, after the line read so far, which `current`
holds in reverse: a line ends at a line feed, and a carriage return just before the line feed
belongs to the ending, not to the line. The last line's ending may be left out, so a text that
ends in a line ending has no empty line after it, and the empty text has no line. -/
def crlfLinesFrom (current : List Char) : List Char → List (List Char)
  | [] => if current.isEmpty then [] else [current.reverse]
  | c :: cs =>
    if c = '\n' then
      (if current.head? = some '\r' then current.tail else current).reverse ::
        crlfLinesFrom [] cs
    else crlfLinesFrom (c :: current) cs

/-- The lines of a text by the usual convention. -/
def crlfLines (cs : List Char) : List (List Char) := crlfLinesFrom [] cs

example : crlfLines "push 5\r\npint\r\n\r\n".toList = ["push 5".toList, "pint".toList, []] ∧
    crlfLines [] = [] ∧ crlfLines "\n".toList = [[]] := by
  decide

/-- A carriage return at the end of a line changes none of its words. -/
theorem Tokens.ofLine?_dropCarriageReturn (current : List Char) :
    Tokens.ofLine? (if current.head? = some '\r' then current.tail else current).reverse =
      Tokens.ofLine? current.reverse := by
  cases current with
  | nil => rfl
  | cons x rest =>
    by_cases hx : x = '\r'
    · subst hx
      simp [Tokens.ofLine?_append_blank (show Text.isBlank '\r' = true by decide)]
    · simp [hx]

/-! ### Numbered lines -/

namespace Program

/-- The instructions of the lines `ls` when the first of them is line `n + 1`: one for each line
whose words make one, at that line's number. -/
def ofLines (n : Nat) (ls : List (List Char)) : Program :=
  (ls.zipIdx n).filterMap fun (line, i) =>
    (Tokens.ofLine? line).map fun t => ⟨t.opcode, t.argument, i + 1⟩

theorem ofChars_eq_ofLines (cs : List Char) : ofChars cs = ofLines 0 (lines cs) := rfl

@[simp] theorem ofLines_nil (n : Nat) : ofLines n [] = [] := rfl

theorem ofLines_cons (n : Nat) (line : List Char) (ls : List (List Char)) :
    ofLines n (line :: ls) =
      ((Tokens.ofLine? line).map fun t => ⟨t.opcode, t.argument, n + 1⟩).toList ++
        ofLines (n + 1) ls := by
  simp only [ofLines, List.zipIdx_cons, List.filterMap_cons]
  cases Tokens.ofLine? line <;> rfl

theorem ofLines_append (n : Nat) (ls ms : List (List Char)) :
    ofLines n (ls ++ ms) = ofLines n ls ++ ofLines (n + ls.length) ms := by
  simp only [ofLines, List.zipIdx_append, List.filterMap_append]

/-- Numbering lines from further down moves every instruction down as far. -/
theorem ofLines_add (n k : Nat) (ls : List (List Char)) :
    ofLines (n + k) ls = (ofLines n ls).map (Instruction.shift k) := by
  induction ls generalizing n with
  | nil => rfl
  | cons line ls ih =>
    have hn : n + k + 1 = n + 1 + k := by omega
    rw [ofLines_cons, ofLines_cons, hn, ih, List.map_append]
    cases Tokens.ofLine? line <;> simp [Instruction.shift]

theorem mem_ofLines_zero {ls : List (List Char)} {ins : Instruction} :
    ins ∈ ofLines 0 ls ↔ ∃ i line t, ls[i]? = some line ∧ Tokens.ofLine? line = some t ∧
      ins = ⟨t.opcode, t.argument, i + 1⟩ := by
  simp only [ofLines, List.mem_filterMap, Prod.exists, List.mem_zipIdx_iff_getElem?,
    Option.map_eq_some_iff]
  constructor
  · rintro ⟨line, i, hline, t, ht, rfl⟩
    exact ⟨i, line, t, hline, ht, rfl⟩
  · rintro ⟨i, line, t, hline, ht, rfl⟩
    exact ⟨line, i, hline, t, ht, rfl⟩

/-- Every instruction of lines numbered from `n + 1` lies below line `n`. -/
theorem lt_line_of_mem_ofLines {n : Nat} {ls : List (List Char)} {ins : Instruction}
    (h : ins ∈ ofLines n ls) : n < ins.line := by
  rw [← Nat.zero_add n, ofLines_add, List.mem_map] at h
  obtain ⟨x, hx, rfl⟩ := h
  obtain ⟨i, line, t, -, -, rfl⟩ := mem_ofLines_zero.mp hx
  simp only [Instruction.line_shift]
  omega

/-- The instructions of numbered lines come in strictly increasing line order. -/
theorem ofLines_pairwise (n : Nat) (ls : List (List Char)) :
    (ofLines n ls).Pairwise fun x y => x.line < y.line := by
  induction ls generalizing n with
  | nil => exact List.Pairwise.nil
  | cons line ls ih =>
    rw [ofLines_cons, List.pairwise_append]
    refine ⟨?_, ih (n + 1), fun x hx y hy => ?_⟩
    · cases Tokens.ofLine? line <;> simp
    · have hx : x.line = n + 1 := by
        cases h : Tokens.ofLine? line <;> simp_all
      have hy := lt_line_of_mem_ofLines hy
      omega

/-- Numbered by the usual line convention or by the pieces between line feeds, a text gives the
same instructions: the two differ only by a carriage return before a line feed, which is blank,
and by an empty piece at the end, which has no word. -/
theorem ofLines_linesFrom (n : Nat) (current cs : List Char) :
    ofLines n (linesFrom current cs) = ofLines n (crlfLinesFrom current cs) := by
  induction cs generalizing n current with
  | nil => cases current <;> simp [linesFrom, crlfLinesFrom, ofLines_cons]
  | cons c cs ih =>
    by_cases hc : c = '\n'
    · simp only [linesFrom, crlfLinesFrom, hc, if_true, ofLines_cons, ih,
        Tokens.ofLine?_dropCarriageReturn]
    · simp only [linesFrom, crlfLinesFrom, hc, if_false, ih]

theorem ofChars_eq_crlfLines (cs : List Char) : ofChars cs = ofLines 0 (crlfLines cs) :=
  ofLines_linesFrom 0 [] cs

example : parse "push 5\r\npint\r\n" = [⟨"push", some "5", 1⟩, ⟨"pint", none, 2⟩] := by decide

/-! ### Reading a text -/

theorem parse_append_newline (a b : String) :
    parse (a ++ "\n" ++ b) =
      parse a ++ (parse b).map (Instruction.shift (a.toList.count '\n' + 1)) := by
  have htext : (a ++ "\n" ++ b).toList = a.toList ++ '\n' :: b.toList := by simp
  calc parse (a ++ "\n" ++ b)
      = ofLines 0 (lines a.toList ++ lines b.toList) := by
        rw [parse, htext, ofChars_eq_ofLines, lines_append_newline]
    _ = parse a ++ ofLines (a.toList.count '\n' + 1) (lines b.toList) := by
        rw [ofLines_append, length_lines, Nat.zero_add]
        rfl
    _ = parse a ++ (parse b).map (Instruction.shift (a.toList.count '\n' + 1)) := by
        have hshift := ofLines_add 0 (a.toList.count '\n' + 1) (lines b.toList)
        rw [Nat.zero_add] at hshift
        rw [hshift]
        rfl

theorem parse_of_newline_not_mem (s : String) (h : '\n' ∉ s.toList) :
    parse s = ((Tokens.ofLine? s.toList).map fun t => ⟨t.opcode, t.argument, 1⟩).toList := by
  rw [parse, ofChars_eq_ofLines, lines_of_newline_not_mem h, ofLines_cons, ofLines_nil,
    List.append_nil]

/-- Reading splits at line feeds: joining texts by a line feed joins their instructions, the
second's moved down by the lines of the first; a text without a line feed is one line, at line 1.
So the instructions of a text are one for each line, by the usual convention, whose words make
one, numbered by the line's place counting every line, and in strictly increasing line order. -/
theorem parse_splits_at_line_feeds :
    (∀ a b : String, parse (a ++ "\n" ++ b) =
      parse a ++ (parse b).map (Instruction.shift (a.toList.count '\n' + 1))) ∧
    (∀ s : String, '\n' ∉ s.toList →
      parse s = ((Tokens.ofLine? s.toList).map fun t => ⟨t.opcode, t.argument, 1⟩).toList) ∧
    (∀ (s : String) (ins : Instruction), ins ∈ parse s ↔
      ∃ i line t, (crlfLines s.toList)[i]? = some line ∧ Tokens.ofLine? line = some t ∧
        ins = ⟨t.opcode, t.argument, i + 1⟩) ∧
    (∀ s : String, (parse s).Pairwise fun x y => x.line < y.line) := by
  refine ⟨parse_append_newline, parse_of_newline_not_mem, fun s ins => ?_, fun s => ?_⟩
  · rw [parse, ofChars_eq_crlfLines, mem_ofLines_zero]
  · rw [parse, ofChars_eq_ofLines]
    exact ofLines_pairwise 0 _

end Program

end StackQueue
