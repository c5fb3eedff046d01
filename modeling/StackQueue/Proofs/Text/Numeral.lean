import Mathlib.Data.List.Induction
import Mathlib.Data.Nat.Digits.Defs
import StackQueue.Text.Numeral

/-! The grammar of numerals, and the reading and writing of words against it. A numeral is an
optional `-` followed by one or more ASCII digits, with any number of leading zeros; it denotes
the decimal value of its digits, negated after a `-` (`Numeral.Denotes`). `parse?` reads exactly
the numerals whose value lies in the range of a word, to the word of that value, and refuses
every other text; and what `render` writes is a numeral of the word it writes, so reading it gives
the word back. -/

namespace StackQueue.Numeral

/-- The decimal value of ASCII digits, most significant first. -/
def digitsValue (ds : List Char) : Nat := Nat.ofDigits 10 (ds.reverse.map digitValue)

/-- The text `cs` is a numeral of the integer `n`. -/
inductive Denotes : List Char → Int → Prop
  /-- Digits alone denote their value. -/
  | digits {ds : List Char} : ds ≠ [] → (∀ c ∈ ds, c.isDigit) → Denotes ds (digitsValue ds)
  /-- A `-` before digits negates their value. -/
  | minus {ds : List Char} : ds ≠ [] → (∀ c ∈ ds, c.isDigit) →
      Denotes ('-' :: ds) (-(digitsValue ds : Int))

theorem digitsValue_append_singleton (ds : List Char) (c : Char) :
    digitsValue (ds ++ [c]) = 10 * digitsValue ds + digitValue c := by
  simp only [digitsValue, List.reverse_append, List.reverse_singleton, List.singleton_append,
    List.map_cons, Nat.ofDigits_cons]
  omega

/-- Reading digits from the most significant one, ten times the value so far plus the next digit,
gives their decimal value. -/
theorem foldl_eq_digitsValue (ds : List Char) :
    ds.foldl (fun n c => 10 * n + digitValue c) 0 = digitsValue ds := by
  induction ds using List.reverseRecOn with
  | nil => rfl
  | append_singleton ds c ih => rw [List.foldl_append, ih, digitsValue_append_singleton]; rfl

theorem natValue?_eq_some_iff {ds : List Char} {n : Nat} :
    natValue? ds = some n ↔ ds ≠ [] ∧ (∀ c ∈ ds, c.isDigit) ∧ n = digitsValue ds := by
  unfold natValue?
  split
  · next h =>
    simp only [Option.some.injEq, foldl_eq_digitsValue, List.all_eq_true] at h ⊢
    exact ⟨fun hn => ⟨h.1, h.2, hn.symm⟩, fun hn => hn.2.2.symm⟩
  · next h =>
    simp only [List.all_eq_true, not_and] at h
    simp only [reduceCtorEq, false_iff, not_and]
    exact fun hne hd _ => h hne hd

theorem wordOfInt?_eq_some_iff {n : Int} {v : Word} :
    wordOfInt? n = some v ↔ -2 ^ 31 ≤ n ∧ n ≤ 2 ^ 31 - 1 ∧ v.toInt = n := by
  unfold wordOfInt?
  split
  · next h =>
    -- a value in range is its own representative modulo `2^32`
    have hv : (Int32.ofInt n).toInt = n := by
      rw [Int32.toInt_ofInt]
      exact Int.bmod_eq_of_le (by simp; omega) (by simp; omega)
    refine ⟨fun he => ?_, fun he => ?_⟩
    · cases he
      exact ⟨by omega, by omega, hv⟩
    · rw [← he.2.2, Int32.ofInt_toInt]
  · next h =>
    simp only [reduceCtorEq, false_iff, not_and]
    omega

theorem parse?_minus (ds : List Char) :
    parse? ('-' :: ds) = (natValue? ds).bind fun n => wordOfInt? (-(n : Int)) := rfl

theorem parse?_cons_of_ne {c : Char} (hc : c ≠ '-') (rest : List Char) :
    parse? (c :: rest) = (natValue? (c :: rest)).bind fun n => wordOfInt? n := by
  unfold parse?
  split
  · next h => exact absurd (List.cons.inj h).1 hc
  · rfl

theorem ne_minus_of_isDigit {c : Char} (hc : c.isDigit) : c ≠ '-' := by
  rintro rfl
  exact absurd hc (by decide)

/-- A text reads as a word exactly when it is a numeral of an integer in the range of words, and
then it reads as the word of that integer. -/
theorem parse?_eq_some_iff {cs : List Char} {v : Word} :
    parse? cs = some v ↔ ∃ n : Int, Denotes cs n ∧ -2 ^ 31 ≤ n ∧ n ≤ 2 ^ 31 - 1 ∧ v.toInt = n := by
  constructor
  · intro h
    rcases cs with _ | ⟨c, rest⟩
    · cases h
    by_cases hc : c = '-'
    · subst hc
      obtain ⟨m, hm, hv⟩ := Option.bind_eq_some_iff.mp h
      obtain ⟨hne, hd, rfl⟩ := natValue?_eq_some_iff.mp hm
      exact ⟨_, .minus hne hd, wordOfInt?_eq_some_iff.mp hv⟩
    · rw [parse?_cons_of_ne hc] at h
      obtain ⟨m, hm, hv⟩ := Option.bind_eq_some_iff.mp h
      obtain ⟨hne, hd, rfl⟩ := natValue?_eq_some_iff.mp hm
      exact ⟨_, .digits hne hd, wordOfInt?_eq_some_iff.mp hv⟩
  · rintro ⟨n, hn, hrange⟩
    cases hn with
    | digits hne hd =>
      -- digits alone start with a digit, which is no `-`
      obtain ⟨c, rest, rfl⟩ := List.exists_cons_of_ne_nil hne
      rw [parse?_cons_of_ne (ne_minus_of_isDigit (hd c List.mem_cons_self))]
      exact Option.bind_eq_some_iff.mpr ⟨_, natValue?_eq_some_iff.mpr ⟨hne, hd, rfl⟩,
        wordOfInt?_eq_some_iff.mpr hrange⟩
    | minus hne hd =>
      rw [parse?_minus]
      exact Option.bind_eq_some_iff.mpr ⟨_, natValue?_eq_some_iff.mpr ⟨hne, hd, rfl⟩,
        wordOfInt?_eq_some_iff.mpr hrange⟩

/-! ### What `render` writes -/

theorem digitChar_isDigit_and_digitValue : ∀ d < 10,
    (digitChar d).isDigit ∧ digitValue (digitChar d) = d := by
  decide

/-- The decimal digits of a number are ASCII digits, at least one, and their value is the
number. -/
theorem natDigits_spec (n : Nat) :
    natDigits n ≠ [] ∧ (∀ c ∈ natDigits n, c.isDigit) ∧ digitsValue (natDigits n) = n := by
  fun_induction natDigits n with
  | case1 n h =>
    obtain ⟨hd, hv⟩ := digitChar_isDigit_and_digitValue n h
    refine ⟨List.cons_ne_nil _ _, by simpa using hd, ?_⟩
    simp [digitsValue, hv]
  | case2 n h ih =>
    obtain ⟨-, hd, hv⟩ := ih
    obtain ⟨hd', hv'⟩ := digitChar_isDigit_and_digitValue (n % 10) (Nat.mod_lt _ (by omega))
    refine ⟨by simp, ?_, ?_⟩
    · intro c hc
      rcases List.mem_append.mp hc with hc | hc
      · exact hd c hc
      · rw [List.mem_singleton.mp hc]
        exact hd'
    · rw [digitsValue_append_singleton, hv, hv']
      omega

/-- What `render` writes is a numeral of the word. -/
theorem denotes_render (w : Word) : Denotes (render w).toList w.toInt := by
  obtain ⟨hne, hd, hv⟩ := natDigits_spec w.toInt.natAbs
  unfold render
  split
  · next h =>
    have hw : -(digitsValue (natDigits w.toInt.natAbs) : Int) = w.toInt := by
      rw [hv]
      omega
    rw [String.toList_ofList]
    have hden := Denotes.minus hne hd
    rwa [hw] at hden
  · next h =>
    have hw : (digitsValue (natDigits w.toInt.natAbs) : Int) = w.toInt := by
      rw [hv]
      omega
    rw [String.toList_ofList]
    have hden := Denotes.digits hne hd
    rwa [hw] at hden

/-- Reading what `render` writes gives the word back. -/
theorem parse?_render (w : Word) : parse? (render w).toList = some w :=
  parse?_eq_some_iff.mpr ⟨_, denotes_render w, Int32.le_toInt w, by
    have := Int32.toInt_lt w
    omega, rfl⟩

/-- Reading accepts exactly the grammar of numerals: a text reads as a word exactly when it is an
optional `-` and one or more ASCII digits whose value, negated after a `-`, lies from `-2^31` to
`2^31 - 1`, and it reads as the word of that value; and reading the decimal text that `render`
writes for a word gives that word. -/
theorem parse?_exactly_numerals :
    (∀ (cs : List Char) (v : Word),
      parse? cs = some v ↔ ∃ n : Int, Denotes cs n ∧ -2 ^ 31 ≤ n ∧ n ≤ 2 ^ 31 - 1 ∧ v.toInt = n) ∧
    ∀ w : Word, parse? (render w).toList = some w :=
  ⟨fun _ _ => parse?_eq_some_iff, parse?_render⟩

end StackQueue.Numeral
