import Mathlib.Data.Int.ModEq
import StackQueue.Word

/-! Word arithmetic is integer arithmetic modulo `2^32`. Each arithmetic instruction stands for an
operation on integers, `Arith.onInt`: the sum, the difference, the product, and the quotient and
the remainder of the division that truncates toward zero. `apply` has no result exactly for a
zero divisor; otherwise its result is the word congruent to that integer modulo `2^32`. The
quotient is the integer quotient itself except for the least word divided by `-1`, which wraps to
the least word. The remainder never wraps: it is the dividend less the divisor times the
truncated quotient, below the divisor in absolute value and zero or of the dividend's sign. -/

namespace StackQueue.Arith

/-- The operation on integers that each arithmetic instruction stands for. -/
def onInt : Arith → Int → Int → Int
  | add, s, f => s + f
  | sub, s, f => s - f
  | mul, s, f => s * f
  | div, s, f => s.tdiv f
  | mod, s, f => s.tmod f

/-- Only a zero divisor of `div` or `mod` leaves an operation without a result. -/
theorem apply_eq_none_iff (op : Arith) (second front : Word) :
    op.apply second front = none ↔ (op = div ∨ op = mod) ∧ front = 0 := by
  cases op <;> by_cases h : front = 0 <;> simp [apply, h]

theorem div_apply_eq_some {second front q : Word} (h : div.apply second front = some q) :
    front ≠ 0 ∧ q = second / front := by
  by_cases hf : front = 0 <;> simp_all [apply, eq_comm]

theorem mod_apply_eq_some {second front r : Word} (h : mod.apply second front = some r) :
    front ≠ 0 ∧ r = second % front := by
  by_cases hf : front = 0 <;> simp_all [apply, eq_comm]

theorem toInt_ne_zero {w : Word} (h : w ≠ 0) : w.toInt ≠ 0 := by
  rw [← Int32.toInt_zero]
  exact fun he => h (Int32.toInt_inj.mp he)

/-- Each result is the integer result wrapped into a word: the one integer from `-2^31` to
`2^31 - 1` congruent to it modulo `2^32`. A remainder is in that range already. -/
theorem toInt_apply {op : Arith} {second front r : Word} (h : op.apply second front = some r) :
    r.toInt = (op.onInt second.toInt front.toInt).bmod (2 ^ 32) := by
  cases op with
  | add =>
    cases h
    exact Int32.toInt_add second front
  | sub =>
    cases h
    exact Int32.toInt_sub second front
  | mul =>
    cases h
    exact Int32.toInt_mul second front
  | div =>
    obtain ⟨-, rfl⟩ := div_apply_eq_some h
    exact Int32.toInt_div second front
  | mod =>
    obtain ⟨-, rfl⟩ := mod_apply_eq_some h
    rw [onInt, ← Int32.toInt_mod]
    exact (Int32.toInt_bmod _).symm

/-- A quotient is the integer quotient truncated toward zero, except for the least word divided by
`-1`, whose quotient `2^31` wraps to the least word. -/
theorem toInt_div_apply {second front q : Word} (h : div.apply second front = some q) :
    q.toInt =
      if second = Int32.minValue ∧ front = -1 then -2 ^ 31 else second.toInt.tdiv front.toInt := by
  obtain ⟨-, rfl⟩ := div_apply_eq_some h
  split
  · next hm =>
    obtain ⟨rfl, rfl⟩ := hm
    rfl
  · next hm =>
    by_cases hs : second = Int32.minValue
    · exact Int32.toInt_div_of_ne_right second front fun hf => hm ⟨hs, hf⟩
    · exact Int32.toInt_div_of_ne_left second front hs

/-- A remainder is the dividend less the divisor times the truncated quotient, with no wrapping;
it is below the divisor in absolute value, and it is zero or has the sign of the dividend. -/
theorem toInt_mod_apply {second front r : Word} (h : mod.apply second front = some r) :
    r.toInt = second.toInt - front.toInt * second.toInt.tdiv front.toInt ∧
      r.toInt.natAbs < front.toInt.natAbs ∧ (r.toInt = 0 ∨ r.toInt.sign = second.toInt.sign) := by
  obtain ⟨hf, rfl⟩ := mod_apply_eq_some h
  have hf' : 0 < front.toInt.natAbs := Int.natAbs_pos.mpr (toInt_ne_zero hf)
  rw [Int32.toInt_mod]
  refine ⟨Int.tmod_def _ _, ?_, ?_⟩
  · rw [Int.natAbs_tmod]
    exact Nat.mod_lt _ hf'
  · by_cases hd : front.toInt ∣ second.toInt
    · exact .inl (Int.tmod_eq_zero_of_dvd hd)
    · exact .inr (by rw [Int.sign_tmod, if_neg hd])

/-- Quotient and remainder put the dividend back together, modulo `2^32`. -/
theorem modEq_div_add_mod {second front q r : Word} (hq : div.apply second front = some q)
    (hr : mod.apply second front = some r) :
    second.toInt ≡ front.toInt * q.toInt + r.toInt [ZMOD 2 ^ 32] := by
  have hq' := toInt_apply hq
  have hr' : r.toInt = second.toInt.tmod front.toInt := by
    obtain ⟨-, rfl⟩ := mod_apply_eq_some hr
    exact Int32.toInt_mod second front
  -- the wrapped quotient is congruent to the integer quotient, and the integer identity holds
  have hwrap : q.toInt ≡ second.toInt.tdiv front.toInt [ZMOD 2 ^ 32] := by
    rw [hq']
    exact Int.bmod_emod
  calc second.toInt
      = front.toInt * second.toInt.tdiv front.toInt + second.toInt.tmod front.toInt :=
        (Int.mul_tdiv_add_tmod _ _).symm
    _ ≡ front.toInt * q.toInt + r.toInt [ZMOD 2 ^ 32] := by
        rw [hr']
        exact ((hwrap.symm.mul_left _).add_right _)

/-- Arithmetic on words is integer arithmetic modulo `2^32`. An operation fails exactly on a zero
divisor of `div` or `mod`; otherwise its result is the word congruent to the integer result. The
quotient is the integer quotient but for the least word divided by `-1`; the remainder does not
wrap, is below the divisor in absolute value and is zero or of the dividend's sign; and quotient
and remainder put the dividend back together modulo `2^32`. -/
theorem apply_wraps_onInt (second front : Word) :
    (∀ op : Arith, op.apply second front = none ↔ (op = div ∨ op = mod) ∧ front = 0) ∧
    (∀ (op : Arith) (r : Word), op.apply second front = some r →
      r.toInt = (op.onInt second.toInt front.toInt).bmod (2 ^ 32)) ∧
    (∀ q : Word, div.apply second front = some q →
      q.toInt =
        if second = Int32.minValue ∧ front = -1 then -2 ^ 31
        else second.toInt.tdiv front.toInt) ∧
    (∀ r : Word, mod.apply second front = some r →
      r.toInt = second.toInt - front.toInt * second.toInt.tdiv front.toInt ∧
        r.toInt.natAbs < front.toInt.natAbs ∧
        (r.toInt = 0 ∨ r.toInt.sign = second.toInt.sign)) ∧
    (∀ q r : Word, div.apply second front = some q → mod.apply second front = some r →
      second.toInt ≡ front.toInt * q.toInt + r.toInt [ZMOD 2 ^ 32]) :=
  ⟨fun op => apply_eq_none_iff op second front, fun _ _ => toInt_apply, fun _ => toInt_div_apply,
    fun _ => toInt_mod_apply, fun _ _ => modEq_div_add_mod⟩

end StackQueue.Arith
