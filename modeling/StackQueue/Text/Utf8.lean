/-! Lenient UTF-8 decoding. Well-formed sequences become their characters; every maximal
subpart of an ill-formed sequence becomes one replacement character U+FFFD, and decoding goes on
at the first byte that does not belong to it. A maximal subpart is a lead byte with the longest
run of continuation bytes that could still begin a well-formed sequence: after `E0` the next byte
must lie in `A0`..`BF`, after `ED` in `80`..`9F`, after `F0` in `90`..`BF`, after `F4` in
`80`..`8F`, and otherwise in `80`..`BF`. So overlong forms, surrogates and values above U+10FFFF
are never decoded. -/

namespace StackQueue.Utf8

/-- The replacement character. -/
def replacement : Char := '\uFFFD'

/-- The shape of a sequence that starts with lead byte `b` at or above `0x80`: the number of
continuation bytes, the range allowed for the first of them, and the bits of `b` that the
character keeps. Bytes that start no sequence have none. -/
def lead? (b : UInt8) : Option (Nat × UInt8 × UInt8 × Nat) :=
  if b < 0xC2 then none
  else if b ≤ 0xDF then some (1, 0x80, 0xBF, b.toNat % 0x20)
  else if b = 0xE0 then some (2, 0xA0, 0xBF, b.toNat % 0x10)
  else if b = 0xED then some (2, 0x80, 0x9F, b.toNat % 0x10)
  else if b ≤ 0xEF then some (2, 0x80, 0xBF, b.toNat % 0x10)
  else if b = 0xF0 then some (3, 0x90, 0xBF, b.toNat % 0x08)
  else if b ≤ 0xF3 then some (3, 0x80, 0xBF, b.toNat % 0x08)
  else if b = 0xF4 then some (3, 0x80, 0x8F, b.toNat % 0x08)
  else none

/-- The continuation bytes at the start of `bs` that still fit a sequence: at most `need` of
them, the first in `lo`..`hi` and the others in `80`..`BF`. -/
def continuation (need : Nat) (lo hi : UInt8) : List UInt8 → List UInt8
  | [] => []
  | c :: cs =>
    match need with
    | 0 => []
    | n + 1 => if lo ≤ c ∧ c ≤ hi then c :: continuation n 0x80 0xBF cs else []

/-- The code point of a lead byte's kept bits followed by continuation bytes. -/
def codePoint (bits : Nat) (conts : List UInt8) : Nat :=
  conts.foldl (fun acc c => 64 * acc + c.toNat % 64) bits

/-- The characters of `bs`, with one replacement character for each maximal ill-formed
subpart. -/
def decode (bs : List UInt8) : List Char :=
  match bs with
  | [] => []
  | b :: rest =>
    if b < 0x80 then Char.ofNat b.toNat :: decode rest
    else
      match lead? b with
      | none => replacement :: decode rest
      | some (need, lo, hi, bits) =>
        let conts := continuation need lo hi rest
        if conts.length = need then
          Char.ofNat (codePoint bits conts) :: decode (rest.drop need)
        else replacement :: decode (rest.drop conts.length)
termination_by bs.length
decreasing_by
  all_goals simp only [List.length_cons, List.length_drop]
  all_goals omega

example : decode [0xE2, 0x82, 0xAC] = ['€'] := by decide +kernel

example : decode [0xED, 0xA0, 0x80] = [replacement, replacement, replacement] := by
  decide +kernel

example : decode [0xF0, 0x9F, 0x98] = [replacement] := by decide +kernel

end StackQueue.Utf8
