import Mathlib.Data.Nat.Digits.Lemmas

/-!
# Decimal numbers

`Nat.toDigits 10` writes the shortest numeral; here are the numerals of a fixed width, and what is
read back.
-/

namespace Moov.Decimal

open List

lemma isDigit_toDigits {n : Nat} {c : Char} (h : c ∈ Nat.toDigits 10 n) : c.isDigit = true :=
  Nat.isDigit_of_mem_toDigits (by decide) (by decide) h

lemma all_isDigit_toDigits (n : Nat) : (Nat.toDigits 10 n).all Char.isDigit = true :=
  all_eq_true.2 fun _ h => isDigit_toDigits h

/-- A numeral has no leading zero. -/
lemma head?_toDigits {n : Nat} (h : n ≠ 0) : (Nat.toDigits 10 n).head? ≠ some '0' := by
  induction n using Nat.strongRecOn with
  | ind n ih =>
    rw [Nat.toDigits_eq_if (by decide)]
    split
    · simp [h]
    · have hpos : n / 10 ≠ 0 := by omega
      have hhead := ih (n / 10) (by omega) hpos
      rw [head?_append_of_ne_nil _ Nat.toDigits_ne_nil]
      exact hhead

/-- A numeral of a width, with leading zeros. -/
def pad (width n : Nat) : List Char :=
  List.replicate (width - (Nat.toDigits 10 n).length) '0' ++ Nat.toDigits 10 n

/-- A numeral of a width, and what follows it. -/
def readPad (width : Nat) (t : List Char) : Option (Nat × List Char) :=
  let digits := t.take width
  if digits.length = width ∧ digits.all Char.isDigit = true then
    some (Nat.ofDigitChars 10 digits 0, t.drop width)
  else none

lemma isDigit_pad {width n : Nat} {c : Char} (h : c ∈ pad width n) : c.isDigit = true := by
  rcases mem_append.1 h with h | h
  · rw [eq_of_mem_replicate h]
    decide
  · exact isDigit_toDigits h

lemma length_pad {width n : Nat} (hw : 0 < width) (h : n < 10 ^ width) :
    (pad width n).length = width := by
  have hle := (Nat.length_toDigits_le_iff (by decide : 1 < 10) hw).2 h
  rw [pad, length_append, length_replicate]
  omega

lemma readPad_pad {width n : Nat} (hw : 0 < width) (h : n < 10 ^ width) (r : List Char) :
    readPad width (pad width n ++ r) = some (n, r) := by
  have hlen := length_pad hw h
  have hvalue : Nat.ofDigitChars 10 (pad width n) 0 = n := by
    rw [pad, Nat.ofDigitChars_append, Nat.ofDigitChars_replicate_zero, Nat.mul_zero,
      Nat.ofDigitChars_ten_toDigits]
  simp only [readPad, take_left' hlen, drop_left' hlen, hlen,
    all_eq_true.2 fun _ hc => isDigit_pad hc, hvalue, and_self, if_true]

end Moov.Decimal
