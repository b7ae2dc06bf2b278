import Mathlib.Data.Nat.Bitwise
import Mathlib.Tactic.Ring

/-! # Words read backwards

The position of a word is its value read from the other end. Words with the same low bits have
neighbouring positions, so that counting up positions in steps runs through the values of the
low bits, and through every word with them, without a gap.
-/

namespace Blogd.Reversal

variable {w n : Nat}

def position (x : BitVec w) : Nat := x.reverse.toNat

theorem position_lt (x : BitVec w) : position x < 2 ^ w := x.reverse.isLt

theorem testBit_position (x : BitVec w) {i : Nat} (hi : i < w) :
    (position x).testBit i = x.getLsbD (w - 1 - i) := by
  rw [position, BitVec.testBit_toNat, BitVec.getLsbD_reverse, BitVec.getMsbD, decide_eq_true hi,
    Bool.true_and]

theorem reverse_reverse (x : BitVec w) : x.reverse.reverse = x := by
  apply BitVec.eq_of_getLsbD_eq
  intro i hi
  rw [BitVec.getLsbD_reverse, BitVec.getMsbD_reverse]

theorem position_reverse (x : BitVec w) : position x.reverse = x.toNat := by
  rw [position, reverse_reverse]

theorem position_zero : position (0 : BitVec w) = 0 := by
  apply Nat.eq_of_testBit_eq
  intro i
  rw [Nat.zero_testBit, position, BitVec.testBit_toNat, BitVec.getLsbD_reverse]
  simp [BitVec.getMsbD]

theorem eq_zero_of_position {x : BitVec w} (h : position x = 0) : x = 0 := by
  have hzero : x.reverse = 0 := BitVec.eq_of_toNat_eq h
  rw [← reverse_reverse x, hzero]
  exact BitVec.eq_of_toNat_eq position_zero

/-- The high bits of the position are the low bits of the word. -/
theorem testBit_position_div (x : BitVec w) (hn : n ≤ w) {j : Nat} (hj : j < n) :
    (position x / 2 ^ (w - n)).testBit j = x.toNat.testBit (n - 1 - j) := by
  rw [Nat.testBit_div_two_pow, testBit_position x (by omega), BitVec.testBit_toNat]
  congr 1
  omega

/-- There are as many stretches as values of the low bits. -/
theorem two_pow_split (hn : n ≤ w) : 2 ^ w = 2 ^ n * 2 ^ (w - n) := by
  rw [← Nat.pow_add, Nat.add_sub_cancel' hn]

theorem position_div_lt (x : BitVec w) (hn : n ≤ w) : position x / 2 ^ (w - n) < 2 ^ n := by
  rw [Nat.div_lt_iff_lt_mul (Nat.two_pow_pos _), ← two_pow_split hn]
  exact position_lt x

/-- Words stand in the same stretch of positions where they have the same low bits. -/
theorem position_div_eq_iff (hn : n ≤ w) (x y : BitVec w) :
    position x / 2 ^ (w - n) = position y / 2 ^ (w - n) ↔
      x.toNat % 2 ^ n = y.toNat % 2 ^ n := by
  constructor
  · intro h
    apply Nat.eq_of_testBit_eq
    intro i
    rw [Nat.testBit_mod_two_pow, Nat.testBit_mod_two_pow]
    by_cases hi : i < n
    · have hbit := congrArg (Nat.testBit · (n - 1 - i)) h
      rw [testBit_position_div x hn (by omega), testBit_position_div y hn (by omega)] at hbit
      rw [show n - 1 - (n - 1 - i) = i by omega] at hbit
      rw [hbit]
    · rw [decide_eq_false hi, Bool.false_and, Bool.false_and]
  · intro h
    apply Nat.eq_of_testBit_eq
    intro j
    by_cases hj : j < n
    · have hbit := congrArg (Nat.testBit · (n - 1 - j)) h
      rw [Nat.testBit_mod_two_pow, Nat.testBit_mod_two_pow, decide_eq_true (by omega),
        Bool.true_and, Bool.true_and] at hbit
      rw [testBit_position_div x hn hj, testBit_position_div y hn hj, hbit]
    · have hle : 2 ^ n ≤ 2 ^ j := Nat.pow_le_pow_right (by decide) (by omega)
      rw [Nat.testBit_lt_two_pow ((position_div_lt x hn).trans_le hle),
        Nat.testBit_lt_two_pow ((position_div_lt y hn).trans_le hle)]

/-- A word of few bits stands at the beginning of a stretch. -/
theorem position_mod_of_lt {x : BitVec w} (hn : n ≤ w) (hx : x.toNat < 2 ^ n) :
    position x % 2 ^ (w - n) = 0 := by
  apply Nat.eq_of_testBit_eq
  intro i
  rw [Nat.testBit_mod_two_pow, Nat.zero_testBit]
  by_cases hi : i < w - n
  · have hle : 2 ^ n ≤ 2 ^ (w - 1 - i) := Nat.pow_le_pow_right (by decide) (by omega)
    rw [testBit_position x (by omega), ← BitVec.testBit_toNat,
      Nat.testBit_lt_two_pow (hx.trans_le hle), Bool.and_false]
  · rw [decide_eq_false hi, Bool.false_and]

/-- What stands at the beginning of a stretch is a word of few bits. -/
theorem lt_of_position_mod {x : BitVec w} (hn : n ≤ w) (h : position x % 2 ^ (w - n) = 0) :
    x.toNat < 2 ^ n := by
  apply Nat.lt_pow_two_of_testBit
  intro i hi
  rcases Nat.lt_or_ge i w with hlt | hge
  · have hbit := congrArg (Nat.testBit · (w - 1 - i)) h
    rw [Nat.testBit_mod_two_pow, Nat.zero_testBit, decide_eq_true (by omega), Bool.true_and,
      testBit_position x (by omega), show w - 1 - (w - 1 - i) = i by omega] at hbit
    rw [BitVec.testBit_toNat]
    exact hbit
  · exact Nat.testBit_lt_two_pow (x.isLt.trans_le (Nat.pow_le_pow_right (by decide) hge))

/-- A word, its bits above the low ones set, and then counted up backwards. -/
def next (mask x : BitVec w) : BitVec w := ((x ||| ~~~mask).reverse + 1).reverse

/-- Counting up goes to the beginning of the next stretch, and from the last to the first. -/
theorem position_next {mask : BitVec w} (hn : n ≤ w) (hmask : mask.toNat = 2 ^ n - 1)
    (x : BitVec w) :
    position (next mask x) = (position x / 2 ^ (w - n) + 1) * 2 ^ (w - n) % 2 ^ w := by
  have hbits : ∀ i, mask.getLsbD i = decide (i < n) := by
    intro i
    rw [← BitVec.testBit_toNat, hmask, Nat.testBit_two_pow_sub_one]
  have hlow : (x ||| ~~~mask).toNat % 2 ^ n = x.toNat % 2 ^ n := by
    apply Nat.eq_of_testBit_eq
    intro i
    rw [Nat.testBit_mod_two_pow, Nat.testBit_mod_two_pow, BitVec.testBit_toNat,
      BitVec.testBit_toNat, BitVec.getLsbD_or, BitVec.getLsbD_not, hbits]
    cases hi : decide (i < n) <;> simp
  have hhigh : position (x ||| ~~~mask) % 2 ^ (w - n) = 2 ^ (w - n) - 1 := by
    apply Nat.eq_of_testBit_eq
    intro i
    rw [Nat.testBit_mod_two_pow, Nat.testBit_two_pow_sub_one]
    by_cases hi : i < w - n
    · rw [testBit_position _ (by omega), BitVec.getLsbD_or, BitVec.getLsbD_not, hbits,
        decide_eq_true hi, decide_eq_true (by omega), decide_eq_false (by omega)]
      simp
    · rw [decide_eq_false hi, Bool.false_and]
  have hdiv := (position_div_eq_iff hn (x ||| ~~~mask) x).mpr hlow
  have hsplit := Nat.div_add_mod (position (x ||| ~~~mask)) (2 ^ (w - n))
  have hpos := Nat.two_pow_pos (w - n)
  have hone : BitVec.toNat (1 : BitVec w) = 1 % 2 ^ w := BitVec.toNat_ofNat 1 w
  rw [next, position_reverse, BitVec.toNat_add, hone, Nat.add_mod_mod]
  congr 1
  change position (x ||| ~~~mask) + 1 = _
  rw [hdiv, hhigh] at hsplit
  rw [← hsplit, Nat.add_mul, Nat.one_mul, Nat.mul_comm]
  omega

end Blogd.Reversal
