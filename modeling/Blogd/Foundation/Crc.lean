import Mathlib.Logic.Function.Iterate
import Blogd.Foundation.Endian

/-! # Cyclic redundancy checks

The remainder of a text by a polynomial over bits, lowest bit first. A round is linear in its
state, and injective when the polynomial has its highest bit. So a remainder as wide as a number
of bytes tells any two texts apart that differ in so many bytes in a row only.
-/

namespace Blogd.Crc

variable {w : Nat} (poly : BitVec w)

/-- A round for one bit. -/
def shift (c : BitVec w) : BitVec w := if c.getLsbD 0 then (c >>> 1) ^^^ poly else c >>> 1

/-- A round for one byte. -/
def byteStep (c : BitVec w) (b : UInt8) : BitVec w :=
  (shift poly)^[8] (c ^^^ b.toBitVec.setWidth w)

/-- The remainder after a text. -/
def remainder (c : BitVec w) (text : List UInt8) : BitVec w := text.foldl (byteStep poly) c

/-! ## Rounds -/

theorem shift_xor (a b : BitVec w) : shift poly (a ^^^ b) = shift poly a ^^^ shift poly b := by
  have hcancel : ∀ x y : BitVec w, x ^^^ poly ^^^ (y ^^^ poly) = x ^^^ y := by
    intro x y
    rw [BitVec.xor_comm y poly, BitVec.xor_assoc x poly, ← BitVec.xor_assoc poly poly,
      BitVec.xor_self, BitVec.zero_xor]
  unfold shift
  simp only [BitVec.getLsbD_xor, BitVec.ushiftRight_xor_distrib]
  cases a.getLsbD 0 <;> cases b.getLsbD 0
  · rfl
  · exact BitVec.xor_assoc _ _ _
  · rw [BitVec.xor_assoc, BitVec.xor_comm _ poly, ← BitVec.xor_assoc]
    rfl
  · exact (hcancel _ _).symm

theorem iterate_shift_xor (n : Nat) (a b : BitVec w) :
    (shift poly)^[n] (a ^^^ b) = (shift poly)^[n] a ^^^ (shift poly)^[n] b := by
  induction n with
  | zero => rfl
  | succ n ih => rw [Function.iterate_succ_apply', Function.iterate_succ_apply',
      Function.iterate_succ_apply', ih, shift_xor]

/-- Bits that are not there only move. -/
theorem iterate_shift_of_low {n : Nat} {c : BitVec w} (hlow : ∀ i < n, c.getLsbD i = false) :
    (shift poly)^[n] c = c >>> n := by
  induction n with
  | zero => exact (BitVec.ushiftRight_zero c).symm
  | succ n ih =>
      have hbit : (c >>> n).getLsbD 0 = false := by
        rw [BitVec.getLsbD_ushiftRight]
        exact hlow n (Nat.lt_succ_self n)
      rw [Function.iterate_succ_apply', ih fun i hi => hlow i (Nat.lt_succ_of_lt hi), shift, hbit,
        BitVec.shiftRight_add]
      rfl

/-- A round for a byte needs a table for one byte only: the rest of the state moves. -/
theorem byteStep_eq (c : BitVec w) (b : UInt8) :
    byteStep poly c b =
      (shift poly)^[8] ((c.setWidth 8 ^^^ b.toBitVec).setWidth w) ^^^ (c >>> 8) := by
  have hsplit : c ^^^ b.toBitVec.setWidth w =
      (c.setWidth 8 ^^^ b.toBitVec).setWidth w ^^^ (c >>> 8) <<< 8 := by
    apply BitVec.eq_of_getLsbD_eq
    intro i hi
    by_cases hlow : i < 8
    · simp [hi, hlow]
    · have hbyte : b.toBitVec.getLsbD i = false := BitVec.getLsbD_of_ge _ _ (by omega)
      simp [hi, hlow, hbyte, show 8 + (i - 8) = i by omega]
  have hmove : (shift poly)^[8] ((c >>> 8) <<< 8) = c >>> 8 := by
    rw [iterate_shift_of_low]
    · apply BitVec.eq_of_getLsbD_eq
      intro i hi
      by_cases hhigh : 8 + i < w
      · simp [hhigh]
      · simp [hhigh, BitVec.getLsbD_of_ge c (8 + i) (by omega)]
    · intro i hi
      simp [hi]
  rw [byteStep, hsplit, iterate_shift_xor, hmove]

/-- The highest bit after a round is the lowest one before it. -/
theorem msb_shift (hpoly : poly.msb = true) (c : BitVec w) :
    (shift poly c).msb = c.getLsbD 0 := by
  have hwidth : 0 < w := by
    by_contra hzero
    obtain rfl : w = 0 := by omega
    rw [BitVec.eq_nil poly] at hpoly
    cases hpoly
  have hshifted : (c >>> 1).msb = false := by
    rw [BitVec.msb_eq_getLsbD_last, BitVec.getLsbD_ushiftRight]
    exact BitVec.getLsbD_of_ge _ _ (by omega)
  unfold shift
  split
  next hbit => rw [BitVec.msb_xor, hshifted, hpoly, hbit, Bool.false_xor]
  next hbit => rw [hshifted, Bool.eq_false_iff.mpr hbit]

theorem shift_injective (hpoly : poly.msb = true) : Function.Injective (shift poly) := by
  intro a b hab
  have hbit : a.getLsbD 0 = b.getLsbD 0 := by
    rw [← msb_shift poly hpoly, ← msb_shift poly hpoly, hab]
  have hrest : a >>> 1 = b >>> 1 := by
    unfold shift at hab
    rw [hbit] at hab
    split at hab
    · exact (BitVec.xor_left_inj _).mp hab
    · exact hab
  apply BitVec.eq_of_getLsbD_eq
  intro i hi
  cases i with
  | zero => exact hbit
  | succ i =>
      have h := congrArg (fun c : BitVec w => c.getLsbD i) hrest
      simpa only [BitVec.getLsbD_ushiftRight, Nat.add_comm 1 i] using h

/-- Texts that are read from two states leave two states. -/
theorem remainder_injective (hpoly : poly.msb = true) (text : List UInt8) :
    Function.Injective fun c => remainder poly c text := by
  induction text with
  | nil => exact Function.injective_id
  | cons b text ih =>
      intro c c' h
      have hstep := (shift_injective poly hpoly).iterate 8 (ih h)
      exact (BitVec.xor_left_inj _).mp hstep

/-! ## Texts within the width -/

theorem ofNat_number_cons (b : UInt8) (text : List UInt8) :
    BitVec.ofNat w (number (b :: text)) =
      b.toBitVec.setWidth w ^^^ BitVec.ofNat w (2 ^ 8 * number text) := by
  apply BitVec.eq_of_getLsbD_eq
  intro i hi
  rw [BitVec.getLsbD_xor, BitVec.getLsbD_setWidth, BitVec.getLsbD_ofNat, BitVec.getLsbD_ofNat,
    number_cons, Nat.testBit_two_pow_mul_add _ b.toNat_lt, Nat.testBit_two_pow_mul]
  change _ = ((decide (i < w) && b.toNat.testBit i) ^^ _)
  by_cases hlow : i < 8
  · simp [hi, hlow, Nat.not_le.mpr hlow]
  · have hbyte : b.toNat.testBit i = false :=
      Nat.testBit_lt_two_pow (b.toNat_lt.trans_le (Nat.pow_le_pow_right (by norm_num) (by omega)))
    simp [hi, hlow, Nat.le_of_not_lt hlow, hbyte]

theorem iterate_shift_number {n : Nat} (hn : 2 ^ 8 * n < 2 ^ w) :
    (shift poly)^[8] (BitVec.ofNat w (2 ^ 8 * n)) = BitVec.ofNat w n := by
  rw [iterate_shift_of_low]
  · apply BitVec.eq_of_toNat_eq
    rw [BitVec.toNat_ushiftRight, BitVec.toNat_ofNat, BitVec.toNat_ofNat, Nat.mod_eq_of_lt hn,
      Nat.shiftRight_eq_div_pow, Nat.mul_div_cancel_left _ (by norm_num),
      Nat.mod_eq_of_lt (by omega)]
  · intro i hi
    rw [BitVec.getLsbD_ofNat, Nat.testBit_two_pow_mul]
    simp [hi]

theorem number_lt_two_pow {text : List UInt8} (hlen : 8 * text.length ≤ w) :
    number text < 2 ^ w := by
  have h := number_lt text
  rw [show 256 = 2 ^ 8 by norm_num, ← Nat.pow_mul] at h
  exact h.trans_le (Nat.pow_le_pow_right (by norm_num) hlen)

/-- A text that is no longer than the remainder is read as one number. -/
theorem remainder_eq_iterate (c : BitVec w) {text : List UInt8} (hlen : 8 * text.length ≤ w) :
    remainder poly c text =
      (shift poly)^[8 * text.length] (c ^^^ BitVec.ofNat w (number text)) := by
  induction text generalizing c with
  | nil => simp [remainder, number]
  | cons b text ih =>
      have hnumber := number_lt_two_pow hlen
      rw [number_cons] at hnumber
      rw [List.length_cons] at hlen ⊢
      have hih := ih (byteStep poly c b) (by omega)
      rw [← iterate_shift_number poly (n := number text) (by omega), byteStep,
        ← iterate_shift_xor, ← Function.iterate_add_apply, BitVec.xor_assoc,
        ← ofNat_number_cons] at hih
      exact hih

/-- Two texts that are the same up to so many bytes in a row as the remainder has are told
apart. -/
theorem remainder_burst (hpoly : poly.msb = true) (c : BitVec w) (before after : List UInt8)
    {s t : List UInt8} (hlen : s.length = t.length) (hwidth : 8 * s.length ≤ w)
    (h : remainder poly c (before ++ s ++ after) = remainder poly c (before ++ t ++ after)) :
    s = t := by
  have happend : ∀ text, remainder poly c (before ++ text ++ after) =
      remainder poly (remainder poly (remainder poly c before) text) after := by
    intro text
    rw [remainder, List.foldl_append, List.foldl_append]
    rfl
  rw [happend, happend] at h
  have hwindow := remainder_injective poly hpoly after h
  have hwidth' : 8 * t.length ≤ w := hlen ▸ hwidth
  rw [remainder_eq_iterate poly _ hwidth, remainder_eq_iterate poly _ hwidth', hlen] at hwindow
  have hnumber := (BitVec.xor_right_inj _).mp ((shift_injective poly hpoly).iterate _ hwindow)
  apply number_injective hlen
  have htoNat := congrArg BitVec.toNat hnumber
  rwa [BitVec.toNat_ofNat, BitVec.toNat_ofNat, Nat.mod_eq_of_lt (number_lt_two_pow hwidth),
    Nat.mod_eq_of_lt (number_lt_two_pow hwidth')] at htoNat

end Blogd.Crc
