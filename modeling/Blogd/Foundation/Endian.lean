import Mathlib.Algebra.Order.Ring.Int
import Mathlib.Data.Nat.Digits.Lemmas

/-! # Numbers as bytes

Machine integers in two's complement, lowest byte first.
-/

namespace Blogd

/-- A text as a number, lowest byte first. -/
def number (text : List UInt8) : Nat := Nat.ofDigits 256 (text.map (·.toNat))

theorem number_cons (b : UInt8) (text : List UInt8) :
    number (b :: text) = 2 ^ 8 * number text + b.toNat := by
  rw [number, List.map_cons, Nat.ofDigits_cons, Nat.add_comm]
  rfl

theorem number_lt (text : List UInt8) : number text < 256 ^ text.length := by
  have h := @Nat.ofDigits_lt_base_pow_length 256 (text.map (·.toNat)) (by norm_num) ?_
  · rwa [List.length_map] at h
  · intro d hd
    obtain ⟨b, -, rfl⟩ := List.mem_map.mp hd
    exact b.toNat_lt

theorem number_injective {s t : List UInt8} (hlen : s.length = t.length)
    (h : number s = number t) : s = t := by
  have hdigit : ∀ text : List UInt8, ∀ d ∈ text.map (·.toNat), d < 256 := by
    intro text d hd
    obtain ⟨b, -, rfl⟩ := List.mem_map.mp hd
    exact b.toNat_lt
  have hmap := Nat.ofDigits_inj_of_len_eq (by norm_num) (by simpa using hlen) (hdigit s)
    (hdigit t) h
  exact List.map_injective_iff.mpr (fun _ _ => UInt8.toNat_inj.mp) hmap

/-- The byte that a cast to `unsigned char` leaves of an integer. -/
def lowByte (v : Int) : UInt8 := UInt8.ofNat (v % 256).toNat

/-- The lowest bytes of an integer, lowest first. -/
def littleEndian : Nat → Int → List UInt8
  | 0, _ => []
  | n + 1, v => lowByte v :: littleEndian n (v / 256)

@[simp] theorem length_littleEndian (n : Nat) (v : Int) : (littleEndian n v).length = n := by
  induction n generalizing v with
  | zero => rfl
  | succ n ih => rw [littleEndian, List.length_cons, ih]

theorem toNat_lowByte (v : Int) : ((lowByte v).toNat : Int) = v % 256 := by
  have hlow : 0 ≤ v % 256 := Int.emod_nonneg v (by norm_num)
  have hhigh : v % 256 < 256 := Int.emod_lt_of_pos v (by norm_num)
  rw [lowByte, UInt8.toNat_ofNat_of_lt' (by change _ < 256; omega), Int.toNat_of_nonneg hlow]

theorem number_littleEndian (n : Nat) (v : Int) :
    (number (littleEndian n v) : Int) = v % 256 ^ n := by
  induction n generalizing v with
  | zero => exact (Int.emod_one v).symm
  | succ n ih =>
      rw [littleEndian, number_cons]
      push_cast
      rw [ih, toNat_lowByte, pow_succ', Int.emod_def, Int.emod_def v 256, Int.emod_def v,
        ← Int.ediv_ediv_of_nonneg (by norm_num)]
      ring

/-- An integer that its bytes have room for is read back with its sign. -/
theorem bmod_number_littleEndian {n : Nat} {v : Int} (hlow : -(256 ^ n) ≤ 2 * v)
    (hhigh : 2 * v < 256 ^ n) : Int.bmod (number (littleEndian n v)) (256 ^ n) = v := by
  have hcast : ((256 ^ n : Nat) : Int) = 256 ^ n := by push_cast; rfl
  rw [number_littleEndian, ← hcast, Int.emod_bmod]
  apply Int.bmod_eq_of_le_mul_two <;> omega

theorem number_littleEndian_of_lt {n v : Nat} (hv : v < 256 ^ n) :
    number (littleEndian n v) = v := by
  have h := number_littleEndian n v
  rw [Int.emod_eq_of_lt (Int.natCast_nonneg v) (by exact_mod_cast hv)] at h
  exact_mod_cast h

end Blogd
