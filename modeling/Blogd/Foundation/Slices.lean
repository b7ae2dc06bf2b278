import Mathlib.Data.List.Basic

/-! # Slices of a list

A list is cut into slices of `n` elements, the last of which may be shorter. Proofs about all the
slices take the first one off and go on with the rest.
-/

namespace Blogd

variable {α β : Type}

/-- The slice with index `i`. -/
def slice (n : Nat) (l : List α) (i : Nat) : List α := (l.drop (i * n)).take n

/-- The number of slices of a list of the given length. -/
def sliceCount (n len : Nat) : Nat := (len + n - 1) / n

@[simp] theorem slice_zero (n : Nat) (l : List α) : slice n l 0 = l.take n := by
  simp [slice]

theorem slice_succ (n : Nat) (l : List α) (i : Nat) : slice n l (i + 1) = slice n (l.drop n) i := by
  rw [slice, slice, List.drop_drop, Nat.add_mul, Nat.one_mul, Nat.add_comm]

theorem lt_sliceCount_iff {n : Nat} (hn : 0 < n) (len i : Nat) :
    i < sliceCount n len ↔ i * n < len := by
  rw [sliceCount, Nat.lt_iff_add_one_le, Nat.le_div_iff_mul_le hn, Nat.add_mul]
  omega

theorem sliceCount_zero {n : Nat} (hn : 0 < n) : sliceCount n 0 = 0 := by
  apply Nat.eq_zero_of_not_pos
  intro hpos
  exact absurd ((lt_sliceCount_iff hn 0 0).mp hpos) (Nat.not_lt_zero _)

theorem sliceCount_pos {n len : Nat} (hn : 0 < n) (hlen : 0 < len) :
    sliceCount n len = sliceCount n (len - n) + 1 := by
  unfold sliceCount
  rcases Nat.lt_or_ge len n with hlt | hge
  · rw [Nat.sub_eq_zero_of_le (Nat.le_of_lt hlt), Nat.zero_add,
      Nat.div_eq_of_lt (by omega : n - 1 < n), show len + n - 1 = len - 1 + n by omega,
      Nat.add_div_right _ hn, Nat.div_eq_of_lt (by omega)]
  · rw [show len + n - 1 = len - n + n - 1 + n by omega, Nat.add_div_right _ hn]

/-- Induction on the slices of a list. -/
theorem slices_induction {n : Nat} (hn : 0 < n) {P : List α → Prop} (hnil : P [])
    (hslice : ∀ l, l ≠ [] → P (l.drop n) → P l) (l : List α) : P l := by
  induction hlen : l.length using Nat.strongRecOn generalizing l with
  | ind len ih =>
      by_cases hempty : l = []
      · rw [hempty]
        exact hnil
      · apply hslice l hempty
        have hpos := List.length_pos_iff.mpr hempty
        exact ih (l.drop n).length (by rw [List.length_drop]; omega) _ rfl

/-- The first slice and then the slices of the rest. -/
theorem flatMap_slices {n : Nat} (hn : 0 < n) {l : List α} (hl : l ≠ [])
    (f : Nat → List α → List β) :
    (List.range (sliceCount n l.length)).flatMap (fun i => f i (slice n l i)) =
      f 0 (l.take n) ++ (List.range (sliceCount n (l.drop n).length)).flatMap
        fun i => f (i + 1) (slice n (l.drop n) i) := by
  rw [sliceCount_pos hn (List.length_pos_iff.mpr hl), ← List.length_drop,
    List.range_succ_eq_map, List.flatMap_cons, slice_zero, List.flatMap_map]
  simp only [slice_succ]

/-- The slices are a partition of the list, in its order. -/
theorem flatMap_slice {n : Nat} (hn : 0 < n) (l : List α) :
    (List.range (sliceCount n l.length)).flatMap (slice n l) = l := by
  induction l using slices_induction hn with
  | hnil => rw [List.length_nil, sliceCount_zero hn, List.range_zero, List.flatMap_nil]
  | hslice l hl ih => rw [flatMap_slices hn hl fun _ part => part, ih, List.take_append_drop]

end Blogd
