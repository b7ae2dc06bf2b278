import Mathlib.Data.List.Infix
import Mathlib.Data.Nat.Find
import Mathlib.Tactic.Common

/-! # Occurrences of a text in a text

A text is cut at the successive leftmost occurrences of another, which do not overlap. The cut is
determined by the two texts, and joining its pieces with the pattern gives the text back.
-/

namespace Blogd

section Occurrence

variable {α : Type} {p t : List α} {k : Nat}

/-- The first place where `p` occurs in `t`. -/
structure FirstAt (p t : List α) (k : Nat) : Prop where
  occurs : p <+: t.drop k
  first : ∀ j < k, ¬ p <+: t.drop j

theorem FirstAt.unique {l : Nat} (hk : FirstAt p t k) (hl : FirstAt p t l) : k = l := by
  rcases Nat.lt_trichotomy k l with hlt | heq | hlt
  · exact absurd hk.occurs (hl.first k hlt)
  · exact heq
  · exact absurd hl.occurs (hk.first l hlt)

theorem FirstAt.isInfix (hk : FirstAt p t k) : p <:+: t :=
  hk.occurs.isInfix.trans (List.drop_suffix k t).isInfix

/-- A text splits at an occurrence. -/
theorem take_append_of_occurs (hk : p <+: t.drop k) :
    t.take k ++ p ++ t.drop (k + p.length) = t := by
  obtain ⟨rest, hrest⟩ := hk
  have htail : t.drop (k + p.length) = rest := by
    rw [← List.drop_drop, ← hrest, List.drop_left]
  rw [htail, List.append_assoc, hrest, List.take_append_drop]

theorem length_le_of_occurs (hp : p ≠ []) (hk : p <+: t.drop k) : k + p.length ≤ t.length := by
  have hle := hk.length_le
  have hpos := List.length_pos_iff.mpr hp
  rw [List.length_drop] at hle
  omega

theorem exists_occurs_of_isInfix (hp : p <:+: t) : ∃ k, p <+: t.drop k := by
  obtain ⟨before, rest, rfl⟩ := hp
  exact ⟨before.length, by rw [List.append_assoc, List.drop_left]; exact List.prefix_append _ _⟩

/-- A text that occurs has a first occurrence. -/
theorem exists_firstAt_of_isInfix (hp : p <:+: t) : ∃ k, FirstAt p t k := by
  classical
  have hsome := exists_occurs_of_isInfix hp
  exact ⟨Nat.find hsome, Nat.find_spec hsome, fun j hj => Nat.find_min hsome hj⟩

theorem not_occurs_of_not_isInfix (hp : ¬ p <:+: t) (k : Nat) : ¬ p <+: t.drop k :=
  fun hk => hp (hk.isInfix.trans (List.drop_suffix k t).isInfix)

/-- The pieces of a text between the successive leftmost occurrences of `p`. -/
inductive CutInto (p : List α) : List α → List (List α) → Prop
  | whole {t : List α} (habsent : ¬ p <:+: t) : CutInto p t [t]
  | piece {t : List α} {k : Nat} {pieces : List (List α)} (hfirst : FirstAt p t k)
      (hrest : CutInto p (t.drop (k + p.length)) pieces) : CutInto p t (t.take k :: pieces)

namespace CutInto

variable {pieces pieces' : List (List α)}

theorem unique (hcut : CutInto p t pieces) (hcut' : CutInto p t pieces') : pieces = pieces' := by
  induction hcut generalizing pieces' with
  | whole habsent =>
      cases hcut' with
      | whole _ => rfl
      | piece hfirst _ => exact absurd hfirst.isInfix habsent
  | piece hfirst _ ih =>
      cases hcut' with
      | whole habsent => exact absurd hfirst.isInfix habsent
      | piece hfirst' hrest' =>
          obtain rfl := hfirst.unique hfirst'
          rw [ih hrest']

theorem ne_nil (hcut : CutInto p t pieces) : pieces ≠ [] := by
  cases hcut <;> exact List.cons_ne_nil _ _

/-- The pieces joined with another text, one piece at a time. -/
theorem intercalate_cons (hcut : CutInto p t pieces) (v piece : List α) :
    v.intercalate (piece :: pieces) = piece ++ v ++ v.intercalate pieces := by
  obtain ⟨first, rest, rfl⟩ := List.exists_cons_of_ne_nil hcut.ne_nil
  simp [List.intercalate]

/-- Nothing of the text is lost. -/
theorem join (hcut : CutInto p t pieces) : p.intercalate pieces = t := by
  induction hcut with
  | whole _ => simp [List.intercalate]
  | piece hfirst hrest ih =>
      rw [hrest.intercalate_cons, ih]
      exact take_append_of_occurs hfirst.occurs

/-- What the joined pieces are made of. -/
theorem mem_intercalate (hcut : CutInto p t pieces) {v : List α} {a : α}
    (ha : a ∈ v.intercalate pieces) : a ∈ v ∨ a ∈ t := by
  induction hcut with
  | whole _ => exact .inr (by simpa [List.intercalate] using ha)
  | piece _ hrest ih =>
      rw [hrest.intercalate_cons, List.mem_append, List.mem_append] at ha
      rcases ha with (ha | ha) | ha
      · exact .inr (List.mem_of_mem_take ha)
      · exact .inl ha
      · exact (ih ha).imp_right List.mem_of_mem_drop

/-- Joining with another text changes the length by the difference at each cut. -/
theorem length_intercalate (hcut : CutInto p t pieces) (v : List α) :
    (v.intercalate pieces).length + p.length * (pieces.length - 1) =
      t.length + v.length * (pieces.length - 1) := by
  induction hcut with
  | whole _ => simp [List.intercalate]
  | @piece t k pieces hfirst hrest ih =>
      have hlength := congrArg List.length (take_append_of_occurs hfirst.occurs)
      have hpos := List.length_pos_iff.mpr hrest.ne_nil
      obtain ⟨n, hn⟩ : ∃ n, pieces.length = n + 1 := ⟨pieces.length - 1, by omega⟩
      rw [hrest.intercalate_cons]
      simp only [List.length_append, List.length_cons, hn, Nat.add_sub_cancel, Nat.mul_succ]
        at hlength ih ⊢
      omega

/-- There are no more cuts than elements. -/
theorem length_le (hcut : CutInto p t pieces) (hp : p ≠ []) : pieces.length - 1 ≤ t.length := by
  have hlength := hcut.length_intercalate []
  have hmul := Nat.le_mul_of_pos_left (pieces.length - 1) (List.length_pos_iff.mpr hp)
  rw [List.length_nil, Nat.zero_mul] at hlength
  omega

/-- A text that is not empty can be cut out of every text. -/
theorem exists_of_ne_nil (hp : p ≠ []) (t : List α) : ∃ pieces, CutInto p t pieces := by
  induction hn : t.length using Nat.strongRecOn generalizing t with
  | ind n ih =>
      by_cases hoccurs : p <:+: t
      · obtain ⟨k, hfirst⟩ := exists_firstAt_of_isInfix hoccurs
        have hlength := congrArg List.length (take_append_of_occurs hfirst.occurs)
        have hpos := List.length_pos_iff.mpr hp
        simp only [List.length_append] at hlength
        obtain ⟨pieces, hpieces⟩ := ih _ (by omega) (t.drop (k + p.length)) rfl
        exact ⟨_, .piece hfirst hpieces⟩
      · exact ⟨[t], .whole hoccurs⟩

end CutInto

end Occurrence

end Blogd
