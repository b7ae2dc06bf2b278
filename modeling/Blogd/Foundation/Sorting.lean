import Mathlib.Data.List.Sort

/-! # Sorting with a comparator

A sorting function puts the elements of a list in order whenever its comparator is a strict total
order on them, and may do anything otherwise. What it returns then depends on the elements alone,
not on the order in which they came.
-/

namespace Blogd

variable {α : Type} {cmp : α → α → Int} {l l' : List α}

/-- The comparator is a strict total order on the elements. Nothing is asked of its result for an
element and itself, but that it is not negative. -/
structure StrictOn (cmp : α → α → Int) (l : List α) : Prop where
  total : ∀ a ∈ l, ∀ b ∈ l, a ≠ b → cmp a b < 0 ∨ cmp b a < 0
  asymm : ∀ a ∈ l, ∀ b ∈ l, cmp a b < 0 → 0 < cmp b a
  trans : ∀ a ∈ l, ∀ b ∈ l, ∀ c ∈ l, cmp a b < 0 → cmp b c < 0 → cmp a c < 0

theorem StrictOn.subset (hl : StrictOn cmp l) (hsub : l' ⊆ l) : StrictOn cmp l' where
  total a ha b hb := hl.total a (hsub ha) b (hsub hb)
  asymm a ha b hb := hl.asymm a (hsub ha) b (hsub hb)
  trans a ha b hb c hc := hl.trans a (hsub ha) b (hsub hb) c (hsub hc)

/-- The function sorts by any comparator that is a strict total order on the elements. -/
def Sorts (qsort : (α → α → Int) → List α → List α) : Prop :=
  ∀ cmp l, l.Nodup → StrictOn cmp l →
    (qsort cmp l).Perm l ∧ (qsort cmp l).Pairwise fun a b => cmp a b < 0

/-- The order of the elements does not matter. -/
theorem Sorts.eq_of_perm {qsort : (α → α → Int) → List α → List α} (hqsort : Sorts qsort)
    (hnodup : l.Nodup) (hl : StrictOn cmp l) (hperm : l.Perm l') : qsort cmp l = qsort cmp l' := by
  obtain ⟨hsame, hsorted⟩ := hqsort cmp l hnodup hl
  obtain ⟨hsame', hsorted'⟩ :=
    hqsort cmp l' (hperm.nodup_iff.mp hnodup) (hl.subset hperm.symm.subset)
  refine List.Perm.eq_of_pairwise ?_ hsorted hsorted' (hsame.trans (hperm.trans hsame'.symm))
  intro a b ha hb hab hba
  have hpos := hl.asymm a (hsame.subset ha) b (hperm.symm.subset (hsame'.subset hb)) hab
  omega

theorem pairwise_orderedInsert {a : α} (ha : a ∉ l) (hl : StrictOn cmp (a :: l))
    (hsorted : l.Pairwise fun a b => cmp a b < 0) :
    (l.orderedInsert (fun a b => cmp a b < 0) a).Pairwise fun a b => cmp a b < 0 := by
  induction l with
  | nil => exact List.pairwise_singleton _ _
  | cons b l ih =>
      obtain ⟨hbehind, hrest⟩ := List.pairwise_cons.mp hsorted
      have hb : b ∈ a :: b :: l := List.mem_cons_of_mem a List.mem_cons_self
      rw [List.mem_cons, not_or] at ha
      rw [List.orderedInsert]
      split
      next hab =>
        refine List.pairwise_cons.mpr ⟨?_, hsorted⟩
        intro c hc
        rcases List.mem_cons.mp hc with rfl | hc'
        · exact hab
        · exact hl.trans a List.mem_cons_self b hb c (List.mem_cons_of_mem a hc) hab
            (hbehind c hc')
      next hab =>
        have hba := (hl.total a List.mem_cons_self b hb ha.1).resolve_left hab
        refine List.pairwise_cons.mpr ⟨?_, ih ha.2 (hl.subset ?_) hrest⟩
        · intro c hc
          rcases (List.mem_orderedInsert _).mp hc with rfl | hc'
          · exact hba
          · exact hbehind c hc'
        · exact List.cons_subset_cons a (List.subset_cons_self b l)

/-- Insertion sort is such a function. -/
theorem insertionSort_sorts :
    Sorts fun (cmp : α → α → Int) l => l.insertionSort fun a b => cmp a b < 0 := by
  intro cmp l hnodup hl
  refine ⟨List.perm_insertionSort _ l, ?_⟩
  induction l with
  | nil => exact List.Pairwise.nil
  | cons a l ih =>
      obtain ⟨ha, hrest⟩ := List.nodup_cons.mp hnodup
      have hperm := List.perm_insertionSort (fun a b => cmp a b < 0) l
      refine pairwise_orderedInsert (fun hmem => ha (hperm.subset hmem)) (hl.subset ?_)
        (ih hrest (hl.subset (List.subset_cons_self a l)))
      exact List.cons_subset_cons a hperm.subset

end Blogd
