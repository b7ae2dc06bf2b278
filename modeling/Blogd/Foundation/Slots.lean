import Mathlib.Data.List.Basic
import Mathlib.Data.List.Forall2
import Mathlib.Tactic.Common

/-! # Slots

A list of slots holds a value each. A slot that belongs to a key can be used once for a new value
of that key. A dictionary of positions is one way to find the first slot of a key, and this is the
other: the slots carry their owners.
-/

namespace Blogd

structure Slot (κ α : Type) where
  owner : Option κ
  value : α
deriving DecidableEq, Repr

namespace Slot

variable {κ α : Type} [DecidableEq κ]

def values (slots : List (Slot κ α)) : List α := slots.map Slot.value

/-! ## Positions -/

/-- Where the slots of a key are. -/
def positions (key : κ) : List (Slot κ α) → List Nat
  | [] => []
  | slot :: slots =>
      if slot.owner = some key then 0 :: (positions key slots).map (· + 1)
      else (positions key slots).map (· + 1)

/-- The first slot of a key takes a value, and belongs to nobody then. -/
def reuse (key : κ) (value : α) : List (Slot κ α) → List (Slot κ α)
  | [] => []
  | slot :: slots =>
      if slot.owner = some key then ⟨none, value⟩ :: slots else slot :: reuse key value slots

theorem positions_append (key : κ) (slots more : List (Slot κ α)) :
    positions key (slots ++ more) =
      positions key slots ++ (positions key more).map (· + slots.length) := by
  induction slots with
  | nil => simp [positions]
  | cons slot slots ih =>
      have hshift : ((positions key more).map (· + slots.length)).map (· + 1) =
          (positions key more).map (· + (slot :: slots).length) := by
        rw [List.map_map]
        rfl
      simp only [List.cons_append, positions, ih, List.map_append, hshift]
      split <;> rfl

theorem mem_positions {key : κ} {slots : List (Slot κ α)} {i : Nat} :
    i ∈ positions key slots ↔ (slots[i]?).bind Slot.owner = some key := by
  induction slots generalizing i with
  | nil => simp [positions]
  | cons slot slots ih =>
      cases i with
      | zero =>
          simp only [positions, List.getElem?_cons_zero, Option.bind_some]
          split
          next hslot => simp [hslot]
          next hslot => simp [hslot]
      | succ i =>
          rw [List.getElem?_cons_succ, ← ih, positions]
          split <;> simp

theorem positions_eq_nil {key : κ} {slots : List (Slot κ α)} :
    positions key slots = [] ↔ ∀ slot ∈ slots, slot.owner ≠ some key := by
  induction slots with
  | nil => simp [positions]
  | cons slot slots ih =>
      by_cases hslot : slot.owner = some key
      · simp [positions, hslot]
      · simp [positions, hslot, ih]

theorem positions_reuse_self (key : κ) (value : α) (slots : List (Slot κ α)) :
    positions key (reuse key value slots) = (positions key slots).tail := by
  induction slots with
  | nil => rfl
  | cons slot slots ih =>
      by_cases hslot : slot.owner = some key
      · simp [reuse, positions, hslot]
      · simp only [reuse, positions, hslot, if_false, ih, List.map_tail]

theorem positions_reuse_of_ne {key other : κ} (hne : other ≠ key) (value : α)
    (slots : List (Slot κ α)) :
    positions other (reuse key value slots) = positions other slots := by
  induction slots with
  | nil => rfl
  | cons slot slots ih =>
      by_cases hslot : slot.owner = some key
      · have hother : slot.owner ≠ some other := by
          rw [hslot, ne_eq, Option.some.injEq]
          exact hne.symm
        simp [reuse, positions, hslot, hne.symm]
      · simp only [reuse, positions, hslot, if_false, ih]

/-- The value goes to the first position. -/
theorem values_reuse {key : κ} {slots : List (Slot κ α)} {i : Nat} {more : List Nat}
    (hpositions : positions key slots = i :: more) (value : α) :
    values (reuse key value slots) = (values slots).set i value := by
  induction slots generalizing i more with
  | nil => cases hpositions
  | cons slot slots ih =>
      by_cases hslot : slot.owner = some key
      · simp only [positions, hslot, if_true, List.cons.injEq] at hpositions
        rw [← hpositions.1]
        simp [reuse, values, hslot]
      · simp only [positions, hslot, if_false] at hpositions
        obtain ⟨j, js, hrest, rfl, -⟩ := List.map_eq_cons_iff.mp hpositions
        have hvalues := ih hrest
        simp only [values] at hvalues
        simp [reuse, values, hslot, hvalues]

theorem mem_reuse {key : κ} {value : α} {slots : List (Slot κ α)} {slot : Slot κ α}
    (hslot : slot ∈ reuse key value slots) : slot = ⟨none, value⟩ ∨ slot ∈ slots := by
  induction slots with
  | nil => cases hslot
  | cons first slots ih =>
      rw [reuse] at hslot
      split at hslot
      next =>
        rcases List.mem_cons.mp hslot with hnew | hold
        · exact .inl hnew
        · exact .inr (List.mem_cons_of_mem _ hold)
      next =>
        rcases List.mem_cons.mp hslot with rfl | hrest
        · exact .inr List.mem_cons_self
        · exact (ih hrest).imp_right (List.mem_cons_of_mem _)

theorem mem_reuse_self {key : κ} {slots : List (Slot κ α)} (hkey : positions key slots ≠ [])
    (value : α) : ⟨none, value⟩ ∈ reuse key value slots := by
  induction slots with
  | nil => exact absurd rfl hkey
  | cons first slots ih =>
      rw [reuse]
      split
      next => exact List.mem_cons_self
      next hfirst =>
        refine List.mem_cons_of_mem _ (ih fun hnone => hkey ?_)
        rw [positions, if_neg hfirst, hnone, List.map_nil]

/-- Slots of others are not used. -/
theorem mem_reuse_of_ne {key : κ} {value : α} {slots : List (Slot κ α)} {slot : Slot κ α}
    (hslot : slot ∈ slots) (hne : slot.owner ≠ some key) : slot ∈ reuse key value slots := by
  induction slots with
  | nil => cases hslot
  | cons first slots ih =>
      rw [reuse]
      rcases List.mem_cons.mp hslot with rfl | hrest
      · rw [if_neg hne]
        exact List.mem_cons_self
      · split
        next => exact List.mem_cons_of_mem _ hrest
        next => exact List.mem_cons_of_mem _ (ih hrest)

/-! ## Slots with other values -/

section Alike

variable {β : Type} (related : Option κ → α → β → Prop)

/-- Two slots with the same owner, the values of which are related. -/
def Alike (slot : Slot κ α) (slot' : Slot κ β) : Prop :=
  slot.owner = slot'.owner ∧ related slot.owner slot.value slot'.value

variable {related} {slots : List (Slot κ α)} {slots' : List (Slot κ β)}

theorem positions_alike (hslots : slots.Forall₂ (Alike related) slots') (key : κ) :
    positions key slots = positions key slots' := by
  induction hslots with
  | nil => rfl
  | cons hslot _ ih => rw [positions, positions, hslot.1, ih]

/-- Where a value goes depends on the owners only. -/
theorem reuse_alike (hslots : slots.Forall₂ (Alike related) slots') (key : κ) {value : α}
    {value' : β} (hvalue : related none value value') :
    (reuse key value slots).Forall₂ (Alike related) (reuse key value' slots') := by
  induction hslots with
  | nil => exact .nil
  | cons hslot hslots ih =>
      rw [reuse, reuse, ← hslot.1]
      split
      next => exact .cons ⟨rfl, hvalue⟩ hslots
      next => exact .cons hslot ih

end Alike

end Slot

end Blogd
