import Mathlib.Data.List.Perm.Basic
import Mathlib.Data.List.Sigma

/-! # Tables of chains

A hash table with chaining is a list of buckets, each a list of entries. As long as every entry
stands in the bucket that its key is sent to, one bucket decides what the whole table says of a
key. What changes in one bucket changes the entries of the table up to their order.
-/

namespace Blogd.Buckets

open List

/-! ## One bucket and the others -/

section Flatten

variable {α : Type} {table : List (List α)} {i : Nat} {chain : List α}

theorem flatten_perm (h : table[i]? = some chain) :
    table.flatten.Perm (chain ++ (table.eraseIdx i).flatten) := by
  obtain ⟨hi, rfl⟩ := List.getElem?_eq_some_iff.mp h
  exact (getElem_cons_eraseIdx_perm hi).symm.flatten

theorem flatten_set_perm (h : table[i]? = some chain) (chain' : List α) :
    (table.set i chain').flatten.Perm (chain' ++ (table.eraseIdx i).flatten) := by
  obtain ⟨hi, -⟩ := List.getElem?_eq_some_iff.mp h
  have hset : (table.set i chain')[i]? = some chain' := by
    rw [List.getElem?_set_self hi]
  have hperm := flatten_perm hset
  rwa [List.eraseIdx_set_eq] at hperm

theorem flatten_set_cons_perm (h : table[i]? = some chain) (a : α) :
    (table.set i (a :: chain)).flatten.Perm (a :: table.flatten) :=
  (flatten_set_perm h _).trans ((flatten_perm h).symm.cons a)

theorem perm_append_flatten_set_nil (h : table[i]? = some chain) :
    table.flatten.Perm (chain ++ (table.set i []).flatten) :=
  (flatten_perm h).trans ((flatten_set_perm h []).symm.append_left chain)

theorem mem_flatten_iff {x : α} (h : table[i]? = some chain) :
    x ∈ table.flatten ↔ x ∈ chain ∨ x ∈ (table.eraseIdx i).flatten := by
  rw [(flatten_perm h).mem_iff, List.mem_append]

theorem mem_flatten_set {x : α} (h : table[i]? = some chain) (chain' : List α) :
    x ∈ (table.set i chain').flatten ↔ x ∈ chain' ∨ x ∈ (table.eraseIdx i).flatten := by
  rw [(flatten_set_perm h chain').mem_iff, List.mem_append]

theorem flatten_replicate_nil (n : Nat) : (List.replicate n ([] : List α)).flatten = [] := by
  simp

theorem set_getElem? {β : Type} {l : List β} {b : β} (h : l[i]? = some b) : l.set i b = l := by
  obtain ⟨hi, rfl⟩ := List.getElem?_eq_some_iff.mp h
  exact List.set_getElem_self hi

theorem flatten_drop_eq (h : table[i]? = some chain) :
    (table.drop i).flatten = chain ++ (table.drop (i + 1)).flatten := by
  obtain ⟨hi, rfl⟩ := List.getElem?_eq_some_iff.mp h
  rw [List.drop_eq_getElem_cons hi, List.flatten_cons]

theorem flatten_drop_sublist (table : List (List α)) (i : Nat) :
    (table.drop i).flatten <+ table.flatten := by
  conv_rhs => rw [← List.take_append_drop i table, List.flatten_append]
  exact List.sublist_append_right _ _

end Flatten

/-! ## The place of a key -/

section Placed

variable {K : Type} {β : K → Type} {index : K → Nat} {table : List (List (Sigma β))}
  {chain : List (Sigma β)} {k : K}

/-- Each entry stands in the bucket its key is sent to. -/
def Placed (index : K → Nat) (table : List (List (Sigma β))) : Prop :=
  ∀ i chain, table[i]? = some chain → ∀ e ∈ chain, index e.1 = i

theorem Placed.replicate_nil (n : Nat) : Placed index (List.replicate n ([] : List (Sigma β))) := by
  intro i chain h e he
  rw [List.getElem?_replicate] at h
  split at h
  next =>
    cases h
    cases he
  next => cases h

theorem Placed.set (hp : Placed index table) {i : Nat} (hchain : ∀ e ∈ chain, index e.1 = i) :
    Placed index (table.set i chain) := by
  intro j chain' h e he
  rcases eq_or_ne i j with rfl | hne
  · rw [List.getElem?_set_self'] at h
    obtain ⟨_, -, rfl⟩ := Option.map_eq_some_iff.mp h
    exact hchain e he
  · rw [List.getElem?_set_ne hne] at h
    exact hp j chain' h e he

variable [DecidableEq K]

/-- What the table says of a key stands in the key's own bucket. -/
theorem Placed.dlookup_flatten (hp : Placed index table) (h : table[index k]? = some chain) :
    table.flatten.dlookup k = chain.dlookup k := by
  obtain ⟨hi, rfl⟩ := List.getElem?_eq_some_iff.mp h
  have hsplit := (List.take_append_drop (index k) table).symm
  rw [List.drop_eq_getElem_cons hi] at hsplit
  have hbefore : ((table.take (index k)).flatten).dlookup k = none := by
    rw [dlookup_eq_none]
    intro hk
    obtain ⟨b, hb⟩ := mem_keys.mp hk
    obtain ⟨other, hother, hb⟩ := List.mem_flatten.mp hb
    obtain ⟨j, hj, rfl⟩ := List.mem_iff_getElem.mp hother
    have hlt : j < index k := by
      rw [List.length_take] at hj
      exact lt_of_lt_of_le hj (min_le_left _ _)
    rw [List.getElem_take] at hb
    exact Nat.ne_of_gt hlt (hp j _ (List.getElem?_eq_getElem _) _ hb)
  have hafter : ((table.drop (index k + 1)).flatten).dlookup k = none := by
    rw [dlookup_eq_none]
    intro hk
    obtain ⟨b, hb⟩ := mem_keys.mp hk
    obtain ⟨other, hother, hb⟩ := List.mem_flatten.mp hb
    obtain ⟨j, hj, rfl⟩ := List.mem_iff_getElem.mp hother
    rw [List.getElem_drop] at hb
    have hplace := hp _ _ (List.getElem?_eq_getElem _) _ hb
    dsimp only at hplace
    omega
  conv_lhs => rw [hsplit]
  rw [List.flatten_append, List.flatten_cons, dlookup_append, dlookup_append, hbefore, hafter,
    Option.none_or, Option.or_none]

theorem Placed.mem_keys_flatten (hp : Placed index table) (h : table[index k]? = some chain) :
    k ∈ table.flatten.keys ↔ k ∈ chain.keys := by
  rw [← dlookup_isSome, ← dlookup_isSome, hp.dlookup_flatten h]

end Placed

/-! ## Taking a key out of its bucket -/

theorem keys_flatten {K : Type} {β : K → Type} (table : List (List (Sigma β))) :
    table.flatten.keys = (table.map List.keys).flatten :=
  List.map_flatten

section Keys

variable {K : Type} {β : K → Type} [DecidableEq K] {table : List (List (Sigma β))} {i : Nat}
  {chain : List (Sigma β)} {k : K}

theorem kreplace_perm (hk : k ∈ chain.keys) (b : β k) :
    (chain.kreplace k b).Perm (⟨k, b⟩ :: chain.kerase k) := by
  induction chain with
  | nil => cases hk
  | cons e rest ih =>
      by_cases hkey : k = e.1
      · rw [kerase_cons_eq hkey, kreplace, lookmap_cons_some _ _ (dif_pos hkey)]
      · have hrest : k ∈ rest.keys := (List.mem_cons.mp hk).resolve_left hkey
        rw [kerase_cons_ne hkey, kreplace, lookmap_cons_none _ _ (dif_neg hkey)]
        exact ((ih hrest).cons e).trans (Perm.swap _ _ _)

theorem flatten_set_kerase_perm (hnodup : table.flatten.NodupKeys)
    (h : table[i]? = some chain) (hk : k ∈ chain.keys) :
    (table.set i (chain.kerase k)).flatten.Perm (table.flatten.kerase k) := by
  have hperm := (flatten_perm h).kerase (a := k) hnodup
  rw [kerase_append_left hk] at hperm
  exact (flatten_set_perm h _).trans hperm.symm

theorem flatten_set_kreplace_perm (hnodup : table.flatten.NodupKeys)
    (h : table[i]? = some chain) (hk : k ∈ chain.keys) (b : β k) :
    (table.set i (chain.kreplace k b)).flatten.Perm (⟨k, b⟩ :: table.flatten.kerase k) := by
  have hperm := (flatten_perm h).kerase (a := k) hnodup
  rw [kerase_append_left hk] at hperm
  apply (flatten_set_perm h _).trans
  apply ((kreplace_perm hk b).append_right _).trans
  exact hperm.symm.cons _

end Keys

end Blogd.Buckets
