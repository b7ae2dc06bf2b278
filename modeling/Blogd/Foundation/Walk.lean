import Blogd.Foundation.Buckets

/-! # Walking along a table of chains

A walk goes from bucket to bucket and along their chains, and holds on to the entry that comes
next in its chain. Only the keys matter for where it comes by. New keys and a key that goes
leave everything else ahead of the walk or behind it, as it was.
-/

namespace Blogd.Buckets

open List

/-! ## Along the buckets -/

section Cursor

variable {K : Type} {β : K → Type} [DecidableEq K] {table : List (List (Sigma β))} {i : Nat}
  {chain : List (Sigma β)}

/-- The part of a chain from the entry that a pointer leads to. -/
def fromPointer (next : Option K) (chain : List (Sigma β)) : List (Sigma β) :=
  match next with
  | none => []
  | some k => chain.dropWhile fun e => e.1 ≠ k

/-- What a walk has before it that stands in a bucket: the rest of the bucket's chain, and the
buckets after it. -/
def ahead (table : List (List (Sigma β))) (i : Nat) (next : Option K) : List (Sigma β) :=
  fromPointer next (table.getD i []) ++ (table.drop (i + 1)).flatten

theorem fromPointer_cons_self (e : Sigma β) (chain : List (Sigma β)) :
    fromPointer (some e.1) (e :: chain) = e :: chain := by
  simp [fromPointer]

theorem fromPointer_cons_ne {next : Option K} {e : Sigma β} (hne : next ≠ some e.1)
    (chain : List (Sigma β)) : fromPointer next (e :: chain) = fromPointer next chain := by
  cases next with
  | none => rfl
  | some k =>
      have hkey : e.1 ≠ k := fun h => hne (congrArg some h.symm)
      simp [fromPointer, hkey]

/-- The entry that a pointer leads to, and the ones after it. -/
theorem fromPointer_eq_cons {k : K} (hk : k ∈ chain.keys) :
    ∃ e rest, fromPointer (some k) chain = e :: rest ∧ e.1 = k := by
  induction chain with
  | nil => cases hk
  | cons e rest ih =>
      by_cases hkey : k = e.1
      · subst hkey
        exact ⟨e, rest, fromPointer_cons_self e rest, rfl⟩
      · rw [fromPointer_cons_ne (fun h => hkey (Option.some.inj h))]
        exact ih ((List.mem_cons.mp hk).resolve_left hkey)

theorem fromPointer_suffix (next : Option K) (chain : List (Sigma β)) :
    fromPointer next chain <:+ chain := by
  cases next with
  | none => exact List.nil_suffix
  | some k => exact List.dropWhile_suffix _

theorem ahead_sublist (table : List (List (Sigma β))) (i : Nat) (next : Option K) :
    ahead table i next <+ table.flatten := by
  refine .trans ?_ (flatten_drop_sublist table i)
  rw [ahead, List.getD_eq_getElem?_getD]
  cases hchain : table[i]? with
  | none =>
      have hle := List.getElem?_eq_none_iff.mp hchain
      rw [List.drop_eq_nil_of_le (Nat.le_succ_of_le hle)]
      exact ((fromPointer_suffix next []).sublist.append (.refl _)).trans (List.nil_sublist _)
  | some chain =>
      rw [flatten_drop_eq hchain]
      exact (fromPointer_suffix next chain).sublist.append (.refl _)

/-- With every key once, the part after an entry is what the pointer to it leads to. -/
theorem fromPointer_head? (hnodup : chain.NodupKeys) {rest : List (Sigma β)}
    (hrest : rest <:+ chain) : fromPointer (rest.head?.map fun e => e.1) chain = rest := by
  induction chain with
  | nil =>
      obtain rfl := List.suffix_nil.mp hrest
      rfl
  | cons a chain ih =>
      rw [nodupKeys_cons] at hnodup
      obtain rfl | hsuffix := List.suffix_cons_iff.mp hrest
      · exact fromPointer_cons_self a chain
      · rw [fromPointer_cons_ne, ih hnodup.2 hsuffix]
        intro hhead
        obtain ⟨b, hb, hkey⟩ := Option.map_eq_some_iff.mp hhead
        apply hnodup.1
        rw [← hkey]
        exact List.mem_keys_of_mem (hsuffix.subset (List.mem_of_mem_head? hb))

end Cursor

/-! ## While the buckets change -/

section KeyWalk

variable {K : Type} [DecidableEq K] {keys : List (List K)} {i j : Nat} {chain : List K}
  {next : Option K} {k : K}

/-- The keys of a chain from the one that a pointer leads to. -/
def fromKey (next : Option K) (chain : List K) : List K :=
  match next with
  | none => []
  | some k => chain.dropWhile (· ≠ k)

/-- The keys that a walk has before it. -/
def keysAhead (keys : List (List K)) (i : Nat) (next : Option K) : List K :=
  fromKey next (keys.getD i []) ++ (keys.drop (i + 1)).flatten

theorem keys_fromPointer {β : K → Type} (next : Option K) (chain : List (Sigma β)) :
    (fromPointer next chain).keys = fromKey next chain.keys := by
  cases next with
  | none => rfl
  | some k =>
      simp only [fromPointer, fromKey, List.keys, List.dropWhile_map]
      rfl

theorem keys_ahead {β : K → Type} (table : List (List (Sigma β))) (i : Nat) (next : Option K) :
    (ahead table i next).keys = keysAhead (table.map List.keys) i next := by
  have hget : (table.map List.keys).getD i [] = (table.getD i []).keys := by
    rw [List.getD_eq_getElem?_getD, List.getElem?_map, List.getD_eq_getElem?_getD]
    cases table[i]? <;> rfl
  rw [ahead, keysAhead, hget, ← keys_fromPointer, ← List.map_drop, ← keys_flatten]
  exact List.map_append

theorem fromKey_suffix (next : Option K) (chain : List K) : fromKey next chain <:+ chain := by
  cases next with
  | none => exact List.nil_suffix
  | some k => exact List.dropWhile_suffix _

theorem fromKey_cons_ne (hne : next ≠ some k) (chain : List K) :
    fromKey next (k :: chain) = fromKey next chain := by
  cases next with
  | none => rfl
  | some k' =>
      have hkey : k ≠ k' := fun h => hne (congrArg some h.symm)
      simp [fromKey, hkey]

/-- Taking out a key that the pointer does not lead to takes it out of the rest. -/
theorem mem_fromKey_erase (hnodup : chain.Nodup) (hne : next ≠ some k) (x : K) :
    x ∈ fromKey next (chain.erase k) ↔ x ∈ fromKey next chain ∧ x ≠ k := by
  cases next with
  | none => simp [fromKey]
  | some k' =>
      have hkey : k' ≠ k := fun h => hne (congrArg some h)
      induction chain with
      | nil => simp [fromKey]
      | cons a chain ih =>
          obtain ⟨ha, hchain⟩ := List.nodup_cons.mp hnodup
          by_cases hak : a = k
          · subst hak
            have hnot : a ∉ fromKey (some k') chain :=
              fun h => ha ((fromKey_suffix _ _).subset h)
            rw [List.erase_cons_head, fromKey_cons_ne hne]
            exact ⟨fun h => ⟨h, fun hxa => hnot (hxa ▸ h)⟩, And.left⟩
          · rw [List.erase_cons_tail (by simpa using hak)]
            by_cases hak' : a = k'
            · have hself : ∀ c : List K, fromKey (some k') (a :: c) = a :: c := by
                intro c
                simp [fromKey, hak']
              rw [hself, hself, List.mem_cons, List.mem_cons, hchain.mem_erase_iff]
              grind
            · have hne' : some k' ≠ some a := fun h => hak' (Option.some.inj h).symm
              rw [fromKey_cons_ne hne', fromKey_cons_ne hne']
              exact ih hchain

theorem keysAhead_sublist (hi : i < keys.length) (next : Option K) :
    keysAhead keys i next <+ (keys.drop i).flatten := by
  rw [flatten_drop_eq (List.getElem?_eq_getElem hi), keysAhead, List.getD_eq_getElem?_getD,
    List.getElem?_eq_getElem hi]
  exact (fromKey_suffix _ _).sublist.append (.refl _)

/-- More buckets at the end, without keys. -/
theorem keysAhead_grow (hi : i < keys.length) (n : Nat) (next : Option K) :
    keysAhead (keys ++ List.replicate n []) i next = keysAhead keys i next := by
  rw [keysAhead, keysAhead, List.getD_eq_getElem?_getD, List.getD_eq_getElem?_getD,
    List.getElem?_append_left hi, List.drop_append_of_le_length hi, List.flatten_append,
    flatten_replicate_nil, List.append_nil]

/-- A bucket that changes behind the walk, under it or before it. -/
theorem keysAhead_set_lt (hji : j < i) (chain' : List K) (next : Option K) :
    keysAhead (keys.set j chain') i next = keysAhead keys i next := by
  rw [keysAhead, keysAhead, List.getD_eq_getElem?_getD, List.getD_eq_getElem?_getD,
    List.getElem?_set_ne (Nat.ne_of_lt hji), List.drop_set_of_lt (Nat.lt_succ_of_lt hji)]

theorem keysAhead_set_self (hi : i < keys.length) (chain' : List K) (next : Option K) :
    keysAhead (keys.set i chain') i next =
      fromKey next chain' ++ (keys.drop (i + 1)).flatten := by
  rw [keysAhead, List.getD_eq_getElem?_getD, List.getElem?_set_self hi,
    List.drop_set_of_lt (Nat.lt_succ_self i)]
  rfl

theorem mem_keysAhead_set_gt (hij : i < j) (hchain : keys[j]? = some chain) (chain' : List K)
    (next : Option K) (x : K) :
    x ∈ keysAhead (keys.set j chain') i next ↔
      x ∈ fromKey next (keys.getD i []) ∨
        x ∈ chain' ∨ x ∈ ((keys.drop (i + 1)).eraseIdx (j - (i + 1))).flatten := by
  have hdrop : (keys.drop (i + 1))[j - (i + 1)]? = some chain := by
    rw [List.getElem?_drop, ← hchain]
    congr 1
    omega
  rw [keysAhead, List.getD_eq_getElem?_getD, List.getD_eq_getElem?_getD,
    List.getElem?_set_ne (Nat.ne_of_gt hij), List.drop_set, if_neg (Nat.not_lt.mpr hij),
    List.mem_append, (flatten_set_perm hdrop chain').mem_iff, List.mem_append]

/-- A new key at the head of a bucket is ahead if the bucket is. -/
theorem mem_keysAhead_push (hchain : keys[j]? = some chain) (hne : next ≠ some k) (x : K) :
    x ∈ keysAhead (keys.set j (k :: chain)) i next ↔
      x ∈ keysAhead keys i next ∨ x = k ∧ i < j := by
  rcases Nat.lt_trichotomy j i with hji | rfl | hij
  · rw [keysAhead_set_lt hji]
    simp [Nat.not_lt.mpr (Nat.le_of_lt hji)]
  · obtain ⟨hj, -⟩ := List.getElem?_eq_some_iff.mp hchain
    have hsame := keysAhead_set_self hj chain next
    rw [set_getElem? hchain] at hsame
    rw [keysAhead_set_self hj, fromKey_cons_ne hne, ← hsame]
    simp
  · have hsame := mem_keysAhead_set_gt hij hchain chain next x
    rw [set_getElem? hchain] at hsame
    rw [mem_keysAhead_set_gt hij hchain, hsame, List.mem_cons]
    simp only [hij, and_true]
    constructor
    · rintro (h | (rfl | h) | h)
      · exact .inl (.inl h)
      · exact .inr rfl
      · exact .inl (.inr (.inl h))
      · exact .inl (.inr (.inr h))
    · rintro ((h | h | h) | rfl)
      · exact .inl h
      · exact .inr (.inl (.inr h))
      · exact .inr (.inr h)
      · exact .inr (.inl (.inl rfl))

/-- Where every key stands once, a key that goes out of its bucket is no longer ahead, and
nothing else changes. -/
theorem mem_keysAhead_erase (hnodup : keys.flatten.Nodup) (hi : i < keys.length)
    (hchain : keys[j]? = some chain) (hk : k ∈ chain) (hne : next ≠ some k) (x : K) :
    x ∈ keysAhead (keys.set j (chain.erase k)) i next ↔ x ∈ keysAhead keys i next ∧ x ≠ k := by
  obtain ⟨hj, rfl⟩ := List.getElem?_eq_some_iff.mp hchain
  have hsplit : (keys.take i).flatten ++ (keys.drop i).flatten = keys.flatten := by
    rw [← List.flatten_append, List.take_append_drop]
  rw [← hsplit] at hnodup
  obtain ⟨-, hdrop, hapart⟩ := List.nodup_append.mp hnodup
  rw [flatten_drop_eq (List.getElem?_eq_getElem hi)] at hdrop
  obtain ⟨hbucket, hafter, hapart'⟩ := List.nodup_append.mp hdrop
  rcases Nat.lt_trichotomy j i with hji | rfl | hij
  · have hbehind : k ∈ (keys.take i).flatten :=
      List.mem_flatten.mpr ⟨keys[j], List.mem_take_iff_getElem.mpr ⟨j, by omega, rfl⟩, hk⟩
    rw [keysAhead_set_lt hji]
    refine ⟨fun h => ⟨h, ?_⟩, And.left⟩
    rintro rfl
    exact hapart x hbehind x ((keysAhead_sublist hi next).subset h) rfl
  · have hsame := keysAhead_set_self hj keys[j] next
    rw [set_getElem? hchain] at hsame
    rw [keysAhead_set_self hj, hsame, List.mem_append, List.mem_append,
      mem_fromKey_erase hbucket hne]
    have hnot : k ∉ (keys.drop (j + 1)).flatten := fun h => hapart' k hk k h rfl
    constructor
    · rintro (⟨h, hx⟩ | h)
      · exact ⟨.inl h, hx⟩
      · exact ⟨.inr h, fun hx => hnot (hx ▸ h)⟩
    · rintro ⟨h | h, hx⟩
      · exact .inl ⟨h, hx⟩
      · exact .inr h
  · have hget : (keys.drop (i + 1))[j - (i + 1)]? = some keys[j] := by
      rw [List.getElem?_drop, ← hchain]
      congr 1
      omega
    have hperm := flatten_perm hget
    obtain ⟨hchainNodup, -, hapart''⟩ := List.nodup_append.mp (hperm.nodup_iff.mp hafter)
    have hahead : k ∈ (keys.drop (i + 1)).flatten :=
      hperm.mem_iff.mpr (List.mem_append_left _ hk)
    have hnot : k ∉ fromKey next (keys.getD i []) := by
      intro h
      rw [List.getD_eq_getElem?_getD, List.getElem?_eq_getElem hi] at h
      exact hapart' k ((fromKey_suffix _ _).subset h) k hahead rfl
    have hnot' : k ∉ ((keys.drop (i + 1)).eraseIdx (j - (i + 1))).flatten :=
      fun h => hapart'' k hk k h rfl
    have hsame := mem_keysAhead_set_gt hij hchain keys[j] next x
    rw [set_getElem? hchain] at hsame
    rw [mem_keysAhead_set_gt hij hchain, hsame, hchainNodup.mem_erase_iff]
    constructor
    · rintro (h | ⟨hx, h⟩ | h)
      · exact ⟨.inl h, fun hx => hnot (hx ▸ h)⟩
      · exact ⟨.inr (.inl h), hx⟩
      · exact ⟨.inr (.inr h), fun hx => hnot' (hx ▸ h)⟩
    · rintro ⟨h | h | h, hx⟩
      · exact .inl h
      · exact .inr (.inl ⟨hx, h⟩)
      · exact .inr (.inr h)

/-- A walk that stands at a key and points to the one after it in its bucket. -/
structure Walking (cur : K) (i : Nat) (next : Option K) (keys : List (List K)) : Prop where
  nodup : keys.flatten.Nodup
  within : i < keys.length
  next_ne : next ≠ some cur
  next_mem : ∀ k, next = some k → k ∈ keys.getD i []

/-- What may happen to the buckets during a walk: there are more of them, a new key comes to the
head of one, and the key that the walk stands at goes where that is allowed. -/
inductive KeyStep (cur : K) (deletes : Prop) : List (List K) → List (List K) → Prop
  | grow (keys : List (List K)) (n : Nat) : KeyStep cur deletes keys (keys ++ List.replicate n [])
  | push {keys : List (List K)} {j : Nat} {chain : List K} {k : K}
      (hchain : keys[j]? = some chain) (hk : k ∉ keys.flatten) :
      KeyStep cur deletes keys (keys.set j (k :: chain))
  | erase {keys : List (List K)} {j : Nat} {chain : List K} (hdeletes : deletes)
      (hchain : keys[j]? = some chain) (hk : cur ∈ chain) :
      KeyStep cur deletes keys (keys.set j (chain.erase cur))

variable {cur : K} {deletes : Prop} {keys' : List (List K)}

omit [DecidableEq K] in
theorem Walking.next_ne_of_notMem (hw : Walking cur i next keys) (hk : k ∉ keys.flatten) :
    next ≠ some k := by
  intro hnext
  have hmem := hw.next_mem k hnext
  rw [List.getD_eq_getElem?_getD, List.getElem?_eq_getElem hw.within] at hmem
  exact hk (List.mem_flatten.mpr ⟨_, List.getElem_mem hw.within, hmem⟩)

theorem KeyStep.walking (hstep : KeyStep cur deletes keys keys')
    (hw : Walking cur i next keys) : Walking cur i next keys' := by
  -- the key that the walk points to stays in its bucket
  have hset : ∀ {j chain chain'}, keys[j]? = some chain →
      (∀ k, next = some k → k ∈ chain → k ∈ chain') →
      ∀ k, next = some k → k ∈ (keys.set j chain').getD i [] := by
    intro j chain chain' hchain hkeep k hnext
    have hmem := hw.next_mem k hnext
    rw [List.getD_eq_getElem?_getD] at hmem ⊢
    by_cases hij : j = i
    · subst hij
      rw [hchain] at hmem
      rw [List.getElem?_set_self hw.within]
      exact hkeep k hnext hmem
    · rwa [List.getElem?_set_ne hij]
  cases hstep with
  | grow n =>
      refine ⟨?_, ?_, hw.next_ne, ?_⟩
      · rw [List.flatten_append, flatten_replicate_nil, List.append_nil]
        exact hw.nodup
      · rw [List.length_append]
        exact Nat.lt_add_right _ hw.within
      · intro k hnext
        have hmem := hw.next_mem k hnext
        rw [List.getD_eq_getElem?_getD] at hmem ⊢
        rwa [List.getElem?_append_left hw.within]
  | push hchain hk =>
      refine ⟨?_, by rw [List.length_set]; exact hw.within, hw.next_ne, ?_⟩
      · rw [(flatten_set_cons_perm hchain _).nodup_iff, List.nodup_cons]
        exact ⟨hk, hw.nodup⟩
      · exact hset hchain fun _ _ h => List.mem_cons_of_mem _ h
  | erase hdeletes hchain hk =>
      refine ⟨?_, by rw [List.length_set]; exact hw.within, hw.next_ne, ?_⟩
      · have hnodup := (flatten_perm hchain).nodup_iff.mp hw.nodup
        rw [(flatten_set_perm hchain _).nodup_iff]
        exact hnodup.sublist (List.erase_sublist.append (.refl _))
      · apply hset hchain
        intro k hnext hmem
        have hne : k ≠ cur := fun h => hw.next_ne (h ▸ hnext)
        exact (List.mem_erase_of_ne hne).mpr hmem

/-- What was ahead stays ahead, but for the key that the walk stands at. -/
theorem KeyStep.ahead (hstep : KeyStep cur deletes keys keys') (hw : Walking cur i next keys)
    {x : K} (hne : x ≠ cur) (hx : x ∈ keysAhead keys i next) : x ∈ keysAhead keys' i next := by
  cases hstep with
  | grow n => rwa [keysAhead_grow hw.within]
  | push hchain hk =>
      rw [mem_keysAhead_push hchain (hw.next_ne_of_notMem hk)]
      exact .inl hx
  | erase hdeletes hchain hk =>
      rw [mem_keysAhead_erase hw.nodup hw.within hchain hk hw.next_ne]
      exact ⟨hx, hne⟩

/-- A key that is there and not ahead stays so. -/
theorem KeyStep.behind (hstep : KeyStep cur deletes keys keys') (hw : Walking cur i next keys)
    {x : K} (hkeep : deletes → x ≠ cur) (hx : x ∈ keys.flatten)
    (hbehind : x ∉ keysAhead keys i next) :
    x ∈ keys'.flatten ∧ x ∉ keysAhead keys' i next := by
  cases hstep with
  | grow n =>
      rw [keysAhead_grow hw.within, List.flatten_append]
      exact ⟨List.mem_append_left _ hx, hbehind⟩
  | push hchain hk =>
      refine ⟨(mem_flatten_set hchain _).mpr ?_, ?_⟩
      · exact ((mem_flatten_iff hchain).mp hx).imp_left (List.mem_cons_of_mem _)
      · rw [mem_keysAhead_push hchain (hw.next_ne_of_notMem hk)]
        rintro (h | ⟨rfl, -⟩)
        · exact hbehind h
        · exact hk hx
  | erase hdeletes hchain hk =>
      have hne := hkeep hdeletes
      refine ⟨(mem_flatten_set hchain _).mpr ?_, ?_⟩
      · exact ((mem_flatten_iff hchain).mp hx).imp_left (List.mem_erase_of_ne hne).mpr
      · rw [mem_keysAhead_erase hw.nodup hw.within hchain hk hw.next_ne]
        exact fun h => hbehind h.1

end KeyWalk

end Blogd.Buckets
