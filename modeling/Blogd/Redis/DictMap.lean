import Blogd.Redis.DictValid
import Mathlib.Data.Finmap

/-! # Dictionaries as finite maps

Whatever the hash function and whatever stage a rehash is at, an operation on a dictionary
returns what the operation on a finite map returns. A run of operations ends with the entries of
the finite map, or where the allocator does not grant a table.
-/

namespace Blogd

open Buckets

variable {K V : Type} {hash : K → UInt32} [DecidableEq K]

namespace Dict

/-- The finite map that a dictionary is for. -/
def contents (d : Dict K V) : Finmap fun _ : K => V := d.entries.toFinmap

theorem contents_lookup (d : Dict K V) (key : K) :
    d.contents.lookup key = d.entries.dlookup key := Finmap.dlookup_list_toFinmap key d.entries

theorem mem_contents {d : Dict K V} {key : K} : key ∈ d.contents ↔ key ∈ d.entries.keys := by
  rw [← Finmap.lookup_isSome, contents_lookup, List.dlookup_isSome]

theorem Rearranged.dlookup {d d' : Dict K V} (h : Rearranged hash d d') (key : K) :
    d'.entries.dlookup key = d.entries.dlookup key :=
  List.perm_dlookup key h.valid.nodupKeys h.perm

theorem Rearranged.contents {d d' : Dict K V} (h : Rearranged hash d d') :
    d'.contents = d.contents := by
  apply Finmap.ext_lookup
  intro key
  rw [contents_lookup, contents_lookup, h.dlookup]

theorem contents_of_perm_kinsert {d d' : Dict K V} {key : K} {val : V} (hd' : d'.Valid hash)
    (hperm : d'.entries.Perm (d.entries.kinsert key val)) :
    d'.contents = d.contents.insert key val := by
  apply Finmap.ext_lookup
  intro k
  rw [contents_lookup, List.perm_dlookup k hd'.nodupKeys hperm]
  rcases eq_or_ne k key with rfl | hne
  · rw [List.dlookup_kinsert, Finmap.lookup_insert]
  · rw [List.dlookup_kinsert_ne hne, Finmap.lookup_insert_of_ne _ hne, contents_lookup]

theorem contents_of_perm_kerase {d d' : Dict K V} {key : K} (hd : d.Valid hash)
    (hd' : d'.Valid hash) (hperm : d'.entries.Perm (d.entries.kerase key)) :
    d'.contents = d.contents.erase key := by
  apply Finmap.ext_lookup
  intro k
  rw [contents_lookup, List.perm_dlookup k hd'.nodupKeys hperm]
  rcases eq_or_ne k key with rfl | hne
  · rw [List.dlookup_kerase k hd.nodupKeys, Finmap.lookup_erase]
  · rw [List.dlookup_kerase_ne hne, Finmap.lookup_erase_ne hne, contents_lookup]

/-- `dictSize` counts the keys. -/
theorem Valid.dictSize_eq_card {d : Dict K V} (hd : d.Valid hash) :
    dictSize d = d.contents.keys.card := by
  have hkeys : d.contents.keys = d.entries.keys.toFinset := by
    apply Finset.ext
    intro key
    rw [Finmap.mem_keys, mem_contents, List.mem_toFinset]
  rw [hd.dictSize_eq, hkeys, List.toFinset_card_of_nodup hd.nodupKeys, List.keys, List.length_map]

/-! ## Finding -/

variable {d : Dict K V} {key : K}

/-- What the dictionary says of a key stands in the key's buckets. -/
theorem Valid.dlookup_entries (hd : d.Valid hash)
    {chain : List (DictEntry K V)} (hchain : d.ht0.table[d.ht0.slot (hash key)]? = some chain) :
    d.entries.dlookup key = (chain.dlookup key).or (d.ht1.table.flatten.dlookup key) := by
  rw [entries, List.dlookup_append]
  congr 1
  exact hd.first.placed.dlookup_flatten hchain

/-- A pointer to an entry that stands where it says. -/
structure Points (hash : K → UInt32) (d : Dict K V) (key : K) (p : EntryPtr K V) : Prop where
  key_eq : p.key = key
  stands : ∃ chain, (if p.second then d.ht1 else d.ht0).table[p.idx]? = some chain ∧
    chain.dlookup key = some p.val

theorem dictFind_spec (hd : d.Valid hash) (key : K) :
    ∃ p d', dictFind hash d key = .ok (p, d') ∧ Touched hash d d' ∧
      p.map (·.val) = d.entries.dlookup key ∧ ∀ e, p = some e → Points hash d' key e := by
  unfold dictFind
  split
  next hempty =>
    have hnil : d.entries = [] := List.length_eq_zero_iff.mp (hd.dictSize_eq ▸ hempty)
    refine ⟨none, d, rfl, .inl rfl, ?_, nofun⟩
    rw [hnil]
    rfl
  next hsome =>
    obtain ⟨d', hstep, hstepped⟩ := rehashStep_spec hd
    have hrearranged := hstepped.rearranged
    have hd' := hrearranged.valid
    have htouched : Touched hash d d' := .inr hstepped
    rw [hstep, ok_bind]
    have hsize : d'.ht0.size ≠ 0 := hstepped.table (hd.size_ne_of_dictSize hsome)
    obtain ⟨chain, hchain, hread⟩ := Dictht.chain_slot hsize (hash key)
    dsimp only
    rw [hread, ok_bind, ← hrearranged.dlookup, hd'.dlookup_entries hchain]
    cases hfound : chain.dlookup key with
    | some val =>
        refine ⟨some ⟨false, d'.ht0.slot (hash key), key, val⟩, d', rfl, htouched, rfl, ?_⟩
        rintro e ⟨⟩
        exact ⟨rfl, chain, hchain, hfound⟩
    | none =>
        rw [Option.none_or]
        dsimp only
        split
        next hidle' =>
          have hfree : ¬ dictIsRehashing d' = true := by simpa using hidle'
          refine ⟨none, d', rfl, htouched, ?_, nofun⟩
          rw [hd'.flatten_second hfree]
          rfl
        next hbusy =>
          have hbusy' : dictIsRehashing d' = true := by simpa using hbusy
          obtain ⟨chain₁, hchain₁, hread₁⟩ :=
            Dictht.chain_slot (hd'.size_ne hbusy').2 (hash key)
          rw [hread₁, ok_bind, hd'.second.placed.dlookup_flatten hchain₁]
          cases hfound₁ : chain₁.dlookup key with
          | some val =>
              refine ⟨some ⟨true, d'.ht1.slot (hash key), key, val⟩, d', rfl, htouched, rfl, ?_⟩
              rintro e ⟨⟩
              exact ⟨rfl, chain₁, hchain₁, hfound₁⟩
          | none => exact ⟨none, d', rfl, htouched, rfl, nofun⟩

/-! ## Changing entries -/

theorem kerase_entries_first (hkey : key ∈ d.ht0.table.flatten.keys) :
    d.entries.kerase key = d.ht0.table.flatten.kerase key ++ d.ht1.table.flatten :=
  List.kerase_append_left hkey

theorem kerase_entries_second (hkey : key ∉ d.ht0.table.flatten.keys) :
    d.entries.kerase key = d.ht0.table.flatten ++ d.ht1.table.flatten.kerase key :=
  List.kerase_append_right hkey

section Change

variable {idx used : Nat} {chain chain' : List (DictEntry K V)} (extra : List (DictEntry K V))

/-- The key's chain in the first table is exchanged for one of the same keys or fewer. -/
theorem Valid.changeFirst (hd : d.Valid hash) (hchain : d.ht0.table[idx]? = some chain)
    (hkey : key ∈ chain.keys) (hsub : chain'.keys ⊆ chain.keys)
    (hused : used + chain.length = d.ht0.used + chain'.length)
    (hperm : (d.ht0.table.set idx chain').flatten.Perm (extra ++ d.ht0.table.flatten.kerase key))
    (hnodup : (extra ++ d.entries.kerase key).NodupKeys) :
    ({ d with ht0 := ⟨d.ht0.table.set idx chain', used⟩ } : Dict K V).Valid hash ∧
      ({ d with ht0 := ⟨d.ht0.table.set idx chain', used⟩ } : Dict K V).entries.Perm
        (extra ++ d.entries.kerase key) ∧
      SameShape d { d with ht0 := ⟨d.ht0.table.set idx chain', used⟩ } := by
  have hentries : ((d.ht0.table.set idx chain').flatten ++ d.ht1.table.flatten).Perm
      (extra ++ d.entries.kerase key) := by
    rw [kerase_entries_first (mem_keys_flatten hchain hkey), ← List.append_assoc]
    exact hperm.append_right _
  refine ⟨?_, hentries, Dictht.size_set _ _ _ _ _, rfl, rfl, rfl⟩
  apply hd.setFirst hchain (hd.first.place_of_keys hchain hsub) hused
  · exact .inl (ne_nil_of_mem_keys hkey)
  · exact (List.perm_nodupKeys hentries).mpr hnodup

/-- The key's chain in the second table is exchanged for one of the same keys or fewer. -/
theorem Valid.changeSecond (hd : d.Valid hash) (hchain : d.ht1.table[idx]? = some chain)
    (hkey : key ∈ chain.keys) (hsub : chain'.keys ⊆ chain.keys)
    (hused : used + chain.length = d.ht1.used + chain'.length)
    (hperm : (d.ht1.table.set idx chain').flatten.Perm (extra ++ d.ht1.table.flatten.kerase key))
    (hnodup : (extra ++ d.entries.kerase key).NodupKeys) :
    ({ d with ht1 := ⟨d.ht1.table.set idx chain', used⟩ } : Dict K V).Valid hash ∧
      ({ d with ht1 := ⟨d.ht1.table.set idx chain', used⟩ } : Dict K V).entries.Perm
        (extra ++ d.entries.kerase key) ∧
      SameShape d { d with ht1 := ⟨d.ht1.table.set idx chain', used⟩ } := by
  have hmem := hd.notMem_first (mem_keys_flatten hchain hkey)
  have hentries : (d.ht0.table.flatten ++ (d.ht1.table.set idx chain').flatten).Perm
      (extra ++ d.entries.kerase key) := by
    rw [kerase_entries_second hmem]
    apply (hperm.append_left _).trans
    rw [← List.append_assoc, ← List.append_assoc]
    exact List.perm_append_comm.append_right _
  refine ⟨?_, hentries, rfl, Dictht.size_set _ _ _ _ _, rfl, rfl⟩
  apply hd.setSecond hchain (hd.second.place_of_keys hchain hsub) hused
  exact (List.perm_nodupKeys hentries).mpr hnodup

end Change

/-- An entry gets another value. -/
theorem dictSetVal_spec (hd : d.Valid hash) {p : EntryPtr K V} (hp : Points hash d key p)
    (val : V) :
    ∃ d', dictSetVal d p val = .ok d' ∧ d'.Valid hash ∧
      d'.entries.Perm (d.entries.kinsert key val) ∧ SameShape d d' := by
  obtain ⟨chain, hchain, hfound⟩ := hp.stands
  have hkey : key ∈ chain.keys := List.dlookup_isSome.mp (hfound ▸ rfl)
  have hkeys : (chain.kreplace key val).keys = chain.keys := List.keys_kreplace key val chain
  have hlength : (chain.kreplace key val).length = chain.length := by
    simpa [List.keys] using congrArg List.length hkeys
  have hnodup := List.kinsert_nodupKeys key val hd.nodupKeys
  unfold dictSetVal
  rw [hp.key_eq]
  cases hsecond : p.second with
  | false =>
      rw [hsecond, if_neg Bool.false_ne_true] at hchain
      have hchange := hd.changeFirst [⟨key, val⟩] hchain hkey (hkeys ▸ List.Subset.refl _)
        (congrArg (d.ht0.used + ·) hlength.symm)
        (flatten_set_kreplace_perm hd.nodup_first hchain hkey val) hnodup
      refine ⟨_, ?_, hchange⟩
      rw [if_neg Bool.false_ne_true, Dictht.chain, hchain]
      rfl
  | true =>
      rw [hsecond, if_pos rfl] at hchain
      have hchange := hd.changeSecond [⟨key, val⟩] hchain hkey (hkeys ▸ List.Subset.refl _)
        (congrArg (d.ht1.used + ·) hlength.symm)
        (flatten_set_kreplace_perm hd.nodup_second hchain hkey val) hnodup
      refine ⟨_, ?_, hchange⟩
      rw [if_pos rfl, Dictht.chain, hchain]
      rfl

/-- What stands in neither table is not in the dictionary. -/
theorem Valid.notMem_entries (hd : d.Valid hash) {chain : List (DictEntry K V)}
    (hchain : d.ht0.table[d.ht0.slot (hash key)]? = some chain) (hfirst : key ∉ chain.keys)
    (hsecond : key ∉ d.ht1.table.flatten.keys) : key ∉ d.entries.keys := by
  rw [← List.dlookup_eq_none, hd.dlookup_entries hchain, List.dlookup_eq_none.mpr hfirst,
    List.dlookup_eq_none.mpr hsecond]
  rfl

theorem length_kerase {chain : List (DictEntry K V)} (hkey : key ∈ chain.keys) :
    (chain.kerase key).length + 1 = chain.length := by
  obtain ⟨val, before, after, -, hsplit, herase⟩ := List.exists_of_kerase hkey
  rw [herase, hsplit, List.length_append, List.length_append, List.length_cons]
  rfl

/-- How an operation changed the shape of the tables: by the rehash step alone. -/
def Reshaped (hash : K → UInt32) (d d' : Dict K V) : Prop :=
  ∃ d₁, Touched hash d d₁ ∧ SameShape d₁ d'

omit [DecidableEq K] in
theorem Reshaped.iterators {d' : Dict K V} (hd : d.Valid hash) (h : Reshaped hash d d') :
    d'.iterators = d.iterators := by
  obtain ⟨d₁, htouched, hshape⟩ := h
  exact hshape.iterators.trans (htouched.rearranged hd).iterators

theorem dictDelete_spec (hd : d.Valid hash) (key : K) :
    ∃ deleted d', dictDelete hash d key = .ok (deleted, d') ∧ d'.Valid hash ∧
      deleted = decide (key ∈ d.entries.keys) ∧ d'.entries.Perm (d.entries.kerase key) ∧
      Reshaped hash d d' := by
  unfold dictDelete
  split
  next hzero =>
    have hnil : d.entries = [] := by
      apply List.length_eq_zero_iff.mp
      rw [← hd.dictSize_eq]
      by_contra hsome
      exact hd.size_ne_of_dictSize hsome hzero
    refine ⟨false, d, rfl, hd, ?_, ?_, d, .inl rfl, rfl, rfl, rfl, rfl⟩
    · rw [hnil]
      rfl
    · rw [hnil]
      rfl
  next hsize =>
    obtain ⟨d₁, hstep, hstepped⟩ := rehashStep_spec hd
    have hrearranged := hstepped.rearranged
    have hd₁ := hrearranged.valid
    have htouched : Touched hash d d₁ := .inr hstepped
    have hmem : ∀ k, k ∈ d.entries.keys ↔ k ∈ d₁.entries.keys := by
      intro k
      rw [← List.dlookup_isSome, ← List.dlookup_isSome, hrearranged.dlookup]
    have herase := hrearranged.perm.kerase (a := key) hd₁.nodupKeys
    have hnodup : (d₁.entries.kerase key).NodupKeys := hd₁.nodupKeys.kerase key
    have hsize₁ : d₁.ht0.size ≠ 0 := hstepped.table hsize
    -- the key is in neither of the tables that were searched
    have hmissing : key ∉ d₁.entries.keys →
        decide (key ∈ d.entries.keys) = false ∧ d₁.entries.Perm (d.entries.kerase key) := by
      intro hno
      refine ⟨decide_eq_false ((hmem key).not.mpr hno), ?_⟩
      rw [List.kerase_of_notMem_keys hno] at herase
      exact herase
    obtain ⟨chain, hchain, hread⟩ := Dictht.chain_slot hsize₁ (hash key)
    rw [hstep, ok_bind]
    dsimp only
    rw [hread, ok_bind]
    split
    next hkey =>
      have hin := mem_entries_of_first (mem_keys_flatten hchain hkey)
      have hlen := length_kerase hkey
      have hused : d₁.ht0.used - 1 + chain.length = d₁.ht0.used + (chain.kerase key).length := by
        have hcount := hd₁.first.used
        have hflat := (flatten_perm hchain).length_eq
        rw [List.length_append] at hflat
        omega
      obtain ⟨hvalid, hperm, hshape⟩ := hd₁.changeFirst [] hchain hkey
        (List.kerase_keys_subset key chain) hused
        (flatten_set_kerase_perm hd₁.nodup_first hchain hkey) hnodup
      exact ⟨true, _, rfl, hvalid, (decide_eq_true ((hmem key).mpr hin)).symm,
        hperm.trans herase, d₁, htouched, hshape⟩
    next hfirst =>
      split
      next hidle' =>
        have hfree : ¬ dictIsRehashing d₁ = true := by simpa using hidle'
        have hno : key ∉ d₁.entries.keys := by
          apply hd₁.notMem_entries hchain hfirst
          rw [hd₁.flatten_second hfree]
          exact List.not_mem_nil
        exact ⟨false, d₁, rfl, hd₁, (hmissing hno).1.symm, (hmissing hno).2, d₁, htouched,
          rfl, rfl, rfl, rfl⟩
      next hbusy =>
        have hbusy' : dictIsRehashing d₁ = true := by simpa using hbusy
        obtain ⟨chain₁, hchain₁, hread₁⟩ :=
          Dictht.chain_slot (hd₁.size_ne hbusy').2 (hash key)
        rw [hread₁, ok_bind]
        split
        next hkey =>
          have hin := mem_entries_of_second (mem_keys_flatten hchain₁ hkey)
          have hlen := length_kerase hkey
          have hused : d₁.ht1.used - 1 + chain₁.length =
              d₁.ht1.used + (chain₁.kerase key).length := by
            have hcount := hd₁.second.used
            have hflat := (flatten_perm hchain₁).length_eq
            rw [List.length_append] at hflat
            omega
          obtain ⟨hvalid, hperm, hshape⟩ := hd₁.changeSecond [] hchain₁ hkey
            (List.kerase_keys_subset key chain₁) hused
            (flatten_set_kerase_perm hd₁.nodup_second hchain₁ hkey) hnodup
          exact ⟨true, _, rfl, hvalid, (decide_eq_true ((hmem key).mpr hin)).symm,
            hperm.trans herase, d₁, htouched, hshape⟩
        next hsecond =>
          have hno : key ∉ d₁.entries.keys := by
            apply hd₁.notMem_entries hchain hfirst
            rwa [hd₁.second.placed.mem_keys_flatten hchain₁]
          exact ⟨false, d₁, rfl, hd₁, (hmissing hno).1.symm, (hmissing hno).2, d₁, htouched,
            rfl, rfl, rfl, rfl⟩

/-! ## Adding and replacing -/

/-- The table that new keys go to. -/
def target (d : Dict K V) : Dictht K V := if dictIsRehashing d then d.ht1 else d.ht0

theorem dictKeyIndex_spec {room : Nat} (hroom : room ≤ 2 ^ 31) (canResize : Bool)
    (hd : d.Valid hash) (key : K) :
    Ensures outOfMemory
      (fun r => Grown hash canResize d r.2 ∧
        ((r.1 = -1 ∧ key ∈ d.entries.keys) ∨
          (r.1 = r.2.target.slot (hash key) ∧ key ∉ d.entries.keys)))
      (dictKeyIndex hash room canResize d key) := by
  unfold dictKeyIndex
  apply (dictExpandIfNeeded_spec hroom canResize hd).bind
  rintro ⟨ok, d'⟩ ⟨rfl, hgrown⟩
  have hd' := hgrown.rearranged.valid
  have hmem : key ∈ d.entries.keys ↔ key ∈ d'.entries.keys := by
    rw [← List.dlookup_isSome, ← List.dlookup_isSome, hgrown.rearranged.dlookup]
  obtain ⟨chain, hchain, hread⟩ := Dictht.chain_slot hgrown.table (hash key)
  dsimp only
  rw [hread, ok_bind, Bool.not_true, if_neg Bool.false_ne_true]
  apply Ensures.ite
  · intro hkey
    exact ⟨hgrown, .inl ⟨rfl, hmem.mpr (mem_entries_of_first (mem_keys_flatten hchain hkey))⟩⟩
  intro hfirst
  apply Ensures.ite
  · intro hidle
    have hfree : ¬ dictIsRehashing d' = true := by simpa using hidle
    refine ⟨hgrown, .inr ⟨?_, ?_⟩⟩
    · dsimp only
      rw [target, if_neg hfree]
      exact hd'.first.bmod_slot hgrown.table _
    · rw [hmem]
      apply hd'.notMem_entries hchain hfirst
      rw [hd'.flatten_second hfree]
      exact List.not_mem_nil
  intro hbusy
  have hbusy' : dictIsRehashing d' = true := by simpa using hbusy
  obtain ⟨chain₁, hchain₁, hread₁⟩ := Dictht.chain_slot (hd'.size_ne hbusy').2 (hash key)
  rw [hread₁, ok_bind]
  apply Ensures.ite
  · intro hkey
    exact ⟨hgrown, .inl ⟨rfl, hmem.mpr (mem_entries_of_second (mem_keys_flatten hchain₁ hkey))⟩⟩
  · intro hsecond
    refine ⟨hgrown, .inr ⟨?_, ?_⟩⟩
    · dsimp only
      rw [target, if_pos hbusy']
      exact hd'.second.bmod_slot (hd'.size_ne hbusy').2 _
    · rw [hmem]
      apply hd'.notMem_entries hchain hfirst
      rwa [hd'.second.placed.mem_keys_flatten hchain₁]

/-- How an addition changed the shape of the tables: by the rehash step and by what
`_dictExpandIfNeeded` did. -/
def Extended (hash : K → UInt32) (canResize : Bool) (d d' : Dict K V) : Prop :=
  ∃ d₁ d₂, Stepped hash d d₁ ∧ Grown hash canResize d₁ d₂ ∧ SameShape d₂ d'

omit [DecidableEq K] in
theorem Extended.iterators {canResize : Bool} {d' : Dict K V}
    (h : Extended hash canResize d d') : d'.iterators = d.iterators := by
  obtain ⟨d₁, d₂, hstepped, hgrown, hshape⟩ := h
  exact hshape.iterators.trans
    (hgrown.rearranged.iterators.trans hstepped.rearranged.iterators)

theorem Valid.pushFirst (hd : d.Valid hash) (hsize : d.ht0.size ≠ 0)
    (hidle : d.rehashidx = none) (hkey : key ∉ d.entries.keys) (val : V) :
    ∃ ht0, d.ht0.pushAt (d.ht0.slot (hash key)) ⟨key, val⟩ = .ok ht0 ∧
      ({ d with ht0 := ht0 } : Dict K V).Valid hash ∧
      ({ d with ht0 := ht0 } : Dict K V).entries.Perm (d.entries.kinsert key val) ∧
      SameShape d { d with ht0 := ht0 } := by
  obtain ⟨chain, hchain, hread⟩ := Dictht.chain_slot hsize (hash key)
  have hperm : ((d.ht0.table.set (d.ht0.slot (hash key)) (⟨key, val⟩ :: chain)).flatten ++
      d.ht1.table.flatten).Perm (d.entries.kinsert key val) := by
    rw [List.kinsert_def, List.kerase_of_notMem_keys hkey, entries, ← List.cons_append]
    exact (flatten_set_cons_perm hchain _).append_right _
  refine ⟨⟨d.ht0.table.set (d.ht0.slot (hash key)) (⟨key, val⟩ :: chain), d.ht0.used + 1⟩, ?_, ?_,
    hperm, Dictht.size_set _ _ _ _ _, rfl, rfl, rfl⟩
  · rw [Dictht.pushAt, if_neg (by omega), Int.toNat_natCast, Dictht.push, hread]
    rfl
  · apply hd.setFirst hchain
    · intro e he
      rcases List.mem_cons.mp he with rfl | hmem
      · rfl
      · exact hd.first.placed _ _ hchain e hmem
    · rw [List.length_cons]
      omega
    · exact .inr hidle
    · exact (List.perm_nodupKeys hperm).mpr (List.kinsert_nodupKeys key val hd.nodupKeys)

theorem Valid.pushSecond (hd : d.Valid hash) (hbusy : dictIsRehashing d = true)
    (hkey : key ∉ d.entries.keys) (val : V) :
    ∃ ht1, d.ht1.pushAt (d.ht1.slot (hash key)) ⟨key, val⟩ = .ok ht1 ∧
      ({ d with ht1 := ht1 } : Dict K V).Valid hash ∧
      ({ d with ht1 := ht1 } : Dict K V).entries.Perm (d.entries.kinsert key val) ∧
      SameShape d { d with ht1 := ht1 } := by
  obtain ⟨chain, hchain, hread⟩ := Dictht.chain_slot (hd.size_ne hbusy).2 (hash key)
  have hperm : (d.ht0.table.flatten ++ (d.ht1.table.set (d.ht1.slot (hash key))
      (⟨key, val⟩ :: chain)).flatten).Perm (d.entries.kinsert key val) := by
    rw [List.kinsert_def, List.kerase_of_notMem_keys hkey, entries]
    exact ((flatten_set_cons_perm hchain _).append_left _).trans List.perm_middle
  refine ⟨⟨d.ht1.table.set (d.ht1.slot (hash key)) (⟨key, val⟩ :: chain), d.ht1.used + 1⟩, ?_, ?_,
    hperm, rfl, Dictht.size_set _ _ _ _ _, rfl, rfl⟩
  · rw [Dictht.pushAt, if_neg (by omega), Int.toNat_natCast, Dictht.push, hread]
    rfl
  · apply hd.setSecond hchain
    · intro e he
      rcases List.mem_cons.mp he with rfl | hmem
      · rfl
      · exact hd.second.placed _ _ hchain e hmem
    · rw [List.length_cons]
      omega
    · exact (List.perm_nodupKeys hperm).mpr (List.kinsert_nodupKeys key val hd.nodupKeys)

theorem dictAddRaw_spec {room : Nat} (hroom : room ≤ 2 ^ 31) (canResize : Bool)
    (hd : d.Valid hash) (key : K) (val : V) :
    Ensures outOfMemory
      (fun r => r.1 = decide (key ∉ d.entries.keys) ∧ Extended hash canResize d r.2 ∧
        (r.1 = false → Rearranged hash d r.2) ∧
        (r.1 = true → r.2.Valid hash ∧ r.2.entries.Perm (d.entries.kinsert key val)))
      (dictAddRaw hash room canResize d key val) := by
  obtain ⟨d₁, hstep, hstepped⟩ := rehashStep_spec hd
  have hd₁ := hstepped.rearranged.valid
  unfold dictAddRaw
  rw [hstep, ok_bind]
  apply (dictKeyIndex_spec hroom canResize hd₁ key).bind
  rintro ⟨index, d₂⟩ ⟨hgrown, hindex⟩
  have hrearranged := hstepped.rearranged.trans hgrown.rearranged
  have hd₂ := hgrown.rearranged.valid
  have hmem : ∀ {d' : Dict K V}, Rearranged hash d d' →
      (key ∈ d.entries.keys ↔ key ∈ d'.entries.keys) := by
    intro d' h
    rw [← List.dlookup_isSome, ← List.dlookup_isSome, h.dlookup]
  have hinsert := hrearranged.perm.kinsert (a := key) (b := val) hd₂.nodupKeys
  rcases hindex with ⟨hnone, hkey⟩ | ⟨hslot, hkey⟩
  · dsimp only at hnone ⊢
    rw [if_pos hnone]
    refine ⟨?_, ⟨d₁, d₂, hstepped, hgrown, rfl, rfl, rfl, rfl⟩, fun _ => hrearranged, nofun⟩
    exact (decide_eq_false (not_not.mpr ((hmem hstepped.rearranged).mpr hkey))).symm
  · have hfresh : key ∉ d₂.entries.keys := by
      rwa [← hmem hrearranged, hmem hstepped.rearranged]
    have hadded : true = decide (key ∉ d.entries.keys) :=
      (decide_eq_true ((hmem hstepped.rearranged).not.mpr hkey)).symm
    dsimp only at hslot ⊢
    rw [if_neg (by omega)]
    rw [target] at hslot
    split at hslot
    next hbusy =>
      obtain ⟨ht1, hpush, hvalid, hperm, hshape⟩ := hd₂.pushSecond hbusy hfresh val
      rw [if_pos hbusy, hslot, hpush]
      exact ⟨hadded, ⟨d₁, d₂, hstepped, hgrown, hshape⟩, nofun,
        fun _ => ⟨hvalid, hperm.trans hinsert⟩⟩
    next hidle =>
      obtain ⟨ht0, hpush, hvalid, hperm, hshape⟩ := hd₂.pushFirst hgrown.table
        (Option.not_isSome_iff_eq_none.mp hidle) hfresh val
      rw [if_neg hidle, hslot, hpush]
      exact ⟨hadded, ⟨d₁, d₂, hstepped, hgrown, hshape⟩, nofun,
        fun _ => ⟨hvalid, hperm.trans hinsert⟩⟩

/-- How a replacement changed the shape of the tables. -/
def Rewritten (hash : K → UInt32) (canResize : Bool) (key : K) (d d' : Dict K V) : Prop :=
  Extended hash canResize d d' ∨
    ∃ d₁, key ∈ d.entries.keys ∧ Extended hash canResize d d₁ ∧ Rearranged hash d d₁ ∧
      Reshaped hash d₁ d'

omit [DecidableEq K] in
theorem Rewritten.iterators {canResize : Bool} {d' : Dict K V}
    (h : Rewritten hash canResize key d d') : d'.iterators = d.iterators := by
  obtain hextended | ⟨d₁, -, hextended, hrearranged, hreshaped⟩ := h
  · exact hextended.iterators
  · exact (hreshaped.iterators hrearranged.valid).trans hextended.iterators

theorem dictReplace_spec {room : Nat} (hroom : room ≤ 2 ^ 31) (canResize : Bool)
    (hd : d.Valid hash) (key : K) (val : V) :
    Ensures outOfMemory
      (fun r => r.1 = decide (key ∉ d.entries.keys) ∧ r.2.Valid hash ∧
        r.2.entries.Perm (d.entries.kinsert key val) ∧ Rewritten hash canResize key d r.2)
      (dictReplace hash room canResize d key val) := by
  unfold dictReplace dictAdd
  apply (dictAddRaw_spec hroom canResize hd key val).bind
  rintro ⟨added, d₁⟩ ⟨hadded, hextended, hsame, hnew⟩
  dsimp only at hadded hextended hsame hnew ⊢
  cases added with
  | true => exact ⟨hadded, (hnew rfl).1, (hnew rfl).2, .inl hextended⟩
  | false =>
      have hrearranged := hsame rfl
      have hkey : key ∈ d.entries.keys := not_not.mp (of_decide_eq_false hadded.symm)
      obtain ⟨p, d₂, hfind, htouched, hval, hpoints⟩ := dictFind_spec hrearranged.valid key
      have hd₂ := (htouched.rearranged hrearranged.valid).valid
      rw [if_neg Bool.false_ne_true, hfind, ok_bind]
      cases p with
      | none =>
          rw [hrearranged.dlookup] at hval
          exact absurd hkey (List.dlookup_eq_none.mp hval.symm)
      | some entry =>
          obtain ⟨d₃, hset, hvalid, hperm, hshape⟩ := dictSetVal_spec hd₂ (hpoints entry rfl) val
          have hsecond := (htouched.rearranged hrearranged.valid).perm
          dsimp only
          rw [hset, ok_bind]
          refine ⟨hadded, hvalid, ?_, .inr ⟨d₁, hkey, hextended, hrearranged, d₂, htouched, hshape⟩⟩
          exact hperm.trans ((hsecond.trans hrearranged.perm).kinsert hd₂.nodupKeys)

theorem dictReplaceRaw_spec {room : Nat} (hroom : room ≤ 2 ^ 31) (canResize : Bool)
    (hd : d.Valid hash) (key : K) (val : V) :
    Ensures outOfMemory
      (fun d' => d'.Valid hash ∧ d'.entries.Perm (d.entries.kinsert key val))
      (dictReplaceRaw hash room canResize d key val) := by
  obtain ⟨p, d₁, hfind, htouched, hval, hpoints⟩ := dictFind_spec hd key
  have hrearranged := htouched.rearranged hd
  have hd₁ := hrearranged.valid
  have hinsert := hrearranged.perm.kinsert (a := key) (b := val) hd₁.nodupKeys
  unfold dictReplaceRaw
  rw [hfind, ok_bind]
  cases p with
  | some entry =>
      obtain ⟨d₂, hset, hvalid, hperm, -⟩ := dictSetVal_spec hd₁ (hpoints entry rfl) val
      dsimp only
      rw [hset]
      exact ⟨hvalid, hperm.trans hinsert⟩
  | none =>
      apply (dictAddRaw_spec hroom canResize hd₁ key val).bind
      rintro ⟨added, d₂⟩ ⟨hadded, -, -, hnew⟩
      have hfresh : key ∉ d₁.entries.keys := by
        rw [← List.dlookup_eq_none, hrearranged.dlookup]
        exact hval.symm
      dsimp only at hadded hnew ⊢
      rw [decide_eq_true hfresh] at hadded
      rw [if_pos hadded]
      exact ⟨(hnew hadded).1, (hnew hadded).2.trans hinsert⟩

/-! ## The operations on the finite map -/

theorem dictFind_contents (hd : d.Valid hash) (key : K) :
    ∃ p d', dictFind hash d key = .ok (p, d') ∧ d'.Valid hash ∧ d'.contents = d.contents ∧
      p.map (·.val) = d.contents.lookup key ∧ d'.iterators = d.iterators := by
  obtain ⟨p, d', hfind, htouched, hval, -⟩ := dictFind_spec hd key
  have hrearranged := htouched.rearranged hd
  exact ⟨p, d', hfind, hrearranged.valid, hrearranged.contents, hval.trans
    (d.contents_lookup key).symm, hrearranged.iterators⟩

theorem dictDelete_contents (hd : d.Valid hash) (key : K) :
    ∃ deleted d', dictDelete hash d key = .ok (deleted, d') ∧ d'.Valid hash ∧
      deleted = decide (key ∈ d.contents) ∧ d'.contents = d.contents.erase key ∧
      d'.iterators = d.iterators := by
  obtain ⟨deleted, d', hdelete, hvalid, hdeleted, hperm, hreshaped⟩ := dictDelete_spec hd key
  refine ⟨deleted, d', hdelete, hvalid, ?_, contents_of_perm_kerase hd hvalid hperm,
    hreshaped.iterators hd⟩
  rw [hdeleted]
  exact decide_eq_decide.mpr mem_contents.symm

section Room

variable {room : Nat} (hroom : room ≤ 2 ^ 31) (canResize : Bool)

include hroom

theorem dictAdd_contents (hd : d.Valid hash) (key : K) (val : V) :
    Ensures outOfMemory
      (fun r => r.2.Valid hash ∧ r.1 = decide (key ∉ d.contents) ∧
        r.2.contents = (if key ∈ d.contents then d.contents else d.contents.insert key val) ∧
        r.2.iterators = d.iterators)
      (dictAdd hash room canResize d key val) := by
  apply (dictAddRaw_spec hroom canResize hd key val).mono
  rintro ⟨added, d'⟩ ⟨hadded, hextended, hsame, hnew⟩
  rw [decide_eq_decide.mpr mem_contents.not.symm] at hadded
  dsimp only at hadded hsame hnew ⊢
  by_cases hkey : key ∈ d.contents
  · have hno : added = false := hadded.trans (decide_eq_false (not_not.mpr hkey))
    rw [if_pos hkey]
    exact ⟨(hsame hno).valid, hadded, (hsame hno).contents, hextended.iterators⟩
  · have hyes : added = true := hadded.trans (decide_eq_true hkey)
    rw [if_neg hkey]
    exact ⟨(hnew hyes).1, hadded, contents_of_perm_kinsert (hnew hyes).1 (hnew hyes).2,
      hextended.iterators⟩

theorem dictReplace_contents (hd : d.Valid hash) (key : K) (val : V) :
    Ensures outOfMemory
      (fun r => r.2.Valid hash ∧ r.1 = decide (key ∉ d.contents) ∧
        r.2.contents = d.contents.insert key val ∧ r.2.iterators = d.iterators)
      (dictReplace hash room canResize d key val) := by
  apply (dictReplace_spec hroom canResize hd key val).mono
  rintro ⟨added, d'⟩ ⟨hadded, hvalid, hperm, hrewritten⟩
  rw [decide_eq_decide.mpr mem_contents.not.symm] at hadded
  exact ⟨hvalid, hadded, contents_of_perm_kinsert hvalid hperm, hrewritten.iterators⟩

theorem dictReplaceRaw_contents (hd : d.Valid hash) (key : K) (val : V) :
    Ensures outOfMemory
      (fun d' => d'.Valid hash ∧ d'.contents = d.contents.insert key val)
      (dictReplaceRaw hash room canResize d key val) := by
  apply (dictReplaceRaw_spec hroom canResize hd key val).mono
  rintro d' ⟨hvalid, hperm⟩
  exact ⟨hvalid, contents_of_perm_kinsert hvalid hperm⟩

end Room

end Dict

/-! ## Runs -/

/-- One use of a dictionary. `beginIteration` and `endIteration` are what a safe iterator does to
the dictionary it walks. -/
inductive DictOp (K V : Type)
  | find (key : K)
  | add (key : K) (val : V)
  | replace (key : K) (val : V)
  | replaceRaw (key : K) (val : V)
  | delete (key : K)
  | resize
  | expand (size : Nat)
  | rehash (rounds : Nat)
  | beginIteration
  | endIteration
  | empty

/-- What the user of a dictionary sees of an operation. -/
inductive DictReply (V : Type)
  | entry (val : Option V)
  | status (ok : Bool)
  | none
deriving DecidableEq

/-- One operation, with the value that `dict_can_resize` has at the time. -/
def dictStep (hash : K → UInt32) (room : Nat) (canResize : Bool) (d : Dict K V) :
    DictOp K V → Except Fault (DictReply V × Dict K V)
  | .find key => do
      let (entry, d) ← dictFind hash d key
      return (.entry (entry.map (·.val)), d)
  | .add key val => do
      let (ok, d) ← dictAdd hash room canResize d key val
      return (.status ok, d)
  | .replace key val => do
      let (added, d) ← dictReplace hash room canResize d key val
      return (.status added, d)
  | .replaceRaw key val => do
      let d ← dictReplaceRaw hash room canResize d key val
      return (.none, d)
  | .delete key => do
      let (ok, d) ← dictDelete hash d key
      return (.status ok, d)
  | .resize => do
      let (_, d) ← dictResize room canResize d
      return (.none, d)
  | .expand size => do
      let (_, d) ← dictExpand room d size
      return (.none, d)
  | .rehash rounds => do
      let d ← dictRehashMilliseconds hash rounds d
      return (.none, d)
  | .beginIteration => .ok (.none, { d with iterators := d.iterators + 1 })
  | .endIteration => .ok (.none, { d with iterators := d.iterators - 1 })
  | .empty => .ok (.none, dictEmpty d)

/-- Operations one after the other, with their replies. -/
def dictRun (hash : K → UInt32) (room : Nat) :
    List (Bool × DictOp K V) → Dict K V → Except Fault (List (DictReply V) × Dict K V)
  | [], d => .ok ([], d)
  | (canResize, op) :: rest, d => do
      let (reply, d) ← dictStep hash room canResize d op
      let (replies, d) ← dictRun hash room rest d
      return (reply :: replies, d)

/-- What an operation is for. -/
def mapStep (m : Finmap fun _ : K => V) : DictOp K V → DictReply V × Finmap fun _ : K => V
  | .find key => (.entry (m.lookup key), m)
  | .add key val =>
      if key ∈ m then (.status false, m) else (.status true, m.insert key val)
  | .replace key val => (.status (decide (key ∉ m)), m.insert key val)
  | .replaceRaw key val => (.none, m.insert key val)
  | .delete key => (.status (decide (key ∈ m)), m.erase key)
  | .empty => (.none, ∅)
  | _ => (.none, m)

def mapRun : List (Bool × DictOp K V) → Finmap (fun _ : K => V) →
    List (DictReply V) × Finmap fun _ : K => V
  | [], m => ([], m)
  | (_, op) :: rest, m =>
      ((mapStep m op).1 :: (mapRun rest (mapStep m op).2).1, (mapRun rest (mapStep m op).2).2)

namespace Dict

/-- An operation on a dictionary is the operation on the finite map. -/
theorem dictStep_spec {room : Nat} (hroom : room ≤ 2 ^ 31) (canResize : Bool) {d : Dict K V}
    (hd : d.Valid hash) (op : DictOp K V) :
    Ensures outOfMemory
      (fun r => r.2.Valid hash ∧ r.1 = (mapStep d.contents op).1 ∧
        r.2.contents = (mapStep d.contents op).2)
      (dictStep hash room canResize d op) := by
  cases op with
  | find key =>
      obtain ⟨p, d', hfind, hvalid, hcontents, hval, -⟩ := dictFind_contents hd key
      rw [dictStep, hfind]
      exact ⟨hvalid, congrArg _ hval, hcontents⟩
  | add key val =>
      apply (dictAdd_contents hroom canResize hd key val).bind
      rintro ⟨added, d'⟩ ⟨hvalid, hadded, hcontents, -⟩
      dsimp only at hadded hcontents
      rw [mapStep]
      split
      next hkey =>
        rw [if_pos hkey] at hcontents
        exact ⟨hvalid, congrArg _ (hadded.trans (decide_eq_false (not_not.mpr hkey))), hcontents⟩
      next hkey =>
        rw [if_neg hkey] at hcontents
        exact ⟨hvalid, congrArg _ (hadded.trans (decide_eq_true hkey)), hcontents⟩
  | replace key val =>
      apply (dictReplace_contents hroom canResize hd key val).bind
      rintro ⟨added, d'⟩ ⟨hvalid, hadded, hcontents, -⟩
      exact ⟨hvalid, congrArg _ hadded, hcontents⟩
  | replaceRaw key val =>
      apply (dictReplaceRaw_contents hroom canResize hd key val).bind
      rintro d' ⟨hvalid, hcontents⟩
      exact ⟨hvalid, rfl, hcontents⟩
  | delete key =>
      obtain ⟨deleted, d', hdelete, hvalid, hdeleted, hcontents, -⟩ := dictDelete_contents hd key
      rw [dictStep, hdelete]
      exact ⟨hvalid, congrArg _ hdeleted, hcontents⟩
  | resize =>
      apply (dictResize_spec hroom canResize hd).bind
      rintro ⟨ok, d'⟩ hrearranged
      exact ⟨hrearranged.valid, rfl, hrearranged.contents⟩
  | expand size =>
      apply (dictExpand_cases hroom d size).bind
      rintro ⟨ok, d'⟩ hexpansion
      have hrearranged := hexpansion.rearranged hd
      exact ⟨hrearranged.valid, rfl, hrearranged.contents⟩
  | rehash rounds =>
      obtain ⟨d', hrehash, hrearranged⟩ := dictRehashMilliseconds_spec rounds hd
      rw [dictStep, hrehash]
      exact ⟨hrearranged.valid, rfl, hrearranged.contents⟩
  | beginIteration =>
      exact ⟨⟨hd.first, hd.second, hd.nodupKeys, hd.idle, hd.progress⟩, rfl, rfl⟩
  | endIteration =>
      exact ⟨⟨hd.first, hd.second, hd.nodupKeys, hd.idle, hd.progress⟩, rfl, rfl⟩
  | empty => exact ⟨valid_create, rfl, rfl⟩

theorem dictRun_spec {room : Nat} (hroom : room ≤ 2 ^ 31) (ops : List (Bool × DictOp K V))
    {d : Dict K V} (hd : d.Valid hash) :
    Ensures outOfMemory
      (fun r => r.2.Valid hash ∧ r.1 = (mapRun ops d.contents).1 ∧
        r.2.contents = (mapRun ops d.contents).2)
      (dictRun hash room ops d) := by
  induction ops generalizing d with
  | nil => exact ⟨hd, rfl, rfl⟩
  | cons head rest ih =>
      obtain ⟨canResize, op⟩ := head
      apply (dictStep_spec hroom canResize hd op).bind
      rintro ⟨reply, d₁⟩ ⟨hd₁, hreply, hcontents⟩
      apply (ih hd₁).bind
      rintro ⟨replies, d₂⟩ ⟨hd₂, hreplies, hcontents₂⟩
      dsimp only at hreply hcontents hreplies hcontents₂
      rw [hcontents] at hreplies hcontents₂
      exact ⟨hd₂, congrArg₂ List.cons hreply hreplies, hcontents₂⟩

/-- A new dictionary, used in any way, answers as a finite map does, counts its keys, and ends
with the map's entries. Nothing but a refused allocation ends the run. -/
theorem dictRun_refines_finmap {room : Nat} (hroom : room ≤ 2 ^ 31)
    (ops : List (Bool × DictOp K V)) :
    Ensures outOfMemory
      (fun r => r.1 = (mapRun ops ∅).1 ∧ r.2.contents = (mapRun ops ∅).2 ∧
        dictSize r.2 = (mapRun ops ∅).2.keys.card)
      (dictRun hash room ops dictCreate) := by
  apply (dictRun_spec hroom ops valid_create).mono
  rintro ⟨replies, d⟩ ⟨hd, hreplies, hcontents⟩
  refine ⟨hreplies, hcontents, ?_⟩
  rw [hd.dictSize_eq_card]
  exact congrArg (fun m : Finmap fun _ : K => V => m.keys.card) hcontents

/-- Numbers as their own hashes. -/
def sampleHash (n : Nat) : UInt32 := UInt32.ofNat n

/-- Nine keys make a dictionary grow twice, and all but one of them are deleted again. -/
def sampleOps : List (Bool × DictOp Nat Nat) :=
  [0, 1, 2, 3, 4, 5, 6, 7, 8].map (fun n => (true, .add n n)) ++ [(true, .rehash 1)] ++
    [0, 1, 2, 3, 5, 6, 7, 8].map fun n => (true, .delete n)

theorem dictRun_refines_finmap_sample :
    ∃ r, dictRun sampleHash 16 sampleOps dictCreate = .ok r ∧
      r.1 = (mapRun sampleOps ∅).1 ∧ r.2.contents = (mapRun sampleOps ∅).2 ∧
      dictSize r.2 = (mapRun sampleOps ∅).2.keys.card :=
  ⟨_, rfl, (@dictRun_refines_finmap Nat Nat sampleHash _ 16 (by decide) sampleOps).of_ok rfl⟩

end Dict

end Blogd
