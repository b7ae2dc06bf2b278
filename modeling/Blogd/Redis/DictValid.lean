import Blogd.Redis.Dict

/-! # What every dictionary keeps

Each entry stands in the bucket of its key, no key stands twice, the counters count, and the
buckets of the first table before `rehashidx` are empty. Rehashing and resizing keep this and
change the entries at most in their order.
-/

namespace Blogd

open Buckets

variable {K V : Type} {hash : K → UInt32}

/-- The program ends only where the allocator does not grant a table. -/
def outOfMemory (e : Fault) : Prop := e = .exit

/-! ## Tables -/

namespace Dictht

variable {ht : Dictht K V} {idx : Nat} {key : K}

/-- A table that is `NULL` or has a power of two of buckets, few enough for an `int`. -/
structure Valid (hash : K → UInt32) (ht : Dictht K V) : Prop where
  size : ht.size = 0 ∨ ∃ n ≤ 31, ht.size = 2 ^ n
  placed : Placed (fun k => ht.slot (hash k)) ht.table
  used : ht.used = ht.table.flatten.length

theorem valid_reset : (reset : Dictht K V).Valid hash where
  size := .inl rfl
  placed := Placed.replicate_nil 0
  used := rfl

theorem valid_fresh {n : Nat} (hn : n ≤ 31) : (fresh (2 ^ n) : Dictht K V).Valid hash where
  size := .inr ⟨n, hn, List.length_replicate⟩
  placed := Placed.replicate_nil _
  used := by rw [fresh, flatten_replicate_nil]; rfl

theorem size_fresh (n : Nat) : (fresh n : Dictht K V).size = n := List.length_replicate

theorem size_fresh_ne (n : Nat) : (fresh (2 ^ n) : Dictht K V).size ≠ 0 := by
  rw [size_fresh]
  exact (Nat.two_pow_pos n).ne'

theorem slot_lt (hsize : ht.size ≠ 0) (h : UInt32) : ht.slot h < ht.size := by
  have hle : ht.slot h ≤ ht.sizemask := Nat.and_le_right
  unfold sizemask at hle
  omega

theorem size_set (table : List (List (DictEntry K V))) (idx : Nat) (chain : List (DictEntry K V))
    (used used' : Nat) : (mk (table.set idx chain) used).size = (mk table used').size :=
  List.length_set

theorem slot_congr {ht' : Dictht K V} (hsize : ht'.size = ht.size) (h : UInt32) :
    ht'.slot h = ht.slot h := by
  rw [slot, slot, sizemask, sizemask, hsize]

theorem Valid.size_le (hv : ht.Valid hash) : ht.size ≤ 2 ^ 31 := by
  rcases hv.size with hzero | ⟨n, hn, hsize⟩
  · omega
  · exact hsize ▸ Nat.pow_le_pow_right (by decide) hn

/-- A bucket's index fits an `int`. -/
theorem Valid.bmod_slot (hv : ht.Valid hash) (hsize : ht.size ≠ 0) (h : UInt32) :
    Int.bmod (ht.slot h) (2 ^ 32) = ht.slot h := by
  have hlt := slot_lt hsize h
  have hle := hv.size_le
  apply Int.bmod_eq_of_le <;> omega

theorem chain_of_lt (hidx : idx < ht.size) :
    ∃ chain, ht.table[idx]? = some chain ∧ ht.chain idx = .ok chain := by
  refine ⟨ht.table[idx], List.getElem?_eq_getElem hidx, ?_⟩
  rw [chain, List.getElem?_eq_getElem hidx]

/-- The bucket of a key. -/
theorem chain_slot (hsize : ht.size ≠ 0) (h : UInt32) :
    ∃ chain, ht.table[ht.slot h]? = some chain ∧ ht.chain (ht.slot h) = .ok chain :=
  chain_of_lt (slot_lt hsize h)

/-- One bucket changes, to entries that belong there. -/
theorem Valid.set {chain chain' : List (DictEntry K V)} (hv : ht.Valid hash)
    (hchain : ht.table[idx]? = some chain) (hplace : ∀ e ∈ chain', ht.slot (hash e.1) = idx)
    {used : Nat} (hused : used + chain.length = ht.used + chain'.length) :
    (Dictht.mk (ht.table.set idx chain') used).Valid hash where
  size := by simpa [Dictht.size] using hv.size
  placed := by
    have hp := hv.placed.set hplace
    intro i other hother e he
    rw [← hp i other hother e he]
    exact slot_congr (size_set ht.table idx chain' used ht.used) _
  used := by
    have hbefore := (flatten_perm hchain).length_eq
    have hafter := (flatten_set_perm hchain chain').length_eq
    have hcount := hv.used
    rw [List.length_append] at hbefore hafter
    dsimp only
    omega

/-- The keys of a bucket belong there, and so do fewer of them. -/
theorem Valid.place_of_keys {chain chain' : List (DictEntry K V)} (hv : ht.Valid hash)
    (hchain : ht.table[idx]? = some chain) (hkeys : chain'.keys ⊆ chain.keys) :
    ∀ e ∈ chain', ht.slot (hash e.1) = idx := by
  intro e he
  obtain ⟨val, hval⟩ := List.mem_keys.mp (hkeys (List.mem_keys_of_mem he))
  exact hv.placed idx chain hchain ⟨e.1, val⟩ hval

theorem Valid.push (hv : ht.Valid hash) (hsize : ht.size ≠ 0) (e : DictEntry K V) :
    ∃ ht', ht.push (ht.slot (hash e.1)) e = .ok ht' ∧ ht'.Valid hash ∧ ht'.size = ht.size ∧
      ht'.table.flatten.Perm (e :: ht.table.flatten) := by
  obtain ⟨chain, hchain, hread⟩ := chain_slot hsize (hash e.1)
  refine ⟨⟨ht.table.set (ht.slot (hash e.1)) (e :: chain), ht.used + 1⟩, ?_, ?_,
    List.length_set, flatten_set_cons_perm hchain e⟩
  · rw [Dictht.push, hread, ok_bind, pure_eq_ok]
  · apply hv.set hchain
    · intro e' he'
      rcases List.mem_cons.mp he' with rfl | hmem
      · rfl
      · exact hv.placed _ _ hchain e' hmem
    · rw [List.length_cons]
      omega

end Dictht

/-- Moving a chain adds its entries to the table. -/
theorem moveChain_spec (chain : List (DictEntry K V)) {ht : Dictht K V} (hv : ht.Valid hash)
    (hsize : ht.size ≠ 0) :
    ∃ ht', moveChain hash chain ht = .ok ht' ∧ ht'.Valid hash ∧ ht'.size = ht.size ∧
      ht'.table.flatten.Perm (chain ++ ht.table.flatten) := by
  induction chain generalizing ht with
  | nil => exact ⟨ht, rfl, hv, rfl, .refl _⟩
  | cons e rest ih =>
      obtain ⟨ht₁, hpush, hv₁, hsize₁, hperm₁⟩ := hv.push hsize e
      obtain ⟨ht₂, hmove, hv₂, hsize₂, hperm₂⟩ := ih hv₁ (hsize₁ ▸ hsize)
      refine ⟨ht₂, ?_, hv₂, hsize₂.trans hsize₁, ?_⟩
      · rw [moveChain, List.foldlM_cons, hpush, ok_bind]
        exact hmove
      · apply hperm₂.trans
        apply (hperm₁.append_left rest).trans
        exact List.perm_middle

/-! ## Dictionaries -/

namespace Dict

/-- The entries of both tables. -/
def entries (d : Dict K V) : List (DictEntry K V) := d.ht0.table.flatten ++ d.ht1.table.flatten

structure Valid (hash : K → UInt32) (d : Dict K V) : Prop where
  first : d.ht0.Valid hash
  second : d.ht1.Valid hash
  nodupKeys : d.entries.NodupKeys
  idle : d.rehashidx = none → d.ht1 = .reset
  progress : ∀ idx, d.rehashidx = some idx →
    d.ht0.size ≠ 0 ∧ d.ht1.size ≠ 0 ∧ idx ≤ d.ht0.size ∧ ∀ j < idx, d.ht0.table[j]? = some []

theorem valid_create : (dictCreate : Dict K V).Valid hash where
  first := Dictht.valid_reset
  second := Dictht.valid_reset
  nodupKeys := List.nodupKeys_nil
  idle _ := rfl
  progress _ h := by cases h

theorem Valid.dictSize_eq {d : Dict K V} (hd : d.Valid hash) : dictSize d = d.entries.length := by
  rw [dictSize, entries, List.length_append, hd.first.used, hd.second.used]

theorem Valid.flatten_second {d : Dict K V} (hd : d.Valid hash)
    (hidle : ¬ dictIsRehashing d = true) : d.ht1.table.flatten = [] := by
  rw [hd.idle (Option.not_isSome_iff_eq_none.mp hidle)]
  rfl

theorem Valid.size_ne {d : Dict K V} (hd : d.Valid hash) (hbusy : dictIsRehashing d = true) :
    d.ht0.size ≠ 0 ∧ d.ht1.size ≠ 0 := by
  obtain ⟨idx, hidx⟩ := Option.isSome_iff_exists.mp hbusy
  exact ⟨(hd.progress idx hidx).1, (hd.progress idx hidx).2.1⟩

/-- A table without buckets has no entries. -/
theorem Valid.used_eq_zero {d : Dict K V} (hd : d.Valid hash) (hzero : d.ht0.size = 0) :
    d.ht0.used = 0 := by
  rw [hd.first.used, List.length_eq_zero_iff.mp hzero]
  rfl

theorem Valid.size_ne_of_dictSize {d : Dict K V} (hd : d.Valid hash) (hsome : dictSize d ≠ 0) :
    d.ht0.size ≠ 0 := by
  intro hzero
  have hidle : ¬ dictIsRehashing d = true := fun hbusy => (hd.size_ne hbusy).1 hzero
  apply hsome
  rw [dictSize, hd.used_eq_zero hzero, hd.second.used, hd.flatten_second hidle]
  rfl

/-- Nothing but the order and the place of entries differs. -/
structure Rearranged (hash : K → UInt32) (d d' : Dict K V) : Prop where
  valid : d'.Valid hash
  perm : d'.entries.Perm d.entries
  iterators : d'.iterators = d.iterators

theorem Rearranged.refl {d : Dict K V} (hd : d.Valid hash) : Rearranged hash d d :=
  ⟨hd, .refl _, rfl⟩

theorem Rearranged.trans {d d' d'' : Dict K V} (h : Rearranged hash d d')
    (h' : Rearranged hash d' d'') : Rearranged hash d d'' :=
  ⟨h'.valid, h'.perm.trans h.perm, h'.iterators.trans h.iterators⟩

theorem Rearranged.size {d d' : Dict K V} (hd : d.Valid hash) (h : Rearranged hash d d') :
    dictSize d' = dictSize d := by
  rw [h.valid.dictSize_eq, hd.dictSize_eq, h.perm.length_eq]

end Dict

/-! ## Rehashing -/

/-- Where the search for a bucket with entries ends. -/
def EmptyVisits.Sound {α : Type} (buckets : List (List α)) (rehashidx : Nat) :
    EmptyVisits → Prop
  | .spent rehashidx' => ∃ n, 0 < n ∧ n ≤ buckets.length ∧ rehashidx' = rehashidx + n ∧
      ∀ j < n, buckets[j]? = some []
  | .found rehashidx' visits => ∃ n, n < buckets.length ∧ rehashidx' = rehashidx + n ∧
      1 ≤ visits ∧ ∀ j < n, buckets[j]? = some []

/-- Where an entry is left, the search ends inside the table. -/
theorem skipEmpty_spec {α : Type} (buckets : List (List α)) (rehashidx : Nat) {visits : Int}
    (hvisits : 1 ≤ visits) (hleft : buckets.flatten ≠ []) :
    ∃ found, skipEmpty buckets rehashidx visits = .ok found ∧ found.Sound buckets rehashidx := by
  induction buckets generalizing rehashidx visits with
  | nil => exact absurd rfl hleft
  | cons chain rest ih =>
      cases chain with
      | cons e es =>
          exact ⟨_, rfl, 0, Nat.zero_lt_succ _, rfl, hvisits, fun j hj => absurd hj (by omega)⟩
      | nil =>
          have hzero : ∀ n, (∀ j < n, rest[j]? = some []) →
              ∀ j < n + 1, ([] :: rest)[j]? = some [] := by
            intro n hn j hj
            cases j with
            | zero => rfl
            | succ j => exact hn j (by omega)
          rw [skipEmpty]
          split
          next hlast =>
            refine ⟨_, rfl, 1, Nat.one_pos, Nat.succ_le_of_lt (Nat.zero_lt_succ _), rfl, ?_⟩
            exact hzero 0 fun j hj => absurd hj (Nat.not_lt_zero j)
          next hmore =>
            have hvisits' : 1 ≤ visits - 1 := by omega
            obtain ⟨found, hrun, hsound⟩ := ih (rehashidx + 1) hvisits' hleft
            refine ⟨found, hrun, ?_⟩
            cases found with
            | spent rehashidx' =>
                obtain ⟨n, hpos, hlen, heq, hempty⟩ := hsound
                exact ⟨n + 1, Nat.succ_pos n, Nat.succ_le_succ hlen, by omega, hzero n hempty⟩
            | found rehashidx' visits' =>
                obtain ⟨n, hlen, heq, hvisits', hempty⟩ := hsound
                exact ⟨n + 1, Nat.succ_lt_succ hlen, by omega, hvisits', hzero n hempty⟩

namespace Dict

/-- The buckets before an index are empty, so that the entries of the first table stand from
there on. -/
theorem flatten_drop_of_empty {α : Type} {table : List (List α)} {idx : Nat}
    (hempty : ∀ j < idx, table[j]? = some []) : (table.drop idx).flatten = table.flatten := by
  induction table generalizing idx with
  | nil => rw [List.drop_nil]
  | cons chain rest ih =>
      cases idx with
      | zero => rfl
      | succ idx =>
          have hchain : chain = [] := Option.some.inj (hempty 0 (Nat.succ_pos idx))
          have hrest := ih fun j hj => hempty (j + 1) (Nat.succ_lt_succ hj)
          rw [List.drop_succ_cons, hrest, hchain, List.flatten_cons, List.nil_append]

/-- What a call of `dictRehash` may do to a dictionary that is being rehashed at an index. -/
structure Advanced (hash : K → UInt32) (rehashidx n : Nat) (d d' : Dict K V) : Prop where
  rearranged : Rearranged hash d d'
  size0 : d'.ht0.size = d.ht0.size
  size1 : d'.ht1.size = d.ht1.size
  advance : ∃ rehashidx', d'.rehashidx = some rehashidx' ∧ rehashidx ≤ rehashidx' ∧
    (0 < n → d'.ht0.used = 0 ∨ rehashidx < rehashidx')

/-- The bucket at the index goes over to the second table. -/
theorem Valid.moveBucket {d : Dict K V} {idx : Nat}
    (hd : ({ d with rehashidx := some idx } : Dict K V).Valid hash) {n : Nat}
    (hn : idx + n < d.ht0.size) (hempty : ∀ j < idx + n, d.ht0.table[j]? = some []) :
    ∃ de ht1, d.ht0.chain (idx + n) = .ok de ∧ moveChain hash de d.ht1 = .ok ht1 ∧
      Advanced hash idx 1 d
        { d with
          ht0 := ⟨d.ht0.table.set (idx + n) [], d.ht0.used - de.length⟩
          ht1 := ht1
          rehashidx := some (idx + n + 1) } := by
  obtain ⟨hsize0, hsize1, -, -⟩ := hd.progress idx rfl
  obtain ⟨de, hde, hread⟩ := Dictht.chain_of_lt hn
  obtain ⟨ht1, hmove, hv1, hsize, hperm⟩ := moveChain_spec de hd.second hsize1
  have hfirst := perm_append_flatten_set_nil hde
  have hcount : de.length ≤ d.ht0.used := by
    have hlen := hfirst.length_eq
    have hused : d.ht0.used = d.ht0.table.flatten.length := hd.first.used
    rw [List.length_append] at hlen
    omega
  have hv0 : (Dictht.mk (d.ht0.table.set (idx + n) []) (d.ht0.used - de.length)).Valid hash := by
    apply Dictht.Valid.set hd.first hde
    · intro e he
      cases he
    · rw [List.length_nil]
      dsimp only
      omega
  have hentries : ((d.ht0.table.set (idx + n) []).flatten ++ ht1.table.flatten).Perm d.entries := by
    apply (hperm.append_left _).trans
    rw [← List.append_assoc]
    exact (List.perm_append_comm.trans hfirst.symm).append_right _
  refine ⟨de, ht1, hread, hmove, ⟨⟨hv0, hv1, ?_, ?_, ?_⟩, hentries, rfl⟩, List.length_set, hsize,
    ⟨_, rfl, by omega, fun _ => .inr (by omega)⟩⟩
  · exact (List.perm_nodupKeys hentries).mpr hd.nodupKeys
  · intro h
    cases h
  · intro idx' h
    cases h
    refine ⟨by simpa [Dictht.size] using hsize0, hsize.symm ▸ hsize1, ?_, ?_⟩
    · change idx + n + 1 ≤ (d.ht0.table.set (idx + n) []).length
      rw [List.length_set]
      exact hn
    · intro j hj
      rcases Nat.lt_succ_iff_lt_or_eq.mp hj with hlt | rfl
      · rw [List.getElem?_set_ne (by omega)]
        exact hempty j hlt
      · exact List.getElem?_set_self hn

/-- The buckets that a search passed, behind those that were empty before. -/
theorem empty_of_skipped {α : Type} {table : List (List α)} {idx m : Nat}
    (hempty : ∀ j < idx, table[j]? = some [])
    (hskipped : ∀ j < m, (table.drop idx)[j]? = some []) :
    ∀ j < idx + m, table[j]? = some [] := by
  intro j hj
  rcases Nat.lt_or_ge j idx with hlt | hge
  · exact hempty j hlt
  · have hstep := hskipped (j - idx) (by omega)
    rwa [List.getElem?_drop, Nat.add_sub_cancel' hge] at hstep

/-- The loop of `dictRehash` moves buckets and nothing else. -/
theorem rehashLoop_spec (n : Nat) {visits : Int} (hvisits : 1 ≤ visits) {idx : Nat} {d : Dict K V}
    (hd : ({ d with rehashidx := some idx } : Dict K V).Valid hash) :
    ∃ returned d', rehashLoop hash n visits idx d = .ok (returned, d') ∧
      Advanced hash idx n d d' ∧ (returned = true → d'.ht0.used ≠ 0) := by
  induction n generalizing visits idx d with
  | zero =>
      refine ⟨false, _, rfl, ⟨⟨hd, .refl _, rfl⟩, rfl, rfl, idx, rfl, le_refl _, ?_⟩, ?_⟩
      · intro h
        exact absurd h (Nat.not_lt_zero 0)
      · intro h
        cases h
  | succ n ih =>
      rw [rehashLoop]
      split
      next hzero =>
        refine ⟨false, _, rfl, ⟨⟨hd, .refl _, rfl⟩, rfl, rfl, idx, rfl, le_refl _, ?_⟩, ?_⟩
        · exact fun _ => .inl hzero
        · intro h
          cases h
      next hused =>
        obtain ⟨hsize0, hsize1, hidx, hempty⟩ := hd.progress idx rfl
        have hleft : (d.ht0.table.drop idx).flatten ≠ [] := by
          rw [flatten_drop_of_empty hempty]
          intro hnil
          have hcount : d.ht0.used = d.ht0.table.flatten.length := hd.first.used
          rw [hnil] at hcount
          exact hused hcount
        have hlt : ¬ d.ht0.size ≤ idx := by
          intro hle
          rw [List.drop_eq_nil_of_le hle] at hleft
          exact hleft rfl
        obtain ⟨found, hskip, hsound⟩ := skipEmpty_spec _ idx hvisits hleft
        rw [if_neg hlt, hskip, ok_bind]
        cases found with
        | spent idx' =>
            obtain ⟨m, hm, hlen, rfl, hskipped⟩ := hsound
            rw [List.length_drop] at hlen
            have hvalid : ({ d with rehashidx := some (idx + m) } : Dict K V).Valid hash := by
              refine ⟨hd.first, hd.second, hd.nodupKeys, nofun, ?_⟩
              rintro i ⟨⟩
              refine ⟨hsize0, hsize1, ?_, empty_of_skipped hempty hskipped⟩
              change idx + m ≤ d.ht0.table.length
              omega
            exact ⟨true, _, rfl, ⟨⟨hvalid, .refl _, rfl⟩, rfl, rfl, idx + m, rfl,
              Nat.le_add_right idx m, fun _ => .inr (by omega)⟩, fun _ => hused⟩
        | found idx' visits' =>
            obtain ⟨m, hlen, rfl, hvisits', hskipped⟩ := hsound
            rw [List.length_drop] at hlen
            have hin : idx + m < d.ht0.size := by
              change idx + m < d.ht0.table.length
              omega
            obtain ⟨de, ht1, hread, hmove, hmoved⟩ :=
              hd.moveBucket hin (empty_of_skipped hempty hskipped)
            obtain ⟨returned, d', hloop, hrest, hreturned⟩ := ih hvisits'
              (d := { d with
                ht0 := ⟨d.ht0.table.set (idx + m) [], d.ht0.used - de.length⟩, ht1 := ht1 })
              hmoved.rearranged.valid
            have hrest' := hrest.rearranged
            refine ⟨returned, d', ?_, ⟨⟨hrest'.valid, hrest'.perm.trans hmoved.rearranged.perm,
              hrest'.iterators⟩, ?_, ?_, ?_⟩, hreturned⟩
            · dsimp only
              rw [hread, ok_bind, hmove, ok_bind]
              exact hloop
            · exact hrest.size0.trans hmoved.size0
            · exact hrest.size1.trans hmoved.size1
            · obtain ⟨idx', hidx', hle, -⟩ := hrest.advance
              exact ⟨idx', hidx', by omega, fun _ => .inr (by omega)⟩

/-- What `dictRehash` may do: the entries stay, and a rehash that was going on has advanced or
has ended with the second table in the place of the first. -/
structure Rehashed (hash : K → UInt32) (d d' : Dict K V) : Prop where
  rearranged : Rearranged hash d d'
  idle : d.rehashidx = none → d' = d
  advance : ∀ idx, d.rehashidx = some idx →
    (d'.rehashidx = none ∧ d'.ht0.size = d.ht1.size) ∨
    (d'.ht0.used ≠ 0 ∧ d'.ht0.size = d.ht0.size ∧ d'.ht1.size = d.ht1.size ∧
      ∃ idx', d'.rehashidx = some idx' ∧ idx < idx')

/-- The second table takes the place of an emptied first one. -/
theorem Valid.swap {d : Dict K V} (hd : d.Valid hash) (hused : d.ht0.used = 0) :
    Rearranged hash d { d with ht0 := d.ht1, ht1 := .reset, rehashidx := none } := by
  have hnil : d.ht0.table.flatten = [] := List.length_eq_zero_iff.mp (hd.first.used ▸ hused)
  have hentries : d.entries = d.ht1.table.flatten := by
    rw [entries, hnil, List.nil_append]
  have hswapped : ({ d with ht0 := d.ht1, ht1 := .reset, rehashidx := none } :
      Dict K V).entries = d.ht1.table.flatten := List.append_nil _
  refine ⟨⟨hd.second, Dictht.valid_reset, ?_, fun _ => rfl, fun _ h => by cases h⟩, ?_, rfl⟩
  · rw [hswapped, ← hentries]
    exact hd.nodupKeys
  · rw [hswapped, hentries]

theorem dictRehash_spec {d : Dict K V} (hd : d.Valid hash) {n : Nat} (hn : 0 < n) :
    ∃ more d', dictRehash hash d n = .ok (more, d') ∧ Rehashed hash d d' ∧
      more = dictIsRehashing d' := by
  unfold dictRehash
  split
  next hidle =>
    refine ⟨false, d, rfl, ⟨.refl hd, fun _ => rfl, ?_⟩, ?_⟩
    · intro idx h
      rw [hidle] at h
      cases h
    · rw [dictIsRehashing, hidle]
      rfl
  next idx hidx =>
    have hat : ({ d with rehashidx := some idx } : Dict K V) = d := by rw [← hidx]
    have hbusy : d.rehashidx ≠ none := hidx ▸ Option.some_ne_none idx
    have hvisits : (1 : Int) ≤ 10 * n := by omega
    obtain ⟨returned, d', hloop, hadv, hreturned⟩ :=
      rehashLoop_spec n hvisits (hat.symm ▸ hd)
    obtain ⟨idx', hidx', -, hlt⟩ := hadv.advance
    have hgoing : d'.ht0.used ≠ 0 → Rehashed hash d d' := by
      intro hused
      refine ⟨hadv.rearranged, fun h => absurd h hbusy, ?_⟩
      intro i hi
      rw [hidx] at hi
      cases hi
      exact .inr ⟨hused, hadv.size0, hadv.size1, idx', hidx', (hlt hn).resolve_left hused⟩
    have hmore : dictIsRehashing d' = true := by
      rw [dictIsRehashing, hidx']
      rfl
    rw [hloop, ok_bind]
    dsimp only
    split
    next hret => exact ⟨true, d', rfl, hgoing (hreturned hret), hmore.symm⟩
    next =>
      split
      next hused =>
        refine ⟨false, _, rfl, ⟨?_, fun h => absurd h hbusy, ?_⟩, rfl⟩
        · exact hadv.rearranged.trans (hadv.rearranged.valid.swap hused)
        · exact fun i hi => .inl ⟨rfl, hadv.size1⟩
      next hused => exact ⟨true, d', rfl, hgoing hused, hmore.symm⟩

/-- What the rehash step at the beginning of an operation may do. -/
structure Stepped (hash : K → UInt32) (d d' : Dict K V) : Prop where
  rearranged : Rearranged hash d d'
  idle : d.rehashidx = none → d' = d
  table : d.ht0.size ≠ 0 → d'.ht0.size ≠ 0
  rehashed : d.iterators = 0 → Rehashed hash d d'

theorem Rehashed.stepped {d d' : Dict K V} (hd : d.Valid hash) (h : Rehashed hash d d') :
    Stepped hash d d' := by
  refine ⟨h.rearranged, h.idle, ?_, fun _ => h⟩
  intro hsize
  cases hidx : d.rehashidx with
  | none =>
      rw [h.idle hidx]
      exact hsize
  | some idx =>
      rcases h.advance idx hidx with ⟨-, hsize'⟩ | ⟨-, hsize', -⟩
      · exact hsize'.symm ▸ (hd.progress idx hidx).2.1
      · exact hsize'.symm ▸ hsize

theorem rehashStep_spec {d : Dict K V} (hd : d.Valid hash) :
    ∃ d', rehashStepIfRehashing hash d = .ok d' ∧ Stepped hash d d' := by
  unfold rehashStepIfRehashing
  split
  next hbusy =>
    unfold dictRehashStep
    split
    next =>
      obtain ⟨more, d', hrehash, hspec, -⟩ := dictRehash_spec hd Nat.one_pos
      exact ⟨d', by rw [hrehash, ok_bind]; rfl, hspec.stepped hd⟩
    next hiter => exact ⟨d, rfl, .refl hd, fun _ => rfl, id, fun h => absurd h hiter⟩
  next hbusy =>
    have hnone : d.rehashidx = none := Option.not_isSome_iff_eq_none.mp hbusy
    refine ⟨d, rfl, .refl hd, fun _ => rfl, id, fun _ => ⟨.refl hd, fun _ => rfl, ?_⟩⟩
    intro idx h
    rw [hnone] at h
    cases h

/-- What finding a key does to the dictionary: nothing where it is empty, else a rehash step. -/
def Touched (hash : K → UInt32) (d d' : Dict K V) : Prop := d' = d ∨ Stepped hash d d'

theorem Touched.rearranged {d d' : Dict K V} (hd : d.Valid hash) (h : Touched hash d d') :
    Rearranged hash d d' := by
  rcases h with rfl | h
  · exact .refl hd
  · exact h.rearranged

theorem dictRehashMilliseconds_spec (rounds : Nat) {d : Dict K V} (hd : d.Valid hash) :
    ∃ d', dictRehashMilliseconds hash rounds d = .ok d' ∧ Rearranged hash d d' := by
  induction rounds generalizing d with
  | zero => exact ⟨d, rfl, .refl hd⟩
  | succ rounds ih =>
      obtain ⟨more, d₁, hrehash, hspec, -⟩ := dictRehash_spec hd (n := 100) (by decide)
      rw [dictRehashMilliseconds, hrehash, ok_bind]
      dsimp only
      split
      next =>
        obtain ⟨d₂, hrun, hrest⟩ := ih hspec.rearranged.valid
        exact ⟨d₂, hrun, hspec.rearranged.trans hrest⟩
      next => exact ⟨d₁, rfl, hspec.rearranged⟩

end Dict

/-! ## Changing the size -/

theorem doubleUntil_spec (size : Nat) {fuel m : Nat} (hfuel : size ≤ 2 ^ (m + fuel)) :
    ∃ n, doubleUntil size fuel (2 ^ m) = 2 ^ n ∧ m ≤ n ∧ size ≤ 2 ^ n ∧
      (n = m ∨ 2 ^ n < 2 * size) := by
  induction fuel generalizing m with
  | zero => exact ⟨m, rfl, le_refl m, hfuel, .inl rfl⟩
  | succ fuel ih =>
      rw [doubleUntil]
      split
      next hle => exact ⟨m, rfl, le_refl m, hle, .inl rfl⟩
      next hlt =>
        have hnext : size ≤ 2 ^ (m + 1 + fuel) := by
          rwa [Nat.add_right_comm m 1 fuel]
        obtain ⟨n, hn, hm, hsize, hpow⟩ := ih hnext
        rw [Nat.pow_succ, Nat.mul_comm] at hn
        refine ⟨n, hn, by omega, hsize, .inr ?_⟩
        rcases hpow with rfl | hpow
        · rw [Nat.pow_succ]
          omega
        · exact hpow

/-- The least power of two from 4 on that holds the size. -/
theorem dictNextPower_spec {size : Nat} (hsize : size < 2 ^ 63 - 1) :
    ∃ n, dictNextPower size = 2 ^ n ∧ 2 ≤ n ∧ size ≤ 2 ^ n ∧ (n = 2 ∨ 2 ^ n < 2 * size) := by
  rw [dictNextPower, if_neg (by omega)]
  exact @doubleUntil_spec size 61 2 (by omega)

/-- A size that the allocator grants. -/
theorem dictNextPower_of_le {size : Nat} (h : dictNextPower size ≤ 2 ^ 31) :
    ∃ n ≤ 31, dictNextPower size = 2 ^ n ∧ size ≤ 2 ^ n := by
  have hsize : size < 2 ^ 63 - 1 := by
    by_contra hge
    rw [dictNextPower, if_pos (by omega)] at h
    omega
  obtain ⟨n, hn, -, hle, -⟩ := dictNextPower_spec hsize
  refine ⟨n, ?_, hn, hle⟩
  rw [hn] at h
  exact (Nat.pow_le_pow_iff_right (by decide)).mp h

namespace Dict

/-- What `dictExpand` may do: nothing, or a table for a dictionary without one, or a second
table. -/
inductive Expansion (d : Dict K V) (size : Nat) : Bool × Dict K V → Prop
  | refused (h : dictIsRehashing d ∨ size < d.ht0.used ∨ dictNextPower size = d.ht0.size) :
      Expansion d size (false, d)
  | first (n : Nat) (hn : n ≤ 31) (hpow : dictNextPower size = 2 ^ n) (hle : size ≤ 2 ^ n)
      (hidle : d.rehashidx = none) (hzero : d.ht0.size = 0) :
      Expansion d size (true, { d with ht0 := .fresh (2 ^ n) })
  | second (n : Nat) (hn : n ≤ 31) (hpow : dictNextPower size = 2 ^ n) (hle : size ≤ 2 ^ n)
      (hidle : d.rehashidx = none) (hused : d.ht0.used ≤ size) (hsize : d.ht0.size ≠ 0) :
      Expansion d size (true, { d with ht1 := .fresh (2 ^ n), rehashidx := some 0 })

theorem dictExpand_cases {room : Nat} (hroom : room ≤ 2 ^ 31) (d : Dict K V) (size : Nat) :
    Ensures outOfMemory (Expansion d size) (dictExpand room d size) := by
  unfold dictExpand
  apply Ensures.ite
  · intro h
    exact .refused (h.imp_right .inl)
  intro hfree
  rw [not_or] at hfree
  have hidle : d.rehashidx = none := Option.not_isSome_iff_eq_none.mp hfree.1
  apply Ensures.ite
  · intro h
    exact .refused (.inr (.inr h))
  intro _
  apply Ensures.ite
  · intro _
    exact Eq.refl Fault.exit
  intro hgranted
  obtain ⟨n, hn, hpow, hle⟩ := dictNextPower_of_le ((Nat.not_lt.mp hgranted).trans hroom)
  rw [hpow]
  apply Ensures.ite
  · intro hzero
    exact .first n hn hpow hle hidle hzero
  · intro hsize
    exact .second n hn hpow hle hidle (Nat.not_lt.mp hfree.2) hsize

theorem Expansion.rearranged {d : Dict K V} (hd : d.Valid hash) {size : Nat}
    {r : Bool × Dict K V} (h : Expansion d size r) : Rearranged hash d r.2 := by
  cases h with
  | refused => exact .refl hd
  | first n hn hpow hle hidle hzero =>
      have hnil : d.ht0.table = [] := List.length_eq_zero_iff.mp hzero
      have hentries : ({ d with ht0 := .fresh (2 ^ n) } : Dict K V).entries = d.entries := by
        rw [entries, entries, hnil, Dictht.fresh, flatten_replicate_nil, List.flatten_nil]
      refine ⟨⟨Dictht.valid_fresh hn, hd.second, ?_, hd.idle, ?_⟩, ?_, rfl⟩
      · rw [hentries]
        exact hd.nodupKeys
      · intro idx h
        rw [hidle] at h
        cases h
      · rw [hentries]
  | second n hn hpow hle hidle hused hsize =>
      have hnil : d.ht1 = .reset := hd.idle hidle
      have hentries : ({ d with ht1 := .fresh (2 ^ n), rehashidx := some 0 } :
          Dict K V).entries = d.entries := by
        rw [entries, entries, hnil, Dictht.fresh, flatten_replicate_nil]
        rfl
      refine ⟨⟨hd.first, Dictht.valid_fresh hn, ?_, nofun, ?_⟩, ?_, rfl⟩
      · rw [hentries]
        exact hd.nodupKeys
      · rintro idx ⟨⟩
        exact ⟨hsize, Dictht.size_fresh_ne n, Nat.zero_le _,
          fun j hj => absurd hj (Nat.not_lt_zero j)⟩
      · rw [hentries]

theorem dictResize_spec {room : Nat} (hroom : room ≤ 2 ^ 31) (canResize : Bool) {d : Dict K V}
    (hd : d.Valid hash) :
    Ensures outOfMemory (fun r => Rearranged hash d r.2) (dictResize room canResize d) := by
  unfold dictResize
  apply Ensures.ite
  · exact fun _ => Rearranged.refl hd
  · exact fun _ => (dictExpand_cases hroom d _).mono fun r h => h.rearranged hd

/-- What `_dictExpandIfNeeded` may do. Afterwards there is a table, and where resizing is
allowed it has room for an entry. -/
structure Grown (hash : K → UInt32) (canResize : Bool) (d d' : Dict K V) : Prop where
  rearranged : Rearranged hash d d'
  table : d'.ht0.size ≠ 0
  rehashing : d.rehashidx ≠ none → d' = d
  enough : canResize = true → d.rehashidx = none →
    (d'.rehashidx = none ∧ d'.ht0.used < d'.ht0.size) ∨
    (d'.rehashidx = some 0 ∧ d'.ht0 = d.ht0 ∧ d.ht0.size ≤ d.ht0.used ∧
      2 * d.ht0.used ≤ d'.ht1.size)

theorem dictExpandIfNeeded_spec {room : Nat} (hroom : room ≤ 2 ^ 31) (canResize : Bool)
    {d : Dict K V} (hd : d.Valid hash) :
    Ensures outOfMemory (fun r => r.1 = true ∧ Grown hash canResize d r.2)
      (dictExpandIfNeeded room canResize d) := by
  unfold dictExpandIfNeeded
  apply Ensures.ite
  · intro hbusy
    obtain ⟨idx, hidx⟩ := Option.isSome_iff_exists.mp hbusy
    have hne : d.rehashidx ≠ none := hidx ▸ Option.some_ne_none idx
    exact ⟨rfl, .refl hd, (hd.progress idx hidx).1, fun _ => rfl, fun _ h => absurd h hne⟩
  intro hfree
  have hidle : d.rehashidx = none := Option.not_isSome_iff_eq_none.mp hfree
  apply Ensures.ite
  · intro hzero
    have hused := hd.used_eq_zero hzero
    apply (dictExpand_cases hroom d dictHtInitialSize).mono
    intro r hr
    have hrearranged := hr.rearranged hd
    cases hr with
    | refused h =>
        rcases h with h | h | h
        · exact absurd h hfree
        · rw [hused] at h
          exact absurd h (Nat.not_lt_zero _)
        · rw [hzero] at h
          exact absurd h (by decide)
    | first n hn hpow hle hidle hzero =>
        exact ⟨rfl, hrearranged, Dictht.size_fresh_ne n, fun h => absurd hidle h,
          fun _ _ => .inl ⟨hidle, Nat.pos_of_ne_zero (Dictht.size_fresh_ne n)⟩⟩
    | second n hn hpow hle hidle hused hsize => exact absurd hzero hsize
  intro hsize
  apply Ensures.ite
  · rintro ⟨hfull, -⟩
    apply (dictExpand_cases hroom d _).mono
    intro r hr
    have hrearranged := hr.rearranged hd
    cases hr with
    | refused h =>
        rcases h with h | h | h
        · exact absurd h hfree
        · omega
        · exfalso
          have hbound : dictNextPower (d.ht0.used * 2) ≤ 2 ^ 31 := h ▸ hd.first.size_le
          obtain ⟨n, -, hpow, hle⟩ := dictNextPower_of_le hbound
          omega
    | first n hn hpow hle hidle hzero => exact absurd hzero hsize
    | second n hn hpow hle hidle hused hsize =>
        refine ⟨rfl, hrearranged, hsize, fun h => absurd hidle h, fun _ _ => .inr ?_⟩
        refine ⟨rfl, rfl, hfull, ?_⟩
        rw [Dictht.size_fresh, Nat.mul_comm]
        exact hle
  · intro hroomy
    refine ⟨rfl, .refl hd, hsize, fun h => absurd hidle h, ?_⟩
    intro hcan _
    refine .inl ⟨hidle, ?_⟩
    by_contra hge
    exact hroomy ⟨Nat.not_lt.mp hge, .inl hcan⟩

/-! ## Changing one bucket -/

/-- The tables have the buckets they had, and a rehash is where it was. -/
structure SameShape (d d' : Dict K V) : Prop where
  size0 : d'.ht0.size = d.ht0.size
  size1 : d'.ht1.size = d.ht1.size
  rehashidx : d'.rehashidx = d.rehashidx
  iterators : d'.iterators = d.iterators

section SetChain

variable {d : Dict K V} {key : K} {idx used : Nat} {chain chain' : List (DictEntry K V)}

/-- A bucket of the first table that is not passed yet gets other entries. -/
theorem Valid.setFirst (hd : d.Valid hash) (hchain : d.ht0.table[idx]? = some chain)
    (hplace : ∀ e ∈ chain', d.ht0.slot (hash e.1) = idx)
    (hused : used + chain.length = d.ht0.used + chain'.length)
    (hpassed : chain ≠ [] ∨ d.rehashidx = none)
    (hnodup : ((d.ht0.table.set idx chain').flatten ++ d.ht1.table.flatten).NodupKeys) :
    ({ d with ht0 := ⟨d.ht0.table.set idx chain', used⟩ } : Dict K V).Valid hash where
  first := hd.first.set hchain hplace hused
  second := hd.second
  nodupKeys := hnodup
  idle := hd.idle
  progress := by
    intro i hi
    obtain ⟨hsize0, hsize1, hle, hempty⟩ := hd.progress i hi
    have hsize := Dictht.size_set d.ht0.table idx chain' used d.ht0.used
    refine ⟨?_, hsize1, ?_, ?_⟩
    · exact fun hzero => hsize0 (hsize.symm.trans hzero)
    · exact hsize.symm ▸ hle
    · intro j hj
      rcases hpassed with hne | hidle
      · have hidx : idx ≠ j := by
          rintro rfl
          exact hne (Option.some.inj (hchain.symm.trans (hempty idx hj)))
        change (d.ht0.table.set idx chain')[j]? = some []
        rw [List.getElem?_set_ne hidx]
        exact hempty j hj
      · rw [show d.rehashidx = some i from hi] at hidle
        cases hidle

/-- A bucket of the second table gets other entries during a rehash. -/
theorem Valid.setSecond (hd : d.Valid hash) (hchain : d.ht1.table[idx]? = some chain)
    (hplace : ∀ e ∈ chain', d.ht1.slot (hash e.1) = idx)
    (hused : used + chain.length = d.ht1.used + chain'.length)
    (hnodup : (d.ht0.table.flatten ++ (d.ht1.table.set idx chain').flatten).NodupKeys) :
    ({ d with ht1 := ⟨d.ht1.table.set idx chain', used⟩ } : Dict K V).Valid hash where
  first := hd.first
  second := hd.second.set hchain hplace hused
  nodupKeys := hnodup
  idle := by
    intro hidle
    rw [hd.idle hidle] at hchain
    cases hchain
  progress := by
    intro i hi
    obtain ⟨hsize0, hsize1, hle, hempty⟩ := hd.progress i hi
    have hsize := Dictht.size_set d.ht1.table idx chain' used d.ht1.used
    exact ⟨hsize0, fun hzero => hsize1 (hsize.symm.trans hzero), hle, hempty⟩

theorem Valid.nodup_first (hd : d.Valid hash) : d.ht0.table.flatten.NodupKeys :=
  hd.nodupKeys.sublist (List.sublist_append_left _ _)

theorem Valid.nodup_second (hd : d.Valid hash) : d.ht1.table.flatten.NodupKeys :=
  hd.nodupKeys.sublist (List.sublist_append_right _ _)

/-- A key of a chain of one table does not stand in the other. -/
theorem Valid.notMem_first (hd : d.Valid hash) (hkey : key ∈ d.ht1.table.flatten.keys) :
    key ∉ d.ht0.table.flatten.keys := by
  have hnodup := hd.nodupKeys
  rw [entries, List.NodupKeys, List.keys_append, List.nodup_append'] at hnodup
  exact fun hfirst => hnodup.2.2 hfirst hkey

theorem mem_keys_flatten {table : List (List (DictEntry K V))}
    (hchain : table[idx]? = some chain) (hkey : key ∈ chain.keys) :
    key ∈ table.flatten.keys := by
  obtain ⟨val, hval⟩ := List.mem_keys.mp hkey
  exact List.mem_keys.mpr ⟨val, List.mem_flatten.mpr ⟨chain, List.mem_of_getElem? hchain, hval⟩⟩

theorem mem_entries_of_first (hkey : key ∈ d.ht0.table.flatten.keys) : key ∈ d.entries.keys := by
  rw [entries, List.keys_append]
  exact List.mem_append_left _ hkey

theorem mem_entries_of_second (hkey : key ∈ d.ht1.table.flatten.keys) :
    key ∈ d.entries.keys := by
  rw [entries, List.keys_append]
  exact List.mem_append_right _ hkey

theorem ne_nil_of_mem_keys (hkey : key ∈ chain.keys) : chain ≠ [] := by
  rintro rfl
  cases hkey

end SetChain

end Dict

end Blogd
