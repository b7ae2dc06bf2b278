import Blogd.Foundation.Walk
import Blogd.Redis.DictMap

/-! # Iterating over a dictionary

A safe iterator keeps the dictionary from being rehashed, so that entries stay in their buckets
while they are visited. It holds on to the entry it returned last and to the one after it.
-/

namespace Blogd

variable {K V : Type} {hash : K → UInt32}

/-- `dictIterator`. A pointer to an entry is its key: it is looked up in the bucket that the
iterator stands at. `index` is `none` where the field holds -1. -/
structure DictIterator (K : Type) where
  table : Bool
  index : Option Nat
  entry : Option K
  nextEntry : Option K

/-- `dictGetSafeIterator` -/
def dictGetSafeIterator : DictIterator K := ⟨false, none, none, none⟩

/-- `&iter->d->ht[iter->table]` -/
def Dict.tableAt (d : Dict K V) (second : Bool) : Dictht K V := if second then d.ht1 else d.ht0

section Next

variable [DecidableEq K]

/-- `iter->nextEntry = iter->entry->next; return iter->entry` -/
def returnEntry (d : Dict K V) (iter : DictIterator K) (idx : Nat) (key : K) :
    Except Fault (Option (DictEntry K V) × DictIterator K × Dict K V) := do
  let chain ← (d.tableAt iter.table).chain idx
  match chain.dropWhile fun e => e.1 ≠ key with
  | [] => .error .freed
  | e :: rest =>
      let next := rest.head?.map fun e => e.1
      return (some e, { iter with index := some idx, entry := some key, nextEntry := next }, d)

/-- The bucket that `dictNext` opens next, if there is one. -/
def nextPlace (d : Dict K V) (iter : DictIterator K) : Option (Bool × Nat) :=
  let idx := iter.index.elim 0 (· + 1)
  if idx < (d.tableAt iter.table).size then some (iter.table, idx)
  else if dictIsRehashing d && !iter.table then some (true, 0)
  else none

/-- The first round of an iteration counts the iterator. -/
def Dict.opened (d : Dict K V) (iter : DictIterator K) : Dict K V :=
  if iter.index.isNone && !iter.table then { d with iterators := d.iterators + 1 } else d

/-- The loop of `dictNext`. -/
def dictNextLoop :
    Nat → Dict K V → DictIterator K →
      Except Fault (Option (DictEntry K V) × DictIterator K × Dict K V)
  | 0, _, _ => .error .endless
  | fuel + 1, d, iter =>
      match iter.entry, iter.index with
      | some _, none => .error .freed
      | some _, some idx =>
          match iter.nextEntry with
          | some key => returnEntry d iter idx key
          | none => dictNextLoop fuel d { iter with entry := none }
      | none, index =>
          match nextPlace d iter with
          | none =>
              .ok (none, { iter with index := some (index.elim 0 (· + 1)) }, d.opened iter)
          | some (second, idx) => do
              let chain ← (d.tableAt second).chain idx
              match chain with
              | e :: _ => returnEntry (d.opened iter) { iter with table := second } idx e.1
              | [] =>
                  dictNextLoop fuel (d.opened iter)
                    { iter with table := second, index := some idx }

/-- `dictNext`. It visits every bucket at most once. -/
def dictNext (d : Dict K V) (iter : DictIterator K) :
    Except Fault (Option (DictEntry K V) × DictIterator K × Dict K V) :=
  dictNextLoop (dictSlots d + 3) d iter

end Next

/-- `dictReleaseIterator` -/
def dictReleaseIterator (d : Dict K V) (iter : DictIterator K) : Dict K V :=
  if iter.index.isNone && !iter.table then d else { d with iterators := d.iterators - 1 }

/-! ## What is left to return -/

namespace Dict

open Buckets

section Places

variable {d : Dict K V}

/-- The buckets of both tables. -/
def buckets (d : Dict K V) : List (List (DictEntry K V)) := d.ht0.table ++ d.ht1.table

theorem flatten_buckets (d : Dict K V) : d.buckets.flatten = d.entries := List.flatten_append

theorem length_buckets (d : Dict K V) : d.buckets.length = dictSlots d := List.length_append

/-- The number of a bucket among those of both tables. -/
def bucketNumber (d : Dict K V) (second : Bool) (idx : Nat) : Nat :=
  if second then d.ht0.size + idx else idx

theorem getElem?_buckets {second : Bool} {idx : Nat} (hidx : idx < (d.tableAt second).size) :
    d.buckets[d.bucketNumber second idx]? = (d.tableAt second).table[idx]? := by
  cases second with
  | false => exact List.getElem?_append_left hidx
  | true =>
      change (d.ht0.table ++ d.ht1.table)[d.ht0.table.length + idx]? = _
      rw [List.getElem?_append_right (Nat.le_add_right _ _), Nat.add_sub_cancel_left]
      rfl

theorem Valid.nodupKeys_bucket (hd : d.Valid hash) {i : Nat} {chain : List (DictEntry K V)}
    (hchain : d.buckets[i]? = some chain) : chain.NodupKeys := by
  have hperm := flatten_perm hchain
  rw [flatten_buckets] at hperm
  have hnodup := (List.perm_nodupKeys hperm).mp hd.nodupKeys
  exact hnodup.sublist (List.sublist_append_left _ _)

/-- The first bucket that an iterator without an entry looks at. -/
def nextBucket (d : Dict K V) (iter : DictIterator K) : Nat :=
  iter.index.elim 0 fun idx => d.bucketNumber iter.table idx + 1

/-- An iterator that has not come to its end: it is in the second table only during a
rehash, and its entries stand in its bucket. -/
structure Standing (d : Dict K V) (iter : DictIterator K) : Prop where
  start : iter.index = none → iter.table = false ∧ iter.entry = none
  second : iter.table = true → dictIsRehashing d = true
  within : ∀ idx, iter.index = some idx → idx < (d.tableAt iter.table).size
  bucket : ∀ key idx, iter.entry = some key → iter.index = some idx →
    ∃ chain, (d.tableAt iter.table).table[idx]? = some chain ∧
      ∀ next, iter.nextEntry = some next → next ∈ chain.keys

theorem standing_start (d : Dict K V) : Standing d dictGetSafeIterator where
  start _ := ⟨rfl, rfl⟩
  second := nofun
  within := nofun
  bucket := nofun

theorem exists_opened (d : Dict K V) (iter : DictIterator K) :
    ∃ n, d.opened iter = { d with iterators := n } := by
  unfold opened
  split
  · exact ⟨_, rfl⟩
  · exact ⟨d.iterators, rfl⟩

theorem Valid.setIterators (hd : d.Valid hash) (n : Int) :
    ({ d with iterators := n } : Dict K V).Valid hash :=
  ⟨hd.first, hd.second, hd.nodupKeys, hd.idle, hd.progress⟩

theorem nextBucket_le {iter : DictIterator K} (hst : Standing d iter) :
    d.nextBucket iter ≤ dictSlots d := by
  unfold nextBucket
  cases hindex : iter.index with
  | none => exact Nat.zero_le _
  | some idx =>
      have hidx := hst.within idx hindex
      change d.bucketNumber iter.table idx + 1 ≤ d.ht0.size + d.ht1.size
      cases htable : iter.table with
      | false =>
          rw [htable] at hidx
          exact Nat.le_add_right_of_le hidx
      | true =>
          rw [htable] at hidx
          exact Nat.add_lt_add_left hidx _

/-- The bucket that is opened next is the one after the iterator's, among those of both tables. -/
theorem nextPlace_spec {iter : DictIterator K} (hd : d.Valid hash) (hst : Standing d iter) :
    match nextPlace d iter with
    | none => dictSlots d ≤ d.nextBucket iter
    | some (second, idx) => d.bucketNumber second idx = d.nextBucket iter ∧
        idx < (d.tableAt second).size ∧ (second = true → dictIsRehashing d = true) := by
  have hnumber : d.bucketNumber iter.table (iter.index.elim 0 (· + 1)) = d.nextBucket iter := by
    unfold nextBucket
    cases hindex : iter.index with
    | none =>
        rw [(hst.start hindex).1]
        rfl
    | some idx => cases iter.table <;> rfl
  unfold nextPlace
  dsimp only
  by_cases hidx : iter.index.elim 0 (· + 1) < (d.tableAt iter.table).size
  · rw [if_pos hidx]
    exact ⟨hnumber, hidx, hst.second⟩
  rw [if_neg hidx]
  cases htable : iter.table with
  | true =>
      rw [htable] at hidx hnumber
      rw [Bool.not_true, Bool.and_false, if_neg Bool.false_ne_true, ← hnumber]
      exact Nat.add_le_add_left (Nat.le_of_not_lt hidx) _
  | false =>
      rw [htable] at hidx hnumber
      by_cases hbusy : dictIsRehashing d = true
      · obtain ⟨hsize0, hsize1⟩ := hd.size_ne hbusy
        rw [hbusy, Bool.not_false, Bool.and_true, if_pos rfl]
        refine ⟨?_, Nat.pos_of_ne_zero hsize1, fun _ => rfl⟩
        -- the iterator stood in the last bucket of the first table
        cases hindex : iter.index with
        | none =>
            rw [hindex] at hidx
            exact absurd (Nat.pos_of_ne_zero hsize0) hidx
        | some idx =>
            have hwithin := hst.within idx hindex
            rw [hindex] at hidx hnumber
            rw [htable] at hwithin
            rw [← hnumber]
            exact (Nat.le_antisymm hwithin (Nat.le_of_not_lt hidx)).symm
      · rw [Bool.eq_false_iff.mpr hbusy, Bool.false_and, if_neg Bool.false_ne_true, ← hnumber]
        have hreset := hd.idle (Option.not_isSome_iff_eq_none.mp hbusy)
        change d.ht0.size + d.ht1.size ≤ _
        rw [hreset]
        exact Nat.le_of_not_lt hidx

end Places

variable [DecidableEq K] {d : Dict K V} {iter : DictIterator K}

/-- The entries that an iterator has yet to return. -/
def pending (d : Dict K V) (iter : DictIterator K) : List (DictEntry K V) :=
  match iter.entry, iter.index with
  | some _, some idx => ahead d.buckets (d.bucketNumber iter.table idx) iter.nextEntry
  | _, _ => (d.buckets.drop (d.nextBucket iter)).flatten

theorem pending_start (d : Dict K V) : d.pending dictGetSafeIterator = d.entries :=
  flatten_buckets d

theorem returnEntry_spec (hd : d.Valid hash) {idx : Nat} {chain : List (DictEntry K V)}
    (hchain : (d.tableAt iter.table).table[idx]? = some chain) {key : K} (hkey : key ∈ chain.keys)
    (hsecond : iter.table = true → dictIsRehashing d = true) :
    ∃ e rest iter', fromPointer (some key) chain = e :: rest ∧
      returnEntry d iter idx key = .ok (some e, iter', d) ∧
      d.pending iter' =
        rest ++ (d.buckets.drop (d.bucketNumber iter.table idx + 1)).flatten ∧
      Standing d iter' ∧ iter'.entry = some e.1 ∧ iter'.index = some idx ∧
      iter'.table = iter.table := by
  obtain ⟨hidx, -⟩ := List.getElem?_eq_some_iff.mp hchain
  have hbucket : d.buckets[d.bucketNumber iter.table idx]? = some chain :=
    (getElem?_buckets hidx).trans hchain
  obtain ⟨e, rest, heq, rfl⟩ := fromPointer_eq_cons hkey
  have hsuffix : rest <:+ chain :=
    (List.suffix_cons e rest).trans (heq ▸ fromPointer_suffix (some e.1) chain)
  refine ⟨e, rest, ⟨iter.table, some idx, some e.1, rest.head?.map fun e => e.1⟩, heq, ?_, ?_, ?_,
    rfl, rfl, rfl⟩
  · have hread : (d.tableAt iter.table).chain idx = .ok chain := by
      rw [Dictht.chain, hchain]
    have hdrop : (chain.dropWhile fun e' => e'.1 ≠ e.1) = e :: rest := heq
    rw [returnEntry, hread, ok_bind, hdrop]
    rfl
  · change ahead _ _ _ = _
    rw [ahead, List.getD_eq_getElem?_getD, hbucket]
    congr 1
    exact fromPointer_head? (hd.nodupKeys_bucket hbucket) hsuffix
  · refine ⟨fun h => absurd h (Option.some_ne_none _), hsecond, ?_, ?_⟩
    · rintro _ ⟨⟩
      exact hidx
    · rintro _ _ ⟨⟩ ⟨⟩
      refine ⟨chain, hchain, ?_⟩
      intro next hnext
      obtain ⟨b, hb, rfl⟩ := Option.map_eq_some_iff.mp hnext
      exact List.mem_keys_of_mem (hsuffix.subset (List.mem_of_mem_head? hb))

/-- What a call of `dictNext` does: it returns the first entry that is left, or nothing. -/
structure Advance (d : Dict K V) (iter : DictIterator K) (r : Option (DictEntry K V))
    (iter' : DictIterator K) (d' : Dict K V) : Prop where
  entry : r = (d.pending iter).head?
  dict : d' = d.opened iter
  started : iter'.index.isSome
  next : ∀ e, r = some e →
    d'.pending iter' = (d.pending iter).tail ∧ Standing d' iter' ∧ iter'.entry = some e.1

theorem pending_of_none (hentry : iter.entry = none) :
    d.pending iter = (d.buckets.drop (d.nextBucket iter)).flatten := by
  rw [pending, hentry]

theorem dictNextLoop_none {fuel : Nat} (hd : d.Valid hash) (hst : Standing d iter)
    (hentry : iter.entry = none) (hfuel : dictSlots d < fuel + d.nextBucket iter) :
    ∃ r iter' d', dictNextLoop fuel d iter = .ok (r, iter', d') ∧ Advance d iter r iter' d' := by
  induction fuel generalizing d iter with
  | zero =>
      have := nextBucket_le hst
      omega
  | succ fuel ih =>
      have hplace := nextPlace_spec hd hst
      rw [dictNextLoop, hentry]
      dsimp only
      cases hnext : nextPlace d iter with
      | none =>
          rw [hnext] at hplace
          refine ⟨_, _, _, rfl, ?_, rfl, rfl, nofun⟩
          rw [pending_of_none hentry, List.drop_eq_nil_of_le (by rwa [length_buckets])]
          rfl
      | some place =>
          obtain ⟨second, idx⟩ := place
          rw [hnext] at hplace
          obtain ⟨hnumber, hidx, hsecond⟩ := hplace
          obtain ⟨chain, hchain, hread⟩ := Dictht.chain_of_lt hidx
          have hbucket := (getElem?_buckets hidx).trans hchain
          rw [hnumber] at hbucket
          have hpending : d.pending iter =
              chain ++ (d.buckets.drop (d.nextBucket iter + 1)).flatten := by
            rw [pending_of_none hentry, flatten_drop_eq hbucket]
          obtain ⟨n, hopened⟩ := exists_opened d iter
          dsimp only
          rw [hread, ok_bind]
          cases chain with
          | cons e chain =>
              obtain ⟨e', rest, iter', heq, hrun, hpending', hstanding, hcurrent, hindex, -⟩ :=
                @returnEntry_spec _ _ _ _ _ { iter with table := second } (hd.setIterators n) _ _
                  hchain e.1 List.mem_cons_self hsecond
              rw [fromPointer_cons_self] at heq
              obtain ⟨rfl, rfl⟩ := List.cons.inj heq
              dsimp only
              rw [hopened]
              refine ⟨_, _, _, hrun, ?_, hopened.symm, by rw [hindex]; rfl, ?_⟩
              · rw [hpending]
                rfl
              · rintro _ ⟨⟩
                refine ⟨?_, hstanding, hcurrent⟩
                rw [hpending', hpending]
                change _ ++ (d.buckets.drop (d.bucketNumber second idx + 1)).flatten = _
                rw [hnumber]
                rfl
          | nil =>
              dsimp only
              rw [hopened]
              have hst' : Standing { d with iterators := n }
                  { iter with table := second, index := some idx } := by
                refine ⟨nofun, hsecond, ?_, ?_⟩
                · rintro _ ⟨⟩
                  exact hidx
                · intro key _ hkey
                  rw [hentry] at hkey
                  cases hkey
              have hnext' : nextBucket { d with iterators := n }
                  { iter with table := second, index := some idx } = d.nextBucket iter + 1 := by
                rw [← hnumber]
                rfl
              obtain ⟨r, iter', d', hrun, hadv⟩ := ih (hd.setIterators n) hst' hentry (by
                rw [hnext']
                change dictSlots d < _
                omega)
              have hsame : pending { d with iterators := n }
                  { iter with table := second, index := some idx } = d.pending iter := by
                rw [@pending_of_none _ _ _ _ { iter with table := second, index := some idx }
                  hentry, hnext', hpending]
                rfl
              rw [hentry] at hrun
              refine ⟨r, iter', d', hrun, ?_, ?_, hadv.started, ?_⟩
              · rw [hadv.entry, hsame]
              · rw [hadv.dict, hopened]
                rfl
              · rw [← hsame]
                exact hadv.next

theorem dictNext_spec (hd : d.Valid hash) (hst : Standing d iter) :
    ∃ r iter' d', dictNext d iter = .ok (r, iter', d') ∧ Advance d iter r iter' d' := by
  unfold dictNext
  cases hentry : iter.entry with
  | none => exact dictNextLoop_none hd hst hentry (by omega)
  | some key =>
      cases hindex : iter.index with
      | none =>
          rw [(hst.start hindex).2] at hentry
          cases hentry
      | some idx =>
          obtain ⟨chain, hchain, hkeys⟩ := hst.bucket key idx hentry hindex
          obtain ⟨hidx, -⟩ := List.getElem?_eq_some_iff.mp hchain
          have hbucket := (getElem?_buckets hidx).trans hchain
          have hopened : d.opened iter = d := by
            rw [opened, hindex]
            rfl
          have hpending : d.pending iter = fromPointer iter.nextEntry chain ++
              (d.buckets.drop (d.bucketNumber iter.table idx + 1)).flatten := by
            rw [pending, hentry, hindex]
            dsimp only
            rw [ahead, List.getD_eq_getElem?_getD, hbucket]
            rfl
          rw [dictNextLoop, hentry, hindex]
          dsimp only
          cases hnext : iter.nextEntry with
          | some next =>
              obtain ⟨e, rest, iter', heq, hrun, hpending', hstanding, hcurrent, hindex', -⟩ :=
                returnEntry_spec hd hchain (hkeys next hnext) hst.second
              rw [hnext, heq] at hpending
              refine ⟨_, _, _, hrun, by rw [hpending]; rfl, hopened.symm, by rw [hindex']; rfl, ?_⟩
              rintro _ ⟨⟩
              exact ⟨by rw [hpending', hpending]; rfl, hstanding, hcurrent⟩
          | none =>
              have hst' : Standing d { iter with entry := none } :=
                ⟨fun h => ⟨(hst.start h).1, rfl⟩, hst.second, hst.within,
                  fun _ _ h => absurd h.symm (Option.some_ne_none _)⟩
              obtain ⟨r, iter', d', hrun, hadv⟩ := @dictNextLoop_none _ _ hash _ _ _
                (dictSlots d + 2) hd hst' rfl (by omega)
              have hsame : d.pending { iter with entry := none } = d.pending iter := by
                rw [pending_of_none rfl, hpending, hnext, nextBucket, hindex]
                rfl
              rw [hnext, hindex] at hrun
              refine ⟨r, iter', d', hrun, hsame ▸ hadv.entry, hadv.dict, hadv.started, ?_⟩
              rw [← hsame]
              exact hadv.next

end Dict

end Blogd
