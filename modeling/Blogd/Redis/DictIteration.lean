import Mathlib.Logic.Relation
import Blogd.Redis.DictIterator

/-! # Safe iterations

During an iteration the dictionary may be read, keys may be added, values replaced, and the key
that was returned last may be deleted. Every key that was there at the start is returned, and a
key is returned again only after it was deleted.
-/

namespace Blogd.Dict

open Buckets Relation

variable {K V : Type} {hash : K → UInt32} {d d' : Dict K V}

/-- The keys of the buckets of both tables. -/
def bucketKeys (d : Dict K V) : List (List K) := d.buckets.map List.keys

theorem bucketKeys_eq (d : Dict K V) :
    d.bucketKeys = d.ht0.table.map List.keys ++ d.ht1.table.map List.keys := List.map_append

theorem flatten_bucketKeys (d : Dict K V) : d.bucketKeys.flatten = d.entries.keys := by
  rw [bucketKeys, ← keys_flatten, flatten_buckets]

theorem bucketKeys_setFirst {idx : Nat} (hidx : idx < d.ht0.size) (chain : List (DictEntry K V))
    (used : Nat) :
    bucketKeys { d with ht0 := ⟨d.ht0.table.set idx chain, used⟩ } =
      d.bucketKeys.set idx chain.keys := by
  rw [bucketKeys_eq, bucketKeys_eq, List.set_append_left _ _ (by rwa [List.length_map]),
    List.map_set]

theorem bucketKeys_setSecond (idx : Nat) (chain : List (DictEntry K V)) (used : Nat) :
    bucketKeys { d with ht1 := ⟨d.ht1.table.set idx chain, used⟩ } =
      d.bucketKeys.set (d.ht0.size + idx) chain.keys := by
  have hlen : (d.ht0.table.map List.keys).length = d.ht0.size := List.length_map _
  rw [bucketKeys_eq, bucketKeys_eq, List.map_set, ← hlen,
    List.set_append_right _ _ (Nat.le_add_right _ _), Nat.add_sub_cancel_left]

theorem getElem?_bucketKeys_first {idx : Nat} {chain : List (DictEntry K V)}
    (hchain : d.ht0.table[idx]? = some chain) : d.bucketKeys[idx]? = some chain.keys := by
  obtain ⟨hidx, -⟩ := List.getElem?_eq_some_iff.mp hchain
  rw [bucketKeys_eq, List.getElem?_append_left (by rwa [List.length_map]), List.getElem?_map,
    hchain]
  rfl

theorem getElem?_bucketKeys_second {idx : Nat} {chain : List (DictEntry K V)}
    (hchain : d.ht1.table[idx]? = some chain) :
    d.bucketKeys[d.ht0.size + idx]? = some chain.keys := by
  have hlen : (d.ht0.table.map List.keys).length = d.ht0.size := List.length_map _
  rw [bucketKeys_eq, ← hlen, List.getElem?_append_right (Nat.le_add_right _ _),
    Nat.add_sub_cancel_left, List.getElem?_map, hchain]
  rfl

theorem chain_eq_ok {ht : Dictht K V} {idx : Nat} {chain : List (DictEntry K V)}
    (h : ht.chain idx = .ok chain) : ht.table[idx]? = some chain := by
  unfold Dictht.chain at h
  split at h
  next hchain =>
    cases h
    exact hchain
  next => cases h

theorem rehashStep_paused (hpaused : d.iterators ≠ 0) : rehashStepIfRehashing hash d = .ok d := by
  unfold rehashStepIfRehashing dictRehashStep
  rw [if_neg hpaused]
  split <;> rfl

theorem pushAt_eq_ok {ht ht' : Dictht K V} {index : Int} {e : DictEntry K V}
    (h : ht.pushAt index e = .ok ht') :
    ∃ chain, ht.table[index.toNat]? = some chain ∧
      ht' = ⟨ht.table.set index.toNat (e :: chain), ht.used + 1⟩ := by
  unfold Dictht.pushAt at h
  split at h
  · cases h
  · obtain ⟨chain, hchain, heq⟩ := bind_eq_ok.mp h
    cases heq
    exact ⟨chain, chain_eq_ok hchain, rfl⟩

variable [DecidableEq K] {cur : K} {deletes : Prop}

/-- How an operation may leave a dictionary that is being iterated over. -/
structure Moves (cur : K) (deletes : Prop) (d d' : Dict K V) : Prop where
  iterators : d'.iterators = d.iterators
  size0 : d'.ht0.size = d.ht0.size
  rehashing : dictIsRehashing d = true → dictIsRehashing d' = true
  keys : ReflTransGen (KeyStep cur deletes) d.bucketKeys d'.bucketKeys

theorem Moves.refl (d : Dict K V) : Moves cur deletes d d := ⟨rfl, rfl, id, .refl⟩

theorem Moves.trans {d'' : Dict K V} (h : Moves cur deletes d d') (h' : Moves cur deletes d' d'') :
    Moves cur deletes d d'' :=
  ⟨h'.iterators.trans h.iterators, h'.size0.trans h.size0, h'.rehashing ∘ h.rehashing,
    h.keys.trans h'.keys⟩

/-! ## Changes of the buckets -/

/-- A second table comes into use. -/
theorem moves_grow (hd : d.Valid hash) (hidle : d.rehashidx = none) (n : Nat) :
    Moves cur deletes d { d with ht1 := .fresh n, rehashidx := some 0 } := by
  refine ⟨rfl, rfl, fun _ => rfl, .single ?_⟩
  have hbefore : d.bucketKeys = d.ht0.table.map List.keys := by
    rw [bucketKeys_eq, hd.idle hidle]
    exact List.append_nil _
  have hafter : bucketKeys { d with ht1 := .fresh n, rehashidx := some 0 } =
      d.bucketKeys ++ List.replicate n [] := by
    rw [bucketKeys_eq, hbefore, Dictht.fresh, List.map_replicate]
    rfl
  rw [hafter]
  exact .grow _ n

/-- A bucket of the first table changes. -/
theorem moves_setFirst {idx used : Nat} {chain chain' : List (DictEntry K V)}
    (hchain : d.ht0.table[idx]? = some chain)
    (hstep : ReflTransGen (KeyStep cur deletes) d.bucketKeys (d.bucketKeys.set idx chain'.keys)) :
    Moves cur deletes d { d with ht0 := ⟨d.ht0.table.set idx chain', used⟩ } := by
  obtain ⟨hidx, -⟩ := List.getElem?_eq_some_iff.mp hchain
  refine ⟨rfl, List.length_set, id, ?_⟩
  rw [bucketKeys_setFirst hidx]
  exact hstep

/-- A bucket of the second table changes. -/
theorem moves_setSecond {idx used : Nat} {chain' : List (DictEntry K V)}
    (hstep : ReflTransGen (KeyStep cur deletes) d.bucketKeys
      (d.bucketKeys.set (d.ht0.size + idx) chain'.keys)) :
    Moves cur deletes d { d with ht1 := ⟨d.ht1.table.set idx chain', used⟩ } := by
  refine ⟨rfl, rfl, id, ?_⟩
  rw [bucketKeys_setSecond]
  exact hstep

/-! ## The operations -/

theorem dictExpandIfNeeded_moves (hd : d.Valid hash) (hsize : d.ht0.size ≠ 0) {room : Nat}
    {canResize : Bool} {r : Bool × Dict K V}
    (hrun : dictExpandIfNeeded room canResize d = .ok r) : Moves cur deletes d r.2 := by
  have hexpand : ∀ size, dictExpand room d size = .ok r → Moves cur deletes d r.2 := by
    intro size h
    unfold dictExpand at h
    dsimp only at h
    split at h
    · cases h
      exact .refl d
    next hfree =>
      rw [not_or] at hfree
      split at h
      · cases h
        exact .refl d
      · split at h
        · cases h
        · cases h
          exact moves_grow hd (Option.not_isSome_iff_eq_none.mp hfree.1) _
  unfold dictExpandIfNeeded at hrun
  split at hrun
  · cases hrun
    exact .refl d
  · split at hrun
    · exact hexpand _ hrun
    · cases hrun
      exact .refl d

theorem dictKeyIndex_moves (hd : d.Valid hash) (hsize : d.ht0.size ≠ 0) {room : Nat}
    {canResize : Bool} {key : K} {r : Int × Dict K V}
    (hrun : dictKeyIndex hash room canResize d key = .ok r) : Moves cur deletes d r.2 := by
  obtain ⟨⟨ok, d₁⟩, hexpand, hrun⟩ := bind_eq_ok.mp hrun
  have hmoves : Moves cur deletes d d₁ := dictExpandIfNeeded_moves hd hsize hexpand
  suffices h : r.2 = d₁ from h ▸ hmoves
  dsimp only at hrun
  split at hrun
  · cases hrun
    rfl
  obtain ⟨he, -, hrun⟩ := bind_eq_ok.mp hrun
  split at hrun
  · cases hrun
    rfl
  split at hrun
  · exact (congrArg Prod.snd (Except.ok.inj hrun)).symm
  obtain ⟨he₁, -, hrun⟩ := bind_eq_ok.mp hrun
  split at hrun
  · cases hrun
    rfl
  · exact (congrArg Prod.snd (Except.ok.inj hrun)).symm

theorem dictAddRaw_moves {room : Nat} (hroom : room ≤ 2 ^ 31) (hd : d.Valid hash)
    (hpaused : d.iterators ≠ 0) (hsize : d.ht0.size ≠ 0) {canResize : Bool} {key : K} {val : V}
    {r : Bool × Dict K V} (hrun : dictAddRaw hash room canResize d key val = .ok r) :
    Moves cur deletes d r.2 := by
  unfold dictAddRaw at hrun
  rw [rehashStep_paused hpaused, ok_bind] at hrun
  obtain ⟨⟨index, d₁⟩, hindex, hrun⟩ := bind_eq_ok.mp hrun
  obtain ⟨hgrown, hcases⟩ := (dictKeyIndex_spec hroom canResize hd key).of_ok hindex
  have hmoves : Moves cur deletes d d₁ := dictKeyIndex_moves hd hsize hindex
  dsimp only at hgrown hcases hrun
  split at hrun
  · cases hrun
    exact hmoves
  next hsome =>
    have hfresh : key ∉ d₁.bucketKeys.flatten := by
      obtain ⟨hnone, -⟩ | ⟨-, hkey⟩ := hcases
      · exact absurd hnone hsome
      · rw [flatten_bucketKeys, ← List.dlookup_eq_none, hgrown.rearranged.dlookup]
        exact List.dlookup_eq_none.mpr hkey
    apply hmoves.trans
    split at hrun
    · obtain ⟨ht1, hpush, heq⟩ := bind_eq_ok.mp hrun
      cases heq
      obtain ⟨chain, hchain, rfl⟩ := pushAt_eq_ok hpush
      exact moves_setSecond (.single (.push (getElem?_bucketKeys_second hchain) hfresh))
    · obtain ⟨ht0, hpush, heq⟩ := bind_eq_ok.mp hrun
      cases heq
      obtain ⟨chain, hchain, rfl⟩ := pushAt_eq_ok hpush
      exact moves_setFirst hchain (.single (.push (getElem?_bucketKeys_first hchain) hfresh))

theorem dictFind_paused (hpaused : d.iterators ≠ 0) {key : K}
    {r : Option (EntryPtr K V) × Dict K V} (hrun : dictFind hash d key = .ok r) : r.2 = d := by
  unfold dictFind at hrun
  split at hrun
  · cases hrun
    rfl
  rw [rehashStep_paused hpaused, ok_bind] at hrun
  obtain ⟨he, -, hrun⟩ := bind_eq_ok.mp hrun
  split at hrun
  · cases hrun
    rfl
  split at hrun
  · cases hrun
    rfl
  obtain ⟨he₁, -, hrun⟩ := bind_eq_ok.mp hrun
  split at hrun
  · cases hrun
    rfl
  · cases hrun
    rfl

theorem dictSetVal_moves {p : EntryPtr K V} {val : V} (hrun : dictSetVal d p val = .ok d') :
    Moves cur deletes d d' := by
  unfold dictSetVal at hrun
  split at hrun
  · obtain ⟨chain, hchain, heq⟩ := bind_eq_ok.mp hrun
    cases heq
    apply moves_setSecond
    rw [List.keys_kreplace, set_getElem? (getElem?_bucketKeys_second (chain_eq_ok hchain))]
  · obtain ⟨chain, hchain, heq⟩ := bind_eq_ok.mp hrun
    cases heq
    apply moves_setFirst (chain_eq_ok hchain)
    rw [List.keys_kreplace, set_getElem? (getElem?_bucketKeys_first (chain_eq_ok hchain))]

theorem dictReplace_moves {room : Nat} (hroom : room ≤ 2 ^ 31) (hd : d.Valid hash)
    (hpaused : d.iterators ≠ 0) (hsize : d.ht0.size ≠ 0) {canResize : Bool} {key : K} {val : V}
    {r : Bool × Dict K V} (hrun : dictReplace hash room canResize d key val = .ok r) :
    Moves cur deletes d r.2 := by
  obtain ⟨⟨added, d₁⟩, hadd, hrun⟩ := bind_eq_ok.mp hrun
  have hmoves : Moves cur deletes d d₁ := dictAddRaw_moves hroom hd hpaused hsize hadd
  dsimp only at hrun
  split at hrun
  · cases hrun
    exact hmoves
  obtain ⟨⟨p, d₂⟩, hfind, hrun⟩ := bind_eq_ok.mp hrun
  have hsame : d₂ = d₁ := dictFind_paused (by rwa [hmoves.iterators]) hfind
  cases p with
  | none => cases hrun
  | some entry =>
      obtain ⟨d₃, hset, heq⟩ := bind_eq_ok.mp hrun
      cases heq
      exact hmoves.trans (dictSetVal_moves (hsame ▸ hset))

theorem dictReplaceRaw_moves {room : Nat} (hroom : room ≤ 2 ^ 31) (hd : d.Valid hash)
    (hpaused : d.iterators ≠ 0) (hsize : d.ht0.size ≠ 0) {canResize : Bool} {key : K} {val : V}
    (hrun : dictReplaceRaw hash room canResize d key val = .ok d') : Moves cur deletes d d' := by
  obtain ⟨⟨p, d₁⟩, hfind, hrun⟩ := bind_eq_ok.mp hrun
  obtain rfl : d₁ = d := dictFind_paused hpaused hfind
  cases p with
  | some entry => exact dictSetVal_moves hrun
  | none =>
      obtain ⟨⟨added, d₂⟩, hadd, hrun⟩ := bind_eq_ok.mp hrun
      dsimp only at hrun
      split at hrun
      · cases hrun
        exact dictAddRaw_moves hroom hd hpaused hsize hadd
      · cases hrun

/-- What goes on between two calls of `dictNext`. -/
inductive IterOp (K V : Type)
  | find (key : K)
  | add (key : K) (val : V)
  | replace (key : K) (val : V)
  | replaceRaw (key : K) (val : V)
  | deleteCurrent
deriving DecidableEq

/-- One operation, at the key that was returned last. -/
def iterStep (hash : K → UInt32) (room : Nat) (canResize : Bool) (cur : K) (d : Dict K V) :
    IterOp K V → Except Fault (Dict K V)
  | .find key => do
      let (_, d) ← dictFind hash d key
      return d
  | .add key val => do
      let (_, d) ← dictAdd hash room canResize d key val
      return d
  | .replace key val => do
      let (_, d) ← dictReplace hash room canResize d key val
      return d
  | .replaceRaw key val => dictReplaceRaw hash room canResize d key val
  | .deleteCurrent => do
      let (_, d) ← dictDelete hash d cur
      return d

theorem dictDelete_moves (hpaused : d.iterators ≠ 0) (hdeletes : deletes)
    {r : Bool × Dict K V} (hrun : dictDelete hash d cur = .ok r) : Moves cur deletes d r.2 := by
  unfold dictDelete at hrun
  split at hrun
  · cases hrun
    exact .refl d
  rw [rehashStep_paused hpaused, ok_bind] at hrun
  obtain ⟨he, hchain, hrun⟩ := bind_eq_ok.mp hrun
  have hchain := chain_eq_ok hchain
  split at hrun
  next hkey =>
    cases hrun
    apply moves_setFirst hchain
    rw [List.keys_kerase]
    exact .single (.erase hdeletes (getElem?_bucketKeys_first hchain) hkey)
  split at hrun
  · cases hrun
    exact .refl d
  obtain ⟨he₁, hchain₁, hrun⟩ := bind_eq_ok.mp hrun
  have hchain₁ := chain_eq_ok hchain₁
  split at hrun
  next hkey =>
    cases hrun
    apply moves_setSecond
    rw [List.keys_kerase]
    exact .single (.erase hdeletes (getElem?_bucketKeys_second hchain₁) hkey)
  next =>
    cases hrun
    exact .refl d

theorem iterStep_spec {room : Nat} (hroom : room ≤ 2 ^ 31) (canResize : Bool)
    (hd : d.Valid hash) (hpaused : d.iterators ≠ 0) (hsize : d.ht0.size ≠ 0) (cur : K)
    (op : IterOp K V) :
    Ensures outOfMemory
      (fun d' => d'.Valid hash ∧ Moves cur (op = .deleteCurrent) d d')
      (iterStep hash room canResize cur d op) := by
  cases op with
  | find key =>
      obtain ⟨p, d', hfind, htouched, -⟩ := dictFind_spec hd key
      have hsame : d' = d := dictFind_paused hpaused hfind
      rw [iterStep, hfind, hsame]
      exact ⟨hd, .refl d⟩
  | add key val =>
      apply ((dictAddRaw_spec hroom canResize hd key val).and_of_ok fun r =>
        dictAddRaw_moves hroom hd hpaused hsize).bind
      rintro ⟨added, d'⟩ ⟨⟨-, -, hsame, hnew⟩, hmoves⟩
      cases added with
      | true => exact ⟨(hnew rfl).1, hmoves⟩
      | false => exact ⟨(hsame rfl).valid, hmoves⟩
  | replace key val =>
      apply ((dictReplace_spec hroom canResize hd key val).and_of_ok fun r =>
        dictReplace_moves hroom hd hpaused hsize).bind
      rintro ⟨added, d'⟩ ⟨⟨-, hvalid, -⟩, hmoves⟩
      exact ⟨hvalid, hmoves⟩
  | replaceRaw key val =>
      apply ((dictReplaceRaw_spec hroom canResize hd key val).and_of_ok fun r =>
        dictReplaceRaw_moves hroom hd hpaused hsize).mono
      rintro d' ⟨⟨hvalid, -⟩, hmoves⟩
      exact ⟨hvalid, hmoves⟩
  | deleteCurrent =>
      obtain ⟨deleted, d', hdelete, hvalid, -⟩ := dictDelete_spec hd cur
      rw [iterStep, hdelete]
      exact ⟨hvalid, dictDelete_moves hpaused rfl hdelete⟩

/-! ## Whole iterations -/

/-- What is done at one key, with the flag of `dict.c` at each time. -/
def iterSteps (hash : K → UInt32) (room : Nat) (cur : K) :
    List (Bool × IterOp K V) → Dict K V → Except Fault (Dict K V)
  | [], d => .ok d
  | (canResize, op) :: rest, d => do
      let d ← iterStep hash room canResize cur d op
      iterSteps hash room cur rest d

/-- An iteration that does something at every key it comes to: the entries that are returned, and
whether it came to its end. -/
def iterRun (hash : K → UInt32) (room : Nat) :
    List (List (Bool × IterOp K V)) → Dict K V → DictIterator K →
      Except Fault (List (DictEntry K V) × Bool × Dict K V)
  | [], d, _ => .ok ([], false, d)
  | ops :: rounds, d, iter => do
      match ← dictNext d iter with
      | (none, _, d) => return ([], true, d)
      | (some e, iter, d) =>
          let d ← iterSteps hash room e.1 ops d
          let (entries, finished, d) ← iterRun hash room rounds d iter
          return (e :: entries, finished, d)

theorem Moves.mono {deletes' : Prop} (h : Moves cur deletes d d') (himp : deletes → deletes') :
    Moves cur deletes' d d' := by
  refine ⟨h.iterators, h.size0, h.rehashing, h.keys.lift id ?_⟩
  intro keys keys' hstep
  cases hstep with
  | grow n => exact .grow _ n
  | push hchain hk => exact .push hchain hk
  | erase hdeletes hchain hk => exact .erase (himp hdeletes) hchain hk

theorem iterSteps_spec {room : Nat} (hroom : room ≤ 2 ^ 31) (hd : d.Valid hash)
    (hpaused : d.iterators ≠ 0) (hsize : d.ht0.size ≠ 0) (cur : K)
    (ops : List (Bool × IterOp K V)) :
    Ensures outOfMemory
      (fun d' => d'.Valid hash ∧ Moves cur (.deleteCurrent ∈ ops.map Prod.snd) d d')
      (iterSteps hash room cur ops d) := by
  induction ops generalizing d with
  | nil => exact ⟨hd, .refl d⟩
  | cons head rest ih =>
      obtain ⟨canResize, op⟩ := head
      apply (iterStep_spec hroom canResize hd hpaused hsize cur op).bind
      rintro d₁ ⟨hd₁, hmoves⟩
      apply (ih hd₁ (by rwa [hmoves.iterators]) (by rwa [hmoves.size0])).mono
      rintro d₂ ⟨hd₂, hmoves₂⟩
      refine ⟨hd₂, (hmoves.mono ?_).trans (hmoves₂.mono (List.mem_cons_of_mem _))⟩
      rintro rfl
      exact List.mem_cons_self

variable {iter : DictIterator K}

theorem keys_pending {idx : Nat} (hentry : iter.entry = some cur) (hindex : iter.index = some idx) :
    (d.pending iter).keys =
      keysAhead d.bucketKeys (d.bucketNumber iter.table idx) iter.nextEntry := by
  rw [pending, hentry, hindex]
  exact keys_ahead _ _ _

omit [DecidableEq K] in
theorem nodup_bucketKeys (hd : d.Valid hash) : d.bucketKeys.flatten.Nodup := by
  rw [flatten_bucketKeys]
  exact hd.nodupKeys

theorem pending_sublist (d : Dict K V) (iter : DictIterator K) :
    (d.pending iter).Sublist d.entries := by
  rw [← flatten_buckets, pending]
  split
  · exact ahead_sublist _ _ _
  · exact flatten_drop_sublist _ _

/-- The walk of an iterator that stands at a key. -/
theorem Standing.walking (hd : d.Valid hash) (hst : Standing d iter) {idx : Nat}
    (hentry : iter.entry = some cur) (hindex : iter.index = some idx)
    (hcur : cur ∉ (d.pending iter).keys) :
    Walking cur (d.bucketNumber iter.table idx) iter.nextEntry d.bucketKeys := by
  obtain ⟨chain, hchain, hnext⟩ := hst.bucket cur idx hentry hindex
  obtain ⟨hidx, -⟩ := List.getElem?_eq_some_iff.mp hchain
  have hbucket := (getElem?_buckets hidx).trans hchain
  have hkeys : d.bucketKeys[d.bucketNumber iter.table idx]? = some chain.keys := by
    rw [bucketKeys, List.getElem?_map, hbucket]
    rfl
  obtain ⟨hwithin, -⟩ := List.getElem?_eq_some_iff.mp hkeys
  refine ⟨nodup_bucketKeys hd, hwithin, ?_, ?_⟩
  · intro hsame
    apply hcur
    obtain ⟨e, rest, heq, rfl⟩ := fromPointer_eq_cons (hnext cur hsame)
    rw [pending, hentry, hindex, hsame]
    dsimp only
    rw [ahead, List.getD_eq_getElem?_getD, hbucket]
    change e.1 ∈ (fromPointer (some e.1) chain ++ _).keys
    rw [heq]
    exact List.mem_cons_self
  · intro k hk
    rw [List.getD_eq_getElem?_getD, hkeys]
    exact hnext k hk

omit [DecidableEq K] in
theorem standing_of_walking {idx : Nat} (hindex : iter.index = some idx)
    (hsecond : iter.table = true → dictIsRehashing d = true)
    (hfirst : iter.table = false → idx < d.ht0.size)
    (hw : Walking cur (d.bucketNumber iter.table idx) iter.nextEntry d.bucketKeys) :
    Standing d iter := by
  have hwithin : idx < (d.tableAt iter.table).size := by
    cases htable : iter.table with
    | false => exact hfirst htable
    | true =>
        have hlt := hw.within
        rw [htable, bucketKeys, List.length_map, length_buckets] at hlt
        exact Nat.lt_of_add_lt_add_left hlt
  obtain ⟨chain, hchain, -⟩ := Dictht.chain_of_lt hwithin
  have hbucket := (getElem?_buckets hwithin).trans hchain
  refine ⟨?_, hsecond, ?_, ?_⟩
  · intro hnone
    rw [hindex] at hnone
    cases hnone
  · intro idx' hidx'
    rw [hindex] at hidx'
    cases hidx'
    exact hwithin
  · intro _ idx' _ hidx'
    rw [hindex] at hidx'
    cases hidx'
    refine ⟨chain, hchain, ?_⟩
    intro next hnext
    have hmem := hw.next_mem next hnext
    rwa [List.getD_eq_getElem?_getD, bucketKeys, List.getElem?_map, hbucket] at hmem

/-- A walk goes on over any number of changes. -/
theorem walking_run {keys keys' : List (List K)} {i : Nat} {next : Option K}
    (hrun : ReflTransGen (KeyStep cur deletes) keys keys') (hw : Walking cur i next keys) :
    Walking cur i next keys' ∧
      (∀ x ≠ cur, x ∈ keysAhead keys i next → x ∈ keysAhead keys' i next) ∧
      ∀ x, (deletes → x ≠ cur) → x ∈ keys.flatten → x ∉ keysAhead keys i next →
        x ∈ keys'.flatten ∧ x ∉ keysAhead keys' i next := by
  induction hrun with
  | refl => exact ⟨hw, fun _ _ h => h, fun _ _ h hx => ⟨h, hx⟩⟩
  | tail _ hstep ih =>
      obtain ⟨hw', hahead, hbehind⟩ := ih
      refine ⟨hstep.walking hw', ?_, ?_⟩
      · intro x hne hx
        exact hstep.ahead hw' hne (hahead x hne hx)
      · intro x hkeep hx hnot
        obtain ⟨hx', hnot'⟩ := hbehind x hkeep hx hnot
        exact hstep.behind hw' hkeep hx' hnot'

/-- What an iteration from here on does: it comes by every key that is ahead, and it does not
come by the others. A key that is not deleted when it is returned is not returned again. -/
structure Covers (d : Dict K V) (iter : DictIterator K) (rounds : List (List (Bool × IterOp K V)))
    (entries : List (DictEntry K V)) (finished : Bool) : Prop where
  all : finished = true → ∀ k ∈ (d.pending iter).keys, k ∈ entries.keys
  others : ∀ k ∈ d.entries.keys, k ∉ (d.pending iter).keys → k ∉ entries.keys
  once : ∀ i ops e, rounds[i]? = some ops → entries[i]? = some e →
    .deleteCurrent ∉ ops.map Prod.snd → e.1 ∉ (entries.drop (i + 1)).keys

theorem iterRun_spec {room : Nat} (hroom : room ≤ 2 ^ 31) (hd : d.Valid hash)
    (hst : Standing d iter) (hcount : 0 < (d.opened iter).iterators)
    (rounds : List (List (Bool × IterOp K V))) :
    Ensures outOfMemory (fun r => Covers d iter rounds r.1 r.2.1)
      (iterRun hash room rounds d iter) := by
  induction rounds generalizing d iter with
  | nil => exact ⟨nofun, fun _ _ _ => List.not_mem_nil, nofun⟩
  | cons ops rounds ih =>
      obtain ⟨r, iter', d₁, hnext, hadv⟩ := dictNext_spec hd hst
      rw [iterRun, hnext, ok_bind]
      cases r with
      | none =>
          have hnil : d.pending iter = [] := List.head?_eq_none_iff.mp hadv.entry.symm
          refine ⟨?_, fun _ _ _ => List.not_mem_nil, nofun⟩
          rintro - k hk
          rw [hnil] at hk
          cases hk
      | some e =>
          obtain ⟨hpending, hst', hentry⟩ := hadv.next e rfl
          have hstarted := hadv.started
          obtain ⟨n, hopened⟩ := exists_opened d iter
          have hd₁ : d₁.Valid hash := by
            rw [hadv.dict, hopened]
            exact hd.setIterators n
          have hentries : d₁.entries = d.entries := by
            rw [hadv.dict, hopened]
            rfl
          have hsplit : d.pending iter = e :: d₁.pending iter' := by
            rw [hpending]
            exact List.eq_cons_of_mem_head? hadv.entry.symm
          have hmem : e.1 ∈ d₁.entries.keys := by
            rw [hentries]
            apply List.mem_keys_of_mem
            exact (pending_sublist d iter).subset (hsplit ▸ List.mem_cons_self)
          have hnodup : (d.pending iter).keys.Nodup :=
            hd.nodupKeys.sublist (pending_sublist d iter)
          rw [hsplit] at hnodup
          have hcur : e.1 ∉ (d₁.pending iter').keys := (List.nodup_cons.mp hnodup).1
          obtain ⟨idx, hindex⟩ := Option.isSome_iff_exists.mp hstarted
          have hw := hst'.walking hd₁ hentry hindex hcur
          have hcount₁ : d₁.iterators ≠ 0 := by
            rw [hadv.dict]
            exact hcount.ne'
          have hsize : d₁.ht0.size ≠ 0 := by
            apply hd₁.size_ne_of_dictSize
            rw [hd₁.dictSize_eq]
            intro hzero
            rw [List.length_eq_zero_iff.mp hzero] at hmem
            cases hmem
          apply (iterSteps_spec hroom hd₁ hcount₁ hsize e.1 ops).bind
          rintro d₂ ⟨hd₂, hmoves⟩
          obtain ⟨hw₂, hahead, hbehind⟩ := walking_run hmoves.keys hw
          have hnumber : d₂.bucketNumber iter'.table idx = d₁.bucketNumber iter'.table idx := by
            rw [bucketNumber, bucketNumber, hmoves.size0]
          rw [flatten_bucketKeys, flatten_bucketKeys, ← keys_pending hentry hindex, ← hnumber,
            ← keys_pending hentry hindex] at hbehind
          rw [← keys_pending hentry hindex, ← hnumber, ← keys_pending hentry hindex] at hahead
          rw [← hnumber] at hw₂
          have hst₂ : Standing d₂ iter' := by
            apply standing_of_walking hindex (hmoves.rehashing ∘ hst'.second) ?_ hw₂
            intro htable
            have hwithin := hst'.within idx hindex
            rw [htable] at hwithin
            rw [hmoves.size0]
            exact hwithin
          have hcount₂ : 0 < (d₂.opened iter').iterators := by
            rw [opened, hindex]
            change 0 < d₂.iterators
            rw [hmoves.iterators, hadv.dict]
            exact hcount
          apply (ih hd₂ hst₂ hcount₂).bind
          rintro ⟨entries, finished, d₃⟩ hcovers
          refine ⟨?_, ?_, ?_⟩
          · intro hfinished k hk
            rw [hsplit] at hk
            obtain rfl | hk := List.mem_cons.mp hk
            · exact List.mem_cons_self
            · have hne : k ≠ e.1 := fun h => hcur (h ▸ hk)
              exact List.mem_cons_of_mem _ (hcovers.all hfinished k (hahead k hne hk))
          · intro k hk hnot
            rw [hsplit] at hnot
            have hne : k ≠ e.1 := fun h => hnot (h ▸ List.mem_cons_self)
            rw [← hentries] at hk
            obtain ⟨hk₂, hnot₂⟩ :=
              hbehind k (fun _ => hne) hk fun h => hnot (List.mem_cons_of_mem _ h)
            exact List.not_mem_cons_of_ne_of_not_mem hne (hcovers.others k hk₂ hnot₂)
          · intro i ops' e' hops he' hkeep
            cases i with
            | zero =>
                cases hops
                cases he'
                obtain ⟨hk₂, hnot₂⟩ := hbehind e.1 (fun h => absurd h hkeep) hmem hcur
                exact hcovers.others e.1 hk₂ hnot₂
            | succ i => exact hcovers.once i ops' e' hops he' hkeep

/-- A safe iteration that comes to its end has returned every key of the start, whatever was read,
added, replaced or deleted at the keys on the way. A key that was not deleted at its turn is
returned once. -/
theorem safe_iteration_covers {room : Nat} (hroom : room ≤ 2 ^ 31) (hd : d.Valid hash)
    (hcount : 0 ≤ d.iterators) (rounds : List (List (Bool × IterOp K V))) :
    Ensures outOfMemory
      (fun r =>
        (r.2.1 = true → ∀ k ∈ d.entries.keys, k ∈ r.1.keys) ∧
        ∀ i ops e, rounds[i]? = some ops → r.1[i]? = some e →
          .deleteCurrent ∉ ops.map Prod.snd → e.1 ∉ (r.1.drop (i + 1)).keys)
      (iterRun hash room rounds d dictGetSafeIterator) := by
  have hopened : 0 < (d.opened dictGetSafeIterator).iterators := Int.lt_add_one_of_le hcount
  apply (iterRun_spec hroom hd (standing_start d) hopened rounds).mono
  intro r hcovers
  refine ⟨?_, hcovers.once⟩
  rw [← pending_start]
  exact hcovers.all

/-- A dictionary of four keys. -/
def fourKeys : List (Bool × DictOp Nat Nat) := [0, 1, 2, 3].map fun n => (true, .add n n)

/-- The first key is deleted at its turn, and of two new ones the second begins a rehash. -/
def deletingRounds : List (List (Bool × IterOp Nat Nat)) :=
  [[(true, .deleteCurrent), (true, .add 4 4), (true, .add 5 5)], [(true, .find 1)],
    [(true, .replace 2 7)], [], [], []]

theorem safe_iteration_covers_deleting :
    ∃ replies d r, dictRun sampleHash 16 fourKeys dictCreate = .ok (replies, d) ∧
      iterRun sampleHash 16 deletingRounds d dictGetSafeIterator = .ok r ∧ r.2.1 = true ∧
      (r.2.1 = true → ∀ k ∈ d.entries.keys, k ∈ r.1.keys) ∧
      ∀ i ops e, deletingRounds[i]? = some ops → r.1[i]? = some e →
        .deleteCurrent ∉ ops.map Prod.snd → e.1 ∉ (r.1.drop (i + 1)).keys := by
  refine ⟨_, _, _, rfl, rfl, rfl, ?_⟩
  have hd := (@dictRun_spec Nat Nat sampleHash _ 16 (by decide) fourKeys _ valid_create).of_ok rfl
  have hroom : 16 ≤ 2 ^ 31 := by decide
  exact (safe_iteration_covers hroom hd.1 (by decide) deletingRounds).of_ok rfl

end Blogd.Dict
