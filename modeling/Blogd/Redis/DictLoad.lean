import Blogd.Redis.DictMap

/-! # The load of a dictionary

A rehash moves at least one bucket with every operation, so that it ends before the second table
is full. Where resizing is allowed and nothing shrinks the dictionary, the table that new keys
go to never has more entries than buckets, at any stage of a rehash.
-/

namespace Blogd

open Buckets

variable {K V : Type} {hash : K → UInt32}

namespace Dict

variable {d d' : Dict K V}

/-- A dictionary that has room. During a rehash the buckets that are not moved yet count as
entries that may still come. -/
structure Loaded (d : Dict K V) : Prop where
  iterators : d.iterators = 0
  idle : d.rehashidx = none → dictSize d ≤ d.ht0.size
  busy : ∀ idx, d.rehashidx = some idx →
    idx < d.ht0.size ∧ dictSize d + (d.ht0.size - idx) ≤ d.ht1.size + 1

theorem loaded_create : (dictCreate : Dict K V).Loaded where
  iterators := rfl
  idle _ := le_refl 0
  busy _ h := by cases h

theorem Loaded.target (hl : d.Loaded) : dictSize d ≤ d.target.size := by
  cases hidx : d.rehashidx with
  | none =>
      have htarget : d.target = d.ht0 :=
        if_neg (by rw [dictIsRehashing, hidx]; exact Bool.false_ne_true)
      rw [htarget]
      exact hl.idle hidx
  | some idx =>
      have htarget : d.target = d.ht1 := if_pos (by rw [dictIsRehashing, hidx]; rfl)
      obtain ⟨hlt, hroom⟩ := hl.busy idx hidx
      rw [htarget]
      omega

theorem Loaded.of_shape (hl : d.Loaded) (hshape : SameShape d d')
    (hsize : dictSize d' ≤ dictSize d) : d'.Loaded where
  iterators := hshape.iterators.trans hl.iterators
  idle h := by
    rw [hshape.size0]
    exact hsize.trans (hl.idle (hshape.rehashidx ▸ h))
  busy idx h := by
    obtain ⟨hlt, hroom⟩ := hl.busy idx (hshape.rehashidx ▸ h)
    rw [hshape.size0, hshape.size1]
    exact ⟨hlt, by omega⟩

/-- A rehash that has an entry left has a bucket left. -/
theorem Valid.rehashidx_lt (hd : d.Valid hash) {idx : Nat} (hidx : d.rehashidx = some idx)
    (hused : d.ht0.used ≠ 0) : idx < d.ht0.size := by
  obtain ⟨-, -, hle, hempty⟩ := hd.progress idx hidx
  apply lt_of_le_of_ne hle
  rintro rfl
  apply hused
  rw [hd.first.used, ← flatten_drop_of_empty hempty, Dictht.size, List.drop_length]
  rfl

/-- A rehash step makes room for one entry. -/
theorem Rehashed.room (hd : d.Valid hash) (hl : d.Loaded) (h : Rehashed hash d d') :
    d'.iterators = 0 ∧ (d'.rehashidx = none → dictSize d' ≤ d'.ht0.size) ∧
      ∀ idx, d'.rehashidx = some idx →
        idx < d'.ht0.size ∧ dictSize d' + (d'.ht0.size - idx) ≤ d'.ht1.size := by
  have hsize := h.rearranged.size hd
  refine ⟨h.rearranged.iterators.trans hl.iterators, ?_, ?_⟩
  · intro hnone
    cases hidx : d.rehashidx with
    | none =>
        rw [h.idle hidx]
        exact hl.idle hidx
    | some idx =>
        obtain ⟨hlt, hroom⟩ := hl.busy idx hidx
        rcases h.advance idx hidx with ⟨-, hsize0⟩ | ⟨-, -, -, idx', hidx', -⟩
        · omega
        · rw [hnone] at hidx'
          cases hidx'
  · intro idx' hidx'
    cases hidx : d.rehashidx with
    | none =>
        rw [h.idle hidx, hidx] at hidx'
        cases hidx'
    | some idx =>
        obtain ⟨hlt, hroom⟩ := hl.busy idx hidx
        rcases h.advance idx hidx with ⟨hnone, -⟩ | ⟨hused, hsize0, hsize1, idx'', hidx'', hstep⟩
        · rw [hnone] at hidx'
          cases hidx'
        · rw [hidx''] at hidx'
          cases hidx'
          have hlt' := h.rearranged.valid.rehashidx_lt hidx'' hused
          refine ⟨hlt', ?_⟩
          omega

theorem Rehashed.loaded (hd : d.Valid hash) (hl : d.Loaded) (h : Rehashed hash d d') :
    d'.Loaded := by
  obtain ⟨hiter, hidle, hbusy⟩ := h.room hd hl
  refine ⟨hiter, hidle, fun idx hidx => ⟨(hbusy idx hidx).1, ?_⟩⟩
  exact (hbusy idx hidx).2.trans (Nat.le_succ _)

theorem Touched.loaded (hd : d.Valid hash) (hl : d.Loaded) (h : Touched hash d d') :
    d'.Loaded := by
  rcases h with rfl | h
  · exact hl
  · exact (h.rehashed hl.iterators).loaded hd hl

theorem Reshaped.loaded (hd : d.Valid hash) (hl : d.Loaded) (h : Reshaped hash d d')
    (hsize : dictSize d' ≤ dictSize d) : d'.Loaded := by
  obtain ⟨d₁, htouched, hshape⟩ := h
  apply (htouched.loaded hd hl).of_shape hshape
  rw [(htouched.rearranged hd).size hd]
  exact hsize

/-- An addition, of one entry at most, finds the room for it or makes it. -/
theorem Extended.loaded (hd : d.Valid hash) (hl : d.Loaded) (h : Extended hash true d d')
    (hsize : dictSize d' ≤ dictSize d + 1) : d'.Loaded := by
  obtain ⟨d₁, d₂, hstepped, hgrown, hshape⟩ := h
  have hd₁ := hstepped.rearranged.valid
  have hd₂ := hgrown.rearranged.valid
  have hsize₁ := hstepped.rearranged.size hd
  have hsize₂ := hgrown.rearranged.size hd₁
  obtain ⟨hiter, hidle, hbusy⟩ := (hstepped.rehashed hl.iterators).room hd hl
  have hiter' : d'.iterators = 0 := by
    rw [hshape.iterators, hgrown.rearranged.iterators, hiter]
  cases hidx : d₁.rehashidx with
  | some idx =>
      have hsame : d₂ = d₁ := hgrown.rehashing (hidx ▸ Option.some_ne_none idx)
      subst hsame
      obtain ⟨hlt, hroom⟩ := hbusy idx hidx
      refine ⟨hiter', ?_, ?_⟩
      · intro hnone
        rw [hshape.rehashidx, hidx] at hnone
        cases hnone
      · intro idx' hidx'
        rw [hshape.rehashidx, hidx] at hidx'
        cases hidx'
        rw [hshape.size0, hshape.size1]
        exact ⟨hlt, by omega⟩
  | none =>
      have hused₁ : d₁.ht1.used = 0 := by
        rw [hd₁.idle hidx]
        rfl
      have hfull := hidle hidx
      rcases hgrown.enough rfl hidx with ⟨hnone, hlt⟩ | ⟨hsome, hht0, hle, hgrow⟩
      · have hused₂ : d₂.ht1.used = 0 := by
          rw [hd₂.idle hnone]
          rfl
        refine ⟨hiter', ?_, ?_⟩
        · intro _
          rw [hshape.size0]
          unfold dictSize at *
          omega
        · intro idx' hidx'
          rw [hshape.rehashidx, hnone] at hidx'
          cases hidx'
      · refine ⟨hiter', ?_, ?_⟩
        · intro hnone
          rw [hshape.rehashidx, hsome] at hnone
          cases hnone
        · intro idx' hidx'
          rw [hshape.rehashidx, hsome] at hidx'
          cases hidx'
          have htable := hgrown.table
          rw [hshape.size0, hshape.size1]
          unfold dictSize at *
          rw [hht0] at *
          omega

theorem dictRehashMilliseconds_loaded (rounds : Nat) (hd : d.Valid hash) (hl : d.Loaded) :
    ∃ d', dictRehashMilliseconds hash rounds d = .ok d' ∧ d'.Valid hash ∧ d'.Loaded := by
  induction rounds generalizing d with
  | zero => exact ⟨d, rfl, hd, hl⟩
  | succ rounds ih =>
      obtain ⟨more, d₁, hrehash, hspec, -⟩ := dictRehash_spec hd (n := 100) (by decide)
      have hd₁ := hspec.rearranged.valid
      have hl₁ := hspec.loaded hd hl
      rw [dictRehashMilliseconds, hrehash, ok_bind]
      dsimp only
      split
      next => exact ih hd₁ hl₁
      next => exact ⟨d₁, rfl, hd₁, hl₁⟩

end Dict

/-- All operations but those that ask for a size and those that keep a rehash from going on. -/
def DictOp.Plain : DictOp K V → Prop
  | .resize => False
  | .expand _ => False
  | .beginIteration => False
  | .endIteration => False
  | _ => True

namespace Dict

variable {d d' : Dict K V} [DecidableEq K]

theorem length_kinsert_le (key : K) (val : V) (l : List (DictEntry K V)) :
    (l.kinsert key val).length ≤ l.length + 1 :=
  Nat.succ_le_succ (List.kerase_sublist key l).length_le

theorem length_kinsert_of_mem {key : K} {l : List (DictEntry K V)} (hkey : key ∈ l.keys)
    (val : V) : (l.kinsert key val).length = l.length := length_kerase hkey

/-- An addition that is not the overwriting of a value. -/
theorem dictAddRaw_loaded {room : Nat} (hroom : room ≤ 2 ^ 31) (hd : d.Valid hash) (hl : d.Loaded)
    (key : K) (val : V) :
    Ensures outOfMemory
      (fun r => r.1 = decide (key ∉ d.entries.keys) ∧ r.2.Valid hash ∧ r.2.Loaded)
      (dictAddRaw hash room true d key val) := by
  apply (dictAddRaw_spec hroom true hd key val).mono
  rintro ⟨added, d'⟩ ⟨hadded, hextended, hsame, hnew⟩
  have hvalid : d'.Valid hash := by
    cases added with
    | false => exact (hsame rfl).valid
    | true => exact (hnew rfl).1
  refine ⟨hadded, hvalid, hextended.loaded hd hl ?_⟩
  cases added with
  | false =>
      rw [(hsame rfl).size hd]
      exact Nat.le_succ _
  | true =>
      rw [hvalid.dictSize_eq, (hnew rfl).2.length_eq, hd.dictSize_eq]
      exact length_kinsert_le key val d.entries

theorem dictReplaceRaw_loaded {room : Nat} (hroom : room ≤ 2 ^ 31) (hd : d.Valid hash)
    (hl : d.Loaded) (key : K) (val : V) :
    Ensures outOfMemory (fun d' => d'.Valid hash ∧ d'.Loaded)
      (dictReplaceRaw hash room true d key val) := by
  obtain ⟨p, d₁, hfind, htouched, hval, hpoints⟩ := dictFind_spec hd key
  have hrearranged := htouched.rearranged hd
  have hd₁ := hrearranged.valid
  have hl₁ := htouched.loaded hd hl
  have hlookup : d₁.entries.dlookup key = p.map (·.val) :=
    (hrearranged.dlookup key).trans hval.symm
  unfold dictReplaceRaw
  rw [hfind, ok_bind]
  cases p with
  | some entry =>
      obtain ⟨d₂, hset, hvalid, hperm, hshape⟩ := dictSetVal_spec hd₁ (hpoints entry rfl) val
      dsimp only
      rw [hset]
      have hkey : key ∈ d₁.entries.keys := List.dlookup_isSome.mp (hlookup ▸ rfl)
      refine ⟨hvalid, hl₁.of_shape hshape ?_⟩
      rw [hvalid.dictSize_eq, hperm.length_eq, length_kinsert_of_mem hkey, hd₁.dictSize_eq]
  | none =>
      apply (dictAddRaw_loaded hroom hd₁ hl₁ key val).bind
      rintro ⟨added, d₂⟩ ⟨hadded, hloaded⟩
      have hfresh : key ∉ d₁.entries.keys := List.dlookup_eq_none.mp hlookup
      dsimp only at hadded ⊢
      rw [decide_eq_true hfresh] at hadded
      rw [if_pos hadded]
      exact hloaded

theorem dictStep_loaded {room : Nat} (hroom : room ≤ 2 ^ 31) (hd : d.Valid hash)
    (hl : d.Loaded) {op : DictOp K V} (hop : op.Plain) :
    Ensures outOfMemory (fun r => r.2.Valid hash ∧ r.2.Loaded)
      (dictStep hash room true d op) := by
  cases op with
  | find key =>
      obtain ⟨p, d', hfind, htouched, -, -⟩ := dictFind_spec hd key
      rw [dictStep, hfind]
      exact ⟨(htouched.rearranged hd).valid, htouched.loaded hd hl⟩
  | add key val =>
      apply (dictAddRaw_loaded hroom hd hl key val).bind
      rintro ⟨added, d'⟩ ⟨-, hloaded⟩
      exact hloaded
  | replace key val =>
      apply (dictReplace_spec hroom true hd key val).bind
      rintro ⟨added, d'⟩ ⟨-, hvalid, hperm, hrewritten⟩
      have hlength : dictSize d' = (d.entries.kinsert key val).length := by
        rw [hvalid.dictSize_eq, hperm.length_eq]
      refine ⟨hvalid, ?_⟩
      rcases hrewritten with hextended | ⟨d₁, hkey, hextended, hrearranged, hreshaped⟩
      · apply hextended.loaded hd hl
        rw [hlength, hd.dictSize_eq]
        exact length_kinsert_le key val d.entries
      · have hsize₁ := hrearranged.size hd
        apply hreshaped.loaded hrearranged.valid
        · exact hextended.loaded hd hl (hsize₁.symm ▸ Nat.le_succ _)
        · rw [hlength, hsize₁, hd.dictSize_eq, length_kinsert_of_mem hkey]
  | delete key =>
      obtain ⟨deleted, d', hdelete, hvalid, -, hperm, hreshaped⟩ := dictDelete_spec hd key
      rw [dictStep, hdelete]
      refine ⟨hvalid, hreshaped.loaded hd hl ?_⟩
      rw [hvalid.dictSize_eq, hd.dictSize_eq, hperm.length_eq]
      exact (List.kerase_sublist key d.entries).length_le
  | rehash rounds =>
      obtain ⟨d', hrehash, hvalid, hloaded⟩ := dictRehashMilliseconds_loaded rounds hd hl
      rw [dictStep, hrehash]
      exact ⟨hvalid, hloaded⟩
  | replaceRaw key val =>
      apply (dictReplaceRaw_loaded hroom hd hl key val).bind
      exact fun _ hloaded => hloaded
  | empty => exact ⟨valid_create, loaded_create⟩
  | resize => exact hop.elim
  | expand => exact hop.elim
  | beginIteration => exact hop.elim
  | endIteration => exact hop.elim

theorem dictRun_loaded {room : Nat} (hroom : room ≤ 2 ^ 31) {ops : List (DictOp K V)}
    (hops : ∀ op ∈ ops, op.Plain) (hd : d.Valid hash) (hl : d.Loaded) :
    Ensures outOfMemory (fun r => r.2.Valid hash ∧ r.2.Loaded)
      (dictRun hash room (ops.map fun op => (true, op)) d) := by
  induction ops generalizing d with
  | nil => exact ⟨hd, hl⟩
  | cons op rest ih =>
      apply (dictStep_loaded hroom hd hl (hops op List.mem_cons_self)).bind
      rintro ⟨reply, d₁⟩ ⟨hd₁, hl₁⟩
      apply (ih (fun op' hop' => hops op' (List.mem_cons_of_mem _ hop')) hd₁ hl₁).bind
      rintro ⟨replies, d₂⟩ h
      exact h

/-- With resizing allowed, a dictionary that is searched, filled, overwritten, emptied and rehashed,
but neither resized nor walked, has at least as many buckets as entries in the table that new keys
go to. -/
theorem dictSize_le_target {room : Nat} (hroom : room ≤ 2 ^ 31) {ops : List (DictOp K V)}
    (hops : ∀ op ∈ ops, op.Plain) :
    Ensures outOfMemory (fun r => dictSize r.2 ≤ r.2.target.size)
      (dictRun hash room (ops.map fun op => (true, op)) dictCreate) :=
  (dictRun_loaded hroom hops valid_create loaded_create).mono fun _ h => h.2.target

/-- Five keys, the last of which begins a rehash. -/
def rehashingOps : List (DictOp Nat Nat) := [0, 1, 2, 3, 4].map fun n => .add n n

theorem dictSize_le_target_sample :
    ∃ r, dictRun sampleHash 8 (rehashingOps.map fun op => (true, op)) dictCreate = .ok r ∧
      dictSize r.2 ≤ r.2.target.size := by
  have hplain : ∀ op ∈ rehashingOps, op.Plain := by
    intro op hop
    obtain ⟨n, -, rfl⟩ := List.mem_map.mp hop
    trivial
  exact ⟨_, rfl, (@dictSize_le_target Nat Nat sampleHash _ 8 (by decide) _ hplain).of_ok rfl⟩

end Dict

end Blogd
