import Blogd.Foundation.Reversal
import Blogd.Redis.DictMap

/-! # Scanning a dictionary

A scan walks a dictionary call by call with nothing but a cursor, while the dictionary changes
between the calls. The cursor counts the low bits of the hash backwards, so that a table which
grows in between is continued where the scan stood. Keys that stay are returned as long as no
table is smaller than at an earlier call. Where the dictionary is being shrunk a key can be
missed.
-/

namespace Blogd

open Reversal

/-! ## Reversing a cursor -/

/-- One round of `rev`, which swaps neighbouring groups of bits. -/
def swapGroups (mask v : BitVec 64) (s : Nat) : BitVec 64 :=
  ((v >>> s) &&& mask) ||| ((v <<< s) &&& ~~~mask)

/-- The loop of `rev`, with the shift halved each time. -/
def revLoop : List Nat → BitVec 64 → BitVec 64 → BitVec 64
  | [], _, v => v
  | s :: rest, mask, v =>
      let mask := mask ^^^ (mask <<< s)
      revLoop rest mask (swapGroups mask v s)

/-- `rev` -/
def rev (v : BitVec 64) : BitVec 64 := revLoop [32, 16, 8, 4, 2, 1] (BitVec.allOnes 64) v

/-- Swapping groups of a power of two of bits flips one bit of every index. -/
theorem getLsbD_swapGroups {mask : BitVec 64} {s : Nat}
    (hmask : ∀ i < 64, if mask.getLsbD i then i ^^^ s = s + i ∧ s + i < 64
      else s ≤ i ∧ i ^^^ s = i - s) (v : BitVec 64) {i : Nat} (hi : i < 64) :
    (swapGroups mask v s).getLsbD i = v.getLsbD (i ^^^ s) := by
  have hbit := hmask i hi
  rw [swapGroups, BitVec.getLsbD_or, BitVec.getLsbD_and, BitVec.getLsbD_and,
    BitVec.getLsbD_ushiftRight, BitVec.getLsbD_shiftLeft, BitVec.getLsbD_not]
  split at hbit
  next hset =>
    rw [hset, hbit.1]
    simp
  next hclear =>
    rw [Bool.not_eq_true] at hclear
    rw [hclear, hbit.2, decide_eq_true hi]
    simp [Nat.not_lt.mpr hbit.1]

theorem rev_eq_reverse (v : BitVec 64) : rev v = v.reverse := by
  have hstages : rev v = swapGroups 0x5555555555555555#64 (swapGroups 0x3333333333333333#64
      (swapGroups 0x0f0f0f0f0f0f0f0f#64 (swapGroups 0x00ff00ff00ff00ff#64
      (swapGroups 0x0000ffff0000ffff#64 (swapGroups 0x00000000ffffffff#64 v 32) 16) 8) 4) 2) 1 := by
    simp only [rev, revLoop]
    congr 1
  have hflip : ∀ i < 64, ((((((i ^^^ 1) ^^^ 2) ^^^ 4) ^^^ 8) ^^^ 16) ^^^ 32) = 63 - i := by decide
  have hlt : ∀ i < 64, ∀ s ∈ [1, 2, 4, 8, 16, 32], i ^^^ s < 64 := by decide
  apply BitVec.eq_of_getLsbD_eq
  intro i hi
  have h₁ := hlt i hi 1 (by decide)
  have h₂ := hlt _ h₁ 2 (by decide)
  have h₄ := hlt _ h₂ 4 (by decide)
  have h₈ := hlt _ h₄ 8 (by decide)
  have h₁₆ := hlt _ h₈ 16 (by decide)
  rw [hstages, getLsbD_swapGroups (by decide) _ hi, getLsbD_swapGroups (by decide) _ h₁,
    getLsbD_swapGroups (by decide) _ h₂, getLsbD_swapGroups (by decide) _ h₄,
    getLsbD_swapGroups (by decide) _ h₈, getLsbD_swapGroups (by decide) _ h₁₆, hflip i hi,
    BitVec.getLsbD_reverse, BitVec.getMsbD, decide_eq_true hi, Bool.true_and]

/-! ## One call -/

variable {K V : Type}

/-- The chain at `t->table[v & mask]`, which `fn` is called on. -/
def emitAt (t : Dictht K V) (v : BitVec 64) : Except Fault (List (DictEntry K V)) :=
  t.chain (v &&& BitVec.ofNat 64 t.sizemask).toNat

/-- The loop over the expansions of the cursor in the larger table. -/
def scanLoop (t1 : Dictht K V) (m0 m1 : BitVec 64) :
    Nat → BitVec 64 → Except Fault (List (DictEntry K V) × BitVec 64)
  | 0, _ => .error .endless
  | fuel + 1, v => do
      let de ← emitAt t1 v
      let v := (((v ||| m0) + 1) &&& ~~~m0) ||| (v &&& m0)
      if v &&& (m0 ^^^ m1) = 0#64 then return (de, v)
      else
        let (rest, v) ← scanLoop t1 m0 m1 fuel v
        return (de ++ rest, v)

/-- The smaller of the tables. -/
def Dict.smaller (d : Dict K V) : Dictht K V :=
  if dictIsRehashing d ∧ d.ht1.size < d.ht0.size then d.ht1 else d.ht0

/-- The larger of the tables. -/
def Dict.larger (d : Dict K V) : Dictht K V :=
  if dictIsRehashing d ∧ d.ht1.size < d.ht0.size then d.ht0 else d.ht1

/-- `dictScan`, with the entries that `fn` is called on. -/
def dictScan (d : Dict K V) (v : BitVec 64) :
    Except Fault (List (DictEntry K V) × BitVec 64) :=
  if dictSize d = 0 then .ok ([], 0)
  else do
    let t0 := d.smaller
    let m0 := BitVec.ofNat 64 t0.sizemask
    let de ← emitAt t0 v
    if dictIsRehashing d then
      let t1 := d.larger
      let (rest, v) ← scanLoop t1 m0 (BitVec.ofNat 64 t1.sizemask) t1.size v
      return (de ++ rest, rev (rev (v ||| ~~~m0) + 1))
    else return (de, rev (rev (v ||| ~~~m0) + 1))

/-! ## Masks -/

section Mask

variable {n : Nat}

theorem toNat_ofNat_mask (hn : n ≤ 31) : (BitVec.ofNat 64 (2 ^ n - 1)).toNat = 2 ^ n - 1 := by
  have hpow : 2 ^ n ≤ 2 ^ 31 := Nat.pow_le_pow_right (by decide) hn
  rw [BitVec.toNat_ofNat, Nat.mod_eq_of_lt]
  omega

theorem toNat_and_mask (hn : n ≤ 31) (v : BitVec 64) :
    (v &&& BitVec.ofNat 64 (2 ^ n - 1)).toNat = v.toNat % 2 ^ n := by
  rw [BitVec.toNat_and, toNat_ofNat_mask hn, Nat.and_two_pow_sub_one_eq_mod]

theorem sizemask_eq {t : Dictht K V} (hsize : t.size = 2 ^ n) : t.sizemask = 2 ^ n - 1 := by
  rw [Dictht.sizemask, hsize]

theorem slot_eq {t : Dictht K V} (hsize : t.size = 2 ^ n) (h : UInt32) :
    t.slot h = h.toNat % 2 ^ n := by
  rw [Dictht.slot, sizemask_eq hsize, Nat.and_two_pow_sub_one_eq_mod]

theorem getLsbD_mask (hn : n ≤ 31) (i : Nat) :
    (BitVec.ofNat 64 (2 ^ n - 1)).getLsbD i = decide (i < n) := by
  rw [← BitVec.testBit_toNat, toNat_ofNat_mask hn, Nat.testBit_two_pow_sub_one]

theorem toNat_or_mask (hn : n ≤ 31) (v : BitVec 64) :
    (v ||| BitVec.ofNat 64 (2 ^ n - 1)).toNat = 2 ^ n * (v.toNat / 2 ^ n) + (2 ^ n - 1) := by
  have hlt : 2 ^ n - 1 < 2 ^ n := Nat.sub_lt (Nat.two_pow_pos n) Nat.one_pos
  apply Nat.eq_of_testBit_eq
  intro i
  rw [Nat.testBit_two_pow_mul_add _ hlt, Nat.testBit_two_pow_sub_one, Nat.testBit_div_two_pow,
    BitVec.testBit_toNat, BitVec.getLsbD_or, getLsbD_mask hn]
  split
  next hi => rw [decide_eq_true hi, Bool.or_true]
  next hi =>
    rw [decide_eq_false hi, Bool.or_false, Nat.sub_add_cancel (Nat.not_lt.mp hi),
      BitVec.testBit_toNat]

theorem toNat_and_not_or (hn : n ≤ 31) (x v : BitVec 64) :
    ((x &&& ~~~BitVec.ofNat 64 (2 ^ n - 1)) ||| (v &&& BitVec.ofNat 64 (2 ^ n - 1))).toNat =
      2 ^ n * (x.toNat / 2 ^ n) + v.toNat % 2 ^ n := by
  apply Nat.eq_of_testBit_eq
  intro i
  rw [Nat.testBit_two_pow_mul_add _ (Nat.mod_lt _ (Nat.two_pow_pos n)), Nat.testBit_mod_two_pow,
    Nat.testBit_div_two_pow, BitVec.testBit_toNat, BitVec.getLsbD_or, BitVec.getLsbD_and,
    BitVec.getLsbD_and, BitVec.getLsbD_not, getLsbD_mask hn]
  split
  next hi => simp [hi, BitVec.testBit_toNat]
  next hi =>
    rw [Nat.sub_add_cancel (Nat.not_lt.mp hi), BitVec.testBit_toNat, decide_eq_false hi]
    rcases Nat.lt_or_ge i 64 with hlt | hge
    · simp [hlt]
    · simp [BitVec.getLsbD_of_ge x i hge]

/-- The bits above the smaller mask are counted up by one. -/
theorem toNat_advance (hn : n ≤ 31) {v : BitVec 64} (hv : v.toNat + 2 ^ n < 2 ^ 64) :
    ((((v ||| BitVec.ofNat 64 (2 ^ n - 1)) + 1) &&& ~~~BitVec.ofNat 64 (2 ^ n - 1)) |||
      (v &&& BitVec.ofNat 64 (2 ^ n - 1))).toNat = v.toNat + 2 ^ n := by
  have hpos := Nat.two_pow_pos n
  have hsplit := Nat.div_add_mod v.toNat (2 ^ n)
  have hmod := Nat.mod_lt v.toNat hpos
  have hnext : 2 ^ n * (v.toNat / 2 ^ n) + (2 ^ n - 1) + 1 = 2 ^ n * (v.toNat / 2 ^ n + 1) := by
    rw [Nat.mul_add, Nat.mul_one]
    omega
  have hone : BitVec.toNat (1 : BitVec 64) = 1 := rfl
  have hlt : 2 ^ n * (v.toNat / 2 ^ n + 1) < 2 ^ 64 := by
    rw [Nat.mul_add, Nat.mul_one]
    omega
  rw [toNat_and_not_or hn, BitVec.toNat_add, toNat_or_mask hn, hone, hnext,
    Nat.mod_eq_of_lt hlt, Nat.mul_div_cancel_left _ hpos, Nat.mul_add, Nat.mul_one]
  omega

/-- The bits between the masks are clear where the word stands at the first expansion. -/
theorem and_xor_masks_eq_zero {n₁ : Nat} (hn : n ≤ 31) (hn₁ : n₁ ≤ 31) (hle : n ≤ n₁)
    (v : BitVec 64) :
    v &&& (BitVec.ofNat 64 (2 ^ n - 1) ^^^ BitVec.ofNat 64 (2 ^ n₁ - 1)) = 0#64 ↔
      v.toNat % 2 ^ n₁ < 2 ^ n := by
  have hbits : ∀ i, (v &&& (BitVec.ofNat 64 (2 ^ n - 1) ^^^
      BitVec.ofNat 64 (2 ^ n₁ - 1))).getLsbD i = (v.getLsbD i && decide (n ≤ i ∧ i < n₁)) := by
    intro i
    rw [BitVec.getLsbD_and, BitVec.getLsbD_xor, getLsbD_mask hn, getLsbD_mask hn₁]
    congr 1
    by_cases hi : i < n
    · simp [hi, hi.trans_le hle]
    · simp [hi, Nat.not_lt.mp hi]
  constructor
  · intro hzero
    apply Nat.lt_pow_two_of_testBit
    intro i hi
    have hbit := hbits i
    rw [hzero, BitVec.getLsbD_zero] at hbit
    rw [Nat.testBit_mod_two_pow, BitVec.testBit_toNat]
    by_cases hlt : i < n₁
    · rw [decide_eq_true (show n ≤ i ∧ i < n₁ from ⟨hi, hlt⟩), Bool.and_true] at hbit
      rw [← hbit, Bool.and_false]
    · rw [decide_eq_false hlt, Bool.false_and]
  · intro hlt
    apply BitVec.eq_of_getLsbD_eq
    intro i _
    rw [hbits, BitVec.getLsbD_zero, Bool.and_eq_false_imp]
    intro hset
    apply decide_eq_false
    rintro ⟨hle', hlt'⟩
    have hbit : (v.toNat % 2 ^ n₁).testBit i = false :=
      Nat.testBit_lt_two_pow (hlt.trans_le (Nat.pow_le_pow_right (by decide) hle'))
    rw [Nat.testBit_mod_two_pow, decide_eq_true hlt', Bool.true_and, BitVec.testBit_toNat,
      hset] at hbit
    cases hbit

end Mask

theorem emitAt_spec {t : Dictht K V} {n : Nat} (hn : n ≤ 31) (hsize : t.size = 2 ^ n)
    (v : BitVec 64) :
    ∃ chain, t.table[v.toNat % 2 ^ n]? = some chain ∧ emitAt t v = .ok chain := by
  rw [emitAt, sizemask_eq hsize, toNat_and_mask hn]
  apply Dictht.chain_of_lt
  rw [hsize]
  exact Nat.mod_lt _ (Nat.two_pow_pos n)

/-- The loop runs through the expansions that are left, and ends behind the last one. -/
theorem scanLoop_spec {t : Dictht K V} {n n₁ : Nat} (hn₁ : n₁ ≤ 31) (hle : n ≤ n₁)
    (hsize : t.size = 2 ^ n₁) {base : Nat} (hbase : base < 2 ^ n) (fuel : Nat) {j : Nat}
    (hj : j < 2 ^ (n₁ - n)) (hfuel : 2 ^ (n₁ - n) ≤ j + fuel) {v : BitVec 64}
    (hv : v.toNat = 2 ^ n * j + base) :
    ∃ out v', scanLoop t (BitVec.ofNat 64 (2 ^ n - 1)) (BitVec.ofNat 64 (2 ^ n₁ - 1)) fuel v =
        .ok (out, v') ∧ v'.toNat % 2 ^ n = base ∧
      ∀ i, j ≤ i → i < 2 ^ (n₁ - n) → ∀ chain, t.table[2 ^ n * i + base]? = some chain →
        ∀ e ∈ chain, e ∈ out := by
  have hn : n ≤ 31 := hle.trans hn₁
  have hpow : 2 ^ n₁ = 2 ^ n * 2 ^ (n₁ - n) := two_pow_split hle
  have hbound : 2 ^ n₁ ≤ 2 ^ 31 := Nat.pow_le_pow_right (by decide) hn₁
  have hbound' : 2 ^ n ≤ 2 ^ 31 := Nat.pow_le_pow_right (by decide) hn
  induction fuel generalizing j v with
  | zero => omega
  | succ fuel ih =>
      have hin : 2 ^ n * j + base < 2 ^ n₁ := by
        rw [hpow]
        calc 2 ^ n * j + base < 2 ^ n * j + 2 ^ n := Nat.add_lt_add_left hbase _
          _ = 2 ^ n * (j + 1) := by rw [Nat.mul_succ]
          _ ≤ 2 ^ n * 2 ^ (n₁ - n) := Nat.mul_le_mul_left _ hj
      obtain ⟨chain, hchain, hemit⟩ := emitAt_spec hn₁ hsize v
      rw [hv, Nat.mod_eq_of_lt hin] at hchain
      have hadvance := toNat_advance hn (v := v) (by rw [hv]; omega)
      have hv' : v.toNat + 2 ^ n = 2 ^ n * (j + 1) + base := by
        rw [hv, Nat.mul_succ]
        omega
      rw [hv'] at hadvance
      rw [scanLoop, hemit, ok_bind]
      dsimp only
      have hhere : ∀ out : List (DictEntry K V), (∀ e ∈ chain, e ∈ out) → ∀ i, i = j →
          ∀ chain', t.table[2 ^ n * i + base]? = some chain' → ∀ e ∈ chain', e ∈ out := by
        rintro out hout i rfl chain' hchain'
        rw [hchain] at hchain'
        cases hchain'
        exact hout
      have hlow : (2 ^ n * (j + 1) + base) % 2 ^ n = base := by
        rw [Nat.mul_add_mod, Nat.mod_eq_of_lt hbase]
      split
      next hlast =>
        rw [and_xor_masks_eq_zero hn hn₁ hle, hadvance] at hlast
        -- the last expansion: counting up carries out of the larger mask
        have hend : 2 ^ (n₁ - n) ≤ j + 1 := by
          by_contra hmore
          have hfits : 2 ^ n * (j + 1) + base < 2 ^ n₁ := by
            rw [hpow]
            calc 2 ^ n * (j + 1) + base < 2 ^ n * (j + 1) + 2 ^ n := Nat.add_lt_add_left hbase _
              _ = 2 ^ n * (j + 1 + 1) := by rw [Nat.mul_succ (2 ^ n) (j + 1)]
              _ ≤ 2 ^ n * 2 ^ (n₁ - n) := Nat.mul_le_mul_left _ (by omega)
          rw [Nat.mod_eq_of_lt hfits, Nat.mul_succ] at hlast
          omega
        refine ⟨chain, _, rfl, hadvance ▸ hlow, ?_⟩
        intro i hi hi'
        exact hhere chain (fun e he => he) i (by omega)
      next hmore =>
        rw [and_xor_masks_eq_zero hn hn₁ hle, hadvance] at hmore
        have hj' : j + 1 < 2 ^ (n₁ - n) := by
          by_contra hge
          have hexact : j + 1 = 2 ^ (n₁ - n) := by omega
          rw [hexact, ← hpow, Nat.add_mod_left] at hmore
          exact hmore (lt_of_le_of_lt (Nat.mod_le _ _) hbase)
        obtain ⟨out, v', hloop, hbase', hall⟩ := ih hj' (by omega) hadvance
        rw [hloop, ok_bind]
        refine ⟨chain ++ out, v', rfl, hbase', ?_⟩
        intro i hi hi' chain' hchain' e he
        rcases Nat.eq_or_lt_of_le hi with rfl | hlt
        · exact hhere (chain ++ out) (fun e he => List.mem_append_left _ he) j rfl chain' hchain'
            e he
        · exact List.mem_append_right _ (hall i hlt hi' chain' hchain' e he)

namespace Dict

variable {hash : K → UInt32} {d : Dict K V}

/-- Every entry stands in the smaller table or in the larger one. -/
theorem mem_smaller_or_larger {e : DictEntry K V} (he : e ∈ d.entries) :
    e ∈ d.smaller.table.flatten ∨ e ∈ d.larger.table.flatten := by
  rw [entries, List.mem_append] at he
  unfold smaller larger
  split
  · exact he.symm
  · exact he

theorem Valid.smaller (hd : d.Valid hash) : d.smaller.Valid hash := by
  unfold Dict.smaller
  split
  · exact hd.second
  · exact hd.first

theorem Valid.larger (hd : d.Valid hash) : d.larger.Valid hash := by
  unfold Dict.larger
  split
  · exact hd.first
  · exact hd.second

theorem smaller_size_le (hbusy : dictIsRehashing d = true) : d.smaller.size ≤ d.larger.size := by
  unfold Dict.smaller Dict.larger
  split
  next h => exact h.2.le
  next h => exact Nat.not_lt.mp fun hlt => h ⟨hbusy, hlt⟩

theorem Valid.larger_size_ne (hd : d.Valid hash) (hbusy : dictIsRehashing d = true) :
    d.larger.size ≠ 0 := by
  unfold Dict.larger
  split
  · exact (hd.size_ne hbusy).1
  · exact (hd.size_ne hbusy).2

/-- The buckets of the smaller table are a power of two. -/
theorem Valid.exists_smaller_size (hd : d.Valid hash) (hsome : dictSize d ≠ 0) :
    ∃ n ≤ 31, d.smaller.size = 2 ^ n := by
  rcases hd.smaller.size with hzero | h
  · have hne := hd.size_ne_of_dictSize hsome
    unfold Dict.smaller at hzero
    split at hzero
    next h => exact absurd hzero (hd.size_ne h.1).2
    next => exact absurd hzero hne
  · exact h

/-- An entry of a sound table stands in its bucket. -/
theorem exists_chain {t : Dictht K V} (ht : t.Valid hash) {n : Nat} (hsize : t.size = 2 ^ n)
    {e : DictEntry K V} (he : e ∈ t.table.flatten) :
    ∃ chain, t.table[(hash e.1).toNat % 2 ^ n]? = some chain ∧ e ∈ chain := by
  obtain ⟨chain, hchain, hmem⟩ := List.mem_flatten.mp he
  obtain ⟨i, hi, rfl⟩ := List.mem_iff_getElem.mp hchain
  have hplace := ht.placed i _ (List.getElem?_eq_getElem hi) e hmem
  dsimp only at hplace
  rw [slot_eq hsize] at hplace
  refine ⟨t.table[i], ?_, hmem⟩
  rw [hplace]
  exact List.getElem?_eq_getElem hi

/-- One call returns every entry whose hash agrees with the cursor in the low bits that the
smaller table uses, and leaves the cursor on the next values of these bits. During a rehash the
cursor must have no other bits. -/
theorem dictScan_spec (hd : d.Valid hash) (hsome : dictSize d ≠ 0) {n : Nat} (hn : n ≤ 31)
    (hsize : d.smaller.size = 2 ^ n) {v : BitVec 64}
    (haligned : dictIsRehashing d = true → v.toNat < 2 ^ n) :
    ∃ out v', dictScan d v = .ok (out, v') ∧
      position v' = (position v / 2 ^ (64 - n) + 1) * 2 ^ (64 - n) % 2 ^ 64 ∧
      ∀ e ∈ d.entries, (hash e.1).toNat % 2 ^ n = v.toNat % 2 ^ n → e ∈ out := by
  have hn64 : n ≤ 64 := by omega
  have hmask := toNat_ofNat_mask hn
  obtain ⟨chain, hchain, hemit⟩ := emitAt_spec hn hsize v
  have hfirst : ∀ e ∈ d.smaller.table.flatten,
      (hash e.1).toNat % 2 ^ n = v.toNat % 2 ^ n → e ∈ chain := by
    intro e he hlow
    obtain ⟨chain', hchain', hmem⟩ := exists_chain hd.smaller hsize he
    rw [hlow, hchain] at hchain'
    cases hchain'
    exact hmem
  have hnext : ∀ x : BitVec 64, x.toNat % 2 ^ n = v.toNat % 2 ^ n →
      position (rev (rev (x ||| ~~~BitVec.ofNat 64 (2 ^ n - 1)) + 1)) =
        (position v / 2 ^ (64 - n) + 1) * 2 ^ (64 - n) % 2 ^ 64 := by
    intro x hx
    rw [rev_eq_reverse, rev_eq_reverse, ← (position_div_eq_iff hn64 x v).mpr hx]
    exact position_next hn64 hmask x
  unfold dictScan
  rw [if_neg hsome]
  dsimp only
  rw [hemit, ok_bind, sizemask_eq hsize]
  split
  next hbusy =>
    obtain hzero | ⟨n₁, hn₁, hsize₁⟩ := hd.larger.size
    · exact absurd hzero (hd.larger_size_ne hbusy)
    have hle : n ≤ n₁ := by
      have hle := smaller_size_le hbusy
      rw [hsize, hsize₁] at hle
      exact (Nat.pow_le_pow_iff_right (by decide)).mp hle
    have hv := haligned hbusy
    have hfuel : 2 ^ (n₁ - n) ≤ 0 + d.larger.size := by
      rw [hsize₁, Nat.zero_add]
      exact Nat.pow_le_pow_right (by decide) (Nat.sub_le _ _)
    obtain ⟨out, v', hloop, hlow', hall⟩ := scanLoop_spec hn₁ hle hsize₁ hv d.larger.size
      (Nat.two_pow_pos _) hfuel (v := v) (by rw [Nat.mul_zero, Nat.zero_add])
    rw [sizemask_eq hsize₁, hloop, ok_bind]
    refine ⟨chain ++ out, _, rfl, hnext v' ?_, ?_⟩
    · rw [hlow', Nat.mod_eq_of_lt hv]
    · intro e he hlow
      rcases mem_smaller_or_larger he with hsmall | hlarge
      · exact List.mem_append_left _ (hfirst e hsmall hlow)
      · obtain ⟨chain', hchain', hmem⟩ := exists_chain hd.larger hsize₁ hlarge
        apply List.mem_append_right
        have hpow : 2 ^ n₁ = 2 ^ n * 2 ^ (n₁ - n) := two_pow_split hle
        have hindex : 2 ^ n * ((hash e.1).toNat % 2 ^ n₁ / 2 ^ n) + v.toNat =
            (hash e.1).toNat % 2 ^ n₁ := by
          have hsplit := Nat.div_add_mod ((hash e.1).toNat % 2 ^ n₁) (2 ^ n)
          rw [hpow, Nat.mod_mul_right_mod, hlow, Nat.mod_eq_of_lt hv, ← hpow] at hsplit
          exact hsplit
        refine hall ((hash e.1).toNat % 2 ^ n₁ / 2 ^ n) (Nat.zero_le _) ?_ chain' ?_ e hmem
        · rw [Nat.div_lt_iff_lt_mul (Nat.two_pow_pos n), Nat.mul_comm, ← hpow]
          exact Nat.mod_lt _ (Nat.two_pow_pos n₁)
        · rw [hindex]
          exact hchain'
  next hidle =>
    refine ⟨chain, _, rfl, hnext v rfl, ?_⟩
    intro e he hlow
    rcases mem_smaller_or_larger he with hsmall | hlarge
    · exact hfirst e hsmall hlow
    · have hlarger : d.larger = d.ht1 := if_neg fun h => hidle h.1
      rw [hlarger, hd.flatten_second hidle] at hlarge
      cases hlarge

end Dict

/-! ## Whole scans -/

/-- Calls of `dictScan`, each on what the dictionary is at the time, with the cursor that the
call before it returned. -/
def scanCalls : List (Dict K V) → BitVec 64 → Except Fault (List (DictEntry K V) × BitVec 64)
  | [], v => .ok ([], v)
  | d :: rest, v => do
      let (out, v) ← dictScan d v
      let (later, v) ← scanCalls rest v
      return (out ++ later, v)

namespace Dict

variable {hash : K → UInt32} {d : Dict K V} {ds : List (Dict K V)} {v : BitVec 64}

/-- The place of a hash in the order of the cursors. -/
def hashPosition (h : UInt32) : Nat := position (BitVec.ofNat 64 h.toNat)

theorem toNat_wide (h : UInt32) : (BitVec.ofNat 64 h.toNat).toNat = h.toNat := by
  rw [BitVec.toNat_ofNat, Nat.mod_eq_of_lt]
  have := h.toNat_lt
  omega

/-- What one call does to a scan: every entry from the cursor's position to that of the next
cursor is returned, and the next cursor has no more bits than the smaller table uses. -/
theorem dictScan_step (hd : d.Valid hash)
    (haligned : dictSize d ≠ 0 → v.toNat < d.smaller.size) :
    ∃ out v', dictScan d v = .ok (out, v') ∧ (v'.toNat < d.smaller.size ∨ v' = 0) ∧
      ∀ e ∈ d.entries, position v ≤ hashPosition (hash e.1) →
        e ∈ out ∨ (v' ≠ 0 ∧ position v' ≤ hashPosition (hash e.1)) := by
  by_cases hsome : dictSize d = 0
  · have hnil : d.entries = [] := List.length_eq_zero_iff.mp (hd.dictSize_eq ▸ hsome)
    refine ⟨[], 0, if_pos hsome, .inr rfl, ?_⟩
    rw [hnil]
    exact fun e he => absurd he List.not_mem_nil
  · obtain ⟨n, hn, hsize⟩ := hd.exists_smaller_size hsome
    have hv := haligned hsome
    rw [hsize] at hv
    obtain ⟨out, v', hscan, hpos, hout⟩ := dictScan_spec hd hsome hn hsize fun _ => hv
    have hn64 : n ≤ 64 := by omega
    have hwhole : 2 ^ 64 = 2 ^ n * 2 ^ (64 - n) := two_pow_split hn64
    have hstart : position v' % 2 ^ (64 - n) = 0 := by
      rw [hpos, hwhole, Nat.mul_mod_mul_right, Nat.mul_mod_left]
    refine ⟨out, v', hscan, .inl (hsize ▸ lt_of_position_mod hn64 hstart), ?_⟩
    intro e he hle
    by_cases hlow : (hash e.1).toNat % 2 ^ n = v.toNat % 2 ^ n
    · exact .inl (hout e he hlow)
    · right
      -- the entry stands in a later stretch, so that the cursor does not return to the first
      have hmod := position_mod_of_lt hn64 hv
      have hdiv : position v / 2 ^ (64 - n) ≠ hashPosition (hash e.1) / 2 ^ (64 - n) := by
        intro heq
        apply hlow
        have h := (position_div_eq_iff hn64 _ _).mp heq
        rw [toNat_wide] at h
        exact h.symm
      have hless : position v / 2 ^ (64 - n) < hashPosition (hash e.1) / 2 ^ (64 - n) :=
        lt_of_le_of_ne (Nat.div_le_div_right hle) hdiv
      have hbound := position_div_lt (BitVec.ofNat 64 (hash e.1).toNat) hn64
      have hfits : (position v / 2 ^ (64 - n) + 1) * 2 ^ (64 - n) < 2 ^ 64 := by
        rw [hwhole]
        apply Nat.mul_lt_mul_of_pos_right _ (Nat.two_pow_pos _)
        unfold hashPosition at hless
        omega
      rw [Nat.mod_eq_of_lt hfits] at hpos
      have hpositive : 0 < position v' := by
        rw [hpos]
        exact Nat.mul_pos (Nat.succ_pos _) (Nat.two_pow_pos _)
      refine ⟨?_, ?_⟩
      · rintro rfl
        rw [position_zero] at hpositive
        exact absurd hpositive (Nat.lt_irrefl 0)
      · rw [hpos]
        calc (position v / 2 ^ (64 - n) + 1) * 2 ^ (64 - n)
            ≤ hashPosition (hash e.1) / 2 ^ (64 - n) * 2 ^ (64 - n) :=
              Nat.mul_le_mul_right _ hless
          _ ≤ hashPosition (hash e.1) := Nat.div_mul_le_self _ _

theorem scanCalls_spec (hvalid : ∀ d ∈ ds, d.Valid hash)
    (hgrow : ds.Pairwise fun d d' => d.smaller.size ≤ d'.smaller.size)
    (haligned : ∀ d ∈ ds, dictSize d ≠ 0 → v.toNat < d.smaller.size) :
    ∃ out v', scanCalls ds v = .ok (out, v') ∧
      (v' = 0 → ds ≠ [] → ∀ key, (∀ d ∈ ds, key ∈ d.entries.keys) →
        position v ≤ hashPosition (hash key) → key ∈ out.keys) := by
  induction ds generalizing v with
  | nil => exact ⟨[], v, rfl, fun _ h => absurd rfl h⟩
  | cons d rest ih =>
      have hd := hvalid d List.mem_cons_self
      obtain ⟨hfirst, hrest⟩ := List.pairwise_cons.mp hgrow
      obtain ⟨out, v₁, hscan, hbits, hstep⟩ :=
        dictScan_step hd (haligned d List.mem_cons_self)
      have haligned₁ : ∀ d' ∈ rest, dictSize d' ≠ 0 → v₁.toNat < d'.smaller.size := by
        intro d' hd' hsome
        rcases hbits with hlt | rfl
        · exact hlt.trans_le (hfirst d' hd')
        · obtain ⟨n, -, hsize⟩ :=
            (hvalid d' (List.mem_cons_of_mem d hd')).exists_smaller_size hsome
          rw [hsize]
          exact Nat.two_pow_pos n
      obtain ⟨later, v₂, hcalls, hlater⟩ :=
        ih (fun d' hd' => hvalid d' (List.mem_cons_of_mem d hd')) hrest haligned₁
      refine ⟨out ++ later, v₂, ?_, ?_⟩
      · rw [scanCalls, hscan, ok_bind]
        dsimp only
        rw [hcalls]
        rfl
      · intro hend _ key hkey hle
        obtain ⟨val, hval⟩ := List.mem_keys.mp (hkey d List.mem_cons_self)
        rw [List.keys_append, List.mem_append]
        rcases hstep ⟨key, val⟩ hval hle with hout | ⟨hne, hle₁⟩
        · exact .inl (List.mem_keys.mpr ⟨val, hout⟩)
        · right
          apply hlater hend _ key (fun d' hd' => hkey d' (List.mem_cons_of_mem d hd')) hle₁
          rintro rfl
          cases hcalls
          exact hne hend

/-- A call that does not end the scan moves the cursor on by a stretch. -/
theorem dictScan_advance (hd : d.Valid hash)
    (haligned : dictSize d ≠ 0 → v.toNat < d.smaller.size) {N : Nat} (hN : N ≤ 31)
    (hsize : d.smaller.size ≤ 2 ^ N) {out : List (DictEntry K V)} {v' : BitVec 64}
    (hscan : dictScan d v = .ok (out, v')) (hmore : v' ≠ 0) :
    position v + 2 ^ (64 - N) ≤ position v' := by
  have hsome : dictSize d ≠ 0 := by
    intro hzero
    rw [dictScan, if_pos hzero] at hscan
    cases hscan
    exact hmore rfl
  obtain ⟨n, hn, hsize'⟩ := hd.exists_smaller_size hsome
  have hv := haligned hsome
  rw [hsize'] at hv hsize
  obtain ⟨out', v'', hscan', hpos, -⟩ := dictScan_spec hd hsome hn hsize' fun _ => hv
  rw [hscan] at hscan'
  cases hscan'
  have hnN : n ≤ N := (Nat.pow_le_pow_iff_right (by decide)).mp hsize
  have hn64 : n ≤ 64 := by omega
  have hsplit := Nat.div_add_mod (position v) (2 ^ (64 - n))
  rw [position_mod_of_lt hn64 hv, Nat.add_zero, Nat.mul_comm] at hsplit
  rw [Nat.add_mul, Nat.one_mul, hsplit] at hpos
  have hstretch : 2 ^ (64 - N) ≤ 2 ^ (64 - n) := Nat.pow_le_pow_right (by decide) (by omega)
  rcases Nat.lt_or_ge (position v + 2 ^ (64 - n)) (2 ^ 64) with hlt | hge
  · rw [Nat.mod_eq_of_lt hlt] at hpos
    omega
  · -- a cursor past the last stretch is 0
    exfalso
    apply hmore
    apply eq_zero_of_position
    have hle : position v + 2 ^ (64 - n) ≤ 2 ^ 64 := by
      have hdiv := position_div_lt v hn64
      rw [← hsplit, ← Nat.succ_mul, two_pow_split hn64]
      exact Nat.mul_le_mul_right _ hdiv
    rw [hpos, le_antisymm hle hge, Nat.mod_self]

/-- A scan with enough calls ahead of it comes to its end. -/
theorem scanCalls_ends {N : Nat} (hN : N ≤ 31) (hvalid : ∀ d ∈ ds, d.Valid hash)
    (hgrow : ds.Pairwise fun d d' => d.smaller.size ≤ d'.smaller.size)
    (haligned : ∀ d ∈ ds, dictSize d ≠ 0 → v.toNat < d.smaller.size)
    (hsize : ∀ d ∈ ds, d.smaller.size ≤ 2 ^ N)
    (hroom : 2 ^ 64 ≤ position v + ds.length * 2 ^ (64 - N)) :
    ∃ m, 0 < m ∧ m ≤ ds.length ∧ ∃ out, scanCalls (ds.take m) v = .ok (out, 0) := by
  induction ds generalizing v with
  | nil =>
      rw [List.length_nil, Nat.zero_mul, Nat.add_zero] at hroom
      exact absurd (position_lt v) (Nat.not_lt.mpr hroom)
  | cons d rest ih =>
      have hd := hvalid d List.mem_cons_self
      obtain ⟨hfirst, hrest⟩ := List.pairwise_cons.mp hgrow
      have hhere := haligned d List.mem_cons_self
      obtain ⟨out, v₁, hscan, hbits, -⟩ := dictScan_step hd hhere
      by_cases hend : v₁ = 0
      · subst hend
        refine ⟨1, Nat.one_pos, Nat.succ_le_of_lt (Nat.zero_lt_succ _), out ++ [], ?_⟩
        rw [List.take_succ_cons, List.take_zero, scanCalls, hscan]
        rfl
      · have hlt := hbits.resolve_right hend
        have hadvance :=
          dictScan_advance hd hhere hN (hsize d List.mem_cons_self) hscan hend
        have hroom₁ : 2 ^ 64 ≤ position v₁ + rest.length * 2 ^ (64 - N) := by
          rw [List.length_cons, Nat.succ_mul] at hroom
          omega
        obtain ⟨m, hm, hle, later, hcalls⟩ := ih
          (fun d' hd' => hvalid d' (List.mem_cons_of_mem d hd')) hrest
          (fun d' hd' _ => hlt.trans_le (hfirst d' hd'))
          (fun d' hd' => hsize d' (List.mem_cons_of_mem d hd')) hroom₁
        refine ⟨m + 1, Nat.succ_pos m, Nat.succ_le_succ hle, out ++ later, ?_⟩
        rw [List.take_succ_cons, scanCalls, hscan, ok_bind]
        dsimp only
        rw [hcalls]
        rfl

/-- The cursor a scan begins with has no bits. -/
theorem zero_aligned (hvalid : ∀ d ∈ ds, d.Valid hash) :
    ∀ d ∈ ds, dictSize d ≠ 0 → (0 : BitVec 64).toNat < d.smaller.size := by
  intro d hd hsome
  obtain ⟨n, -, hsize⟩ := (hvalid d hd).exists_smaller_size hsome
  rw [hsize]
  exact Nat.two_pow_pos n

/-- A scan over a dictionary that changes between the calls, but whose smaller table is never
smaller than before and never has more than `2 ^ N` buckets, is over after at most that many
calls. Whenever its cursor is zero again, every key that was there at all calls has been
returned. -/
theorem scan_returns_every_key {N : Nat} (hN : N ≤ 31) (hvalid : ∀ d ∈ ds, d.Valid hash)
    (hgrow : ds.Pairwise fun d d' => d.smaller.size ≤ d'.smaller.size)
    (hsize : ∀ d ∈ ds, d.smaller.size ≤ 2 ^ N) (hlen : 2 ^ N ≤ ds.length) :
    (∃ m, 0 < m ∧ m ≤ 2 ^ N ∧ ∃ out, scanCalls (ds.take m) 0 = .ok (out, 0)) ∧
      ∀ m, 0 < m → ∀ out, scanCalls (ds.take m) 0 = .ok (out, 0) →
        ∀ key, (∀ d ∈ ds.take m, key ∈ d.entries.keys) → key ∈ out.keys := by
  have hsub : ∀ m, (ds.take m).Sublist ds := fun m => List.take_sublist m ds
  constructor
  · have hlength : (ds.take (2 ^ N)).length = 2 ^ N := by
      rw [List.length_take, Nat.min_eq_left hlen]
    have hroom :
        2 ^ 64 ≤ position (0 : BitVec 64) + (ds.take (2 ^ N)).length * 2 ^ (64 - N) := by
      rw [position_zero, Nat.zero_add, hlength, ← two_pow_split (by omega)]
    obtain ⟨m, hpos, hle, out, hcalls⟩ := scanCalls_ends hN
      (fun d hd => hvalid d ((hsub _).subset hd)) (hgrow.sublist (hsub _))
      (zero_aligned fun d hd => hvalid d ((hsub _).subset hd))
      (fun d hd => hsize d ((hsub _).subset hd)) hroom
    rw [hlength] at hle
    rw [List.take_take, Nat.min_eq_left hle] at hcalls
    exact ⟨m, hpos, hle, out, hcalls⟩
  · intro m hpos out hcalls key hkey
    have hvalid' : ∀ d ∈ ds.take m, d.Valid hash := fun d hd => hvalid d ((hsub m).subset hd)
    obtain ⟨out', v', hcalls', hout⟩ :=
      scanCalls_spec hvalid' (hgrow.sublist (hsub m)) (zero_aligned hvalid')
    rw [hcalls] at hcalls'
    cases hcalls'
    have hsome : ds.take m ≠ [] := by
      have hpow := Nat.two_pow_pos N
      rw [Ne, List.take_eq_nil_iff]
      rintro (rfl | rfl)
      · exact absurd hpos (Nat.lt_irrefl 0)
      · rw [List.length_nil] at hlen
        omega
    refine hout rfl hsome key hkey ?_
    rw [position_zero]
    exact Nat.zero_le _

/-- Four keys in four buckets, and the same with a fifth key that begins a rehash. -/
def scannedOps (n : Nat) : List (Bool × DictOp Nat Nat) :=
  (List.range n).map fun n => (true, .add n n)

theorem scan_returns_every_key_growing :
    ∃ d₁ d₂ r₁ r₂, dictRun sampleHash 8 (scannedOps 4) dictCreate = .ok (r₁, d₁) ∧
      dictRun sampleHash 8 (scannedOps 5) dictCreate = .ok (r₂, d₂) ∧
      (∃ m, 0 < m ∧ m ≤ 2 ^ 2 ∧ ∃ out, scanCalls ([d₁, d₂, d₂, d₂].take m) 0 = .ok (out, 0)) ∧
        ∀ m, 0 < m → ∀ out, scanCalls ([d₁, d₂, d₂, d₂].take m) 0 = .ok (out, 0) →
          ∀ key, (∀ d ∈ [d₁, d₂, d₂, d₂].take m, key ∈ d.entries.keys) → key ∈ out.keys := by
  refine ⟨_, _, _, _, rfl, rfl, ?_⟩
  have h₁ := (@dictRun_spec Nat Nat sampleHash _ 8 (by decide) (scannedOps 4) _ valid_create).of_ok
    rfl
  have h₂ := (@dictRun_spec Nat Nat sampleHash _ 8 (by decide) (scannedOps 5) _ valid_create).of_ok
    rfl
  apply @scan_returns_every_key Nat Nat sampleHash _ 2 (by decide)
  · simp only [List.mem_cons, List.not_mem_nil, or_false, forall_eq_or_imp, forall_eq]
    exact ⟨h₁.1, h₂.1, h₂.1, h₂.1⟩
  · decide
  · decide
  · decide

/-- The dictionary of sixteen buckets that the sample operations leave. -/
def sixteenBuckets : Dict Nat Nat := ⟨⟨(List.replicate 16 []).set 4 [⟨4, 4⟩], 1⟩, .reset, none, 0⟩

/-- The same dictionary on its way to four buckets. -/
def shrinkingBuckets : Dict Nat Nat := ⟨sixteenBuckets.ht0, .fresh 4, some 0, 0⟩

/-- A dictionary of sixteen buckets that is resized to four after the first call. In the larger
table the second call goes from bucket 8 to bucket 12 and not to bucket 4, and the scan ends
without the key that stands there. -/
theorem scan_misses_key_of_shrinking_table :
    (∃ replies, dictRun sampleHash 16 sampleOps dictCreate = .ok (replies, sixteenBuckets)) ∧
      dictResize 16 true sixteenBuckets = .ok (true, shrinkingBuckets) ∧
      4 ∈ sixteenBuckets.entries.keys ∧ 4 ∈ shrinkingBuckets.entries.keys ∧
      scanCalls (sixteenBuckets :: List.replicate 4 shrinkingBuckets) 0 = .ok ([], 0) := by
  refine ⟨⟨_, rfl⟩, ?_, by decide, by decide, rfl⟩
  have hminimal : Int.bmod sixteenBuckets.ht0.used (2 ^ 32) = 1 := by decide
  rw [dictResize, hminimal]
  rfl

end Dict

end Blogd
