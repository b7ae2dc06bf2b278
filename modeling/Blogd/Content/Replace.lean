import Blogd.Foundation.Occurrence
import Blogd.Content.InitContents

/-! # Replacing text in memory

`strReplace` as it is written: lengths are integers of 32 bits, one loop counts the occurrences,
the result is allocated from the count, and a second loop copies into it without a bound. The
result is the text cut at its leftmost occurrences and joined again.
-/

namespace Blogd

/-! ## Searching -/

theorem strstr_eq_none {rep text : Bytes} (habsent : ¬ rep <:+: text) : strstr rep text = none := by
  induction text with
  | nil =>
      rw [strstr, if_neg]
      rintro rfl
      exact habsent List.infix_rfl
  | cons c rest ih =>
      have hhead : ¬ rep.isPrefixOf (c :: rest) = true := by
        rw [List.isPrefixOf_iff_prefix]
        exact fun hpre => habsent hpre.isInfix
      have htail : ¬ rep <:+: rest := fun h => habsent (h.trans (List.suffix_cons c rest).isInfix)
      rw [strstr, if_neg hhead, ih htail, Option.map_none]

theorem strstr_eq_some {rep text : Bytes} {k : Nat} (hrep : rep ≠ [])
    (hfirst : FirstAt rep text k) : strstr rep text = some k := by
  induction text generalizing k with
  | nil =>
      have hnil := hfirst.occurs
      rw [List.drop_nil, List.prefix_nil] at hnil
      exact absurd hnil hrep
  | cons c rest ih =>
      rw [strstr]
      cases k with
      | zero =>
          have hhead : rep.isPrefixOf (c :: rest) = true :=
            List.isPrefixOf_iff_prefix.mpr hfirst.occurs
          rw [if_pos hhead]
      | succ k =>
          have hhead : ¬ rep.isPrefixOf (c :: rest) = true := by
            rw [List.isPrefixOf_iff_prefix]
            exact hfirst.first 0 (Nat.succ_pos k)
          have htail : FirstAt rep rest k :=
            ⟨hfirst.occurs, fun j hj => hfirst.first (j + 1) (Nat.succ_lt_succ hj)⟩
          rw [if_neg hhead, ih htail, Option.map_some]

/-! ## The function -/

namespace Helper

/-- The values of an `int`. -/
def FitsInt (n : Int) : Prop := -2 ^ 31 ≤ n ∧ n < 2 ^ 31

instance : DecidablePred FitsInt := fun _ => inferInstanceAs (Decidable (_ ∧ _))

/-- `int len = strlen(s)` -/
def strlenInt (s : Bytes) : Int := int32 (s.length % 2 ^ 32)

/-- The result of arithmetic on integers, which is undefined outside their range. -/
def intResult (n : Int) : Except Fault Int := if FitsInt n then .ok n else .error .overflow

/-- A pointer into a string, at an offset from its start. -/
def pointerAt (s : Bytes) (offset : Int) : Except Fault Nat :=
  if 0 ≤ offset ∧ offset ≤ s.length then .ok offset.toNat else .error .outOfBounds

/-- A write into a block of memory. -/
def store (mem : Bytes) (offset : Int) (s : Bytes) : Except Fault Bytes :=
  if 0 ≤ offset ∧ offset.toNat + s.length ≤ mem.length then
    .ok (mem.take offset.toNat ++ s ++ mem.drop (offset.toNat + s.length))
  else .error .overflow

/-- What `strncpy` writes: as many bytes as it is told, with NUL behind the end of the string. -/
def strncpyBytes (s : Bytes) (n : Nat) : Bytes := s.take n ++ List.replicate (n - s.length) 0

/-- What `strcpy` writes. -/
def strcpyBytes (s : Bytes) : Bytes := s ++ [0]

/-- `for (count = 0; tmp = strstr(ins, rep); ++count) ins = tmp + len_rep;`. A loop that goes on
for longer than the text has bytes never ends. -/
def countLoop (rep orig : Bytes) (lenRep : Int) : Nat → Nat → Except Fault Nat
  | 0, _ => .error .endless
  | fuel + 1, ins =>
      match strstr rep (orig.drop ins) with
      | none => .ok 0
      | some k => do
          let ins ← pointerAt orig (ins + k + lenRep)
          let count ← countLoop rep orig lenRep fuel ins
          return count + 1

/-- The pointers of the copying loop and the block it fills. -/
structure Copying where
  orig : Nat
  mem : Bytes
  tmp : Int

/-- `while (count--)`. A search that finds nothing leaves a NULL that is used as a pointer. -/
def copyLoop (rep replacement orig : Bytes) (lenRep lenWith : Int) :
    Nat → Copying → Except Fault Copying
  | 0, c => .ok c
  | count + 1, c =>
      match strstr rep (orig.drop c.orig) with
      | none => .error .nullPointer
      | some k => do
          -- the distance of two pointers, narrowed to `int`
          let lenFront := int32 (k % 2 ^ 32)
          let mem ← store c.mem c.tmp (strncpyBytes (orig.drop c.orig) (lenFront % 2 ^ 64).toNat)
          let mem ← store mem (c.tmp + lenFront) (strcpyBytes replacement)
          let step ← intResult (lenFront + lenRep)
          let next ← pointerAt orig (c.orig + step)
          copyLoop rep replacement orig lenRep lenWith count
            ⟨next, mem, c.tmp + lenFront + lenWith⟩

/-- Copying the pieces and what is left behind the last occurrence. -/
def copyAll (rep replacement orig : Bytes) (lenRep lenWith : Int) (count : Nat) (c : Copying) :
    Except Fault Bytes := do
  let c ← copyLoop rep replacement orig lenRep lenWith count c
  store c.mem c.tmp (strcpyBytes (orig.drop c.orig))

/-- `strlen(orig) + change + 1`, the number of bytes that are allocated, as a `size_t`. -/
def blockSize (orig : Bytes) (change : Int) : Nat := ((orig.length + change + 1) % 2 ^ 64).toNat

/-- `strReplace`, where `junk` is what the allocated memory holds. The result is the block, or
`none` for NULL. -/
def strReplace (junk : Nat → UInt8) (rep replacement orig : Option Bytes) :
    Except Fault (Option Bytes) :=
  if orig = none ∧ rep = none then .ok none
  else
    match rep with
    | none => .error .nullPointer
    | some rep =>
        let lenRep := strlenInt rep
        if lenRep = 0 then .ok none
        else
          let replacement := replacement.getD []
          let lenWith := strlenInt replacement
          match orig with
          | none => .error .nullPointer
          | some orig => do
              let count ← countLoop rep orig lenRep (orig.length + 1) 0
              let _ ← intResult count
              let difference ← intResult (lenWith - lenRep)
              let change ← intResult (difference * count)
              let mem ← copyAll rep replacement orig lenRep lenWith count
                ⟨0, (List.range (blockSize orig change)).map junk, 0⟩
              return some mem

/-! ## Lengths that fit -/

theorem int32_of_lt {n : Nat} (hn : n < 2 ^ 31) : int32 (n % 2 ^ 32) = n := by
  rw [Nat.mod_eq_of_lt (by omega), int32, if_pos hn]

theorem strlenInt_of_lt {s : Bytes} (hs : s.length < 2 ^ 31) : strlenInt s = s.length :=
  int32_of_lt hs

theorem blockSize_eq {orig : Bytes} {change : Int} {n : Nat}
    (hn : (orig.length : Int) + change + 1 = n) (hlt : n < 2 ^ 64) : blockSize orig change = n := by
  rw [blockSize, hn]
  omega

theorem intResult_of_fits {n : Int} (hn : FitsInt n) : intResult n = .ok n := if_pos hn

theorem pointerAt_of_le {s : Bytes} {offset : Nat} (hoffset : offset ≤ s.length) :
    pointerAt s offset = .ok offset := by
  rw [pointerAt, if_pos ⟨by omega, by omega⟩, Int.toNat_natCast]

/-- A write at the end of what is done takes the place of as much free memory. -/
theorem store_append {done free s : Bytes} (hs : s.length ≤ free.length) :
    store (done ++ free) done.length s = .ok (done ++ s ++ free.drop s.length) := by
  have hfits : done.length + s.length ≤ (done ++ free).length := by
    rw [List.length_append]
    omega
  rw [store, Int.toNat_natCast, if_pos ⟨by omega, hfits⟩, List.take_left, ← List.drop_drop,
    List.drop_left]

theorem strncpyBytes_of_le {s : Bytes} {n : Nat} (hn : n ≤ s.length) :
    strncpyBytes s n = s.take n := by
  rw [strncpyBytes, Nat.sub_eq_zero_of_le hn, List.replicate_zero, List.append_nil]

section Loops

variable {rep replacement orig : Bytes} (hrep : rep ≠ []) (horig : orig.length < 2 ^ 31)

include hrep

/-- The counting loop finds every cut. -/
theorem countLoop_eq {fuel ins : Nat} {pieces : List Bytes}
    (hcut : CutInto rep (orig.drop ins) pieces)
    (hfuel : (orig.drop ins).length < fuel) :
    countLoop rep orig rep.length fuel ins = .ok (pieces.length - 1) := by
  generalize htext : orig.drop ins = text at hcut
  induction hcut generalizing fuel ins with
  | whole habsent =>
      obtain ⟨fuel, rfl⟩ : ∃ n, fuel = n + 1 := ⟨fuel - 1, by omega⟩
      rw [countLoop, htext, strstr_eq_none habsent]
      rfl
  | @piece text k pieces hfirst hrest ih =>
      obtain ⟨fuel, rfl⟩ : ∃ n, fuel = n + 1 := ⟨fuel - 1, by omega⟩
      have hle := length_le_of_occurs hrep hfirst.occurs
      have hpos := List.length_pos_iff.mpr hrep
      have hpieces := List.length_pos_iff.mpr hrest.ne_nil
      rw [← htext, List.length_drop] at hle
      have hnext : orig.drop (ins + k + rep.length) = text.drop (k + rep.length) := by
        rw [← htext, List.drop_drop, Nat.add_assoc]
      have hloop : countLoop rep orig rep.length fuel (ins + k + rep.length) =
          .ok (pieces.length - 1) :=
        ih (by rw [List.length_drop] at hfuel ⊢; omega) hnext
      have hpointer := @pointerAt_of_le orig (ins + k + rep.length) (by omega)
      rw [countLoop, htext, strstr_eq_some hrep hfirst]
      simp only [← Int.natCast_add, hpointer, ok_bind, hloop, pure_eq_ok, List.length_cons,
        Except.ok.injEq]
      omega

include horig

/-- One round: the text before the occurrence and the replacement are written. Its terminator is
the first of the free bytes of the next round. -/
theorem copyLoop_round {start k : Nat} (hfirst : FirstAt rep (orig.drop start) k)
    (done free : Bytes) (hfree : k + replacement.length + 1 ≤ free.length) (count : Nat) :
    copyLoop rep replacement orig rep.length replacement.length (count + 1)
        ⟨start, done ++ free, done.length⟩ =
      copyLoop rep replacement orig rep.length replacement.length count
        ⟨start + (k + rep.length),
          done ++ (orig.drop start).take k ++ replacement ++
            0 :: free.drop (k + replacement.length + 1),
          (done ++ (orig.drop start).take k ++ replacement).length⟩ := by
  have hle := length_le_of_occurs hrep hfirst.occurs
  have hpos := List.length_pos_iff.mpr hrep
  have hlen : (orig.drop start).length = orig.length - start := List.length_drop
  have htake : ((orig.drop start).take k).length = k := by
    rw [List.length_take]
    omega
  have hfront := @store_append done free ((orig.drop start).take k) (by omega)
  rw [htake] at hfront
  have hlast : (strcpyBytes replacement).length = replacement.length + 1 := by simp [strcpyBytes]
  have hback := @store_append (done ++ (orig.drop start).take k) (free.drop k)
    (strcpyBytes replacement) (by rw [hlast, List.length_drop]; omega)
  have hmem : done ++ (orig.drop start).take k ++ strcpyBytes replacement ++
        (free.drop k).drop (strcpyBytes replacement).length =
      done ++ (orig.drop start).take k ++ replacement ++
        0 :: free.drop (k + replacement.length + 1) := by
    rw [hlast, List.drop_drop]
    simp [strcpyBytes, Nat.add_assoc]
  rw [hmem] at hback
  -- the text is shorter than 2^31 bytes, so no conversion changes a length
  have hpad : strncpyBytes (orig.drop start) k = (orig.drop start).take k :=
    strncpyBytes_of_le (by omega)
  have hint : int32 (k % 2 ^ 32) = k := int32_of_lt (by omega)
  have hsize : ((k : Int) % 2 ^ 64).toNat = k := by omega
  have hstep : intResult (k + rep.length : Nat) = .ok (k + rep.length : Nat) :=
    intResult_of_fits ⟨by omega, by omega⟩
  have hpointer := @pointerAt_of_le orig (start + (k + rep.length)) (by omega)
  have htmp : (done.length : Int) + k = (done ++ (orig.drop start).take k).length := by
    rw [List.length_append, htake, Int.natCast_add]
  have htmp' : ((done ++ (orig.drop start).take k).length : Int) + replacement.length =
      (done ++ (orig.drop start).take k ++ replacement).length := by
    simp only [List.length_append, Int.natCast_add]
  rw [copyLoop, strstr_eq_some hrep hfirst]
  simp only [hint, hsize, hpad, hfront, ok_bind, htmp, hback, hstep, ← Int.natCast_add,
    hpointer, htmp']

/-- The copying loop finds the same cuts and fills what is free of the block. -/
theorem copyAll_eq {start : Nat} {pieces : List Bytes} (hcut : CutInto rep (orig.drop start) pieces)
    (done free : Bytes) (hfree : free.length = (replacement.intercalate pieces).length + 1) :
    copyAll rep replacement orig rep.length replacement.length (pieces.length - 1)
        ⟨start, done ++ free, done.length⟩ =
      .ok (done ++ replacement.intercalate pieces ++ [0]) := by
  -- by induction on the cuts, where each piece but the last takes a round of the loop
  generalize htext : orig.drop start = text at hcut
  induction hcut generalizing start done free with
  | whole habsent =>
      rw [List.intercalate_singleton] at hfree ⊢
      have hlength : (strcpyBytes (orig.drop start)).length = free.length := by
        rw [strcpyBytes, htext, List.length_append, List.length_singleton, hfree]
      have hstore := @store_append done free _ hlength.le
      rw [hlength, List.drop_length, List.append_nil, strcpyBytes, htext] at hstore
      simp only [copyAll, copyLoop, List.length_singleton, Nat.sub_self, ok_bind, strcpyBytes,
        htext, hstore, List.append_assoc]
  | @piece text k pieces hfirst hrest ih =>
      subst htext
      obtain ⟨n, hn⟩ : ∃ n, pieces.length = n + 1 :=
        ⟨pieces.length - 1, by have := List.length_pos_iff.mpr hrest.ne_nil; omega⟩
      have hle := length_le_of_occurs hrep hfirst.occurs
      have htake : ((orig.drop start).take k).length = k := by
        rw [List.length_take]
        omega
      rw [hrest.intercalate_cons] at hfree ⊢
      simp only [List.length_append, htake] at hfree
      have hround := @copyLoop_round rep replacement orig hrep horig start k hfirst done free
        (by omega) n
      have hloop := @ih (start + (k + rep.length))
        (done ++ (orig.drop start).take k ++ replacement)
        (0 :: free.drop (k + replacement.length + 1))
        (by rw [List.length_cons, List.length_drop]; omega) List.drop_drop.symm
      rw [hn, Nat.add_sub_cancel] at hloop
      unfold copyAll at hloop ⊢
      rw [List.length_cons, hn, Nat.add_sub_cancel, hround, hloop]
      simp only [List.append_assoc]

end Loops

section Result

variable {rep orig : Bytes} {replacement : Option Bytes} {pieces : List Bytes}

/-- The allocation has room for the joined pieces and their terminator, and for nothing else. -/
theorem allocation_eq (replacement : Bytes) (hcut : CutInto rep orig pieces) :
    (orig.length : Int) + (replacement.length - rep.length) * (pieces.length - 1 : Nat) + 1 =
      ((replacement.intercalate pieces).length + 1 : Nat) := by
  have hlength := congrArg (Nat.cast (R := Int)) (hcut.length_intercalate replacement)
  simp only [Int.natCast_add, Int.natCast_mul] at hlength
  rw [Int.sub_mul, Int.natCast_add]
  omega

/-- The whole function, for lengths that are integers. -/
theorem strReplace_eq (junk : Nat → UInt8) {text : Bytes} (htext : replacement.getD [] = text)
    (hrep : rep ≠ []) (hrepLt : rep.length < 2 ^ 31) (horigLt : orig.length < 2 ^ 31)
    (htextLt : text.length < 2 ^ 31) (hcut : CutInto rep orig pieces)
    (hchange : FitsInt ((text.length - rep.length) * (pieces.length - 1 : Nat))) :
    strReplace junk (some rep) replacement (some orig) =
      .ok (some (text.intercalate pieces ++ [0])) := by
  have hpos := List.length_pos_iff.mpr hrep
  have hcuts := hcut.length_le hrep
  have hlenRep : (rep.length : Int) ≠ 0 := by omega
  have hcount := @countLoop_eq rep orig hrep (orig.length + 1) 0 pieces hcut (Nat.lt_succ_self _)
  have hcountFits : intResult (pieces.length - 1 : Nat) = .ok (pieces.length - 1 : Nat) :=
    intResult_of_fits ⟨by omega, by omega⟩
  have hdifference : intResult ((text.length : Int) - rep.length) =
      .ok (text.length - rep.length) := intResult_of_fits ⟨by omega, by omega⟩
  have hsize := allocation_eq text hcut
  have hblock := blockSize_eq hsize (by have hfits := hchange.2; omega)
  have hcopy := @copyAll_eq rep text orig hrep horigLt 0 pieces hcut []
    ((List.range ((text.intercalate pieces).length + 1)).map junk) (by simp)
  simp only [List.nil_append, List.length_nil, Int.natCast_zero] at hcopy
  simp only [strReplace, htext, strlenInt_of_lt hrepLt, strlenInt_of_lt htextLt, hlenRep,
    reduceCtorEq, and_self, if_false]
  rw [hcount, ok_bind, hcountFits, ok_bind, hdifference, ok_bind, intResult_of_fits hchange,
    ok_bind, hblock, hcopy, ok_bind, pure_eq_ok]

/-- Where the lengths are integers, the result is the text cut at the leftmost occurrences and
joined with the replacement. Every byte of the block is written, and none behind it. -/
theorem strReplace_joins_pieces (junk : Nat → UInt8) (hrep : rep ≠ [])
    (hnul : 0 ∉ orig ∧ 0 ∉ replacement.getD []) (hrepFits : FitsInt rep.length)
    (horigFits : FitsInt orig.length) (hwithFits : FitsInt (replacement.getD []).length)
    (hcut : CutInto rep orig pieces)
    (hchange : FitsInt
      (((replacement.getD []).length - rep.length) * (pieces.length - 1 : Nat))) :
    strReplace junk (some rep) replacement (some orig) =
        .ok (some ((replacement.getD []).intercalate pieces ++ [0])) ∧
      cstr ((replacement.getD []).intercalate pieces ++ [0]) =
        (replacement.getD []).intercalate pieces ∧
      (orig.length : Int) + ((replacement.getD []).length - rep.length) *
          (pieces.length - 1 : Nat) + 1 =
        ((replacement.getD []).intercalate pieces ++ [0]).length := by
  have hrepLt : rep.length < 2 ^ 31 := by exact_mod_cast hrepFits.2
  have horigLt : orig.length < 2 ^ 31 := by exact_mod_cast horigFits.2
  have hwithLt : (replacement.getD []).length < 2 ^ 31 := by exact_mod_cast hwithFits.2
  refine ⟨strReplace_eq junk rfl hrep hrepLt horigLt hwithLt hcut hchange, cstr_append_nul ?_ [],
    ?_⟩
  · intro hmem
    exact (hcut.mem_intercalate hmem).elim hnul.2 hnul.1
  · rw [allocation_eq _ hcut, List.length_append, List.length_singleton]

theorem cut_overlapping : CutInto (ascii "aa") (ascii "aaab") [[], ascii "ab"] := by
  have hfirst : FirstAt (ascii "aa") (ascii "aaab") 0 :=
    ⟨by decide, fun j hj => absurd hj (Nat.not_lt_zero j)⟩
  exact .piece hfirst (.whole (by decide))

/-- Of two occurrences that overlap the left one is replaced, and the replacement is not searched
again. -/
theorem strReplace_overlapping :
    strReplace (fun _ => 7) (some (ascii "aa")) (some (ascii "aab")) (some (ascii "aaab")) =
      .ok (some (ascii "aabab" ++ [0])) :=
  (strReplace_joins_pieces (fun _ => 7) (by decide) (by decide) (by decide) (by decide) (by decide)
    cut_overlapping (by decide)).1

/-- A text to replace whose length is a multiple of 2 ^ 32 is taken for the empty one: the result
is NULL although every other length fits. -/
theorem strReplace_long_rep :
    ∃ rep : Bytes, rep ≠ [] ∧ 0 ∉ rep ∧ CutInto rep [] [[]] ∧
      FitsInt ((([] : Bytes).length - rep.length) * (([[]] : List Bytes).length - 1 : Nat)) ∧
      strReplace (fun _ => 0) (some rep) none (some []) = .ok none := by
  obtain ⟨rep, hrep⟩ : ∃ rep : Bytes, rep = List.replicate (2 ^ 32) 97 := ⟨_, rfl⟩
  have hlength : rep.length = 2 ^ 32 := by rw [hrep, List.length_replicate]
  have hne : rep ≠ [] := by
    intro hnil
    rw [hnil] at hlength
    exact absurd hlength (by decide)
  refine ⟨rep, hne, ?_, .whole ?_, ?_, ?_⟩
  · rw [hrep]
    intro hmem
    exact absurd (List.eq_of_mem_replicate hmem) (by decide)
  · rw [List.infix_nil]
    exact hne
  · rw [List.length_singleton, Nat.sub_self, Int.natCast_zero, Int.mul_zero]
    decide
  · have hzero : strlenInt rep = 0 := by
      rw [strlenInt, hlength, Nat.mod_self]
      decide
    simp [strReplace, hzero]

end Result

end Helper

/-! ## The replacement of the templates

The templates are expanded with the same function, on texts as values.
-/

section Values

variable {rep orig : Bytes} {pieces : List Bytes} (hrep : rep ≠ []) (hcut : CutInto rep orig pieces)

include hrep hcut

theorem countOccurrences_eq {fuel : Nat} (hfuel : orig.length ≤ fuel) :
    countOccurrences rep fuel orig = pieces.length - 1 := by
  induction hcut generalizing fuel with
  | whole habsent =>
      cases fuel with
      | zero => rfl
      | succ fuel =>
          rw [countOccurrences, strstr_eq_none habsent]
          rfl
  | @piece text k pieces hfirst hrest ih =>
      have hle := length_le_of_occurs hrep hfirst.occurs
      have hpos := List.length_pos_iff.mpr hrep
      have hpieces := List.length_pos_iff.mpr hrest.ne_nil
      obtain ⟨fuel, rfl⟩ : ∃ n, fuel = n + 1 := ⟨fuel - 1, by omega⟩
      have hcount : countOccurrences rep fuel (text.drop (k + rep.length)) = pieces.length - 1 :=
        ih (by rw [List.length_drop]; omega)
      rw [countOccurrences, strstr_eq_some hrep hfirst]
      simp only [hcount, List.length_cons]
      omega

theorem copyReplacing_eq (replacement : Bytes) :
    copyReplacing rep replacement (pieces.length - 1) orig =
      .ok (replacement.intercalate pieces) := by
  induction hcut with
  | whole _ => simp [copyReplacing, List.intercalate]
  | @piece text k pieces hfirst hrest ih =>
      obtain ⟨n, hn⟩ : ∃ n, pieces.length = n + 1 :=
        ⟨pieces.length - 1, by have := List.length_pos_iff.mpr hrest.ne_nil; omega⟩
      rw [hn, Nat.add_sub_cancel] at ih
      rw [List.length_cons, hn, Nat.add_sub_cancel, copyReplacing, strstr_eq_some hrep hfirst,
        hrest.intercalate_cons]
      simp only [ih, ok_bind, pure_eq_ok]

theorem replaced_eq_intercalate (replacement : Bytes) :
    replaced rep replacement orig = replacement.intercalate pieces := by
  rw [replaced, strReplace, countOccurrences_eq hrep hcut (Nat.le_refl _),
    copyReplacing_eq hrep hcut]

/-- The value that the templates use is what the function leaves in memory. -/
theorem Helper.strReplace_eq_replaced (junk : Nat → UInt8) (replacement : Bytes)
    (hrepFits : rep.length < 2 ^ 31) (horigFits : orig.length < 2 ^ 31)
    (hwithFits : replacement.length < 2 ^ 31)
    (hchange : FitsInt ((replacement.length - rep.length) * (pieces.length - 1 : Nat))) :
    Helper.strReplace junk (some rep) (some replacement) (some orig) =
      .ok (some (replaced rep replacement orig ++ [0])) := by
  rw [replaced_eq_intercalate hrep hcut]
  exact Helper.strReplace_eq junk rfl hrep hrepFits horigFits hwithFits hcut hchange

end Values

end Blogd
