import Blogd.Redis.LzfRoundTrip
import Blogd.Redis.Rdb

/-! # Strings in a dump

What is written for a string is read back as that string, whichever of the forms was chosen and
whatever the compressor found in its table.
-/

namespace Blogd

open StreamM

/-! ## Lengths -/

/-- The result of a write is the number of bytes. -/
theorem emits_rdbWriteRaw {p : Bytes} (hp : p.length < 2 ^ 31) :
    Emits (rdbWriteRaw p) fun n text => n = p.length ∧ text = p := by
  have hbmod : Int.bmod p.length (2 ^ 32) = p.length :=
    Int.bmod_eq_of_le_mul_two (by omega) (by omega)
  apply (emits_rioWrite p).bind
  rintro _ _ rfl
  rw [intResult, hbmod, if_neg (by omega)]
  exact Emits.pure ⟨rfl, List.append_nil _⟩

/-- The two highest bits of the first byte tell the form of a length. -/
theorem sixBits_of_lt : ∀ n < 64,
    ((lowByte (n : Nat) ||| rdb6BitLen <<< 6) &&& 0xC0) >>> 6 = rdb6BitLen ∧
      ((lowByte (n : Nat) ||| rdb6BitLen <<< 6) &&& 0x3F).toNat = n ∧
    ((lowByte (n : Nat) ||| rdb14BitLen <<< 6) &&& 0xC0) >>> 6 = rdb14BitLen ∧
      ((lowByte (n : Nat) ||| rdb14BitLen <<< 6) &&& 0x3F).toNat = n := by
  decide

theorem reads_rdbLoadLen_six {n : Nat} (hn : n < 2 ^ 6) :
    Reads rdbLoadLen [lowByte n ||| rdb6BitLen <<< 6] (false, n) := by
  obtain ⟨htype, hlen, -⟩ := sixBits_of_lt n hn
  apply reads_byte_bind
  rw [List.headD_cons]
  simp only [rdbLoadLenBehind, htype, hlen]
  exact Reads.pure _

theorem reads_rdbLoadLen_fourteen {n : Nat} (hn : n < 2 ^ 14) :
    Reads rdbLoadLen [lowByte (n >>> 8 : Nat) ||| rdb14BitLen <<< 6, lowByte n] (false, n) := by
  have hhigh : n >>> 8 < 64 := by
    rw [Nat.shiftRight_eq_div_pow]
    omega
  have hjoin : (n >>> 8) <<< 8 ||| number [lowByte n] = n := by
    have hbyte : number [lowByte n] = n % 2 ^ 8 := by
      have h := number_littleEndian 1 n
      rw [pow_one] at h
      exact_mod_cast h
    rw [hbyte, ← Nat.shiftLeft_add_eq_or_of_lt (Nat.mod_lt n (by norm_num)),
      Nat.shiftRight_eq_div_pow, Nat.shiftLeft_eq]
    exact Nat.div_add_mod' n (2 ^ 8)
  obtain ⟨-, -, htype, hlen⟩ := sixBits_of_lt (n >>> 8) hhigh
  apply reads_byte_bind
  rw [List.headD_cons]
  simp only [rdbLoadLenBehind, htype, hlen]
  apply reads_byte_bind
  rw [hjoin]
  exact Reads.pure _

theorem reads_rdbLoadLen_thirtyTwo {n : Nat} (hn : n < rdbLenErr) :
    Reads rdbLoadLen (rdb32BitLen <<< 6 :: (littleEndian 4 n).reverse) (false, n) := by
  have hnumber : number (littleEndian 4 n) = n :=
    number_littleEndian_of_lt (hn.trans (by norm_num [rdbLenErr]))
  have hread : Reads (rioRead 4) (littleEndian 4 n).reverse (littleEndian 4 n).reverse :=
    reads_rioRead (by rw [List.length_reverse, length_littleEndian])
  apply reads_byte_bind
  apply hread.bind_nil
  rw [List.reverse_reverse, hnumber, if_neg hn.ne]
  exact Reads.pure _

/-- A length is read back, except that the highest one is taken for an error. -/
theorem emits_rdbSaveLen {size : Nat} (hsize : size < rdbLenErr) :
    Emits (rdbSaveLen size) fun n text => 0 < n ∧ n ≤ 5 ∧ Reads rdbLoadLen text (false, size) := by
  have hmod : size % 2 ^ 32 = size := Nat.mod_eq_of_lt (hsize.trans (by norm_num [rdbLenErr]))
  unfold rdbSaveLen
  rw [hmod]
  dsimp only
  split
  next hlt =>
    apply (emits_rdbWriteRaw (by norm_num)).bind
    rintro _ _ ⟨rfl, rfl⟩
    exact Emits.pure ⟨by norm_num, by norm_num, reads_rdbLoadLen_six hlt⟩
  next =>
    split
    next hlt =>
      apply (emits_rdbWriteRaw (by norm_num)).bind
      rintro _ _ ⟨rfl, rfl⟩
      exact Emits.pure ⟨by norm_num, by norm_num, reads_rdbLoadLen_fourteen hlt⟩
    next =>
      apply (emits_rdbWriteRaw (by norm_num)).bind
      rintro _ _ ⟨rfl, rfl⟩
      apply (emits_rdbWriteRaw (by rw [List.length_reverse, length_littleEndian]; norm_num)).bind
      rintro _ _ ⟨rfl, rfl⟩
      refine Emits.pure ⟨by norm_num, by norm_num, ?_⟩
      rw [List.append_nil]
      exact reads_rdbLoadLen_thirtyTwo hsize

/-! ## Integers -/

theorem reads_rioReadSigned {size : Nat} {v : Int} (hlow : -(256 ^ size) ≤ 2 * v)
    (hhigh : 2 * v < 256 ^ size) : Reads (rioReadSigned size) (littleEndian size v) v := by
  apply (reads_rioRead (length_littleEndian size v)).bind_nil
  rw [bmod_number_littleEndian hlow hhigh]
  exact Reads.pure v

theorem reads_rdbLoadLen_encoding {enc : UInt8}
    (henc : enc ∈ [rdbEncInt8, rdbEncInt16, rdbEncInt32, rdbEncLzf]) :
    Reads rdbLoadLen [rdbEncVal <<< 6 ||| enc] (true, enc.toNat) := by
  have hbits : ∀ enc ∈ [rdbEncInt8, rdbEncInt16, rdbEncInt32, rdbEncLzf],
      ((rdbEncVal <<< 6 ||| enc) &&& 0xC0) >>> 6 = rdbEncVal ∧
        (rdbEncVal <<< 6 ||| enc) &&& 0x3F = enc := by
    rw [List.forall_mem_cons, List.forall_mem_cons, List.forall_mem_cons, List.forall_mem_singleton]
    decide
  obtain ⟨htype, hlen⟩ := hbits enc henc
  apply reads_byte_bind
  rw [List.headD_cons]
  simp only [rdbLoadLenBehind, htype, hlen]
  exact Reads.pure _

/-- The object that an integer is loaded as. -/
def integerObject (encode : Bool) (value : Int) : Robj :=
  if encode then .int value else .string (ll2string value)

theorem reads_encodedInteger {enc : UInt8} {size : Nat} {value : Int}
    (henc : enc ∈ [rdbEncInt8, rdbEncInt16, rdbEncInt32])
    (hsize : rdbLoadEncodedInteger enc.toNat = rioReadSigned size)
    (hlow : -(256 ^ size) ≤ 2 * value) (hhigh : 2 * value < 256 ^ size) (encode : Bool) :
    Reads (rdbGenericLoadStringObject encode)
      ((rdbEncVal <<< 6 ||| enc) :: littleEndian size value) (integerObject encode value) := by
  have hlzf : ∀ enc ∈ [rdbEncInt8, rdbEncInt16, rdbEncInt32], ¬ enc.toNat = rdbEncLzf.toNat := by
    rw [List.forall_mem_cons, List.forall_mem_cons, List.forall_mem_singleton]
    decide
  refine Reads.bind (x := [_]) (reads_rdbLoadLen_encoding (List.mem_append_left _ henc)) ?_
  dsimp only
  rw [if_pos rfl, if_neg (hlzf enc henc), rdbLoadIntegerObject, hsize]
  exact (reads_rioReadSigned hlow hhigh).bind_nil (Reads.pure _)

/-- An integer that is encoded is read back. -/
theorem reads_rdbEncodeInteger {value : Int} {enc : Bytes} (h : rdbEncodeInteger value = some enc)
    (encode : Bool) :
    Reads (rdbGenericLoadStringObject encode) enc (integerObject encode value) ∧
      enc.length ≤ 5 := by
  unfold rdbEncodeInteger at h
  split at h
  next hfits =>
    cases h
    exact ⟨reads_encodedInteger (by decide) rfl (by omega) (by omega) encode, by simp⟩
  next =>
    split at h
    next hfits =>
      cases h
      exact ⟨reads_encodedInteger (by decide) rfl (by omega) (by omega) encode, by simp⟩
    next =>
      split at h
      next hfits =>
        cases h
        exact ⟨reads_encodedInteger (by decide) rfl (by omega) (by omega) encode, by simp⟩
      next => cases h

/-! ## Texts -/

theorem reads_verbatim {s text : Bytes} (hlen : Reads rdbLoadLen text (false, s.length))
    (encode : Bool) : Reads (rdbGenericLoadStringObject encode) (text ++ s) (.string s) :=
  hlen.bind ((reads_rioRead rfl).bind_nil (Reads.pure _))

theorem emits_rdbSaveVerbatim {s : Bytes} (hs : s.length < 2 ^ 31) :
    Emits (rdbSaveVerbatim s) fun n text => 0 < n ∧ n ≤ s.length + 5 ∧
      ∀ encode, Reads (rdbGenericLoadStringObject encode) text (.string s) := by
  apply (emits_rdbSaveLen (by unfold rdbLenErr; omega)).bind
  rintro n text ⟨hpos, hle, hread⟩
  split
  next =>
    apply (emits_rdbWriteRaw hs).bind
    rintro _ _ ⟨rfl, rfl⟩
    refine Emits.pure ⟨by omega, by omega, ?_⟩
    rw [List.append_nil]
    exact reads_verbatim hread
  next hempty =>
    obtain rfl : s = [] := List.eq_nil_of_length_eq_zero (by omega)
    exact Emits.pure ⟨hpos, by simpa using hle, reads_verbatim hread⟩

theorem reads_rdbLoadLzfData {s out : Bytes} (hlzf : lzfDecompress out s.length = .ok (some s)) :
    Reads (rdbLoadLzfData out.length s.length) out (.string s) := by
  intro r t h
  rw [rdbLoadLzfData, bind_apply_of_eq_some (reads_rioRead rfl r t h), hlzf,
    bind_apply_of_eq_some rfl]
  dsimp only
  rw [Nat.sub_self, List.replicate_zero, List.append_nil]
  rfl

theorem emits_rdbSaveLzfBlob {s out : Bytes} (hs : s.length < 2 ^ 31) (hout : out.length ≤ s.length)
    (hlzf : lzfDecompress out s.length = .ok (some s)) :
    Emits (rdbSaveLzfBlob out s.length) fun n text => 0 < n ∧ n ≤ s.length + 11 ∧
      ∀ encode, Reads (rdbGenericLoadStringObject encode) text (.string s) := by
  apply (emits_rdbWriteRaw (by norm_num)).bind
  rintro _ _ ⟨rfl, rfl⟩
  apply (emits_rdbSaveLen (by unfold rdbLenErr; omega)).bind
  rintro n₂ clenText ⟨hpos₂, hle₂, hclen⟩
  apply (emits_rdbSaveLen (by unfold rdbLenErr; omega)).bind
  rintro n₃ lenText ⟨hpos₃, hle₃, hlen⟩
  apply (emits_rdbWriteRaw (p := out) (by omega)).bind
  rintro _ _ ⟨rfl, rfl⟩
  refine Emits.pure ⟨by simp; omega, by simp; omega, ?_⟩
  intro encode
  rw [List.append_nil]
  refine Reads.bind (reads_rdbLoadLen_encoding (by decide)) ?_
  refine Reads.bind hclen (Reads.bind hlen ?_)
  exact reads_rdbLoadLzfData hlzf

theorem emits_rdbSaveLzfStringObject (ctx : SaveContext) {s : Bytes} (hs : s.length < 2 ^ 31) :
    Emits (rdbSaveLzfStringObject ctx s) fun n text => (n = 0 ∧ text = []) ∨
      0 < n ∧ n ≤ s.length + 11 ∧
        ∀ encode, Reads (rdbGenericLoadStringObject encode) text (.string s) := by
  unfold rdbSaveLzfStringObject
  split
  next => exact Emits.pure (.inl ⟨rfl, rfl⟩)
  next hlong =>
    have hne : s ≠ [] := by
      rintro rfl
      exact hlong (Nat.zero_le 4)
    rw [Nat.mod_eq_of_lt (by omega), Nat.mod_eq_of_lt (by omega), List.take_length]
    apply Emits.look_bind
    intro rdb
    apply Emits.aside_bind (Lzf.lzfCompress_spec _ (by omega) _)
    intro compressed hcompressed
    cases compressed with
    | none => exact Emits.pure (.inl ⟨rfl, rfl⟩)
    | some out =>
        obtain ⟨hfits, phrases, hphrases, hout, hexpand⟩ := hcompressed out rfl
        have hlzf := Lzf.lzfDecompress_phrases hne hphrases hout hexpand
        exact (emits_rdbSaveLzfBlob hs (by omega) hlzf).mono fun _ _ h => .inr h

theorem emits_rdbSaveText (ctx : SaveContext) {s : Bytes} (hs : s.length < 2 ^ 31) :
    Emits (rdbSaveText ctx s) fun n text => 0 < n ∧ n ≤ s.length + 11 ∧
      ∀ encode, Reads (rdbGenericLoadStringObject encode) text (.string s) := by
  have hverbatim : Emits (rdbSaveVerbatim s) fun n text => 0 < n ∧ n ≤ s.length + 11 ∧
      ∀ encode, Reads (rdbGenericLoadStringObject encode) text (.string s) := by
    apply (emits_rdbSaveVerbatim hs).mono
    rintro n text ⟨hpos, hle, hread⟩
    exact ⟨hpos, by omega, hread⟩
  unfold rdbSaveText
  split
  next =>
    apply (emits_rdbSaveLzfStringObject ctx hs).bind
    rintro n text (⟨rfl, rfl⟩ | ⟨hpos, hle, hread⟩)
    · exact hverbatim
    · rw [if_neg (by omega), if_pos hpos]
      refine Emits.pure ⟨hpos, hle, ?_⟩
      rwa [List.append_nil]
  next => exact hverbatim

/-! ## Objects -/

/-- What `ll2string` prints, `string2ll` reads. -/
theorem string2ll_ll2string {value : Int} (hlow : -2 ^ 63 ≤ value) (hhigh : value < 2 ^ 63) :
    string2ll (ll2string value) = some value := by
  unfold ll2string
  split
  next hneg =>
    rcases eq_or_lt_of_le hlow with rfl | hlt
    · decide +kernel
    · obtain ⟨c, rest, heq, hc, hc', hread⟩ :=
        @decimal_reads value.natAbs (by omega) (by unfold llongMax; omega)
      simp only [heq, string2ll, if_pos (And.intro hc hc'), hread,
        if_neg (by unfold llongMax; omega : ¬ value.natAbs > llongMax + 1)]
      congr 1
      omega
  next hpos =>
    rw [string2ll_decimal (by unfold llongMax; omega)]
    congr 1
    omega

theorem length_ll2string_le {value : Int} (hlow : -2 ^ 63 ≤ value) (hhigh : value < 2 ^ 63) :
    (ll2string value).length ≤ 20 := by
  have hdecimal : (decimal value.natAbs).length ≤ 19 :=
    (length_decimal_le_iff (by norm_num)).mpr (by omega)
  unfold ll2string
  split
  · exact Nat.succ_le_succ hdecimal
  · exact hdecimal.trans (by norm_num)

/-- The text of a number is stored as the number. -/
theorem tryObjectEncoding_ll2string {value : Int} (hlow : -2 ^ 63 ≤ value)
    (hhigh : value < 2 ^ 63) : tryObjectEncoding (ll2string value) = .int value := by
  rw [tryObjectEncoding, if_pos (length_ll2string_le hlow hhigh),
    string2ll_ll2string hlow hhigh]

/-- A text that a string is read back from, as a key and as a value. -/
structure SpellsString (text s : Bytes) : Prop where
  key : Reads rdbLoadStringObject text s
  value : ∀ ctx, Reads (rdbLoadObject ctx rdbTypeString) text (tryObjectEncoding s)

theorem spellsString_of_text {text s : Bytes}
    (h : ∀ encode, Reads (rdbGenericLoadStringObject encode) text (.string s)) :
    SpellsString text s where
  key := (h false).bind_nil (Reads.pure s)
  value _ := (h true).bind_nil (Reads.pure _)

theorem lt_of_rdbEncodeInteger {value : Int} {enc : Bytes} (h : rdbEncodeInteger value = some enc) :
    -2 ^ 63 ≤ value ∧ value < 2 ^ 63 := by
  unfold rdbEncodeInteger at h
  split at h
  · omega
  · split at h
    · omega
    · split at h
      · omega
      · cases h

theorem spellsString_of_integer {value : Int} {enc : Bytes}
    (h : rdbEncodeInteger value = some enc) : SpellsString enc (ll2string value) where
  key := (reads_rdbEncodeInteger h false).1.bind_nil (Reads.pure (ll2string value))
  value _ := by
    obtain ⟨hlow, hhigh⟩ := lt_of_rdbEncodeInteger h
    rw [tryObjectEncoding_ll2string hlow hhigh]
    exact (reads_rdbEncodeInteger h true).1.bind_nil (Reads.pure _)

theorem emits_rdbSaveRawString (ctx : SaveContext) {s : Bytes} (hs : s.length < 2 ^ 31) :
    Emits (rdbSaveRawString ctx s) fun n text => 0 ≤ n ∧ n ≤ s.length + 11 ∧
      SpellsString text s := by
  unfold rdbSaveRawString
  split
  next enc henc =>
    split at henc
    next =>
      unfold rdbTryIntegerEncoding at henc
      dsimp only at henc
      split at henc
      next => cases henc
      next =>
        split at henc
        next => cases henc
        next hsame =>
          have hlen := (reads_rdbEncodeInteger henc true).2
          apply (emits_rdbWriteRaw (by omega)).mono
          rintro _ _ ⟨rfl, rfl⟩
          refine ⟨by omega, by omega, ?_⟩
          rw [← not_not.mp hsame]
          exact spellsString_of_integer henc
    next => cases henc
  next =>
    apply (emits_rdbSaveText ctx hs).mono
    rintro n text ⟨hpos, hle, hread⟩
    exact ⟨hpos.le, hle, spellsString_of_text hread⟩

theorem emits_rdbSaveLongLongAsStringObject {value : Int} (hlow : -2 ^ 63 ≤ value)
    (hhigh : value < 2 ^ 63) :
    Emits (rdbSaveLongLongAsStringObject value) fun n text => 0 ≤ n ∧ n ≤ 25 ∧
      SpellsString text (ll2string value) := by
  unfold rdbSaveLongLongAsStringObject
  split
  next enc henc =>
    have hlen := (reads_rdbEncodeInteger henc true).2
    apply (emits_rdbWriteRaw (by omega)).mono
    rintro _ _ ⟨rfl, rfl⟩
    exact ⟨by omega, by omega, spellsString_of_integer henc⟩
  next =>
    have hlen := length_ll2string_le hlow hhigh
    apply (emits_rdbSaveLen (by unfold rdbLenErr; omega)).bind
    rintro n text ⟨hpos, hle, hread⟩
    apply (emits_rdbWriteRaw (by omega)).bind
    rintro _ _ ⟨rfl, rfl⟩
    refine Emits.pure ⟨by omega, by omega, ?_⟩
    rw [List.append_nil]
    exact spellsString_of_text (reads_verbatim hread)

/-- A result that is far from -1 as an `int` is no error. -/
theorem emits_intResult {n : Int} {post : Int → Bytes → Prop}
    (hlow : 0 ≤ n) (hhigh : n < 2 ^ 32 - 1) (h : post (n.bmod (2 ^ 32)) []) :
    Emits (intResult n) post := by
  have hne : ¬ n.bmod (2 ^ 32) = -1 := by
    rw [Int.bmod_def]
    split <;> omega
  rw [intResult, if_neg hne]
  exact Emits.pure h

/-- A value that a dump keeps: a text of less than two gigabytes, or an integer of 64 bits. -/
def Robj.Storable : Robj → Prop
  | .string s => s.length < 2 ^ 31
  | .int value => -2 ^ 63 ≤ value ∧ value < 2 ^ 63
  | .other => False

instance : DecidablePred Robj.Storable
  | .string s => inferInstanceAs (Decidable (s.length < 2 ^ 31))
  | .int value => inferInstanceAs (Decidable (-2 ^ 63 ≤ value ∧ value < 2 ^ 63))
  | .other => inferInstanceAs (Decidable False)

/-- A string object is read back, as a number where its text is the text of a number. -/
theorem emits_rdbSaveObject (ctx : SaveContext) {o : Robj} (ho : o.Storable) :
    Emits (rdbSaveObject ctx o) fun _ text =>
      ∀ ctx', Reads (rdbLoadObject ctx' rdbTypeString) text o.tryEncoding := by
  cases o with
  | string s =>
      apply (emits_rdbSaveRawString ctx ho).bind
      rintro n text ⟨hpos, hle, hspells⟩
      have hs : s.length < 2 ^ 31 := ho
      apply emits_intResult hpos (by omega)
      rw [List.append_nil]
      exact hspells.value
  | int value =>
      apply (emits_rdbSaveLongLongAsStringObject ho.1 ho.2).bind
      rintro n text ⟨hpos, hle, hspells⟩
      apply emits_intResult hpos (by omega)
      have hvalue := hspells.value
      rw [tryObjectEncoding_ll2string ho.1 ho.2] at hvalue
      rw [List.append_nil]
      exact hvalue
  | other => exact ho.elim

theorem emits_rdbSaveKey (ctx : SaveContext) {key : Bytes} (hkey : key.length < 2 ^ 31) :
    Emits (rdbSaveStringObject ctx (.inl key)) fun _ text =>
      Reads rdbLoadStringObject text key := by
  apply (emits_rdbSaveRawString ctx hkey).bind
  rintro n text ⟨hpos, hle, hspells⟩
  apply emits_intResult hpos (by omega)
  rw [List.append_nil]
  exact hspells.key

end Blogd
