import Mathlib.Tactic.Ring
import Blogd.Redis.Lzf
import Blogd.Foundation.BackReference

/-! # The LZF format

A compressed text is the codes of runs and back references one after the other. The decompressor
accepts these and nothing else, gives the text that they stand for, and stays within its buffers
whatever the input is, unless it is given none at all.
-/

namespace Blogd.Lzf

open BackReference

/-- The runs and back references that have a code. -/
def WellFormed : Phrase UInt8 → Prop
  | .literal run => 1 ≤ run.length ∧ run.length ≤ maxLit
  | .copy distance length => 1 ≤ distance ∧ distance ≤ maxOff ∧ 3 ≤ length ∧ length ≤ maxRef

/-- The code of a back reference whose offset and length are written as they are. -/
def codeReference (off len : Nat) : Bytes :=
  if len < 7 then [((off >>> 8) + (len <<< 5)).toUInt8, off.toUInt8]
  else [((off >>> 8) + (7 <<< 5)).toUInt8, (len - 7).toUInt8, off.toUInt8]

/-- The code of a run or back reference. -/
def code : Phrase UInt8 → Bytes
  | .literal run => (run.length - 1).toUInt8 :: run
  | .copy distance length => codeReference (distance - 1) (length - 2)

theorem code_ne_nil (t : Phrase UInt8) : code t ≠ [] := by
  cases t with
  | literal run => exact List.cons_ne_nil _ _
  | copy distance length =>
      rw [code, codeReference]
      split
      · exact List.cons_ne_nil _ _
      · exact List.cons_ne_nil _ _

/-! ## The control bytes -/

theorem toNat_toUInt8 {n : Nat} (hn : n < 256) : n.toUInt8.toNat = n := by
  rw [Nat.toUInt8, UInt8.toNat_ofNat']
  exact Nat.mod_eq_of_lt hn

theorem shiftRight_five (n : Nat) : n >>> 5 = n / 32 := Nat.shiftRight_eq_div_pow n 5

theorem and_31 (n : Nat) : n &&& 0x1f = n % 32 := Nat.and_two_pow_sub_one_eq_mod n 5

theorem codeReference_eq (off len : Nat) :
    codeReference off len =
      if len < 7 then [(off / 256 + len * 32).toUInt8, off.toUInt8]
      else [(off / 256 + 224).toUInt8, (len - 7).toUInt8, off.toUInt8] := by
  rw [codeReference, Nat.shiftRight_eq_div_pow, Nat.shiftLeft_eq]
  rfl

/-- A control byte of a short back reference, taken apart. -/
theorem codeReference_short {ctrl : UInt8} (low : UInt8) (hlong : ctrl.toNat / 32 ≠ 7) :
    codeReference (ctrl.toNat % 32 * 256 + low.toNat) (ctrl.toNat / 32) = [ctrl, low] := by
  have hctrl := ctrl.toNat_lt
  have hlow := low.toNat_lt
  have hlen : ctrl.toNat / 32 < 7 := by omega
  rw [codeReference_eq, if_pos hlen,
    show (ctrl.toNat % 32 * 256 + low.toNat) / 256 + ctrl.toNat / 32 * 32 = ctrl.toNat by omega]
  congr 1
  · exact UInt8.toNat_inj.mp (toNat_toUInt8 hctrl)
  · congr 1
    apply UInt8.toNat_inj.mp
    rw [Nat.toUInt8, UInt8.toNat_ofNat']
    omega

/-- The control bytes of a long back reference, taken apart. -/
theorem codeReference_long {ctrl : UInt8} (more low : UInt8) (hlong : ctrl.toNat / 32 = 7) :
    codeReference (ctrl.toNat % 32 * 256 + low.toNat) (7 + more.toNat) = [ctrl, more, low] := by
  have hctrl := ctrl.toNat_lt
  have hlow := low.toNat_lt
  rw [codeReference_eq, if_neg (by omega), Nat.add_sub_cancel_left,
    show (ctrl.toNat % 32 * 256 + low.toNat) / 256 + 224 = ctrl.toNat by omega]
  congr 1
  · exact UInt8.toNat_inj.mp (toNat_toUInt8 hctrl)
  · congr 1
    · exact UInt8.toNat_inj.mp (toNat_toUInt8 more.toNat_lt)
    · congr 1
      apply UInt8.toNat_inj.mp
      rw [Nat.toUInt8, UInt8.toNat_ofNat']
      omega

/-- Every offset and length in range comes from control bytes. -/
theorem exists_control {off len : Nat} (hoff : off < 8192) (hlow : 1 ≤ len) (hhigh : len ≤ 262) :
    (∃ ctrl low : UInt8, 32 ≤ ctrl.toNat ∧ ctrl.toNat / 32 ≠ 7 ∧
      off = ctrl.toNat % 32 * 256 + low.toNat ∧ len = ctrl.toNat / 32) ∨
    ∃ ctrl more low : UInt8, ctrl.toNat / 32 = 7 ∧
      off = ctrl.toNat % 32 * 256 + low.toNat ∧ len = 7 + more.toNat := by
  have hbyte : (off % 256).toUInt8.toNat = off % 256 := toNat_toUInt8 (by omega)
  by_cases hlen : len < 7
  · have hctrl : (off / 256 + len * 32).toUInt8.toNat = off / 256 + len * 32 :=
      toNat_toUInt8 (by omega)
    refine .inl ⟨(off / 256 + len * 32).toUInt8, (off % 256).toUInt8, ?_⟩
    rw [hctrl, hbyte]
    omega
  · have hctrl : (off / 256 + 224).toUInt8.toNat = off / 256 + 224 := toNat_toUInt8 (by omega)
    have hmore : (len - 7).toUInt8.toNat = len - 7 := toNat_toUInt8 (by omega)
    refine .inr ⟨(off / 256 + 224).toUInt8, (len - 7).toUInt8, (off % 256).toUInt8, ?_⟩
    rw [hctrl, hbyte, hmore]
    omega

/-! ## Copying -/

theorem copyBytes_eq {distance n : Nat} {out out' : Bytes} (hle : distance ≤ out.length)
    (hcopy : copyBack distance n out = some out') :
    copyBytes n (out.length - distance) out = .ok out' := by
  induction n generalizing out with
  | zero => exact congrArg Except.ok (Option.some.inj hcopy)
  | succ n ih =>
      obtain ⟨b, hb, hrest⟩ := Option.bind_eq_some_iff.mp hcopy
      have hlen : (out ++ [b]).length = out.length + 1 := List.length_append
      have h := ih (by omega) hrest
      rw [hlen, show out.length + 1 - distance = out.length - distance + 1 by omega] at h
      rw [copyBytes, hb]
      exact h

/-- However it copies, a back reference gives the bytes one after the other. -/
theorem copyReference_eq {distance : Nat} (len : Nat) {out out' : Bytes} (hpos : 1 ≤ distance)
    (hle : distance ≤ out.length) (hcopy : copyBack distance (len + 2) out = some out') :
    copyReference len (out.length - distance) out = .ok out' := by
  unfold copyReference
  split
  · exact copyBytes_eq hle hcopy
  · split
    next hdisjoint =>
      rw [copyBack_of_disjoint hpos (by omega) hle] at hcopy
      exact congrArg Except.ok (Option.some.inj hcopy)
    · exact copyBytes_eq hle hcopy

/-! ## One round -/

/-- The text after a phrase, if it fits. -/
def expandWithin (outLen : Nat) (out : Bytes) (t : Phrase UInt8) : Option Bytes :=
  (t.expand out).filter fun out' => out'.length ≤ outLen

theorem expandWithin_eq_some {outLen : Nat} {out out' : Bytes} {t : Phrase UInt8} :
    expandWithin outLen out t = some out' ↔ t.expand out = some out' ∧ out'.length ≤ outLen := by
  rw [expandWithin, Option.filter_eq_some_iff]
  simp

theorem expandWithin_eq_none {outLen : Nat} {out out' : Bytes} {t : Phrase UInt8}
    (hout' : t.expand out = some out') (hfits : ¬ out'.length ≤ outLen) :
    expandWithin outLen out t = none := by
  cases hwithin : expandWithin outLen out t with
  | none => rfl
  | some out'' =>
      obtain ⟨hout'', hlen⟩ := expandWithin_eq_some.mp hwithin
      obtain rfl := Option.some.inj (hout'.symm.trans hout'')
      exact absurd hlen hfits

theorem decompressReference_eq (outLen : Nat) {off len : Nat} {ref : Int} {low : UInt8}
    {ip out : Bytes} (href : ref - low.toNat = out.length - off - 1) :
    decompressReference outLen len ref (low :: ip) out =
      .ok ((expandWithin outLen out (.copy (off + 1) (len + 2))).map fun out' => (ip, out')) := by
  unfold decompressReference
  simp only [href]
  by_cases hle : off + 1 ≤ out.length
  · obtain ⟨out', hout'⟩ := exists_copyBack (Nat.succ_pos off) (len + 2) hle
    have hlen := (isPrefix_copyBack hout').2
    have hexpand : (Phrase.copy (off + 1) (len + 2)).expand out = some out' := by
      rw [Phrase.expand, if_pos hle, hout']
    have hindex : ((out.length : Int) - off - 1).toNat = out.length - (off + 1) := by omega
    have hcopy := copyReference_eq len (Nat.succ_pos off) hle hout'
    by_cases hfits : out'.length ≤ outLen
    · rw [expandWithin_eq_some.mpr ⟨hexpand, hfits⟩]
      simp only [hindex]
      rw [if_neg (by omega), if_neg (by omega), hcopy]
      rfl
    · rw [expandWithin_eq_none hexpand hfits]
      exact if_pos (by omega)
  · have hnone : expandWithin outLen out (.copy (off + 1) (len + 2)) = none := by
      rw [expandWithin, Phrase.expand, if_neg hle]
      rfl
    rw [hnone]
    split
    · rfl
    · rw [if_pos (by omega)]
      rfl

/-- A round that meets a code writes what it stands for. -/
theorem decompressRound_code (outLen : Nat) {t : Phrase UInt8} (ht : WellFormed t)
    (rest out : Bytes) :
    decompressRound outLen (code t ++ rest) out =
      .ok ((expandWithin outLen out t).map fun out' => (rest, out')) := by
  cases t with
  | literal run =>
      obtain ⟨hpos, hmax⟩ := ht
      have hctrl : (run.length - 1).toUInt8.toNat = run.length - 1 :=
        toNat_toUInt8 (by simp [maxLit] at hmax; omega)
      have hlit : run.length - 1 < 1 <<< 5 := by simp [maxLit] at hmax ⊢; omega
      have hrun : run.length - 1 + 1 = run.length := by omega
      rw [code, List.cons_append, decompressRound]
      simp only [hctrl, if_pos hlit, hrun, List.take_left, List.drop_left]
      have hexpand : (Phrase.literal run).expand out = some (out ++ run) := rfl
      have hlength : (out ++ run).length = out.length + run.length := List.length_append
      by_cases hfits : (out ++ run).length ≤ outLen
      · rw [expandWithin_eq_some.mpr ⟨hexpand, hfits⟩, if_neg (by omega),
          if_neg (by rw [List.length_append]; omega)]
        rfl
      · rw [expandWithin_eq_none hexpand hfits, if_pos (by omega)]
        rfl
  | copy distance length =>
      obtain ⟨hd, hdmax, hlen, hlenmax⟩ := ht
      simp only [maxOff, maxRef] at hdmax hlenmax
      obtain ⟨off, rfl⟩ := Nat.exists_eq_add_of_le' hd
      obtain ⟨len, rfl⟩ := Nat.exists_eq_add_of_le' (show 2 ≤ length by omega)
      rw [code, Nat.add_sub_cancel, Nat.add_sub_cancel]
      obtain ⟨ctrl, low, h32, h7, rfl, rfl⟩ | ⟨ctrl, more, low, h7, rfl, rfl⟩ :=
        @exists_control off len (by omega) (by omega) (by omega)
      · rw [codeReference_short low h7, List.cons_append, List.cons_append, List.nil_append,
          decompressRound, if_neg (by simp; omega)]
        simp only [shiftRight_five, if_neg h7]
        apply decompressReference_eq
        rw [and_31, Nat.shiftLeft_eq]
        push_cast
        ring
      · rw [codeReference_long more low h7, List.cons_append, List.cons_append, List.cons_append,
          List.nil_append, decompressRound, if_neg (by simp; omega)]
        simp only [shiftRight_five, h7, if_true]
        apply decompressReference_eq
        rw [and_31, Nat.shiftLeft_eq]
        push_cast
        ring

/-- A round that meets no code ends the function. -/
theorem decompressRound_no_code (outLen : Nat) {ip : Bytes} (hip : ip ≠ [])
    (hcode : ∀ t, WellFormed t → ¬ code t <+: ip) (out : Bytes) :
    decompressRound outLen ip out = .ok none := by
  obtain ⟨ctrl, ip, rfl⟩ := List.exists_cons_of_ne_nil hip
  have hctrl := ctrl.toNat_lt
  rw [decompressRound]
  split
  next hlit =>
    have hshort : ctrl.toNat + 1 > ip.length := by
      by_contra hlong
      have hrun : (ip.take (ctrl.toNat + 1)).length = ctrl.toNat + 1 := by
        rw [List.length_take]
        omega
      apply hcode (.literal (ip.take (ctrl.toNat + 1)))
      · rw [WellFormed, hrun]
        exact ⟨Nat.succ_pos _, hlit⟩
      · rw [code, hrun, Nat.add_sub_cancel, UInt8.toNat_inj.mp (toNat_toUInt8 hctrl)]
        exact List.cons_prefix_cons.mpr ⟨rfl, List.take_prefix _ _⟩
    dsimp only
    rw [if_pos hshort]
    split <;> rfl
  next href =>
    have h32 : 32 ≤ ctrl.toNat := by simpa using href
    cases ip with
    | nil => rfl
    | cons more ip =>
        have hmore := more.toNat_lt
        by_cases h7 : ctrl.toNat / 32 = 7
        · cases ip with
          | nil =>
              simp only [shiftRight_five, h7, if_true]
              rfl
          | cons low ip =>
              exfalso
              apply hcode (.copy (ctrl.toNat % 32 * 256 + low.toNat + 1) (7 + more.toNat + 2))
              · have := low.toNat_lt
                simp only [WellFormed, maxOff, maxRef]
                omega
              · rw [code, Nat.add_sub_cancel, Nat.add_sub_cancel, codeReference_long _ _ h7]
                exact List.prefix_append [ctrl, more, low] ip
        · exfalso
          apply hcode (.copy (ctrl.toNat % 32 * 256 + more.toNat + 1) (ctrl.toNat / 32 + 2))
          · simp only [WellFormed, maxOff, maxRef]
            omega
          · rw [code, Nat.add_sub_cancel, Nat.add_sub_cancel, codeReference_short _ h7]
            exact List.prefix_append [ctrl, more] ip

theorem decompressRound_spec (outLen : Nat) {ip : Bytes} (hip : ip ≠ []) (out : Bytes) :
    ∃ r, decompressRound outLen ip out = .ok r ∧ ∀ rest out', r = some (rest, out') ↔
      ∃ t, WellFormed t ∧ ip = code t ++ rest ∧ t.expand out = some out' ∧
        out'.length ≤ outLen := by
  by_cases hcode : ∃ t rest, WellFormed t ∧ ip = code t ++ rest
  · obtain ⟨t, rest, ht, rfl⟩ := hcode
    have hround := decompressRound_code outLen ht rest out
    refine ⟨_, hround, fun rest' out' => ⟨fun h => ?_, ?_⟩⟩
    · obtain ⟨out'', hout'', heq⟩ := Option.map_eq_some_iff.mp h
      obtain ⟨rfl, rfl⟩ := Prod.mk.inj heq
      exact ⟨t, ht, rfl, expandWithin_eq_some.mp hout''⟩
    · rintro ⟨t', ht', hip', hout'⟩
      rw [hip', decompressRound_code outLen ht' rest' out] at hround
      rw [← Except.ok.inj hround, expandWithin_eq_some.mpr hout']
      rfl
  · have hno : ∀ t, WellFormed t → ¬ code t <+: ip := by
      rintro t ht ⟨rest, hrest⟩
      exact hcode ⟨t, rest, ht, hrest.symm⟩
    refine ⟨none, decompressRound_no_code outLen hip hno out, fun rest out' => ⟨nofun, ?_⟩⟩
    rintro ⟨t, ht, hip', -⟩
    exact absurd ⟨t, rest, ht, hip'⟩ hcode

/-! ## Whole texts -/

theorem decompressLoop_spec (outLen : Nat) {fuel : Nat} {ip : Bytes} (hip : ip ≠ [])
    (hfuel : ip.length ≤ fuel) (out : Bytes) :
    ∃ r, decompressLoop outLen fuel ip out = .ok r ∧ ∀ res, r = some res ↔
      ∃ phrases, (∀ t ∈ phrases, WellFormed t) ∧ ip = phrases.flatMap code ∧
        expand phrases out = some res ∧ res.length ≤ outLen := by
  induction fuel generalizing ip out with
  | zero => exact absurd (List.eq_nil_of_length_eq_zero (Nat.le_zero.mp hfuel)) hip
  | succ fuel ih =>
      obtain ⟨r, hround, hr⟩ := decompressRound_spec outLen hip out
      rw [decompressLoop, hround, ok_bind]
      -- every way to read the input begins with the code that the round has met
      have hfirst : ∀ phrases res, (∀ t ∈ phrases, WellFormed t) → ip = phrases.flatMap code →
          expand phrases out = some res → res.length ≤ outLen →
          ∃ t phrases' out', phrases = t :: phrases' ∧ r = some (phrases'.flatMap code, out') ∧
            expand phrases' out' = some res := by
        intro phrases res hphrases heq hexpand hres
        cases phrases with
        | nil => exact absurd heq hip
        | cons t phrases' =>
            rw [expand_cons] at hexpand
            obtain ⟨out', hout', hrest⟩ := Option.bind_eq_some_iff.mp hexpand
            have hlen := (isPrefix_expand hrest).length_le.trans hres
            refine ⟨t, phrases', out', rfl, (hr _ _).mpr ?_, hrest⟩
            exact ⟨t, hphrases t List.mem_cons_self, heq, hout', hlen⟩
      cases r with
      | none =>
          refine ⟨none, rfl, fun res => ⟨nofun, ?_⟩⟩
          rintro ⟨phrases, hphrases, heq, hexpand, hres⟩
          obtain ⟨t, phrases', out', -, hsome, -⟩ := hfirst phrases res hphrases heq hexpand hres
          exact absurd hsome nofun
      | some p =>
          obtain ⟨rest, out'⟩ := p
          obtain ⟨t, ht, hip', hout', hlen⟩ := (hr rest out').mp rfl
          by_cases hdone : rest = []
          · refine ⟨some out', if_pos hdone, fun res => ⟨?_, ?_⟩⟩
            · rintro ⟨⟩
              refine ⟨[t], by simpa using ht, by simpa [hdone] using hip', ?_, hlen⟩
              rw [expand_cons, hout']
              rfl
            · rintro ⟨phrases, hphrases, heq, hexpand, hres⟩
              obtain ⟨t', phrases', out'', rfl, hsome, hrest⟩ :=
                hfirst phrases res hphrases heq hexpand hres
              obtain ⟨hnil, rfl⟩ := Prod.mk.inj (Option.some.inj hsome)
              cases phrases' with
              | nil => exact hrest
              | cons t'' phrases'' =>
                  rw [hdone, List.flatMap_cons] at hnil
                  exact absurd (List.append_eq_nil_iff.mp hnil.symm).1 (code_ne_nil t'')
          · have hshort : rest.length ≤ fuel := by
              have hpos := List.length_pos_iff.mpr (code_ne_nil t)
              have := congrArg List.length hip'
              rw [List.length_append] at this
              omega
            obtain ⟨r', hloop, hr'⟩ := ih hdone hshort out'
            refine ⟨r', (if_neg hdone).trans hloop, fun res => (hr' res).trans ⟨?_, ?_⟩⟩
            · rintro ⟨phrases, hphrases, rfl, hexpand, hres⟩
              refine ⟨t :: phrases, List.forall_mem_cons.mpr ⟨ht, hphrases⟩, hip', ?_, hres⟩
              rw [expand_cons, hout']
              exact hexpand
            · rintro ⟨phrases, hphrases, heq, hexpand, hres⟩
              obtain ⟨t', phrases', out'', rfl, hsome, hrest⟩ :=
                hfirst phrases res hphrases heq hexpand hres
              obtain ⟨rfl, rfl⟩ := Prod.mk.inj (Option.some.inj hsome)
              exact ⟨phrases', (List.forall_mem_cons.mp hphrases).2, rfl, hrest, hres⟩

theorem lzfDecompress_spec (outLen : Nat) {inData : Bytes} (hin : inData ≠ []) :
    ∃ r, lzfDecompress inData outLen = .ok r ∧ ∀ out, r = some out ↔
      ∃ phrases, (∀ t ∈ phrases, WellFormed t) ∧ inData = phrases.flatMap code ∧
        expand phrases [] = some out ∧ out.length ≤ outLen :=
  decompressLoop_spec outLen hin (Nat.le_succ _) []

/-- The decompressor never leaves its buffers, except that without any input it reads a byte that
is not there. It accepts the codes of texts that fit, and gives these texts. -/
theorem lzfDecompress_accepts (outLen : Nat) (inData : Bytes) :
    (inData = [] ∧ lzfDecompress inData outLen = .error .outOfBounds) ∨
      ∃ r, lzfDecompress inData outLen = .ok r ∧ ∀ out, r = some out ↔
        ∃ phrases, (∀ t ∈ phrases, WellFormed t) ∧ inData = phrases.flatMap code ∧
          expand phrases [] = some out ∧ out.length ≤ outLen := by
  by_cases hin : inData = []
  · subst hin
    exact .inl ⟨rfl, rfl⟩
  · exact .inr (lzfDecompress_spec outLen hin)

end Blogd.Lzf
