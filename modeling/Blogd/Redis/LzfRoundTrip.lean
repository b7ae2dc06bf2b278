import Blogd.Redis.LzfFormat
import Blogd.Foundation.Ensures

/-! # Compressing and decompressing

The compressor trusts nothing that its table says: a slot leads to a back reference only after
the bytes have been compared. So whatever the table held at first, what it writes stays within
the output and is decompressed to the input.
-/

namespace Blogd

namespace Lzf

open BackReference

variable {inData : Bytes} {outLen : Nat}

/-! ## Matches -/

/-- The input is the same at two places for so many bytes. -/
def SameRun (inData : Bytes) (ref ip n : Nat) : Prop :=
  ∀ k < n, inData[ref + k]? = inData[ip + k]?

theorem SameRun.succ {ref ip n : Nat} (h : SameRun inData ref ip n)
    (hn : inData[ref + n]? = inData[ip + n]?) : SameRun inData ref ip (n + 1) := by
  intro k hk
  obtain hlt | rfl := Nat.lt_succ_iff_lt_or_eq.mp hk
  · exact h k hlt
  · exact hn

theorem inputAt_eq {i : Nat} (hi : i < inData.length) : inputAt inData i = .ok inData[i] := by
  rw [inputAt, List.getElem?_eq_getElem hi]

theorem sameAt_spec {i j : Nat} (hi : i < inData.length) (hj : j < inData.length) :
    ∃ b, sameAt inData i j = .ok b ∧ (b = true ↔ inData[i]? = inData[j]?) := by
  rw [sameAt, inputAt_eq hi, inputAt_eq hj]
  refine ⟨_, rfl, ?_⟩
  rw [List.getElem?_eq_getElem hi, List.getElem?_eq_getElem hj, Option.some.injEq]
  exact decide_eq_true_iff

theorem matchUnrolled_spec {ref ip : Nat} (href : ref < ip) (n : Nat) {len : Nat}
    (hlen : ip + len + n < inData.length) (hsame : SameRun inData ref ip (len + 1)) :
    Ensures noFault
      (fun r => SameRun inData ref ip r.1 ∧ len ≤ r.1 ∧ r.1 ≤ len + n ∧
        (r.2 = true → len < r.1) ∧
        (r.2 = false → r.1 = len + n ∧ SameRun inData ref ip (r.1 + 1)))
      (matchUnrolled inData ref ip n len) := by
  induction n generalizing len with
  | zero =>
      have hrun : SameRun inData ref ip len := fun k hk => hsame k (Nat.lt_succ_of_lt hk)
      exact ⟨hrun, le_refl _, le_refl _, nofun, fun _ => ⟨rfl, hsame⟩⟩
  | succ n ih =>
      obtain ⟨b, hb, hiff⟩ := @sameAt_spec inData (ref + (len + 1)) (ip + (len + 1))
        (by omega) (by omega)
      rw [matchUnrolled, hb, ok_bind]
      cases b with
      | true =>
          apply (ih (by omega) (hsame.succ (hiff.mp rfl))).mono
          rintro ⟨len', broke⟩ ⟨hrun, hle, hmax, hbroke, hwhole⟩
          refine ⟨hrun, by omega, by omega, fun h => ?_, fun h => ?_⟩
          · have := hbroke h
            omega
          · obtain ⟨heq, hrun'⟩ := hwhole h
            exact ⟨by dsimp only at heq ⊢; omega, hrun'⟩
      | false => exact ⟨hsame, by omega, by omega, fun _ => Nat.lt_succ_self _, nofun⟩

theorem matchLoop_spec {ref ip maxlen : Nat} (href : ref < ip)
    (hmax : ip + maxlen < inData.length) {fuel len : Nat} (hfuel : maxlen < fuel + len + 1)
    (hpos : 0 < fuel) (hsame : SameRun inData ref ip (len + 1)) :
    Ensures noFault
      (fun n => SameRun inData ref ip n ∧ len + 1 ≤ n ∧ n ≤ max (len + 1) maxlen)
      (matchLoop inData ref ip maxlen fuel len) := by
  induction fuel generalizing len with
  | zero => omega
  | succ fuel ih =>
      rw [matchLoop]
      split
      next hlt =>
        obtain ⟨b, hb, hiff⟩ := @sameAt_spec inData (ref + (len + 1)) (ip + (len + 1))
          (by omega) (by omega)
        rw [hb, ok_bind]
        cases b with
        | true =>
            apply (ih (by omega) (by omega) (hsame.succ (hiff.mp rfl))).mono
            rintro n ⟨hrun, hle, hn⟩
            exact ⟨hrun, by omega, by omega⟩
        | false => exact ⟨hsame, le_refl _, le_max_left _ _⟩
      next => exact ⟨hsame, le_refl _, le_max_left _ _⟩

/-- The length of a match is that of a stretch that is the same, and it has a code. -/
theorem matchLength_spec {ref ip : Nat} (href : ref < ip) (hip : ip + 2 < inData.length)
    (hsame : SameRun inData ref ip 3) :
    Ensures noFault
      (fun n => SameRun inData ref ip n ∧ 3 ≤ n ∧ n ≤ maxRef ∧ ip + n ≤ inData.length)
      (matchLength inData ref ip) := by
  have hmaxRef : maxRef = 264 := rfl
  unfold matchLength
  generalize hmaxlen : min (inData.length - ip - 2) maxRef = maxlen
  dsimp only
  split
  next hlong =>
    apply (matchUnrolled_spec href 16 (by omega) hsame).bind
    rintro ⟨len, broke⟩ ⟨hrun, -, hle, hbroke, hwhole⟩
    dsimp only at hrun hle hbroke hwhole
    cases broke with
    | true =>
        have := hbroke rfl
        exact ⟨hrun, by omega, by omega, by omega⟩
    | false =>
        obtain ⟨rfl, hrun'⟩ := hwhole rfl
        apply (matchLoop_spec href (by omega) (by omega) (by omega) hrun').mono
        rintro n ⟨hn, hmin, hmax⟩
        exact ⟨hn, by omega, by omega, by omega⟩
  next hshort =>
    apply (matchLoop_spec href (by omega) (by omega) (by omega) hsame).mono
    rintro n ⟨hn, hmin, hmax⟩
    exact ⟨hn, by omega, by omega, by omega⟩

theorem isMatch_spec (ref : Nat) {ip : Nat} (hip : ip + 2 < inData.length) :
    Ensures noFault
      (fun b => b = true → ref < ip ∧ ip - ref - 1 < maxOff ∧ SameRun inData ref ip 3)
      (isMatch inData ref ip) := by
  unfold isMatch
  split
  next hnear =>
    obtain ⟨b₂, hb₂, hiff₂⟩ := @sameAt_spec inData (ref + 2) (ip + 2) (by omega) (by omega)
    obtain ⟨b₀, hb₀, hiff₀⟩ := @sameAt_spec inData ref ip (by omega) (by omega)
    obtain ⟨b₁, hb₁, hiff₁⟩ := @sameAt_spec inData (ref + 1) (ip + 1) (by omega) (by omega)
    rw [hb₂, ok_bind, hb₀, hb₁]
    cases b₂ with
    | false => exact nofun
    | true =>
        cases b₀ with
        | false => exact nofun
        | true =>
            intro h₁
            have hnone : SameRun inData ref ip 0 := fun k hk => absurd hk (Nat.not_lt_zero k)
            exact ⟨hnear.1, hnear.2.1,
              ((hnone.succ (hiff₀.mp rfl)).succ (hiff₁.mp h₁)).succ (hiff₂.mp rfl)⟩
  next => exact nofun

/-! ## Runs and back references in the output -/

/-- What has been written stands for the input up to the run that is under way. -/
structure Written (inData : Bytes) (phrases : List (Phrase UInt8)) (ip lit : Nat) (out : Bytes) :
    Prop where
  wellFormed : ∀ t ∈ phrases, WellFormed t
  lit_le_ip : lit ≤ ip
  ip_le : ip ≤ inData.length
  lit_le : lit ≤ maxLit
  text : expand phrases [] = some (inData.take (ip - lit))
  out : out = phrases.flatMap code ++ 0 :: (inData.drop (ip - lit)).take lit

section Runs

variable {phrases : List (Phrase UInt8)} {ip lit : Nat} {out : Bytes}

theorem Written.length_run (h : Written inData phrases ip lit out) :
    ((inData.drop (ip - lit)).take lit).length = lit := by
  have := h.ip_le
  have := h.lit_le_ip
  rw [List.length_take, List.length_drop]
  omega

theorem Written.length_out (h : Written inData phrases ip lit out) :
    out.length = (phrases.flatMap code).length + 1 + lit := by
  have hlen := congrArg List.length h.out
  rw [List.length_append, List.length_cons, h.length_run] at hlen
  omega

/-- The codes after a run has ended: an empty one is undone. -/
def withRun (inData : Bytes) (phrases : List (Phrase UInt8)) (ip lit : Nat) : List (Phrase UInt8) :=
  if lit = 0 then phrases else phrases ++ [.literal ((inData.drop (ip - lit)).take lit)]

theorem Written.wellFormed_withRun (h : Written inData phrases ip lit out) :
    ∀ t ∈ withRun inData phrases ip lit, WellFormed t := by
  unfold withRun
  split
  next => exact h.wellFormed
  next hlit =>
    intro t ht
    obtain ht | ht := List.mem_append.mp ht
    · exact h.wellFormed t ht
    · obtain rfl := List.mem_singleton.mp ht
      rw [WellFormed, h.length_run]
      exact ⟨Nat.pos_of_ne_zero hlit, h.lit_le⟩

theorem Written.expand_withRun (h : Written inData phrases ip lit out) :
    expand (withRun inData phrases ip lit) [] = some (inData.take ip) := by
  unfold withRun
  split
  next hlit =>
    have htext := h.text
    rwa [hlit, Nat.sub_zero] at htext
  next =>
    apply expand_snoc h.text
    rw [Phrase.expand, ← List.take_add, Nat.sub_add_cancel h.lit_le_ip]

/-- The length that is written in front of a run. -/
theorem runLength_byte {n : Nat} (hn : n ≠ 0) : (n + 255).toUInt8 = (n - 1).toUInt8 := by
  apply UInt8.toNat_inj.mp
  simp only [Nat.toUInt8, UInt8.toNat_ofNat']
  omega

/-- Ending a run writes its length in front of it. -/
theorem Written.stopRun (h : Written inData phrases ip lit out)
    (hroom : (phrases.flatMap code).length < outLen) :
    ∃ out', stopRun outLen lit out = .ok out' ∧ out'.length = out.length ∧
      undoRun lit out' = (withRun inData phrases ip lit).flatMap code := by
  have hlen := h.length_out
  have hindex : out.length - lit - 1 = (phrases.flatMap code).length := by omega
  refine ⟨_, if_pos ⟨by omega, by omega⟩, List.length_set, ?_⟩
  rw [hindex, h.out, List.set_append_right _ _ (le_refl _), Nat.sub_self, List.set_cons_zero,
    undoRun, withRun]
  split
  next hlit =>
    rw [hlit, List.take_zero, List.dropLast_concat]
  next hlit =>
    rw [List.flatMap_append, List.flatMap_singleton, code, h.length_run, runLength_byte hlit]

theorem put_append {bs : Bytes} (b : UInt8) (hroom : out.length + bs.length < outLen) :
    put outLen (out ++ bs) b = .ok (out ++ (bs ++ [b])) := by
  rw [put, if_pos (by rwa [List.length_append]), List.append_assoc]

theorem put_eq (b : UInt8) (hroom : out.length < outLen) :
    put outLen out b = .ok (out ++ [b]) :=
  if_pos hroom

theorem putReference_eq (off len : Nat) (hroom : out.length + 3 ≤ outLen) :
    putReference outLen off len out = .ok (out ++ codeReference off len) := by
  have h₁ : ∀ b, put outLen out b = .ok (out ++ [b]) := fun b => put_eq b (by omega)
  have h₂ : ∀ b₁ b, put outLen (out ++ [b₁]) b = .ok (out ++ [b₁, b]) :=
    fun b₁ b => put_append b (by rw [List.length_singleton]; omega)
  have h₃ : ∀ b₁ b₂ b, put outLen (out ++ [b₁, b₂]) b = .ok (out ++ [b₁, b₂, b]) :=
    fun b₁ b₂ b => put_append b (by rw [List.length_cons, List.length_singleton]; omega)
  unfold putReference codeReference
  split
  next => simp only [h₁, h₂, ok_bind]
  next => simp only [h₁, h₂, h₃, ok_bind]

theorem length_codeReference_le (off len : Nat) : (codeReference off len).length ≤ 3 := by
  unfold codeReference
  split
  · exact Nat.le_succ 2
  · exact le_refl 3

/-- A new run after the codes so far. -/
theorem Written.start (hwell : ∀ t ∈ phrases, WellFormed t) (hip : ip ≤ inData.length)
    (htext : expand phrases [] = some (inData.take ip)) :
    Written inData phrases ip 0 (startRun (phrases.flatMap code)) where
  wellFormed := hwell
  lit_le_ip := Nat.zero_le ip
  ip_le := hip
  lit_le := Nat.zero_le _
  text := htext
  out := rfl

end Runs

/-! ## The rounds -/

/-- The state between two rounds. Only a run that has not begun may have its place behind the
end of the output. -/
structure Compressing (inData : Bytes) (outLen : Nat) (c : Compressor) : Prop where
  written : ∃ phrases, Written inData phrases c.ip c.lit c.out
  lit_lt : c.lit < maxLit
  room : c.out.length ≤ outLen + 1

/-- A literal makes the output longer by one byte, or by two when it fills the run. -/
theorem putLiteral_spec {c : Compressor} (hc : Compressing inData outLen c)
    (hip : c.ip < inData.length) (hroom : c.out.length < outLen) :
    Ensures noFault
      (fun c' => Compressing inData outLen c' ∧ c'.ip = c.ip + 1 ∧
        (c.lit + 1 < maxLit ∧ c'.lit = c.lit + 1 ∧ c'.out.length = c.out.length + 1 ∨
          c.lit + 1 = maxLit ∧ c'.lit = 0 ∧ c'.out.length = c.out.length + 2))
      (putLiteral inData outLen c) := by
  obtain ⟨phrases, hw⟩ := hc.written
  have hle := hw.lit_le_ip
  have hlength : (c.out ++ [inData[c.ip]]).length = c.out.length + 1 := List.length_append
  -- the run with the literal in it
  have hnext : Written inData phrases (c.ip + 1) (c.lit + 1) (c.out ++ [inData[c.ip]]) := by
    have hstart : c.ip + 1 - (c.lit + 1) = c.ip - c.lit := by omega
    refine ⟨hw.wellFormed, by omega, hip, hc.lit_lt, hstart ▸ hw.text, ?_⟩
    have hlast : (inData.drop (c.ip - c.lit))[c.lit]? = some inData[c.ip] := by
      rw [List.getElem?_drop, Nat.sub_add_cancel hle, List.getElem?_eq_getElem hip]
    rw [hstart, List.take_add_one, hlast, hw.out, List.append_assoc]
    rfl
  unfold putLiteral
  rw [inputAt_eq hip, ok_bind, put_eq _ hroom, ok_bind]
  split
  next hfull =>
    have hcodes : (phrases.flatMap code).length < outLen := by
      have := hw.length_out
      omega
    obtain ⟨out', hstop, hlen', hundo⟩ := hnext.stopRun hcodes
    rw [undoRun, if_neg (Nat.succ_ne_zero _)] at hundo
    have hsize : (startRun out').length = c.out.length + 2 := by
      rw [startRun, List.length_append, List.length_singleton]
      omega
    have hw' := Written.start hnext.wellFormed_withRun hip hnext.expand_withRun
    rw [← hundo] at hw'
    rw [hstop, ok_bind]
    exact ⟨⟨⟨_, hw'⟩, Nat.succ_pos _, by dsimp only; omega⟩, rfl, .inr ⟨hfull, rfl, hsize⟩⟩
  next hmore =>
    have := hc.lit_lt
    refine ⟨⟨⟨phrases, hnext⟩, by dsimp only; omega, by dsimp only; omega⟩, rfl,
      .inl ⟨by omega, rfl, hlength⟩⟩

theorem exists_frst {ip : Nat} (hip : ip + 1 < inData.length) : ∃ v, frst inData ip = .ok v := by
  rw [frst, inputAt_eq (by omega), inputAt_eq hip]
  exact ⟨_, rfl⟩

theorem exists_next (v : UInt32) {ip : Nat} (hip : ip + 2 < inData.length) :
    ∃ v', next v inData ip = .ok v' := by
  rw [next, inputAt_eq hip]
  exact ⟨_, rfl⟩

theorem length_undoRun (lit : Nat) (out : Bytes) :
    (undoRun lit out).length = out.length - if lit = 0 then 1 else 0 := by
  unfold undoRun
  split
  · exact List.length_dropLast
  · rfl

/-- What a round may leave: it moves on, and `break` is for the last two bytes. -/
def Follows (inData : Bytes) (outLen : Nat) (c : Compressor) : Round → Prop
  | .giveUp => True
  | .leave c' => Compressing inData outLen c' ∧ inData.length ≤ c'.ip + 2
  | .again c' => Compressing inData outLen c' ∧ c.ip < c'.ip

theorem matchRound_spec {c : Compressor} (hc : Compressing inData outLen c)
    (hip : c.ip + 2 < inData.length) {off : Nat} (hoff : off < maxOff) (hback : off < c.ip)
    (hsame : SameRun inData (c.ip - off - 1) c.ip 3) :
    Ensures noFault (Follows inData outLen c) (matchRound inData outLen off c) := by
  obtain ⟨phrases, hw⟩ := hc.written
  have hlength := hw.length_out
  unfold matchRound
  dsimp only
  apply Ensures.ite
  · exact fun _ => trivial
  intro hroom
  have hcodes : (phrases.flatMap code).length < outLen := by
    split at hroom <;> omega
  obtain ⟨out', hstop, hlen', hundo⟩ := hw.stopRun hcodes
  have hundone : ((withRun inData phrases c.ip c.lit).flatMap code).length + 4 < outLen := by
    rw [← hundo, length_undoRun, hlen']
    omega
  rw [hstop, ok_bind, hundo]
  apply (matchLength_spec (by omega) hip hsame).bind
  rintro octets ⟨hrun, hmin, hmax, hend⟩
  rw [putReference_eq off (octets - 2) (by omega), ok_bind]
  -- the run that has ended and the back reference after it
  have hw' : Written inData (withRun inData phrases c.ip c.lit ++ [.copy (off + 1) octets])
      (c.ip + octets) 0 (startRun ((withRun inData phrases c.ip c.lit).flatMap code ++
        codeReference off (octets - 2))) := by
    have hcopy : (Phrase.copy (off + 1) octets).expand (inData.take c.ip) =
        some (inData.take (c.ip + octets)) := by
      rw [Phrase.expand, if_pos (by rw [List.length_take]; omega)]
      exact copyBack_take (Nat.succ_pos off) hback hend hrun
    have h := @Written.start inData (withRun inData phrases c.ip c.lit ++ [.copy (off + 1) octets])
      (c.ip + octets) ?_ hend (expand_snoc hw.expand_withRun hcopy)
    · rwa [List.flatMap_append, List.flatMap_singleton] at h
    · intro t ht
      obtain ht | ht := List.mem_append.mp ht
      · exact hw.wellFormed_withRun t ht
      · obtain rfl := List.mem_singleton.mp ht
        exact ⟨Nat.succ_pos off, hoff, hmin, hmax⟩
  have hsize : (startRun ((withRun inData phrases c.ip c.lit).flatMap code ++
      codeReference off (octets - 2))).length ≤ outLen + 1 := by
    have := length_codeReference_le off (octets - 2)
    rw [startRun, List.length_append, List.length_append, List.length_singleton]
    omega
  apply Ensures.ite
  · intro hlast
    exact ⟨⟨⟨_, hw'⟩, Nat.succ_pos _, hsize⟩, by dsimp only; omega⟩
  · intro hmore
    obtain ⟨v₁, hv₁⟩ := @exists_frst inData (c.ip + octets - 2) (by omega)
    obtain ⟨v₂, hv₂⟩ := @exists_next inData v₁ (c.ip + octets - 2) (by omega)
    obtain ⟨v₃, hv₃⟩ := @exists_next inData v₂ (c.ip + octets - 1) (by omega)
    rw [hv₁, ok_bind, hv₂, ok_bind, hv₃]
    exact ⟨⟨⟨_, hw'⟩, Nat.succ_pos _, hsize⟩, by dsimp only; omega⟩

theorem compressRound_spec {c : Compressor} (hc : Compressing inData outLen c)
    (hip : c.ip + 2 < inData.length) :
    Ensures noFault (Follows inData outLen c) (compressRound inData outLen c) := by
  obtain ⟨hval, hhval⟩ := exists_next c.hval hip
  unfold compressRound
  rw [hhval, ok_bind]
  generalize (c.htab (idx hval)).toNat = ref
  generalize Function.update c.htab (idx hval) c.ip.toUInt32 = htab
  have hc' : Compressing inData outLen { c with hval := hval, htab := htab } :=
    ⟨hc.written, hc.lit_lt, hc.room⟩
  apply (isMatch_spec ref hip).bind
  intro b hb
  apply Ensures.ite
  · intro hmatch
    obtain ⟨hlt, hoff, hsame⟩ := hb hmatch
    have href : c.ip - (c.ip - ref - 1) - 1 = ref := by omega
    exact matchRound_spec hc' hip hoff (by dsimp only; omega) (href.symm ▸ hsame)
  intro _
  apply Ensures.ite
  · exact fun _ => trivial
  intro hroom
  apply (putLiteral_spec hc' (by dsimp only; omega) (Nat.lt_of_not_le hroom)).bind
  rintro c' ⟨hc'', hip', -⟩
  exact ⟨hc'', by rw [hip']; exact Nat.lt_succ_self _⟩

theorem compressLoop_spec {fuel : Nat} {c : Compressor} (hc : Compressing inData outLen c)
    (hfuel : inData.length < c.ip + fuel + 2) (hpos : 0 < fuel) :
    Ensures noFault
      (fun r => ∀ c', r = some c' → Compressing inData outLen c' ∧ inData.length ≤ c'.ip + 2)
      (compressLoop inData outLen fuel c) := by
  induction fuel generalizing c with
  | zero => exact absurd hpos (lt_irrefl 0)
  | succ fuel ih =>
      rw [compressLoop]
      apply Ensures.ite
      · intro hip
        apply (compressRound_spec hc hip).bind
        intro round hround
        cases round with
        | giveUp => exact nofun
        | leave c' =>
            rintro _ ⟨⟩
            exact hround
        | again c' =>
            have := hround.2
            exact ih hround.1 (by omega) (by omega)
      · rintro hend _ ⟨⟩
        exact ⟨hc, by omega⟩

/-! ## The last bytes -/

/-- How long the output gets by so many literals, when they fill at most one run. -/
def finalLength (c : Compressor) (left : Nat) : Nat :=
  c.out.length + left + if maxLit ≤ c.lit + left then 1 else 0

theorem literalLoop_spec {fuel : Nat} {c : Compressor} (hc : Compressing inData outLen c)
    {left : Nat} (hleft : inData.length = c.ip + left) (hmax : left < maxLit)
    (hroom : finalLength c left ≤ outLen) (hfuel : left < fuel) :
    Ensures noFault
      (fun c' => Compressing inData outLen c' ∧ c'.ip = inData.length ∧ c'.out.length ≤ outLen)
      (literalLoop inData outLen fuel c) := by
  induction fuel generalizing c left with
  | zero => exact absurd hfuel (Nat.not_lt_zero _)
  | succ fuel ih =>
      have hlit := hc.lit_lt
      unfold finalLength at hroom
      rw [literalLoop]
      apply Ensures.ite
      · intro hip
        obtain ⟨left, rfl⟩ := Nat.exists_eq_add_one_of_ne_zero (show left ≠ 0 by omega)
        apply (putLiteral_spec hc hip (by omega)).bind
        rintro c' ⟨hc', hip', hout⟩
        refine @ih c' hc' left (by omega) (by omega) ?_ (by omega)
        unfold finalLength
        -- a run that is filled leaves no other one to be filled
        obtain ⟨-, hlit', hlen⟩ | ⟨hfull, hlit', hlen⟩ := hout
        · rw [hlit', hlen]
          rw [show c.lit + 1 + left = c.lit + (left + 1) by omega]
          omega
        · rw [hlit', hlen, if_neg (by omega)]
          rw [if_pos (by omega)] at hroom
          omega
      · intro hend
        exact ⟨hc, by omega, by split at hroom <;> omega⟩

theorem lzfCompress_spec (htab : Nat → UInt32) (hlen : inData.length ≠ 1) (outLen : Nat) :
    Ensures noFault
      (fun r => ∀ out, r = some out → out.length ≤ outLen ∧
        ∃ phrases, (∀ t ∈ phrases, WellFormed t) ∧ out = phrases.flatMap code ∧
          expand phrases [] = some inData)
      (lzfCompress htab inData outLen) := by
  unfold lzfCompress
  apply Ensures.ite
  · exact fun _ => nofun
  intro hsome
  obtain ⟨hval, hhval⟩ := @exists_frst inData 0 (by omega)
  rw [hhval, ok_bind]
  have hstart : Compressing inData outLen ⟨0, hval, htab, 0, startRun []⟩ :=
    ⟨⟨[], Written.start (List.forall_mem_nil _) (Nat.zero_le _) rfl⟩, Nat.succ_pos _,
      Nat.succ_le_succ (Nat.zero_le _)⟩
  apply (compressLoop_spec hstart (by dsimp only; omega) (by omega)).bind
  intro r hr
  cases r with
  | none => exact nofun
  | some c =>
      obtain ⟨hc, hend⟩ := hr c rfl
      apply Ensures.ite
      · exact fun _ => nofun
      intro hroom
      obtain ⟨phrases, hw⟩ := hc.written
      have hmaxLit : maxLit = 32 := rfl
      apply (@literalLoop_spec _ _ (inData.length + 1) _ hc (inData.length - c.ip)
        (by have := hw.ip_le; omega) (by omega) ?_ (by omega)).bind
      · rintro c' ⟨hc', hip', hfits⟩
        obtain ⟨phrases', hw'⟩ := hc'.written
        have hlength := hw'.length_out
        obtain ⟨out', hstop, hlen', hundo⟩ := @Written.stopRun _ outLen _ _ _ _ hw' (by omega)
        rw [hstop, ok_bind]
        rintro _ ⟨⟩
        refine ⟨?_, _, hw'.wellFormed_withRun, hundo, ?_⟩
        · rw [length_undoRun]
          omega
        · rw [hw'.expand_withRun, hip', List.take_length]
      · unfold finalLength
        split <;> omega

/-- What a list of phrases writes is decompressed to the text they stand for. -/
theorem lzfDecompress_phrases {text out : Bytes} {phrases : List (Phrase UInt8)} (hne : text ≠ [])
    (hphrases : ∀ t ∈ phrases, WellFormed t) (hout : out = phrases.flatMap code)
    (htext : expand phrases [] = some text) :
    lzfDecompress out text.length = .ok (some text) := by
  have hne' : out ≠ [] := by
    rintro rfl
    cases phrases with
    | nil => exact hne (Option.some.inj htext).symm
    | cons t phrases => exact code_ne_nil t (List.append_eq_nil_iff.mp hout.symm).1
  obtain ⟨r, hrun, hr⟩ := lzfDecompress_spec text.length hne'
  rw [hrun, (hr text).mpr ⟨phrases, hphrases, hout, htext, le_refl _⟩]

end Lzf

open Lzf

/-- Whatever was in the table, compressing a text (of other than one byte, for which the code
reads a second one) stays within its buffers, and what comes out is decompressed to the text. -/
theorem lzfDecompress_lzfCompress (htab : Nat → UInt32) {inData : Bytes}
    (hlen : inData.length ≠ 1) (outLen : Nat) :
    Ensures noFault
      (fun r => ∀ out, r = some out →
        out.length ≤ outLen ∧ lzfDecompress out inData.length = .ok (some inData))
      (lzfCompress htab inData outLen) := by
  by_cases hnil : inData = []
  · subst hnil
    exact nofun
  apply (lzfCompress_spec htab hlen outLen).mono
  rintro _ h out rfl
  obtain ⟨hfits, phrases, hphrases, hout, htext⟩ := h out rfl
  exact ⟨hfits, lzfDecompress_phrases hnil hphrases hout htext⟩

/-- A text that repeats itself, compressed with a table that leads astray. -/
def echoes : Bytes := ascii "echo echo echo echo echo"

theorem lzfDecompress_lzfCompress_echoes :
    ∃ out, lzfCompress (fun n => n.toUInt32) echoes (echoes.length - 4) = .ok (some out) ∧
      out.length ≤ echoes.length - 4 ∧ lzfDecompress out echoes.length = .ok (some echoes) :=
  ⟨_, rfl, (lzfDecompress_lzfCompress (fun n => n.toUInt32) (by decide) (echoes.length - 4)).of_ok
    rfl _ rfl⟩

end Blogd
