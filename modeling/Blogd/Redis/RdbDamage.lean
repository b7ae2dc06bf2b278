import Blogd.Redis.RdbDump

/-! # Dumps that are damaged

A dump that breaks off is not loaded. Where up to eight bytes in a row are others than those that
were written, the loader does not come to the end of the file.
-/

namespace Blogd

open StreamM

variable {load : LoadContext} {save : SaveContext}

/-! ## The loader only reads -/

theorem rioReader_rdbLoadType : RioReader rdbLoadType :=
  .bind (rioReader_read 1) fun _ => .pure _

theorem rioReader_rioReadSigned (size : Nat) : RioReader (rioReadSigned size) :=
  .bind (rioReader_read size) fun _ => .pure _

theorem rioReader_rdbLoadTime : RioReader rdbLoadTime :=
  .bind (rioReader_rioReadSigned 4) fun _ => .ite .giveUp (.pure _)

theorem rioReader_rdbLoadMillisecondTime : RioReader rdbLoadMillisecondTime :=
  .bind (rioReader_rioReadSigned 8) fun _ => .ite .giveUp (.pure _)

theorem rioReader_rdbLoadLen : RioReader rdbLoadLen := by
  refine .bind (rioReader_read 1) fun buf => ?_
  refine .ite (.pure _) (.ite (.pure _) (.ite ?_ ?_))
  · exact .bind (rioReader_read 1) fun _ => .pure _
  · exact .bind (rioReader_read 4) fun _ => .ite .giveUp (.pure _)

theorem rioReader_rdbLoadIntegerObject (enctype : Nat) (encode : Bool) :
    RioReader (rdbLoadIntegerObject enctype encode) := by
  refine .bind ?_ fun _ => .pure _
  exact .ite (rioReader_rioReadSigned 1)
    (.ite (rioReader_rioReadSigned 2) (.ite (rioReader_rioReadSigned 4) .giveUp))

theorem rioReader_rdbLoadLzfStringObject : RioReader rdbLoadLzfStringObject := by
  refine .bind rioReader_rdbLoadLen fun first => .bind rioReader_rdbLoadLen fun second => ?_
  refine .bind (rioReader_read first.2) fun c => .bind (.aside _) fun val => ?_
  cases val with
  | none => exact .giveUp
  | some text => exact .pure _

theorem rioReader_rdbGenericLoadStringObject (encode : Bool) :
    RioReader (rdbGenericLoadStringObject encode) := by
  refine .bind rioReader_rdbLoadLen fun len => .ite (.ite ?_ ?_) ?_
  · exact rioReader_rdbLoadLzfStringObject
  · exact rioReader_rdbLoadIntegerObject len.2 encode
  · exact .bind (rioReader_read len.2) fun _ => .pure _

theorem rioReader_rdbLoadStringObject : RioReader rdbLoadStringObject := by
  refine .bind (rioReader_rdbGenericLoadStringObject false) fun o => ?_
  cases o with
  | string s => exact .pure s
  | int value => exact .fault _
  | other => exact .fault _

section Items

variable (hother : ∀ type, RioReader (load.loadOther type))

include hother

theorem rioReader_rdbLoadPair (type : UInt8) (expiretime : Int) :
    RioReader (rdbLoadPair load type expiretime) := by
  refine .bind rioReader_rdbLoadStringObject fun key =>
    .bind (.ite ?_ (hother type)) fun _ => .pure _
  exact .bind (rioReader_rdbGenericLoadStringObject true) fun _ => .pure _

theorem rioReader_rdbLoadItem : RioReader (rdbLoadItem load) := by
  refine .bind rioReader_rdbLoadType fun type => ?_
  unfold rdbLoadItemBehind
  refine .ite ?_ (.ite ?_ (.ite (.pure _) (.ite ?_ (.ite ?_ (.ite ?_ ?_)))))
  · exact .bind rioReader_rdbLoadTime fun t => .bind rioReader_rdbLoadType fun type =>
      rioReader_rdbLoadPair hother type _
  · exact .bind rioReader_rdbLoadMillisecondTime fun t => .bind rioReader_rdbLoadType fun type =>
      rioReader_rdbLoadPair hother type _
  · exact .bind rioReader_rdbLoadLen fun _ => .pure _
  · exact .bind rioReader_rdbLoadLen fun _ => .bind rioReader_rdbLoadLen fun _ => .pure _
  · exact .bind rioReader_rdbLoadStringObject fun _ =>
      .bind rioReader_rdbLoadStringObject fun _ => .pure _
  · exact rioReader_rdbLoadPair hother type _

theorem rioReader_rdbLoadLoop (fuel : Nat) (st : LoadState) :
    RioReader (rdbLoadLoop load fuel st) := by
  induction fuel generalizing st with
  | zero => exact .fault _
  | succ fuel ih =>
      refine .bind (rioReader_rdbLoadItem hother) fun item => ?_
      cases item with
      | none => exact .pure st
      | some item =>
          refine .bind (.aside _) fun st' => ?_
          cases st' with
          | none => exact .giveUp
          | some st' => exact ih st'

/-! ## Dumps that break off -/

/-- The loop stops where the items break off, after those that are whole. -/
theorem rdbLoadLoop_short {body : Bytes} {items : List RdbItem} (hbody : Spells load body items)
    {fuel : Nat} (st : LoadState) {r : RioIn} {more : Bytes}
    (hr : r.unread ++ more = body ++ [rdbOpcodeEof]) (hmore : more ≠ [])
    (hfuel : r.unread.length < fuel) :
    ∃ k, rdbLoadLoop load fuel st r =
      rdbLoadAll load (items.take k) st >>= fun _ => .ok none := by
  induction hbody generalizing fuel st r with
  | nil =>
      obtain ⟨fuel, rfl⟩ := Nat.exists_eq_add_one_of_ne_zero (Nat.ne_zero_of_lt hfuel)
      have hread : Reads (rdbLoadItem load) [rdbOpcodeEof] none :=
        reads_rdbLoadItem (Reads.pure none)
      have hnone := (rioReader_rdbLoadItem hother).giveUp_of_short hread hr hmore
      refine ⟨0, ?_⟩
      rw [rdbLoadLoop, StreamM.bind_apply, hnone]
      rfl
  | @cons x y item items hitem _ ih =>
      obtain ⟨fuel, rfl⟩ := Nat.exists_eq_add_one_of_ne_zero (Nat.ne_zero_of_lt hfuel)
      rw [List.append_assoc] at hr
      rcases Nat.lt_or_ge r.unread.length x.length with hlt | hge
      · -- the item itself breaks off
        obtain ⟨rest, rfl⟩ : r.unread <+: x :=
          List.prefix_of_prefix_length_le (hr ▸ List.prefix_append _ more)
            (List.prefix_append x _) hlt.le
        have hrest : rest ≠ [] := by
          rintro rfl
          rw [List.append_nil] at hlt
          exact absurd hlt (Nat.lt_irrefl _)
        have hnone := (rioReader_rdbLoadItem hother).giveUp_of_short hitem rfl hrest
        refine ⟨0, ?_⟩
        rw [rdbLoadLoop, StreamM.bind_apply, hnone]
        rfl
      · obtain ⟨rest, hrest⟩ : x <+: r.unread :=
          List.prefix_of_prefix_length_le (List.prefix_append x _)
            (hr ▸ List.prefix_append _ more) hge
        have hread := hitem r _ (RioIn.behind_eq_some_iff.mpr ⟨⟨rest, hrest⟩, rfl⟩)
        have hunread : (r.read x).unread = rest := by
          rw [RioIn.read, ← hrest]
          exact List.drop_left
        have hpos := List.length_pos_iff.mpr (ne_nil_of_reads_rdbLoadItem hitem)
        rw [← hrest, List.append_assoc, List.append_right_inj, ← hunread] at hr
        rw [← hrest, List.length_append, ← hunread] at hfuel
        rw [rdbLoadLoop, bind_apply_of_eq_some hread]
        dsimp only
        cases happly : rdbLoadApply load st item with
        | error e =>
            refine ⟨1, ?_⟩
            rw [List.take_succ_cons, rdbLoadAll, happly]
            rfl
        | ok st' =>
            cases st' with
            | none =>
                refine ⟨1, ?_⟩
                rw [List.take_succ_cons, rdbLoadAll, happly]
                rfl
            | some st' =>
                have hfuel' : (r.read x).unread.length < fuel := by omega
                obtain ⟨k, hk⟩ := ih st' hr hfuel'
                refine ⟨k + 1, ?_⟩
                rw [List.take_succ_cons, rdbLoadAll, happly]
                exact hk

end Items

/-- Items that are loaded without a fault are so one by one. -/
theorem rdbLoadAll_take {allowed : Fault → Prop} {post : Option LoadState → Prop}
    {items : List RdbItem} {st : LoadState} (h : Ensures allowed post (rdbLoadAll load items st))
    (k : Nat) : Ensures allowed (fun _ => True) (rdbLoadAll load (items.take k) st) := by
  have happend := @rdbLoadAll_append load (items.take k) (items.drop k) st
  rw [List.take_append_drop] at happend
  rw [happend] at h
  cases hrun : rdbLoadAll load (items.take k) st with
  | ok r => trivial
  | error e =>
      rw [hrun] at h
      exact h

theorem rdbVerifyChecksum_short {r : RioIn} (hr : r.unread.length < 8) :
    rdbVerifyChecksum r = .ok none := by
  rw [rdbVerifyChecksum, bind_apply_of_eq_some rfl, StreamM.bind_apply, rioRead_eq,
    if_neg (Nat.not_le.mpr hr)]
  rfl

/-- What breaks off behind the magic is not loaded. Without checksums the loader does not look
behind the last item. -/
theorem rdbLoadBody_short (hother : ∀ type, RioReader (load.loadOther type)) {body cks : Bytes}
    {items : List RdbItem} (hbody : Spells load body items) (hlen : cks.length = 8)
    {dbs : List RedisDb} {post : Option LoadState → Prop} {allowed : Fault → Prop}
    (hload : Ensures allowed post (rdbLoadAll load items ⟨dbs, 0⟩)) {r : RioIn} {more : Bytes}
    (hr : r.unread ++ more = body ++ [rdbOpcodeEof] ++ cks) (hmore : more ≠ [])
    (hcut : load.rdbChecksum = true ∨ r.unread.length < (body ++ [rdbOpcodeEof]).length) :
    Ensures allowed (fun outcome => outcome = none) (rdbLoadBody load dbs 7 r) := by
  rw [rdbLoadBody, bind_apply_of_eq_some rfl, StreamM.bind_apply]
  rcases Nat.lt_or_ge r.unread.length (body ++ [rdbOpcodeEof]).length with hlt | hge
  · obtain ⟨rest, hrest⟩ : r.unread <+: body ++ [rdbOpcodeEof] :=
      List.prefix_of_prefix_length_le (hr ▸ List.prefix_append _ more)
        (List.prefix_append _ cks) hlt.le
    have hne : rest ≠ [] := by
      rintro rfl
      rw [List.append_nil] at hrest
      rw [hrest] at hlt
      exact absurd hlt (Nat.lt_irrefl _)
    obtain ⟨k, hloop⟩ := rdbLoadLoop_short hother hbody ⟨dbs, 0⟩ hrest hne
      (Nat.lt_succ_self r.unread.length)
    rw [hloop]
    have htake := rdbLoadAll_take hload k
    cases hrun : rdbLoadAll load (items.take k) ⟨dbs, 0⟩ with
    | error e =>
        rw [hrun] at htake
        exact htake
    | ok st => exact Eq.refl none
  · obtain ⟨rest, hrest⟩ : body ++ [rdbOpcodeEof] <+: r.unread :=
      List.prefix_of_prefix_length_le (List.prefix_append _ cks)
        (hr ▸ List.prefix_append _ more) hge
    have hbehind := RioIn.behind_eq_some_iff.mpr ⟨⟨rest, hrest⟩, rfl⟩
    have hfuel : items.length < r.unread.length + 1 := by
      have hlength := hbody.length_le
      rw [List.length_append] at hge
      omega
    rw [rdbLoadLoop_spells hbody hfuel ⟨dbs, 0⟩ hbehind]
    cases hrun : rdbLoadAll load items ⟨dbs, 0⟩ with
    | error e =>
        rw [hrun] at hload
        exact hload
    | ok st =>
        cases st with
        | none => exact Eq.refl none
        | some st =>
            have hchecked := hcut.resolve_right (Nat.not_lt.mpr hge)
            have hshort : (r.read (body ++ [rdbOpcodeEof])).unread.length < 8 := by
              have hunread : (r.read (body ++ [rdbOpcodeEof])).unread = rest := by
                rw [RioIn.read, ← hrest]
                exact List.drop_left
              rw [← hrest, List.append_assoc, List.append_right_inj] at hr
              have hlength := congrArg List.length hr
              have hpos := List.length_pos_iff.mpr hmore
              rw [List.length_append, hlen] at hlength
              rw [hunread]
              omega
            change Ensures allowed _
              ((if (5 : Int) ≤ 7 ∧ load.rdbChecksum then _ else _ : StreamM RioIn _) _)
            rw [if_pos ⟨by norm_num, hchecked⟩, StreamM.bind_apply,
              rdbVerifyChecksum_short hshort]
            exact Eq.refl none

/-- A file that breaks off anywhere is not loaded. -/
theorem rdbLoad_short (hother : ∀ type, RioReader (load.loadOther type)) {body cks : Bytes}
    {items : List RdbItem} (hbody : Spells load body items) (hlen : cks.length = 8)
    {dbs : List RedisDb} {post : Option LoadState → Prop} {allowed : Fault → Prop}
    (hload : Ensures allowed post (rdbLoadAll load items ⟨dbs, 0⟩)) {n : Nat}
    (hn : n < (dumpText body).length + if load.rdbChecksum then 8 else 0) :
    Ensures allowed (fun outcome => outcome = .corrupt)
      (rdbLoad load dbs ((dumpText body ++ cks).take n)) := by
  have hmagic : rdbMagic.length = 9 := rfl
  have hsplit : dumpText body ++ cks = rdbMagic ++ (body ++ [rdbOpcodeEof] ++ cks) := by
    simp only [dumpText, List.append_assoc]
  have hlength : (dumpText body).length = 9 + (body ++ [rdbOpcodeEof]).length := by
    rw [dumpText, List.append_assoc, List.length_append, hmagic]
  rw [hlength] at hn
  rw [hsplit]
  rcases Nat.lt_or_ge n 9 with hlt | hge
  · have hshort : ¬ 9 ≤ (load.openFile ((rdbMagic ++ (body ++ [rdbOpcodeEof] ++ cks)).take
        n)).unread.length := by
      change ¬ 9 ≤ (List.take n _).length
      rw [List.length_take]
      omega
    rw [rdbLoad, rdbLoadRio, StreamM.bind_apply, rioRead_eq, if_neg hshort]
    exact Eq.refl LoadOutcome.corrupt
  · -- the magic is whole, so the file breaks off behind it
    rw [List.take_append, List.take_of_length_le (hmagic.trans_le hge), hmagic, rdbLoad_magic]
    have hmore : (body ++ [rdbOpcodeEof] ++ cks).drop (n - 9) ≠ [] := by
      rw [ne_eq, List.drop_eq_nil_iff, List.length_append, hlen]
      split at hn <;> omega
    have hcut : load.rdbChecksum = true ∨ (load.behindMagic
        ((body ++ [rdbOpcodeEof] ++ cks).take (n - 9))).unread.length <
          (body ++ [rdbOpcodeEof]).length := by
      rw [unread_behindMagic, List.length_take]
      split at hn
      next hchecked => exact .inl hchecked
      next => exact .inr (by omega)
    apply (rdbLoadBody_short hother hbody hlen hload
      (by rw [unread_behindMagic, List.take_append_drop]) hmore hcut).bind
    rintro _ rfl
    exact Eq.refl LoadOutcome.corrupt

/-- Saving fails only where the device does not take the whole file, and whatever is missing at
the end of the file, it is not loaded: the server that tries to reports a damaged file and ends. -/
theorem rdbLoad_truncated (hother : ∀ type, RioReader (load.loadOther type)) (hfits : save.Fits)
    (hroom : load.room ≤ 2 ^ 31) {dbs : List RedisDb} (hlen : dbs.length < rdbLenErr)
    (hdbs : ∀ db ∈ dbs, db.Valid save.hash ∧ db.Storable) (space more : Nat) :
    ∃ file dbs' rdb,
      rdbSaveRio save dbs (.initWithFile space) =
        .ok (if file.length ≤ space then some (dbs', rdb) else none) ∧
      rdb.written = file ∧
      ∀ n, n < (if load.rdbChecksum then file.length else file.length - 8) →
        Ensures outOfMemory (fun outcome => outcome = .corrupt)
          (rdbLoad load (List.replicate (dbs.length + more) RedisDb.empty) (file.take n)) := by
  obtain ⟨dbs', body, hbody, -, hrun⟩ := rdbSaveRio_spec load hfits hlen hdbs space
  refine ⟨dumpFile save body, dbs', _, hrun, written_openFile_write space _, ?_⟩
  intro n hn
  have hload := @rdbLoadAll_dumpItems load save hroom dbs (fun db hdb => (hdbs db hdb).1) more
  have hcks : (checksumText (savedChecksum save (dumpText body))).length = 8 :=
    length_littleEndian 8 _
  apply rdbLoad_short hother hbody hcks hload
  rw [dumpFile, List.length_append, hcks] at hn
  split at hn
  next hchecked => rwa [if_pos hchecked]
  next hplain => rwa [if_neg hplain]

theorem rdbLoad_truncated_sample :
    ∃ file dbs' rdb,
      rdbSaveRio dumpingServer [dumpedDb] (.initWithFile 200) = .ok (some (dbs', rdb)) ∧
      rdb.written = file ∧
      ∀ n, n < file.length → Ensures outOfMemory (fun outcome => outcome = .corrupt)
        (rdbLoad loadingServer [RedisDb.empty, RedisDb.empty] (file.take n)) := by
  obtain ⟨file, dbs', rdb, hsave, hfile, hload⟩ :=
    @rdbLoad_truncated loadingServer dumpingServer (fun _ => .giveUp) dumpingServer_fits
      (by decide) [dumpedDb] (by decide) dumpedDb_storable 200 1
  have hwritten : (rdbSaveRio dumpingServer [dumpedDb] (.initWithFile 200)).toOption.join.isSome =
      true := by
    decide +kernel
  rw [hsave] at hwritten
  split at hsave
  next => exact ⟨file, dbs', rdb, hsave, hfile, hload⟩
  next hfull =>
    rw [if_neg hfull] at hwritten
    cases hwritten

/-! ## Other bytes -/

/-- A checksum that is accepted is the one of what was read, or 0. -/
theorem rdbVerifyChecksum_eq_some {r t : RioIn} (h : rdbVerifyChecksum r = .ok (some ((), t))) :
    ∃ cks, cks.length = 8 ∧ behind r cks = some t ∧
      (number cks = 0 ∨ number cks = r.cksum.toNat) := by
  obtain ⟨_, _, hlook, h⟩ := bind_eq_some.mp h
  cases hlook
  obtain ⟨cks, u, hread, h⟩ := bind_eq_some.mp h
  rw [rioRead_eq] at hread
  split at hread
  next hlen =>
    cases hread
    have hbehind := RioIn.behind_eq_some_iff.mpr ⟨ List.take_prefix 8 r.unread, rfl⟩
    refine ⟨r.unread.take 8, List.length_take_of_le hlen, ?_⟩
    split at h
    next hzero =>
      cases h
      exact ⟨hbehind, .inl hzero⟩
    next =>
      split at h
      next => cases h
      next hsame =>
        cases h
        exact ⟨hbehind, .inr (not_not.mp hsame)⟩
  next => cases hread

/-- A file that is loaded up to its last byte ends with the checksum of the text before it, or
with 0. -/
theorem checksum_of_rdbLoadRio (hother : ∀ type, RioReader (load.loadOther type))
    (hchecked : load.rdbChecksum = true) {dbs dbs' : List RedisDb} {rest cks : Bytes} {r : RioIn}
    (hlen : cks.length = 8)
    (hrun : rdbLoadRio load dbs (load.openFile (rdbMagic ++ (rest ++ cks))) =
      .ok (some (some dbs', r))) (hend : r.unread = []) :
    number cks = 0 ∨ number cks = (crc64 0 (rdbMagic ++ rest)).toNat := by
  rw [rdbLoadRio_magic] at hrun
  obtain ⟨_, _, hrun, hpure⟩ := bind_eq_some.mp hrun
  cases hpure
  obtain ⟨_, _, hlook, hrun⟩ := bind_eq_some.mp hrun
  cases hlook
  obtain ⟨st, second, hloop, hrun⟩ := bind_eq_some.mp hrun
  rw [if_pos ⟨by norm_num, hchecked⟩] at hrun
  obtain ⟨_, _, hverify, hpure⟩ := bind_eq_some.mp hrun
  cases hpure
  obtain ⟨text, hitems⟩ := (rioReader_rdbLoadLoop hother _ _).consumes _ _ _ hloop
  obtain ⟨cks', hlen', hcks', hsum⟩ := rdbVerifyChecksum_eq_some hverify
  -- what was read is the whole file, so the two checksums stand at the same place
  have hsame : rest ++ cks = text ++ cks' := by
    have hunread := RioIn.unread_of_behind hitems
    rw [unread_behindMagic, RioIn.unread_of_behind hcks', hend, List.append_nil] at hunread
    exact hunread
  obtain ⟨rfl, rfl⟩ := List.append_inj' hsame (hlen.trans hlen'.symm)
  have hcksum : second.cksum = crc64 0 (rdbMagic ++ rest) := by
    have hwhole : behind (load.openFile (rdbMagic ++ (rest ++ cks))) (rdbMagic ++ rest) =
        some second := by
      rw [behind_append, behind_openFile_magic, Option.bind_some, hitems]
    rw [cksum_openFile hwhole, hchecked]
    rfl
  rw [← hcksum]
  exact hsum

/-- A text with its checksum behind it, in which up to eight bytes in a row behind the magic are
replaced by others, is not loaded up to its last byte. Where the checksum is 0 the loader takes it
for one that was not computed. -/
theorem rdbLoadRio_damaged (hother : ∀ type, RioReader (load.loadOther type))
    (hchecked : load.rdbChecksum = true) {before s t after : Bytes} (hlen : s.length = t.length)
    (hwidth : s.length ≤ 8) (hne : s ≠ t) (hsum : crc64 0 (rdbMagic ++ before ++ s ++ after) ≠ 0)
    {dbs dbs' : List RedisDb} {r : RioIn}
    (hrun : rdbLoadRio load dbs (load.openFile (rdbMagic ++ before ++ t ++ after ++
      checksumText (crc64 0 (rdbMagic ++ before ++ s ++ after)))) = .ok (some (some dbs', r))) :
    r.unread ≠ [] := by
  intro hend
  have hsplit : rdbMagic ++ before ++ t ++ after ++
      checksumText (crc64 0 (rdbMagic ++ before ++ s ++ after)) =
        rdbMagic ++ (before ++ t ++ after ++
          checksumText (crc64 0 (rdbMagic ++ before ++ s ++ after))) := by
    simp only [List.append_assoc]
  rw [hsplit] at hrun
  have hcks := checksum_of_rdbLoadRio hother hchecked (length_littleEndian 8 _) hrun hend
  have hnumber := number_checksumText (crc64 0 (rdbMagic ++ before ++ s ++ after))
  rcases hcks with hzero | hsame
  · exact hsum (BitVec.eq_of_toNat_eq (hnumber.symm.trans hzero))
  · have hcrc := BitVec.eq_of_toNat_eq (hnumber.symm.trans hsame)
    rw [← List.append_assoc, ← List.append_assoc] at hcrc
    exact hne (crc64_detects_burst 0 (rdbMagic ++ before) after hlen hwidth hcrc)

/-- A dump of a key with a value of ten zeros, up to the length of the value. -/
def zerosBefore : Bytes := [rdbTypeString, 1, 107]

/-- The same dump behind the first two bytes of the value. -/
def zerosAfter : Bytes := List.replicate 8 0 ++ [rdbOpcodeEof]

/-- With three bytes changed, the value is shorter and the dump seems to end in the middle of it,
with a checksum that was not computed. -/
def damagedZeros : Bytes :=
  rdbMagic ++ zerosBefore ++ [1, 0, rdbOpcodeEof] ++ zerosAfter ++
    checksumText (crc64 0 (rdbMagic ++ zerosBefore ++ [10, 0, 0] ++ zerosAfter))

/-- The file is loaded, but not up to its last byte. -/
theorem rdbLoadRio_damaged_zeros :
    ∃ dbs' r, rdbLoadRio loadingServer [RedisDb.empty] (loadingServer.openFile damagedZeros) =
      .ok (some (some dbs', r)) ∧ r.unread ≠ [] := by
  have hloaded : ((rdbLoadRio loadingServer [RedisDb.empty]
      (loadingServer.openFile damagedZeros)).toOption.join.bind Prod.fst).isSome = true := by
    decide +kernel
  cases hrun : rdbLoadRio loadingServer [RedisDb.empty] (loadingServer.openFile damagedZeros) with
  | error e =>
      rw [hrun] at hloaded
      cases hloaded
  | ok result =>
      rw [hrun] at hloaded
      obtain _ | ⟨_ | dbs', r⟩ := result
      · cases hloaded
      · cases hloaded
      · refine ⟨dbs', r, rfl, ?_⟩
        exact @rdbLoadRio_damaged loadingServer (fun _ => .giveUp) rfl zerosBefore [10, 0, 0]
          [1, 0, rdbOpcodeEof] zerosAfter rfl (by decide) (by decide) (by decide +kernel) _ dbs' r
          hrun

end Blogd
