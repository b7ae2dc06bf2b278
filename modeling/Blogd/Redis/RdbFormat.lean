import Blogd.Redis.DictIteration
import Blogd.Redis.RdbString

/-! # Dumps item by item

A dump is read as a list of items. What is written for a database is read as the items of its
entries, in the order of its buckets, without those whose time has passed.
-/

namespace Blogd

open StreamM

variable {load : LoadContext} {save : SaveContext} {text : Bytes}

/-- A text that is read as the items, one after the other. -/
inductive Spells (load : LoadContext) : Bytes → List RdbItem → Prop
  | nil : Spells load [] []
  | cons {x y : Bytes} {item : RdbItem} {items : List RdbItem}
      (hitem : Reads (rdbLoadItem load) x (some item)) (hrest : Spells load y items) :
      Spells load (x ++ y) (item :: items)

namespace Spells

theorem single {item : RdbItem} (h : Reads (rdbLoadItem load) text (some item)) :
    Spells load text [item] := by
  have hcons := cons h nil
  rwa [List.append_nil] at hcons

theorem append {x y : Bytes} {items more : List RdbItem} (hx : Spells load x items)
    (hy : Spells load y more) : Spells load (x ++ y) (items ++ more) := by
  induction hx with
  | nil => exact hy
  | cons hitem _ ih =>
      rw [List.append_assoc]
      exact cons hitem ih

end Spells

theorem reads_rdbLoadType (c : UInt8) : Reads rdbLoadType [c] c :=
  reads_byte_bind (Reads.pure c)

theorem reads_rdbLoadItem {c : UInt8} {item : Option RdbItem}
    (h : Reads (rdbLoadItemBehind load c) text item) :
    Reads (rdbLoadItem load) (c :: text) item :=
  Reads.bind (x := [c]) (reads_rdbLoadType c) h

/-- There is no item in an empty text. -/
theorem ne_nil_of_reads_rdbLoadItem {item : Option RdbItem}
    (h : Reads (rdbLoadItem load) text item) : text ≠ [] := by
  rintro rfl
  have hrun := h (RioIn.initWithFile []) _ (behind_nil _)
  cases hrun

theorem Spells.length_le {items : List RdbItem} (h : Spells load text items) :
    items.length ≤ text.length := by
  induction h with
  | nil => exact le_refl 0
  | cons hitem _ ih =>
      have hpos := List.length_pos_iff.mpr (ne_nil_of_reads_rdbLoadItem hitem)
      rw [List.length_cons, List.length_append]
      omega

/-! ## Pairs and fields -/

theorem emits_rdbSaveType (type : UInt8) : Emits (rdbSaveType type) fun _ text => text = [type] :=
  (emits_rdbWriteRaw (by norm_num)).mono fun _ _ h => h.2

/-- A pair of texts that is kept for information. -/
theorem emits_rdbSaveAuxField {key val : Bytes} (hkey : key.length < 2 ^ 31)
    (hval : val.length < 2 ^ 31) :
    Emits (rdbSaveAuxField save key val) fun _ text => Spells load text [.aux key val] := by
  apply (emits_rdbSaveType rdbOpcodeAux).bind
  rintro _ _ rfl
  apply (emits_rdbSaveRawString save hkey).bind
  rintro _ keyText ⟨-, -, hkeyText⟩
  apply (emits_rdbSaveRawString save hval).bind
  rintro _ valText ⟨-, -, hvalText⟩
  apply Emits.pure
  rw [List.append_nil]
  exact .single (reads_rdbLoadItem
    (hkeyText.key.bind (hvalText.key.bind_nil (Reads.pure _))))

theorem emits_rdbSaveInfoAuxFields {fields : List (Bytes × Bytes)}
    (hfields : ∀ field ∈ fields, field.1.length < 2 ^ 31 ∧ field.2.length < 2 ^ 31) :
    Emits (rdbSaveInfoAuxFields save fields) fun _ text =>
      Spells load text (fields.map fun field => .aux field.1 field.2) := by
  induction fields with
  | nil => exact Emits.pure .nil
  | cons field fields ih =>
      obtain ⟨hfield, hrest⟩ := List.forall_mem_cons.mp hfields
      apply (emits_rdbSaveAuxField hfield.1 hfield.2).bind
      intro _ x hx
      exact (ih hrest).mono fun _ y hy => hx.append hy

/-- The type comes first, where the loader looks for opcodes as well. -/
theorem emits_rdbSavePair {key : Bytes} {val : Robj} (hkey : key.length < 2 ^ 31)
    (hval : val.Storable) :
    Emits (rdbSavePair save key val) fun _ text => ∃ pair, text = rdbTypeString :: pair ∧
      ∀ expiretime, Reads (rdbLoadPair load rdbTypeString expiretime) pair
        (some (.entry key val.tryEncoding expiretime)) := by
  have htype : rdbSaveObjectType save val = rdbSaveType rdbTypeString := by
    cases val with
    | other => exact hval.elim
    | _ => rfl
  rw [rdbSavePair, htype]
  apply (emits_rdbSaveType rdbTypeString).bind
  rintro _ _ rfl
  apply (emits_rdbSaveKey save hkey).bind
  intro _ keyText hkeyText
  apply (emits_rdbSaveObject save hval).bind
  intro _ valText hvalText
  apply Emits.pure
  rw [List.append_nil]
  exact ⟨_, rfl, fun _ => hkeyText.bind ((hvalText load).bind_nil (Reads.pure _))⟩

/-- The item of a pair, unless it is skipped because its time has passed. -/
def savedItems (mstime : Nat) (key : Bytes) (val : Robj) (expiretime : Int) : List RdbItem :=
  if expiretime ≠ -1 ∧ expiretime < mstime then [] else [.entry key val.tryEncoding expiretime]

theorem emits_rdbSaveKeyValuePair {key : Bytes} {val : Robj} {expiretime : Int}
    (hkey : key.length < 2 ^ 31) (hval : val.Storable) (htime : expiretime < 2 ^ 63) :
    Emits (rdbSaveKeyValuePair save key val expiretime) fun _ text =>
      Spells load text (savedItems save.mstime key val expiretime) := by
  unfold rdbSaveKeyValuePair savedItems
  split
  next hnone =>
    subst hnone
    apply (emits_rdbSavePair hkey hval).mono
    rintro _ _ ⟨pair, rfl, hpair⟩
    exact .single (reads_rdbLoadItem (hpair (-1)))
  next hsome =>
    split
    next hpast =>
      rw [if_pos ⟨hsome, hpast⟩]
      exact Emits.pure .nil
    next hfuture =>
      rw [if_neg fun h => hfuture h.2]
      apply (emits_rdbSaveType rdbOpcodeExpireTimeMs).bind
      rintro _ _ rfl
      apply (emits_rdbWriteRaw (by rw [length_littleEndian]; norm_num)).bind
      rintro _ _ ⟨-, rfl⟩
      apply (emits_rdbSavePair hkey hval).mono
      rintro _ _ ⟨pair, rfl, hpair⟩
      -- what is written is not below the clock, and so not negative
      have hread : Reads rdbLoadMillisecondTime (littleEndian 8 expiretime) expiretime := by
        apply (reads_rioReadSigned (by omega) (by omega)).bind_nil
        rw [if_neg hsome]
        exact Reads.pure expiretime
      exact .single (reads_rdbLoadItem (hread.bind
        (Reads.bind (x := [_]) (reads_rdbLoadType rdbTypeString) (hpair expiretime))))

/-! ## Databases -/

/-- A database that can be dumped. A number of keys that does not fit is not read back. -/
structure RedisDb.Storable (db : RedisDb) : Prop where
  keys : dictSize db.dict < rdbLenErr
  times : dictSize db.expires < rdbLenErr
  entries : ∀ e ∈ db.dict.entries, e.1.length < 2 ^ 31 ∧ e.2.Storable
  bounded : ∀ e ∈ db.expires.entries, e.2 < 2 ^ 63

instance (db : RedisDb) : Decidable db.Storable :=
  decidable_of_iff (dictSize db.dict < rdbLenErr ∧ dictSize db.expires < rdbLenErr ∧
      (∀ e ∈ db.dict.entries, e.1.length < 2 ^ 31 ∧ e.2.Storable) ∧
      ∀ e ∈ db.expires.entries, e.2 < 2 ^ 63)
    ⟨fun h => ⟨h.1, h.2.1, h.2.2.1, h.2.2.2⟩, fun h => ⟨h.keys, h.times, h.entries, h.bounded⟩⟩

theorem RedisDb.Storable.lt_of_lookup {db : RedisDb} (hdb : db.Storable) (key : Bytes) (when : Int)
    (hwhen : db.expires.contents.lookup key = some when) : when < 2 ^ 63 := by
  rw [Dict.contents_lookup] at hwhen
  exact hdb.bounded ⟨key, when⟩ (List.of_mem_dlookup hwhen)

/-- The items of entries. -/
def entryItems (mstime : Nat) (expires : Finmap fun _ : Bytes => Int)
    (entries : List (DictEntry Bytes Robj)) : List RdbItem :=
  entries.flatMap fun e => savedItems mstime e.1 e.2 ((expires.lookup e.1).getD (-1))

/-- While an iterator is at work, `getExpire` does not touch the dictionary of the values. -/
theorem RedisDb.getExpire_paused {hash : Bytes → UInt32} {db : RedisDb} {key : Bytes}
    (hpaused : db.dict.iterators ≠ 0) {r : Int × RedisDb}
    (hrun : RedisDb.getExpire hash db key = .ok r) : r.2.dict = db.dict := by
  unfold RedisDb.getExpire at hrun
  split at hrun
  next =>
    cases hrun
    rfl
  next =>
    obtain ⟨⟨de, expires⟩, -, hrun⟩ := bind_eq_ok.mp hrun
    cases de with
    | none =>
        cases hrun
        rfl
    | some de =>
        obtain ⟨⟨found, dict⟩, hfind, hrun⟩ := bind_eq_ok.mp hrun
        dsimp only at hrun
        split at hrun
        next => cases hrun
        next =>
          cases hrun
          exact Dict.dictFind_paused hpaused hfind

/-- What is known of a time that is looked up. -/
theorem expire_lt {expires : Finmap fun _ : Bytes => Int}
    (hbounded : ∀ key when, expires.lookup key = some when → when < 2 ^ 63) (key : Bytes) :
    (expires.lookup key).getD (-1) < 2 ^ 63 := by
  cases hwhen : expires.lookup key with
  | none => norm_num
  | some when => exact hbounded key when hwhen

open Dict in
/-- What an iteration leaves: the same dictionary of values, the times on other tables. -/
theorem emits_rdbSaveEntries {fuel : Nat} {db : RedisDb} {iter : DictIterator Bytes}
    (hdb : db.Valid save.hash) (hst : Standing db.dict iter)
    (hopened : 0 < (db.dict.opened iter).iterators)
    (hfuel : (db.dict.pending iter).length < fuel)
    (hentries : ∀ e ∈ db.dict.pending iter, e.1.length < 2 ^ 31 ∧ e.2.Storable)
    (hbounded : ∀ key when, db.expires.contents.lookup key = some when → when < 2 ^ 63) :
    Emits (rdbSaveEntries save fuel db iter) fun r text =>
      Spells load text (entryItems save.mstime db.expires.contents (db.dict.pending iter)) ∧
        r.1.dict = db.dict.opened iter ∧ r.1.expires.Valid save.hash ∧
        r.1.expires.contents = db.expires.contents ∧ r.2.index.isSome := by
  induction fuel generalizing db iter with
  | zero => exact absurd hfuel (Nat.not_lt_zero _)
  | succ fuel ih =>
      obtain ⟨de, iter', d', hnext, hadv⟩ := dictNext_spec hdb.dict hst
      rw [rdbSaveEntries, hnext]
      cases de with
      | none =>
          have hnil : db.dict.pending iter = [] := List.head?_eq_none_iff.mp hadv.entry.symm
          rw [hnil]
          exact Emits.pure ⟨.nil, hadv.dict, hdb.expires, rfl, hadv.started⟩
      | some e =>
          obtain ⟨hpending, hst', -⟩ := hadv.next e rfl
          have hcons : db.dict.pending iter = e :: d'.pending iter' := by
            rw [hpending]
            exact List.eq_cons_of_mem_head? hadv.entry.symm
          have hsame₁ : RedisDb.Same save.hash db ⟨d', db.expires⟩ := by
            obtain ⟨n, hopen⟩ := exists_opened db.dict iter
            rw [hopen] at hopened
            rw [hadv.dict, hopen]
            exact hdb.same (hdb.dict.setIterators n) hdb.expires rfl rfl hopened.le
          have hcount : 0 < d'.iterators := by
            rw [hadv.dict]
            exact hopened
          obtain ⟨db₂, hexpire, hsame₂⟩ := RedisDb.getExpire_spec hsame₁.valid e.1
          have hdict : db₂.dict = d' := RedisDb.getExpire_paused hcount.ne' hexpire
          have hstay : db₂.dict.opened iter' = d' := by
            obtain ⟨idx, hindex⟩ := Option.isSome_iff_exists.mp hadv.started
            rw [hdict, opened, hindex]
            rfl
          have hexpires : db₂.expires.contents = db.expires.contents := hsame₂.expires
          rw [hcons] at hentries hfuel
          obtain ⟨⟨hkey, hval⟩, hrest⟩ := List.forall_mem_cons.mp hentries
          apply Emits.aside_bind (g := fun r => r = (some e, iter', d')) (Ensures.ok rfl)
          rintro _ rfl
          dsimp only
          rw [hexpire]
          apply Emits.aside_bind (g := fun r => r = (_, db₂)) (Ensures.ok rfl)
          rintro _ rfl
          dsimp only
          apply (emits_rdbSaveKeyValuePair hkey hval (expire_lt hbounded e.1)).bind
          intro _ x hx
          have hih := @ih db₂ iter' hsame₂.valid (hdict ▸ hst')
            (by rw [hstay]; exact hcount) (by rw [hdict]; exact Nat.lt_of_succ_lt_succ hfuel)
            (by rw [hdict]; exact hrest) (by rw [hexpires]; exact hbounded)
          apply hih.mono
          rintro r y ⟨hy, hr, hvalid, hcontents, hindex⟩
          refine ⟨?_, hr.trans (hstay.trans hadv.dict), hvalid, hcontents.trans hexpires, hindex⟩
          rw [hcons, entryItems, List.flatMap_cons]
          rw [hexpires, hdict] at hy
          exact hx.append hy

/-- The items of a database. An empty one is left out. -/
def dbItems (mstime j : Nat) (db : RedisDb) : List RdbItem :=
  if dictSize db.dict = 0 then []
  else .selectDb j :: .resizeDb (dictSize db.dict) (dictSize db.expires) ::
    entryItems mstime db.expires.contents db.dict.entries

theorem sizeHint_eq {V : Type} {d : Dict Bytes V} (hsize : dictSize d < rdbLenErr) :
    sizeHint d = dictSize d :=
  min_eq_left hsize.le

/-- An iterator that has come to its end leaves the dictionary as it was. -/
theorem dictReleaseIterator_opened {V : Type} (d : Dict Bytes V) {iter : DictIterator Bytes}
    (hindex : iter.index.isSome) :
    dictReleaseIterator (d.opened dictGetSafeIterator) iter = d := by
  obtain ⟨idx, hindex⟩ := Option.isSome_iff_exists.mp hindex
  rw [dictReleaseIterator, hindex]
  change { d with iterators := d.iterators + 1 - 1 } = d
  rw [Int.add_sub_cancel]

/-- What saving a database leaves: the same maps, and no iterator. -/
structure SavedDb (hash : Bytes → UInt32) (db db' : RedisDb) : Prop where
  same : RedisDb.Same hash db db'
  iterators : db'.dict.iterators = db.dict.iterators

theorem emits_rdbSaveDb {j : Nat} {db : RedisDb} (hj : j < rdbLenErr) (hdb : db.Valid save.hash)
    (hstorable : db.Storable) :
    Emits (rdbSaveDb save j db) fun db' text =>
      Spells load text (dbItems save.mstime j db) ∧ SavedDb save.hash db db' := by
  unfold rdbSaveDb dbItems
  split
  next => exact Emits.pure ⟨.nil, ⟨hdb, rfl, rfl⟩, rfl⟩
  next =>
    rw [sizeHint_eq hstorable.keys, sizeHint_eq hstorable.times]
    apply (emits_rdbSaveType rdbOpcodeSelectDb).bind
    rintro _ _ rfl
    apply (emits_rdbSaveLen hj).bind
    rintro _ jText ⟨-, -, hjText⟩
    apply (emits_rdbSaveType rdbOpcodeResizeDb).bind
    rintro _ _ rfl
    apply (emits_rdbSaveLen hstorable.keys).bind
    rintro _ keysText ⟨-, -, hkeysText⟩
    apply (emits_rdbSaveLen hstorable.times).bind
    rintro _ timesText ⟨-, -, htimesText⟩
    have hselect : Reads (rdbLoadItem load) (rdbOpcodeSelectDb :: jText) (some (.selectDb j)) :=
      reads_rdbLoadItem (hjText.bind_nil (Reads.pure _))
    have hresize : Reads (rdbLoadItem load) (rdbOpcodeResizeDb :: (keysText ++ timesText))
        (some (.resizeDb (dictSize db.dict) (dictSize db.expires))) :=
      reads_rdbLoadItem (hkeysText.bind (htimesText.bind_nil (Reads.pure _)))
    have hentries := @emits_rdbSaveEntries load save (dictSize db.dict + 1) db dictGetSafeIterator
      hdb (Dict.standing_start db.dict) (Int.lt_add_one_of_le hdb.iterators)
      (by rw [Dict.pending_start, hdb.dict.dictSize_eq]; exact Nat.lt_succ_self _)
      (by rw [Dict.pending_start]; exact hstorable.entries) hstorable.lt_of_lookup
    apply hentries.bind
    rintro ⟨db', iter⟩ entriesText ⟨hspells, hdict, hexpires, hcontents, hindex⟩
    rw [Dict.pending_start] at hspells
    apply Emits.pure
    dsimp only at hdict hexpires hcontents hindex ⊢
    rw [hdict, dictReleaseIterator_opened db.dict hindex]
    refine ⟨?_, hdb.same hdb.dict hexpires rfl hcontents hdb.iterators, rfl⟩
    have hall := Spells.cons hselect (.cons hresize hspells)
    simpa only [List.append_assoc, List.cons_append, List.nil_append, List.append_nil] using hall

/-- The items of the databases from a number on. -/
def dbsItems (mstime : Nat) : Nat → List RedisDb → List RdbItem
  | _, [] => []
  | j, db :: dbs => dbItems mstime j db ++ dbsItems mstime (j + 1) dbs

theorem emits_rdbSaveDbs {j : Nat} {dbs : List RedisDb} (hj : j + dbs.length < rdbLenErr)
    (hdbs : ∀ db ∈ dbs, db.Valid save.hash ∧ db.Storable) :
    Emits (rdbSaveDbs save j dbs) fun dbs' text =>
      Spells load text (dbsItems save.mstime j dbs) ∧
        List.Forall₂ (SavedDb save.hash) dbs dbs' := by
  induction dbs generalizing j with
  | nil => exact Emits.pure ⟨.nil, .nil⟩
  | cons db dbs ih =>
      obtain ⟨hdb, hrest⟩ := List.forall_mem_cons.mp hdbs
      rw [List.length_cons] at hj
      apply (emits_rdbSaveDb (by omega) hdb.1 hdb.2).bind
      rintro db' x ⟨hx, hsaved⟩
      apply (ih (by omega) hrest).bind
      rintro dbs' y ⟨hy, hall⟩
      apply Emits.pure
      rw [List.append_nil]
      exact ⟨hx.append hy, .cons hsaved hall⟩

/-! ## The whole file -/

/-- The items of a dump. -/
def dumpItems (save : SaveContext) (dbs : List RedisDb) : List RdbItem :=
  (infoAuxFields save).map (fun field => .aux field.1 field.2) ++ dbsItems save.mstime 0 dbs

/-- The settings fit their types: times are of 64 bits. -/
structure SaveContext.Fits (save : SaveContext) : Prop where
  time : -2 ^ 63 ≤ save.time ∧ save.time < 2 ^ 63
  usedMemory : -2 ^ 63 ≤ save.usedMemory ∧ save.usedMemory < 2 ^ 63

instance (save : SaveContext) : Decidable save.Fits :=
  decidable_of_iff ((-2 ^ 63 ≤ save.time ∧ save.time < 2 ^ 63) ∧
      -2 ^ 63 ≤ save.usedMemory ∧ save.usedMemory < 2 ^ 63)
    ⟨fun h => ⟨h.1, h.2⟩, fun h => ⟨h.time, h.usedMemory⟩⟩

theorem emits_rdbSaveBody (hfits : save.Fits) {dbs : List RedisDb} (hlen : dbs.length < rdbLenErr)
    (hdbs : ∀ db ∈ dbs, db.Valid save.hash ∧ db.Storable) :
    Emits (rdbSaveBody save dbs) fun dbs' text => ∃ body,
      text = rdbMagic ++ body ++ [rdbOpcodeEof] ∧ Spells load body (dumpItems save dbs) ∧
        List.Forall₂ (SavedDb save.hash) dbs dbs' := by
  have hfields : ∀ field ∈ infoAuxFields save,
      field.1.length < 2 ^ 31 ∧ field.2.length < 2 ^ 31 := by
    have htime := length_ll2string_le hfits.time.1 hfits.time.2
    have hmemory := length_ll2string_le hfits.usedMemory.1 hfits.usedMemory.2
    simp only [infoAuxFields, List.forall_mem_cons]
    refine ⟨⟨by decide, by decide⟩, ⟨by decide, by decide⟩, ⟨by decide, by omega⟩,
      ⟨by decide, by omega⟩, by simp⟩
  apply (emits_rdbWriteRaw (p := rdbMagic) (by decide)).bind
  rintro _ _ ⟨-, rfl⟩
  apply (emits_rdbSaveInfoAuxFields hfields).bind
  intro _ x hx
  apply (emits_rdbSaveDbs (by rwa [Nat.zero_add]) hdbs).bind
  rintro dbs' y ⟨hy, hsaved⟩
  apply (emits_rdbSaveType rdbOpcodeEof).bind
  rintro _ _ rfl
  apply Emits.pure
  exact ⟨x ++ y, by simp only [List.append_assoc, List.append_nil], hx.append hy, hsaved⟩

/-- The eight bytes of a checksum. -/
def checksumText (cksum : BitVec 64) : Bytes := littleEndian 8 cksum.toNat

/-- The part of a dump that the checksum is of. -/
def dumpText (body : Bytes) : Bytes := rdbMagic ++ body ++ [rdbOpcodeEof]

/-- The checksum of a dump, which is 0 where none is asked for. -/
def savedChecksum (save : SaveContext) (text : Bytes) : BitVec 64 :=
  if save.rdbChecksum then crc64 0 text else 0

/-- A dump. -/
def dumpFile (save : SaveContext) (body : Bytes) : Bytes :=
  dumpText body ++ checksumText (savedChecksum save (dumpText body))

/-- The stream that a dump is written to. -/
def SaveContext.openFile (save : SaveContext) (space : Nat) : RioOut :=
  if save.rdbChecksum then { RioOut.initWithFile space with updateCksum := true }
  else RioOut.initWithFile space

theorem cksum_openFile_write (space : Nat) (text : Bytes) :
    ((save.openFile space).write text).cksum = savedChecksum save text := by
  unfold SaveContext.openFile savedChecksum
  split
  next => rfl
  next => rfl

theorem written_openFile_write (space : Nat) (text : Bytes) :
    ((save.openFile space).write text).written = text := by
  unfold SaveContext.openFile
  split
  next => rfl
  next => rfl

theorem room_openFile (space : Nat) : (save.openFile space).room = space := by
  unfold SaveContext.openFile
  split
  next => rfl
  next => rfl

/-- The dump is written, with the checksum behind it, unless there is no room for it. -/
theorem rdbSaveRio_spec (load : LoadContext) (hfits : save.Fits) {dbs : List RedisDb}
    (hlen : dbs.length < rdbLenErr) (hdbs : ∀ db ∈ dbs, db.Valid save.hash ∧ db.Storable)
    (space : Nat) :
    ∃ dbs' body, Spells load body (dumpItems save dbs) ∧
      List.Forall₂ (SavedDb save.hash) dbs dbs' ∧
      rdbSaveRio save dbs (.initWithFile space) =
        .ok (if (dumpFile save body).length ≤ space then
          some (dbs', (save.openFile space).write (dumpFile save body)) else none) := by
  obtain ⟨dbs', _, ⟨body, rfl, hbody, hsaved⟩, hrun⟩ :=
    @emits_rdbSaveBody load save hfits dbs hlen hdbs (save.openFile space)
  refine ⟨dbs', body, hbody, hsaved, ?_⟩
  change rdbSaveChecked save dbs (save.openFile space) = _
  change rdbSaveBody save dbs (save.openFile space) = .ok
    ((behind (save.openFile space) (dumpText body)).map fun t => (dbs', t)) at hrun
  have hfile : (behind (save.openFile space) (dumpFile save body)).map (fun t => (dbs', t)) =
      if (dumpFile save body).length ≤ space then
        some (dbs', (save.openFile space).write (dumpFile save body)) else none := by
    rw [RioOut.behind_eq, room_openFile, apply_ite (Option.map _)]
    rfl
  rw [← hfile, dumpFile, behind_append, RioOut.behind_eq (save.openFile space)]
  rw [RioOut.behind_eq] at hrun
  split at hrun
  next hroom =>
    rw [if_pos hroom, Option.bind_some, ← cksum_openFile_write space, rdbSaveChecked,
      bind_apply_of_eq_some hrun, bind_apply_of_eq_some rfl, StreamM.bind_apply, rioWrite_eq,
      checksumText]
    cases behind ((save.openFile space).write (dumpText body)) _ with
    | none => rfl
    | some t => rfl
  next hfull =>
    rw [if_neg hfull, rdbSaveChecked, StreamM.bind_apply, hrun]
    rfl

/-! ## Reading the items -/

/-- The rounds of `rdbLoad` on items that are at hand. -/
def rdbLoadAll (load : LoadContext) : List RdbItem → LoadState → Except Fault (Option LoadState)
  | [], st => .ok (some st)
  | item :: items, st =>
      rdbLoadApply load st item >>= fun r => r.elim (.ok none) (rdbLoadAll load items)

theorem rdbLoadLoop_spells {body : Bytes} {items : List RdbItem} (hbody : Spells load body items)
    {fuel : Nat} (hfuel : items.length < fuel) (st : LoadState) {r t : RioIn}
    (hbehind : behind r (body ++ [rdbOpcodeEof]) = some t) :
    rdbLoadLoop load fuel st r =
      rdbLoadAll load items st >>= fun st' => .ok (st'.map fun st' => (st', t)) := by
  induction hbody generalizing fuel st r with
  | nil =>
      obtain ⟨fuel, rfl⟩ := Nat.exists_eq_add_one_of_ne_zero (Nat.ne_zero_of_lt hfuel)
      have hread : Reads (rdbLoadItem load) [rdbOpcodeEof] none :=
        reads_rdbLoadItem (Reads.pure none)
      rw [rdbLoadLoop, bind_apply_of_eq_some (hread r t hbehind)]
      rfl
  | @cons x y item items hitem _ ih =>
      obtain ⟨fuel, rfl⟩ := Nat.exists_eq_add_one_of_ne_zero (Nat.ne_zero_of_lt hfuel)
      rw [List.append_assoc, behind_append] at hbehind
      obtain ⟨u, hx, hrest⟩ := Option.bind_eq_some_iff.mp hbehind
      rw [rdbLoadLoop, bind_apply_of_eq_some (hitem r u hx), rdbLoadAll]
      dsimp only
      cases happly : rdbLoadApply load st item with
      | error e => rfl
      | ok st' =>
          cases st' with
          | none => rfl
          | some st' => exact ih (Nat.lt_of_succ_lt_succ hfuel) st' hrest

theorem reads_rdbVerifyChecksum {r t : RioIn} {cks : Bytes} (hlen : cks.length = 8)
    (hcks : number cks = 0 ∨ number cks = r.cksum.toNat) (hbehind : behind r cks = some t) :
    rdbVerifyChecksum r = .ok (some ((), t)) := by
  rw [rdbVerifyChecksum, bind_apply_of_eq_some rfl,
    bind_apply_of_eq_some (reads_rioRead hlen r t hbehind)]
  split
  next => rfl
  next hne =>
    rw [if_neg (not_not.mpr (hcks.resolve_left hne))]
    rfl

/-- The checksum that `rdbLoad` compares with, at the end of a text. -/
theorem cksum_openFile {file : Bytes} {t : RioIn} (h : behind (load.openFile file) text = some t) :
    t.cksum = rioUpdate load.rdbChecksum 0 text := by
  obtain ⟨-, rfl⟩ := RioIn.behind_eq_some_iff.mp h
  rfl

/-- The stream behind the magic of a file. -/
def LoadContext.behindMagic (load : LoadContext) (rest : Bytes) : RioIn :=
  (load.openFile (rdbMagic ++ rest)).read rdbMagic

theorem unread_behindMagic (rest : Bytes) : (load.behindMagic rest).unread = rest := by
  change List.drop rdbMagic.length (rdbMagic ++ rest) = rest
  exact List.drop_left

theorem behind_openFile_magic (rest : Bytes) :
    behind (load.openFile (rdbMagic ++ rest)) rdbMagic = some (load.behindMagic rest) :=
  RioIn.behind_eq_some_iff.mpr ⟨List.prefix_append rdbMagic rest, rfl⟩

theorem rdbLoadRio_magic (dbs : List RedisDb) (rest : Bytes) :
    rdbLoadRio load dbs (load.openFile (rdbMagic ++ rest)) =
      (rdbLoadBody load dbs 7 >>= fun dbs => pure (some dbs)) (load.behindMagic rest) :=
  bind_apply_of_eq_some (reads_rioRead rfl _ _ (behind_openFile_magic rest))

/-- A file that begins as a dump is loaded or damaged. -/
theorem rdbLoad_magic (dbs : List RedisDb) (rest : Bytes) :
    rdbLoad load dbs (rdbMagic ++ rest) =
      rdbLoadBody load dbs 7 (load.behindMagic rest) >>= fun r =>
        .ok (r.elim .corrupt fun p => .loaded p.1) := by
  rw [rdbLoad, rdbLoadRio_magic, StreamM.bind_apply]
  cases rdbLoadBody load dbs 7 (load.behindMagic rest) with
  | error e => rfl
  | ok r =>
      cases r with
      | none => rfl
      | some p => rfl

/-- A file of items with a checksum that is right, or none, is read item by item. -/
theorem rdbLoad_dump {body cks : Bytes} {items : List RdbItem} (hbody : Spells load body items)
    (hlen : cks.length = 8)
    (hcks : number cks = 0 ∨ number cks = (crc64 0 (dumpText body)).toNat)
    (dbs : List RedisDb) :
    rdbLoad load dbs (dumpText body ++ cks) =
      rdbLoadAll load items ⟨dbs, 0⟩ >>= fun st =>
        .ok (st.elim .corrupt fun st => .loaded st.dbs) := by
  have hsplit : dumpText body ++ cks = rdbMagic ++ (body ++ [rdbOpcodeEof] ++ cks) := by
    simp only [dumpText, List.append_assoc]
  obtain ⟨last, hlast⟩ : ∃ t, behind (load.behindMagic (body ++ [rdbOpcodeEof] ++ cks))
      (body ++ [rdbOpcodeEof] ++ cks) = some t :=
    ⟨_, RioIn.behind_eq_some_iff.mpr ⟨by rw [unread_behindMagic], rfl⟩⟩
  rw [behind_append] at hlast
  obtain ⟨second, hitems, hlast⟩ := Option.bind_eq_some_iff.mp hlast
  have hcksum : second.cksum = rioUpdate load.rdbChecksum 0 (dumpText body) := by
    apply @cksum_openFile load _ (rdbMagic ++ (body ++ [rdbOpcodeEof] ++ cks))
    rw [dumpText, List.append_assoc rdbMagic, behind_append, behind_openFile_magic,
      Option.bind_some, hitems]
  have hfuel : items.length <
      (load.behindMagic (body ++ [rdbOpcodeEof] ++ cks)).unread.length + 1 := by
    have hlength := hbody.length_le
    rw [unread_behindMagic, List.length_append, List.length_append]
    omega
  rw [hsplit, rdbLoad_magic, rdbLoadBody, bind_apply_of_eq_some rfl, StreamM.bind_apply,
    rdbLoadLoop_spells hbody hfuel ⟨dbs, 0⟩ hitems]
  cases rdbLoadAll load items ⟨dbs, 0⟩ with
  | error e => rfl
  | ok st =>
      cases st with
      | none => rfl
      | some st =>
          change (if (5 : Int) ≤ 7 ∧ load.rdbChecksum then _ else _ : StreamM RioIn _) second >>=
            _ = _
          cases hchecked : load.rdbChecksum with
          | false => rfl
          | true =>
              rw [hchecked] at hcksum
              have hverify := reads_rdbVerifyChecksum hlen (hcksum ▸ hcks) hlast
              rw [if_pos ⟨by norm_num, rfl⟩, bind_apply_of_eq_some hverify]
              rfl

end Blogd
