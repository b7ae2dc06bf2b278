import Blogd.Redis.RdbFormat

/-! # A dump is loaded as what was dumped

Loading a dump into empty databases gives the keyspace that was dumped: every key whose time has
not passed, with its value and its time. The dictionaries may have other hash functions, sizes and
states of rehashing than those that were saved.
-/

namespace Blogd

open StreamM

variable {load : LoadContext} {save : SaveContext}

/-- Whether a time has passed. The time -1 stands for none. -/
def passed (mstime : Nat) (when : Option Int) : Bool :=
  when.any fun t => decide (t ≠ -1 ∧ t < (mstime : Int))

/-- Whether a key is dropped because its time has passed, at saving or at loading. -/
def dropped (save : SaveContext) (load : LoadContext) (when : Option Int) : Bool :=
  passed save.mstime when || load.masterhost.isNone && passed load.mstime when

/-- The time that a dump has of a key. -/
def dumpedTime (when : Option Int) : Option Int := when.filter (· ≠ -1)

/-- What a keyspace is after it was saved and loaded. -/
def Db.reloaded (save : SaveContext) (load : LoadContext) (db : Db) : Db where
  dict key :=
    if dropped save load (db.expires key) then none else (db.dict key).map Robj.tryEncoding
  expires key := if dropped save load (db.expires key) then none else dumpedTime (db.expires key)

/-- The test of `rdb.c` on what `getExpire` returns. -/
theorem getD_passed (mstime : Nat) (when : Option Int) :
    (when.getD (-1) ≠ -1 ∧ when.getD (-1) < mstime) ↔ passed mstime when = true := by
  cases when with
  | none => exact ⟨fun h => absurd rfl h.1, fun h => by cases h⟩
  | some t => exact decide_eq_true_iff.symm

theorem dumpedTime_eq (when : Option Int) :
    dumpedTime when = if when.getD (-1) ≠ -1 then some (when.getD (-1)) else none := by
  cases when with
  | none => rfl
  | some t => simp [dumpedTime, Option.filter_some]

/-! ## Entries -/

/-- A value and a time for a key that has none. -/
def Db.addEntry (db : Db) (key : Bytes) (val : Robj) (when : Option Int) : Db where
  dict k := if k = key then some val else db.dict k
  expires k := if k = key then when else db.expires k

theorem dbAdd_toDb {ctx : DbContext} {hash : Bytes → UInt32} {db : RedisDb}
    (hroom : ctx.room ≤ 2 ^ 31) (hdb : db.Valid hash) {key : Bytes}
    (hkey : db.toDb.dict key = none) (val : Robj) :
    Ensures outOfMemory
      (fun db' => db'.Valid hash ∧ db'.toDb = db.toDb.addEntry key val none)
      (RedisDb.dbAdd hash ctx db key val) := by
  have hnotMem : key ∉ db.dict.contents := Finmap.lookup_eq_none.mp hkey
  apply (RedisDb.dbAdd_spec hroom hdb hnotMem val).mono
  rintro db' ⟨hvalid, hc, he⟩
  refine ⟨hvalid, ?_⟩
  apply RedisDb.toDb_insert hc
  rw [he, RedisDb.erase_of_notMem fun h => hnotMem (hdb.bound key h)]

theorem rdbAddEntry_spec {db : RedisDb} (hroom : load.room ≤ 2 ^ 31) (hdb : db.Valid load.hash)
    {key : Bytes} (hkey : db.toDb.dict key = none) (val : Robj) (when : Option Int) :
    Ensures outOfMemory
      (fun db' => db'.Valid load.hash ∧ db'.toDb =
        if load.masterhost.isNone && passed load.mstime when then db.toDb
        else db.toDb.addEntry key val (dumpedTime when))
      (rdbAddEntry load key val (when.getD (-1)) db) := by
  unfold rdbAddEntry
  have hiff : (load.masterhost = none ∧ when.getD (-1) ≠ -1 ∧ when.getD (-1) < load.mstime) ↔
      (load.masterhost.isNone && passed load.mstime when) = true := by
    rw [getD_passed, Bool.and_eq_true, Option.isNone_iff_eq_none]
  apply Ensures.ite
  · intro hpassed
    rw [if_pos (hiff.mp hpassed)]
    exact ⟨hdb, rfl⟩
  intro hkept
  rw [if_neg (mt hiff.mpr hkept)]
  apply (dbAdd_toDb hroom hdb hkey val).bind
  rintro db₁ ⟨hvalid, htoDb⟩
  rw [dumpedTime_eq]
  apply Ensures.ite
  · intro htime
    rw [if_pos htime]
    have hmem : key ∈ db₁.dict.contents := by
      rw [RedisDb.mem_contents_iff, htoDb]
      simp [Db.addEntry]
    apply (RedisDb.setExpire_spec hroom hvalid hmem (when.getD (-1))).mono
    rintro db₂ ⟨hvalid₂, htoDb₂⟩
    refine ⟨hvalid₂, ?_⟩
    rw [htoDb₂, htoDb, Db.setExpire, Db.addEntry, Db.addEntry]
    congr 1
    funext k
    dsimp only
    split
    next => rfl
    next => rfl
  · intro htime
    rw [if_neg htime]
    exact ⟨hvalid, htoDb⟩

/-- What is loaded for a key, from a list of entries over a keyspace. -/
def Db.withEntries (save : SaveContext) (load : LoadContext) (times : Bytes → Option Int)
    (entries : List (DictEntry Bytes Robj)) (db : Db) : Db where
  dict key :=
    if dropped save load (times key) then db.dict key
    else ((entries.dlookup key).map Robj.tryEncoding).or (db.dict key)
  expires key :=
    if dropped save load (times key) ∨ entries.dlookup key = none then db.expires key
    else dumpedTime (times key)

theorem Db.withEntries_nil (times : Bytes → Option Int) (db : Db) :
    db.withEntries save load times [] = db := by
  unfold Db.withEntries
  congr 1
  · funext key
    exact ite_self _
  · funext key
    exact if_pos (.inr rfl)

theorem Db.withEntries_cons_dropped {times : Bytes → Option Int} {e : DictEntry Bytes Robj}
    (hdropped : dropped save load (times e.1) = true) (entries : List (DictEntry Bytes Robj))
    (db : Db) :
    db.withEntries save load times (e :: entries) = db.withEntries save load times entries := by
  unfold Db.withEntries
  congr 1
  · funext key
    rcases eq_or_ne key e.1 with rfl | hne
    · rw [if_pos hdropped, if_pos hdropped]
    · rw [List.dlookup_cons_ne _ _ hne]
  · funext key
    rcases eq_or_ne key e.1 with rfl | hne
    · rw [if_pos (.inl hdropped), if_pos (.inl hdropped)]
    · rw [List.dlookup_cons_ne _ _ hne]

theorem Db.withEntries_cons_kept {times : Bytes → Option Int} {e : DictEntry Bytes Robj}
    (hkept : ¬ dropped save load (times e.1) = true) {entries : List (DictEntry Bytes Robj)}
    (hfresh : e.1 ∉ entries.keys) (db : Db) :
    db.withEntries save load times (e :: entries) =
      (db.addEntry e.1 e.2.tryEncoding (dumpedTime (times e.1))).withEntries save load times
        entries := by
  have hnone : entries.dlookup e.1 = none := List.dlookup_eq_none.mpr hfresh
  unfold Db.withEntries Db.addEntry
  congr 1
  · funext key
    dsimp only
    rcases eq_or_ne key e.1 with rfl | hne
    · rw [if_neg hkept, if_neg hkept, hnone, if_pos rfl, List.dlookup_cons_eq]
      rfl
    · rw [List.dlookup_cons_ne _ _ hne, if_neg hne]
  · funext key
    dsimp only
    rcases eq_or_ne key e.1 with rfl | hne
    · rw [List.dlookup_cons_eq, hnone, if_neg (not_or.mpr ⟨hkept, Option.some_ne_none _⟩),
        if_pos (.inr rfl), if_pos rfl]
    · rw [List.dlookup_cons_ne _ _ hne, if_neg hne]

theorem rdbLoadAll_append (items more : List RdbItem) (st : LoadState) :
    rdbLoadAll load (items ++ more) st =
      rdbLoadAll load items st >>= fun r => r.elim (.ok none) (rdbLoadAll load more) := by
  induction items generalizing st with
  | nil => rfl
  | cons item items ih =>
      rw [List.cons_append, rdbLoadAll, rdbLoadAll]
      cases rdbLoadApply load st item with
      | error e => rfl
      | ok r =>
          cases r with
          | none => rfl
          | some st' => exact ih st'

theorem LoadState.update_spec {st : LoadState} {db : RedisDb} {f : RedisDb → Except Fault RedisDb}
    {post : RedisDb → Prop} (hdb : st.dbs[st.db]? = some db)
    (hf : Ensures outOfMemory post (f db)) :
    Ensures outOfMemory
      (fun r => ∃ db', r = some { st with dbs := st.dbs.set st.db db' } ∧ post db')
      (st.update f) := by
  unfold LoadState.update
  rw [hdb]
  apply hf.bind
  intro db' hpost
  exact ⟨db', rfl, hpost⟩

theorem savedItems_getD (key : Bytes) (val : Robj) (when : Option Int) :
    savedItems save.mstime key val (when.getD (-1)) =
      if passed save.mstime when then [] else [.entry key val.tryEncoding (when.getD (-1))] := by
  unfold savedItems
  exact if_congr (getD_passed _ _) rfl rfl

/-- The entries of a database are added to the one that is selected. -/
theorem rdbLoadAll_entryItems (hroom : load.room ≤ 2 ^ 31)
    {expires : Finmap fun _ : Bytes => Int} {entries : List (DictEntry Bytes Robj)}
    (hnodup : entries.NodupKeys) {st : LoadState} {db : RedisDb}
    (hst : st.dbs[st.db]? = some db) (hdb : db.Valid load.hash)
    (hfresh : ∀ key ∈ entries.keys, db.toDb.dict key = none) :
    Ensures outOfMemory
      (fun r => ∃ db', r = some { st with dbs := st.dbs.set st.db db' } ∧ db'.Valid load.hash ∧
        db'.toDb = db.toDb.withEntries save load expires.lookup entries)
      (rdbLoadAll load (entryItems save.mstime expires entries) st) := by
  induction entries generalizing st db with
  | nil =>
      refine ⟨db, ?_, hdb, (Db.withEntries_nil expires.lookup db.toDb).symm⟩
      rw [Buckets.set_getElem? hst]
  | cons e entries ih =>
      obtain ⟨hnotMem, hnodup'⟩ := List.nodupKeys_cons.mp hnodup
      have hfresh' : ∀ key ∈ entries.keys, db.toDb.dict key = none :=
        fun key hkey => hfresh key (List.mem_cons_of_mem _ hkey)
      rw [entryItems, List.flatMap_cons, savedItems_getD]
      by_cases hsaved : passed save.mstime (expires.lookup e.1) = true
      · have hdropped : dropped save load (expires.lookup e.1) = true := by
          rw [dropped, hsaved]
          rfl
        rw [if_pos hsaved, List.nil_append, Db.withEntries_cons_dropped hdropped]
        exact ih hnodup' hst hdb hfresh'
      · rw [if_neg hsaved, List.singleton_append, rdbLoadAll]
        have hadd := rdbAddEntry_spec hroom hdb (hfresh e.1 List.mem_cons_self) e.2.tryEncoding
          (expires.lookup e.1)
        apply (LoadState.update_spec hst hadd).bind
        rintro _ ⟨db₁, rfl, hvalid, htoDb⟩
        have hselected : (st.dbs.set st.db db₁)[st.db]? = some db₁ := by
          obtain ⟨hlt, -⟩ := List.getElem?_eq_some_iff.mp hst
          exact List.getElem?_set_self hlt
        have hother : ∀ key ∈ entries.keys, db₁.toDb.dict key = none := by
          intro key hkey
          have hne : key ≠ e.1 := fun h => hnotMem (h ▸ hkey)
          rw [htoDb]
          split
          · exact hfresh' key hkey
          · rw [Db.addEntry]
            exact (if_neg hne).trans (hfresh' key hkey)
        apply (@ih hnodup' { st with dbs := st.dbs.set st.db db₁ } db₁ hselected hvalid
          hother).mono
        rintro r ⟨db₂, rfl, hvalid₂, htoDb₂⟩
        refine ⟨db₂, by rw [List.set_set], hvalid₂, ?_⟩
        rw [htoDb₂, htoDb]
        split
        next hpassed =>
          rw [Db.withEntries_cons_dropped]
          rw [dropped, hpassed, Bool.or_true]
        next hkept =>
          rw [Db.withEntries_cons_kept _ hnotMem]
          rw [dropped, Bool.or_eq_true, not_or]
          exact ⟨hsaved, hkept⟩

/-! ## Databases -/

/-- The contents of a database as another one that is loaded has them. -/
structure Reloaded (save : SaveContext) (load : LoadContext) (db db' : RedisDb) : Prop where
  valid : db'.Valid load.hash
  toDb : db'.toDb = db.toDb.reloaded save load

theorem RedisDb.Valid.expires_eq_none {hash : Bytes → UInt32} {db : RedisDb} (hdb : db.Valid hash)
    {key : Bytes} (hkey : db.toDb.dict key = none) : db.toDb.expires key = none := by
  have hlookup : db.dict.contents.lookup key = none := hkey
  have hnotMem : key ∉ db.expires.contents :=
    fun h => Finmap.lookup_eq_none.mp hlookup (hdb.bound key h)
  exact Finmap.lookup_eq_none.mpr hnotMem

theorem withEntries_empty {hash : Bytes → UInt32} {db : RedisDb} (hdb : db.Valid hash) :
    RedisDb.empty.toDb.withEntries save load db.toDb.expires db.dict.entries =
      db.toDb.reloaded save load := by
  have hlookup : ∀ key, db.dict.entries.dlookup key = db.toDb.dict key :=
    fun key => (Dict.contents_lookup db.dict key).symm
  unfold Db.withEntries Db.reloaded
  congr 1
  · funext key
    rw [hlookup]
    exact if_congr Iff.rfl rfl Option.or_none
  · funext key
    rw [hlookup]
    by_cases hnone : db.toDb.dict key = none
    · rw [if_pos (.inr hnone), hdb.expires_eq_none hnone]
      exact (ite_self none).symm
    · exact if_congr (or_iff_left hnone) rfl rfl

theorem RedisDb.Valid.reloaded_of_empty {hash : Bytes → UInt32} {db : RedisDb}
    (hdb : db.Valid hash) (hsize : dictSize db.dict = 0) :
    RedisDb.empty.toDb = db.toDb.reloaded save load := by
  have hnil : db.dict.entries = [] := List.length_eq_zero_iff.mp (hdb.dict.dictSize_eq ▸ hsize)
  rw [← withEntries_empty hdb, hnil, Db.withEntries_nil]

theorem rdbResizeDb_spec {db : RedisDb} (hroom : load.room ≤ 2 ^ 31) (hdb : db.Valid load.hash)
    (dbSize expiresSize : Nat) :
    Ensures outOfMemory (RedisDb.Same load.hash db) (rdbResizeDb load dbSize expiresSize db) := by
  apply (Dict.dictExpand_cases hroom db.dict dbSize).bind
  rintro ⟨_, dict⟩ hdict
  apply (Dict.dictExpand_cases hroom db.expires expiresSize).bind
  rintro ⟨_, expires⟩ hexpires
  have hfirst := hdict.rearranged hdb.dict
  have hsecond := hexpires.rearranged hdb.expires
  exact hdb.same hfirst.valid hsecond.valid hfirst.contents hsecond.contents
    (hdb.iterators.trans_eq hfirst.iterators.symm)

/-- The database whose turn it is gets the entries. -/
theorem rdbLoadAll_dbItems (hroom : load.room ≤ 2 ^ 31) {hash : Bytes → UInt32} {db : RedisDb}
    (hdb : db.Valid hash) {st : LoadState} {j : Nat}
    (hst : st.dbs[j]? = some RedisDb.empty) :
    Ensures outOfMemory
      (fun r => ∃ st', r = some st' ∧ ∃ db', st'.dbs = st.dbs.set j db' ∧ Reloaded save load db db')
      (rdbLoadAll load (dbItems save.mstime j db) st) := by
  unfold dbItems
  split
  next hsize =>
    refine ⟨st, rfl, RedisDb.empty, (Buckets.set_getElem? hst).symm, RedisDb.valid_empty _, ?_⟩
    exact hdb.reloaded_of_empty hsize
  next =>
    obtain ⟨hlt, -⟩ := List.getElem?_eq_some_iff.mp hst
    have hselect : rdbLoadApply load st (.selectDb j) = .ok (some { st with db := j }) := by
      rw [rdbLoadApply, if_neg (Nat.not_le.mpr hlt)]
    rw [rdbLoadAll, hselect, ok_bind, Option.elim_some, rdbLoadAll]
    have hresize := rdbResizeDb_spec hroom (RedisDb.valid_empty load.hash) (dictSize db.dict)
      (dictSize db.expires)
    have hupdate := @LoadState.update_spec { st with db := j } _ _ _ hst hresize
    apply hupdate.bind
    rintro _ ⟨db₁, rfl, hsame⟩
    have hselected : (st.dbs.set j db₁)[j]? = some db₁ := List.getElem?_set_self hlt
    have hnone : ∀ key ∈ db.dict.entries.keys, db₁.toDb.dict key = none := by
      intro key _
      rw [hsame.toDb]
      rfl
    apply (@rdbLoadAll_entryItems load save hroom _ _ hdb.dict.nodupKeys
      ⟨st.dbs.set j db₁, j⟩ db₁ hselected hsame.valid hnone).mono
    rintro _ ⟨db₂, rfl, hvalid, htoDb⟩
    refine ⟨_, rfl, db₂, List.set_set _, hvalid, ?_⟩
    rw [htoDb, hsame.toDb]
    exact withEntries_empty hdb

theorem rdbLoadAll_dbsItems (hroom : load.room ≤ 2 ^ 31) {hash : Bytes → UInt32}
    {dbs : List RedisDb} (hdbs : ∀ db ∈ dbs, db.Valid hash) (more : Nat) {st : LoadState}
    {loaded : List RedisDb}
    (hst : st.dbs = loaded ++ List.replicate (dbs.length + more) RedisDb.empty) :
    Ensures outOfMemory
      (fun r => ∃ st', r = some st' ∧ ∃ dbs',
        st'.dbs = loaded ++ dbs' ++ List.replicate more RedisDb.empty ∧
          List.Forall₂ (Reloaded save load) dbs dbs')
      (rdbLoadAll load (dbsItems save.mstime loaded.length dbs) st) := by
  induction dbs generalizing st loaded with
  | nil =>
      refine ⟨st, rfl, [], ?_, .nil⟩
      rw [hst, List.append_nil, List.length_nil, Nat.zero_add]
  | cons db dbs ih =>
      obtain ⟨hdb, hrest⟩ := List.forall_mem_cons.mp hdbs
      rw [List.length_cons, Nat.add_right_comm, List.replicate_succ] at hst
      have hselected : st.dbs[loaded.length]? = some RedisDb.empty := by
        rw [hst, List.getElem?_append_right (le_refl _), Nat.sub_self]
        rfl
      rw [dbsItems, rdbLoadAll_append]
      apply (rdbLoadAll_dbItems hroom hdb hselected).bind
      rintro _ ⟨st₁, rfl, db₁, hdbs₁, hreloaded⟩
      have hst₁ : st₁.dbs = (loaded ++ [db₁]) ++
          List.replicate (dbs.length + more) RedisDb.empty := by
        rw [hdbs₁, hst]
        simp
      have hih := ih hrest hst₁
      rw [List.length_append, List.length_singleton] at hih
      apply hih.mono
      rintro _ ⟨st₂, rfl, dbs₂, hdbs₂, hall⟩
      refine ⟨st₂, rfl, db₁ :: dbs₂, ?_, .cons hreloaded hall⟩
      rw [hdbs₂, List.append_assoc loaded, List.singleton_append]

/-! ## The whole file -/

theorem rdbLoadAll_aux (fields : List (Bytes × Bytes)) (items : List RdbItem) (st : LoadState) :
    rdbLoadAll load (fields.map (fun field => .aux field.1 field.2) ++ items) st =
      rdbLoadAll load items st := by
  induction fields with
  | nil => rfl
  | cons field fields ih => exact ih

theorem number_checksumText (cksum : BitVec 64) : number (checksumText cksum) = cksum.toNat :=
  number_littleEndian_of_lt (cksum.isLt.trans_eq (by norm_num))

/-- A dump is read item by item. -/
theorem rdbLoad_dumpFile {body : Bytes} {items : List RdbItem} (hbody : Spells load body items)
    (dbs : List RedisDb) :
    rdbLoad load dbs (dumpFile save body) =
      rdbLoadAll load items ⟨dbs, 0⟩ >>= fun st =>
        .ok (st.elim .corrupt fun st => .loaded st.dbs) := by
  have hlen : (checksumText (savedChecksum save (dumpText body))).length = 8 :=
    length_littleEndian 8 _
  apply rdbLoad_dump hbody hlen
  rw [number_checksumText, savedChecksum]
  split
  next => exact .inr rfl
  next => exact .inl rfl

theorem rdbLoadAll_dumpItems (hroom : load.room ≤ 2 ^ 31) {dbs : List RedisDb}
    (hdbs : ∀ db ∈ dbs, db.Valid save.hash) (more : Nat) :
    Ensures outOfMemory
      (fun r => ∃ st loaded, r = some st ∧
        st.dbs = loaded ++ List.replicate more RedisDb.empty ∧
          List.Forall₂ (Reloaded save load) dbs loaded)
      (rdbLoadAll load (dumpItems save dbs)
        ⟨List.replicate (dbs.length + more) RedisDb.empty, 0⟩) := by
  rw [dumpItems, rdbLoadAll_aux]
  apply (@rdbLoadAll_dbsItems load save hroom save.hash dbs hdbs more
    ⟨List.replicate (dbs.length + more) RedisDb.empty, 0⟩ [] rfl).mono
  rintro _ ⟨st, rfl, loaded, hst, hall⟩
  exact ⟨st, loaded, rfl, hst, hall⟩

theorem rdbLoad_dumpFile_reloads (hroom : load.room ≤ 2 ^ 31) {dbs : List RedisDb}
    (hdbs : ∀ db ∈ dbs, db.Valid save.hash) {body : Bytes}
    (hbody : Spells load body (dumpItems save dbs)) (more : Nat) :
    Ensures outOfMemory
      (fun outcome => ∃ loaded,
        outcome = .loaded (loaded ++ List.replicate more RedisDb.empty) ∧
          List.Forall₂ (Reloaded save load) dbs loaded)
      (rdbLoad load (List.replicate (dbs.length + more) RedisDb.empty) (dumpFile save body)) := by
  rw [rdbLoad_dumpFile hbody]
  apply (rdbLoadAll_dumpItems hroom hdbs more).bind
  rintro _ ⟨st, loaded, rfl, hst, hall⟩
  exact ⟨loaded, congrArg LoadOutcome.loaded hst, hall⟩

/-- Saving leaves the databases as they were. It fails only where the device does not take the
whole file, and the file, loaded by a server with as many databases or more that are empty, gives
the databases that were saved, without the keys whose time had passed. -/
theorem rdbLoad_rdbSaveRio (hfits : save.Fits) (hroom : load.room ≤ 2 ^ 31) {dbs : List RedisDb}
    (hlen : dbs.length < rdbLenErr) (hdbs : ∀ db ∈ dbs, db.Valid save.hash ∧ db.Storable)
    (space more : Nat) :
    ∃ file dbs' rdb,
      rdbSaveRio save dbs (.initWithFile space) =
        .ok (if file.length ≤ space then some (dbs', rdb) else none) ∧
      rdb.written = file ∧ List.Forall₂ (SavedDb save.hash) dbs dbs' ∧
      Ensures outOfMemory
        (fun outcome => ∃ loaded,
          outcome = .loaded (loaded ++ List.replicate more RedisDb.empty) ∧
            List.Forall₂ (Reloaded save load) dbs loaded)
        (rdbLoad load (List.replicate (dbs.length + more) RedisDb.empty) file) := by
  obtain ⟨dbs', body, hbody, hsaved, hrun⟩ := rdbSaveRio_spec load hfits hlen hdbs space
  exact ⟨dumpFile save body, dbs', _, hrun, written_openFile_write space _, hsaved,
    rdbLoad_dumpFile_reloads hroom (fun db hdb => (hdbs db hdb).1) hbody more⟩

/-- A page that compresses, a number, a key whose time passes before the dump and one whose time
passes before it is loaded. -/
def dumpedOps : List (DbContext × DbOp) :=
  [(.set (ascii "page") echoes), (.set (ascii "n") (ascii "-300")), (.set (ascii "past") []),
    (.set (ascii "soon") (ascii "soon")), (.expireAt (ascii "past") 10),
    (.expireAt (ascii "soon") 30)].map fun op => (RedisDb.contextAt 5, op)

/-- A server that saves at time 20. -/
def dumpingServer : SaveContext :=
  ⟨RedisDb.lengthHash, true, true, 20, 1, 4096, fun _ n => n.toUInt32, 1, giveUp⟩

/-- A server that loads at time 40, with the keys in other buckets. -/
def loadingServer : LoadContext :=
  ⟨RedisDb.contextAt 40, fun key => RedisDb.lengthHash key + 1, true, 7, fun _ => giveUp⟩

/-- The database that they leave. -/
def dumpedDb : RedisDb :=
  match RedisDb.run RedisDb.lengthHash dumpedOps RedisDb.empty with
  | .ok (_, db) => db
  | .error _ => RedisDb.empty

theorem dumpedDb_storable : ∀ db ∈ [dumpedDb], db.Valid dumpingServer.hash ∧ db.Storable := by
  have hvalid := (@RedisDb.run_spec RedisDb.lengthHash RedisDb.empty dumpedOps (by decide)
    (RedisDb.valid_empty _)).of_ok rfl
  have hstorable : dumpedDb.Storable :=
    ⟨by decide +kernel, by decide +kernel, by decide +kernel, by decide +kernel⟩
  exact List.forall_mem_singleton.mpr ⟨hvalid.1, hstorable⟩

theorem dumpingServer_fits : dumpingServer.Fits := ⟨by decide, by decide⟩

theorem rdbLoad_rdbSaveRio_sample :
    ∃ dbs' rdb loaded,
      rdbSaveRio dumpingServer [dumpedDb] (.initWithFile 200) = .ok (some (dbs', rdb)) ∧
      rdbLoad loadingServer [RedisDb.empty, RedisDb.empty] rdb.written =
        .ok (.loaded (loaded ++ [RedisDb.empty])) ∧
      List.Forall₂ (Reloaded dumpingServer loadingServer) [dumpedDb] loaded := by
  obtain ⟨file, dbs', rdb, hsave, rfl, -, hload⟩ :=
    @rdbLoad_rdbSaveRio loadingServer dumpingServer dumpingServer_fits (by decide) [dumpedDb]
      (by decide) dumpedDb_storable 200 1
  have hround : ((rdbSaveRio dumpingServer [dumpedDb] (.initWithFile 200)).toOption.join.map
      fun saved => (rdbLoad loadingServer [RedisDb.empty, RedisDb.empty]
        saved.2.written).toOption.isSome) = some true := by
    decide +kernel
  rw [hsave] at hround
  split at hsave
  next hspace =>
    rw [if_pos hspace] at hround
    change Ensures _ _ (rdbLoad loadingServer [RedisDb.empty, RedisDb.empty] _) at hload
    cases hrun : rdbLoad loadingServer [RedisDb.empty, RedisDb.empty] rdb.written with
    | error e =>
        change some (rdbLoad loadingServer _ rdb.written).toOption.isSome = _ at hround
        rw [hrun] at hround
        cases hround
    | ok outcome =>
        obtain ⟨loaded, rfl, hall⟩ := hload.of_ok hrun
        exact ⟨dbs', rdb, loaded, hsave, hrun, hall⟩
  next hfull =>
    rw [if_neg hfull] at hround
    cases hround

end Blogd
