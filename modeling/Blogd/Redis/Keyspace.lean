import Blogd.Redis.DictMap
import Blogd.Redis.Command

/-! # The keyspace on its dictionaries

The keyspace that the blog is read from is kept in two dictionaries, one for the values and one
for the times at which keys expire. The functions of `db.c` work on these and assert in several
places that the two agree. Over any run of them the assertions hold, and everything seen from
outside is what the keyspace of plain maps gives.
-/

namespace Blogd

/-- `redisDb` -/
structure RedisDb where
  dict : Dict Bytes Robj
  expires : Dict Bytes Int

/-- What the functions of `db.c` read outside the database: the allocator, the flag of `dict.c`,
the clock, the state of the server, and whether the command came from its master. -/
structure DbContext where
  room : Nat
  canResize : Bool
  mstime : Nat
  loading : Bool
  masterhost : Option Bytes
  master : Bool

namespace RedisDb

def empty : RedisDb := ⟨dictCreate, dictCreate⟩

section Functions

variable (hash : Bytes → UInt32) (ctx : DbContext) (db : RedisDb) (key : Bytes)

/-- `getExpire` -/
def getExpire : Except Fault (Int × RedisDb) :=
  if dictSize db.expires = 0 then .ok (-1, db)
  else do
    match ← dictFind hash db.expires key with
    | (none, expires) => return (-1, { db with expires := expires })
    | (some de, expires) =>
        let (found, dict) ← dictFind hash db.dict key
        if found.isNone then .error .assertion
        else return (de.val, ⟨dict, expires⟩)

/-- `dbDelete` -/
def dbDelete : Except Fault (Bool × RedisDb) := do
  let expires ←
    if dictSize db.expires > 0 then do
      let (_, expires) ← dictDelete hash db.expires key
      pure expires
    else pure db.expires
  let (deleted, dict) ← dictDelete hash db.dict key
  return (deleted, ⟨dict, expires⟩)

/-- `expireIfNeeded` -/
def expireIfNeeded : Except Fault (Bool × RedisDb) := do
  let (when, db) ← getExpire hash db key
  if when < 0 then return (false, db)
  if ctx.loading then return (false, db)
  if ctx.masterhost.isSome then return (decide (when < ctx.mstime), db)
  if (ctx.mstime : Int) ≤ when then return (false, db)
  dbDelete hash db key

/-- `lookupKey` -/
def lookupKey : Except Fault (Option Robj × RedisDb) := do
  let (de, dict) ← dictFind hash db.dict key
  return (de.map (·.val), { db with dict := dict })

/-- `lookupKeyRead` for a command that only reads. -/
def lookupKeyRead : Except Fault (Option Robj × RedisDb) := do
  let (expired, db) ← expireIfNeeded hash ctx db key
  if expired && ctx.masterhost.isNone then return (none, db)
  if expired && !ctx.master then return (none, db)
  lookupKey hash db key

/-- `lookupKeyWrite` -/
def lookupKeyWrite : Except Fault (Option Robj × RedisDb) := do
  let (_, db) ← expireIfNeeded hash ctx db key
  lookupKey hash db key

/-- `dbAdd` -/
def dbAdd (val : Robj) : Except Fault RedisDb := do
  let (ok, dict) ← dictAdd hash ctx.room ctx.canResize db.dict key val
  if ok then return { db with dict := dict } else .error .assertion

/-- `dbOverwrite` -/
def dbOverwrite (val : Robj) : Except Fault RedisDb := do
  let (de, dict) ← dictFind hash db.dict key
  if de.isNone then .error .assertion
  else
    let (_, dict) ← dictReplace hash ctx.room ctx.canResize dict key val
    return { db with dict := dict }

/-- `removeExpire` -/
def removeExpire : Except Fault RedisDb := do
  let (de, dict) ← dictFind hash db.dict key
  if de.isNone then .error .assertion
  else
    let (_, expires) ← dictDelete hash db.expires key
    return ⟨dict, expires⟩

/-- `setKey` -/
def setKey (val : Robj) : Except Fault RedisDb := do
  let (found, db) ← lookupKeyWrite hash ctx db key
  let db ← if found.isNone then dbAdd hash ctx db key val else dbOverwrite hash ctx db key val
  removeExpire hash db key

/-- `setExpire` -/
def setExpire (when : Int) : Except Fault RedisDb := do
  let (kde, dict) ← dictFind hash db.dict key
  if kde.isNone then .error .assertion
  else
    let expires ← dictReplaceRaw hash ctx.room ctx.canResize db.expires key when
    return ⟨dict, expires⟩

/-- `delCommand` for one key. -/
def delCommand : Except Fault (Bool × RedisDb) := do
  let (_, db) ← expireIfNeeded hash ctx db key
  dbDelete hash db key

/-- `expireGenericCommand` at an absolute time. The result is false where there is no key. -/
def expireGenericCommand (when : Int) : Except Fault (Bool × RedisDb) := do
  let (found, db) ← lookupKeyWrite hash ctx db key
  if found.isNone then return (false, db)
  if when ≤ ctx.mstime ∧ ¬ ctx.loading ∧ ctx.masterhost = none then
    let (deleted, db) ← dbDelete hash db key
    if deleted then return (true, db) else .error .assertion
  else
    let db ← setExpire hash ctx db key when
    return (true, db)

/-- `activeExpireCycleTryExpire` on an entry of the second dictionary. -/
def activeExpireCycleTryExpire (de : EntryPtr Bytes Int) : Except Fault RedisDb :=
  if de.val < ctx.mstime then do
    let (_, db) ← dbDelete hash db de.key
    return db
  else .ok db

/-- One draw of `activeExpireCycle`, which comes on some key that has a time. -/
def expireDraw : Except Fault RedisDb := do
  match ← dictFind hash db.expires key with
  | (none, expires) => return { db with expires := expires }
  | (some de, expires) => activeExpireCycleTryExpire hash ctx { db with expires := expires } de

end Functions

/-- `htNeedsResize` -/
def htNeedsResize {K V : Type} (d : Dict K V) : Bool :=
  decide (dictHtInitialSize < dictSlots d) && decide (dictSize d * 100 / dictSlots d < 10)

/-- `if (htNeedsResize(d)) dictResize(d)` -/
def resizeIfNeeded {V : Type} (ctx : DbContext) (d : Dict Bytes V) :
    Except Fault (Dict Bytes V) :=
  if htNeedsResize d then do
    let (_, d) ← dictResize ctx.room ctx.canResize d
    return d
  else .ok d

/-- `tryResizeHashTables` -/
def tryResizeHashTables (ctx : DbContext) (db : RedisDb) : Except Fault RedisDb := do
  let dict ← resizeIfNeeded ctx db.dict
  let expires ← resizeIfNeeded ctx db.expires
  return ⟨dict, expires⟩

/-- `incrementallyRehash`, with the rounds of rehashing that a millisecond leaves time for. -/
def incrementallyRehash (hash : Bytes → UInt32) (rounds : Nat) (db : RedisDb) :
    Except Fault RedisDb := do
  if dictIsRehashing db.dict then
    let dict ← dictRehashMilliseconds hash rounds db.dict
    return { db with dict := dict }
  else if dictIsRehashing db.expires then
    let expires ← dictRehashMilliseconds hash rounds db.expires
    return { db with expires := expires }
  else return db

/-! ## The keyspace of plain maps -/

/-- The values and times as maps. -/
def toDb (db : RedisDb) : Db where
  dict key := db.dict.contents.lookup key
  expires key := db.expires.contents.lookup key

/-- The dictionaries are sound, iterators over the values are counted, and the keys with a time have
a value. -/
structure Valid (hash : Bytes → UInt32) (db : RedisDb) : Prop where
  dict : db.dict.Valid hash
  expires : db.expires.Valid hash
  bound : ∀ key ∈ db.expires.contents, key ∈ db.dict.contents
  iterators : 0 ≤ db.dict.iterators

theorem valid_empty (hash : Bytes → UInt32) : empty.Valid hash where
  dict := Dict.valid_create
  expires := Dict.valid_create
  bound _ h := absurd h Finmap.notMem_empty
  iterators := le_refl _

/-- The same maps on other tables. -/
structure Same (hash : Bytes → UInt32) (db db' : RedisDb) : Prop where
  valid : db'.Valid hash
  dict : db'.dict.contents = db.dict.contents
  expires : db'.expires.contents = db.expires.contents

variable {hash : Bytes → UInt32} {db : RedisDb}

theorem Same.toDb {db' : RedisDb} (h : Same hash db db') : db'.toDb = db.toDb := by
  unfold RedisDb.toDb
  rw [h.dict, h.expires]

/-- Tables with the same contents. -/
theorem Valid.same (hdb : db.Valid hash) {dict : Dict Bytes Robj} {expires : Dict Bytes Int}
    (hdict : dict.Valid hash) (hexpires : expires.Valid hash)
    (hc : dict.contents = db.dict.contents) (he : expires.contents = db.expires.contents)
    (hi : 0 ≤ dict.iterators) : Same hash db ⟨dict, expires⟩ := by
  refine ⟨⟨hdict, hexpires, fun key hkey => ?_, hi⟩, hc, he⟩
  rw [he] at hkey
  rw [hc]
  exact hdb.bound key hkey

/-- A key out of both dictionaries. -/
theorem toDb_erase {dict : Dict Bytes Robj} {expires : Dict Bytes Int} {key : Bytes}
    (hc : dict.contents = db.dict.contents.erase key)
    (he : expires.contents = db.expires.contents.erase key) :
    toDb ⟨dict, expires⟩ = db.toDb.dbDelete key := by
  unfold toDb Db.dbDelete
  dsimp only
  rw [hc, he]
  congr 1
  · funext k
    split
    next hk => rw [hk, Finmap.lookup_erase]
    next hk => rw [Finmap.lookup_erase_ne hk]
  · funext k
    split
    next hk => rw [hk, Finmap.lookup_erase]
    next hk => rw [Finmap.lookup_erase_ne hk]

/-- A value for a key, and no time. -/
theorem toDb_insert {dict : Dict Bytes Robj} {expires : Dict Bytes Int} {key : Bytes} {val : Robj}
    (hc : dict.contents = db.dict.contents.insert key val)
    (he : expires.contents = db.expires.contents.erase key) :
    toDb ⟨dict, expires⟩ = db.toDb.setKey key val := by
  unfold toDb Db.setKey
  dsimp only
  rw [hc, he]
  congr 1
  · funext k
    split
    next hk => rw [hk, Finmap.lookup_insert]
    next hk => rw [Finmap.lookup_insert_of_ne _ hk]
  · funext k
    split
    next hk => rw [hk, Finmap.lookup_erase]
    next hk => rw [Finmap.lookup_erase_ne hk]

end RedisDb

namespace Db

/-- A time for a key. -/
def setExpire (db : Db) (key : Bytes) (when : Int) : Db :=
  ⟨db.dict, fun k => if k = key then some when else db.expires k⟩

/-- Whether the time of a key has come, as `expireIfNeeded` reports it. A negative time never
comes. -/
def expired (ctx : DbContext) (db : Db) (key : Bytes) : Bool :=
  match db.expires key with
  | none => false
  | some deadline => !ctx.loading && decide (0 ≤ deadline ∧ deadline < ctx.mstime)

/-- What `expireIfNeeded` leaves: a master deletes the key. -/
def expire (ctx : DbContext) (db : Db) (key : Bytes) : Db :=
  if db.expired ctx key ∧ ctx.masterhost = none then db.dbDelete key else db

/-- `lookupKeyRead` for a command that only reads. -/
def lookupRead (ctx : DbContext) (db : Db) (key : Bytes) : Option Robj :=
  if db.expired ctx key ∧ (ctx.masterhost = none ∨ ¬ ctx.master) then none else db.dict key

/-- `expireGenericCommand` at an absolute time. -/
def expireAt (ctx : DbContext) (db : Db) (key : Bytes) (when : Int) : Bool × Db :=
  if ((db.expire ctx key).dict key).isNone then (false, db.expire ctx key)
  else if when ≤ ctx.mstime ∧ ¬ ctx.loading ∧ ctx.masterhost = none then
    (true, (db.expire ctx key).dbDelete key)
  else (true, (db.expire ctx key).setExpire key when)

theorem setKey_expire (ctx : DbContext) (db : Db) (key : Bytes) (val : Robj) :
    (db.expire ctx key).setKey key val = db.setKey key val := by
  unfold expire
  split
  next =>
    unfold setKey dbDelete
    congr 1
    · funext k
      dsimp only
      split <;> rfl
    · funext k
      dsimp only
      split <;> rfl
  next => rfl

end Db

namespace RedisDb

variable {hash : Bytes → UInt32} {db : RedisDb}

theorem getExpire_spec (hdb : db.Valid hash) (key : Bytes) :
    ∃ db', getExpire hash db key =
        .ok ((db.expires.contents.lookup key).getD (-1), db') ∧ Same hash db db' := by
  unfold getExpire
  split
  next hzero =>
    have hnone : db.expires.contents.lookup key = none := by
      rw [Finmap.lookup_eq_none, ← Finmap.mem_keys]
      rw [hdb.expires.dictSize_eq_card, Finset.card_eq_zero] at hzero
      rw [hzero]
      exact Finset.notMem_empty key
    rw [hnone]
    exact ⟨db, rfl, hdb, rfl, rfl⟩
  next =>
    obtain ⟨de, expires, hfind, hexpires, he, hval, -⟩ := Dict.dictFind_contents hdb.expires key
    rw [hfind, ok_bind, ← hval]
    cases de with
    | none => exact ⟨_, rfl, hdb.same hdb.dict hexpires rfl he hdb.iterators⟩
    | some de =>
        obtain ⟨found, dict, hfound, hdict, hc, hbound, hi⟩ := Dict.dictFind_contents hdb.dict key
        have hkey : key ∈ db.dict.contents :=
          hdb.bound key (Finmap.mem_of_lookup_eq_some hval.symm)
        rw [← Finmap.lookup_isSome, ← hbound] at hkey
        dsimp only
        rw [hfound, ok_bind]
        cases found with
        | none => cases hkey
        | some found =>
            exact ⟨_, rfl, hdb.same hdict hexpires hc he (hdb.iterators.trans_eq hi.symm)⟩

theorem erase_of_notMem {V : Type} {m : Finmap fun _ : Bytes => V} {key : Bytes}
    (hkey : key ∉ m) : m.erase key = m := by
  apply Finmap.ext_lookup
  intro k
  rcases eq_or_ne k key with rfl | hne
  · rw [Finmap.lookup_erase, Finmap.lookup_eq_none.mpr hkey]
  · rw [Finmap.lookup_erase_ne hne]

/-- Keys out of both dictionaries leave the rest sound. -/
theorem Valid.erase (hdb : db.Valid hash) {dict : Dict Bytes Robj} {expires : Dict Bytes Int}
    (hdict : dict.Valid hash) (hexpires : expires.Valid hash) {key : Bytes}
    (hc : dict.contents = db.dict.contents.erase key)
    (he : expires.contents = db.expires.contents.erase key)
    (hi : dict.iterators = db.dict.iterators) :
    Valid hash ⟨dict, expires⟩ := by
  refine ⟨hdict, hexpires, fun k hk => ?_, hdb.iterators.trans_eq hi.symm⟩
  rw [he, Finmap.mem_erase] at hk
  rw [hc, Finmap.mem_erase]
  exact ⟨hk.1, hdb.bound k hk.2⟩

theorem dbDelete_spec (hdb : db.Valid hash) (key : Bytes) :
    ∃ db', dbDelete hash db key = .ok (decide (key ∈ db.dict.contents), db') ∧ db'.Valid hash ∧
      db'.toDb = db.toDb.dbDelete key := by
  obtain ⟨deleted, dict, hdelete, hdict, rfl, hc, hi⟩ := Dict.dictDelete_contents hdb.dict key
  unfold dbDelete
  split
  next =>
    obtain ⟨_, expires, hdelete', hexpires, -, he, -⟩ := Dict.dictDelete_contents hdb.expires key
    refine ⟨⟨dict, expires⟩, ?_, hdb.erase hdict hexpires hc he hi, toDb_erase hc he⟩
    simp only [hdelete', hdelete, ok_bind, pure_eq_ok]
  next hzero =>
    have hno : key ∉ db.expires.contents := by
      rw [hdb.expires.dictSize_eq_card, Nat.not_lt, Nat.le_zero, Finset.card_eq_zero] at hzero
      rw [← Finmap.mem_keys, hzero]
      exact Finset.notMem_empty key
    have he : db.expires.contents = db.expires.contents.erase key := (erase_of_notMem hno).symm
    refine ⟨⟨dict, db.expires⟩, ?_, hdb.erase hdict hdb.expires hc he hi, toDb_erase hc he⟩
    simp only [hdelete, ok_bind, pure_eq_ok]

theorem expireIfNeeded_spec (hdb : db.Valid hash) (ctx : DbContext) (key : Bytes) :
    ∃ db', expireIfNeeded hash ctx db key = .ok (db.toDb.expired ctx key, db') ∧
      db'.Valid hash ∧ db'.toDb = db.toDb.expire ctx key := by
  obtain ⟨db₁, hget, hsame⟩ := getExpire_spec hdb key
  have hdb₁ := hsame.valid
  have hlives : db.toDb.expired ctx key = false →
      ∃ db', (pure (false, db₁) : Except Fault (Bool × RedisDb)) =
          .ok (db.toDb.expired ctx key, db') ∧
        db'.Valid hash ∧ db'.toDb = db.toDb.expire ctx key := by
    intro hno
    rw [Db.expire, hno, if_neg (by simp)]
    exact ⟨db₁, rfl, hdb₁, hsame.toDb⟩
  unfold expireIfNeeded
  rw [hget, ok_bind]
  cases hwhen : db.expires.contents.lookup key with
  | none =>
      apply hlives
      rw [Db.expired, toDb]
      dsimp only
      rw [hwhen]
  | some when =>
      have hexpired : db.toDb.expired ctx key =
          (!ctx.loading && decide (0 ≤ when ∧ when < ctx.mstime)) := by
        rw [Db.expired, toDb]
        dsimp only
        rw [hwhen]
      dsimp only [Option.getD]
      split
      next hnegative =>
        apply hlives
        rw [hexpired, decide_eq_false (by omega), Bool.and_false]
      next hnonneg =>
        split
        next hloading =>
          apply hlives
          rw [hexpired, hloading]
          rfl
        next hloading =>
          rw [Bool.not_eq_true] at hloading
          rw [hloading, Bool.not_false, Bool.true_and] at hexpired
          split
          next hreplica =>
            have hhost : ctx.masterhost ≠ none := Option.isSome_iff_ne_none.mp hreplica
            have hlt : decide (when < ctx.mstime) = decide (0 ≤ when ∧ when < ctx.mstime) :=
              decide_eq_decide.mpr (by omega)
            refine ⟨db₁, ?_, hdb₁, ?_⟩
            · rw [hexpired, hlt]
              rfl
            · rw [hsame.toDb, Db.expire, if_neg fun h => hhost h.2]
          next hmaster =>
            have hhost : ctx.masterhost = none := Option.not_isSome_iff_eq_none.mp hmaster
            split
            next hearly =>
              apply hlives
              rw [hexpired]
              exact decide_eq_false (by omega)
            next hlate =>
              have hyes : db.toDb.expired ctx key = true := by
                rw [hexpired]
                exact decide_eq_true (by omega)
              obtain ⟨db₂, hdelete, hdb₂, hdb₂'⟩ := dbDelete_spec hdb₁ key
              have hkey : key ∈ db₁.dict.contents := by
                rw [hsame.dict]
                exact hdb.bound key (Finmap.mem_of_lookup_eq_some hwhen)
              refine ⟨db₂, ?_, hdb₂, ?_⟩
              · rw [hdelete, hyes, decide_eq_true hkey]
              · rw [hdb₂', hsame.toDb, Db.expire, if_pos ⟨hyes, hhost⟩]

theorem lookupKey_spec (hdb : db.Valid hash) (key : Bytes) :
    ∃ db', lookupKey hash db key = .ok (db.toDb.dict key, db') ∧ Same hash db db' := by
  obtain ⟨de, dict, hfind, hdict, hc, hval, hi⟩ := Dict.dictFind_contents hdb.dict key
  refine ⟨⟨dict, db.expires⟩, ?_,
    hdb.same hdict hdb.expires hc rfl (hdb.iterators.trans_eq hi.symm)⟩
  rw [lookupKey, hfind, ok_bind]
  dsimp only
  rw [hval]
  rfl

theorem lookupKeyWrite_spec (hdb : db.Valid hash) (ctx : DbContext) (key : Bytes) :
    ∃ db', lookupKeyWrite hash ctx db key = .ok ((db.toDb.expire ctx key).dict key, db') ∧
      db'.Valid hash ∧ db'.toDb = db.toDb.expire ctx key := by
  obtain ⟨db₁, hexpire, hdb₁, heq⟩ := expireIfNeeded_spec hdb ctx key
  obtain ⟨db₂, hlookup, hsame⟩ := lookupKey_spec hdb₁ key
  refine ⟨db₂, ?_, hsame.valid, hsame.toDb.trans heq⟩
  rw [lookupKeyWrite, hexpire, ok_bind, ← heq]
  exact hlookup

/-- A value for a key. -/
theorem Valid.insert (hdb : db.Valid hash) {dict : Dict Bytes Robj} (hdict : dict.Valid hash)
    {key : Bytes} {val : Robj} (hc : dict.contents = db.dict.contents.insert key val)
    (hi : dict.iterators = db.dict.iterators) : Valid hash { db with dict := dict } := by
  refine ⟨hdict, hdb.expires, fun k hk => ?_, hdb.iterators.trans_eq hi.symm⟩
  dsimp only
  rw [hc, Finmap.mem_insert]
  exact .inr (hdb.bound k hk)

section Room

variable {ctx : DbContext} (hroom : ctx.room ≤ 2 ^ 31)

include hroom

theorem dbAdd_spec (hdb : db.Valid hash) {key : Bytes} (hkey : key ∉ db.dict.contents)
    (val : Robj) :
    Ensures outOfMemory
      (fun db' => db'.Valid hash ∧ db'.dict.contents = db.dict.contents.insert key val ∧
        db'.expires = db.expires)
      (dbAdd hash ctx db key val) := by
  apply (Dict.dictAdd_contents hroom ctx.canResize hdb.dict key val).bind
  rintro ⟨ok, dict⟩ ⟨hdict, hok, hc, hi⟩
  dsimp only at hok hc ⊢
  rw [decide_eq_true hkey] at hok
  rw [if_neg hkey] at hc
  rw [if_pos hok]
  exact ⟨hdb.insert hdict hc hi, hc, rfl⟩

theorem dbOverwrite_spec (hdb : db.Valid hash) {key : Bytes} (hkey : key ∈ db.dict.contents)
    (val : Robj) :
    Ensures outOfMemory
      (fun db' => db'.Valid hash ∧ db'.dict.contents = db.dict.contents.insert key val ∧
        db'.expires = db.expires)
      (dbOverwrite hash ctx db key val) := by
  obtain ⟨de, dict, hfind, hdict, hc, hval, hi⟩ := Dict.dictFind_contents hdb.dict key
  rw [← Finmap.lookup_isSome, ← hval] at hkey
  unfold dbOverwrite
  rw [hfind, ok_bind]
  cases de with
  | none => cases hkey
  | some de =>
      apply (Dict.dictReplace_contents hroom ctx.canResize hdict key val).bind
      rintro ⟨added, dict'⟩ ⟨hdict', -, hc', hi'⟩
      dsimp only at hc'
      rw [hc] at hc'
      exact ⟨hdb.insert hdict' hc' (hi'.trans hi), hc', rfl⟩

end Room

theorem removeExpire_spec (hdb : db.Valid hash) {key : Bytes} (hkey : key ∈ db.dict.contents) :
    ∃ db', removeExpire hash db key = .ok db' ∧ db'.Valid hash ∧
      db'.dict.contents = db.dict.contents ∧
      db'.expires.contents = db.expires.contents.erase key := by
  obtain ⟨de, dict, hfind, hdict, hc, hval, hi⟩ := Dict.dictFind_contents hdb.dict key
  obtain ⟨_, expires, hdelete, hexpires, -, he, -⟩ := Dict.dictDelete_contents hdb.expires key
  rw [← Finmap.lookup_isSome, ← hval] at hkey
  unfold removeExpire
  rw [hfind, ok_bind]
  cases de with
  | none => cases hkey
  | some de =>
      refine ⟨⟨dict, expires⟩, ?_,
        ⟨hdict, hexpires, fun k hk => ?_, hdb.iterators.trans_eq hi.symm⟩, hc, he⟩
      · simp only [Option.isNone_some, hdelete, ok_bind, pure_eq_ok]
        rfl
      · rw [he, Finmap.mem_erase] at hk
        rw [hc]
        exact hdb.bound k hk.2

/-- `setKey` on the dictionaries is `setKey` on the maps, and none of its assertions fails. -/
theorem setKey_spec {ctx : DbContext} (hroom : ctx.room ≤ 2 ^ 31) (hdb : db.Valid hash)
    (key : Bytes) (val : Robj) :
    Ensures outOfMemory (fun db' => db'.Valid hash ∧ db'.toDb = db.toDb.setKey key val)
      (setKey hash ctx db key val) := by
  obtain ⟨db₁, hlookup, hdb₁, heq⟩ := lookupKeyWrite_spec hdb ctx key
  have hrest : ∀ db₂ : RedisDb, db₂.Valid hash ∧
      db₂.dict.contents = db₁.dict.contents.insert key val ∧ db₂.expires = db₁.expires →
      Ensures outOfMemory (fun db' => db'.Valid hash ∧ db'.toDb = db.toDb.setKey key val)
        (removeExpire hash db₂ key) := by
    rintro db₂ ⟨hdb₂, hc, he⟩
    have hkey : key ∈ db₂.dict.contents := by
      rw [hc, Finmap.mem_insert]
      exact .inl rfl
    obtain ⟨db₃, hremove, hdb₃, hc₃, he₃⟩ := removeExpire_spec hdb₂ hkey
    rw [hremove]
    refine ⟨hdb₃, ?_⟩
    rw [← Db.setKey_expire ctx, ← heq]
    exact toDb_insert (hc₃.trans hc) (he ▸ he₃)
  unfold setKey
  rw [hlookup, ok_bind, ← heq]
  dsimp only
  apply Ensures.ite
  · intro hnone
    apply (dbAdd_spec hroom hdb₁ ?_ val).bind hrest
    exact Finmap.lookup_eq_none.mp (Option.isNone_iff_eq_none.mp hnone)
  · intro hsome
    apply (dbOverwrite_spec hroom hdb₁ ?_ val).bind hrest
    rw [← Finmap.lookup_isSome, Option.isSome_iff_ne_none]
    exact fun hnone => hsome (Option.isNone_iff_eq_none.mpr hnone)

theorem lookupKeyRead_spec (hdb : db.Valid hash) (ctx : DbContext) (key : Bytes) :
    ∃ db', lookupKeyRead hash ctx db key = .ok (db.toDb.lookupRead ctx key, db') ∧
      db'.Valid hash ∧ db'.toDb = db.toDb.expire ctx key := by
  obtain ⟨db₁, hexpire, hdb₁, heq⟩ := expireIfNeeded_spec hdb ctx key
  obtain ⟨db₂, hlookup, hsame⟩ := lookupKey_spec hdb₁ key
  unfold lookupKeyRead Db.lookupRead
  rw [hexpire, ok_bind]
  dsimp only
  cases hexpired : db.toDb.expired ctx key with
  | false =>
      have hsame' : db.toDb.expire ctx key = db.toDb := by
        rw [Db.expire, hexpired, if_neg (by simp)]
      rw [heq, hsame'] at hlookup
      refine ⟨db₂, ?_, hsame.valid, hsame.toDb.trans heq⟩
      rw [if_neg (by simp)]
      exact hlookup
  | true =>
      cases hhost : ctx.masterhost with
      | none => exact ⟨db₁, by simp, hdb₁, heq⟩
      | some host =>
          have hsame' : db.toDb.expire ctx key = db.toDb := by
            rw [Db.expire, hhost, if_neg (by simp)]
          rw [heq, hsame'] at hlookup
          cases hmaster : ctx.master with
          | false => exact ⟨db₁, by simp, hdb₁, heq⟩
          | true => exact ⟨db₂, by simpa using hlookup, hsame.valid, hsame.toDb.trans heq⟩

theorem setExpire_spec {ctx : DbContext} (hroom : ctx.room ≤ 2 ^ 31) (hdb : db.Valid hash)
    {key : Bytes} (hkey : key ∈ db.dict.contents) (when : Int) :
    Ensures outOfMemory (fun db' => db'.Valid hash ∧ db'.toDb = db.toDb.setExpire key when)
      (setExpire hash ctx db key when) := by
  obtain ⟨kde, dict, hfind, hdict, hc, hval, hi⟩ := Dict.dictFind_contents hdb.dict key
  have hsome : (kde.map (·.val)).isSome := by
    rw [hval, Finmap.lookup_isSome]
    exact hkey
  unfold setExpire
  rw [hfind, ok_bind]
  cases kde with
  | none => cases hsome
  | some kde =>
      apply (Dict.dictReplaceRaw_contents hroom ctx.canResize hdb.expires key when).bind
      rintro expires ⟨hexpires, he⟩
      refine ⟨⟨hdict, hexpires, fun k hk => ?_, hdb.iterators.trans_eq hi.symm⟩, ?_⟩
      · rw [he, Finmap.mem_insert] at hk
        rw [hc]
        rcases hk with rfl | hk
        · exact hkey
        · exact hdb.bound k hk
      · unfold toDb Db.setExpire
        dsimp only
        rw [hc, he]
        congr 1
        funext k
        split
        next hk => rw [hk, Finmap.lookup_insert]
        next hk => rw [Finmap.lookup_insert_of_ne _ hk]

theorem mem_contents_iff (db : RedisDb) (key : Bytes) :
    key ∈ db.dict.contents ↔ (db.toDb.dict key).isSome := Finmap.lookup_isSome.symm

theorem delCommand_spec (hdb : db.Valid hash) (ctx : DbContext) (key : Bytes) :
    ∃ db', delCommand hash ctx db key =
        .ok (((db.toDb.expire ctx key).dict key).isSome, db') ∧
      db'.Valid hash ∧ db'.toDb = (db.toDb.expire ctx key).dbDelete key := by
  obtain ⟨db₁, hexpire, hdb₁, heq⟩ := expireIfNeeded_spec hdb ctx key
  obtain ⟨db₂, hdelete, hdb₂, heq₂⟩ := dbDelete_spec hdb₁ key
  refine ⟨db₂, ?_, hdb₂, heq ▸ heq₂⟩
  rw [delCommand, hexpire, ok_bind, ← heq]
  refine hdelete.trans (congrArg (fun b => Except.ok (b, db₂)) ?_)
  rw [Bool.eq_iff_iff, decide_eq_true_iff, mem_contents_iff]

theorem expireGenericCommand_spec {ctx : DbContext} (hroom : ctx.room ≤ 2 ^ 31)
    (hdb : db.Valid hash) (key : Bytes) (when : Int) :
    Ensures outOfMemory
      (fun r => r.2.Valid hash ∧ r.1 = (db.toDb.expireAt ctx key when).1 ∧
        r.2.toDb = (db.toDb.expireAt ctx key when).2)
      (expireGenericCommand hash ctx db key when) := by
  obtain ⟨db₁, hlookup, hdb₁, heq⟩ := lookupKeyWrite_spec hdb ctx key
  unfold expireGenericCommand Db.expireAt
  rw [hlookup, ok_bind, ← heq]
  dsimp only
  split
  next => exact ⟨hdb₁, rfl, rfl⟩
  next hsome =>
    have hkey : key ∈ db₁.dict.contents := by
      rw [mem_contents_iff, Option.isSome_iff_ne_none]
      exact fun hnone => hsome (Option.isNone_iff_eq_none.mpr hnone)
    split
    next =>
      obtain ⟨db₂, hdelete, hdb₂, heq₂⟩ := dbDelete_spec hdb₁ key
      rw [hdelete, decide_eq_true hkey]
      exact ⟨hdb₂, rfl, heq₂⟩
    next =>
      apply (setExpire_spec hroom hdb₁ hkey when).bind
      rintro db₂ ⟨hdb₂, heq₂⟩
      exact ⟨hdb₂, rfl, heq₂⟩

end RedisDb

/-- What a draw of the expire cycle leaves. -/
def Db.draw (ctx : DbContext) (db : Db) (key : Bytes) : Db :=
  match db.expires key with
  | none => db
  | some deadline => if deadline < ctx.mstime then db.dbDelete key else db

namespace RedisDb

variable {hash : Bytes → UInt32} {db : RedisDb}

theorem expireDraw_spec (hdb : db.Valid hash) (ctx : DbContext) (key : Bytes) :
    ∃ db', expireDraw hash ctx db key = .ok db' ∧ db'.Valid hash ∧
      db'.toDb = db.toDb.draw ctx key := by
  obtain ⟨p, expires, hfind, htouched, hval, hpoints⟩ := Dict.dictFind_spec hdb.expires key
  have hrearranged := htouched.rearranged hdb.expires
  have hsame : Same hash db { db with expires := expires } :=
    hdb.same hdb.dict hrearranged.valid rfl hrearranged.contents hdb.iterators
  rw [← Dict.contents_lookup] at hval
  unfold expireDraw Db.draw
  rw [hfind, ok_bind]
  cases p with
  | none =>
      have hnone : db.toDb.expires key = none := hval.symm
      rw [hnone]
      exact ⟨_, rfl, hsame.valid, hsame.toDb⟩
  | some de =>
      have hsome : db.toDb.expires key = some de.val := hval.symm
      rw [hsome]
      dsimp only [activeExpireCycleTryExpire]
      rw [(hpoints de rfl).key_eq]
      by_cases hlate : de.val < ctx.mstime
      · obtain ⟨db₂, hdelete, hdb₂, heq₂⟩ := dbDelete_spec hsame.valid key
        refine ⟨db₂, ?_, hdb₂, ?_⟩
        · rw [if_pos hlate, hdelete]
          rfl
        · rw [if_pos hlate, heq₂, hsame.toDb]
      · refine ⟨_, if_neg hlate, hsame.valid, ?_⟩
        rw [if_neg hlate, hsame.toDb]

theorem resizeIfNeeded_spec {V : Type} {ctx : DbContext} (hroom : ctx.room ≤ 2 ^ 31)
    {d : Dict Bytes V} (hd : d.Valid hash) :
    Ensures outOfMemory (Dict.Rearranged hash d) (resizeIfNeeded ctx d) := by
  apply Ensures.ite
  · intro _
    apply (Dict.dictResize_spec hroom ctx.canResize hd).bind
    exact fun _ h => h
  · exact fun _ => .refl hd

theorem tryResizeHashTables_spec {ctx : DbContext} (hroom : ctx.room ≤ 2 ^ 31)
    (hdb : db.Valid hash) :
    Ensures outOfMemory (Same hash db) (tryResizeHashTables ctx db) := by
  apply (resizeIfNeeded_spec hroom hdb.dict).bind
  intro dict hdict
  apply (resizeIfNeeded_spec hroom hdb.expires).bind
  intro expires hexpires
  exact hdb.same hdict.valid hexpires.valid hdict.contents hexpires.contents
    (hdb.iterators.trans_eq hdict.iterators.symm)

theorem incrementallyRehash_spec (hdb : db.Valid hash) (rounds : Nat) :
    ∃ db', incrementallyRehash hash rounds db = .ok db' ∧ Same hash db db' := by
  unfold incrementallyRehash
  split
  next =>
    obtain ⟨dict, hrun, h⟩ := Dict.dictRehashMilliseconds_spec rounds hdb.dict
    refine ⟨{ db with dict := dict }, by rw [hrun]; rfl, ?_⟩
    exact hdb.same h.valid hdb.expires h.contents rfl (hdb.iterators.trans_eq h.iterators.symm)
  next =>
    split
    next =>
      obtain ⟨expires, hrun, h⟩ := Dict.dictRehashMilliseconds_spec rounds hdb.expires
      exact ⟨{ db with expires := expires }, by rw [hrun]; rfl,
        hdb.same hdb.dict h.valid rfl h.contents hdb.iterators⟩
    next => exact ⟨db, rfl, hdb, rfl, rfl⟩

end RedisDb

/-! ## Runs -/

/-- What is done to the keyspace: commands, draws of the expire cycle, and the upkeep of the
tables. -/
inductive DbOp
  | set (key value : Bytes)
  | get (key : Bytes)
  | del (key : Bytes)
  | expireAt (key : Bytes) (when : Int)
  | expireDraw (key : Bytes)
  | resize
  | rehash (rounds : Nat)

inductive DbReply
  | value (o : Option Robj)
  | flag (b : Bool)
  | none
deriving DecidableEq

/-- One operation on the dictionaries. -/
def RedisDb.step (hash : Bytes → UInt32) (ctx : DbContext) (db : RedisDb) :
    DbOp → Except Fault (DbReply × RedisDb)
  | .set key value => do
      let db ← db.setKey hash ctx key (tryObjectEncoding value)
      return (.none, db)
  | .get key => do
      let (o, db) ← db.lookupKeyRead hash ctx key
      return (.value o, db)
  | .del key => do
      let (deleted, db) ← db.delCommand hash ctx key
      return (.flag deleted, db)
  | .expireAt key when => do
      let (found, db) ← db.expireGenericCommand hash ctx key when
      return (.flag found, db)
  | .expireDraw key => do
      let db ← db.expireDraw hash ctx key
      return (.none, db)
  | .resize => do
      let db ← db.tryResizeHashTables ctx
      return (.none, db)
  | .rehash rounds => do
      let db ← db.incrementallyRehash hash rounds
      return (.none, db)

/-- Operations one after the other, each in the surroundings of its time. -/
def RedisDb.run (hash : Bytes → UInt32) :
    List (DbContext × DbOp) → RedisDb → Except Fault (List DbReply × RedisDb)
  | [], db => .ok ([], db)
  | (ctx, op) :: rest, db => do
      let (reply, db) ← db.step hash ctx op
      let (replies, db) ← RedisDb.run hash rest db
      return (reply :: replies, db)

/-- What an operation is on the maps. -/
def Db.step (ctx : DbContext) (db : Db) : DbOp → DbReply × Db
  | .set key value => (.none, db.setCommand key value)
  | .get key => (.value (db.lookupRead ctx key), db.expire ctx key)
  | .del key =>
      (.flag ((db.expire ctx key).dict key).isSome, (db.expire ctx key).dbDelete key)
  | .expireAt key when => (.flag (db.expireAt ctx key when).1, (db.expireAt ctx key when).2)
  | .expireDraw key => (.none, db.draw ctx key)
  | .resize => (.none, db)
  | .rehash _ => (.none, db)

def Db.run : List (DbContext × DbOp) → Db → List DbReply × Db
  | [], db => ([], db)
  | (ctx, op) :: rest, db =>
      ((db.step ctx op).1 :: (Db.run rest (db.step ctx op).2).1,
        (Db.run rest (db.step ctx op).2).2)

namespace RedisDb

variable {hash : Bytes → UInt32} {db : RedisDb}

theorem step_spec {ctx : DbContext} (hroom : ctx.room ≤ 2 ^ 31) (hdb : db.Valid hash)
    (op : DbOp) :
    Ensures outOfMemory
      (fun r => r.2.Valid hash ∧ r.1 = (db.toDb.step ctx op).1 ∧
        r.2.toDb = (db.toDb.step ctx op).2)
      (db.step hash ctx op) := by
  cases op with
  | set key value =>
      apply (setKey_spec hroom hdb key (tryObjectEncoding value)).bind
      rintro db' ⟨hdb', heq⟩
      exact ⟨hdb', rfl, heq⟩
  | get key =>
      obtain ⟨db', hlookup, hdb', heq⟩ := lookupKeyRead_spec hdb ctx key
      rw [step, hlookup]
      exact ⟨hdb', rfl, heq⟩
  | del key =>
      obtain ⟨db', hdel, hdb', heq⟩ := delCommand_spec hdb ctx key
      rw [step, hdel]
      exact ⟨hdb', rfl, heq⟩
  | expireAt key when =>
      apply (expireGenericCommand_spec hroom hdb key when).bind
      rintro ⟨found, db'⟩ ⟨hdb', hfound, heq⟩
      exact ⟨hdb', congrArg _ hfound, heq⟩
  | expireDraw key =>
      obtain ⟨db', hdraw, hdb', heq⟩ := expireDraw_spec hdb ctx key
      rw [step, hdraw]
      exact ⟨hdb', rfl, heq⟩
  | resize =>
      apply (tryResizeHashTables_spec hroom hdb).bind
      intro db' hsame
      exact ⟨hsame.valid, rfl, hsame.toDb⟩
  | rehash rounds =>
      obtain ⟨db', hrehash, hsame⟩ := incrementallyRehash_spec hdb rounds
      rw [step, hrehash]
      exact ⟨hsame.valid, rfl, hsame.toDb⟩

theorem run_spec {ops : List (DbContext × DbOp)} (hroom : ∀ op ∈ ops, op.1.room ≤ 2 ^ 31)
    (hdb : db.Valid hash) :
    Ensures outOfMemory
      (fun r => r.2.Valid hash ∧ r.1 = (Db.run ops db.toDb).1 ∧
        r.2.toDb = (Db.run ops db.toDb).2)
      (RedisDb.run hash ops db) := by
  induction ops generalizing db with
  | nil => exact ⟨hdb, rfl, rfl⟩
  | cons head rest ih =>
      obtain ⟨ctx, op⟩ := head
      have hhead : ctx.room ≤ 2 ^ 31 := hroom (ctx, op) List.mem_cons_self
      apply (step_spec hhead hdb op).bind
      rintro ⟨reply, db₁⟩ ⟨hdb₁, hreply, heq⟩
      apply (ih (fun o ho => hroom o (List.mem_cons_of_mem _ ho)) hdb₁).bind
      rintro ⟨replies, db₂⟩ ⟨hdb₂, hreplies, heq₂⟩
      dsimp only at hreply heq hreplies heq₂
      rw [heq] at hreplies heq₂
      exact ⟨hdb₂, congrArg₂ List.cons hreply hreplies, heq₂⟩

/-- Over any run of commands, expiry, resizing and rehashing, the dictionaries give the replies
and end with the maps of the keyspace of plain maps. No assertion of `db.c` fails. -/
theorem run_refines_maps {ops : List (DbContext × DbOp)}
    (hroom : ∀ op ∈ ops, op.1.room ≤ 2 ^ 31) :
    Ensures outOfMemory
      (fun r => r.1 = (Db.run ops Db.empty).1 ∧ r.2.toDb = (Db.run ops Db.empty).2)
      (RedisDb.run hash ops RedisDb.empty) :=
  (run_spec hroom (valid_empty hash)).mono fun _ h => h.2

/-- A master with room for 16 buckets at the given time. -/
def contextAt (mstime : Nat) : DbContext := ⟨16, true, mstime, false, none, false⟩

def lengthHash (key : Bytes) : UInt32 := UInt32.ofNat key.length

/-- Five keys make the table grow; one of them expires between two reads. -/
def expiringOps : List (DbContext × DbOp) :=
  ["", "a", "bb", "ccc", "dddd"].map (fun s => (contextAt 5, .set (ascii s) (ascii "1"))) ++
    [(contextAt 5, .expireAt (ascii "bb") 10), (contextAt 6, .get (ascii "bb")),
      (contextAt 6, .rehash 1), (contextAt 11, .get (ascii "bb")), (contextAt 12, .resize)]

theorem run_refines_maps_expiring :
    ∃ r, RedisDb.run lengthHash expiringOps RedisDb.empty = .ok r ∧
      r.1 = (Db.run expiringOps Db.empty).1 ∧ r.2.toDb = (Db.run expiringOps Db.empty).2 :=
  ⟨_, rfl, (@run_refines_maps lengthHash expiringOps (by decide)).of_ok rfl⟩

end RedisDb

/-! ## The lookup of a request -/

/-- What `db.c` reads of the world around it. -/
def World.dbContext (w : World) (room : Nat) (canResize : Bool) : DbContext :=
  ⟨room, canResize, w.server.mstime, w.server.loading, w.server.masterhost, w.client.flags.master⟩

/-- The lookup that serves requests is the one of the keyspace of maps. -/
theorem lookupKeyRead_eq (w : World) (key : Bytes) (room : Nat) (canResize : Bool) :
    lookupKeyRead w key =
      ({ w with server :=
          { w.server with db := w.server.db.expire (w.dbContext room canResize) key } },
        w.server.db.lookupRead (w.dbContext room canResize) key) := by
  unfold lookupKeyRead Db.lookupRead Db.expire
  cases hdeadline : w.server.db.expires key with
  | none => simp [Db.expired, hdeadline]
  | some deadline =>
      have hexpired : w.server.db.expired (w.dbContext room canResize) key =
          decide ¬ (deadline < 0 ∨ w.server.loading = true ∨ w.server.mstime ≤ deadline) := by
        rw [Db.expired, hdeadline, Bool.eq_iff_iff]
        change (!w.server.loading && decide (0 ≤ deadline ∧ deadline < w.server.mstime)) = true ↔ _
        simp only [Bool.and_eq_true, Bool.not_eq_true', decide_eq_true_iff, not_or, not_lt, not_le,
          Bool.not_eq_true]
        exact and_left_comm
      rw [hexpired]
      by_cases hlive : deadline < 0 ∨ w.server.loading = true ∨ w.server.mstime ≤ deadline
      · simp only [hlive, if_true, not_true, decide_false, Bool.false_eq_true, false_and, if_false]
      · by_cases hhost : w.server.masterhost = none
        · simp [hlive, hhost, World.dbContext]
        · simp only [hlive, hhost, if_false, World.dbContext, and_false, false_or, not_false_iff,
            decide_true, true_and, ite_not]
          split <;> rfl

end Blogd
