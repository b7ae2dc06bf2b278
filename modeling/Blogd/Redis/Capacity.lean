import Blogd.Redis.Memory

/-! # What a dump has room for

A dump has room for texts of less than two gigabytes, for times of 64 bits, and for fewer keys than
the length that stands for an error. A command adds one key at most, and it is counted then. So the
databases stay within these bounds if they are within them at the start, as long as the commands
store nothing larger and the changes are few enough.
-/

namespace Blogd

/-! ## What a command stores -/

/-- Whatever is in a keyspace is in another one, with the same value and time. -/
structure Db.Sub (db' db : Db) : Prop where
  dict : ∀ {key o}, db'.dict key = some o → db.dict key = some o
  expires : ∀ {key t}, db'.expires key = some t → db.expires key = some t

namespace Db

variable {db db' db'' : Db}

theorem Sub.refl (db : Db) : db.Sub db := ⟨id, id⟩

theorem Sub.trans (h : db''.Sub db') (h' : db'.Sub db) : db''.Sub db :=
  ⟨h'.dict ∘ h.dict, h'.expires ∘ h.expires⟩

theorem dbDelete_sub (db : Db) (key : Bytes) : (db.dbDelete key).Sub db := by
  constructor
  · intro k o hk
    exact (Option.ite_none_left_eq_some.mp hk).2
  · intro k t hk
    exact (Option.ite_none_left_eq_some.mp hk).2

theorem expire_sub (ctx : DbContext) (db : Db) (key : Bytes) : (db.expire ctx key).Sub db := by
  unfold expire
  split
  next => exact dbDelete_sub db key
  next => exact Sub.refl db

theorem draw_sub (ctx : DbContext) (db : Db) (key : Bytes) : (db.draw ctx key).Sub db := by
  unfold draw
  split
  next => exact Sub.refl db
  next =>
    split
    next => exact dbDelete_sub db key
    next => exact Sub.refl db

/-- A master that is not loading deletes the key instead of storing a time in the past. -/
def Deletes (ctx : DbContext) (when : Int) : Prop :=
  when ≤ ctx.mstime ∧ ¬ ctx.loading ∧ ctx.masterhost = none

theorem expireAt_cases (ctx : DbContext) (db : Db) (key : Bytes) (when : Int) :
    (db.expireAt ctx key when).2.Sub db ∨ ¬ Deletes ctx when ∧
      (db.expireAt ctx key when).2 = (db.expire ctx key).setExpire key when := by
  unfold expireAt
  split
  next => exact .inl (expire_sub ctx db key)
  next =>
    split
    next => exact .inl ((dbDelete_sub _ key).trans (expire_sub ctx db key))
    next hstored => exact .inr ⟨hstored, rfl⟩

/-- What is in a keyspace behind a command was there before, or the command stored it. -/
structure Stored (ctx : DbContext) (op : DbOp) (db db' : Db) : Prop where
  dict : ∀ {key o}, db'.dict key = some o →
    db.dict key = some o ∨ ∃ value, op = .set key value ∧ o = tryObjectEncoding value
  expires : ∀ {key t}, db'.expires key = some t →
    db.expires key = some t ∨ op = .expireAt key t ∧ ¬ Deletes ctx t

theorem Sub.stored (h : db'.Sub db) (ctx : DbContext) (op : DbOp) : Stored ctx op db db' :=
  ⟨fun hk => .inl (h.dict hk), fun hk => .inl (h.expires hk)⟩

theorem step_stored (ctx : DbContext) (op : DbOp) (db : Db) :
    Stored ctx op db (db.step ctx op).2 := by
  cases op with
  | set key value =>
      constructor
      · intro k o hk
        obtain ⟨rfl, ho⟩ | ⟨-, ho⟩ := ite_eq_iff.mp hk
        · exact .inr ⟨value, rfl, (Option.some.inj ho).symm⟩
        · exact .inl ho
      · intro k t hk
        exact .inl (Option.ite_none_left_eq_some.mp hk).2
  | get key => exact (expire_sub ctx db key).stored ctx _
  | del key => exact ((dbDelete_sub _ key).trans (expire_sub ctx db key)).stored ctx _
  | expireAt key when =>
      change Stored ctx _ db (db.expireAt ctx key when).2
      obtain hsub | ⟨hstored, heq⟩ := expireAt_cases ctx db key when
      · exact hsub.stored ctx _
      · rw [heq]
        refine ⟨fun hk => .inl ((expire_sub ctx db key).dict hk), fun {k t} hk => ?_⟩
        obtain ⟨rfl, ht⟩ | ⟨-, ht⟩ := ite_eq_iff.mp hk
        · cases ht
          exact .inr ⟨rfl, hstored⟩
        · exact .inl ((expire_sub ctx db key).expires ht)
  | expireDraw key => exact (draw_sub ctx db key).stored ctx _
  | resize | rehash => exact (Sub.refl db).stored ctx _

/-! ## Entries and times -/

/-- All entries and times have a property. -/
structure Within (entry : Bytes → Robj → Prop) (time : Int → Prop) (db : Db) : Prop where
  dict : ∀ key o, db.dict key = some o → entry key o
  expires : ∀ key t, db.expires key = some t → time t

end Db

/-- What a command stores has a property. -/
def DbOp.Stores (entry : Bytes → Robj → Prop) (time : Int → Prop) (ctx : DbContext) :
    DbOp → Prop
  | .set key value => entry key (tryObjectEncoding value)
  | .expireAt _ when => Db.Deletes ctx when ∨ time when
  | _ => True

theorem memoryInvariant_within (entry : Bytes → Robj → Prop) (time : Int → Prop) :
    MemoryInvariant (fun ctx op => op.Stores entry time ctx) fun _ db => db.Within entry time where
  mono _ h := h
  empty _ := ⟨fun _ _ h => absurd h.symm (Option.some_ne_none _),
    fun _ _ h => absurd h.symm (Option.some_ne_none _)⟩
  step {_ ctx op db} hop h := by
    have hstep := db.step_stored ctx op
    constructor
    · intro key o ho
      obtain hold | ⟨value, rfl, rfl⟩ := hstep.dict ho
      · exact h.dict key o hold
      · exact hop
    · intro key t ht
      obtain hold | ⟨rfl, hstored⟩ := hstep.expires ht
      · exact h.expires key t hold
      · exact hop.resolve_left hstored

/-- A command that does not store the time -1. -/
def DbOp.Timed (ctx : DbContext) (op : DbOp) : Prop :=
  op.Stores (fun _ _ => True) (· ≠ -1) ctx

/-- A master that is not loading never does, since -1 lies in the past. -/
theorem DbOp.timed_of_master {ctx : DbContext} (hloading : ctx.loading = false)
    (hmaster : ctx.masterhost = none) (op : DbOp) : op.Timed ctx := by
  cases op with
  | expireAt key when =>
      by_cases hwhen : when = -1
      · exact .inl ⟨by omega, by simp [hloading], hmaster⟩
      · exact .inr hwhen
  | set | get | del | expireDraw | resize | rehash => trivial

/-! ## The number of keys -/

/-- There are at most so many keys. -/
def Db.KeysLe (db : Db) (n : Nat) : Prop :=
  ∃ keys : Finset Bytes, keys.card ≤ n ∧ ∀ key, (db.dict key).isSome → key ∈ keys

theorem RedisDb.Valid.keysLe_iff {hash : Bytes → UInt32} {db : RedisDb} (hdb : db.Valid hash)
    (n : Nat) : db.toDb.KeysLe n ↔ dictSize db.dict ≤ n := by
  rw [hdb.dict.dictSize_eq_card]
  constructor
  · rintro ⟨keys, hcard, hkeys⟩
    refine (Finset.card_le_card fun key hkey => hkeys key ?_).trans hcard
    exact (RedisDb.mem_contents_iff db key).mp (Finmap.mem_keys.mp hkey)
  · intro hcard
    refine ⟨_, hcard, fun key hkey => ?_⟩
    exact Finmap.mem_keys.mpr ((RedisDb.mem_contents_iff db key).mpr hkey)

/-- The keys are at most those at the start and one for each change. -/
theorem memoryInvariant_keysLe (brings : DbContext → DbOp → Prop) (limit : Nat) :
    MemoryInvariant brings fun n db => db.KeysLe (limit + n) where
  mono {m n db} hmn h := by
    obtain ⟨keys, hcard, hkeys⟩ := h
    exact ⟨keys, by omega, hkeys⟩
  empty n := ⟨∅, Nat.zero_le _, fun _ h => by cases h⟩
  step {n ctx op db} _ h := by
    obtain ⟨keys, hcard, hkeys⟩ := h
    by_cases hset : ∃ key value, op = .set key value
    · obtain ⟨key, value, rfl⟩ := hset
      have hcount : dirtied (.set key value) (db.step ctx (.set key value)).1 = 1 := rfl
      refine ⟨insert key keys, (Finset.card_insert_le key keys).trans (by omega), fun k hk => ?_⟩
      obtain ⟨o, ho⟩ := Option.isSome_iff_exists.mp hk
      obtain hold | ⟨_, heq, -⟩ := (db.step_stored ctx _).dict ho
      · exact Finset.mem_insert_of_mem (hkeys k (Option.isSome_of_eq_some hold))
      · cases heq
        exact Finset.mem_insert_self key keys
    · refine ⟨keys, by omega, fun k hk => ?_⟩
      obtain ⟨o, ho⟩ := Option.isSome_iff_exists.mp hk
      obtain hold | ⟨value, heq, -⟩ := (db.step_stored ctx _).dict ho
      · exact hkeys k (Option.isSome_of_eq_some hold)
      · exact absurd ⟨k, value, heq⟩ hset

/-! ## Databases that can be dumped -/

theorem string2ll_bounds {s : Bytes} {value : Int} (h : string2ll s = some value) :
    -2 ^ 63 ≤ value ∧ value < 2 ^ 63 := by
  unfold string2ll llongMax at h
  split at h
  next => cases h
  next =>
    cases h
    decide
  all_goals
    -- the digits of a positive or of a negative number
    obtain ⟨-, h⟩ := Option.ite_none_right_eq_some.mp h
    split at h
    next =>
      obtain ⟨hbound, h⟩ := Option.ite_none_left_eq_some.mp h
      cases h
      omega
    next => cases h

theorem storable_tryObjectEncoding {s : Bytes} (hs : s.length < 2 ^ 31) :
    (tryObjectEncoding s).Storable := by
  unfold tryObjectEncoding
  split
  next =>
    split
    next value hvalue => exact string2ll_bounds hvalue
    next => exact hs
  next => exact hs

/-- An entry that a dump has room for. -/
def StorableEntry (key : Bytes) (o : Robj) : Prop := key.length < 2 ^ 31 ∧ o.Storable

/-- A command that stores texts of less than two gigabytes and times of 64 bits. -/
def DbOp.Storable : DbOp → Prop
  | .set key value => key.length < 2 ^ 31 ∧ value.length < 2 ^ 31
  | .expireAt _ when => when < 2 ^ 63
  | _ => True

instance : (op : DbOp) → Decidable op.Storable
  | .set key value => inferInstanceAs (Decidable (key.length < 2 ^ 31 ∧ value.length < 2 ^ 31))
  | .expireAt _ when => inferInstanceAs (Decidable (when < 2 ^ 63))
  | .get _ | .del _ | .expireDraw _ | .resize | .rehash _ => inferInstanceAs (Decidable True)

theorem DbOp.Storable.stores {op : DbOp} (h : op.Storable) (ctx : DbContext) :
    op.Stores StorableEntry (· < 2 ^ 63) ctx := by
  cases op with
  | set => exact ⟨h.1, storable_tryObjectEncoding h.2⟩
  | expireAt => exact .inr h
  | get | del | expireDraw | resize | rehash => trivial

namespace RedisDb

variable {hash : Bytes → UInt32} {db : RedisDb}

theorem Valid.lookup_of_mem (hdb : db.Valid hash) {e : DictEntry Bytes Robj}
    (he : e ∈ db.dict.entries) : db.toDb.dict e.1 = some e.2 :=
  (Dict.contents_lookup db.dict e.1).trans (List.mem_dlookup_iff hdb.dict.nodupKeys |>.mpr he)

theorem Valid.time_of_mem (hdb : db.Valid hash) {e : DictEntry Bytes Int}
    (he : e ∈ db.expires.entries) : db.toDb.expires e.1 = some e.2 :=
  (Dict.contents_lookup db.expires e.1).trans
    (List.mem_dlookup_iff hdb.expires.nodupKeys |>.mpr he)

theorem Valid.times_le (hdb : db.Valid hash) : dictSize db.expires ≤ dictSize db.dict := by
  rw [hdb.dict.dictSize_eq_card, hdb.expires.dictSize_eq_card]
  refine Finset.card_le_card fun key hkey => ?_
  exact Finmap.mem_keys.mpr (hdb.bound key (Finmap.mem_keys.mp hkey))

/-- What a dump asks of a database, in terms of its maps. -/
theorem Valid.storable_iff (hdb : db.Valid hash) :
    db.Storable ↔ db.toDb.Within StorableEntry (· < 2 ^ 63) ∧ dictSize db.dict < rdbLenErr := by
  constructor
  · intro h
    refine ⟨⟨fun key o ho => ?_, fun key t ht => h.lt_of_lookup key t ht⟩, h.keys⟩
    have hmem : (⟨key, o⟩ : DictEntry Bytes Robj) ∈ db.dict.entries :=
      List.of_mem_dlookup ((Dict.contents_lookup db.dict key).symm.trans ho)
    exact h.entries _ hmem
  · rintro ⟨hwithin, hsize⟩
    refine ⟨hsize, hdb.times_le.trans_lt hsize, fun e he => ?_, fun e he => ?_⟩
    · exact hwithin.dict e.1 e.2 (hdb.lookup_of_mem he)
    · exact hwithin.expires e.1 e.2 (hdb.time_of_mem he)

end RedisDb

end Blogd
