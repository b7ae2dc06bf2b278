import Blogd.Redis.DictIterator
import Blogd.Redis.Keyspace
import Blogd.Redis.Lzf
import Blogd.Redis.Rio

/-! # Dumps of the keyspace

The functions of `rdb.c` that write the databases to a file and read them back. A function that
returns an error gives up here, and so do its callers. Strings are written as integers, compressed
or verbatim.
-/

namespace Blogd

open StreamM

def rdb6BitLen : UInt8 := 0
def rdb14BitLen : UInt8 := 1
def rdb32BitLen : UInt8 := 2
def rdbEncVal : UInt8 := 3
def rdbLenErr : Nat := 2 ^ 32 - 1

def rdbEncInt8 : UInt8 := 0
def rdbEncInt16 : UInt8 := 1
def rdbEncInt32 : UInt8 := 2
def rdbEncLzf : UInt8 := 3

def rdbTypeString : UInt8 := 0

def rdbOpcodeAux : UInt8 := 250
def rdbOpcodeResizeDb : UInt8 := 251
def rdbOpcodeExpireTimeMs : UInt8 := 252
def rdbOpcodeExpireTime : UInt8 := 253
def rdbOpcodeSelectDb : UInt8 := 254
def rdbOpcodeEof : UInt8 := 255

def rdbVersion : Nat := 7

/-- `ll2string` -/
def ll2string (value : Int) : Bytes :=
  if value < 0 then 45 :: decimal value.natAbs else decimal value.natAbs

/-- `strtoll` to base 10: the number, and what stands behind its digits. Without a digit nothing
is read. -/
def strtollEnd (s : Bytes) : Int × Bytes :=
  let start := s.dropWhile isspace
  let unsigned := if start.head? = some 45 ∨ start.head? = some 43 then start.tail else start
  let digits := unsigned.takeWhile isdigit
  let n : Int := digits.foldl (fun n c => n * 10 + (c.toNat - 48)) 0
  if digits = [] then (0, s)
  else if start.head? = some 45 then (max (-(2 ^ 63)) (-n), unsigned.dropWhile isdigit)
  else (min (2 ^ 63 - 1) n, unsigned.dropWhile isdigit)

/-! ## Saving -/

/-- What the functions that save read outside the databases: the settings of the server, the
clocks, the memory in use, and what is on the stack where the compressor has its table, at each
place in the file. The last two are for values that are no strings. -/
structure SaveContext where
  hash : Bytes → UInt32
  rdbCompression : Bool
  rdbChecksum : Bool
  mstime : Nat
  time : Int
  usedMemory : Int
  htab : Nat → Nat → UInt32
  otherType : UInt8
  otherObject : StreamM RioOut Int

/-- A length that is returned as an `int`. The callers take -1 for an error. -/
def intResult (n : Int) : StreamM RioOut Int :=
  if n.bmod (2 ^ 32) = -1 then giveUp else pure (n.bmod (2 ^ 32))

/-- `rdbWriteRaw` -/
def rdbWriteRaw (p : Bytes) : StreamM RioOut Int := do
  rioWrite p
  intResult p.length

/-- `rdbSaveType` -/
def rdbSaveType (type : UInt8) : StreamM RioOut Int := rdbWriteRaw [type]

/-- `rdbSaveMillisecondTime` -/
def rdbSaveMillisecondTime (t : Int) : StreamM RioOut Int := rdbWriteRaw (littleEndian 8 t)

/-- `rdbSaveLen`. The length is cut to 32 bits where the function is called. -/
def rdbSaveLen (size : Nat) : StreamM RioOut Int :=
  let len : Nat := size % 2 ^ 32
  if len < 2 ^ 6 then do
    let _ ← rdbWriteRaw [lowByte len ||| rdb6BitLen <<< 6]
    return 1
  else if len < 2 ^ 14 then do
    let _ ← rdbWriteRaw [lowByte (len >>> 8) ||| rdb14BitLen <<< 6, lowByte len]
    return 2
  else do
    let _ ← rdbWriteRaw [rdb32BitLen <<< 6]
    let _ ← rdbWriteRaw (littleEndian 4 len).reverse
    return 5

/-- `rdbEncodeInteger` -/
def rdbEncodeInteger (value : Int) : Option Bytes :=
  if -2 ^ 7 ≤ value ∧ value ≤ 2 ^ 7 - 1 then
    some ((rdbEncVal <<< 6 ||| rdbEncInt8) :: littleEndian 1 value)
  else if -2 ^ 15 ≤ value ∧ value ≤ 2 ^ 15 - 1 then
    some ((rdbEncVal <<< 6 ||| rdbEncInt16) :: littleEndian 2 value)
  else if -2 ^ 31 ≤ value ∧ value ≤ 2 ^ 31 - 1 then
    some ((rdbEncVal <<< 6 ||| rdbEncInt32) :: littleEndian 4 value)
  else none

/-- `rdbTryIntegerEncoding` -/
def rdbTryIntegerEncoding (s : Bytes) : Option Bytes :=
  let (value, endptr) := strtollEnd (cstr s)
  if endptr ≠ [] then none
  else if ll2string value ≠ s then none
  else rdbEncodeInteger value

/-- `rdbSaveLzfBlob` -/
def rdbSaveLzfBlob (data : Bytes) (originalLen : Nat) : StreamM RioOut Int := do
  let n₁ ← rdbWriteRaw [rdbEncVal <<< 6 ||| rdbEncLzf]
  let n₂ ← rdbSaveLen data.length
  let n₃ ← rdbSaveLen originalLen
  let n₄ ← rdbWriteRaw data
  return n₁ + n₂ + n₃ + n₄

/-- `rdbSaveLzfStringObject`. Nothing is written where the result is 0. -/
def rdbSaveLzfStringObject (ctx : SaveContext) (s : Bytes) : StreamM RioOut Int :=
  if s.length ≤ 4 then pure 0
  else do
    let rdb ← look
    let compressed ← aside (lzfCompress (ctx.htab rdb.written.length)
      (s.take (s.length % 2 ^ 32)) ((s.length - 4) % 2 ^ 32))
    match compressed with
    | none => return 0
    | some out => rdbSaveLzfBlob out s.length

/-- The end of `rdbSaveRawString`, which stores the text verbatim. -/
def rdbSaveVerbatim (s : Bytes) : StreamM RioOut Int := do
  let n ← rdbSaveLen s.length
  if 0 < s.length then do
    let _ ← rdbWriteRaw s
    return n + s.length
  else return n

/-- `rdbSaveRawString` behind the attempt to write an integer. -/
def rdbSaveText (ctx : SaveContext) (s : Bytes) : StreamM RioOut Int :=
  if ctx.rdbCompression ∧ 20 < s.length then do
    let n ← rdbSaveLzfStringObject ctx s
    if n = -1 then giveUp
    else if 0 < n then return n
    else rdbSaveVerbatim s
  else rdbSaveVerbatim s

/-- `rdbSaveRawString` -/
def rdbSaveRawString (ctx : SaveContext) (s : Bytes) : StreamM RioOut Int :=
  match if s.length ≤ 11 then rdbTryIntegerEncoding s else none with
  | some enc => rdbWriteRaw enc
  | none => rdbSaveText ctx s

/-- `rdbSaveLongLongAsStringObject` -/
def rdbSaveLongLongAsStringObject (value : Int) : StreamM RioOut Int :=
  match rdbEncodeInteger value with
  | some enc => rdbWriteRaw enc
  | none => do
      let n ← rdbSaveLen (ll2string value).length
      let m ← rdbWriteRaw (ll2string value)
      return n + m

/-- `rdbSaveStringObject` of the text or number of a string object. -/
def rdbSaveStringObject (ctx : SaveContext) (o : Bytes ⊕ Int) : StreamM RioOut Int := do
  let n ← o.elim (rdbSaveRawString ctx) rdbSaveLongLongAsStringObject
  intResult n

/-- `rdbSaveObjectType` -/
def rdbSaveObjectType (ctx : SaveContext) : Robj → StreamM RioOut Int
  | .other => rdbSaveType ctx.otherType
  | _ => rdbSaveType rdbTypeString

/-- `rdbSaveObject` -/
def rdbSaveObject (ctx : SaveContext) : Robj → StreamM RioOut Int
  | .string s => rdbSaveStringObject ctx (.inl s)
  | .int value => rdbSaveStringObject ctx (.inr value)
  | .other => ctx.otherObject

/-- The type, the key and the value of `rdbSaveKeyValuePair`. -/
def rdbSavePair (ctx : SaveContext) (key : Bytes) (val : Robj) : StreamM RioOut Bool := do
  let _ ← rdbSaveObjectType ctx val
  let _ ← rdbSaveStringObject ctx (.inl key)
  let _ ← rdbSaveObject ctx val
  return true

/-- `rdbSaveKeyValuePair`, false for a key that is skipped because its time has passed. -/
def rdbSaveKeyValuePair (ctx : SaveContext) (key : Bytes) (val : Robj) (expiretime : Int) :
    StreamM RioOut Bool :=
  if expiretime = -1 then rdbSavePair ctx key val
  else if expiretime < ctx.mstime then pure false
  else do
    let _ ← rdbSaveType rdbOpcodeExpireTimeMs
    let _ ← rdbSaveMillisecondTime expiretime
    rdbSavePair ctx key val

/-- `rdbSaveAuxField` -/
def rdbSaveAuxField (ctx : SaveContext) (key val : Bytes) : StreamM RioOut Unit := do
  let _ ← rdbSaveType rdbOpcodeAux
  let _ ← rdbSaveRawString ctx key
  let _ ← rdbSaveRawString ctx val

/-- The fields of `rdbSaveInfoAuxFields`. -/
def infoAuxFields (ctx : SaveContext) : List (Bytes × Bytes) :=
  [(ascii "redis-ver", ascii "3.2.5"), (ascii "redis-bits", ll2string 64),
    (ascii "ctime", ll2string ctx.time), (ascii "used-mem", ll2string ctx.usedMemory)]

/-- `rdbSaveInfoAuxFields` -/
def rdbSaveInfoAuxFields (ctx : SaveContext) : List (Bytes × Bytes) → StreamM RioOut Unit
  | [] => pure ()
  | (key, val) :: fields => do
      rdbSaveAuxField ctx key val
      rdbSaveInfoAuxFields ctx fields

/-- The loop of `rdbSaveRio` over the entries of a database. -/
def rdbSaveEntries (ctx : SaveContext) :
    Nat → RedisDb → DictIterator Bytes → StreamM RioOut (RedisDb × DictIterator Bytes)
  | 0, _, _ => fault .endless
  | fuel + 1, db, iter => do
      let (de, iter, dict) ← aside (dictNext db.dict iter)
      match de with
      | none => return ({ db with dict := dict }, iter)
      | some e => do
          let (expire, db) ← aside (RedisDb.getExpire ctx.hash { db with dict := dict } e.1)
          let _ ← rdbSaveKeyValuePair ctx e.1 e.2 expire
          rdbSaveEntries ctx fuel db iter

/-- `(dictSize(d) <= UINT32_MAX) ? dictSize(d) : UINT32_MAX` -/
def sizeHint {V : Type} (d : Dict Bytes V) : Nat := min (dictSize d) (2 ^ 32 - 1)

/-- What `rdbSaveRio` does with a database. -/
def rdbSaveDb (ctx : SaveContext) (j : Nat) (db : RedisDb) : StreamM RioOut RedisDb :=
  if dictSize db.dict = 0 then pure db
  else do
    let _ ← rdbSaveType rdbOpcodeSelectDb
    let _ ← rdbSaveLen j
    let _ ← rdbSaveType rdbOpcodeResizeDb
    let _ ← rdbSaveLen (sizeHint db.dict)
    let _ ← rdbSaveLen (sizeHint db.expires)
    let (db, iter) ← rdbSaveEntries ctx (dictSize db.dict + 1) db dictGetSafeIterator
    return { db with dict := dictReleaseIterator db.dict iter }

/-- The loop of `rdbSaveRio` over the databases. -/
def rdbSaveDbs (ctx : SaveContext) : Nat → List RedisDb → StreamM RioOut (List RedisDb)
  | _, [] => pure []
  | j, db :: dbs => do
      let db ← rdbSaveDb ctx j db
      let dbs ← rdbSaveDbs ctx (j + 1) dbs
      return db :: dbs

/-- The magic of `rdbSaveRio`. -/
def rdbMagic : Bytes := ascii "REDIS0007"

/-- `rdbSaveRio` up to the checksum. -/
def rdbSaveBody (ctx : SaveContext) (dbs : List RedisDb) : StreamM RioOut (List RedisDb) := do
  let _ ← rdbWriteRaw rdbMagic
  rdbSaveInfoAuxFields ctx (infoAuxFields ctx)
  let dbs ← rdbSaveDbs ctx 0 dbs
  let _ ← rdbSaveType rdbOpcodeEof
  return dbs

/-- `rdbSaveRio` with the function that updates the checksum in place. -/
def rdbSaveChecked (ctx : SaveContext) (dbs : List RedisDb) : StreamM RioOut (List RedisDb) := do
  let dbs ← rdbSaveBody ctx dbs
  let rdb ← look
  rioWrite (littleEndian 8 rdb.cksum.toNat)
  return dbs

/-- `rdbSaveRio` -/
def rdbSaveRio (ctx : SaveContext) (dbs : List RedisDb) : StreamM RioOut (List RedisDb) := fun r =>
  rdbSaveChecked ctx dbs (if ctx.rdbChecksum then { r with updateCksum := true } else r)

/-! ## Loading -/

/-- What the functions that load read outside the databases: the settings of the server and the
clock. The last one loads values that are no strings. -/
structure LoadContext extends DbContext where
  hash : Bytes → UInt32
  rdbChecksum : Bool
  loadingProcessEventsIntervalBytes : Nat
  loadOther : UInt8 → StreamM RioIn Robj

/-- `rdbLoadType` -/
def rdbLoadType : StreamM RioIn UInt8 := do
  let buf ← rioRead 1
  return buf.headD 0

/-- A signed integer in memory, lowest byte first. -/
def rioReadSigned (size : Nat) : StreamM RioIn Int := do
  let buf ← rioRead size
  return Int.bmod (number buf) (256 ^ size)

/-- `rdbLoadTime`. The caller takes -1 for an error. -/
def rdbLoadTime : StreamM RioIn Int := do
  let t ← rioReadSigned 4
  if t = -1 then giveUp else return t

/-- `rdbLoadMillisecondTime`. The caller takes -1 for an error. -/
def rdbLoadMillisecondTime : StreamM RioIn Int := do
  let t ← rioReadSigned 8
  if t = -1 then giveUp else return t

/-- `rdbLoadLen` behind its first byte. -/
def rdbLoadLenBehind (b : UInt8) : StreamM RioIn (Bool × Nat) :=
  let type := (b &&& 0xC0) >>> 6
  if type = rdbEncVal then pure (true, (b &&& 0x3F).toNat)
  else if type = rdb6BitLen then pure (false, (b &&& 0x3F).toNat)
  else if type = rdb14BitLen then do
    let low ← rioRead 1
    return (false, (b &&& 0x3F).toNat <<< 8 ||| number low)
  else do
    let len ← rioRead 4
    if number len.reverse = rdbLenErr then giveUp else return (false, number len.reverse)

/-- `rdbLoadLen`: whether it is an encoding, and the length or encoding. `RDB_LENERR` is an error
to every caller. -/
def rdbLoadLen : StreamM RioIn (Bool × Nat) := do
  let buf ← rioRead 1
  rdbLoadLenBehind (buf.headD 0)

/-- The number of `rdbLoadIntegerObject`. The program ends where the encoding is unknown. -/
def rdbLoadEncodedInteger (enctype : Nat) : StreamM RioIn Int :=
  if enctype = rdbEncInt8.toNat then rioReadSigned 1
  else if enctype = rdbEncInt16.toNat then rioReadSigned 2
  else if enctype = rdbEncInt32.toNat then rioReadSigned 4
  else giveUp

/-- `rdbLoadIntegerObject` -/
def rdbLoadIntegerObject (enctype : Nat) (encode : Bool) : StreamM RioIn Robj := do
  let val ← rdbLoadEncodedInteger enctype
  return if encode then .int val else .string (ll2string val)

/-- `rdbLoadLzfStringObject` behind the two lengths. The text is as long as the file says, zeros
behind what was decompressed. -/
def rdbLoadLzfData (clen len : Nat) : StreamM RioIn Robj := do
  let c ← rioRead clen
  let val ← aside (lzfDecompress c len)
  match val with
  | none => giveUp
  | some text => return .string (text ++ List.replicate (len - text.length) 0)

/-- `rdbLoadLzfStringObject` -/
def rdbLoadLzfStringObject : StreamM RioIn Robj := do
  let (_, clen) ← rdbLoadLen
  let (_, len) ← rdbLoadLen
  rdbLoadLzfData clen len

/-- `rdbGenericLoadStringObject`. The program ends where the encoding is unknown. -/
def rdbGenericLoadStringObject (encode : Bool) : StreamM RioIn Robj := do
  let (isencoded, len) ← rdbLoadLen
  if isencoded then
    if len = rdbEncLzf.toNat then rdbLoadLzfStringObject else rdbLoadIntegerObject len encode
  else do
    let text ← rioRead len
    return .string text

/-- The text that `o->ptr` points to. -/
def Robj.text : Robj → StreamM RioIn Bytes
  | .string s => pure s
  | _ => fault .wildPointer

/-- `rdbLoadStringObject`, which is used for its text. -/
def rdbLoadStringObject : StreamM RioIn Bytes := do
  let o ← rdbGenericLoadStringObject false
  o.text

/-- `tryObjectEncoding` of an object that may already be encoded. -/
def Robj.tryEncoding : Robj → Robj
  | .string s => tryObjectEncoding s
  | o => o

/-- `rdbLoadObject` -/
def rdbLoadObject (ctx : LoadContext) (type : UInt8) : StreamM RioIn Robj :=
  if type = rdbTypeString then do
    let o ← rdbGenericLoadStringObject true
    return o.tryEncoding
  else ctx.loadOther type

/-- What a round of `rdbLoad` reads, unless it is the last one. -/
inductive RdbItem
  | selectDb (dbid : Nat)
  | resizeDb (dbSize expiresSize : Nat)
  | aux (key val : Bytes)
  | entry (key : Bytes) (val : Robj) (expiretime : Int)

/-- The key and the value behind a type. -/
def rdbLoadPair (ctx : LoadContext) (type : UInt8) (expiretime : Int) :
    StreamM RioIn (Option RdbItem) := do
  let key ← rdbLoadStringObject
  let val ← rdbLoadObject ctx type
  return some (.entry key val expiretime)

/-- What a round of `rdbLoad` reads behind its first byte. -/
def rdbLoadItemBehind (ctx : LoadContext) (type : UInt8) : StreamM RioIn (Option RdbItem) :=
  if type = rdbOpcodeExpireTime then do
    let expiretime ← rdbLoadTime
    let type ← rdbLoadType
    rdbLoadPair ctx type (expiretime * 1000)
  else if type = rdbOpcodeExpireTimeMs then do
    let expiretime ← rdbLoadMillisecondTime
    let type ← rdbLoadType
    rdbLoadPair ctx type expiretime
  else if type = rdbOpcodeEof then pure none
  else if type = rdbOpcodeSelectDb then do
    let (_, dbid) ← rdbLoadLen
    return some (.selectDb dbid)
  else if type = rdbOpcodeResizeDb then do
    let (_, dbSize) ← rdbLoadLen
    let (_, expiresSize) ← rdbLoadLen
    return some (.resizeDb dbSize expiresSize)
  else if type = rdbOpcodeAux then do
    let auxkey ← rdbLoadStringObject
    let auxval ← rdbLoadStringObject
    return some (.aux auxkey auxval)
  else rdbLoadPair ctx type (-1)

/-- What a round of `rdbLoad` reads before it acts on it. -/
def rdbLoadItem (ctx : LoadContext) : StreamM RioIn (Option RdbItem) := do
  let type ← rdbLoadType
  rdbLoadItemBehind ctx type

/-- The databases, and the one that `db` points to. -/
structure LoadState where
  dbs : List RedisDb
  db : Nat

/-- What a round does to the database that is selected. -/
def LoadState.update (st : LoadState) (f : RedisDb → Except Fault RedisDb) :
    Except Fault (Option LoadState) :=
  match st.dbs[st.db]? with
  | none => .error .outOfBounds
  | some db => do
      let db ← f db
      return some { st with dbs := st.dbs.set st.db db }

/-- The tables are made as large as the sizes that were written. -/
def rdbResizeDb (ctx : LoadContext) (dbSize expiresSize : Nat) (db : RedisDb) :
    Except Fault RedisDb := do
  let (_, dict) ← dictExpand ctx.room db.dict dbSize
  let (_, expires) ← dictExpand ctx.room db.expires expiresSize
  return ⟨dict, expires⟩

/-- A key is added, unless its time has passed and the server is no slave. -/
def rdbAddEntry (ctx : LoadContext) (key : Bytes) (val : Robj) (expiretime : Int) (db : RedisDb) :
    Except Fault RedisDb :=
  if ctx.masterhost = none ∧ expiretime ≠ -1 ∧ expiretime < ctx.mstime then .ok db
  else do
    let db ← RedisDb.dbAdd ctx.hash ctx.toDbContext db key val
    if expiretime ≠ -1 then RedisDb.setExpire ctx.hash ctx.toDbContext db key expiretime
    else return db

/-- What a round does. The program ends where there is no such database. -/
def rdbLoadApply (ctx : LoadContext) (st : LoadState) : RdbItem → Except Fault (Option LoadState)
  | .selectDb dbid => .ok (if st.dbs.length ≤ dbid then none else some { st with db := dbid })
  | .resizeDb dbSize expiresSize => st.update (rdbResizeDb ctx dbSize expiresSize)
  | .aux _ _ => .ok (some st)
  | .entry key val expiretime => st.update (rdbAddEntry ctx key val expiretime)

/-- The loop of `rdbLoad`. -/
def rdbLoadLoop (ctx : LoadContext) : Nat → LoadState → StreamM RioIn LoadState
  | 0, _ => fault .endless
  | fuel + 1, st => do
      match ← rdbLoadItem ctx with
      | none => return st
      | some item => do
          match ← aside (rdbLoadApply ctx st item) with
          | none => giveUp
          | some st => rdbLoadLoop ctx fuel st

/-- The end of `rdbLoad`, which compares the checksums. A checksum of 0 was not computed. -/
def rdbVerifyChecksum : StreamM RioIn Unit := do
  let rdb ← look
  let buf ← rioRead 8
  if number buf = 0 then return ()
  else if number buf ≠ rdb.cksum.toNat then giveUp
  else return ()

/-- `rdbLoad` behind the magic. -/
def rdbLoadBody (ctx : LoadContext) (dbs : List RedisDb) (rdbver : Int) :
    StreamM RioIn (List RedisDb) := do
  let rdb ← look
  let st ← rdbLoadLoop ctx (rdb.unread.length + 1) ⟨dbs, 0⟩
  if 5 ≤ rdbver ∧ ctx.rdbChecksum then do
    rdbVerifyChecksum
    return st.dbs
  else return st.dbs

/-- `rdbLoad` on an open file. The result is `none` for a file that is no dump or is of another
version. -/
def rdbLoadRio (ctx : LoadContext) (dbs : List RedisDb) :
    StreamM RioIn (Option (List RedisDb)) := do
  let buf ← rioRead 9
  let rdbver := (strtollEnd (cstr (buf.drop 5))).1
  if buf.take 5 ≠ ascii "REDIS" then return none
  else if rdbver < 1 ∨ rdbVersion < rdbver then return none
  else do
    let dbs ← rdbLoadBody ctx dbs rdbver
    return some dbs

/-- How `rdbLoad` ends. A file that breaks off or is damaged ends the program. -/
inductive LoadOutcome
  | loaded (dbs : List RedisDb)
  | refused
  | corrupt

/-- The `rio` of `rdbLoad`. -/
def LoadContext.openFile (ctx : LoadContext) (file : Bytes) : RioIn :=
  { RioIn.initWithFile file with
    updateCksum := ctx.rdbChecksum
    maxProcessingChunk := ctx.loadingProcessEventsIntervalBytes }

/-- `rdbLoad` -/
def rdbLoad (ctx : LoadContext) (dbs : List RedisDb) (file : Bytes) : Except Fault LoadOutcome := do
  match ← rdbLoadRio ctx dbs (ctx.openFile file) with
  | none => return .corrupt
  | some (none, _) => return .refused
  | some (some dbs, _) => return .loaded dbs

end Blogd
