import Blogd.Redis.Multibulk

/-! # Commands

A command that was decoded from the query buffer is checked against the state of the server and
executed. The blog looks its keys up with one command of its own, which leaves its result on
the client and queues no reply.
-/

namespace Blogd

def tolower (c : UInt8) : UInt8 := if 65 ≤ c ∧ c ≤ 90 then c + 32 else c

/-- `strcasecmp(a, b) == 0` -/
def caseEqual (a b : Bytes) : Bool := a.map tolower = b.map tolower

def getNoReplyCommand : Bytes := ascii "getNoReplyCommand"

/-! ## Looking a key up -/

/-- `lookupKeyRead`. A key whose time has come is deleted on a master, and only hidden from
clients on a replica. A negative time is taken for none. -/
def lookupKeyRead (w : World) (key : Bytes) : World × Option Robj :=
  match w.server.db.expires key with
  | none => (w, w.server.db.dict key)
  | some deadline =>
      if deadline < 0 ∨ w.server.loading ∨ w.server.mstime ≤ deadline then
        (w, w.server.db.dict key)
      else if w.server.masterhost = none then
        ({ w with server := { w.server with db := w.server.db.dbDelete key } }, none)
      else if w.client.flags.master then (w, w.server.db.dict key)
      else (w, none)

def notFound : Bytes := ascii "Not found"

def wrongtypeerr : Bytes :=
  ascii "-WRONGTYPE Operation against a key holding the wrong kind of value\r\n"

/-- What `getRedisNoReplyCommand` leaves on the client. -/
def Client.takeLookup (c : Client) : Option Robj → Client
  | none => { c with commandLastReply := .null, commandLastError := some notFound }
  | some .other => { c with commandLastReply := .null, commandLastError := some wrongtypeerr }
  | some o => { c with commandLastError := none, commandLastReply := o.ptr }

/-- `getRedisNoReplyCommand` -/
def getRedisNoReplyCommand (key : Bytes) : Handler PUnit :=
  modify fun w => (lookupKeyRead w key).1.mapClient fun c => c.takeLookup (lookupKeyRead w key).2

/-! ## Processing a command -/

def addReply (s : Bytes) : Handler PUnit := modify fun w => w.mapClient (·.addReplyString s)

/-- `flagTransaction` -/
def flagTransaction : Handler PUnit :=
  modify fun w => w.mapClient fun c =>
    { c with flags := { c.flags with dirtyExec := c.flags.multi || c.flags.dirtyExec } }

def noautherr : Bytes := ascii "-NOAUTH Authentication required.\r\n"

def masterdownerr : Bytes :=
  ascii "-MASTERDOWN Link with MASTER is down and slave-serve-stale-data is set to 'no'.\r\n"

def loadingerr : Bytes := ascii "-LOADING Redis is loading the dataset in memory\r\n"

def slowscripterr : Bytes :=
  ascii ("-BUSY Redis is busy running a script. " ++
    "You can only call SCRIPT KILL or SHUTDOWN NOSAVE.\r\n")

/-- The checks that `processCommand` makes of the lookup command before it executes it. A
refused command is answered with the text of an error. -/
def refusal (env : Env) (w : World) (argv : List Bytes) : Option Bytes :=
  if argv.length ≠ 2 then
    some (ascii "-ERR wrong number of arguments for 'getNoReplyCommand' command\r\n")
  else if w.server.requirepass.isSome ∧ ¬ w.client.authenticated then some noautherr
  else if w.server.clusterEnabled ∧ ¬ w.client.flags.master then env.clusterRedirect w argv
  else none

/-- The checks that come after memory was freed. The lookup is a read-only command that may be
used neither with stale data nor while loading. -/
def lateRefusal (w : World) : Option (Bool × Bytes) :=
  if w.client.flags.pubsub then
    some (false, ascii ("-ERR only (P)SUBSCRIBE / (P)UNSUBSCRIBE / PING / QUIT " ++
      "allowed in this context\r\n"))
  else if w.server.masterhost.isSome ∧ ¬ w.server.replConnected ∧
      ¬ w.server.replServeStaleData then some (true, masterdownerr)
  else if w.server.loading then some (false, loadingerr)
  else if w.server.luaTimedout then some (true, slowscripterr)
  else none

/-- The lookup command once it has passed the checks: queued in a transaction, else executed. -/
def executeLookup (argv : List Bytes) : Handler PUnit := do
  if (← get).client.flags.multi then
    modify fun w => w.mapClient fun c => { c with mstate := c.mstate ++ [argv] }
    addReply (ascii "+QUEUED\r\n")
  else
    modify fun w => w.record (.exec argv)
    getRedisNoReplyCommand (argv.getD 1 [])

/-- `processCommand`, true for `C_OK`. -/
def processCommand (env : Env) (argv : List Bytes) : Handler Bool := do
  modify fun w => w.record (.command argv)
  if caseEqual (cstr (argv.headD [])) (ascii "quit") then
    addReply (ascii "+OK\r\n")
    modify fun w => w.mapClient fun c =>
      { c with flags := { c.flags with closeAfterReply := true } }
    return false
  else if !caseEqual (argv.headD []) getNoReplyCommand then
    env.otherCommand argv
  else
    match refusal env (← get) argv with
    | some err =>
        flagTransaction
        addReply err
        return true
    | none =>
        if (← get).server.maxmemory ≠ 0 then env.freeMemoryIfNeeded
        -- freeing memory may have freed the client that waits for the command
        if (← get).client.freed then return false
        match lateRefusal (← get) with
        | some (flags, err) =>
            if flags then flagTransaction
            addReply err
            return true
        | none =>
            executeLookup argv
            return true

/-! ## The query buffer -/

/-- `resetClient` -/
def resetClient (c : Client) : Client :=
  { c with
    argv := []
    reqtype := .none
    multibulklen := 0
    bulklen := none
    flags := { c.flags with
      asking := c.flags.asking && c.flags.multi
      replySkip := c.flags.replySkipNext
      replySkipNext := false } }

/-- `querybuf[0] == '*' ? PROTO_REQ_MULTIBULK : PROTO_REQ_INLINE` when the type is not known. -/
def determineReqtype (c : Client) : Client :=
  if c.reqtype = .none then
    { c with reqtype := if c.querybuf.mem[0]? = some 42 then .multibulk else .inline }
  else c

/-- Decoding one command from the query buffer. -/
def decodeCommand (env : Env) (junk : Nat → UInt8) : Handler Bool := do
  let w ← get
  match w.client.reqtype with
  | .multibulk => do
      let (c, ok) ← lift (processMultibulkBuffer junk w.client)
      set { w with client := c }
      return ok
  | _ => env.processInlineBuffer

/-- The loop of `processInputBuffer`. Every round that goes on has taken bytes off the buffer. -/
def processInputLoop (env : Env) (junk : Nat → UInt8) : Nat → Handler PUnit
  | 0 => do if (← get).client.querybuf.len ≠ 0 then throw .endless
  | fuel + 1 => do
      let w ← get
      if w.client.querybuf.len = 0 then return
      if !w.client.flags.slave && w.server.clientsArePaused then return
      if w.client.flags.blocked then return
      if w.client.flags.closeAfterReply then return
      set (w.mapClient determineReqtype)
      if ← decodeCommand env junk then
        let argv := (← get).client.argv
        -- a count of zero or less gives a command without arguments
        if argv = [] then
          modify fun w => w.mapClient resetClient
          processInputLoop env junk fuel
        else
          if ← processCommand env argv then modify fun w => w.mapClient resetClient
          if (← get).client.freed then return
          processInputLoop env junk fuel

/-- `processInputBuffer` -/
def processInputBuffer (env : Env) (junk : Nat → UInt8) : Handler PUnit := do
  processInputLoop env junk (← get).client.querybuf.len

/-- `callRedisCommand`. The command is copied to the given offset of the query buffer, and the
room made for it is that of one read. A client whose buffer is too long is freed, and every
caller goes on to use it. -/
def callRedisCommand (env : Env) (junk : Nat → UInt8) (readlen qblen : Nat)
    (argvs : List Bytes) : Handler PUnit := do
  modify fun w => w.record (.call argvs w.client.querybuf.content)
  let cmd ← lift (redisFormatCommandArgv argvs)
  let w ← get
  let querybuf ← lift ((w.client.querybuf.makeRoomFor junk readlen).write qblen (cstr cmd ++ [0]))
  let querybuf ← lift (querybuf.incrLen cmd.length)
  set { w with
    client := { w.client with querybuf := querybuf, lastinteraction := w.server.unixtime } }
  if querybuf.len > clientMaxQuerybufLen then
    modify fun w => w.mapClient fun c => { c with freed := true }
    throw .freed
  processInputBuffer env junk
  modify fun w => w.record (.ret w.client.querybuf.content)

end Blogd
