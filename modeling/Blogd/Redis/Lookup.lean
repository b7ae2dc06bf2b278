import Blogd.Redis.RoundTrip

/-! # Lookups

The blog reads the store through the protocol: it writes a lookup command into the client's own
query buffer and lets the server process it. On a client that is ready and a server that
executes what it is given, the lookup takes exactly that command and leaves the client ready.
-/

namespace Blogd

/-! ## A client between requests -/

/-- A client that the handler can serve: nothing is left in the query buffer, whose memory is
none or that of one growth, and the protocol reader is at its start. Nothing is said of what the
request buffer holds. -/
structure Client.Ready (c : Client) : Prop where
  querybuf_len : c.querybuf.len = 0
  querybuf_alloc : c.querybuf.alloc = 0 ∨ c.querybuf.alloc = 2 * protoIobufLen
  querybuf_type : c.querybuf.type ≠ .type5
  httpQuerybuf_type : c.httpQuerybuf.type ≠ .type5
  reqtype : c.reqtype = .none
  multibulklen : c.multibulklen = 0
  bulklen : c.bulklen = none
  argv : c.argv = []
  flags : c.flags = .clear
  freed : c.freed = false

theorem createClient_ready (unixtime : Nat) : (createClient unixtime).Ready where
  querybuf_len := rfl
  querybuf_alloc := .inl rfl
  querybuf_type := SdsType.noConfusion
  httpQuerybuf_type := SdsType.noConfusion
  reqtype := rfl
  multibulklen := rfl
  bulklen := rfl
  argv := rfl
  flags := rfl
  freed := rfl

/-- A server in which `processCommand` executes the lookup it is given. -/
structure Server.Serving (s : Server) : Prop where
  requirepass : s.requirepass = none
  clusterEnabled : s.clusterEnabled = false
  maxmemory : s.maxmemory = 0
  masterhost : s.masterhost = none
  loading : s.loading = false
  luaTimedout : s.luaTimedout = false
  notPaused : s.clientsArePaused = false
  noExpires : ∀ key, s.db.expires key = none

/-- The lookup command for a key. -/
def lookupArgv (key : Bytes) : List Bytes := [getNoReplyCommand, key]

/-- A client between commands. Unlike a client that is ready, it may have given the memory of its
query buffer back, which leaves a string of type 5. -/
structure Client.Idle (c : Client) : Prop where
  querybuf_len : c.querybuf.len = 0
  querybuf_alloc : c.querybuf.alloc = 0 ∨
    c.querybuf.alloc = 2 * protoIobufLen ∧ c.querybuf.type ≠ .type5
  reqtype : c.reqtype = .none
  multibulklen : c.multibulklen = 0
  bulklen : c.bulklen = none
  argv : c.argv = []
  flags : c.flags = .clear
  freed : c.freed = false

theorem Client.Ready.idle {c : Client} (hc : c.Ready) : c.Idle where
  querybuf_len := hc.querybuf_len
  querybuf_alloc := hc.querybuf_alloc.imp_right fun halloc => ⟨halloc, hc.querybuf_type⟩
  reqtype := hc.reqtype
  multibulklen := hc.multibulklen
  bulklen := hc.bulklen
  argv := hc.argv
  flags := hc.flags
  freed := hc.freed

/-- The room for a command is that of two reads, though only one is asked for. -/
theorem Client.Idle.room {c : Client} (hc : c.Idle) (junk : Nat → UInt8) :
    (c.querybuf.makeRoomFor junk protoIobufLen).len = 0 ∧
      (c.querybuf.makeRoomFor junk protoIobufLen).type ≠ .type5 ∧
      (c.querybuf.makeRoomFor junk protoIobufLen).alloc = 2 * protoIobufLen := by
  have hlen := hc.querybuf_len
  refine ⟨by rw [Sds.makeRoomFor_len, hlen], Sds.makeRoomFor_ne_type5 junk _ (by decide), ?_⟩
  rw [Sds.makeRoomFor_alloc, Sds.newlen, hlen]
  rcases hc.querybuf_alloc with halloc | ⟨halloc, htype⟩
  · have havail := c.querybuf.avail_le
    have hgrows : ¬ protoIobufLen ≤ c.querybuf.avail := by
      unfold protoIobufLen
      omega
    rw [if_neg hgrows]
    rfl
  · have havail : c.querybuf.avail = c.querybuf.alloc := by
      unfold Sds.avail
      split
      next h => exact absurd h htype
      next => rw [hlen, Nat.sub_zero]
    rw [havail, halloc, if_pos (Nat.le_mul_of_pos_left _ (by decide))]

/-- Only the result of the lookup changes. -/
theorem Client.takeLookup_eq (c : Client) (found : Option Robj) :
    ∃ err reply,
      c.takeLookup found = { c with commandLastError := err, commandLastReply := reply } := by
  rcases found with _ | o
  · exact ⟨_, _, rfl⟩
  · cases o <;> exact ⟨_, _, rfl⟩

@[simp] theorem Client.takeLookup_freed (c : Client) (found : Option Robj) :
    (c.takeLookup found).freed = c.freed := by
  obtain ⟨err, reply, htake⟩ := c.takeLookup_eq found
  rw [htake]

theorem Client.takeLookup_querybuf (c : Client) (found : Option Robj) :
    (c.takeLookup found).querybuf = c.querybuf := by
  obtain ⟨err, reply, htake⟩ := c.takeLookup_eq found
  rw [htake]

/-- The world after the lookup of a key. -/
def World.lookedUp (w : World) (key : Bytes) : World :=
  (lookupKeyRead w key).1.mapClient (·.takeLookup (lookupKeyRead w key).2)

/-- A lookup changes the lookup result of the client, and in the server the store at most. -/
theorem World.lookedUp_eq (w : World) (key : Bytes) :
    ∃ db found, w.lookedUp key =
      { w with server := { w.server with db := db }, client := w.client.takeLookup found } := by
  unfold World.lookedUp lookupKeyRead
  split
  next => exact ⟨_, _, rfl⟩
  next =>
    split
    next => exact ⟨_, _, rfl⟩
    next =>
      split
      next => exact ⟨_, _, rfl⟩
      next => split <;> exact ⟨_, _, rfl⟩

/-- The lookup command passes every check and is executed. -/
theorem processCommand_checked {w : World} (env : Env) (key : Bytes)
    (hpassword : w.server.requirepass = none) (hcluster : w.server.clusterEnabled = false)
    (hmemory : w.server.maxmemory = 0) (hmaster : w.server.masterhost = none)
    (hloading : w.server.loading = false) (hlua : w.server.luaTimedout = false)
    (hflags : w.client.flags = .clear) (hfreed : w.client.freed = false) :
    processCommand env (lookupArgv key) w =
      .ok true (((w.record (.command (lookupArgv key))).record
        (.exec (lookupArgv key))).lookedUp key) := by
  have hquit : caseEqual (cstr getNoReplyCommand) (ascii "quit") = false := by decide
  have hname : caseEqual getNoReplyCommand getNoReplyCommand = true := by decide
  have hargv : (lookupArgv key).headD [] = getNoReplyCommand := rfl
  have hkey : (lookupArgv key).getD 1 [] = key := rfl
  have hearly : refusal env (w.record (.command (lookupArgv key))) (lookupArgv key) = none := by
    simp [refusal, lookupArgv, hpassword, hcluster]
  have hlate : lateRefusal (w.record (.command (lookupArgv key))) = none := by
    simp [lateRefusal, hflags, ClientFlags.clear, hmaster, hloading, hlua]
  simp only [processCommand, bind_apply, modify_apply, get_apply, hargv, hquit, hname, hearly,
    hlate, executeLookup, hflags, ClientFlags.clear, getRedisNoReplyCommand, hkey, hmemory, hfreed,
    World.record_server, World.record_client, Bool.false_eq_true, Bool.not_true, if_false, ne_eq,
    not_true, pure_apply]
  rfl

theorem processCommand_lookup {w : World} (env : Env) (key : Bytes) (hserver : w.server.Serving)
    (hflags : w.client.flags = .clear) (hfreed : w.client.freed = false) :
    processCommand env (lookupArgv key) w =
      .ok true { w with
        client := w.client.takeLookup (w.server.db.dict key)
        log := w.log ++ [.command (lookupArgv key), .exec (lookupArgv key)] } := by
  rw [processCommand_checked env key hserver.requirepass hserver.clusterEnabled hserver.maxmemory
    hserver.masterhost hserver.loading hserver.luaTimedout hflags hfreed]
  simp [World.lookedUp, lookupKeyRead, hserver.noExpires, World.record, World.mapClient]

/-- What is left of a client after the lookup was processed: only the query buffer has moved. -/
theorem processInputLoop_empty {w : World} (env : Env) (junk : Nat → UInt8) (fuel : Nat)
    (hlen : w.client.querybuf.len = 0) : processInputLoop env junk fuel w = .ok ⟨⟩ w := by
  cases fuel with
  | zero => simp [processInputLoop, hlen]
  | succ fuel => simp [processInputLoop, hlen]

theorem nul_notMem_lookupText {key : Bytes} (hkey : 0 ∉ key) :
    0 ∉ commandText (lookupArgv key) := by
  have hname : (0 : UInt8) ∉ getNoReplyCommand := by decide
  apply nul_notMem_commandText
  simpa [lookupArgv] using ⟨hname, hkey⟩

theorem length_key_lt {key : Bytes}
    (hlen : (commandText (lookupArgv key)).length ≤ 2 * protoIobufLen) :
    ∀ arg ∈ lookupArgv key, arg.length < protoMbulkBigArg := by
  have hname : getNoReplyCommand.length = 17 := by decide
  have hkey : key.length < 2 * protoIobufLen := by
    simp [commandText, lookupArgv, bulkText, crlf] at hlen
    omega
  unfold protoIobufLen at hkey
  unfold protoMbulkBigArg
  simp only [lookupArgv, List.mem_cons, List.not_mem_nil, or_false]
  rintro arg (rfl | rfl) <;> omega

/-- The client once the command in its query buffer was executed. -/
def Client.afterLookup (c : Client) (key : Bytes) (found : Option Robj) : Client :=
  { c.takeLookup found with
    querybuf := c.querybuf.range (commandText (lookupArgv key)).length (-1) }

theorem commandText_ne_nil (argv : List Bytes) : commandText argv ≠ [] := by
  simp [commandText, crlf]

/-- The client while the command from its query buffer is executed. -/
def Client.decoded (c : Client) (key : Bytes) : Client :=
  { c with
    reqtype := .multibulk
    argv := lookupArgv key
    querybuf := c.querybuf.range (commandText (lookupArgv key)).length (-1) }

theorem resetClient_flags {c : Client} (hflags : c.flags = .clear) :
    (resetClient c).flags = .clear := by
  simp [resetClient, hflags, ClientFlags.clear]

theorem resetClient_decoded {c : Client} (key : Bytes) (found : Option Robj)
    (hreqtype : c.reqtype = .none) (hmulti : c.multibulklen = 0) (hbulk : c.bulklen = none)
    (hargv : c.argv = []) (hflags : c.flags = .clear) :
    resetClient ((c.decoded key).takeLookup found) = c.afterLookup key found := by
  rcases found with _ | o
  · simp [resetClient, Client.decoded, Client.takeLookup, Client.afterLookup, hreqtype, hmulti,
      hbulk, hargv, hflags, ClientFlags.clear]
  · cases o <;> simp [resetClient, Client.decoded, Client.takeLookup, Client.afterLookup,
      hreqtype, hmulti, hbulk, hargv, hflags, ClientFlags.clear]

theorem decodeCommand_lookup {w : World} (env : Env) (junk : Nat → UInt8) (key : Bytes)
    (hreqtype : w.client.reqtype = .none) (hmulti : w.client.multibulklen = 0)
    (hbulk : w.client.bulklen = none) (hargv : w.client.argv = [])
    (hcontent : w.client.querybuf.content = commandText (lookupArgv key))
    (hargs : ∀ arg ∈ lookupArgv key, arg.length < protoMbulkBigArg) :
    decodeCommand env junk (w.mapClient determineReqtype) =
      .ok true (w.mapClient (·.decoded key)) := by
  have hpos : 0 < w.client.querybuf.len := by
    rw [← Sds.length_content, hcontent]
    exact List.length_pos_iff.mpr (commandText_ne_nil _)
  have hstar : w.client.querybuf.mem[0]? = some 42 := by
    have htake : w.client.querybuf.content[0]? = some 42 := by
      rw [hcontent]
      rfl
    rw [← htake, Sds.content, List.getElem?_take_of_lt hpos]
  have htype : determineReqtype w.client = { w.client with reqtype := .multibulk } := by
    simp [determineReqtype, hreqtype, hstar]
  have hne : lookupArgv key ≠ [] := List.cons_ne_nil _ _
  have hcount : (lookupArgv key).length ≤ 1024 * 1024 := by simp [lookupArgv]
  have hdecode := processMultibulkBuffer_commandText
    (c := { w.client with reqtype := .multibulk }) junk hmulti hbulk hargv hne hcount hargs hcontent
  simp only [decodeCommand, bind_apply, get_apply, World.mapClient, htype, hdecode, lift_ok,
    set_apply, pure_apply]
  rfl

/-- The command in the query buffer is decoded and processed, and the reader is reset. -/
theorem processInputLoop_command {w v : World} (env : Env) (junk : Nat → UInt8) (fuel : Nat)
    (key : Bytes) (hpaused : w.server.clientsArePaused = false)
    (hreqtype : w.client.reqtype = .none) (hmulti : w.client.multibulklen = 0)
    (hbulk : w.client.bulklen = none) (hargv : w.client.argv = [])
    (hflags : w.client.flags = .clear)
    (hcontent : w.client.querybuf.content = commandText (lookupArgv key))
    (hargs : ∀ arg ∈ lookupArgv key, arg.length < protoMbulkBigArg)
    (hexec : processCommand env (lookupArgv key) (w.mapClient (·.decoded key)) = .ok true v)
    (hfreed : v.client.freed = false)
    (hquerybuf : v.client.querybuf = (w.client.decoded key).querybuf) :
    processInputLoop env junk (fuel + 1) w = .ok ⟨⟩ (v.mapClient resetClient) := by
  have hpos : w.client.querybuf.len ≠ 0 := by
    rw [← Sds.length_content, hcontent]
    exact fun h => commandText_ne_nil _ (List.length_eq_zero_iff.mp h)
  have hdecode := decodeCommand_lookup env junk key hreqtype hmulti hbulk hargv hcontent hargs
  have hargv' : (w.client.decoded key).argv = lookupArgv key := rfl
  have hne : ¬ lookupArgv key = [] := List.cons_ne_nil _ _
  have hfreed' : (resetClient v.client).freed = false := hfreed
  -- the command was all there was in the buffer, so the next round ends the loop
  have hlen : (resetClient v.client).querybuf.len = 0 := by
    change v.client.querybuf.len = 0
    rw [hquerybuf, Client.decoded, ← Sds.length_content, Sds.range_content, hcontent,
      List.drop_length, List.length_nil]
  simp only [processInputLoop, bind_apply, get_apply, hpos, if_false, hflags, ClientFlags.clear,
    hpaused, Bool.and_false, Bool.false_eq_true, set_apply, hdecode, if_true, hargv', hne, hexec,
    modify_apply, World.mapClient_client, hfreed']
  exact processInputLoop_empty env junk fuel hlen

/-! ## A lookup from the handler -/

/-- What `callRedisCommand` leaves in the log for a lookup: it starts and ends with an empty
query buffer, and decodes and executes exactly the command it was given. -/
def lookupEvents (key : Bytes) : List Event :=
  [.call (lookupArgv key) [], .command (lookupArgv key), .exec (lookupArgv key), .ret []]

/-- The client after a lookup. -/
def Client.looked (c : Client) (found : Option Robj) (querybuf : Sds) (time : Nat) : Client :=
  { c.takeLookup found with querybuf := querybuf, lastinteraction := time }

theorem Client.Ready.looked {c : Client} (hc : c.Ready) (found : Option Robj) {querybuf : Sds}
    (time : Nat) (hlen : querybuf.len = 0) (halloc : querybuf.alloc = 2 * protoIobufLen)
    (htype : querybuf.type ≠ .type5) : (c.looked found querybuf time).Ready := by
  obtain ⟨err, reply, htake⟩ := c.takeLookup_eq found
  rw [Client.looked, htake]
  exact ⟨hlen, .inr halloc, htype, hc.httpQuerybuf_type, hc.reqtype, hc.multibulklen, hc.bulklen,
    hc.argv, hc.flags, hc.freed⟩

/-- The world in which the command is processed that the handler put into the query buffer. -/
def World.calling (w : World) (key : Bytes) (filled : Sds) : World where
  server := w.server
  client := ({ w.client with
    querybuf := filled
    lastinteraction := w.server.unixtime } : Client).decoded key
  log := w.log ++ [.call (lookupArgv key) []]

/-- A lookup command from a client between commands reaches `processCommand`. -/
theorem callRedisCommand_processed {w : World} {key : Bytes} (env : Env) (junk : Nat → UInt8)
    (hclient : w.client.Idle) (hpaused : w.server.clientsArePaused = false) (hkey : 0 ∉ key)
    (hlen : (commandText (lookupArgv key)).length ≤ 2 * protoIobufLen) :
    ∃ filled : Sds, (w.calling key filled).client.querybuf.len = 0 ∧
      (w.calling key filled).client.querybuf.alloc = 2 * protoIobufLen ∧
      (w.calling key filled).client.querybuf.type ≠ .type5 ∧
      ∀ v, processCommand env (lookupArgv key) (w.calling key filled) = .ok true v →
        v.client.freed = false →
        v.client.querybuf = (w.calling key filled).client.querybuf →
        callRedisCommand env junk protoIobufLen 0 (lookupArgv key) w =
          .ok ⟨⟩ ((v.mapClient resetClient).record (.ret [])) := by
  obtain ⟨hroomLen, hroomType, hroomAlloc⟩ := hclient.room junk
  have hroom : (commandText (lookupArgv key)).length ≤
      (w.client.querybuf.makeRoomFor junk protoIobufLen).alloc := by rw [hroomAlloc]; exact hlen
  obtain ⟨written, filled, hwrite, hincr, hcontent, hftype, hfalloc⟩ :=
    Sds.write_incrLen hroomLen hroomType hroom
  have hcstr := cstr_eq_self (nul_notMem_lookupText hkey)
  have hflen : filled.len = (commandText (lookupArgv key)).length := by
    rw [← Sds.length_content, hcontent]
  have hempty : (filled.range (commandText (lookupArgv key)).length (-1)).len = 0 := by
    rw [← Sds.length_content, Sds.range_content, hcontent, List.drop_length, List.length_nil]
  refine ⟨filled, hempty, (Sds.range_alloc _ _ _).trans (hfalloc.trans hroomAlloc),
    fun htype => hroomType (hftype.symm.trans ((Sds.range_type _ _ _).symm.trans htype)), ?_⟩
  intro v hexec hfreed hquerybuf
  have hstart : w.client.querybuf.content = [] := Sds.content_eq_nil _ hclient.querybuf_len
  -- the fuel is the length of the command, and the command takes one round
  obtain ⟨fuel, hfuel⟩ : ∃ fuel, filled.len = fuel + 1 := by
    have := List.length_pos_iff.mpr (commandText_ne_nil (lookupArgv key))
    exact ⟨filled.len - 1, by omega⟩
  have hmax : ¬ fuel + 1 > clientMaxQuerybufLen := by
    unfold protoIobufLen at hlen
    unfold clientMaxQuerybufLen
    omega
  have hloop := processInputLoop_command
    (w := { w with
      client := { w.client with querybuf := filled, lastinteraction := w.server.unixtime }
      log := w.log ++ [.call (lookupArgv key) []] }) env junk fuel key hpaused
    hclient.reqtype hclient.multibulklen hclient.bulklen hclient.argv hclient.flags hcontent
    (length_key_lt hlen) hexec hfreed hquerybuf
  have hrest : (v.mapClient resetClient).client.querybuf.content = [] := by
    refine Sds.content_eq_nil _ ?_
    change v.client.querybuf.len = 0
    rw [hquerybuf]
    exact hempty
  simp only [callRedisCommand, bind_apply, modify_apply, World.record, hstart,
    redisFormatCommandArgv_eq, lift_ok, get_apply, hcstr, hwrite, hincr, set_apply, hmax,
    if_false, processInputBuffer, hfuel, hloop, hrest]

/-- A lookup on a client that is ready returns, leaves its result on the client and leaves the
client ready. -/
theorem callRedisCommand_lookup {w : World} {key : Bytes} (env : Env) (junk : Nat → UInt8)
    (hclient : w.client.Ready) (hserver : w.server.Serving) (hkey : 0 ∉ key)
    (hlen : (commandText (lookupArgv key)).length ≤ 2 * protoIobufLen) :
    ∃ querybuf,
      callRedisCommand env junk protoIobufLen 0 (lookupArgv key) w =
        .ok ⟨⟩ { w with
          client := w.client.looked (w.server.db.dict key) querybuf w.server.unixtime
          log := w.log ++ lookupEvents key } ∧
      (w.client.looked (w.server.db.dict key) querybuf w.server.unixtime).Ready := by
  obtain ⟨filled, hempty, halloc, htype, hcall⟩ :=
    callRedisCommand_processed env junk hclient.idle hserver.notPaused hkey hlen
  refine ⟨(w.calling key filled).client.querybuf, ?_, hclient.looked _ _ hempty halloc htype⟩
  have hexec := processCommand_lookup (w := w.calling key filled) env key hserver hclient.flags
    hclient.freed
  rw [hcall _ hexec (by rw [Client.takeLookup_freed]; exact hclient.freed)
    (Client.takeLookup_querybuf _ _)]
  have hreset := resetClient_decoded (c := { w.client with
      querybuf := filled
      lastinteraction := w.server.unixtime }) key (w.server.db.dict key) hclient.reqtype
    hclient.multibulklen hclient.bulklen hclient.argv hclient.flags
  have hlooked : Client.afterLookup { w.client with
        querybuf := filled
        lastinteraction := w.server.unixtime } key (w.server.db.dict key) =
      w.client.looked (w.server.db.dict key) (w.calling key filled).client.querybuf
        w.server.unixtime := by
    rcases w.server.db.dict key with _ | o
    · rfl
    · cases o <;> rfl
  simp only [World.record, World.mapClient, World.calling, hreset, hlooked, lookupEvents,
    List.append_assoc, List.cons_append, List.nil_append]

/-- A command that does not fit the memory of the query buffer is copied past its end. -/
theorem callRedisCommand_overflow {w : World} {key : Bytes} (env : Env) (junk : Nat → UInt8)
    (hclient : w.client.Ready) (hkey : 0 ∉ key)
    (hlen : ¬ (commandText (lookupArgv key)).length ≤ 2 * protoIobufLen) :
    callRedisCommand env junk protoIobufLen 0 (lookupArgv key) w =
      .error .overflow { w with log := w.log ++ [.call (lookupArgv key) []] } := by
  obtain ⟨_, _, hroomAlloc⟩ := hclient.idle.room junk
  have hmem := (w.client.querybuf.makeRoomFor junk protoIobufLen).mem_length
  have hcstr := cstr_eq_self (nul_notMem_lookupText hkey)
  have hstart : w.client.querybuf.content = [] := Sds.content_eq_nil _ hclient.querybuf_len
  have hwrite : (w.client.querybuf.makeRoomFor junk protoIobufLen).write 0
      (commandText (lookupArgv key) ++ [0]) = .error .overflow := by
    apply Sds.write_overflow
    rw [List.length_append, List.length_singleton]
    omega
  simp only [callRedisCommand, bind_apply, modify_apply, World.record, hstart,
    redisFormatCommandArgv_eq, lift_ok, get_apply, hcstr, hwrite, lift_error]

end Blogd
