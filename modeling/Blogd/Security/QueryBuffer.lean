import Blogd.Http.Delivery
import Blogd.Security.RefusedLookups

/-! # The room of the query buffer

A lookup asks for the room of one read, and its command may be longer than that. Between requests
a timer takes memory back from the buffer. Over whole runs the buffer is empty and has either no
memory or that of two reads, so every command fits.
-/

namespace Blogd

/-! ## Giving memory back -/

def sdsHdrSize : SdsType → Nat
  | .type5 => 1
  | .type8 => 3
  | .type16 => 5
  | .type32 => 9
  | .type64 => 17

/-- `sdsAllocSize` -/
def Sds.allocSize (s : Sds) : Nat :=
  sdsHdrSize s.type + (match s.type with
    | .type5 => s.len
    | _ => s.alloc) + 1

/-- `sdsRemoveFreeSpace` -/
def Sds.removeFreeSpace (s : Sds) : Sds :=
  ⟨sdsReqType s.len, s.len, s.mem.take (s.len + 1), by
    have := s.len_lt
    rw [List.length_take]
    omega⟩

/-- `clientsCronResizeQueryBuffer` -/
def clientsCronResizeQueryBuffer (server : Server) (c : Client) : Client :=
  let querybufSize := c.querybuf.allocSize
  let idletime : Int := server.unixtime - c.lastinteraction
  -- much larger than the last peak, or idle for more than two seconds
  let resizes := querybufSize > protoMbulkBigArg ∧ querybufSize / (c.querybufPeak + 1) > 2 ∨
    querybufSize > 1024 ∧ idletime > 2
  { c with
    querybuf := if resizes ∧ c.querybuf.avail > 1024 then c.querybuf.removeFreeSpace
      else c.querybuf
    querybufPeak := 0 }

theorem Sds.removeFreeSpace_alloc (s : Sds) : s.removeFreeSpace.alloc = s.len := by
  have := s.len_lt
  simp only [Sds.alloc, Sds.removeFreeSpace, List.length_take]
  omega

theorem Client.Idle.cron {c : Client} (hc : c.Idle) (server : Server) :
    (clientsCronResizeQueryBuffer server c).Idle := by
  have hquerybuf : (clientsCronResizeQueryBuffer server c).querybuf = c.querybuf.removeFreeSpace ∨
      (clientsCronResizeQueryBuffer server c).querybuf = c.querybuf := by
    unfold clientsCronResizeQueryBuffer
    dsimp only
    split
    next => exact .inl rfl
    next => exact .inr rfl
  -- a buffer without content that gives its free space back has no room left
  refine ⟨?_, ?_, hc.reqtype, hc.multibulklen, hc.bulklen, hc.argv, hc.flags, hc.freed⟩
  · rcases hquerybuf with hshrunk | hsame
    · rw [hshrunk]
      exact hc.querybuf_len
    · rw [hsame]
      exact hc.querybuf_len
  · rcases hquerybuf with hshrunk | hsame
    · rw [hshrunk, Sds.removeFreeSpace_alloc]
      exact .inl hc.querybuf_len
    · rw [hsame]
      exact hc.querybuf_alloc

/-! ## Runs of a client -/

/-- A server that executes lookups whatever its store holds. -/
structure Server.Executes (env : Env) (s : Server) : Prop where
  notPaused : s.clientsArePaused = false
  executes : ∀ db c log key, c.flags = .clear → c.freed = false →
    ∃ db' found log', processCommand env (lookupArgv key) ⟨{ s with db := db }, c, log⟩ =
      .ok true ⟨{ s with db := db' }, c.takeLookup found, log'⟩

theorem Server.Serving.executes {s : Server} (hs : s.Serving) (env : Env) : s.Executes env where
  notPaused := hs.notPaused
  executes db c log key hflags hfreed := by
    have hrun := @processCommand_checked ⟨{ s with db := db }, c, log⟩ env key hs.requirepass
      hs.clusterEnabled hs.maxmemory hs.masterhost hs.loading hs.luaTimedout hflags hfreed
    obtain ⟨db', found, hlooked⟩ := World.lookedUp_eq (World.record (World.record
      ⟨{ s with db := db }, c, log⟩ (.command (lookupArgv key))) (.exec (lookupArgv key))) key
    rw [hlooked] at hrun
    exact ⟨db', found, _, hrun⟩

/-- A key that the handler looks up for a path. -/
def LooksUp (ext : External) (path key : Bytes) : Prop :=
  key = errorKey ∨ ∃ callback found,
    findRoute ext path httpRoutes = .ok (some (callback, found)) ∧ callback.key? found = some key

/-- What happens to a client: a request for a path, with the keys it looks up, or the timer. -/
inductive ClientStep
  | request (path : Bytes) (keys : List Bytes) (junk : Nat → UInt8)
  | cron

/-- A request looks up one key or two for a path of at most a buffer. -/
def ClientStep.Plain (ext : External) : ClientStep → Prop
  | .request path keys _ =>
      path.length ≤ protoIobufLen ∧ 0 ∉ path ∧ keys.length ∈ [1, 2] ∧
        ∀ key ∈ keys, LooksUp ext path key
  | .cron => True

/-- The offset and the length of a command that is copied, and the memory it is copied to. -/
structure Copy where
  qblen : Nat
  nread : Nat
  alloc : Nat

/-- The command and its terminator fit. -/
def Copy.Fits (copy : Copy) : Prop := copy.qblen + copy.nread + 1 ≤ copy.alloc + 1

section Run

variable (env : Env)

/-- The lookups of a request. -/
def copyCommands (junk : Nat → UInt8) (readlen qblen : Nat) : List Bytes → Handler (List Copy)
  | [] => pure []
  | key :: keys => do
      let querybuf := (← get).client.querybuf.makeRoomFor junk readlen
      callRedisCommand env junk readlen qblen (lookupArgv key)
      let copies ← copyCommands junk readlen qblen keys
      return ⟨qblen, (commandText (lookupArgv key)).length, querybuf.alloc⟩ :: copies

/-- One step of a client. A request starts like the handler. -/
def ClientStep.run : ClientStep → Handler (List Copy)
  | .request _ keys junk => do
      let c := (← get).client
      modify fun w => w.mapClient fun c =>
        { c with querybufPeak := max c.querybufPeak c.querybuf.len }
      copyCommands env junk (readLength c) c.querybuf.len keys
  | .cron => do
      modify fun w => w.mapClient (clientsCronResizeQueryBuffer w.server)
      return []

/-- A run, with the server as it is at each step. -/
def runSteps : List (Server × ClientStep) → Handler (List Copy)
  | [] => pure []
  | (server, step) :: steps => do
      modify fun w => { w with server := server }
      let copies ← step.run env
      return copies ++ (← runSteps steps)

end Run

/-! ## Every command fits -/

theorem readLength_of_idle {c : Client} (hc : c.Idle) : readLength c = protoIobufLen := by
  rw [readLength, hc.bulklen]

theorem Server.Executes.withDb {env : Env} {s : Server} (hs : s.Executes env) (db : Db) :
    ({ s with db := db } : Server).Executes env :=
  ⟨hs.notPaused, hs.executes⟩

/-- The keys of a path of at most a buffer fit. -/
theorem LooksUp.fits {ext : External} {path key : Bytes} (hlooks : LooksUp ext path key)
    (hlength : path.length ≤ protoIobufLen) (hnul : 0 ∉ path) : 0 ∉ key ∧ keyFits key = true := by
  rcases hlooks with rfl | ⟨callback, found, hroute, hkey⟩
  · exact ⟨by decide, errorKey_fits⟩
  -- a page or a post is looked up under a prefix of 13 bytes at most and a part of the path
  · have hpart : ∀ pre : Bytes, 0 ∉ pre → pre.length ≤ 13 → found[0]?.map (pre ++ ·) = some key →
        0 ∉ key ∧ keyFits key = true := by
      intro pre hpre hshort hmap
      obtain ⟨part, hfirst, rfl⟩ := Option.map_eq_some_iff.mp hmap
      have hmem := List.mem_of_getElem? hfirst
      refine ⟨?_, keyFits_of_length hshort
        (Nat.le_trans (findRoute_length httpRoutes hroute part hmem) hlength)⟩
      rw [List.mem_append, not_or]
      exact ⟨hpre, nul_notMem_findRoute hnul httpRoutes hroute part hmem⟩
    cases callback with
    | index =>
        cases hkey
        exact ⟨by decide, by decide⟩
    | page => exact hpart pageKeyPrefix (by decide) (by decide) hkey
    | content => exact hpart postKeyPrefix (by decide) (by decide) hkey
    | file => cases hkey

section Fits

variable {env : Env} {w : World}

/-- A lookup leaves the client between commands. -/
theorem callRedisCommand_idle (junk : Nat → UInt8) (hclient : w.client.Idle)
    (hserver : w.server.Executes env) {key : Bytes} (hkey : 0 ∉ key) (hfits : keyFits key = true) :
    ∃ w', callRedisCommand env junk protoIobufLen 0 (lookupArgv key) w = .ok ⟨⟩ w' ∧
      w'.client.Idle ∧ w'.server.Executes env := by
  obtain ⟨filled, hempty, halloc, htype, hcall⟩ := callRedisCommand_processed env junk hclient
    hserver.notPaused hkey (by simpa [keyFits] using hfits)
  -- a lookup may delete an expired key, so the store after it is another one
  obtain ⟨db, found, log, hexec⟩ := hserver.executes w.server.db (w.calling key filled).client
    (w.calling key filled).log key hclient.flags hclient.freed
  obtain ⟨err, reply, htake⟩ := (w.calling key filled).client.takeLookup_eq found
  have hfreed : ((w.calling key filled).client.takeLookup found).freed = false := by
    rw [Client.takeLookup_freed]
    exact hclient.freed
  refine ⟨_, hcall _ hexec hfreed (Client.takeLookup_querybuf _ _), ?_, hserver.withDb db⟩
  simp only [World.record, World.mapClient, htake]
  exact ⟨hempty, .inr ⟨halloc, htype⟩, rfl, rfl, rfl, rfl, resetClient_flags hclient.flags,
    hclient.freed⟩

theorem copyCommands_fit (junk : Nat → UInt8) {keys : List Bytes}
    (hkeys : ∀ key ∈ keys, 0 ∉ key ∧ keyFits key = true) (hclient : w.client.Idle)
    (hserver : w.server.Executes env) :
    ∃ copies w', copyCommands env junk protoIobufLen 0 keys w = .ok copies w' ∧
      w'.client.Idle ∧ ∀ copy ∈ copies, copy.Fits := by
  induction keys generalizing w with
  | nil => exact ⟨[], w, rfl, hclient, fun _ hcopy => absurd hcopy List.not_mem_nil⟩
  | cons key keys ih =>
      obtain ⟨hnul, hfits⟩ := hkeys key List.mem_cons_self
      obtain ⟨w₁, hcall, hidle, hexecutes⟩ :=
        callRedisCommand_idle junk hclient hserver hnul hfits
      obtain ⟨copies, w₂, hrest, hidle₂, hroom⟩ :=
        ih (fun key hkey => hkeys key (List.mem_cons_of_mem _ hkey)) hidle hexecutes
      have hrun : copyCommands env junk protoIobufLen 0 (key :: keys) w =
          .ok (⟨0, (commandText (lookupArgv key)).length,
            (w.client.querybuf.makeRoomFor junk protoIobufLen).alloc⟩ :: copies) w₂ := by
        simp only [copyCommands, bind_apply, get_apply, hcall, hrest, pure_apply]
      refine ⟨_, w₂, hrun, hidle₂, ?_⟩
      intro copy hcopy
      rcases List.mem_cons.mp hcopy with rfl | hcopy
      · have hlength : (commandText (lookupArgv key)).length ≤ 2 * protoIobufLen := by
          simpa [keyFits] using hfits
        rw [Copy.Fits, (hclient.room junk).2.2, Nat.zero_add]
        exact Nat.succ_le_succ hlength
      · exact hroom copy hcopy

theorem ClientStep.run_fits {step : ClientStep} (hstep : step.Plain env.toExternal)
    (hclient : w.client.Idle) (hserver : w.server.Executes env) :
    ∃ copies w', step.run env w = .ok copies w' ∧ w'.client.Idle ∧
      ∀ copy ∈ copies, copy.Fits := by
  cases step with
  | cron =>
      exact ⟨[], _, rfl, hclient.cron w.server, fun _ hcopy => absurd hcopy List.not_mem_nil⟩
  | request path keys junk =>
      obtain ⟨hlength, hnul, -, hlooks⟩ := hstep
      have hpeak : (w.mapClient fun c =>
          { c with querybufPeak := max c.querybufPeak c.querybuf.len }).client.Idle :=
        ⟨hclient.querybuf_len, hclient.querybuf_alloc, hclient.reqtype, hclient.multibulklen,
          hclient.bulklen, hclient.argv, hclient.flags, hclient.freed⟩
      obtain ⟨copies, w', hrun, hidle, hroom⟩ := copyCommands_fit junk
        (fun key hkey => (hlooks key hkey).fits hlength hnul) hpeak hserver
      refine ⟨copies, w', ?_, hidle, hroom⟩
      rw [← hrun]
      simp only [ClientStep.run, bind_apply, get_apply, modify_apply, readLength_of_idle hclient,
        hclient.querybuf_len]

theorem runSteps_fits {steps : List (Server × ClientStep)}
    (hsteps : ∀ entry ∈ steps, entry.1.Executes env ∧ entry.2.Plain env.toExternal)
    (hclient : w.client.Idle) :
    ∃ copies w', runSteps env steps w = .ok copies w' ∧
      ∀ copy ∈ copies, copy.Fits := by
  induction steps generalizing w with
  | nil => exact ⟨[], w, rfl, fun _ hcopy => absurd hcopy List.not_mem_nil⟩
  | cons entry steps ih =>
      obtain ⟨server, step⟩ := entry
      obtain ⟨hexecutes, hplain⟩ := hsteps _ List.mem_cons_self
      obtain ⟨copies, w₁, hstep, hidle, hroom⟩ :=
        @ClientStep.run_fits env { w with server := server } step hplain hclient hexecutes
      obtain ⟨copies', w₂, hrest, hroom'⟩ :=
        ih (fun entry hentry => hsteps entry (List.mem_cons_of_mem _ hentry)) hidle
      refine ⟨copies ++ copies', w₂, ?_, ?_⟩
      · simp only [runSteps, bind_apply, modify_apply, hstep, hrest, pure_apply]
      · intro copy hcopy
        exact (List.mem_append.mp hcopy).elim (hroom copy) (hroom' copy)

end Fits

/-- The command for the longest path is longer than the room that is asked for. -/
theorem lt_length_longest {path : Bytes} (hpath : path.length = protoIobufLen) :
    protoIobufLen < (commandText (lookupArgv (postKeyPrefix ++ path.drop 1))).length := by
  have hkey : (postKeyPrefix ++ path.drop 1).length = 13 + (protoIobufLen - 1) := by
    rw [List.length_append, List.length_drop, hpath]
    rfl
  unfold protoIobufLen at *
  simp only [commandText, lookupArgv, bulkText, List.flatMap_cons, List.length_append, hkey]
  omega

/-- Every run of requests and timer calls on a new client returns, so no command is written past
the end of the query buffer and no assertion of `sdsIncrLen` fails, although the command for the
longest path needs more room than is asked for. -/
theorem querybuf_always_fits {env : Env} {steps : List (Server × ClientStep)}
    (hsteps : ∀ entry ∈ steps, entry.1.Executes env ∧ entry.2.Plain env.toExternal)
    (server : Server) (time : Nat) (log : List Event) :
    (∃ copies w, runSteps env steps ⟨server, createClient time, log⟩ = .ok copies w ∧
      ∀ copy ∈ copies, copy.Fits) ∧
    ∀ path : Bytes, path.length = protoIobufLen →
      protoIobufLen < (commandText (lookupArgv (postKeyPrefix ++ path.drop 1))).length :=
  ⟨runSteps_fits hsteps (createClient_ready time).idle, fun _ => lt_length_longest⟩

/-- A request for the first page, the timer ten seconds later, and the request again. -/
def sampleSteps : List (Server × ClientStep) :=
  [(sampleServer Db.empty [] fun _ => none,
      .request (ascii "/") [pageKeyPrefix ++ ascii "1", errorKey] fun _ => 0),
    ({ sampleServer Db.empty [] fun _ => none with unixtime := 10 }, .cron),
    ({ sampleServer Db.empty [] fun _ => none with unixtime := 10 },
      .request (ascii "/") [pageKeyPrefix ++ ascii "1", errorKey] fun _ => 0)]

theorem querybuf_always_fits_sample :
    (∃ copies w, runSteps sampleEnv sampleSteps
        ⟨sampleServer Db.empty [] fun _ => none, createClient 0, []⟩ = .ok copies w ∧
      ∀ copy ∈ copies, copy.Fits) ∧
    ∀ path : Bytes, path.length = protoIobufLen →
      protoIobufLen < (commandText (lookupArgv (postKeyPrefix ++ path.drop 1))).length := by
  refine querybuf_always_fits ?_ _ 0 []
  have hserving : (sampleServer Db.empty [] fun _ => none).Serving :=
    sampleServer_serving (fun _ => rfl) _ _
  have hlater : ({ sampleServer Db.empty [] fun _ => none with unixtime := 10 } : Server).Serving :=
    ⟨rfl, rfl, rfl, rfl, rfl, rfl, rfl, fun _ => rfl⟩
  have hplain : ∀ junk, (ClientStep.request (ascii "/") [pageKeyPrefix ++ ascii "1", errorKey]
      junk).Plain sampleExternal := by
    intro junk
    refine ⟨by decide, by decide, by decide, ?_⟩
    intro key hkey
    simp only [List.mem_cons, List.not_mem_nil, or_false] at hkey
    rcases hkey with rfl | rfl
    · exact .inr ⟨.index, [], findRoute_index sampleExternal_pcreSpec, rfl⟩
    · exact .inl rfl
  intro entry hentry
  simp only [sampleSteps, List.mem_cons, List.not_mem_nil, or_false] at hentry
  rcases hentry with rfl | rfl | rfl
  · exact ⟨hserving.executes _, hplain _⟩
  · exact ⟨hlater.executes _, trivial⟩
  · exact ⟨hlater.executes _, hplain _⟩

end Blogd
