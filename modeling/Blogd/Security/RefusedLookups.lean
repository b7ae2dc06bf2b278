import Blogd.Security.RequestBuffer

/-! # Refused lookups

A lookup leaves its result in two fields of the client. A command that the server refuses is
answered with the text of an error, and the fields stay as an earlier request left them. The
callbacks do not see the difference. They answer with an error only if the last lookup that was
executed on the connection had failed.
-/

namespace Blogd

/-! ## What lookups leave behind -/

/-- What the last lookup left, and how many lookups were executed. -/
def lookupState (w : World) : (Option Bytes × CharPtr) × Nat :=
  (w.client.kept.2, w.log.countP fun event => event matches .exec _)

/-- An error comes without a reply. -/
def Settled (last : Option Bytes × CharPtr) : Prop := last.1 ≠ none → last.2 = .null

theorem takeLookup_settled (c : Client) (found : Option Robj) :
    Settled (c.takeLookup found).kept.2 := by
  intro herror
  rcases found with _ | o
  · rfl
  · cases o with
    | other => rfl
    | _ => exact absurd rfl herror

theorem settled_framed : Framed fun w => Settled (lookupState w).1 where
  client _ _ hkept hw := by
    have hlast := congrArg Prod.snd hkept
    rwa [lookupState, hlast]
  server _ _ hw := hw
  record _ _ _ hw := hw
  execute w _ found _ := takeLookup_settled w.client found

/-- As long as no lookup is executed, what the last one left stays. -/
def Untouched (start now : (Option Bytes × CharPtr) × Nat) : Prop :=
  start.2 ≤ now.2 ∧ (now.2 = start.2 → now.1 = start.1)

theorem untouched_framed (start : (Option Bytes × CharPtr) × Nat) :
    Framed fun w => Untouched start (lookupState w) where
  client _ _ hkept hw := by
    have hlast := congrArg Prod.snd hkept
    rwa [lookupState, hlast]
  server _ _ hw := hw
  record w event _ hw := by
    obtain ⟨hle, hsame⟩ := hw
    simp only [Untouched, lookupState, World.record, List.countP_append] at hle hsame ⊢
    exact ⟨by omega, fun hcount => hsame (by omega)⟩
  execute w argv found hw := by
    obtain ⟨hle, -⟩ := hw
    have hcount : (lookupState ((w.record (.exec argv)).mapClient (·.takeLookup found))).2 =
        (lookupState w).2 + 1 := by
      simp only [lookupState, World.mapClient_log, World.record_log, List.countP_append]
      rfl
    exact ⟨by omega, fun hnone => by omega⟩

section History

variable {env : Env} (henv : env.Spares lookupState)

include henv

theorem arrive_settled (a : Arrival) :
    Maintains (fun w => Settled (lookupState w).1) (arrive env a) := by
  refine .bind (.modify fun w hw => hw) fun _ => .bind .get fun w => ?_
  refine .bind (.modify fun w hw => hw) fun _ => ?_
  cases a.input with
  | again => exact .pure _
  | error => exact settled_framed.mapClient fun _ => rfl
  | data bytes =>
      refine .ite (settled_framed.mapClient fun _ => rfl) (.bind (.lift _) fun http => ?_)
      refine .bind (.modify fun w hw => hw) fun _ => .bind (.lift _) fun parsed => ?_
      exact answerHeader_maintains settled_framed (henv.maintains fun last => Settled last.1) _ _ _
        (fun _ _ hw => hw) _ _

/-- Whatever a connection carried, an error comes without a reply. -/
theorem settled_of_history {arrivals : List Arrival} {server : Server} {w : World}
    (hrun : runAll (arrive env) arrivals (.fresh server) = .ok ⟨⟩ w) :
    Settled (lookupState w).1 :=
  (Maintains.runAll (arrive_settled henv) arrivals).of_ok hrun fun herror => absurd rfl herror

end History

/-! ## What a callback sends -/

section Callbacks

variable (env : Env) (junk : Nat → UInt8) (readlen qblen : Nat)

/-- The content and the status that a callback calls `responseHttp` with. -/
def lookupResponse (key : Bytes) : Handler (CharPtr × Nat) := do
  callRedisCommand env junk readlen qblen (lookupArgv key)
  let c := (← get).client
  match c.commandLastError with
  | none => return (c.commandLastReply, 200)
  | some _ => do
      callRedisCommand env junk readlen qblen (lookupArgv errorKey)
      let reply := (← get).client.commandLastReply
      return (if reply = .null then .str [] else reply, 404)

theorem lookupResponse_apply {key : Bytes} {w v : World}
    (hcall : callRedisCommand env junk readlen qblen (lookupArgv key) w = .ok ⟨⟩ v)
    (hnone : v.client.commandLastError = none) :
    lookupResponse env junk readlen qblen key w = .ok (v.client.commandLastReply, 200) v := by
  simp only [lookupResponse, bind_apply, hcall, get_apply, hnone, pure_apply]

/-- After a lookup with an error the page of the error is looked up. -/
theorem lookupResponse_error {key err : Bytes} {w w₁ w₂ : World}
    (hcall : callRedisCommand env junk readlen qblen (lookupArgv key) w = .ok ⟨⟩ w₁)
    (hlast : w₁.client.commandLastError = some err)
    (herror : callRedisCommand env junk readlen qblen (lookupArgv errorKey) w₁ = .ok ⟨⟩ w₂) :
    lookupResponse env junk readlen qblen key w =
      .ok (if w₂.client.commandLastReply = .null then .str [] else w₂.client.commandLastReply,
        404) w₂ := by
  simp only [lookupResponse, bind_apply, hcall, get_apply, hlast, herror, pure_apply]

theorem responseHttpKey_eq (key : Bytes) :
    responseHttpKey env junk readlen qblen key = (do
      let (content, code) ← lookupResponse env junk readlen qblen key
      responseHttp content (ascii "html") code) := by
  funext w
  have hcode : sprintfInt 10 404 = .ok (ascii "404") := by decide
  simp only [responseHttpKey, lookupResponse, lookupArgv, bind_apply, get_apply]
  cases callRedisCommand env junk readlen qblen [getNoReplyCommand, key] w with
  | error e w₁ => rfl
  | ok a w₁ =>
      cases hlast : w₁.client.commandLastError with
      | none => simp only [hlast, pure_apply]
      | some err =>
          simp only [hlast, responseHttpError, bind_apply, hcode, lift_ok, get_apply, errorKey]
          cases callRedisCommand env junk readlen qblen
            [getNoReplyCommand, pageErrorKeyPrefix ++ ascii "404"] w₁ with
          | error e w₂ => rfl
          | ok a w₂ => rfl

theorem responseHttpKey_apply {key : Bytes} {w v : World} {content : CharPtr} {code : Nat}
    (hresponse : lookupResponse env junk readlen qblen key w = .ok (content, code) v) :
    responseHttpKey env junk readlen qblen key w = responseHttp content (ascii "html") code v := by
  rw [responseHttpKey_eq, bind_apply, hresponse]

/-- The key that a callback looks up. -/
def Callback.key? (callback : Callback) (found : List Bytes) : Option Bytes :=
  match callback with
  | .index => some (pageKeyPrefix ++ ascii "1")
  | .page => found[0]?.map (pageKeyPrefix ++ ·)
  | .content => found[0]?.map (postKeyPrefix ++ ·)
  | .file => none

theorem Callback.run_eq {callback : Callback} {found : List Bytes} {key : Bytes}
    (hkey : callback.key? found = some key) :
    callback.run env junk readlen qblen found = responseHttpKey env junk readlen qblen key := by
  cases callback with
  | index =>
      cases hkey
      rfl
  | file => cases hkey
  | page =>
      cases found with
      | nil => cases hkey
      | cons first rest =>
          cases hkey
          rfl
  | content =>
      cases found with
      | nil => cases hkey
      | cons first rest =>
          cases hkey
          rfl

/-- The callback answers with an error: what it sends is not NULL and not what was there before. -/
def AnswersError (callback : Callback) (found : List Bytes) (w : World) : Prop :=
  ∃ content code v,
    callback.run env junk readlen qblen found w = responseHttp content (ascii "html") code v ∧
    (∃ key, callback.key? found = some key ∧
      lookupResponse env junk readlen qblen key w = .ok (content, code) v) ∧
    400 ≤ code ∧ content ≠ .null ∧ content ≠ w.client.commandLastReply

/-- The lookup of a key returns, and the server did not execute it. -/
structure Declined (key : Bytes) (w w₁ : World) : Prop where
  returned : callRedisCommand env junk readlen qblen (lookupArgv key) w = .ok ⟨⟩ w₁
  notExecuted : (lookupState w₁).2 = (lookupState w).2

/-- What the last lookup left on a connection after some requests. -/
def Reached (w : World) : Prop :=
  ∃ arrivals server v, runAll (arrive env) arrivals (.fresh server) = .ok ⟨⟩ v ∧
    (lookupState w).1 = (lookupState v).1

end Callbacks

section Answer

variable {env : Env} {junk : Nat → UInt8} {readlen qblen : Nat}

theorem Declined.same (henv : env.Spares lookupState) {key : Bytes} {w w₁ : World}
    (hdeclined : Declined env junk readlen qblen key w w₁) :
    (lookupState w₁).1 = (lookupState w).1 := by
  have huntouched := (callRedisCommand_maintains (untouched_framed (lookupState w))
    (henv.maintains _) junk readlen qblen (lookupArgv key)).of_ok hdeclined.returned
      ⟨Nat.le_refl _, fun _ => rfl⟩
  exact huntouched.2 hdeclined.notExecuted

/-- A callback that sends a page does not answer with an error. -/
theorem not_answersError {callback : Callback} {found : List Bytes} {key : Bytes}
    (hkey : callback.key? found = some key) {w v : World} {content : CharPtr}
    (hresponse : lookupResponse env junk readlen qblen key w = .ok (content, 200) v) :
    ¬ AnswersError env junk readlen qblen callback found w := by
  rintro ⟨content', code, v', -, ⟨key', hkey', hresponse'⟩, hcode, -, -⟩
  rw [hkey, Option.some.injEq] at hkey'
  subst hkey'
  rw [hresponse, EStateM.Result.ok.injEq, Prod.mk.injEq] at hresponse'
  omega

theorem Declined.response {key : Bytes} {w w₁ : World}
    (hdeclined : Declined env junk readlen qblen key w w₁) (henv : env.Spares lookupState)
    (hnone : w.client.commandLastError = none) :
    lookupResponse env junk readlen qblen key w = .ok (w.client.commandLastReply, 200) w₁ := by
  have hsame := hdeclined.same henv
  have hsameError : w₁.client.commandLastError = none :=
    (congrArg Prod.fst hsame).trans hnone
  have hsameReply : w₁.client.commandLastReply = w.client.commandLastReply :=
    congrArg Prod.snd hsame
  rw [← hsameReply]
  exact lookupResponse_apply env junk readlen qblen hdeclined.returned hsameError

/-- When its lookup is declined, a callback answers with an error if the last lookup that was
executed on the connection had failed, and otherwise passes on what that one left. -/
theorem declined_answersError_iff (henv : env.Spares lookupState) {callback : Callback}
    {found : List Bytes} {key : Bytes} (hkey : callback.key? found = some key) {w w₁ w₂ : World}
    (hreached : Reached env w) (hdeclined : Declined env junk readlen qblen key w w₁)
    (herror : callRedisCommand env junk readlen qblen (lookupArgv errorKey) w₁ = .ok ⟨⟩ w₂) :
    AnswersError env junk readlen qblen callback found w ↔
      w.client.commandLastError ≠ none := by
  obtain ⟨arrivals, server, v, hrun, hlast⟩ := hreached
  have hsettled : Settled (lookupState w).1 := hlast ▸ settled_of_history henv hrun
  have hsame := hdeclined.same henv
  have hsameError : w₁.client.commandLastError = w.client.commandLastError :=
    congrArg Prod.fst hsame
  constructor
  · intro hanswers hnone
    exact not_answersError hkey (hdeclined.response henv hnone) hanswers
  · intro hsome
    -- a lookup that failed left no reply, so the error page is not the old content
    have hnull : w.client.commandLastReply = .null := hsettled hsome
    obtain ⟨err, herr⟩ := Option.ne_none_iff_exists'.mp hsome
    rw [herr] at hsameError
    have hresponse := lookupResponse_error env junk readlen qblen hdeclined.returned hsameError
      herror
    have hcontent : (if w₂.client.commandLastReply = .null then CharPtr.str []
        else w₂.client.commandLastReply) ≠ .null := by
      split
      next => exact CharPtr.noConfusion
      next hne => exact hne
    refine ⟨_, 404, w₂, ?_, ⟨key, hkey, hresponse⟩, by decide, hcontent, by rwa [hnull]⟩
    rw [callback.run_eq env junk readlen qblen hkey]
    exact responseHttpKey_apply env junk readlen qblen hresponse

end Answer

/-! ## Servers that decline -/

/-- The text of the error with which a lookup is refused, when there is memory. -/
def refusalText (env : Env) (w : World) (argv : List Bytes) : Option Bytes :=
  (refusal env w argv).or ((lateRefusal w).map Prod.snd)

theorem flagTransaction_clear {w : World} (hflags : w.client.flags = .clear) :
    flagTransaction w = .ok ⟨⟩ w := by
  obtain ⟨server, client, log⟩ := w
  cases client
  dsimp only at hflags
  subst hflags
  rfl

/-- A refused lookup is answered with the error, and nothing else changes. -/
theorem processCommand_refused {env : Env} {w : World} {key err : Bytes}
    (hflags : w.client.flags = .clear) (hfreed : w.client.freed = false)
    (hmemory : w.server.maxmemory = 0)
    (hrefused : refusalText env (w.record (.command (lookupArgv key))) (lookupArgv key) =
      some err) :
    processCommand env (lookupArgv key) w =
      .ok true ((w.record (.command (lookupArgv key))).mapClient (·.addReplyString err)) := by
  have hquit : caseEqual (cstr getNoReplyCommand) (ascii "quit") = false := by decide
  have hname : caseEqual getNoReplyCommand getNoReplyCommand = true := by decide
  have hargv : (lookupArgv key).headD [] = getNoReplyCommand := rfl
  have hflag := @flagTransaction_clear (w.record (.command (lookupArgv key))) hflags
  rw [refusalText] at hrefused
  simp only [processCommand, bind_apply, modify_apply, get_apply, hargv, hquit, hname,
    Bool.false_eq_true, if_false, Bool.not_true]
  cases hearly : refusal env (w.record (.command (lookupArgv key))) (lookupArgv key) with
  | some text =>
      rw [hearly] at hrefused
      cases hrefused
      simp only [bind_apply, hflag]
      rfl
  | none =>
      rw [hearly, Option.none_or] at hrefused
      cases hlate : lateRefusal (w.record (.command (lookupArgv key))) with
      | none =>
          rw [hlate] at hrefused
          cases hrefused
      | some late =>
          obtain ⟨flags, text⟩ := late
          rw [hlate] at hrefused
          cases hrefused
          simp only [World.record_server, World.record_client, hmemory, hfreed, ne_eq, not_true,
            if_false, bind_apply, get_apply, hlate, Bool.false_eq_true]
          cases flags with
          | true =>
              simp only [if_true, bind_apply, hflag]
              rfl
          | false => rfl

/-- A password that the client did not give, a cluster in which the key is elsewhere, a replica
that lost its master and does not serve old data, or a server that is loading. -/
def Server.Declines (env : Env) (server : Server) (authenticated : Bool) (key : Bytes) : Prop :=
  (server.requirepass.isSome ∧ authenticated = false) ∨
    (server.clusterEnabled = true ∧
      ∀ v : World, v.server = server → (env.clusterRedirect v (lookupArgv key)).isSome) ∨
    (server.masterhost.isSome ∧ server.replConnected = false ∧ server.replServeStaleData = false) ∨
    server.loading = true

theorem Server.Declines.refusalText {env : Env} {v : World} {key : Bytes}
    (hflags : v.client.flags = .clear)
    (hdeclines : v.server.Declines env v.client.authenticated key) :
    (Blogd.refusalText env v (lookupArgv key)).isSome := by
  rw [Blogd.refusalText, Option.isSome_or, Bool.or_eq_true, Option.isSome_map]
  rcases hdeclines with hpass | hcluster | hlate
  · refine .inl ?_
    simp [refusal, lookupArgv, hpass.1, hpass.2]
  · refine .inl ?_
    have hsome := hcluster.2 v rfl
    simp only [refusal, lookupArgv, hcluster.1, hflags, ClientFlags.clear]
    split
    next hlength => exact absurd rfl hlength
    next =>
      split
      next => rfl
      next => exact hsome
  · refine .inr ?_
    simp only [lateRefusal, hflags, ClientFlags.clear]
    rcases hlate with hmaster | hloading
    · simp [hmaster]
    · simp only [hloading, Bool.false_eq_true, if_false, if_true]
      split <;> rfl

/-- On a client that is ready, such a server declines the lookup, and puts the text of an error in
front of the response. -/
theorem declined_of_declines {env : Env} (junk : Nat → UInt8) {w : World} {key : Bytes}
    (hclient : w.client.Ready) (hpaused : w.server.clientsArePaused = false)
    (hmemory : w.server.maxmemory = 0) (hkey : 0 ∉ key) (hfits : keyFits key = true)
    (hdeclines : w.server.Declines env w.client.authenticated key) :
    ∃ w₁ err, Declined env junk protoIobufLen 0 key w w₁ ∧ w₁.client.Ready ∧
      w₁.server = w.server ∧ w₁.client.authenticated = w.client.authenticated ∧
      w₁.client.out = w.client.out ++ err := by
  obtain ⟨filled, hempty, halloc, htype, hcall⟩ := callRedisCommand_processed env junk hclient.idle
    hpaused hkey (by simpa [keyFits] using hfits)
  have hflags : (w.calling key filled).client.flags = .clear := hclient.flags
  obtain ⟨err, herr⟩ := Option.isSome_iff_exists.mp (@Server.Declines.refusalText env
    ((w.calling key filled).record (.command (lookupArgv key))) key hflags hdeclines)
  have hreply : (w.calling key filled).client.addReplyString err =
      { (w.calling key filled).client with
        out := (w.calling key filled).client.out ++ err } := by
    simp [Client.addReplyString, Client.acceptsReply, hflags, ClientFlags.clear]
  have hrun := @processCommand_refused env (w.calling key filled) key err hflags hclient.freed
    hmemory herr
  simp only [World.mapClient, World.record, hreply] at hrun
  refine ⟨_, err, ⟨hcall _ hrun hclient.freed rfl, ?_⟩, ?_, rfl, rfl, rfl⟩
  · simp [lookupState, World.calling, World.mapClient, World.record, List.countP_append]
  · exact ⟨hempty, .inr halloc, htype, hclient.httpQuerybuf_type, rfl, rfl, rfl, rfl,
      resetClient_flags hflags, hclient.freed⟩

/-! ## A password that is set later -/

theorem sampleEnv_sparesLookups : sampleEnv.Spares lookupState where
  inline _ := rfl
  other _ _ := rfl
  memory _ := rfl

/-- The small blog with one page. -/
def pageServer : Server :=
  sampleServer (Db.empty.setKey (pageKeyPrefix ++ ascii "1") (.string (ascii "old"))) [] fun _ =>
    none

def lockedServer : Server := { pageServer with requirepass := some (ascii "secret") }

theorem locked_declines {w : World} {key : Bytes} (hserver : w.server = lockedServer)
    (hclient : w.client.Ready) (hpassword : w.client.authenticated = false) (hkey : 0 ∉ key)
    (hfits : keyFits key = true) :
    ∃ w₁, Declined sampleEnv (fun _ => 0) protoIobufLen 0 key w w₁ ∧ w₁.client.Ready ∧
      w₁.server = lockedServer ∧ w₁.client.authenticated = false := by
  obtain ⟨w₁, -, hdeclined, hready, hsame, hauth, -⟩ := declined_of_declines (fun _ => 0) hclient
    (by rw [hserver]; rfl) (by rw [hserver]; rfl) hkey hfits
    (by rw [hserver]; exact .inl ⟨rfl, hpassword⟩)
  exact ⟨w₁, hdeclined, hready, hsame.trans hserver, hauth.trans hpassword⟩

def resyncServer : Server := { pageServer with loading := true }

/-- On the empty blog a lookup leaves an error. -/
theorem lookup_not_found (junk : Nat → UInt8) {w : World} {key : Bytes}
    (hserver : w.server = emptyServer) (hready : w.client.Ready) (hkey : 0 ∉ key)
    (hfits : keyFits key = true) :
    ∃ found, callRedisCommand sampleEnv junk protoIobufLen 0 (lookupArgv key) w = .ok ⟨⟩ found ∧
      found.server = emptyServer ∧ found.client.Ready ∧
      found.client.commandLastError = some notFound ∧ found.client.commandLastReply = .null := by
  obtain ⟨querybuf, hcall, hlooked⟩ := callRedisCommand_lookup sampleEnv junk hready
    (hserver ▸ emptyServer_serving) hkey (by simpa [keyFits] using hfits)
  refine ⟨_, hcall, hserver, hlooked, ?_⟩
  rw [hserver]
  exact ⟨rfl, rfl⟩

/-- A request for the index, of which neither the page is found nor that of the error. -/
theorem index_not_found :
    ∃ v, runAll (arrive sampleEnv) [⟨emptyServer, sampleGarbage, .data sampleRequest.text⟩]
        (.fresh emptyServer) = .ok ⟨⟩ v ∧
      v.client.Ready ∧ v.client.commandLastError = some notFound := by
  obtain ⟨w, hreceived, hrun⟩ := @process_request sampleEnv (.fresh emptyServer) sampleRequest
    sampleGarbage (createClient_ready 0)
  obtain ⟨u', urlQuery, hparse, hparts, -⟩ : sampleRequest.Asks sampleEnv.toExternal
      (sampleServer .empty [] fun _ => none) sampleGarbage.u (ascii "/") :=
    sampleGet_asks _ _ _ _ _ (by decide) (by decide) (by decide)
  have hkeeps : w.server.Keeps sampleEnv.toExternal urlQuery := by
    rw [hreceived.server]
    exact emptyServer_keeps _
  obtain ⟨w₁, hfirst, hserver₁, hready₁, herror₁, -⟩ := @lookup_not_found sampleGarbage.querybuf
    (w.record (.route (ascii "/") .index [])) (pageKeyPrefix ++ ascii "1") hreceived.server
    hreceived.ready (by decide) (by decide)
  obtain ⟨w₂, hsecond, -, hready₂, herror₂, hreply₂⟩ := @lookup_not_found sampleGarbage.querybuf
    w₁ errorKey hserver₁ hready₁ (by decide) (by decide)
  have hresponse := lookupResponse_error _ _ _ _ hfirst herror₁ hsecond
  rw [hreply₂, if_pos rfl] at hresponse
  obtain ⟨code, filetype, hheaders⟩ := buildHttpHeaders_ok (ascii "html") 404
    (show fitsLength ([] : Bytes).length = true by decide)
  have hread : (CharPtr.str []).read = .ok [] := rfl
  have hsent := (responseHttpKey_apply _ _ _ _ hresponse).trans
    (responseHttp_apply hready₂.flags hread hheaders)
  have hroute := @findRoute_index sampleEnv.toExternal sampleExternal_pcreSpec
  rw [answerUrl_accepted sampleEnv _ hparse hparts, bind_apply,
    reloadContent_keeps _ hkeeps] at hrun
  simp only [routeRequest, bind_apply, hroute, lift_ok, modify_apply] at hrun
  have harrive : arrive sampleEnv ⟨emptyServer, sampleGarbage, .data sampleRequest.text⟩
      (.fresh emptyServer) = processHttpRequestFromClient sampleEnv sampleGarbage
        (.data sampleRequest.text) (.fresh emptyServer) := by
    simp only [arrive, bind_apply, modify_apply]
    rfl
  have hrunAll := runAll_cons_ok (arrive sampleEnv) (harrive.trans (hrun.trans hsent)) []
  exact ⟨_, hrunAll, hready₂.withOut _, herror₂⟩

/-- A connection whose last lookup has failed gets an error while the server is loading. -/
theorem declined_answersError_failed :
    ∃ v, runAll (arrive sampleEnv) [⟨emptyServer, sampleGarbage, .data sampleRequest.text⟩]
        (.fresh emptyServer) = .ok ⟨⟩ v ∧
      AnswersError sampleEnv (fun _ => 0) protoIobufLen 0 .index []
        { v with server := resyncServer } := by
  obtain ⟨v, hrun, hready, hfailed⟩ := index_not_found
  obtain ⟨w₁, -, hdeclined, hready₁, hserver₁, -⟩ := @declined_of_declines sampleEnv (fun _ => 0)
    { v with server := resyncServer } (pageKeyPrefix ++ ascii "1") hready
    rfl rfl (by decide) (by decide) (.inr (.inr (.inr rfl)))
  obtain ⟨w₂, -, herror, -⟩ := @declined_of_declines sampleEnv (fun _ => 0) w₁ errorKey hready₁
    (by rw [hserver₁]; rfl) (by rw [hserver₁]; rfl) (by decide) (by decide)
    (.inr (.inr (.inr (by rw [hserver₁]; rfl))))
  have hkey : Callback.key? .index [] = some (pageKeyPrefix ++ ascii "1") := rfl
  have hreached : Reached sampleEnv { v with server := resyncServer } := ⟨_, _, v, hrun, rfl⟩
  refine ⟨v, hrun, (declined_answersError_iff sampleEnv_sparesLookups hkey hreached hdeclined
    herror.returned).mpr ?_⟩
  rw [hfailed]
  exact Option.some_ne_none _

theorem index_served :
    ∃ w, responseHttpIndex sampleEnv (fun _ => 0) protoIobufLen 0
        ⟨pageServer, createClient 0, []⟩ = .ok ⟨⟩ w ∧
      w.client.Ready ∧ w.client.authenticated = false ∧
      w.client.commandLastError = none ∧ w.client.commandLastReply = .str (ascii "old") := by
  obtain ⟨found, hcall, hready, hpassword, hnone, hreply⟩ : ∃ found,
      callRedisCommand sampleEnv (fun _ => 0) protoIobufLen 0
        (lookupArgv (pageKeyPrefix ++ ascii "1")) ⟨pageServer, createClient 0, []⟩ =
          .ok ⟨⟩ found ∧
      found.client.Ready ∧ found.client.authenticated = false ∧
      found.client.commandLastError = none ∧
      found.client.commandLastReply = .str (ascii "old") := by
    obtain ⟨querybuf, hcall, hready⟩ := @callRedisCommand_lookup
      ⟨pageServer, createClient 0, []⟩ (pageKeyPrefix ++ ascii "1") sampleEnv (fun _ => 0)
      (createClient_ready 0) (sampleServer_serving (fun _ => by simp [Db.setKey, Db.empty]) _ _)
      (by decide) (by decide)
    exact ⟨_, hcall, hready, rfl, rfl, rfl⟩
  obtain ⟨code, filetype, hheaders⟩ := buildHttpHeaders_ok (ascii "html") 200
    (show fitsLength (ascii "old").length = true by decide)
  have hread : (CharPtr.str (ascii "old")).read = .ok (ascii "old") := rfl
  have hlookup := lookupResponse_apply _ _ _ _ hcall hnone
  rw [hreply] at hlookup
  have hresponse := responseHttp_apply hready.flags hread hheaders
  exact ⟨_, (responseHttpKey_apply _ _ _ _ hlookup).trans hresponse, hready.withOut _, hpassword,
    hnone, hreply⟩

/-- The page that was served to a connection, before a password was set, is sent again for another
path. A new connection has NULL sent to it. -/
theorem stale_page_sent :
    (∃ w w₁, responseHttpIndex sampleEnv (fun _ => 0) protoIobufLen 0
        ⟨pageServer, createClient 0, []⟩ = .ok ⟨⟩ w ∧
      lookupResponse sampleEnv (fun _ => 0) protoIobufLen 0 (postKeyPrefix ++ ascii "b")
        { w with server := lockedServer } = .ok (.str (ascii "old"), 200) w₁ ∧
      ¬ AnswersError sampleEnv (fun _ => 0) protoIobufLen 0 .content [ascii "b"]
        { w with server := lockedServer }) ∧
    ∃ w₁, lookupResponse sampleEnv (fun _ => 0) protoIobufLen 0 (pageKeyPrefix ++ ascii "1")
        ⟨lockedServer, createClient 0, []⟩ = .ok (.null, 200) w₁ ∧
      ¬ AnswersError sampleEnv (fun _ => 0) protoIobufLen 0 .index []
        ⟨lockedServer, createClient 0, []⟩ := by
  constructor
  · obtain ⟨w, hserved, hready, hpassword, hnone, hreply⟩ := index_served
    obtain ⟨w₁, hdeclined, -⟩ := @locked_declines { w with server := lockedServer }
      (postKeyPrefix ++ ascii "b") rfl hready hpassword (by decide) (by decide)
    have hresponse := hdeclined.response sampleEnv_sparesLookups hnone
    dsimp only at hresponse
    rw [hreply] at hresponse
    have hkey : Callback.key? .content [ascii "b"] = some (postKeyPrefix ++ ascii "b") := rfl
    exact ⟨w, w₁, hserved, hresponse, not_answersError hkey hresponse⟩
  · obtain ⟨w₁, hdeclined, -⟩ := @locked_declines ⟨lockedServer, createClient 0, []⟩
      (pageKeyPrefix ++ ascii "1") rfl (createClient_ready 0) rfl (by decide) (by decide)
    have hresponse := hdeclined.response sampleEnv_sparesLookups rfl
    have hkey : Callback.key? .index [] = some (pageKeyPrefix ++ ascii "1") := rfl
    exact ⟨w₁, hresponse, not_answersError hkey hresponse⟩

end Blogd
