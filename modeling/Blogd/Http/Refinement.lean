import Blogd.Http.Answer

/-! # The handler answers as the site does

Each callback, run on a client that is ready and a server that executes lookups, queues the bytes
that the site answers and logs exactly what the site says it does.
-/

namespace Blogd

theorem Answers.congr {p q : Handler PUnit} {w : World} {events : List Event}
    {reply : Except Fault Bytes} (hprogram : p w = q w) (hq : Answers q w events reply) :
    Answers p w events reply := by
  unfold Answers at hq ⊢
  rw [hprogram]
  exact hq

/-! ## The callbacks answer as the site does -/

section Refinement

variable (env : Env) (junk : Nat → UInt8) {w : World}

theorem acceptsReply_of_clear {c : Client} (hflags : c.flags = .clear) :
    c.acceptsReply = true := by
  simp [Client.acceptsReply, hflags, ClientFlags.clear]

theorem addReply_apply (hflags : w.client.flags = .clear) (s : Bytes) :
    addReply s w = .ok ⟨⟩ (w.mapClient fun c => { c with out := c.out ++ s }) := by
  simp [addReply, World.mapClient, Client.addReplyString, acceptsReply_of_clear hflags]

theorem Client.Ready.withOut {c : Client} (hc : c.Ready) (out : Bytes) :
    ({ c with out := out } : Client).Ready :=
  ⟨hc.querybuf_len, hc.querybuf_alloc, hc.querybuf_type, hc.httpQuerybuf_type, hc.reqtype,
    hc.multibulklen, hc.bulklen, hc.argv, hc.flags, hc.freed⟩

theorem addReply_served (hclient : w.client.Ready) (s : Bytes) :
    ∃ w', addReply s w = .ok ⟨⟩ w' ∧ Served w w' [] s :=
  ⟨_, addReply_apply hclient.flags s,
    ⟨rfl, (List.append_nil _).symm, rfl, rfl, hclient.withOut _⟩⟩

/-- `responseHttp` queues the response and changes nothing else. -/
theorem responseHttp_apply (hflags : w.client.flags = .clear) {content : CharPtr}
    {contentType headers body : Bytes} {code : Nat} (hread : content.read = .ok body)
    (hheaders : buildHttpHeaders contentType body.length code = .ok headers) :
    responseHttp content contentType code w =
      .ok ⟨⟩ (w.mapClient fun c => { c with out := c.out ++ (headers ++ body) }) := by
  have hsecond := @addReply_apply (w.mapClient fun c => { c with out := c.out ++ headers }) hflags
    body
  simp only [responseHttp, bind_apply, hread, lift_ok, hheaders, addReply_apply hflags, hsecond]
  simp only [World.mapClient, List.append_assoc]

theorem responseHttp_answers (hclient : w.client.Ready) (content : CharPtr) (contentType : Bytes)
    (code : Nat) :
    Answers (responseHttp content contentType code) w [] (render content contentType code) := by
  cases hread : content.read with
  | error e =>
      simp only [render, hread, error_bind]
      exact ⟨w, by simp only [responseHttp, bind_apply, hread, lift_error], rfl,
        (List.append_nil _).symm⟩
  | ok body =>
      cases hheaders : buildHttpHeaders contentType body.length code with
      | error e =>
          simp only [render, hread, ok_bind, hheaders, error_bind]
          exact ⟨w, by simp only [responseHttp, bind_apply, hread, lift_ok, hheaders, lift_error],
            rfl, (List.append_nil _).symm⟩
      | ok headers =>
          simp only [render, hread, ok_bind, hheaders, pure_eq_ok]
          exact ⟨_, responseHttp_apply hclient.flags hread hheaders,
            ⟨rfl, (List.append_nil _).symm, rfl, rfl, hclient.withOut _⟩⟩

/-- A lookup whose command fits queues nothing and leaves its result. -/
theorem callRedisCommand_served {key : Bytes} (hclient : w.client.Ready)
    (hserver : w.server.Serving) (hkey : 0 ∉ key) (hfits : keyFits key = true) :
    ∃ w₁, callRedisCommand env junk protoIobufLen 0 (lookupArgv key) w = .ok ⟨⟩ w₁ ∧
      Served w w₁ (lookupEvents key) [] ∧
      w₁.client.commandLastError = (w.client.takeLookup (w.server.db.dict key)).commandLastError ∧
      w₁.client.commandLastReply =
        (w.client.takeLookup (w.server.db.dict key)).commandLastReply := by
  obtain ⟨querybuf, hrun, hready⟩ :=
    callRedisCommand_lookup env junk hclient hserver hkey (by simpa [keyFits] using hfits)
  refine ⟨_, hrun, ⟨rfl, rfl, ?_, ?_, hready⟩, rfl, rfl⟩
  · rw [List.append_nil]
    rcases w.server.db.dict key with _ | o
    · rfl
    · cases o <;> rfl
  · rcases w.server.db.dict key with _ | o
    · rfl
    · cases o <;> rfl

theorem errorKey_fits : keyFits errorKey = true := by decide

/-- The error page is looked up and sent, or an empty page in its place. -/
theorem responseHttpError_answers (hclient : w.client.Ready) (hserver : w.server.Serving) :
    Answers (responseHttpError env junk protoIobufLen 0 404) w (lookupEvents errorKey)
      w.server.site.answerError := by
  have hnul : (0 : UInt8) ∉ errorKey := by decide
  have hcode : sprintfInt 10 404 = .ok (ascii "404") := by decide
  obtain ⟨w₁, hrun, hserved, -, hreply⟩ :=
    callRedisCommand_served env junk hclient hserver hnul errorKey_fits
  have hcontent : (if w₁.client.commandLastReply = .null then CharPtr.str []
      else w₁.client.commandLastReply) = errorReply (w.server.site.lookup errorKey) := by
    rw [hreply]
    change _ = errorReply (w.server.db.dict errorKey)
    rcases w.server.db.dict errorKey with _ | o
    · rfl
    · cases o <;> rfl
  have hnext := responseHttp_answers hserved.ready
    (errorReply (w.server.site.lookup errorKey)) (ascii "html") 404
  have hanswers := Answers.after hrun hserved hnext
  rw [List.append_nil] at hanswers
  have hprogram : responseHttpError env junk protoIobufLen 0 404 w =
      (callRedisCommand env junk protoIobufLen 0 (lookupArgv errorKey) >>= fun _ =>
        responseHttp (errorReply (w.server.site.lookup errorKey)) (ascii "html") 404) w := by
    have hargv : [getNoReplyCommand, pageErrorKeyPrefix ++ ascii "404"] = lookupArgv errorKey :=
      rfl
    simp only [responseHttpError, bind_apply, hcode, lift_ok, hargv, hrun, get_apply, hcontent]
  exact hanswers.congr hprogram

/-- A key is looked up, and the error page when it is missing. -/
theorem responseHttpKey_answers {key : Bytes} (hclient : w.client.Ready)
    (hserver : w.server.Serving) (hkey : 0 ∉ key) :
    Answers (responseHttpKey env junk protoIobufLen 0 key) w (w.server.site.keyEvents key)
      (w.server.site.answerKey key) := by
  by_cases hfits : keyFits key = true
  · obtain ⟨w₁, hrun, hserved, herror, hreply⟩ :=
      callRedisCommand_served env junk hclient hserver hkey hfits
    have hargv : [getNoReplyCommand, key] = lookupArgv key := rfl
    -- a missing key and one of another type leave an error, and both lead to the error page
    have hmiss : ∀ err, w₁.client.commandLastError = some err →
        Answers (responseHttpKey env junk protoIobufLen 0 key) w
          (lookupEvents key ++ lookupEvents errorKey) w.server.site.answerError := by
      intro err herr
      have hnext := responseHttpError_answers env junk hserved.ready (hserved.server ▸ hserver)
      rw [hserved.server] at hnext
      refine (Answers.after hrun hserved hnext).congr ?_
      simp only [responseHttpKey, hargv, bind_apply, hrun, get_apply, herr]
    have hhit : ∀ reply, w₁.client.commandLastError = none →
        w₁.client.commandLastReply = reply →
        Answers (responseHttpKey env junk protoIobufLen 0 key) w (lookupEvents key)
          (render reply (ascii "html") 200) := by
      intro reply herr hsame
      have hnext := responseHttp_answers hserved.ready reply (ascii "html") 200
      have hanswers := Answers.after hrun hserved hnext
      rw [List.append_nil] at hanswers
      refine hanswers.congr ?_
      simp only [responseHttpKey, hargv, bind_apply, hrun, get_apply, herr, hsame]
    have hsite : w.server.site.lookup key = w.server.db.dict key := rfl
    simp only [Site.keyEvents, Site.answerKey, hfits, if_true, hsite]
    rcases hfound : w.server.db.dict key with _ | o
    · exact hmiss notFound (by rw [herror, hfound]; rfl)
    · cases o with
      | other => exact hmiss wrongtypeerr (by rw [herror, hfound]; rfl)
      | string s =>
          change Answers _ _ (lookupEvents key ++ []) _
          rw [List.append_nil]
          exact hhit _ (by rw [herror, hfound]; rfl) (by rw [hreply, hfound]; rfl)
      | int n =>
          change Answers _ _ (lookupEvents key ++ []) _
          rw [List.append_nil]
          exact hhit _ (by rw [herror, hfound]; rfl) (by rw [hreply, hfound]; rfl)
  · have hoverflow := callRedisCommand_overflow env junk hclient hkey
      (by simpa [keyFits] using hfits)
    have hargv : [getNoReplyCommand, key] = lookupArgv key := rfl
    have hrun : responseHttpKey env junk protoIobufLen 0 key w =
        .error .overflow { w with log := w.log ++ [.call (lookupArgv key) []] } := by
      simp only [responseHttpKey, hargv, bind_apply, hoverflow]
    rw [Site.keyEvents, Site.answerKey, if_neg hfits, if_neg hfits]
    exact ⟨_, hrun, rfl, rfl⟩

/-- A file is sent read by read. -/
theorem sendFile_answers (reads : List FileRead) (hclient : w.client.Ready) :
    Answers (sendFile reads) w [] (readAll reads) := by
  induction reads generalizing w with
  | nil => exact ⟨w, rfl, rfl, (List.append_nil _).symm, (List.append_nil _).symm, rfl, hclient⟩
  | cons read rest ih =>
      cases read with
      | error =>
          have haccepts := acceptsReply_of_clear hclient.flags
          exact ⟨w, by simp [sendFile, haccepts], rfl, (List.append_nil _).symm⟩
      | data bytes =>
          by_cases hbytes : bytes = []
          · simp only [readAll, hbytes, if_true]
            exact ⟨w, by simp [sendFile], rfl, (List.append_nil _).symm,
              (List.append_nil _).symm, rfl, hclient⟩
          · obtain ⟨w₁, hfirst, hserved⟩ := addReply_served hclient bytes
            have hrest := ih hserved.ready
            have hrun : sendFile (.data bytes :: rest) w = sendFile rest w₁ := by
              simp only [sendFile, hbytes, if_false, bind_apply, hfirst]
            simp only [readAll, hbytes, if_false]
            cases hread : readAll rest with
            | error e =>
                rw [hread] at hrest
                obtain ⟨w₂, hsecond, hserver, hlog⟩ := hrest
                exact ⟨w₂, hrun.trans hsecond, hserver.trans hserved.server,
                  by rw [hlog, hserved.log, List.append_nil]⟩
            | ok more =>
                rw [hread] at hrest
                obtain ⟨w₂, hsecond, hserved₂⟩ := hrest
                exact ⟨w₂, hrun.trans hsecond, hserved.trans hserved₂⟩

/-- The file is opened under the public directory and sent behind its headers. -/
theorem responseHttpFile_answers {stem ext : Bytes} {more : List Bytes} (hclient : w.client.Ready)
    (hserver : w.server.Serving) :
    Answers (responseHttpFile env junk protoIobufLen 0 (stem :: ext :: more)) w
      (w.server.site.fileEvents stem ext) (w.server.site.answerFile stem ext) := by
  have hstem : matchText (stem :: ext :: more) 0 = .ok stem := rfl
  have hext : matchText (stem :: ext :: more) 1 = .ok ext := rfl
  have hopened : Served w (w.record (.opened (w.server.publicDir ++ stem ++ ascii "." ++ ext)))
      [.opened (w.server.publicDir ++ stem ++ ascii "." ++ ext)] [] :=
    ⟨rfl, rfl, (List.append_nil _).symm, rfl, hclient⟩
  have hopen : (modify fun w => w.record
      (.opened ((w : World).server.publicDir ++ stem ++ ascii "." ++ ext)) : Handler PUnit) w =
      .ok ⟨⟩ (w.record (.opened (w.server.publicDir ++ stem ++ ascii "." ++ ext))) := rfl
  unfold Site.answerFile Site.fileEvents
  have hsite : w.server.site.files (w.server.site.publicDir ++ stem ++ ascii "." ++ ext) =
      w.server.files (w.server.publicDir ++ stem ++ ascii "." ++ ext) := rfl
  simp only [hsite]
  cases hfile : w.server.files (w.server.publicDir ++ stem ++ ascii "." ++ ext) with
  | none =>
      have hnext := responseHttpError_answers env junk hopened.ready hserver
      refine (Answers.after hopen hopened hnext).congr ?_
      simp only [responseHttpFile, bind_apply, hstem, hext, lift_ok, get_apply, modify_apply,
        World.record_server, hfile]
  | some file =>
      cases hheaders : buildHttpHeaders ext file.stSize 200 with
      | error e =>
          simp only [hheaders, error_bind]
          refine ⟨w.record (.opened (w.server.publicDir ++ stem ++ ascii "." ++ ext)), ?_, rfl, rfl⟩
          simp only [responseHttpFile, bind_apply, hstem, hext, lift_ok, get_apply, modify_apply,
            World.record_server, hfile, hheaders, lift_error]
      | ok headers =>
          obtain ⟨w₁, hsent, hserved⟩ := addReply_served hopened.ready headers
          have hsend := sendFile_answers file.reads hserved.ready
          have hrun : responseHttpFile env junk protoIobufLen 0 (stem :: ext :: more) w =
              sendFile file.reads w₁ := by
            simp only [responseHttpFile, bind_apply, hstem, hext, lift_ok, get_apply,
              modify_apply, World.record_server, hfile, hheaders, hsent]
          have hboth := hopened.trans hserved
          cases hread : readAll file.reads with
          | error e =>
              rw [hread] at hsend
              simp only [hheaders, hread, ok_bind, error_bind]
              obtain ⟨w₂, hsecond, hsame, hlog⟩ := hsend
              exact ⟨w₂, hrun.trans hsecond, hsame.trans hboth.server,
                by rw [hlog, hboth.log, List.append_nil]; rfl⟩
          | ok body =>
              rw [hread] at hsend
              simp only [hheaders, hread, ok_bind, pure_eq_ok]
              obtain ⟨w₂, hsecond, hserved₂⟩ := hsend
              exact ⟨w₂, hrun.trans hsecond, hboth.trans hserved₂⟩

/-- Without the group it needs, a callback reads past the matches. -/
theorem answers_wildPointer {program : Handler PUnit} (hrun : program w = .error .wildPointer w) :
    Answers program w [] (.error .wildPointer) :=
  ⟨w, hrun, rfl, (List.append_nil _).symm⟩

theorem Callback.run_answers (callback : Callback) {found : List Bytes}
    (hclient : w.client.Ready) (hserver : w.server.Serving) (hfound : ∀ s ∈ found, 0 ∉ s) :
    Answers (callback.run env junk protoIobufLen 0 found) w
      (w.server.site.routeEvents callback found) (w.server.site.answerRoute callback found) := by
  have hkey : ∀ pre first : Bytes, 0 ∉ pre → first ∈ found → 0 ∉ pre ++ first := by
    intro pre first hpre hfirst
    simpa using ⟨hpre, hfound first hfirst⟩
  cases callback with
  | index =>
      have hone : (0 : UInt8) ∉ pageKeyPrefix ++ ascii "1" := by decide
      exact responseHttpKey_answers env junk hclient hserver hone
  | page =>
      cases found with
      | nil => exact answers_wildPointer rfl
      | cons first more =>
          exact (responseHttpKey_answers env junk hclient hserver
            (hkey pageKeyPrefix first (by decide) List.mem_cons_self)).congr rfl
  | content =>
      cases found with
      | nil => exact answers_wildPointer rfl
      | cons first more =>
          exact (responseHttpKey_answers env junk hclient hserver
            (hkey postKeyPrefix first (by decide) List.mem_cons_self)).congr rfl
  | file =>
      rcases found with _ | ⟨stem, _ | ⟨ext, more⟩⟩
      · exact answers_wildPointer rfl
      · exact answers_wildPointer rfl
      · exact responseHttpFile_answers env junk hclient hserver

theorem pregMatch_groups {ext : External} {regxp data : Bytes} {found : List Bytes}
    (hmatch : pregMatch ext regxp data = .ok (some found)) :
    ∃ (re : Pcre) (ovector : Nat → Option (Nat × Nat)),
      found = (List.range re.captureCount).map fun it => groupText data (ovector (it + 1)) := by
  unfold pregMatch at hmatch
  split at hmatch
  next => cases hmatch
  next =>
    split at hmatch
    next => cases hmatch
    next =>
      split at hmatch
      next => cases hmatch
      next =>
        cases hmatch
        exact ⟨_, _, rfl⟩

/-- What the route loop hands to a callback are parts of the path. -/
theorem findRoute_groups {ext : External} {urlPath : Bytes} {callback : Callback}
    {found : List Bytes} (routes : List HttpRoute)
    (hroute : findRoute ext urlPath routes = .ok (some (callback, found))) :
    ∃ (re : Pcre) (ovector : Nat → Option (Nat × Nat)),
      found = (List.range re.captureCount).map fun it => groupText urlPath (ovector (it + 1)) := by
  induction routes with
  | nil => cases hroute
  | cons r rest ih =>
      rw [findRoute] at hroute
      cases hmatch : pregMatch ext r.pattern urlPath with
      | error e =>
          rw [hmatch, error_bind] at hroute
          cases hroute
      | ok matched =>
          rw [hmatch, ok_bind] at hroute
          cases matched with
          | none => exact ih hroute
          | some texts =>
              cases hroute
              exact pregMatch_groups hmatch

theorem nul_notMem_findRoute {ext : External} {urlPath : Bytes} {callback : Callback}
    {found : List Bytes} (hpath : 0 ∉ urlPath) (routes : List HttpRoute)
    (hroute : findRoute ext urlPath routes = .ok (some (callback, found))) :
    ∀ s ∈ found, 0 ∉ s := by
  obtain ⟨re, ovector, rfl⟩ := findRoute_groups routes hroute
  intro s hs
  obtain ⟨it, -, rfl⟩ := List.mem_map.mp hs
  exact nul_notMem_groupText hpath _

/-- A path is answered as the site answers it. -/
theorem routeRequest_answers {urlPath : Bytes} (hclient : w.client.Ready)
    (hserver : w.server.Serving) (hpath : 0 ∉ urlPath) :
    Answers (routeRequest env junk protoIobufLen 0 urlPath) w
      (w.server.site.events env.toExternal urlPath)
      (w.server.site.answer env.toExternal urlPath) := by
  unfold Site.events Site.answer
  cases hroute : findRoute env.toExternal urlPath httpRoutes with
  | error e =>
      rw [error_bind]
      exact ⟨w, by simp only [routeRequest, bind_apply, hroute, lift_error], rfl,
        (List.append_nil _).symm⟩
  | ok route =>
      rw [ok_bind]
      rcases route with _ | ⟨callback, found⟩
      · exact (responseHttpError_answers env junk hclient hserver).congr
          (by simp only [routeRequest, bind_apply, hroute, lift_ok])
      · have hrecord : Served w (w.record (.route urlPath callback found))
            [.route urlPath callback found] [] :=
          ⟨rfl, rfl, (List.append_nil _).symm, rfl, hclient⟩
        have hrun := Callback.run_answers env junk callback hrecord.ready
          (hrecord.server ▸ hserver) (nul_notMem_findRoute hpath httpRoutes hroute)
        have hmodify : (modify fun w => w.record (.route urlPath callback found) :
            Handler PUnit) w = .ok ⟨⟩ (w.record (.route urlPath callback found)) := rfl
        exact (Answers.after hmodify hrecord hrun).congr
          (by simp only [routeRequest, bind_apply, hroute, lift_ok])

end Refinement

end Blogd
