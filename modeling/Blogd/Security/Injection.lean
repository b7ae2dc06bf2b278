import Blogd.Http.Delivery
import Blogd.Http.UrlExtraction
import Blogd.Server.Sample
import Blogd.Server.System

/-! # Requests cannot inject commands

Whatever clients send, the store sees only the lookups that the blog builds, one command for each
call, byte for byte. The store changes only through a reload.
-/

namespace Blogd

/-! ## Logs in which every call is a lookup -/

/-- The keys that the blog looks up. -/
inductive BlogKey : Bytes → Prop
  | page (s : Bytes) : BlogKey (pageKeyPrefix ++ s)
  | post (s : Bytes) : BlogKey (postKeyPrefix ++ s)
  | error (code : Nat) : BlogKey (pageErrorKeyPrefix ++ decimal code)

/-- Every call started with an empty query buffer, had exactly the command it was given decoded
and executed, and left the query buffer empty. The rest are reloads, routes and opened files. -/
inductive Traced : List Event → Prop
  | nil : Traced []
  | lookup {log : List Event} {key : Bytes} (hlog : Traced log) (hkey : BlogKey key) :
      Traced (log ++ lookupEvents key)
  | reload {log : List Event} (hlog : Traced log) : Traced (log ++ [.reload])
  | route {log : List Event} (hlog : Traced log) (urlPath : Bytes) (callback : Callback)
      (found : List Bytes) : Traced (log ++ [.route urlPath callback found])
  | opened {log : List Event} (hlog : Traced log) (path : Bytes) :
      Traced (log ++ [.opened path])

/-- A log that ends where the command for a path of more than a buffer was copied past the end of
the query buffer. -/
def Cut (log : List Event) : Prop :=
  ∃ before key urlPath callback found, Traced before ∧
    log = before ++ [.route urlPath callback found, .call (lookupArgv key) []] ∧
    BlogKey key ∧ protoIobufLen < urlPath.length

theorem Traced.append {first second : List Event} (hfirst : Traced first)
    (hsecond : Traced second) : Traced (first ++ second) := by
  induction hsecond with
  | nil => rwa [List.append_nil]
  | lookup _ hkey ih => rw [← List.append_assoc]; exact ih.lookup hkey
  | reload _ ih => rw [← List.append_assoc]; exact ih.reload
  | route _ urlPath callback found ih =>
      rw [← List.append_assoc]
      exact ih.route urlPath callback found
  | opened _ path ih => rw [← List.append_assoc]; exact ih.opened path

theorem Cut.prepend {first second : List Event} (hfirst : Traced first) (hsecond : Cut second) :
    Cut (first ++ second) := by
  obtain ⟨before, key, urlPath, callback, found, hbefore, rfl, hkey, hlong⟩ := hsecond
  exact ⟨first ++ before, key, urlPath, callback, found, hfirst.append hbefore,
    by rw [List.append_assoc], hkey, hlong⟩

theorem traced_lookupEvents {key : Bytes} (hkey : BlogKey key) : Traced (lookupEvents key) :=
  Traced.nil.lookup hkey

theorem errorKey_blogKey : BlogKey errorKey := BlogKey.error 404

/-! ## What the site logs -/

namespace Site

variable (site : Site)

/-- A key is traced, or it is too long and its command is cut. -/
theorem keyEvents_cases {pre part : Bytes} (hpre : pre = pageKeyPrefix ∨ pre = postKeyPrefix) :
    Traced (site.keyEvents (pre ++ part)) ∨
      site.answerKey (pre ++ part) = .error .overflow ∧ protoIobufLen < part.length ∧
        ∃ key, BlogKey key ∧ site.keyEvents (pre ++ part) = [.call (lookupArgv key) []] := by
  have hblog : BlogKey (pre ++ part) := by
    rcases hpre with rfl | rfl
    · exact .page part
    · exact .post part
  by_cases hfits : keyFits (pre ++ part) = true
  · left
    rw [keyEvents, if_pos hfits]
    apply (traced_lookupEvents hblog).append
    split
    next => exact traced_lookupEvents errorKey_blogKey
    next => exact .nil
  · right
    rw [keyEvents, if_neg hfits, answerKey, if_neg hfits]
    refine ⟨rfl, ?_, pre ++ part, hblog, rfl⟩
    by_contra hshort
    apply hfits
    apply keyFits_of_length _ (Nat.le_of_not_lt hshort)
    rcases hpre with rfl | rfl <;> decide

/-- A callback is traced, or what it was given of the path is too long. -/
theorem routeEvents_cases (callback : Callback) (found : List Bytes) :
    Traced (site.routeEvents callback found) ∨
      site.answerRoute callback found = .error .overflow ∧
        (∃ part ∈ found, protoIobufLen < part.length) ∧
        ∃ key, BlogKey key ∧ site.routeEvents callback found = [.call (lookupArgv key) []] := by
  cases callback with
  | index =>
      refine (site.keyEvents_cases (.inl rfl)).imp_right ?_
      rintro ⟨-, hlong, -⟩
      exact absurd hlong (by decide)
  | page =>
      cases found with
      | nil => exact .inl .nil
      | cons first more =>
          refine (site.keyEvents_cases (.inl rfl)).imp_right ?_
          rintro ⟨hanswer, hlong, hcall⟩
          exact ⟨hanswer, ⟨first, List.mem_cons_self, hlong⟩, hcall⟩
  | content =>
      cases found with
      | nil => exact .inl .nil
      | cons first more =>
          refine (site.keyEvents_cases (.inr rfl)).imp_right ?_
          rintro ⟨hanswer, hlong, hcall⟩
          exact ⟨hanswer, ⟨first, List.mem_cons_self, hlong⟩, hcall⟩
  | file =>
      rcases found with _ | ⟨stem, _ | ⟨ext, more⟩⟩
      · exact .inl .nil
      · exact .inl .nil
      · left
        change Traced ([.opened (site.publicDir ++ stem ++ ascii "." ++ ext)] ++ _)
        apply (Traced.nil.opened _).append
        split
        next => exact traced_lookupEvents errorKey_blogKey
        next => exact .nil

theorem events_cases (ext : External) (urlPath : Bytes) :
    Traced (site.events ext urlPath) ∨
      site.answer ext urlPath = .error .overflow ∧ Cut (site.events ext urlPath) := by
  unfold events answer
  cases hroute : findRoute ext urlPath httpRoutes with
  | error e => exact .inl .nil
  | ok route =>
      rcases route with _ | ⟨callback, found⟩
      · exact .inl (traced_lookupEvents errorKey_blogKey)
      · rcases site.routeEvents_cases callback found with
          htraced | ⟨hanswer, hlong, key, hkey, hcall⟩
        · exact .inl ((Traced.nil.route urlPath callback found).append htraced)
        · obtain ⟨part, hpart, hlong⟩ := hlong
          have hle := findRoute_length httpRoutes hroute part hpart
          refine .inr ⟨hanswer, [], key, urlPath, callback, found, .nil, ?_, hkey, by omega⟩
          simp only [hcall, List.nil_append]

end Site

/-! ## One call of the handler -/

/-- What a call of the handler leaves: more log, a server that still serves, and the same store
unless it was reloaded. -/
structure Continues (w v : World) (more : List Event) : Prop where
  log : v.log = w.log ++ more
  serving : v.server.Serving
  store : .reload ∉ more → v.server.db = w.server.db

/-- A call that returns leaves a traced log and a client that is ready or freed. A call that
faults leaves a traced log, or one that is cut. -/
def Contained (w : World) : EStateM.Result Fault World PUnit → Prop
  | .ok _ v => ∃ more, Continues w v more ∧ Traced more ∧ (v.client.Ready ∨ v.client.freed = true)
  | .error _ v => ∃ more, Continues w v more ∧ (Traced more ∨ Cut more)

theorem Answers.contained {program : Handler PUnit} {w : World} {more : List Event}
    {reply : Except Fault Bytes} (hserver : w.server.Serving)
    (hanswers : Answers program w more reply)
    (hmore : Traced more ∨ reply = .error .overflow ∧ Cut more) : Contained w (program w) := by
  cases reply with
  | ok bytes =>
      obtain ⟨v, hrun, hserved⟩ := hanswers
      rw [hrun]
      rcases hmore with htraced | ⟨habsurd, -⟩
      · exact ⟨more, ⟨hserved.log, hserved.server ▸ hserver, fun _ => by rw [hserved.server]⟩,
          htraced, .inl hserved.ready⟩
      · cases habsurd
  | error e =>
      obtain ⟨v, hrun, hsame, hlog⟩ := hanswers
      rw [hrun]
      exact ⟨more, ⟨hlog, hsame ▸ hserver, fun _ => by rw [hsame]⟩, hmore.imp_right And.right⟩

/-- A call that faults before anything was logged. -/
theorem contained_error {w : World} (e : Fault) (hserver : w.server.Serving) :
    Contained w (.error e w) :=
  ⟨[], ⟨(List.append_nil _).symm, hserver, fun _ => rfl⟩, .inl .nil⟩

/-- A call that goes on from another state of the same server and log. -/
theorem Contained.of_same {w w₁ : World} {result : EStateM.Result Fault World PUnit}
    (hserver : w₁.server = w.server) (hlog : w₁.log = w.log) (hresult : Contained w₁ result) :
    Contained w result := by
  cases result with
  | ok a v =>
      obtain ⟨more, hcont, hrest⟩ := hresult
      exact ⟨more, ⟨hlog ▸ hcont.log, hcont.serving, hserver ▸ hcont.store⟩, hrest⟩
  | error e v =>
      obtain ⟨more, hcont, hrest⟩ := hresult
      exact ⟨more, ⟨hlog ▸ hcont.log, hcont.serving, hserver ▸ hcont.store⟩, hrest⟩

/-- After a reload the store may have changed, which the log tells. -/
theorem Contained.of_reload {w : World} {commands : Commands}
    {result : EStateM.Result Fault World PUnit}
    (hresult : Contained
      { w with server := w.server.reloaded commands, log := w.log ++ [.reload] } result) :
    Contained w result := by
  have hreload : Traced [.reload] := Traced.nil.reload
  have hcontinues : ∀ v more, Continues
      { w with server := w.server.reloaded commands, log := w.log ++ [.reload] } v more →
      Continues w v ([.reload] ++ more) := by
    intro v more hcont
    exact ⟨by rw [hcont.log, List.append_assoc], hcont.serving,
      fun hmem => absurd (List.mem_append_left _ List.mem_cons_self) hmem⟩
  cases result with
  | ok a v =>
      obtain ⟨more, hcont, htraced, hclient⟩ := hresult
      exact ⟨_, hcontinues v more hcont, hreload.append htraced, hclient⟩
  | error e v =>
      obtain ⟨more, hcont, htraced⟩ := hresult
      exact ⟨_, hcontinues v more hcont, htraced.imp hreload.append (Cut.prepend hreload)⟩

section Handler

variable (env : Env) (junk : Nat → UInt8) {w : World}

theorem routeRequest_contained {urlPath : Bytes} (hclient : w.client.Ready)
    (hserver : w.server.Serving) (hpath : 0 ∉ urlPath) :
    Contained w (routeRequest env junk protoIobufLen 0 urlPath w) :=
  (routeRequest_answers env junk hclient hserver hpath).contained hserver
    (w.server.site.events_cases env.toExternal urlPath)

theorem answerUrl_contained {u : HttpParserUrl} {fullUrl : Bytes} (hclient : w.client.Ready)
    (hserver : w.server.Serving) (hurl : 0 ∉ fullUrl) :
    Contained w (answerUrl env junk protoIobufLen 0 u fullUrl w) := by
  cases hparse : httpParserParseUrl fullUrl u with
  | none => exact (answerUrl_rejected env junk hclient hparse).contained hserver (.inl .nil)
  | some u' =>
      cases hparts : urlParts fullUrl u' with
      | error e =>
          simp only [answerUrl, hparse, bind_apply, hparts, lift_error]
          exact contained_error e hserver
      | ok parts =>
          obtain ⟨urlPath, urlQuery⟩ := parts
          have hpath := nul_notMem_urlPath hurl hparts
          rw [answerUrl_accepted env junk hparse hparts, bind_apply]
          -- the query does not ask for a reload, or the reload returns, or it stops on the way
          by_cases hkeeps : w.server.Keeps env.toExternal urlQuery
          · rw [reloadContent_keeps env hkeeps]
            exact routeRequest_contained env junk hclient hserver hpath
          · by_cases hreloads : ∃ commands, w.server.Reloads env.toExternal urlQuery commands
            · obtain ⟨commands, hreloads⟩ := hreloads
              rw [reloadContent_reloads env hreloads]
              apply Contained.of_reload
              exact routeRequest_contained env junk hclient (hserver.reloaded commands) hpath
            · obtain ⟨e, w', hfault, hsame⟩ :=
                reloadContent_faults env hkeeps (not_exists.mp hreloads)
              rw [hfault]
              rcases hsame with rfl | ⟨commands, rfl⟩
              · exact contained_error e hserver
              · exact (contained_error e (hserver.reloaded commands)).of_reload

theorem answerHeader_contained {u : HttpParserUrl} (header : RequestHeader)
    (hclient : w.client.Ready) (hserver : w.server.Serving) :
    Contained w (answerHeader env junk protoIobufLen 0 u header w) := by
  cases hmethod : header.requestMethod with
  | none =>
      rw [answerHeader_null env junk hmethod]
      exact contained_error _ hserver
  | some method =>
      cases hget : isGet method with
      | false =>
          exact (answerHeader_notGet env junk hmethod hget hclient).contained hserver (.inl .nil)
      | true =>
          cases huri : header.requestURI with
          | none =>
              simp only [answerHeader, bind_apply, hmethod, nonNull, lift_ok, hget, if_true, huri,
                lift_error]
              exact contained_error _ hserver
          | some uri =>
              rw [answerHeader_get env junk hmethod hget huri]
              exact answerUrl_contained env junk hclient hserver (nul_not_mem_cstr _)

end Handler

/-- Every call of the handler on a client that is ready is contained. -/
theorem process_contained {w : World} (env : Env) (garbage : Garbage) (input : SocketRead)
    (hclient : w.client.Ready) (hserver : w.server.Serving) :
    Contained w (processHttpRequestFromClient env garbage input w) := by
  have htype := Sds.makeRoomFor_ne_type5 garbage.httpQuerybuf w.client.httpQuerybuf
    (by decide : 0 < protoIobufLen)
  have hcontinues : ∀ c, Continues w { w with client := c } [] :=
    fun c => ⟨(List.append_nil _).symm, hserver, fun _ => rfl⟩
  cases input with
  | again =>
      simp only [processHttpRequestFromClient, bind_apply, get_apply, hclient.readLength,
        modify_apply, pure_apply]
      exact ⟨[], hcontinues _, .nil, .inl (hclient.withHttp _ htype)⟩
  | error =>
      simp only [processHttpRequestFromClient, bind_apply, get_apply, modify_apply, freeClient]
      exact ⟨[], hcontinues _, .nil, .inr rfl⟩
  | data bytes =>
      by_cases hempty : bytes.take protoIobufLen = []
      · simp only [processHttpRequestFromClient, bind_apply, get_apply, hclient.readLength,
          modify_apply, hempty, if_true, freeClient]
        exact ⟨[], hcontinues _, .nil, .inr rfl⟩
      · obtain ⟨w₁, hreceived, hrun⟩ := process_data env garbage hclient hempty
        rw [hrun]
        apply Contained.of_same hreceived.server hreceived.log
        have hserver₁ : w₁.server.Serving := hreceived.server ▸ hserver
        cases h3RequestHeaderParse h3RequestHeaderNew w₁.client.httpQuerybuf.mem with
        | error e => exact contained_error e hserver₁
        | ok parsed =>
            exact answerHeader_contained env garbage.querybuf parsed.header hreceived.ready
              hserver₁

/-! ## Runs -/

/-- Between steps: the server serves, every client is ready or freed, and the log is traced. -/
structure System.Inv (db : Db) (s : System) : Prop where
  serving : s.server.Serving
  clients : ∀ slot, (s.clients slot).Ready ∨ (s.clients slot).freed = true
  traced : Traced s.log
  store : .reload ∉ s.log → s.server.db = db

/-- Where a run stopped, whether it returned or not. -/
structure System.Stopped (db : Db) (s : System) : Prop where
  traced : Traced s.log ∨ Cut s.log
  store : .reload ∉ s.log → s.server.db = db

theorem Continues.store_of {db : Db} {w v : World} {more : List Event} (hcont : Continues w v more)
    (hstore : .reload ∉ w.log → w.server.db = db) : .reload ∉ v.log → v.server.db = db := by
  intro hlog
  rw [hcont.log, List.mem_append, not_or] at hlog
  rw [hcont.store hlog.2, hstore hlog.1]

/-- Each step keeps the invariant, or stops the run. -/
theorem systemStep_spec {db : Db} (env : Env) (step : Step) {s : System} (hs : s.Inv db) :
    match systemStep env step s with
    | .ok _ t => t.Inv db
    | .error _ t => t.Stopped db := by
  cases step with
  | connect slot =>
      refine ⟨hs.serving, fun i => ?_, hs.traced, hs.store⟩
      simp only [System.put]
      split
      next => exact .inl (createClient_ready _)
      next => exact hs.clients i
  | surroundings unixtime mstime files contentDir =>
      exact ⟨⟨hs.serving.requirepass, hs.serving.clusterEnabled, hs.serving.maxmemory,
        hs.serving.masterhost, hs.serving.loading, hs.serving.luaTimedout, hs.serving.notPaused,
        hs.serving.noExpires⟩, hs.clients, hs.traced, hs.store⟩
  | readable slot garbage input =>
      rw [systemStep_readable]
      cases hfreed : (s.clients slot).freed with
      | true => exact hs
      | false =>
          have hready : (s.view slot).client.Ready :=
            (hs.clients slot).resolve_right (by rw [hfreed]; exact Bool.false_ne_true)
          have hcontained := process_contained env garbage input hready hs.serving
          rw [if_neg Bool.false_ne_true]
          cases hrun : processHttpRequestFromClient env garbage input (s.view slot) with
          -- the log of a call that faults is traced, or it is cut behind a call that was not
          -- executed
          | error e w =>
              rw [hrun] at hcontained
              obtain ⟨more, hcont, htraced⟩ := hcontained
              refine ⟨?_, hcont.store_of hs.store⟩
              change Traced w.log ∨ Cut w.log
              rw [hcont.log]
              exact htraced.imp hs.traced.append (Cut.prepend hs.traced)
          | ok a w =>
              rw [hrun] at hcontained
              obtain ⟨more, hcont, htraced, hclient⟩ := hcontained
              refine ⟨hcont.serving, fun i => ?_, ?_, hcont.store_of hs.store⟩
              · simp only [System.put]
                split
                next => exact hclient
                next => exact hs.clients i
              · change Traced w.log
                rw [hcont.log]
                exact hs.traced.append htraced

theorem systemStep_ok {db : Db} (env : Env) (step : Step) (s t : System) (hs : s.Inv db)
    (hstep : systemStep env step s = .ok ⟨⟩ t) : t.Inv db := by
  have hspec := systemStep_spec env step hs
  rwa [hstep] at hspec

theorem systemStep_error {db : Db} (env : Env) (step : Step) (s : System) (e : Fault) (t : System)
    (hs : s.Inv db) (hstep : systemStep env step s = .error e t) : t.Stopped db := by
  have hspec := systemStep_spec env step hs
  rwa [hstep] at hspec

theorem start_inv {server : Server} (hserver : server.Serving) :
    (System.start server).Inv server.db :=
  ⟨hserver, fun _ => .inr rfl, .nil, fun _ => rfl⟩

/-- In every run of requests on any number of clients, the store sees the blog's own lookups and
nothing else, each executed as one command and byte for byte as it was built. Only a path of more
than a buffer can be cut short, where its command runs past the query buffer. A run without a
reload leaves the store as it was. -/
theorem run_executes_only_lookups (env : Env) (server : Server) (hserver : server.Serving)
    (steps : List Step) :
    let final := stateOf (systemRun env server steps)
    (Traced final.log ∨ Cut final.log) ∧
      (.reload ∉ final.log → final.server.db = server.db) := by
  have hrun := runAll_induction (@systemStep_ok server.db env) (@systemStep_error server.db env)
    steps _ (start_inv hserver)
  rcases hrun with ⟨t, hresult, hinv⟩ | ⟨e, t, hresult, hstopped⟩
  · simp only [systemRun, hresult]
    exact ⟨.inl hinv.traced, hinv.store⟩
  · simp only [systemRun, hresult]
    exact ⟨hstopped.traced, hstopped.store⟩

/-- Two clients of a blog with a password in a foreign key, one of which asks for it. -/
theorem run_executes_only_lookups_foreign :
    let server := sampleServer (Db.empty.setAll [(ascii "secret", ascii "hunter2")]) [] fun _ => none
    let garbage : Garbage := ⟨.filled 0 0, fun _ => 0, fun _ => 0⟩
    let final := stateOf (systemRun sampleEnv server [.connect 0, .connect 1,
      .readable 0 garbage (.data (ascii "GET /a%0D%0AGET secret?b HTTP/1.1\r\nHost: blog\r\n\r\n")),
      .readable 1 garbage (.data (ascii "GET /../secret?b HTTP/1.1\r\nHost: blog\r\n\r\n"))])
    server.Serving ∧ (Traced final.log ∨ Cut final.log) ∧
      (.reload ∉ final.log → final.server.db = server.db) :=
  have hserving : (sampleServer (Db.empty.setAll [(ascii "secret", ascii "hunter2")]) []
      fun _ => none).Serving := sampleServer_serving (Db.setAll_expires (fun _ => rfl) _) _ _
  ⟨hserving, run_executes_only_lookups sampleEnv _ hserving _⟩

end Blogd
