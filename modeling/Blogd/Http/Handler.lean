import Blogd.Http.Refinement

/-! # The handler

One read on a client that is ready puts its bytes at the front of the request buffer. The header
is parsed from there, and a GET request is answered as the site answers its path, after the
reload that its query may trigger.
-/

namespace Blogd

/-! ## Receiving -/

/-- Reading at the front of the request buffer puts the bytes there and a terminator somewhere
behind them. -/
theorem receive_front {http : Sds} {bytes : Bytes} (junk : Nat → UInt8)
    (hlen : bytes.length ≤ protoIobufLen) :
    ∃ http', receive (http.makeRoomFor junk protoIobufLen) 0 bytes = .ok http' ∧
      http'.type ≠ .type5 ∧
      http'.mem = bytes ++
        ((http.makeRoomFor junk protoIobufLen).mem.drop bytes.length).set http.len 0 := by
  have hroom := Sds.le_makeRoomFor_avail junk http protoIobufLen
  have havail := (http.makeRoomFor junk protoIobufLen).avail_le
  have hmem := (http.makeRoomFor junk protoIobufLen).mem_length
  have hrtype := Sds.makeRoomFor_ne_type5 junk http (by decide : 0 < protoIobufLen)
  obtain ⟨written, hwrite, hwtype, hwlen, hwmem⟩ :=
    @Sds.write_ok (http.makeRoomFor junk protoIobufLen) 0 bytes (by omega)
  rw [List.take_zero, List.nil_append, Nat.zero_add] at hwmem
  have hwavail : bytes.length ≤ written.avail := by
    have hwalloc : written.alloc = (http.makeRoomFor junk protoIobufLen).alloc := by
      rw [Sds.alloc, hwmem, List.length_append, List.length_drop]
      omega
    unfold Sds.avail
    split
    next h => exact absurd (hwtype.symm.trans h) hrtype
    next => omega
  obtain ⟨http', hincr, hitype, -, himem⟩ := Sds.incrLen_ok hwavail (hwtype ▸ hrtype)
  refine ⟨http', ?_, by rw [hitype, hwtype]; exact hrtype, ?_⟩
  · simp only [receive, hwrite, ok_bind, hincr]
  · rw [himem, hwmem, hwlen, Sds.makeRoomFor_len, List.set_append_right _ _ (by omega),
      Nat.add_sub_cancel]

/-- The state in which the request is parsed: only the request buffer has changed, and it begins
with the bytes read. -/
structure Received (w w₁ : World) (junk : Nat → UInt8) (bytes : Bytes) : Prop where
  server : w₁.server = w.server
  log : w₁.log = w.log
  out : w₁.client.out = w.client.out
  ready : w₁.client.Ready
  mem : w₁.client.httpQuerybuf.mem = bytes ++
    ((w.client.httpQuerybuf.makeRoomFor junk protoIobufLen).mem.drop bytes.length).set
      w.client.httpQuerybuf.len 0

theorem Client.Ready.withHttp {c : Client} (hc : c.Ready) (peak : Nat) {http : Sds}
    (htype : http.type ≠ .type5) :
    ({ c with querybufPeak := peak, httpQuerybuf := http } : Client).Ready :=
  ⟨hc.querybuf_len, hc.querybuf_alloc, hc.querybuf_type, htype, hc.reqtype, hc.multibulklen,
    hc.bulklen, hc.argv, hc.flags, hc.freed⟩

theorem Client.Ready.readLength {c : Client} (hc : c.Ready) : readLength c = protoIobufLen := by
  simp [Blogd.readLength, hc.bulklen]

/-- One read on a client that is ready: the bytes are received and the header is parsed. -/
theorem process_data {w : World} {bytes : Bytes} (env : Env) (garbage : Garbage)
    (hclient : w.client.Ready) (hne : bytes.take protoIobufLen ≠ []) :
    ∃ w₁, Received w w₁ garbage.httpQuerybuf (bytes.take protoIobufLen) ∧
      processHttpRequestFromClient env garbage (.data bytes) w =
        match h3RequestHeaderParse h3RequestHeaderNew w₁.client.httpQuerybuf.mem with
        | .ok parsed =>
            answerHeader env garbage.querybuf protoIobufLen 0 garbage.u parsed.header w₁
        | .error e => .error e w₁ := by
  have hlen : (bytes.take protoIobufLen).length ≤ protoIobufLen := by
    rw [List.length_take]
    exact Nat.min_le_left _ _
  obtain ⟨http, hreceive, htype, hmem⟩ :=
    receive_front garbage.httpQuerybuf hlen
  refine ⟨w.mapClient fun c =>
    { c with querybufPeak := max c.querybufPeak 0, httpQuerybuf := http },
    ⟨rfl, rfl, rfl, hclient.withHttp _ htype, hmem⟩, ?_⟩
  simp only [processHttpRequestFromClient, bind_apply, get_apply, hclient.readLength,
    hclient.querybuf_len, modify_apply, hne, if_false, hreceive, lift_ok, World.mapClient]
  cases h3RequestHeaderParse h3RequestHeaderNew http.mem with
  | ok parsed => rfl
  | error e => rfl

/-! ## Answering -/

theorem render_badRequest : render (.str []) [] 400 = .ok badRequest := by
  have hmime : findMime [] = none := by decide
  have hlength : ¬ (decimal (([] : Bytes).length % 2 ^ 32)).length + 1 > 10 := by decide
  simp only [render, CharPtr.read, ok_bind, buildHttpHeaders, hmime, hlength, if_false, pure_eq_ok,
    List.append_nil]
  rfl

theorem nul_notMem_urlPath {fullUrl urlPath urlQuery : Bytes} {u : HttpParserUrl}
    (hurl : 0 ∉ fullUrl) (hparts : urlParts fullUrl u = .ok (urlPath, urlQuery)) :
    0 ∉ urlPath :=
  fun hmem => hurl ((strndupAt_sublist (urlParts_eq_ok.mp hparts).1).subset hmem)

/-- The query does not match the reload pattern. -/
def Server.Keeps (s : Server) (ext : External) (urlQuery : Bytes) : Prop :=
  ∃ pattern, s.reloadContentQuery = some pattern ∧ pregMatch ext pattern urlQuery = .ok none

/-- The query matches the reload pattern, and the reload executes the commands and returns. -/
def Server.Reloads (s : Server) (ext : External) (urlQuery : Bytes) (commands : Commands) : Prop :=
  ∃ pattern found, s.reloadContentQuery = some pattern ∧
    pregMatch ext pattern urlQuery = .ok (some found) ∧
    initContents ext s.contentOptions s.contentDir [] = .ok ⟨⟩ commands

/-- The server after the commands of a reload. -/
def Server.reloaded (s : Server) (commands : Commands) : Server :=
  { s with db := s.db.setAll commands }

theorem Server.Serving.reloaded {s : Server} (hs : s.Serving) (commands : Commands) :
    (s.reloaded commands).Serving :=
  ⟨hs.requirepass, hs.clusterEnabled, hs.maxmemory, hs.masterhost, hs.loading, hs.luaTimedout,
    hs.notPaused, Db.setAll_expires hs.noExpires commands⟩

section Answering

variable (env : Env) (junk : Nat → UInt8) {w : World}

theorem reloadContent_keeps {urlQuery : Bytes} (hkeeps : w.server.Keeps env.toExternal urlQuery) :
    reloadContent env urlQuery w = .ok ⟨⟩ w := by
  obtain ⟨pattern, hpattern, hmatch⟩ := hkeeps
  simp only [reloadContent, bind_apply, get_apply, hpattern, hmatch, lift_ok, pure_apply]

theorem reloadContent_reloads {urlQuery : Bytes} {commands : Commands}
    (hreloads : w.server.Reloads env.toExternal urlQuery commands) :
    reloadContent env urlQuery w =
      .ok ⟨⟩ { w with server := w.server.reloaded commands, log := w.log ++ [.reload] } := by
  obtain ⟨pattern, found, hpattern, hmatch, hinit⟩ := hreloads
  simp only [reloadContent, bind_apply, get_apply, hpattern, hmatch, lift_ok, modify_apply,
    runInitContents, World.record, hinit, set_apply, Server.reloaded]

/-- The other ways a query can go: the handler does not come to the routes. -/
theorem reloadContent_faults {urlQuery : Bytes} (hkeeps : ¬ w.server.Keeps env.toExternal urlQuery)
    (hreloads : ∀ commands, ¬ w.server.Reloads env.toExternal urlQuery commands) :
    ∃ e w', reloadContent env urlQuery w = .error e w' ∧
      ((w' = w) ∨ ∃ commands, w' =
        { w with server := w.server.reloaded commands, log := w.log ++ [.reload] }) := by
  cases hpattern : w.server.reloadContentQuery with
  | none =>
      exact ⟨.nullPointer, w, by
        simp only [reloadContent, bind_apply, get_apply, hpattern, throw_apply], .inl rfl⟩
  | some pattern =>
      cases hmatch : pregMatch env.toExternal pattern urlQuery with
      | error e =>
          exact ⟨e, w, by
            simp only [reloadContent, bind_apply, get_apply, hpattern, hmatch, lift_error],
            .inl rfl⟩
      | ok result =>
          cases result with
          | none => exact absurd ⟨pattern, hpattern, hmatch⟩ hkeeps
          | some found =>
              cases hinit : initContents env.toExternal w.server.contentOptions
                  w.server.contentDir [] with
              | ok a commands =>
                  exact absurd ⟨pattern, found, hpattern, hmatch, hinit⟩ (hreloads commands)
              | error e commands =>
                  refine ⟨e, _, ?_, .inr ⟨commands, rfl⟩⟩
                  simp only [reloadContent, bind_apply, get_apply, hpattern, hmatch, lift_ok,
                    modify_apply, runInitContents, World.record, hinit, set_apply, throw_apply,
                    Server.reloaded]

/-! ## Requests -/

theorem answerHeader_null {u : HttpParserUrl} {header : RequestHeader}
    (hmethod : header.requestMethod = none) :
    answerHeader env junk protoIobufLen 0 u header w = .error .nullPointer w := by
  simp only [answerHeader, bind_apply, hmethod, nonNull, lift_error]

theorem answerHeader_notGet {u : HttpParserUrl} {header : RequestHeader} {method : Bytes}
    (hmethod : header.requestMethod = some method) (hget : isGet method = false)
    (hclient : w.client.Ready) :
    Answers (answerHeader env junk protoIobufLen 0 u header) w [] (.ok badRequest) := by
  rw [← render_badRequest]
  refine (responseHttp_answers hclient _ _ _).congr ?_
  simp only [answerHeader, bind_apply, hmethod, nonNull, lift_ok, hget, Bool.false_eq_true,
    if_false]

theorem answerHeader_get {u : HttpParserUrl} {header : RequestHeader} {method uri : Bytes}
    (hmethod : header.requestMethod = some method) (hget : isGet method = true)
    (huri : header.requestURI = some uri) :
    answerHeader env junk protoIobufLen 0 u header w =
      answerUrl env junk protoIobufLen 0 u (cstr (uri.take header.requestURILen)) w := by
  simp only [answerHeader, bind_apply, hmethod, nonNull, lift_ok, hget, if_true, huri]

theorem answerUrl_rejected {u : HttpParserUrl} {fullUrl : Bytes} (hclient : w.client.Ready)
    (hparse : httpParserParseUrl fullUrl u = none) :
    Answers (answerUrl env junk protoIobufLen 0 u fullUrl) w [] (.ok badRequest) := by
  rw [← render_badRequest]
  refine (responseHttp_answers hclient _ _ _).congr ?_
  simp only [answerUrl, hparse]

theorem answerUrl_accepted {u u' : HttpParserUrl} {fullUrl urlPath urlQuery : Bytes}
    (hparse : httpParserParseUrl fullUrl u = some u')
    (hparts : urlParts fullUrl u' = .ok (urlPath, urlQuery)) :
    answerUrl env junk protoIobufLen 0 u fullUrl w =
      (reloadContent env urlQuery >>= fun _ =>
        routeRequest env junk protoIobufLen 0 urlPath) w := by
  simp only [answerUrl, hparse, bind_apply, hparts, lift_ok]

/-- A URL whose query does not match is answered by the site. -/
theorem answerUrl_keeps {u u' : HttpParserUrl} {fullUrl urlPath urlQuery : Bytes}
    (hclient : w.client.Ready) (hserver : w.server.Serving) (hurl : 0 ∉ fullUrl)
    (hparse : httpParserParseUrl fullUrl u = some u')
    (hparts : urlParts fullUrl u' = .ok (urlPath, urlQuery))
    (hkeeps : w.server.Keeps env.toExternal urlQuery) :
    Answers (answerUrl env junk protoIobufLen 0 u fullUrl) w
      (w.server.site.events env.toExternal urlPath)
      (w.server.site.answer env.toExternal urlPath) := by
  refine (routeRequest_answers env junk hclient hserver (nul_notMem_urlPath hurl hparts)).congr ?_
  rw [answerUrl_accepted env junk hparse hparts, bind_apply, reloadContent_keeps env hkeeps]

end Answering

end Blogd
