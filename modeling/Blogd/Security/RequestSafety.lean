import Blogd.Http.Delivery
import Blogd.Http.Handler
import Blogd.Http.RequestShape
import Blogd.Http.UrlExtraction
import Blogd.Server.Sample

/-! # Which first requests are answered

The first read on a new connection is answered with a response exactly when the text fits the
header parser and, for a GET request whose URL is accepted, the URL has a path and a query, the
query lets the handler go on, and what the path is routed to can be sent.
-/

namespace Blogd

/-- The state in which the first read on a new connection is handled. -/
def World.fresh (server : Server) : World := ⟨server, createClient server.unixtime, []⟩

/-- The URL of a request. -/
def requestUrl (text : Bytes) : Bytes := cstr (uriText text)

/-- The server after the query of a request: as it was, or reloaded. -/
def Server.AfterQuery (s : Server) (ext : External) (urlQuery : Bytes) (s' : Server) : Prop :=
  (s.Keeps ext urlQuery ∧ s' = s) ∨
    ∃ commands, s.Reloads ext urlQuery commands ∧ s' = s.reloaded commands

/-! ## The statement -/

/-- The header parser, on the memory of a new connection behind one read, finds a method, fills no
more entries than there are, and does not move past the terminator of what was read. -/
def ParsesSafely (junk : Nat → UInt8) (bytes : Bytes) : Prop :=
  ∃ http parsed, receive (Sds.empty.makeRoomFor junk protoIobufLen) 0 bytes = .ok http ∧
    h3RequestHeaderParse h3RequestHeaderNew http.mem = .ok parsed ∧
    parsed.header.requestMethod ≠ none ∧
    parsed.header.fields.length ≤ maxHeaderSize ∧
    http.mem.length - parsed.scan.length ≤ bytes.length

/-- Whatever memory held before, the first read is parsed safely, the handler returns, and it has
queued a response, which is the one for a bad request when the bytes are no GET request. -/
def AnsweredSafely (env : Env) (server : Server) (bytes : Bytes) : Prop :=
  ∀ garbage : Garbage, garbage.u.WellSized → ParsesSafely garbage.httpQuerybuf bytes ∧
    ∃ w, processHttpRequestFromClient env garbage (.data bytes) (.fresh server) = .ok ⟨⟩ w ∧
      IsResponse w.client.out ∧ (isGet bytes = false → w.client.out = badRequest)

/-- A GET request whose URL is accepted. -/
def AcceptedGet (bytes : Bytes) : Prop :=
  isGet bytes = true ∧ (httpParserParseUrl (requestUrl bytes) (.filled 0 0)).isSome

/-- The URL has a path and a query, the query lets the handler go on, and the path is delivered. -/
structure Server.Answerable (s : Server) (ext : External) (url : Bytes) : Prop where
  path : urlPathOf url ≠ []
  query : urlQueryOf url ≠ []
  delivers : ∃ s', s.AfterQuery ext (urlQueryOf url) s' ∧
    s'.site.delivers ext (urlPathOf url) = true

/-! ## The memory of a new connection -/

section Memory

variable {bytes : Bytes} (junk : Nat → UInt8)

theorem grown_zeros {kept : Bytes} (hkept : ∀ c ∈ kept, c = 0) (n : Nat) :
    Sds.grown (fun _ => 0) kept n = List.replicate n 0 := by
  rw [List.eq_replicate_iff]
  refine ⟨Sds.length_grown _ kept n, fun c hc => ?_⟩
  rcases List.mem_append.mp (List.mem_of_mem_take hc) with hc | hc
  · exact hkept c hc
  · obtain ⟨_, -, rfl⟩ := List.mem_map.mp hc
    rfl

theorem fresh_grown :
    (Sds.empty.makeRoomFor junk protoIobufLen).mem =
      Sds.grown junk (Sds.empty.mem.take 1) 32769 := by
  have hroom : ¬ protoIobufLen ≤ Sds.empty.avail := by decide
  rw [Sds.makeRoomFor, if_neg hroom]
  rfl

theorem length_fresh_mem : (Sds.empty.makeRoomFor junk protoIobufLen).mem.length = 32769 := by
  rw [fresh_grown, Sds.length_grown]

/-- Behind what was read come a terminator and more. -/
theorem fresh_mem (hlen : bytes.length ≤ protoIobufLen) :
    ∃ rest, rest ≠ [] ∧ bytes ++ ((Sds.empty.makeRoomFor junk protoIobufLen).mem.drop
      bytes.length).set Sds.empty.len 0 = bytes ++ 0 :: rest := by
  have hmem := length_fresh_mem junk
  unfold protoIobufLen at hlen
  cases hdrop : (Sds.empty.makeRoomFor junk protoIobufLen).mem.drop bytes.length with
  | nil =>
      have hlength := congrArg List.length hdrop
      rw [List.length_drop, hmem, List.length_nil] at hlength
      omega
  | cons c rest =>
      refine ⟨rest, ?_, rfl⟩
      rintro rfl
      have hlength := congrArg List.length hdrop
      rw [List.length_drop, hmem, List.length_singleton] at hlength
      omega

/-- On zeroed memory, behind what was read come zeros. -/
theorem fresh_zeros (hlen : bytes.length ≤ protoIobufLen) :
    ∃ n, bytes ++ ((Sds.empty.makeRoomFor (fun _ => 0) protoIobufLen).mem.drop
      bytes.length).set Sds.empty.len 0 = bytes ++ zeros (n + 2) := by
  have hkept : ∀ c ∈ Sds.empty.mem.take 1, c = 0 := forall_mem_of_all (by decide)
  have hmem := (fresh_grown fun _ => 0).trans (grown_zeros hkept 32769)
  unfold protoIobufLen at hlen
  refine ⟨32766 - bytes.length, ?_⟩
  rw [hmem, List.drop_replicate, show 32769 - bytes.length = 32766 - bytes.length + 2 + 1 by omega,
    List.replicate_succ]
  rfl

end Memory

/-! ## Texts that do not fit -/

theorem receive_fresh {bytes : Bytes} (junk : Nat → UInt8) (hlen : bytes.length ≤ protoIobufLen) :
    ∃ http, receive (Sds.empty.makeRoomFor junk protoIobufLen) 0 bytes = .ok http ∧
      http.mem = bytes ++ ((Sds.empty.makeRoomFor junk protoIobufLen).mem.drop
        bytes.length).set Sds.empty.len 0 := by
  obtain ⟨http, hreceive, -, hmem⟩ :=
    @receive_front Sds.empty bytes junk hlen
  exact ⟨http, hreceive, hmem⟩

/-- On zeroed memory, a text that is parsed safely fits. -/
theorem requestFits_of_parsesSafely {bytes : Bytes} (hlen : bytes.length ≤ protoIobufLen)
    (hsafe : ParsesSafely (fun _ => 0) bytes) : requestFits bytes = true := by
  obtain ⟨http, parsed, hreceive, hparse, hmethod, -, hscan⟩ := hsafe
  obtain ⟨http', hreceive', hmem⟩ := receive_fresh (fun _ => 0) hlen
  obtain ⟨n, hzeros⟩ := fresh_zeros hlen
  rw [hreceive', Except.ok.injEq] at hreceive
  subst hreceive
  rw [hzeros] at hmem
  rw [hmem] at hparse
  rw [hmem, List.length_append, length_zeros] at hscan
  by_contra hunfit
  rw [Bool.not_eq_true] at hunfit
  rcases h3RequestHeaderParse_unfit hunfit hparse with hnull | hpast
  · exact hmethod hnull
  · omega

theorem parsesSafely_of_requestFits {bytes : Bytes} (hlen : bytes.length ≤ protoIobufLen)
    (hfits : requestFits bytes = true) (junk : Nat → UInt8) : ParsesSafely junk bytes := by
  obtain ⟨http, hreceive, hmem⟩ := receive_fresh junk hlen
  obtain ⟨rest, hrest, hfresh⟩ := fresh_mem junk hlen
  rw [hfresh] at hmem
  obtain ⟨parsed, hparse, hmethod, -, -, hfields, before, hscan⟩ :=
    h3RequestHeaderParse_fits hrest hfits
  refine ⟨http, parsed, hreceive, hmem ▸ hparse, by simp [hmethod], hfields, ?_⟩
  rw [hmem, hscan, List.length_append, List.length_append]
  omega

/-! ## The handler on a text that fits -/

theorem cstr_terminated (text rest : Bytes) : cstr (text ++ 0 :: rest) = cstr text := by
  induction text with
  | nil => rfl
  | cons c text ih =>
      simp only [cstr, List.cons_append, List.takeWhile_cons] at ih ⊢
      split
      next => rw [ih]
      next => rfl

theorem isGet_terminated (text rest : Bytes) : isGet (text ++ 0 :: rest) = isGet text := by
  rw [isGet, cstr_terminated, isGet]

section Handler

variable (env : Env) {server : Server} {bytes : Bytes}

/-- On a text that fits, the handler goes on with the request line. -/
theorem process_fits (garbage : Garbage) (hne : bytes ≠ []) (hlen : bytes.length ≤ protoIobufLen)
    (hfits : requestFits bytes = true) :
    ∃ w header rest, w.server = server ∧ w.client.out = [] ∧ w.client.Ready ∧
      processHttpRequestFromClient env garbage (.data bytes) (.fresh server) =
        answerHeader env garbage.querybuf protoIobufLen 0 garbage.u header w ∧
      header.requestMethod = some (bytes ++ 0 :: rest) ∧
      header.requestURI = some (uriStart bytes ++ 0 :: rest) ∧
      header.requestURILen = (uriStart bytes).length - (uriEnd bytes).length := by
  have htake : bytes.take protoIobufLen = bytes := List.take_of_length_le hlen
  have hready : (World.fresh server).client.Ready := createClient_ready server.unixtime
  obtain ⟨w, hreceived, hrun⟩ := process_data env garbage hready (htake.symm ▸ hne)
  obtain ⟨rest, hrest, hfresh⟩ := fresh_mem garbage.httpQuerybuf hlen
  have hmem : w.client.httpQuerybuf.mem = bytes ++ 0 :: rest := by
    rw [hreceived.mem, htake]
    exact hfresh
  obtain ⟨parsed, hparse, hmethod, huri, huriLen, -⟩ := h3RequestHeaderParse_fits hrest hfits
  rw [hmem, hparse] at hrun
  exact ⟨w, parsed.header, rest, hreceived.server, hreceived.out, hreceived.ready, hrun, hmethod,
    huri, huriLen⟩

theorem requestUrl_take (text rest : Bytes) :
    cstr ((uriStart text ++ 0 :: rest).take ((uriStart text).length - (uriEnd text).length)) =
      requestUrl text := by
  rw [List.take_append_of_le_length (Nat.sub_le _ _)]
  rfl

/-- On a GET request that fits, the handler goes on with the URL. -/
theorem process_get (garbage : Garbage) (hne : bytes ≠ []) (hlen : bytes.length ≤ protoIobufLen)
    (hfits : requestFits bytes = true) (hget : isGet bytes = true) :
    ∃ w, w.server = server ∧ w.client.out = [] ∧ w.client.Ready ∧
      processHttpRequestFromClient env garbage (.data bytes) (.fresh server) =
        answerUrl env garbage.querybuf protoIobufLen 0 garbage.u (requestUrl bytes) w := by
  obtain ⟨w, header, rest, hserver, hout, hready, hrun, hmethod, huri, huriLen⟩ :=
    @process_fits env server bytes garbage hne hlen hfits
  refine ⟨w, hserver, hout, hready, ?_⟩
  rw [hrun, answerHeader_get env _ hmethod ((isGet_terminated bytes rest).trans hget) huri,
    huriLen, requestUrl_take]

/-! ## The handler on an accepted URL -/

variable (junk : Nat → UInt8) {w : World} {u u' : HttpParserUrl} {url : Bytes}

theorem length_urlPathOf (url : Bytes) : (urlPathOf url).length ≤ url.length :=
  (List.takeWhile_prefix _).length_le.trans (length_urlTail url)

/-- A structure whose fields all lie behind the URL: copying an absent component goes wrong. -/
theorem answerUrl_missing (hlen : url.length < 65535)
    (hparse : httpParserParseUrl url (.filled 65535 1) = some u')
    (hmissing : urlPathOf url = [] ∨ urlQueryOf url = []) :
    ∃ e, answerUrl env junk protoIobufLen 0 (.filled 65535 1) url w = .error e w := by
  have hjunk : strndupAt url ⟨65535, 1⟩ = .error .outOfBounds := by
    rw [strndupAt, if_neg (by decide), if_neg (by simpa using hlen)]
  have hparts : ∃ e, urlParts url u' = .error e := by
    cases hpath : strndupAt url (u'.fieldData .path) with
    | error e => exact ⟨e, by rw [urlParts, hpath, error_bind]⟩
    | ok path =>
        refine ⟨.outOfBounds, ?_⟩
        rcases hmissing with hnil | hnil
        · rw [parsedPath hparse, if_pos hnil] at hpath
          exact absurd (hjunk.symm.trans hpath) (by simp)
        · rw [urlParts, hpath, ok_bind, parsedQuery hparse, if_pos hnil]
          exact congrArg (· >>= _) hjunk
  obtain ⟨e, he⟩ := hparts
  exact ⟨e, by simp only [answerUrl, hparse, bind_apply, he, lift_error]⟩

/-- Behind the query, the handler routes the path. -/
theorem answerUrl_after {server' : Server} (hboth : HasBothFields url)
    (hparse : httpParserParseUrl url u = some u')
    (hafter : w.server.AfterQuery env.toExternal (urlQueryOf url) server') :
    ∃ w₁, w₁.server = server' ∧ w₁.client = w.client ∧
      answerUrl env junk protoIobufLen 0 u url w =
        routeRequest env junk protoIobufLen 0 (urlPathOf url) w₁ := by
  have haccepted := answerUrl_accepted env junk hparse (w := w)
    (urlParts_of_hasBothFields hboth hparse)
  rw [bind_apply] at haccepted
  rcases hafter with ⟨hkeeps, rfl⟩ | ⟨commands, hreloads, rfl⟩
  · rw [reloadContent_keeps env hkeeps] at haccepted
    exact ⟨w, rfl, rfl, haccepted⟩
  · rw [reloadContent_reloads env hreloads] at haccepted
    exact ⟨{ w with server := w.server.reloaded commands, log := w.log ++ [.reload] }, rfl, rfl,
      haccepted⟩

theorem Server.AfterQuery.serving {s s' : Server} {ext : External} {urlQuery : Bytes}
    (hafter : s.AfterQuery ext urlQuery s') (hs : s.Serving) : s'.Serving := by
  rcases hafter with ⟨-, rfl⟩ | ⟨commands, -, rfl⟩
  · exact hs
  · exact hs.reloaded commands

/-- A routed path is answered exactly when it is delivered. -/
theorem routeRequest_delivers {urlPath : Bytes} (hready : w.client.Ready)
    (hserving : w.server.Serving) (hnul : 0 ∉ urlPath) (hlen : urlPath.length ≤ protoIobufLen) :
    match w.server.site.delivers env.toExternal urlPath with
    | true => ∃ bytes w', routeRequest env junk protoIobufLen 0 urlPath w = .ok ⟨⟩ w' ∧
        w'.client.out = w.client.out ++ bytes ∧ IsResponse bytes
    | false => ∃ e w', routeRequest env junk protoIobufLen 0 urlPath w = .error e w' := by
  have hanswers := routeRequest_answers env junk hready hserving hnul
  have hwhen := w.server.site.answer_answersWhen env.toExternal hlen
  cases hdelivers : w.server.site.delivers env.toExternal urlPath with
  | true =>
      rw [hdelivers] at hwhen
      obtain ⟨bytes, hanswer, hresponse⟩ := hwhen
      rw [hanswer] at hanswers
      obtain ⟨w', hrun, hserved⟩ := hanswers
      exact ⟨bytes, w', hrun, hserved.out, hresponse⟩
  | false =>
      rw [hdelivers] at hwhen
      obtain ⟨e, hanswer⟩ := hwhen
      rw [hanswer] at hanswers
      obtain ⟨w', hrun, -⟩ := hanswers
      exact ⟨e, w', hrun⟩

/-- A URL that can be answered is answered with a response. -/
theorem answerUrl_answerable (hready : w.client.Ready) (hserving : w.server.Serving)
    (hnul : 0 ∉ url) (hlen : url.length ≤ protoIobufLen)
    (hparse : httpParserParseUrl url u = some u')
    (hanswerable : w.server.Answerable env.toExternal url) :
    ∃ bytes w', answerUrl env junk protoIobufLen 0 u url w = .ok ⟨⟩ w' ∧
      w'.client.out = w.client.out ++ bytes ∧ IsResponse bytes := by
  obtain ⟨server', hafter, hdelivers⟩ := hanswerable.delivers
  have hshort : url.length < 2 ^ 16 := by
    unfold protoIobufLen at hlen
    omega
  have hboth := hasBothFields_of_ne_nil hshort hanswerable.path hanswerable.query
  have hpath := nul_notMem_urlPath hnul (urlParts_of_hasBothFields hboth hparse)
  obtain ⟨w₁, rfl, hclient, hrun⟩ := answerUrl_after env junk hboth hparse hafter
  have hroute := routeRequest_delivers env junk (hclient ▸ hready) (hafter.serving hserving) hpath
    ((length_urlPathOf url).trans hlen)
  rw [hdelivers] at hroute
  obtain ⟨bytes, w', hok, hout, hresponse⟩ := hroute
  exact ⟨bytes, w', hrun.trans hok, hclient ▸ hout, hresponse⟩

/-- A URL that is answered whatever the structure held can be answered. -/
theorem answerable_of_answerUrl (hready : w.client.Ready) (hserving : w.server.Serving)
    (hnul : 0 ∉ url) (hlen : url.length ≤ protoIobufLen)
    (haccepted : (httpParserParseUrl url (.filled 0 0)).isSome)
    (hok : ∃ w', answerUrl env junk protoIobufLen 0 (.filled 65535 1) url w = .ok ⟨⟩ w') :
    w.server.Answerable env.toExternal url := by
  obtain ⟨w', hok⟩ := hok
  obtain ⟨u', hparse⟩ := exists_parse haccepted (.filled 65535 1)
  unfold protoIobufLen at hlen
  have hpresent : ¬ (urlPathOf url = [] ∨ urlQueryOf url = []) := by
    intro hmissing
    obtain ⟨e, he⟩ := answerUrl_missing env junk (w := w) (by omega) hparse hmissing
    cases he.symm.trans hok
  rw [not_or] at hpresent
  have hboth := hasBothFields_of_ne_nil (by omega) hpresent.1 hpresent.2
  have hparts := urlParts_of_hasBothFields hboth hparse
  have hpath := nul_notMem_urlPath hnul hparts
  by_cases hafter : ∃ server', w.server.AfterQuery env.toExternal (urlQueryOf url) server'
  · obtain ⟨server', hafter⟩ := hafter
    refine ⟨hpresent.1, hpresent.2, server', hafter, ?_⟩
    obtain ⟨w₁, rfl, hclient, hrun⟩ := answerUrl_after env junk hboth hparse hafter
    have hroute := routeRequest_delivers env junk (hclient ▸ hready) (hafter.serving hserving) hpath
      ((length_urlPathOf url).trans hlen)
    by_contra hundelivered
    rw [Bool.not_eq_true] at hundelivered
    rw [hundelivered] at hroute
    obtain ⟨e, w₂, herror⟩ := hroute
    cases (hrun.trans herror).symm.trans hok
  · -- the reload neither stays away nor returns
    have hkeeps : ¬ w.server.Keeps env.toExternal (urlQueryOf url) :=
      fun hkeeps => hafter ⟨_, .inl ⟨hkeeps, rfl⟩⟩
    have hreloads : ∀ commands, ¬ w.server.Reloads env.toExternal (urlQueryOf url) commands :=
      fun commands hreloads => hafter ⟨_, .inr ⟨commands, hreloads, rfl⟩⟩
    obtain ⟨e, w₁, hfault, -⟩ := reloadContent_faults env hkeeps hreloads
    rw [answerUrl_accepted env junk hparse hparts, bind_apply, hfault] at hok
    cases hok

end Handler

/-! ## The first read -/

theorem isResponse_badRequest : IsResponse badRequest :=
  ⟨400, decimal 0, [], [], (List.append_nil _).symm⟩

theorem length_requestUrl (text : Bytes) : (requestUrl text).length ≤ text.length := by
  have hcstr : (requestUrl text).length ≤ (uriText text).length :=
    (List.takeWhile_prefix _).length_le
  have hstart : (uriStart text).length ≤ text.length :=
    (length_dropRun_le _).trans (length_dropRun_le _)
  have htake : (uriText text).length ≤ (uriStart text).length := List.length_take_le' _ _
  omega

/-- What was never written and holds the given structure. -/
def Garbage.filled (u : HttpParserUrl) : Garbage := ⟨u, fun _ => 0, fun _ => 0⟩

theorem wellSized_filled {off len : Nat} (hoff : off < 2 ^ 16) (hlen : len < 2 ^ 16) :
    (HttpParserUrl.filled off len).WellSized := fun _ => ⟨hoff, hlen⟩

/-- The first read on a new connection is answered safely if and only if the text fits the header
parser and, when it is a GET request with a URL that is accepted, the URL can be answered. -/
theorem answeredSafely_iff (env : Env) (server : Server) {bytes : Bytes} (hne : bytes ≠ [])
    (hlen : bytes.length ≤ protoIobufLen) (hserving : AcceptedGet bytes → server.Serving) :
    AnsweredSafely env server bytes ↔
      requestFits bytes = true ∧
        (AcceptedGet bytes → server.Answerable env.toExternal (requestUrl bytes)) := by
  have hurlLen := (length_requestUrl bytes).trans hlen
  have hnul : 0 ∉ requestUrl bytes := nul_not_mem_cstr _
  constructor
  · intro hsafe
    -- a field that is not set keeps an offset past every URL, so reading it is a fault
    have hfits : requestFits bytes = true :=
      requestFits_of_parsesSafely hlen
        (hsafe (.filled (.filled 65535 1)) (wellSized_filled (by decide) (by decide))).1
    refine ⟨hfits, fun haccepted => ?_⟩
    obtain ⟨-, w', hrun, -⟩ :=
      hsafe (.filled (.filled 65535 1)) (wellSized_filled (by decide) (by decide))
    obtain ⟨w, rfl, -, hready, hget⟩ :=
      @process_get env server bytes (.filled (.filled 65535 1)) hne hlen hfits haccepted.1
    exact answerable_of_answerUrl env _ hready (hserving haccepted) hnul hurlLen haccepted.2
      ⟨w', hget.symm.trans hrun⟩
  · rintro ⟨hfits, hanswerable⟩ garbage -
    refine ⟨parsesSafely_of_requestFits hlen hfits _, ?_⟩
    obtain ⟨w, header, rest, rfl, hout, hready, hrun, hmethod, huri, huriLen⟩ :=
      @process_fits env server bytes garbage hne hlen hfits
    rw [hrun]
    cases hget : isGet bytes with
    | false =>
        obtain ⟨w', hok, hserved⟩ := answerHeader_notGet env garbage.querybuf hmethod
          ((isGet_terminated bytes rest).trans hget) hready
        have hbad : w'.client.out = badRequest := by rw [hserved.out, hout, List.nil_append]
        exact ⟨w', hok, hbad ▸ isResponse_badRequest, fun _ => hbad⟩
    | true =>
        rw [answerHeader_get env _ hmethod ((isGet_terminated bytes rest).trans hget) huri, huriLen,
          requestUrl_take]
        cases hparse : httpParserParseUrl (requestUrl bytes) garbage.u with
        | none =>
            obtain ⟨w', hok, hserved⟩ := answerUrl_rejected env garbage.querybuf hready hparse
            have hbad : w'.client.out = badRequest := by rw [hserved.out, hout, List.nil_append]
            exact ⟨w', hok, hbad ▸ isResponse_badRequest, fun h => by cases h⟩
        | some u' =>
            have haccepted : AcceptedGet bytes := by
              refine ⟨hget, ?_⟩
              rw [httpParserParseUrl_isSome _ _ garbage.u, hparse]
              rfl
            obtain ⟨reply, w', hok, hreply, hresponse⟩ := answerUrl_answerable env garbage.querybuf
              hready (hserving haccepted) hnul hurlLen hparse (hanswerable haccepted)
            rw [hout, List.nil_append] at hreply
            exact ⟨w', hok, hreply ▸ hresponse, fun h => by cases h⟩

/-- A complete request for the root of an empty blog, with a query, is answered safely. -/
theorem answeredSafely_root :
    AnsweredSafely sampleEnv (sampleServer .empty [] fun _ => none)
      (ascii "GET /?a HTTP/1.1\r\nHost: blog\r\n\r\n") :=
  (answeredSafely_iff _ _ (by decide) (by decide)
    fun _ => sampleServer_serving (fun _ => rfl) _ _).mpr
      ⟨by decide, fun _ => ⟨by decide, by decide, _, .inl ⟨⟨_, rfl, rfl⟩, rfl⟩, by decide⟩⟩

/-- The first three bytes of a request: the method stays NULL and is compared all the same. -/
theorem not_answeredSafely_truncated :
    ascii "GET" ≠ [] ∧ (ascii "GET").length ≤ protoIobufLen ∧
      ¬ AnsweredSafely sampleEnv (sampleServer .empty [] fun _ => none) (ascii "GET") := by
  refine ⟨by decide, by decide, fun hsafe => ?_⟩
  have hparses := (hsafe (.filled (.filled 0 0)) (wellSized_filled (by decide) (by decide))).1
  have hfits := requestFits_of_parsesSafely (by decide) hparses
  exact absurd hfits (by decide)

end Blogd
