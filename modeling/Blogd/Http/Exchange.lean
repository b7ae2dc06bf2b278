import Blogd.Http.Handler
import Blogd.Http.UrlExtraction
import Blogd.Http.WellFormed

/-! # One request, one response

A well-formed request on a client that is ready. When the handler takes a path out of its URL and
no reload is triggered, what is logged and queued is what the site says of that path.
-/

namespace Blogd

theorem Request.text_ne_nil (r : Request) : r.text ≠ [] := List.cons_ne_nil _ _

theorem Request.isGet_text (r : Request) (rest : Bytes) : isGet (r.text ++ rest) = true := by
  obtain ⟨more, hmore⟩ : ∃ more, r.text ++ rest = 71 :: 69 :: 84 :: 32 :: more := ⟨_, rfl⟩
  rw [hmore, isGet, cstr]
  simp [ascii]

theorem Request.nul_notMem_uri (r : Request) : 0 ∉ r.uri := fun hmem => (r.uri_word.2 0 hmem).1 rfl

theorem Request.cstr_uri (r : Request) (rest : Bytes) :
    cstr ((r.uri ++ rest).take r.uri.length) = r.uri := by
  rw [List.take_left]
  exact cstr_eq_self r.nul_notMem_uri

theorem Request.length_uri_le (r : Request) : r.uri.length ≤ protoIobufLen := by
  refine Nat.le_trans ?_ r.length_le
  simp only [requestText, List.length_append]
  omega

/-- The handler takes the path out of the URL of the request, and a query that triggers no reload,
where `u` is what the memory for the parts of the URL held before. -/
def Request.Asks (r : Request) (ext : External) (server : Server) (u : HttpParserUrl)
    (urlPath : Bytes) : Prop :=
  ∃ u' urlQuery, httpParserParseUrl r.uri u = some u' ∧
    urlParts r.uri u' = .ok (urlPath, urlQuery) ∧ server.Keeps ext urlQuery

/-- A URL with a path and a query is taken apart as it reads, whatever the memory held. -/
theorem Request.asks_of_parts {r : Request} {ext : External} {server : Server}
    (hpath : urlPathOf r.uri ≠ []) (hquery : urlQueryOf r.uri ≠ []) {u : HttpParserUrl}
    (haccepted : (httpParserParseUrl r.uri u).isSome)
    (hkeeps : server.Keeps ext (urlQueryOf r.uri)) :
    r.Asks ext server u (urlPathOf r.uri) := by
  obtain ⟨u', hparse⟩ := Option.isSome_iff_exists.mp haccepted
  have hboth : HasBothFields r.uri :=
    hasBothFields_of_ne_nil (Nat.lt_of_le_of_lt r.length_uri_le (by decide)) hpath hquery
  exact ⟨u', _, hparse, urlParts_of_hasBothFields hboth hparse, hkeeps⟩

theorem Request.Asks.length_le {r : Request} {ext : External} {server : Server}
    {u : HttpParserUrl} {urlPath : Bytes} (hasks : r.Asks ext server u urlPath) :
    urlPath.length ≤ protoIobufLen := by
  obtain ⟨u', urlQuery, -, hparts, -⟩ := hasks
  exact (strndupAt_sublist (urlParts_eq_ok.mp hparts).1).length_le.trans r.length_uri_le

/-- A path that was taken out of a request has no line break. -/
theorem Request.Asks.line {r : Request} {ext : External} {server : Server} {u : HttpParserUrl}
    {urlPath : Bytes} (hasks : r.Asks ext server u urlPath) : LF ∉ urlPath := by
  obtain ⟨u', urlQuery, -, hparts, -⟩ := hasks
  intro hmem
  have huri := (strndupAt_sublist (urlParts_eq_ok.mp hparts).1).subset hmem
  exact absurd (r.uri_word.2 LF huri).2 (by decide)

section

variable (env : Env) {w : World} (r : Request)

/-- The handler receives a well-formed request and goes on with its URI. -/
theorem process_request (garbage : Garbage) (hready : w.client.Ready) :
    ∃ w₁, Received w w₁ garbage.httpQuerybuf r.text ∧
      processHttpRequestFromClient env garbage (.data r.text) w =
        answerUrl env garbage.querybuf protoIobufLen 0 garbage.u r.uri w₁ := by
  have htake : r.text.take protoIobufLen = r.text := List.take_of_length_le r.length_le
  obtain ⟨w₁, hreceived, hrun⟩ :=
    process_data env garbage hready (htake.symm ▸ r.text_ne_nil)
  rw [htake] at hreceived
  obtain ⟨parsed, rest, hparse, hmethod, huri, huriLen⟩ := h3RequestHeaderParse_request r
    (((w.client.httpQuerybuf.makeRoomFor garbage.httpQuerybuf protoIobufLen).mem.drop
      r.text.length).set w.client.httpQuerybuf.len 0)
  rw [hreceived.mem, hparse] at hrun
  refine ⟨w₁, hreceived, hrun.trans ?_⟩
  simp only
  rw [answerHeader_get env _ hmethod (r.isGet_text _) huri, huriLen, r.cstr_uri]

/-- The call returns, with the events logged and the reply queued. -/
def Gets (garbage : Garbage) (w : World) (events : List Event) (reply : Bytes) : Prop :=
  ∃ w', processHttpRequestFromClient env garbage (.data r.text) w = .ok ⟨⟩ w' ∧
    w'.log = w.log ++ events ∧ w'.client.out = w.client.out ++ reply

/-- A request for a path gets what the site says of the path, and nothing else. -/
theorem gets_iff {garbage : Garbage} {urlPath reply : Bytes} {events : List Event}
    (hready : w.client.Ready) (hserving : w.server.Serving)
    (hasks : r.Asks env.toExternal w.server garbage.u urlPath) :
    Gets env r garbage w events reply ↔
      w.server.site.events env.toExternal urlPath = events ∧
        w.server.site.answer env.toExternal urlPath = .ok reply := by
  obtain ⟨u', urlQuery, hparse, hparts, hkeeps⟩ := hasks
  obtain ⟨w₁, hreceived, hrun⟩ := process_request env r garbage hready
  have hanswers := answerUrl_keeps env garbage.querybuf hreceived.ready
    (hreceived.server ▸ hserving) r.nul_notMem_uri hparse hparts (hreceived.server ▸ hkeeps)
  rw [hreceived.server] at hanswers
  cases hanswer : w.server.site.answer env.toExternal urlPath with
  | error e =>
      rw [hanswer] at hanswers
      obtain ⟨w₂, herror, -⟩ := hanswers
      constructor
      · intro ⟨w', hok, _⟩
        cases (hrun.trans herror).symm.trans hok
      · intro ⟨_, hreply⟩
        cases hreply
  | ok bytes =>
      rw [hanswer] at hanswers
      obtain ⟨w₂, hok, hserved⟩ := hanswers
      have hlog := hserved.log
      have hout := hserved.out
      rw [hreceived.log] at hlog
      rw [hreceived.out] at hout
      constructor
      · intro ⟨w', hok', hlog', hout'⟩
        cases (hrun.trans hok).symm.trans hok'
        rw [hlog] at hlog'
        rw [hout] at hout'
        exact ⟨List.append_cancel_left hlog', congrArg _ (List.append_cancel_left hout')⟩
      · intro ⟨hevents, hreply⟩
        cases hreply
        exact ⟨w₂, hrun.trans hok, hevents ▸ hlog, hout⟩

end

end Blogd
