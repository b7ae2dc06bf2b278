import Blogd.Server.Sample

/-! # A response does not depend on what the connection carried before

The request buffer is never cleared, and behind a request lie the rests of earlier ones. A
well-formed request ends the scan of the parser before it comes to them. What is queued for it is
then what the site answers, and every such request leaves the client ready for the next.
-/

namespace Blogd

/-! ## One request -/

/-- The query does not match the pattern of the reload. -/
def Server.Spares (s : Server) (ext : External) (urlQuery : Bytes) : Prop :=
  ∀ pattern found, s.reloadContentQuery = some pattern →
    pregMatch ext pattern urlQuery ≠ .ok (some found)

/-- A request whose URI has a path and a query, where the query triggers no reload. -/
structure Request.Plain (r : Request) (server : Server) (ext : External) : Prop where
  path : urlPathOf r.uri ≠ []
  query : urlQueryOf r.uri ≠ []
  spares : server.Spares ext (urlQueryOf r.uri)

/-- What a site answers to a request. -/
def Request.answer (r : Request) (ext : External) (site : Site) : Except Fault Bytes :=
  match httpParserParseUrl r.uri (.filled 0 0) with
  | none => .ok badRequest
  | some _ => site.answer ext (urlPathOf r.uri)

theorem Request.Plain.hasBothFields {r : Request} {server : Server} {ext : External}
    (hplain : r.Plain server ext) : HasBothFields r.uri :=
  hasBothFields_of_ne_nil (Nat.lt_of_le_of_lt r.length_uri_le (by decide)) hplain.path
    hplain.query

section OneRequest

variable (env : Env) {w : World} (r : Request)

/-- A URI that is taken apart as it reads, and whose query lets the handler go on, is answered as
the site answers it. -/
theorem answerUrl_request (junk : Nat → UInt8) (u : HttpParserUrl) (hready : w.client.Ready)
    (hserving : w.server.Serving)
    (hparts : ∀ u', httpParserParseUrl r.uri u = some u' →
      urlParts r.uri u' = .ok (urlPathOf r.uri, urlQueryOf r.uri))
    (hkeeps : (httpParserParseUrl r.uri u).isSome →
      w.server.Keeps env.toExternal (urlQueryOf r.uri)) :
    ∃ events, Answers (answerUrl env junk protoIobufLen 0 u r.uri) w events
      (r.answer env.toExternal w.server.site) := by
  have hsame := httpParserParseUrl_isSome r.uri u (.filled 0 0)
  cases hparse : httpParserParseUrl r.uri u with
  | none =>
      rw [hparse, Option.isSome_none, eq_comm, Option.isSome_eq_false_iff,
        Option.isNone_iff_eq_none] at hsame
      rw [Request.answer, hsame]
      exact ⟨[], answerUrl_rejected env junk hready hparse⟩
  | some u' =>
      rw [hparse, Option.isSome_some, eq_comm, Option.isSome_iff_exists] at hsame
      obtain ⟨v, hv⟩ := hsame
      rw [Request.answer, hv]
      exact ⟨_, answerUrl_keeps env junk hready hserving r.nul_notMem_uri hparse
        (hparts u' hparse) (hkeeps (by rw [hparse]; rfl))⟩

/-- A call that returns has queued the answer of the site and left the client ready. -/
theorem process_request_ok {garbage : Garbage} {w' : World} (hready : w.client.Ready)
    (hserving : w.server.Serving) (hplain : r.Plain w.server env.toExternal)
    (hrun : processHttpRequestFromClient env garbage (.data r.text) w = .ok ⟨⟩ w') :
    ∃ reply, r.answer env.toExternal w.server.site = .ok reply ∧
      w'.client.out = w.client.out ++ reply ∧ w'.client.Ready := by
  obtain ⟨w₁, hreceived, hprocess⟩ := process_request env r garbage hready
  rw [hprocess] at hrun
  have hkeeps : (httpParserParseUrl r.uri garbage.u).isSome →
      w₁.server.Keeps env.toExternal (urlQueryOf r.uri) := by
    intro haccepted
    obtain ⟨u', hparse⟩ := Option.isSome_iff_exists.mp haccepted
    -- a query that is not kept and does not reload faults, and the call would not return
    by_contra hkeeps
    have hreloads : ∀ commands,
        ¬ w₁.server.Reloads env.toExternal (urlQueryOf r.uri) commands := by
      rintro commands ⟨pattern, found, hpattern, hmatch, -⟩
      exact hplain.spares pattern found (hreceived.server ▸ hpattern) hmatch
    obtain ⟨e, w₂, hfault, -⟩ := reloadContent_faults env hkeeps hreloads
    rw [answerUrl_accepted env _ hparse (urlParts_of_hasBothFields hplain.hasBothFields hparse),
      bind_apply, hfault] at hrun
    cases hrun
  obtain ⟨events, hanswers⟩ := answerUrl_request env r garbage.querybuf garbage.u hreceived.ready
    (hreceived.server ▸ hserving) (fun _ => urlParts_of_hasBothFields hplain.hasBothFields) hkeeps
  rw [hreceived.server] at hanswers
  cases hanswer : r.answer env.toExternal w.server.site with
  | error e =>
      rw [hanswer] at hanswers
      obtain ⟨w₂, herror, -⟩ := hanswers
      cases herror.symm.trans hrun
  | ok reply =>
      rw [hanswer] at hanswers
      obtain ⟨w₂, hok, hserved⟩ := hanswers
      rw [hok, EStateM.Result.ok.injEq] at hrun
      obtain ⟨-, rfl⟩ := hrun
      exact ⟨reply, rfl, by rw [hserved.out, hreceived.out], hserved.ready⟩

/-- A request that the site answers is handled by a call that returns. -/
theorem process_request_returns {reply : Bytes} (garbage : Garbage) (hready : w.client.Ready)
    (hserving : w.server.Serving)
    (hparts : ∀ u', httpParserParseUrl r.uri garbage.u = some u' →
      urlParts r.uri u' = .ok (urlPathOf r.uri, urlQueryOf r.uri))
    (hkeeps : w.server.Keeps env.toExternal (urlQueryOf r.uri))
    (hanswer : r.answer env.toExternal w.server.site = .ok reply) :
    ∃ w', processHttpRequestFromClient env garbage (.data r.text) w = .ok ⟨⟩ w' ∧
      w'.server = w.server ∧ w'.client.out = w.client.out ++ reply ∧ w'.client.Ready := by
  obtain ⟨w₁, hreceived, hprocess⟩ := process_request env r garbage hready
  obtain ⟨events, hanswers⟩ := answerUrl_request env r garbage.querybuf garbage.u hreceived.ready
    (hreceived.server ▸ hserving) hparts fun _ => hreceived.server ▸ hkeeps
  rw [hreceived.server, hanswer] at hanswers
  obtain ⟨w', hok, hserved⟩ := hanswers
  exact ⟨w', hprocess.trans hok, hserved.server.trans hreceived.server,
    by rw [hserved.out, hreceived.out], hserved.ready⟩

end OneRequest

/-! ## Histories -/

/-- A request on the connection, with the server as it was then and what memory held. -/
structure Visit where
  server : Server
  garbage : Garbage
  request : Request

/-- The client after requests that were handled one after the other. -/
def carry (env : Env) : List Visit → Client → Except Fault Client
  | [], c => .ok c
  | v :: visits, c =>
      match processHttpRequestFromClient env v.garbage (.data v.request.text) ⟨v.server, c, []⟩ with
      | .ok _ w => carry env visits w.client
      | .error e _ => .error e

/-- The store executed the lookups of a visit, which was a plain request. -/
structure Visit.Plain (v : Visit) (ext : External) : Prop where
  serving : v.server.Serving
  plain : v.request.Plain v.server ext

/-- A history of plain requests leaves a client ready. -/
theorem carry_ready (env : Env) {visits : List Visit}
    (hvisits : ∀ v ∈ visits, v.Plain env.toExternal) {c c' : Client} (hc : c.Ready)
    (hcarry : carry env visits c = .ok c') : c'.Ready := by
  induction visits generalizing c with
  | nil =>
      cases hcarry
      exact hc
  | cons v visits ih =>
      have hv := hvisits v List.mem_cons_self
      rw [carry] at hcarry
      split at hcarry
      next w hrun =>
        obtain ⟨-, -, -, hready⟩ := process_request_ok env v.request (w := ⟨v.server, c, []⟩) hc
          hv.serving hv.plain hrun
        exact ih (fun u hu => hvisits u (List.mem_cons_of_mem v hu)) hready hcarry
      next => cases hcarry

/-- After any two histories of plain requests, on any two connections, a plain request is answered
with the same bytes as long as the store and the files are the same. -/
theorem response_independent_of_history (env : Env) (first second : List Visit)
    (hfirst : ∀ v ∈ first, v.Plain env.toExternal)
    (hsecond : ∀ v ∈ second, v.Plain env.toExternal) {t₁ t₂ : Nat} {c₁ c₂ : Client}
    (hcarry₁ : carry env first (createClient t₁) = .ok c₁)
    (hcarry₂ : carry env second (createClient t₂) = .ok c₂) (v₁ v₂ : Visit)
    (hrequest : v₁.request = v₂.request) (hsite : v₁.server.site = v₂.server.site)
    (hv₁ : v₁.Plain env.toExternal) (hv₂ : v₂.Plain env.toExternal) {w₁ w₂ : World}
    (hrun₁ : processHttpRequestFromClient env v₁.garbage (.data v₁.request.text)
      ⟨v₁.server, c₁, []⟩ = .ok ⟨⟩ w₁)
    (hrun₂ : processHttpRequestFromClient env v₂.garbage (.data v₂.request.text)
      ⟨v₂.server, c₂, []⟩ = .ok ⟨⟩ w₂) :
    ∃ reply, w₁.client.out = c₁.out ++ reply ∧ w₂.client.out = c₂.out ++ reply := by
  have hready₁ := carry_ready env hfirst (createClient_ready t₁) hcarry₁
  have hready₂ := carry_ready env hsecond (createClient_ready t₂) hcarry₂
  obtain ⟨reply₁, hanswer₁, hout₁, -⟩ :=
    process_request_ok env v₁.request (w := ⟨v₁.server, c₁, []⟩) hready₁ hv₁.serving hv₁.plain hrun₁
  obtain ⟨reply₂, hanswer₂, hout₂, -⟩ :=
    process_request_ok env v₂.request (w := ⟨v₂.server, c₂, []⟩) hready₂ hv₂.serving hv₂.plain hrun₂
  have hreply : reply₁ = reply₂ := by
    rw [hrequest, hsite, hanswer₂, Except.ok.injEq] at hanswer₁
    exact hanswer₁.symm
  exact ⟨reply₁, hout₁, hreply ▸ hout₂⟩

/-- `GET /?a HTTP/1.1` with one field. -/
def sampleRequest : Request := sampleGet (ascii "/?a") (by decide) (by decide)

def sampleVisit : Visit :=
  ⟨sampleServer .empty [] fun _ => none, sampleGarbage, sampleRequest⟩

theorem sampleVisit_plain : sampleVisit.Plain sampleEnv.toExternal where
  serving := sampleServer_serving (fun _ => rfl) _ _
  plain := ⟨by decide, by decide, fun pattern found hpattern => by
    cases hpattern
    exact fun hmatch => by cases hmatch⟩

/-- The request is answered the same on a new connection and behind another request. -/
theorem response_independent_sample :
    ∃ c w₁ w₂ reply, carry sampleEnv [sampleVisit] (createClient 0) = .ok c ∧
      processHttpRequestFromClient sampleEnv sampleVisit.garbage (.data sampleRequest.text)
        ⟨sampleVisit.server, createClient 0, []⟩ = .ok ⟨⟩ w₁ ∧
      processHttpRequestFromClient sampleEnv sampleVisit.garbage (.data sampleRequest.text)
        ⟨sampleVisit.server, c, []⟩ = .ok ⟨⟩ w₂ ∧
      w₁.client.out = reply ∧ w₂.client.out = c.out ++ reply := by
  have hplain := sampleVisit_plain
  have hkeeps : sampleVisit.server.Keeps sampleEnv.toExternal (urlQueryOf sampleRequest.uri) :=
    ⟨_, rfl, rfl⟩
  obtain ⟨reply, hanswer⟩ : ∃ reply, sampleRequest.answer sampleEnv.toExternal
      sampleVisit.server.site = .ok reply := ⟨_, rfl⟩
  have hreturns : ∀ c : Client, c.Ready → ∃ w, processHttpRequestFromClient sampleEnv
      sampleVisit.garbage (.data sampleRequest.text) ⟨sampleVisit.server, c, []⟩ = .ok ⟨⟩ w ∧
        w.client.Ready := by
    intro c hc
    obtain ⟨w, hrun, -, -, hready⟩ := process_request_returns sampleEnv sampleRequest
      (w := ⟨sampleVisit.server, c, []⟩) sampleVisit.garbage hc hplain.serving
      (fun _ => urlParts_of_hasBothFields hplain.plain.hasBothFields) hkeeps hanswer
    exact ⟨w, hrun, hready⟩
  obtain ⟨w₁, hrun₁, hready⟩ := hreturns _ (createClient_ready 0)
  obtain ⟨w₂, hrun₂, -⟩ := hreturns w₁.client hready
  have hcarry : carry sampleEnv [sampleVisit] (createClient 0) = .ok w₁.client := by
    have hvisit : sampleVisit.request = sampleRequest := rfl
    rw [carry, hvisit, hrun₁]
    rfl
  obtain ⟨bytes, hout₁, hout₂⟩ := response_independent_of_history sampleEnv [] [sampleVisit]
    (by simp) (by simpa using hplain) rfl hcarry sampleVisit sampleVisit rfl rfl hplain hplain
    hrun₁ hrun₂
  exact ⟨w₁.client, w₁, w₂, bytes, hcarry, hrun₁, hrun₂, hout₁, hout₂⟩

end Blogd
