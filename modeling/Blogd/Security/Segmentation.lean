import Blogd.Http.Routes
import Blogd.Security.History
import Blogd.Security.RequestSafety

/-! # Reads do not follow the requests

TCP delivers a stream of requests in any pieces. The handler parses whatever one read delivers as
a request of its own and keeps nothing for the next. What is queued for a stream depends on where
it was cut, for every stream that holds a request.
-/

namespace Blogd

/-- The reads of a stream: non-empty pieces of at most a buffer. -/
structure IsCutting (stream : Bytes) (reads : List Bytes) : Prop where
  flatten : reads.flatten = stream
  reads_ne : ∀ read ∈ reads, read ≠ []
  reads_le : ∀ read ∈ reads, read.length ≤ protoIobufLen

/-- The bytes queued on a new connection by the time all reads are handled, or one of the calls
faults. -/
def queued (env : Env) (server : Server) (garbage : Garbage) (reads : List Bytes) : Bytes :=
  (stateOf (runAll (fun read => processHttpRequestFromClient env garbage (.data read)) reads
    (.fresh server))).client.out

/-- However the stream of the requests is cut, the same bytes are queued. -/
def SegmentationIndependent (requests : List Request) : Prop :=
  ∀ (env : Env) (server : Server) (garbage : Garbage) (first second : List Bytes),
    env.toExternal.PcreSpec → server.Serving →
    IsCutting (requests.flatMap Request.text) first →
    IsCutting (requests.flatMap Request.text) second →
    queued env server garbage first = queued env server garbage second

/-! ## The first byte alone -/

/-- A text without a complete method leaves the method NULL. -/
theorem h3RequestHeaderParse_noMethod {text rest : Bytes} (hrest : rest ≠ [])
    (hmethod : methodFits text = false) :
    ∃ parsed, h3RequestHeaderParse h3RequestHeaderNew (text ++ 0 :: rest) = .ok parsed ∧
      parsed.header.requestMethod = none := by
  rw [methodFits, Bool.not_eq_false'] at hmethod
  simp only [h3RequestHeaderParse, h3RequestLineParse, scan_method hrest, ok_bind,
    endOrCrlf_text hrest, hmethod, if_true]
  exact ⟨_, rfl, rfl⟩

/-- The first byte of a request, read alone, ends the process before anything is queued. -/
theorem queued_firstByte (env : Env) (server : Server) (garbage : Garbage) (reads : List Bytes) :
    queued env server garbage ([71] :: reads) = [] := by
  have hready : (World.fresh server).client.Ready := createClient_ready server.unixtime
  obtain ⟨w, hreceived, hrun⟩ := @process_data _ [71] env garbage hready (by decide)
  obtain ⟨rest, hrest, hfresh⟩ := @fresh_mem [71] garbage.httpQuerybuf (by decide)
  obtain ⟨parsed, hparse, hnull⟩ := @h3RequestHeaderParse_noMethod [71] _ hrest (by decide)
  have htake : ([71] : Bytes).take protoIobufLen = [71] := rfl
  have hempty : (World.fresh server).client.httpQuerybuf = Sds.empty := rfl
  have hmem := hreceived.mem
  rw [htake, hempty, hfresh] at hmem
  rw [hmem, hparse] at hrun
  have hfault := hrun.trans (answerHeader_null env garbage.querybuf hnull)
  have hqueued := runAll_cons_error
    (fun read => processHttpRequestFromClient env garbage (.data read)) hfault reads
  rw [queued, hqueued]
  exact hreceived.out

/-! ## One read for each request -/

theorem IsResponse.ne_nil {bytes : Bytes} (hresponse : IsResponse bytes) : bytes ≠ [] := by
  obtain ⟨code, length, filetype, body, rfl⟩ := hresponse
  exact List.cons_ne_nil _ _

/-- On a site without pages and files every request gets a response. -/
theorem answer_of_empty {ext : External} (hspec : ext.PcreSpec) (publicDir : Bytes) (r : Request) :
    ∃ reply, r.answer ext ⟨publicDir, fun _ => none, fun _ => none⟩ = .ok reply ∧
      IsResponse reply := by
  rw [Request.answer]
  split
  next => exact ⟨badRequest, rfl, isResponse_badRequest⟩
  next =>
    have hlen : (urlPathOf r.uri).length ≤ protoIobufLen := by
      have htext := r.length_le
      have hpath := length_urlPathOf r.uri
      simp only [requestText, List.length_append] at htext
      unfold protoIobufLen
      omega
    have hwhen := Site.answer_answersWhen ⟨publicDir, fun _ => none, fun _ => none⟩ ext hlen
    -- the patterns of the routes have the groups that their callbacks read
    have hdelivers : Site.delivers ⟨publicDir, fun _ => none, fun _ => none⟩ ext
        (urlPathOf r.uri) = true := by
      obtain ⟨route, hroute, hfound⟩ := findRoute_total hspec (urlPathOf r.uri)
      rw [Site.delivers, hroute]
      rcases route with _ | ⟨callback, found⟩
      · rfl
      · have hlength := hfound callback found rfl
        cases callback with
        | index => rfl
        | page =>
            obtain ⟨first, rfl⟩ := List.length_eq_one_iff.mp hlength
            rfl
        | content =>
            obtain ⟨first, rfl⟩ := List.length_eq_one_iff.mp hlength
            rfl
        | file =>
            rcases found with _ | ⟨stem, _ | ⟨e, more⟩⟩
            · cases hlength
            · cases hlength
            · rfl
    rwa [hdelivers] at hwhen

/-- The library of the small blog, and a reload pattern that never matches. -/
def emptyServer : Server :=
  { sampleServer .empty [] fun _ => none with reloadContentQuery := some (ascii "(?!)") }

theorem emptyServer_serving : emptyServer.Serving :=
  ⟨rfl, rfl, rfl, rfl, rfl, rfl, rfl, fun _ => rfl⟩

theorem emptyServer_keeps (urlQuery : Bytes) :
    emptyServer.Keeps sampleEnv.toExternal urlQuery := by
  refine ⟨_, rfl, ?_⟩
  have hcompile : sampleEnv.pcreCompile (ascii "(?!)") =
      some ((Regex.byte fun _ => false).toPcre 0) := rfl
  rw [pregMatch_toPcre hcompile (by decide), groupTexts, Regex.search_eq_none, Option.map_none]
  intro passed left _
  rw [Regex.run_byte]
  cases left <;> rfl

/-- The empty blog answers every request that arrives in one read. -/
theorem queued_requests (requests : List Request) {w : World} (hserver : w.server = emptyServer)
    (hready : w.client.Ready) :
    ∃ w' replies, runAll (fun read => processHttpRequestFromClient sampleEnv
        (.filled (.filled 0 0)) (.data read)) (requests.map Request.text) w = .ok ⟨⟩ w' ∧
      w'.client.out = w.client.out ++ replies ∧ (requests ≠ [] → replies ≠ []) := by
  induction requests generalizing w with
  | nil => exact ⟨w, [], rfl, (List.append_nil _).symm, fun h => absurd rfl h⟩
  | cons r requests ih =>
      obtain ⟨reply, hanswer, hresponse⟩ := answer_of_empty sampleExternal_pcreSpec
        emptyServer.publicDir r
      have hparts : ∀ u', httpParserParseUrl r.uri (.filled 0 0) = some u' →
          urlParts r.uri u' = .ok (urlPathOf r.uri, urlQueryOf r.uri) := by
        intro u' hparse
        refine urlParts_zeroed ?_ hparse
        have htext := r.length_le
        simp only [requestText, List.length_append] at htext
        omega
      have hanswered : r.answer sampleEnv.toExternal w.server.site = .ok reply := by
        rw [hserver]
        exact hanswer
      obtain ⟨w₁, hrun, hserver₁, hout₁, hready₁⟩ := process_request_returns sampleEnv r
        (.filled (.filled 0 0)) hready (hserver ▸ emptyServer_serving) hparts
        (hserver ▸ emptyServer_keeps _) hanswered
      obtain ⟨w₂, replies, hrest, hout₂, -⟩ := ih (hserver₁.trans hserver) hready₁
      refine ⟨w₂, reply ++ replies, ?_, ?_, fun _ hnil => ?_⟩
      · rw [List.map_cons, ← hrest]
        exact runAll_cons_ok (fun read => processHttpRequestFromClient sampleEnv
          (.filled (.filled 0 0)) (.data read)) hrun _
      · rw [hout₂, hout₁, List.append_assoc]
      · exact hresponse.ne_nil (List.append_eq_nil_iff.mp hnil).1

/-! ## Cuttings -/

theorem isCutting_requests (requests : List Request) :
    IsCutting (requests.flatMap Request.text) (requests.map Request.text) where
  flatten := List.flatMap_def.symm
  reads_ne := by
    intro read hread
    obtain ⟨r, -, rfl⟩ := List.mem_map.mp hread
    exact r.text_ne_nil
  reads_le := by
    intro read hread
    obtain ⟨r, -, rfl⟩ := List.mem_map.mp hread
    exact r.length_le

/-- The first byte apart, and otherwise one read for each request. -/
theorem isCutting_firstByte (r : Request) (requests : List Request) :
    IsCutting ((r :: requests).flatMap Request.text)
      ([71] :: r.text.tail :: requests.map Request.text) where
  flatten := by
    rw [List.flatMap_cons, List.flatten_cons, List.flatten_cons, ← List.flatMap_def,
      ← List.append_assoc]
    rfl
  reads_ne := by
    intro read hread
    rcases List.mem_cons.mp hread with rfl | hread
    · exact List.cons_ne_nil _ _
    · rcases List.mem_cons.mp hread with rfl | hread
      · exact List.cons_ne_nil _ _
      · exact (isCutting_requests requests).reads_ne read hread
  reads_le := by
    intro read hread
    rcases List.mem_cons.mp hread with rfl | hread
    · decide
    · rcases List.mem_cons.mp hread with rfl | hread
      · exact (List.length_tail ▸ Nat.sub_le _ _).trans r.length_le
      · exact (isCutting_requests requests).reads_le read hread

theorem isCutting_nil {reads : List Bytes} (hcutting : IsCutting [] reads) : reads = [] := by
  cases reads with
  | nil => rfl
  | cons read reads =>
      have hread : read = [] := (List.append_eq_nil_iff.mp hcutting.flatten).1
      exact absurd hread (hcutting.reads_ne read List.mem_cons_self)

/-- What is queued does not depend on the cuts for the empty stream, and for no other. -/
theorem segmentationIndependent_iff (requests : List Request) :
    SegmentationIndependent requests ↔ requests = [] := by
  constructor
  · intro hindependent
    by_contra hne
    obtain ⟨r, requests, rfl⟩ := List.exists_cons_of_ne_nil hne
    obtain ⟨w, replies, hrun, hout, hreplies⟩ := @queued_requests (r :: requests)
      (.fresh emptyServer) rfl (createClient_ready _)
    have hsame := hindependent sampleEnv emptyServer (.filled (.filled 0 0)) _ _
      sampleExternal_pcreSpec emptyServer_serving (isCutting_requests (r :: requests))
      (isCutting_firstByte r requests)
    rw [queued_firstByte, queued, hrun] at hsame
    exact hreplies hne (hout.symm.trans hsame)
  · rintro rfl env server garbage first second - - hfirst hsecond
    rw [isCutting_nil hfirst, isCutting_nil hsecond]

/-- One request in one read and the same request cut behind its first byte. -/
theorem queued_sample_differs :
    IsCutting ([sampleRequest].flatMap Request.text) [sampleRequest.text] ∧
      IsCutting ([sampleRequest].flatMap Request.text) [[71], sampleRequest.text.tail] ∧
      queued sampleEnv emptyServer (.filled (.filled 0 0)) [sampleRequest.text] ≠
        queued sampleEnv emptyServer (.filled (.filled 0 0)) [[71], sampleRequest.text.tail] := by
  refine ⟨isCutting_requests [sampleRequest], isCutting_firstByte sampleRequest [], ?_⟩
  obtain ⟨w, replies, hrun, hout, hreplies⟩ := @queued_requests [sampleRequest]
    (.fresh emptyServer) rfl (createClient_ready _)
  have hone : queued sampleEnv emptyServer (.filled (.filled 0 0)) [sampleRequest.text] =
      replies := by
    simp only [List.map_cons, List.map_nil] at hrun
    rw [queued, hrun]
    exact hout
  rw [queued_firstByte, hone]
  exact hreplies (List.cons_ne_nil _ _)

end Blogd
