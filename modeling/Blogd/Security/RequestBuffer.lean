import Blogd.Http.Frame
import Blogd.Security.Segmentation

/-! # The request buffer is never cleared

A read advances the length of the request buffer, and nothing in the handler takes it back. The
query buffer beside it is trimmed by every command and has a limit. The request buffer holds all
that was read since the connection was accepted, and grows without a bound.
-/

namespace Blogd

/-! ## What touches the buffer -/

def requestBuffer (w : World) : Sds := w.client.httpQuerybuf

theorem requestBuffer_framed (buffer : Sds) : Framed fun w => requestBuffer w = buffer where
  client _ _ hkept hw := (congrArg Prod.fst hkept).trans hw
  server _ _ hw := hw
  record _ _ _ hw := hw
  execute w _ found hw := by
    refine Eq.trans ?_ hw
    cases found with
    | none => rfl
    | some o => cases o <;> rfl

/-- Nothing that is done to answer a request changes the buffer it was read into. -/
theorem answerHeader_keepsBuffer {env : Env} (henv : env.Spares requestBuffer)
    (junk : Nat → UInt8) (readlen qblen : Nat) (u : HttpParserUrl) (header : RequestHeader)
    {w w' : World} (hrun : answerHeader env junk readlen qblen u header w = .ok ⟨⟩ w') :
    requestBuffer w' = requestBuffer w :=
  (answerHeader_maintains (requestBuffer_framed (requestBuffer w))
    (henv.maintains (· = requestBuffer w)) junk readlen qblen (fun _ _ hw => hw) u header).of_ok
      hrun rfl

/-! ## Calls on a connection -/

/-- A call of the handler: the server it finds, what memory held, and what the socket returns. -/
structure Arrival where
  server : Server
  garbage : Garbage
  input : SocketRead

def arrive (env : Env) (a : Arrival) : Handler PUnit := do
  modify fun w => { w with server := a.server }
  processHttpRequestFromClient env a.garbage a.input

/-- A call that returned, with the client before and after it. -/
structure Handled where
  before : Client
  arrival : Arrival
  after : Client

/-- The calls of a run that returned. -/
def handled (env : Env) : List Arrival → World → List Handled
  | [], _ => []
  | a :: rest, w =>
      match arrive env a w with
      | .ok _ w' => ⟨w.client, a, w'.client⟩ :: handled env rest w'
      | .error _ _ => []

/-- The bytes that a call takes from the socket. -/
def bytesRead (c : Client) : SocketRead → Bytes
  | .data bytes => bytes.take (readLength c)
  | .again => []
  | .error => []

/-- The request buffer as a call gives it to the parser. -/
def parsedBuffer (c : Client) (a : Arrival) : Except Fault Sds :=
  receive (c.httpQuerybuf.makeRoomFor a.garbage.httpQuerybuf (readLength c)) c.querybuf.len
    (bytesRead c a.input)

/-- No place in front of the length still holds the byte that the parser was given there. -/
def RequestGone (parsed left : Sds) : Prop :=
  ∀ k < (cstr parsed.mem).length, k < left.len → left.mem[k]? ≠ parsed.mem[k]?

/-- After each call that queued something, the request is gone from the buffer and the buffer is
no longer than the query buffer may be. -/
def BufferInvariant (env : Env) (server : Server) (arrivals : List Arrival) : Prop :=
  ∀ h ∈ handled env arrivals (.fresh server), h.after.out ≠ h.before.out →
    (∀ parsed, parsedBuffer h.before h.arrival = .ok parsed →
      RequestGone parsed h.after.httpQuerybuf) ∧
    h.after.httpQuerybuf.len ≤ clientMaxQuerybufLen

theorem receive_len {http http' : Sds} {qblen : Nat} {bytes : Bytes}
    (hreceive : receive http qblen bytes = .ok http') : http'.len = http.len + bytes.length := by
  unfold receive at hreceive
  cases hwrite : http.write qblen bytes with
  | error e =>
      rw [hwrite] at hreceive
      cases hreceive
  | ok written =>
      have hlen : written.len = http.len := by
        unfold Sds.write at hwrite
        split at hwrite
        next =>
          cases hwrite
          rfl
        next => cases hwrite
      rw [hwrite, ok_bind, Sds.incrLen] at hreceive
      split at hreceive
      next =>
        split at hreceive
        next =>
          cases hreceive
          simp only [hlen]
          omega
        next => cases hreceive
      next => cases hreceive

/-- A method was found only if the text has a first byte. -/
theorem cstr_ne_nil_of_method {mem method : Bytes} {parsed : ParseResult}
    (hparse : h3RequestHeaderParse h3RequestHeaderNew mem = .ok parsed)
    (hmethod : parsed.header.requestMethod = some method) : cstr mem ≠ [] := by
  intro hempty
  cases mem with
  | nil => cases hparse
  | cons c rest =>
      by_cases hc : c = 0
      · subst hc
        cases hparse
        cases hmethod
      · rw [cstr, List.takeWhile_cons_of_pos (by simpa using hc)] at hempty
        cases hempty

/-- What a call that returns does to the buffer: it grows by what was read, and if anything was
queued it is still as it was parsed. -/
theorem arrive_buffer {env : Env} (henv : env.Spares requestBuffer) {a : Arrival} {w w' : World}
    (hrun : arrive env a w = .ok ⟨⟩ w') :
    w'.client.httpQuerybuf.len =
        w.client.httpQuerybuf.len + (bytesRead w.client a.input).length ∧
      (w'.client.out ≠ w.client.out → parsedBuffer w.client a = .ok w'.client.httpQuerybuf ∧
        bytesRead w.client a.input ≠ [] ∧ cstr w'.client.httpQuerybuf.mem ≠ []) := by
  obtain ⟨server, garbage, input⟩ := a
  simp only [arrive, processHttpRequestFromClient, bind_apply, modify_apply, get_apply] at hrun
  cases input with
  | again =>
      cases hrun
      exact ⟨Sds.makeRoomFor_len _ _ _, fun hout => absurd rfl hout⟩
  | error =>
      cases hrun
      exact ⟨Sds.makeRoomFor_len _ _ _, fun hout => absurd rfl hout⟩
  | data bytes =>
      simp only at hrun
      by_cases hbytes : bytes.take (readLength w.client) = []
      · rw [if_pos hbytes] at hrun
        cases hrun
        rw [bytesRead, hbytes]
        exact ⟨Sds.makeRoomFor_len _ _ _, fun hout => absurd rfl hout⟩
      rw [if_neg hbytes, bind_apply] at hrun
      cases hreceive : receive (w.client.httpQuerybuf.makeRoomFor garbage.httpQuerybuf
          (readLength w.client)) w.client.querybuf.len (bytes.take (readLength w.client)) with
      | error e =>
          rw [hreceive] at hrun
          cases hrun
      | ok http =>
          rw [hreceive] at hrun
          simp only [lift_ok, bind_apply, modify_apply] at hrun
          cases hparse : h3RequestHeaderParse h3RequestHeaderNew http.mem with
          | error e =>
              rw [hparse] at hrun
              cases hrun
          | ok parsed =>
              rw [hparse] at hrun
              simp only [lift_ok] at hrun
              -- what follows the parser leaves the request buffer alone
              have hsame : w'.client.httpQuerybuf = http :=
                answerHeader_keepsBuffer henv _ _ _ _ _ hrun
              -- without a method the handler follows a NULL, so it does not return
              have hmethod : ∃ method, parsed.header.requestMethod = some method := by
                cases hnull : parsed.header.requestMethod with
                | some method => exact ⟨method, rfl⟩
                | none =>
                    simp only [answerHeader, hnull, nonNull, bind_apply, lift_error] at hrun
                    cases hrun
              obtain ⟨method, hmethod⟩ := hmethod
              rw [hsame]
              refine ⟨?_, fun _ => ⟨hreceive, hbytes, cstr_ne_nil_of_method hparse hmethod⟩⟩
              rw [receive_len hreceive, Sds.makeRoomFor_len]
              rfl

/-! ## Runs of calls -/

section Runs

variable {env : Env} (henv : env.Spares requestBuffer)

include henv

/-- A call that queued something has left the first byte of its request in the buffer. -/
theorem not_requestGone {h : Handled} {w : World} {arrivals : List Arrival}
    (hmem : h ∈ handled env arrivals w) (hout : h.after.out ≠ h.before.out) :
    ∃ parsed, parsedBuffer h.before h.arrival = .ok parsed ∧
      ¬ RequestGone parsed h.after.httpQuerybuf := by
  induction arrivals generalizing w with
  | nil => cases hmem
  | cons a rest ih =>
      rw [handled] at hmem
      cases hrun : arrive env a w with
      | error e w' =>
          rw [hrun] at hmem
          cases hmem
      | ok result w' =>
          rw [hrun] at hmem
          rcases List.mem_cons.mp hmem with rfl | hmem
          · obtain ⟨hlen, hqueued⟩ := arrive_buffer henv hrun
            obtain ⟨hparsed, hbytes, hcstr⟩ := hqueued hout
            have hpos := List.length_pos_iff.mpr hbytes
            refine ⟨_, hparsed, fun hgone => ?_⟩
            exact hgone 0 (List.length_pos_iff.mpr hcstr) (by dsimp only; omega) rfl
          · exact ih hmem

/-- The length after a run is that of all that was read. -/
theorem len_after {w w' : World} {arrivals : List Arrival}
    (hrun : runAll (arrive env) arrivals w = .ok ⟨⟩ w') :
    w'.client.httpQuerybuf.len = w.client.httpQuerybuf.len +
      ((handled env arrivals w).map fun h => (bytesRead h.before h.arrival.input).length).sum := by
  induction arrivals generalizing w with
  | nil =>
      cases hrun
      rfl
  | cons a rest ih =>
      cases hstep : arrive env a w with
      | error e v =>
          rw [runAll_cons_error (arrive env) hstep] at hrun
          cases hrun
      | ok result v =>
          rw [runAll_cons_ok (arrive env) hstep] at hrun
          obtain ⟨hlen, -⟩ := arrive_buffer henv hstep
          rw [ih hrun, hlen, handled, hstep]
          simp only [List.map_cons, List.sum_cons]
          omega

/-- The invariant holds of the runs in which nothing is queued, and of no other. The buffer is as
long as all that was read from the connection. -/
theorem bufferInvariant_iff (server : Server) (arrivals : List Arrival) :
    (BufferInvariant env server arrivals ↔
      ∀ h ∈ handled env arrivals (.fresh server), h.after.out = h.before.out) ∧
    ∀ w, runAll (arrive env) arrivals (.fresh server) = .ok ⟨⟩ w →
      w.client.httpQuerybuf.len = ((handled env arrivals (.fresh server)).map fun h =>
        (bytesRead h.before h.arrival.input).length).sum := by
  refine ⟨⟨fun hinv h hmem => ?_, fun hnone h hmem hout => absurd (hnone h hmem) hout⟩, ?_⟩
  · by_contra hout
    obtain ⟨parsed, hparsed, hleft⟩ := not_requestGone henv hmem hout
    exact hleft ((hinv h hmem hout).1 parsed hparsed)
  · intro w hrun
    rw [len_after henv hrun]
    exact Nat.zero_add _

end Runs

/-! ## A connection that asks again and again -/

theorem sampleEnv_spares : sampleEnv.Spares requestBuffer where
  inline _ := rfl
  other _ _ := rfl
  memory _ := rfl

/-- The sample request on the empty blog. -/
def sampleArrival : Arrival := ⟨emptyServer, .filled (.filled 0 0), .data sampleRequest.text⟩

/-- The request is answered, and the client is ready for the next. -/
theorem arrive_sample {w : World} (hready : w.client.Ready) :
    ∃ w', arrive sampleEnv sampleArrival w = .ok ⟨⟩ w' ∧ w'.client.out ≠ w.client.out ∧
      w'.client.Ready := by
  obtain ⟨reply, hanswer, hresponse⟩ := answer_of_empty sampleExternal_pcreSpec
    emptyServer.publicDir sampleRequest
  obtain ⟨w', hrun, -, hout, hready'⟩ := process_request_returns sampleEnv sampleRequest
    (w := { w with server := emptyServer }) (.filled (.filled 0 0)) hready emptyServer_serving
    (fun _ => urlParts_of_hasBothFields sampleVisit_plain.plain.hasBothFields)
    (emptyServer_keeps _) hanswer
  refine ⟨w', hrun, fun hsame => ?_, hready'⟩
  rw [hout] at hsame
  exact hresponse.ne_nil (List.append_right_eq_self.mp hsame)

/-- One request is answered and stays in the buffer. -/
theorem bufferInvariant_sample : ¬ BufferInvariant sampleEnv emptyServer [sampleArrival] := by
  intro hinv
  obtain ⟨w, hrun, hout, -⟩ := @arrive_sample (.fresh emptyServer) (createClient_ready _)
  have hnone := (bufferInvariant_iff sampleEnv_spares emptyServer [sampleArrival]).1.mp hinv
  rw [handled, hrun] at hnone
  exact hout (hnone _ List.mem_cons_self)

theorem run_sample (n : Nat) {w : World} (hready : w.client.Ready) :
    ∃ w', runAll (arrive sampleEnv) (List.replicate n sampleArrival) w = .ok ⟨⟩ w' ∧
      w.client.httpQuerybuf.len + n ≤ w'.client.httpQuerybuf.len := by
  induction n generalizing w with
  | zero => exact ⟨w, rfl, Nat.le_refl _⟩
  | succ n ih =>
      obtain ⟨w₁, hrun, hout, hready₁⟩ := arrive_sample hready
      obtain ⟨hlen, hqueued⟩ := arrive_buffer sampleEnv_spares hrun
      have hpos := List.length_pos_iff.mpr (hqueued hout).2.1
      obtain ⟨w₂, hrest, hle⟩ := ih hready₁
      refine ⟨w₂, ?_, by omega⟩
      rw [List.replicate_succ, runAll_cons_ok (arrive sampleEnv) hrun]
      exact hrest

/-- The same request, answered often enough, makes the buffer longer than the limit. -/
theorem requestBuffer_outgrows :
    ∃ w, runAll (arrive sampleEnv) (List.replicate (clientMaxQuerybufLen + 1) sampleArrival)
        (.fresh emptyServer) = .ok ⟨⟩ w ∧
      clientMaxQuerybufLen < w.client.httpQuerybuf.len ∧
      ¬ BufferInvariant sampleEnv emptyServer
        (List.replicate (clientMaxQuerybufLen + 1) sampleArrival) := by
  obtain ⟨w, hrun, hlen⟩ :=
    @run_sample (clientMaxQuerybufLen + 1) (.fresh emptyServer) (createClient_ready _)
  refine ⟨w, hrun, by omega, fun hinv => ?_⟩
  obtain ⟨w₁, hfirst, hout, -⟩ := @arrive_sample (.fresh emptyServer) (createClient_ready _)
  have hmem : ⟨(World.fresh emptyServer).client, sampleArrival, w₁.client⟩ ∈
      handled sampleEnv (List.replicate (clientMaxQuerybufLen + 1) sampleArrival)
        (.fresh emptyServer) := by
    rw [List.replicate_succ, handled, hfirst]
    exact List.mem_cons_self
  obtain ⟨parsed, hparsed, hleft⟩ := not_requestGone sampleEnv_spares hmem hout
  exact hleft ((hinv _ hmem hout).1 parsed hparsed)

end Blogd
