import Blogd.Foundation.Channel
import Blogd.Http.Refinement
import Blogd.Redis.Output

/-! # Transmission

Responses are queued on any number of connections, while the content is reloaded and the sockets
take what they like. Seen from outside, each connection is a channel. Queuing copies the bytes of
a response, so that a later reload does not reach them.
-/

namespace Blogd

/-! ## Queuing a response piece by piece -/

namespace Output

/-- `addReplyString` as a step of a program. -/
def queueString (s : Bytes) : EStateM Fault Output PUnit := modify (·.addReplyString s)

/-- `responseHttp` on the output buffers. -/
def responseHttp (content : CharPtr) (contentType : Bytes) (code : Nat) :
    EStateM Fault Output PUnit := do
  let body ← lift content.read
  let headers ← lift (buildHttpHeaders contentType body.length code)
  queueString headers
  queueString body

/-- The loop that sends a file, on the output buffers. -/
def sendFile : List FileRead → EStateM Fault Output PUnit
  | [] => pure ⟨⟩
  | .error :: _ => throw .overflow
  | .data bytes :: rest => do
      if bytes = [] then pure ⟨⟩
      else
        queueString bytes
        sendFile rest

/-- `responseHttpFile` on the output buffers. A file that cannot be opened is answered with the
error page that is stored. -/
def responseHttpFile (server : Server) (stem ext : Bytes) : EStateM Fault Output PUnit :=
  match server.files (server.publicDir ++ stem ++ ascii "." ++ ext) with
  | none => responseHttp (errorReply (server.db.dict errorKey)) (ascii "html") 404
  | some file => do
      let headers ← lift (buildHttpHeaders ext file.stSize 200)
      queueString headers
      sendFile file.reads

/-- A program puts a text behind what is pending, or stops with the fault. -/
def Queues (program : EStateM Fault Output PUnit) : Except Fault Bytes → Prop
  | .ok bytes => ∀ o : Output, o.Valid →
      ∃ o', program o = .ok ⟨⟩ o' ∧ o'.Valid ∧ o'.pending = o.pending ++ bytes
  | .error e => ∀ o : Output, o.Valid → ∃ o', program o = .error e o'

theorem queueString_queues (s : Bytes) : Queues (queueString s) (.ok s) := by
  intro o ho
  obtain ⟨hvalid, hpending⟩ := addReplyString_spec ho s
  exact ⟨o.addReplyString s, rfl, hvalid, hpending⟩

theorem Queues.bind {first second : EStateM Fault Output PUnit} {bytes : Bytes}
    {text : Except Fault Bytes} (hfirst : Queues first (.ok bytes)) (hsecond : Queues second text) :
    Queues (do first; second) (text.map (bytes ++ ·)) := by
  cases text with
  | error e =>
      intro o ho
      obtain ⟨o₁, hrun, hvalid, -⟩ := hfirst o ho
      obtain ⟨o₂, hfault⟩ := hsecond o₁ hvalid
      exact ⟨o₂, by rw [bind_apply, hrun]; exact hfault⟩
  | ok more =>
      intro o ho
      obtain ⟨o₁, hrun, hvalid, hpending⟩ := hfirst o ho
      obtain ⟨o₂, hrun₂, hvalid₂, hpending₂⟩ := hsecond o₁ hvalid
      refine ⟨o₂, by rw [bind_apply, hrun]; exact hrun₂, hvalid₂, ?_⟩
      rw [hpending₂, hpending, List.append_assoc]

theorem responseHttp_queues (content : CharPtr) (contentType : Bytes) (code : Nat) :
    Queues (responseHttp content contentType code) (render content contentType code) := by
  cases hread : content.read with
  | error e =>
      simp only [render, hread, error_bind]
      intro o _
      exact ⟨o, by simp only [responseHttp, bind_apply, hread, lift_error]⟩
  | ok body =>
      cases hheaders : buildHttpHeaders contentType body.length code with
      | error e =>
          simp only [render, hread, ok_bind, hheaders, error_bind]
          intro o _
          exact ⟨o, by simp only [responseHttp, bind_apply, hread, lift_ok, hheaders, lift_error]⟩
      | ok headers =>
          simp only [render, hread, ok_bind, hheaders]
          have hqueues := (queueString_queues headers).bind (queueString_queues body)
          intro o ho
          simp only [responseHttp, bind_apply, hread, lift_ok, hheaders]
          exact hqueues o ho

theorem sendFile_queues (reads : List FileRead) : Queues (sendFile reads) (readAll reads) := by
  induction reads with
  | nil => exact fun o ho => ⟨o, rfl, ho, (List.append_nil _).symm⟩
  | cons read rest ih =>
      cases read with
      | error => exact fun o _ => ⟨o, rfl⟩
      | data bytes =>
          rw [sendFile, readAll]
          by_cases hbytes : bytes = []
          · rw [if_pos hbytes, if_pos hbytes]
            exact fun o ho => ⟨o, rfl, ho, (List.append_nil _).symm⟩
          · rw [if_neg hbytes, if_neg hbytes]
            have hqueues := (queueString_queues bytes).bind ih
            cases hrest : readAll rest with
            | error e => rwa [hrest] at hqueues
            | ok more => rwa [hrest] at hqueues

theorem responseHttpFile_queues (server : Server) (stem ext : Bytes) :
    Queues (responseHttpFile server stem ext) (server.site.answerFile stem ext) := by
  have hsite : server.site.files (server.site.publicDir ++ stem ++ ascii "." ++ ext) =
      server.files (server.publicDir ++ stem ++ ascii "." ++ ext) := rfl
  rw [responseHttpFile, Site.answerFile, hsite]
  cases server.files (server.publicDir ++ stem ++ ascii "." ++ ext) with
  | none => exact responseHttp_queues _ _ _
  | some file =>
      cases hheaders : buildHttpHeaders ext file.stSize 200 with
      | error e =>
          simp only [hheaders, error_bind]
          intro o _
          exact ⟨o, by rw [bind_apply, lift_error]⟩
      | ok headers =>
          have hqueues := (queueString_queues headers).bind (sendFile_queues file.reads)
          simp only [hheaders, ok_bind]
          cases hbody : readAll file.reads with
          | error e =>
              rw [hbody] at hqueues
              exact hqueues
          | ok body =>
              rw [hbody] at hqueues
              exact hqueues

end Output

/-- On a client that is ready, the handler queues what the output buffers take: `out` is what was
sent and what is pending. -/
theorem responseHttp_represented {w : World} (hready : w.client.Ready) {o : Output} (ho : o.Valid)
    {sent : Bytes} (hout : w.client.out = sent ++ o.pending) {content : CharPtr}
    {contentType : Bytes} {code : Nat} {w' : World}
    (hrun : responseHttp content contentType code w = .ok ⟨⟩ w') :
    ∃ o', Output.responseHttp content contentType code o = .ok ⟨⟩ o' ∧ o'.Valid ∧
      w'.client.out = sent ++ o'.pending := by
  have hanswers := responseHttp_answers hready content contentType code
  have hqueues := Output.responseHttp_queues content contentType code
  cases hrender : render content contentType code with
  | error e =>
      rw [hrender] at hanswers
      obtain ⟨v, hfault, -⟩ := hanswers
      cases hfault.symm.trans hrun
  | ok bytes =>
      rw [hrender] at hanswers hqueues
      obtain ⟨v, hok, hserved⟩ := hanswers
      rw [hok, EStateM.Result.ok.injEq] at hrun
      obtain ⟨-, rfl⟩ := hrun
      obtain ⟨o', hqueued, hvalid, hpending⟩ := hqueues o ho
      exact ⟨o', hqueued, hvalid, by rw [hserved.out, hout, hpending, List.append_assoc]⟩

/-! ## Connections -/

/-- What is queued: a content that is read from the store as it is then, or a file. -/
inductive Response
  | http (content : Db → CharPtr) (contentType : Bytes) (code : Nat)
  | file (stem ext : Bytes)

namespace Response

/-- The response as it is computed from the server. -/
def text (server : Server) : Response → Except Fault Bytes
  | .http content contentType code => render (content server.db) contentType code
  | .file stem ext => server.site.answerFile stem ext

def queue (server : Server) : Response → EStateM Fault Output PUnit
  | .http content contentType code => Output.responseHttp (content server.db) contentType code
  | .file stem ext => Output.responseHttpFile server stem ext

theorem queue_queues (server : Server) (response : Response) :
    Output.Queues (response.queue server) (response.text server) := by
  cases response with
  | http content contentType code => exact Output.responseHttp_queues _ _ _
  | file stem ext => exact Output.responseHttpFile_queues server stem ext

end Response

/-- A connection: its output buffers, all that its socket accepted, and the responses that were
queued on it, each as it was computed then. -/
structure Connection where
  output : Output
  sent : Bytes
  responses : List Bytes
  freed : Bool

/-- The output buffers hold what is pending on a channel. A connection that was freed has only
its past. -/
structure Connection.Carries (c : Connection) (channel : Channel UInt8) : Prop where
  sent : channel.sent = c.sent
  queued : channel.queued = c.responses.flatten
  live : c.freed = false → c.output.Valid ∧ channel.pending = c.output.pending

/-- A response is pushed to the channel. -/
theorem Connection.Carries.push {c : Connection} {channel : Channel UInt8}
    (hc : c.Carries channel) {output : Output} {bytes : Bytes} (hvalid : output.Valid)
    (hfreed : c.freed = false) (hpending : output.pending = c.output.pending ++ bytes) :
    ({ c with output := output, responses := c.responses ++ [bytes] } : Connection).Carries
      (channel.push bytes) where
  sent := hc.sent
  queued := by
    change channel.queued ++ bytes = (c.responses ++ [bytes]).flatten
    rw [hc.queued, List.flatten_concat]
  live _ := ⟨hvalid, by rw [Channel.pending_push, (hc.live hfreed).2, hpending]⟩

/-! ## Runs -/

structure Transmission where
  server : Server
  connections : Nat → Connection

/-- What happens next: a response is queued, the content is reloaded, the files or the content
directory change, or a connection is written to. -/
inductive TransmissionStep
  | respond (slot : Nat) (response : Response)
  | reload
  | surroundings (files : Bytes → Option OpenFile) (contentDir : ContentDir)
  | write (slot : Nat) (turns : List Output.Turn)

namespace Transmission

/-- New connections, on a server. -/
def start (server : Server) : Transmission := ⟨server, fun _ => ⟨.empty, [], [], false⟩⟩

def put (s : Transmission) (slot : Nat) (c : Connection) : Transmission :=
  { s with connections := fun i => if i = slot then c else s.connections i }

/-- One step. A connection that was freed is left alone. -/
def step (ext : External) : TransmissionStep → EStateM Fault Transmission PUnit
  | .respond slot response => do
      let s ← get
      let c := s.connections slot
      if c.freed then return
      match response.queue s.server c.output with
      | .ok _ output =>
          set (s.put slot { c with
            output := output
            responses := c.responses ++ (response.text s.server).toOption.toList })
      | .error e output => do
          set (s.put slot { c with output := output })
          throw e
  | .reload => do
      let s ← get
      match initContents ext s.server.contentOptions s.server.contentDir [] with
      | .ok _ commands =>
          set { s with server := { s.server with db := s.server.db.setAll commands } }
      | .error e commands => do
          set { s with server := { s.server with db := s.server.db.setAll commands } }
          throw e
  | .surroundings files contentDir =>
      modify fun s => { s with
        server := { s.server with files := files, contentDir := contentDir } }
  | .write slot turns => do
      let s ← get
      let c := s.connections slot
      if c.freed then return
      let written ← lift (Output.writeToClient s.server.maxmemory turns c.output)
      set (s.put slot { c with
        output := written.output
        sent := c.sent ++ written.sent
        freed := written.freed })

/-- Every connection carries a channel. -/
def Inv (s : Transmission) : Prop := ∀ slot, ∃ channel, (s.connections slot).Carries channel

/-- Every connection has sent a front part of its responses. -/
def InOrder (s : Transmission) : Prop :=
  ∀ slot, (s.connections slot).sent <+: (s.connections slot).responses.flatten

theorem Inv.inOrder {s : Transmission} (hs : s.Inv) : s.InOrder := by
  intro slot
  obtain ⟨channel, hchannel⟩ := hs slot
  rw [← hchannel.sent, ← hchannel.queued]
  exact channel.sent_queued

theorem inv_start (server : Server) : (start server).Inv :=
  fun _ => ⟨.idle, rfl, rfl, fun _ => ⟨⟨Nat.zero_le _, .inl rfl⟩, rfl⟩⟩

theorem Inv.put {s : Transmission} (hs : s.Inv) {slot : Nat} {c : Connection}
    {channel : Channel UInt8} (hc : c.Carries channel) : (s.put slot c).Inv := by
  intro i
  by_cases hi : i = slot
  · exact ⟨channel, by simpa only [Transmission.put, if_pos hi] using hc⟩
  · obtain ⟨other, hother⟩ := hs i
    exact ⟨other, by simpa only [Transmission.put, if_neg hi] using hother⟩

variable (ext : External)

/-- A response that cannot be computed, or a reload that does not return. -/
def Stops (server : Server) (e : Fault) : TransmissionStep → Prop
  | .respond _ response => response.text server = .error e
  | .reload => ∃ commands,
      initContents ext server.contentOptions server.contentDir [] = .error e commands
  | .surroundings _ _ => False
  | .write _ _ => False

/-- Each step pushes a response to one of the channels, or transmits on one, or touches none. No
step stops in the output buffers, and what was sent stays sent. -/
theorem step_spec (next : TransmissionStep) {s : Transmission} (hs : s.Inv) :
    match step ext next s with
    | .ok _ t => t.Inv
    | .error e t => t.InOrder ∧ Stops ext s.server e next := by
  cases next with
  | surroundings files contentDir => exact hs
  | reload =>
      simp only [step, bind_apply, get_apply]
      cases hreload : initContents ext s.server.contentOptions s.server.contentDir [] with
      | error e commands => exact ⟨hs.inOrder, commands, hreload⟩
      | ok a commands => exact hs
  | respond slot response =>
      obtain ⟨channel, hchannel⟩ := hs slot
      simp only [step, bind_apply, get_apply]
      cases hfreed : (s.connections slot).freed with
      | true => exact hs
      | false =>
          obtain ⟨hvalid, -⟩ := hchannel.live hfreed
          have hqueues := response.queue_queues s.server
          cases htext : response.text s.server with
          | error e =>
              rw [htext] at hqueues
              obtain ⟨output, hfault⟩ := hqueues _ hvalid
              simp only [hfault, Bool.false_eq_true, if_false]
              -- the fault leaves part of a response queued, and what was sent is not touched
              refine ⟨fun i => ?_, htext⟩
              have horder := hs.inOrder i
              by_cases hi : i = slot
              · subst hi
                simpa only [Transmission.put, if_true] using horder
              · simpa only [Transmission.put, if_neg hi] using horder
          | ok bytes =>
              rw [htext] at hqueues
              obtain ⟨output, hqueued, hvalid', hpending⟩ := hqueues _ hvalid
              have hpush := hchannel.push hvalid' hfreed hpending
              rw [hfreed] at hpush
              simp only [hqueued, Bool.false_eq_true, if_false]
              exact hs.put hpush
  | write slot turns =>
      obtain ⟨channel, hchannel⟩ := hs slot
      simp only [step, bind_apply, get_apply]
      cases hfreed : (s.connections slot).freed with
      | true => exact hs
      | false =>
          obtain ⟨hvalid, hpending⟩ := hchannel.live hfreed
          obtain ⟨written, hwrite, hvalid', hsent⟩ :=
            Output.writeToClient_spec s.server.maxmemory turns hvalid
          rw [← hpending] at hsent
          simp only [Bool.false_eq_true, if_false, bind_apply, hwrite, lift_ok, set_apply]
          refine @Inv.put s hs slot _ (channel.transmit hsent) ⟨?_, hchannel.queued, fun _ => ?_⟩
          · exact congrArg (· ++ written.sent) hchannel.sent
          · exact ⟨hvalid', Channel.pending_transmit channel hsent⟩

theorem step_ok (next : TransmissionStep) (s t : Transmission) (hs : s.Inv)
    (hstep : step ext next s = .ok ⟨⟩ t) : t.Inv := by
  have hspec := step_spec ext next hs
  rwa [hstep] at hspec

theorem step_error (next : TransmissionStep) (s : Transmission) (e : Fault) (t : Transmission)
    (hs : s.Inv) (hstep : step ext next s = .error e t) :
    t.InOrder ∧ Stops ext s.server e next := by
  have hspec := step_spec ext next hs
  rwa [hstep] at hspec

/-- However responses, reloads and writes follow one another, each connection has sent a front
part of its responses, and all of them once nothing is pending. A run stops only in a response
that cannot be computed or in a reload. -/
theorem responses_delivered (server : Server) (steps : List TransmissionStep) :
    (∃ s, runAll (step ext) steps (start server) = .ok ⟨⟩ s ∧ s.InOrder ∧
      ∀ slot, (s.connections slot).freed = false →
        (s.connections slot).output.clientHasPendingReplies = false →
        (s.connections slot).sent = (s.connections slot).responses.flatten) ∨
    ∃ e s, runAll (step ext) steps (start server) = .error e s ∧ s.InOrder ∧
      ∃ next ∈ steps, ∃ server', Stops ext server' e next := by
  rcases runAll_induction (step_ok ext) (fun i s e t hs h => (step_error ext i s e t hs h).1)
    steps (start server) (inv_start server) with ⟨s, hrun, hs⟩ | ⟨e, s, hrun, horder⟩
  · refine .inl ⟨s, hrun, hs.inOrder, fun slot hfreed hnone => ?_⟩
    obtain ⟨channel, hchannel⟩ := hs slot
    obtain ⟨-, hpending⟩ := hchannel.live hfreed
    rw [Output.pending_eq_nil hnone] at hpending
    rw [← hchannel.sent, ← hchannel.queued]
    exact Channel.sent_eq_queued hpending
  · obtain ⟨next, hnext, s', hs', hfault⟩ :=
      exists_of_runAll_error (step_ok ext) (inv_start server) hrun
    exact .inr ⟨e, s, hrun, horder, next, hnext, s'.server, (step_error ext _ _ _ _ hs' hfault).2⟩

end Transmission

end Blogd
