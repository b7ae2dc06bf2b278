import Blogd.Http.Process

/-! # What a request leaves alone

Answering a request looks keys up and queues a response. Of the client this changes neither the
buffer that the request was read into, nor what the last lookup left, unless a lookup is executed.
Statements that speak about these parts only hold from one request to the next.
-/

namespace Blogd

/-- The request buffer and what the last lookup left. -/
def Client.kept (c : Client) : Sds × Option Bytes × CharPtr :=
  (c.httpQuerybuf, c.commandLastError, c.commandLastReply)

/-- A statement about these, the lookups that were executed and the files that were opened. -/
structure Framed (Inv : World → Prop) : Prop where
  client : ∀ (w : World) (c : Client), c.kept = w.client.kept → Inv w → Inv { w with client := c }
  server : ∀ (w : World) (s : Server), Inv w → Inv { w with server := s }
  record : ∀ (w : World) (event : Event), (∀ path, event ≠ .opened path) → Inv w →
    Inv (w.record event)
  execute : ∀ (w : World) (argv : List Bytes) (found : Option Robj), Inv w →
    Inv ((w.record (.exec argv)).mapClient (·.takeLookup found))

/-- The parts of Redis that serve other commands leave a part of the state alone. -/
structure Env.Spares {π : Type} (env : Env) (part : World → π) : Prop where
  inline : Preserves part env.processInlineBuffer
  other : ∀ argv, Preserves part (env.otherCommand argv)
  memory : Preserves part env.freeMemoryIfNeeded

/-- The parts of Redis that serve other commands maintain a statement. -/
structure Env.Maintains (env : Env) (Inv : World → Prop) : Prop where
  inline : Blogd.Maintains Inv env.processInlineBuffer
  other : ∀ argv, Blogd.Maintains Inv (env.otherCommand argv)
  memory : Blogd.Maintains Inv env.freeMemoryIfNeeded

theorem Env.Spares.maintains {π : Type} {env : Env} {part : World → π} (henv : env.Spares part)
    (holds : π → Prop) : env.Maintains fun w => holds (part w) where
  inline := henv.inline.maintains holds
  other argv := (henv.other argv).maintains holds
  memory := henv.memory.maintains holds

/-! ## The client -/

section Client

variable (c : Client)

@[simp] theorem addReplyString_kept (s : Bytes) : (c.addReplyString s).kept = c.kept := by
  unfold Client.addReplyString
  split <;> rfl

@[simp] theorem addReplyError_kept (err : Bytes) : (c.addReplyError err).kept = c.kept :=
  addReplyString_kept c _

@[simp] theorem addReplyErrorFormat_kept (err : Bytes) :
    (c.addReplyErrorFormat err).kept = c.kept := addReplyError_kept c _

@[simp] theorem setProtocolError_kept (pos : Nat) : (setProtocolError c pos).kept = c.kept := rfl

@[simp] theorem determineReqtype_kept : (determineReqtype c).kept = c.kept := by
  unfold determineReqtype
  split <;> rfl

/-- The client of a round of the argument loop. -/
def BulkStep.client : BulkStep → Client
  | .next c _ => c
  | .wait c _ => c
  | .fail c => c

theorem readBulkLength_kept (junk : Nat → UInt8) (pos : Nat) :
    (readBulkLength junk c pos).client.kept = c.kept := by
  unfold readBulkLength
  repeat' split
  all_goals first
    | rfl
    | simp [BulkStep.client]

theorem readBulkArgument_kept (pos bulklen : Nat) :
    (readBulkArgument c pos bulklen).client.kept = c.kept := by
  unfold readBulkArgument
  repeat' split
  all_goals rfl

theorem readBulk_kept (junk : Nat → UInt8) (pos : Nat) :
    (readBulk junk c pos).client.kept = c.kept := by
  unfold readBulk
  cases c.bulklen with
  | some bulklen => exact readBulkArgument_kept c pos bulklen
  | none =>
      have hlength := readBulkLength_kept c junk pos
      cases hstep : readBulkLength junk c pos with
      | next c' pos' =>
          rw [hstep] at hlength
          cases hbulklen : c'.bulklen with
          | none =>
              simp only [hbulklen]
              exact hlength
          | some bulklen =>
              simp only [hbulklen]
              exact (readBulkArgument_kept c' pos' bulklen).trans hlength
      | wait c' pos' => rwa [hstep] at hlength
      | fail c' => rwa [hstep] at hlength

theorem readBulks_kept (junk : Nat → UInt8) (missing pos : Nat) :
    (readBulks junk missing c pos).client.kept = c.kept := by
  induction missing generalizing c pos with
  | zero => rfl
  | succ missing ih =>
      have hround := readBulk_kept c junk pos
      rw [readBulks]
      cases hstep : readBulk junk c pos with
      | next c' pos' =>
          rw [hstep] at hround
          exact (ih c' pos').trans hround
      | wait c' pos' => rwa [hstep] at hround
      | fail c' => rwa [hstep] at hround

theorem finishMultibulk_kept (step : BulkStep) :
    (finishMultibulk step).1.kept = step.client.kept := by
  cases step with
  | fail c => rfl
  | wait c pos =>
      simp only [finishMultibulk]
      split <;> rfl
  | next c pos =>
      simp only [finishMultibulk]
      split <;> rfl

theorem processMultibulkBuffer_kept {junk : Nat → UInt8} {c' : Client} {complete : Bool}
    (hrun : processMultibulkBuffer junk c = .ok (c', complete)) : c'.kept = c.kept := by
  have hfinish : ∀ (d : Client) (missing pos : Nat), d.kept = c.kept →
      finishMultibulk (readBulks junk missing d pos) = (c', complete) → c'.kept = c.kept := by
    intro d missing pos hd hdone
    have hclient := finishMultibulk_kept (readBulks junk missing d pos)
    rw [hdone, readBulks_kept] at hclient
    exact hclient.trans hd
  unfold processMultibulkBuffer at hrun
  repeat' split at hrun
  all_goals first
    | cases hrun
    | exact hfinish _ _ _ (by rfl) (Except.ok.inj hrun)
  all_goals first
    | rfl
    | simp

end Client

/-! ## Lookups -/

section Frame

variable {Inv : World → Prop} (hframed : Framed Inv)

include hframed

theorem Framed.mapClient {f : Client → Client} (hf : ∀ c, (f c).kept = c.kept) :
    Maintains Inv (modify fun w => w.mapClient f : Handler PUnit) :=
  .modify fun w => hframed.client w _ (hf w.client)

theorem Framed.recordEvent {f : World → Event} (hf : ∀ w path, f w ≠ .opened path) :
    Maintains Inv (modify fun w => w.record (f w) : Handler PUnit) :=
  .modify fun w => hframed.record w _ (hf w)

theorem addReply_maintains (s : Bytes) : Maintains Inv (addReply s) :=
  hframed.mapClient fun c => addReplyString_kept c s

theorem flagTransaction_maintains : Maintains Inv flagTransaction :=
  hframed.mapClient fun _ => rfl

/-- A lookup is recorded as executed before it leaves its result. -/
theorem executeLookup_maintains (argv : List Bytes) : Maintains Inv (executeLookup argv) := by
  refine .bind .get fun w => .ite ?_ ?_
  · exact .bind (hframed.mapClient fun _ => rfl) fun _ => addReply_maintains hframed _
  · intro v hv
    rw [bind_apply, modify_apply, getRedisNoReplyCommand]
    dsimp only [modify_apply, stateOf]
    generalize (lookupKeyRead (v.record (.exec argv)) (argv.getD 1 [])).2 = found
    have hexecuted := hframed.execute v argv found hv
    unfold lookupKeyRead
    repeat' split
    all_goals first
      | exact hexecuted
      | exact hframed.server _ _ hexecuted

variable {env : Env} (henv : env.Maintains Inv)

include henv

theorem processCommand_maintains (argv : List Bytes) :
    Maintains Inv (processCommand env argv) := by
  refine .bind (hframed.recordEvent fun _ _ => Event.noConfusion) fun _ =>
    .ite ?_ (.ite (henv.other argv) ?_)
  · exact .bind (addReply_maintains hframed _) fun _ =>
      .bind (hframed.mapClient fun _ => rfl) fun _ => .pure _
  refine .bind .get fun w => ?_
  cases refusal env w argv with
  | some err =>
      exact .bind (flagTransaction_maintains hframed) fun _ =>
        .bind (addReply_maintains hframed _) fun _ => .pure _
  | none =>
      refine .bind .get fun w => .ite (.bind henv.memory fun _ => ?_) ?_
      -- the same checks follow whether memory was freed or not
      all_goals
        refine .bind .get fun w => .ite (.pure _) (.bind .get fun w => ?_)
        cases lateRefusal w with
        | none => exact .bind (executeLookup_maintains hframed argv) fun _ => .pure _
        | some late =>
            obtain ⟨flags, err⟩ := late
            refine .ite ?_ ?_
            · exact .bind (flagTransaction_maintains hframed) fun _ =>
                .bind (addReply_maintains hframed _) fun _ => .pure _
            · exact .bind (addReply_maintains hframed _) fun _ => .pure _

variable (junk : Nat → UInt8) (readlen qblen : Nat)

theorem decodeCommand_maintains : Maintains Inv (decodeCommand env junk) := by
  refine .of_get fun w hw => ?_
  cases w.client.reqtype with
  | none => exact henv.inline w hw
  | inline => exact henv.inline w hw
  | multibulk =>
      cases hrun : processMultibulkBuffer junk w.client with
      | error e => exact hw
      | ok decoded => exact hframed.client w _ (processMultibulkBuffer_kept w.client hrun) hw

theorem processInputLoop_maintains (fuel : Nat) :
    Maintains Inv (processInputLoop env junk fuel) := by
  induction fuel with
  | zero => exact .bind .get fun w => .ite (.throw _) (.pure _)
  | succ fuel ih =>
      have hreset := @Framed.mapClient Inv hframed resetClient fun _ => rfl
      have hround : Maintains Inv (do
          if ← decodeCommand env junk then
            let argv := (← get).client.argv
            if argv = [] then
              modify fun w => w.mapClient resetClient
              processInputLoop env junk fuel
            else
              if ← processCommand env argv then modify fun w => w.mapClient resetClient
              if (← get).client.freed then return
              processInputLoop env junk fuel : Handler PUnit) := by
        refine .bind (decodeCommand_maintains hframed henv junk) fun decoded => .ite ?_ (.pure _)
        refine .bind .get fun w => .ite (.bind hreset fun _ => ih) ?_
        refine .bind (processCommand_maintains hframed henv _) fun done => .ite ?_ ?_
        · exact .bind hreset fun _ => .bind .get fun w => .ite (.pure _) ih
        · exact .bind .get fun w => .ite (.pure _) ih
      refine .of_get fun w hw => ?_
      repeat' split
      all_goals try exact hw
      exact hround _ (hframed.client w _ (determineReqtype_kept w.client) hw)

theorem callRedisCommand_maintains (argvs : List Bytes) :
    Maintains Inv (callRedisCommand env junk readlen qblen argvs) := by
  refine .bind (hframed.recordEvent fun _ _ => Event.noConfusion) fun _ =>
    .bind (.lift _) fun cmd => .of_get fun w hw => ?_
  cases hwrite : (w.client.querybuf.makeRoomFor junk readlen).write qblen (cstr cmd ++ [0]) with
  | error e => exact hw
  | ok written =>
      cases hincr : written.incrLen cmd.length with
      | error e =>
          simp only [bind_apply, lift_ok, hincr]
          exact hw
      | ok querybuf =>
          have hrest : Maintains Inv (do
              if querybuf.len > clientMaxQuerybufLen then
                modify fun w => w.mapClient fun c => { c with freed := true }
                throw .freed
              processInputBuffer env junk
              modify fun w => w.record (.ret w.client.querybuf.content) : Handler PUnit) := by
            refine .ite (.bind (hframed.mapClient fun _ => rfl) fun _ =>
              .bind (.throw _) fun _ => ?_) ?_
            all_goals
              refine .bind (.bind .get fun w => ?_) fun _ =>
                hframed.recordEvent fun _ _ => Event.noConfusion
              exact processInputLoop_maintains hframed henv junk _
          simp only [bind_apply, lift_ok, hincr, set_apply]
          refine hrest _ (hframed.client w _ ?_ hw)
          rfl

/-! ## Responses -/

omit henv in
theorem responseHttp_maintains (content : CharPtr) (contentType : Bytes) (code : Nat) :
    Maintains Inv (responseHttp content contentType code) :=
  .bind (.lift _) fun _ => .bind (.lift _) fun _ =>
    .bind (addReply_maintains hframed _) fun _ => addReply_maintains hframed _

theorem responseHttpError_maintains (code : Nat) :
    Maintains Inv (responseHttpError env junk readlen qblen code) :=
  .bind (.lift _) fun _ =>
    .bind (callRedisCommand_maintains hframed henv junk readlen qblen _) fun _ =>
      .bind .get fun _ => responseHttp_maintains hframed _ _ _

theorem responseHttpKey_maintains (key : Bytes) :
    Maintains Inv (responseHttpKey env junk readlen qblen key) := by
  refine .bind (callRedisCommand_maintains hframed henv junk readlen qblen _) fun _ =>
    .bind .get fun w => ?_
  cases hlast : w.client.commandLastError with
  | some err =>
      simp only [hlast]
      exact responseHttpError_maintains hframed henv junk readlen qblen 404
  | none =>
      simp only [hlast]
      exact responseHttp_maintains hframed _ _ _

omit henv in
theorem sendFile_maintains (reads : List FileRead) : Maintains Inv (sendFile reads) := by
  induction reads with
  | nil => exact .pure _
  | cons read reads ih =>
      cases read with
      | error => exact .bind .get fun _ => .ite (.bind (.throw _) fun _ => ih) ih
      | data bytes => exact .ite (.pure _) (.bind (addReply_maintains hframed _) fun _ => ih)

/-- What comes behind the attempt to open a file. -/
theorem openedFile_maintains (path ext : Bytes) :
    Maintains Inv (do
      match (← get).server.files path with
      | none => responseHttpError env junk readlen qblen 404
      | some file => do
          let headers ← lift (buildHttpHeaders ext file.stSize 200)
          addReply headers
          sendFile file.reads : Handler PUnit) := by
  refine .bind .get fun v => ?_
  cases v.server.files path with
  | none => exact responseHttpError_maintains hframed henv junk readlen qblen 404
  | some file =>
      exact .bind (.lift _) fun _ =>
        .bind (addReply_maintains hframed _) fun _ => sendFile_maintains hframed _

omit henv in
theorem reloadContent_maintains (urlQuery : Bytes) :
    Maintains Inv (reloadContent env urlQuery) := by
  have hinit : Maintains Inv (runInitContents env) := by
    refine .of_get fun w hw => ?_
    cases initContents env.toExternal w.server.contentOptions w.server.contentDir [] with
    | ok a commands => exact hframed.server w _ hw
    | error e commands => exact hframed.server w _ hw
  refine .bind .get fun w => ?_
  cases w.server.reloadContentQuery with
  | none => exact .throw _
  | some pattern =>
      refine .bind (.lift _) fun found => ?_
      cases found with
      | none => exact .pure _
      | some texts =>
          exact .bind (hframed.recordEvent fun _ _ => Event.noConfusion) fun _ => hinit

/-! ## Requests -/

variable (hopened : ∀ (w : World) (path : Bytes), Inv w → Inv (w.record (.opened path)))

include hopened

theorem routeRequest_maintains (urlPath : Bytes) :
    Maintains Inv (routeRequest env junk readlen qblen urlPath) := by
  have hkey := responseHttpKey_maintains hframed henv junk readlen qblen
  refine .bind (.lift _) fun route => ?_
  rcases route with _ | ⟨callback, found⟩
  · exact responseHttpError_maintains hframed henv junk readlen qblen 404
  refine .bind (hframed.recordEvent fun _ _ => Event.noConfusion) fun _ => ?_
  cases callback with
  | index => exact hkey _
  | page => exact .bind (.lift _) fun _ => hkey _
  | content => exact .bind (.lift _) fun _ => hkey _
  | file =>
      refine .bind (.lift _) fun stem => .bind (.lift _) fun ext => .bind .get fun w =>
        .bind (.modify fun w hw => hopened w _ hw) fun _ => ?_
      exact openedFile_maintains hframed henv junk readlen qblen _ _

/-- Answering a request whose header was parsed. -/
theorem answerHeader_maintains (u : HttpParserUrl) (header : RequestHeader) :
    Maintains Inv (answerHeader env junk readlen qblen u header) := by
  have hbad := responseHttp_maintains hframed (.str []) [] 400
  refine .bind (.lift _) fun method => .ite (.bind (.lift _) fun uri => ?_) hbad
  unfold answerUrl
  cases httpParserParseUrl (cstr (uri.take header.requestURILen)) u with
  | none => exact hbad
  | some u' =>
      refine .bind (.lift _) fun parts => ?_
      exact .bind (reloadContent_maintains hframed _) fun _ =>
        routeRequest_maintains hframed henv junk readlen qblen hopened _

end Frame

end Blogd
