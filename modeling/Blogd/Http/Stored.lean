import Blogd.Http.Success
import Blogd.Server.Sample

/-! # Stored content

What is stored under a key is looked up through the pointer field of its object and sent as a C
string. A value that reads as an integer is not stored as a string, and its pointer field is the
integer.
-/

namespace Blogd

/-- `executeRedisCommand({"set", key, value})` -/
def executeRedisSet (key value : Bytes) : Handler PUnit :=
  modify fun w => { w with server := { w.server with db := w.server.db.setCommand key value } }

/-- After a value was stored, looking its key up leaves no error and a pointer to the value, and a
response with that pointer is the value with its length. -/
def ServedBack (w : World) (key value : Bytes) : Prop :=
  ∃ w', (do executeRedisSet key value; getRedisNoReplyCommand key) w = .ok ⟨⟩ w' ∧
    w'.client.commandLastError = none ∧
    w'.client.commandLastReply = .str value ∧
    ∀ u : World, u.client.acceptsReply = true →
      responseHttp w'.client.commandLastReply (ascii "html") 200 u =
        .ok ⟨⟩ (u.mapClient fun c => { c with out := c.out ++ okResponse htmlType value })

/-! ## Sending -/

theorem addReply_accepted {u : World} (haccepts : u.client.acceptsReply = true) (s : Bytes) :
    addReply s u = .ok ⟨⟩ (u.mapClient fun c => { c with out := c.out ++ s }) := by
  simp only [addReply, modify_apply, World.mapClient, Client.addReplyString, haccepts, if_true]

/-- A response queues what it renders. -/
theorem responseHttp_accepted {u : World} (haccepts : u.client.acceptsReply = true)
    {content : CharPtr} {contentType bytes : Bytes} {code : Nat}
    (hrender : render content contentType code = .ok bytes) :
    responseHttp content contentType code u =
      .ok ⟨⟩ (u.mapClient fun c => { c with out := c.out ++ bytes }) := by
  cases hread : content.read with
  | error e =>
      rw [render, hread, error_bind] at hrender
      cases hrender
  | ok body =>
      cases hheaders : buildHttpHeaders contentType body.length code with
      | error e =>
          rw [render, hread, ok_bind, hheaders, error_bind] at hrender
          cases hrender
      | ok headers =>
          rw [render, hread, ok_bind, hheaders, ok_bind, pure_eq_ok, Except.ok.injEq] at hrender
          have hsecond := addReply_accepted
            (u := u.mapClient fun c => { c with out := c.out ++ headers }) haccepts body
          simp only [responseHttp, bind_apply, hread, lift_ok, hheaders,
            addReply_accepted haccepts, hsecond]
          simp only [World.mapClient, ← hrender, List.append_assoc]

/-- What a response queues is what it rendered. -/
theorem render_of_responseHttp {u : World} (hready : u.client.Ready) {content : CharPtr}
    {contentType bytes : Bytes} {code : Nat}
    (hresponse : responseHttp content contentType code u =
      .ok ⟨⟩ (u.mapClient fun c => { c with out := c.out ++ bytes })) :
    render content contentType code = .ok bytes := by
  have hanswers := responseHttp_answers hready content contentType code
  cases hrender : render content contentType code with
  | error e =>
      rw [hrender] at hanswers
      obtain ⟨u', hfault, -, -⟩ := hanswers
      rw [hresponse] at hfault
      cases hfault
  | ok rendered =>
      rw [hrender] at hanswers
      obtain ⟨u', hok, hserved⟩ := hanswers
      rw [hresponse] at hok
      cases hok
      have hout := hserved.out
      rw [World.mapClient_client, List.append_cancel_left_eq] at hout
      rw [hout]

/-! ## Storing and looking up -/

/-- A key that was just stored is found, whatever it held and whenever it would have expired. -/
theorem lookup_after_set (w : World) (key value : Bytes) :
    (do executeRedisSet key value; getRedisNoReplyCommand key : Handler PUnit) w =
      .ok ⟨⟩ { w with
        server := { w.server with db := w.server.db.setCommand key value }
        client := w.client.takeLookup (some (tryObjectEncoding value)) } := by
  have hexpires : (w.server.db.setCommand key value).expires key = none := if_pos rfl
  have hdict : (w.server.db.setCommand key value).dict key = some (tryObjectEncoding value) :=
    if_pos rfl
  simp only [executeRedisSet, bind_apply, modify_apply, getRedisNoReplyCommand, lookupKeyRead,
    hexpires, hdict]
  rfl

theorem tryObjectEncoding_of_not_integer {value : Bytes} (hvalue : readsInteger value = false) :
    tryObjectEncoding value = .string value := by
  rw [tryObjectEncoding]
  split
  next hlength =>
    rw [readsInteger, decide_eq_true hlength, Bool.true_and] at hvalue
    cases hread : string2ll value with
    | none => rfl
    | some n => rw [hread] at hvalue; cases hvalue
  next => rfl

theorem tryObjectEncoding_of_integer {value : Bytes} (hvalue : readsInteger value = true) :
    ∃ n, tryObjectEncoding value = .int n := by
  rw [readsInteger, Bool.and_eq_true, decide_eq_true_eq] at hvalue
  obtain ⟨n, hn⟩ := Option.isSome_iff_exists.mp hvalue.2
  exact ⟨n, by rw [tryObjectEncoding, if_pos hvalue.1, hn]⟩

/-- Stored content is served back exactly when it does not read as an integer and its length can
be printed. -/
theorem served_back_iff (w : World) (key : Bytes) {value : Bytes} (hnul : 0 ∉ value) :
    ServedBack w key value ↔ readsInteger value = false ∧ value.length < 10 ^ 9 := by
  unfold ServedBack
  rw [lookup_after_set]
  constructor
  · rintro ⟨w', hw', -, hreply, hsend⟩
    have hclient : w'.client = w.client.takeLookup (some (tryObjectEncoding value)) := by
      cases hw'
      rfl
    have hlength : value.length < 10 ^ 9 := by
      have hready : (⟨w.server, createClient 0, []⟩ : World).client.Ready := createClient_ready 0
      have hrender := render_of_responseHttp hready (hsend ⟨w.server, createClient 0, []⟩ rfl)
      exact (render_ok_iff.mp hrender).2
    cases hinteger : readsInteger value with
    | false => exact ⟨rfl, hlength⟩
    | true =>
        -- a number is kept in the pointer itself, which is not the text
        obtain ⟨n, hn⟩ := tryObjectEncoding_of_integer hinteger
        have hptr : (w.client.takeLookup (some (.int n))).commandLastReply = (Robj.int n).ptr := rfl
        rw [hclient, hn, hptr, Robj.ptr] at hreply
        split at hreply <;> cases hreply
  · rintro ⟨hinteger, hlength⟩
    have hreply : (w.client.takeLookup (some (tryObjectEncoding value))).commandLastReply =
        .str value := by
      rw [tryObjectEncoding_of_not_integer hinteger]
      exact congrArg CharPtr.str (cstr_eq_self hnul)
    refine ⟨_, rfl, ?_, hreply, ?_⟩
    · rw [tryObjectEncoding_of_not_integer hinteger]
      rfl
    · intro u haccepts
      rw [hreply]
      exact responseHttp_accepted haccepts (render_ok_iff.mpr ⟨rfl, hlength⟩)

/-- A text that is no number is served back. -/
theorem text_served_back :
    ServedBack ⟨sampleServer .empty [] fun _ => none, createClient 0, []⟩ (ascii "k")
      (ascii "01") :=
  (served_back_iff _ _ (by decide)).mpr (by decide)

/-- A number is not: its pointer field is the number. -/
theorem number_not_served_back :
    ¬ ServedBack ⟨sampleServer .empty [] fun _ => none, createClient 0, []⟩ (ascii "k")
      (ascii "12") := by
  rintro ⟨w', hw', -, hreply, -⟩
  rw [lookup_after_set] at hw'
  cases hw'
  exact absurd hreply (by decide)

end Blogd
