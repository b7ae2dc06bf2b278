import Blogd.Foundation.Fault

/-! # The output buffers of a client

What is queued for a client goes into a fixed buffer as long as it fits, and then into a list of
string objects. One counter tells how much was already sent of the buffer or, when the buffer is
empty, of the first object. The socket takes as much as it likes.
-/

namespace Blogd

def protoReplyChunkBytes : Nat := 16 * 1024
def netMaxWritesPerEvent : Nat := 1024 * 64
def objEncodingEmbstrSizeLimit : Nat := 44

inductive ReplyEncoding
  | raw
  | embstr
deriving DecidableEq, Repr

structure ReplyObject where
  encoding : ReplyEncoding
  text : Bytes
deriving DecidableEq, Repr

/-- `createStringObject` -/
def createStringObject (s : Bytes) : ReplyObject :=
  ⟨if s.length ≤ objEncodingEmbstrSizeLimit then .embstr else .raw, s⟩

/-- `buf` holds the first `bufpos` bytes of the fixed buffer. -/
structure Output where
  buf : Bytes
  sentlen : Nat
  reply : List ReplyObject
deriving DecidableEq, Repr

namespace Output

/-- The output of a new client. -/
def empty : Output := ⟨[], 0, []⟩

/-- `clientHasPendingReplies` -/
def clientHasPendingReplies (o : Output) : Bool := o.buf ≠ [] || o.reply ≠ []

/-! ## Queuing -/

/-- `_addReplyToBuffer`, `none` for `C_ERR`. -/
def addReplyToBuffer (o : Output) (s : Bytes) : Option Output :=
  if o.reply ≠ [] then none
  else if s.length > protoReplyChunkBytes - o.buf.length then none
  else some { o with buf := o.buf ++ s }

/-- Appending to the last object when it may grow, else behind it. -/
def appendToTail (s : Bytes) : List ReplyObject → List ReplyObject
  | [] => [createStringObject s]
  | [tail] =>
      if tail.encoding = .raw ∧ tail.text.length + s.length ≤ protoReplyChunkBytes then
        [{ tail with text := tail.text ++ s }]
      else [tail, createStringObject s]
  | o :: rest => o :: appendToTail s rest

/-- `_addReplyStringToList` -/
def addReplyStringToList (o : Output) (s : Bytes) : Output :=
  { o with reply := appendToTail s o.reply }

/-- `addReplyString` for a client that takes replies. -/
def addReplyString (o : Output) (s : Bytes) : Output :=
  match o.addReplyToBuffer s with
  | some o => o
  | none => o.addReplyStringToList s

/-! ## Writing -/

/-- What `write` does with the bytes it is given: it accepts some of them, or it fails with
`EAGAIN` or with another error. -/
inductive SocketWrite
  | accepts (n : Nat)
  | again
  | error
deriving DecidableEq, Repr

/-- The result of `write` for a number of bytes, as far as it is positive. -/
def SocketWrite.nwritten (count : Nat) : SocketWrite → Nat
  | .accepts n => min n count
  | .again => 0
  | .error => 0

/-- What one round of the writing loop finds: the socket, and the memory in use. -/
structure Turn where
  socket : SocketWrite
  usedMemory : Nat

/-- The state of the writing loop, with the bytes that the socket accepted. -/
structure Writing where
  output : Output
  sent : Bytes
deriving DecidableEq, Repr

/-- After a write from the fixed buffer. -/
def afterBuffer (o : Output) (n : Nat) : Output :=
  if o.sentlen + n = o.buf.length then { o with buf := [], sentlen := 0 }
  else { o with sentlen := o.sentlen + n }

/-- After a write from the first object. -/
def afterObject (o : Output) (head : ReplyObject) (rest : List ReplyObject) (n : Nat) : Output :=
  if o.sentlen + n = head.text.length then { o with reply := rest, sentlen := 0 }
  else { o with sentlen := o.sentlen + n }

/-- The test at the end of a round. -/
def enoughForNow (maxmemory totwritten : Nat) (turn : Turn) : Bool :=
  totwritten > netMaxWritesPerEvent && (maxmemory = 0 || turn.usedMemory < maxmemory)

/-- The loop of `writeToClient`. The result tells which write ended the loop, if one did. A socket
that was not asked before would block. -/
def writeLoop (maxmemory : Nat) : Nat → List Turn → Writing →
    Except Fault (Writing × Option SocketWrite)
  | 0, _, _ => .error .endless
  | fuel + 1, turns, st =>
      let o := st.output
      let turn := turns.headD ⟨.again, 0⟩
      -- what is left of the round once `n` bytes were written and the counters moved on
      let next (data : Bytes) (n : Nat) (o : Output) :=
        if n = 0 then .ok (st, some turn.socket)
        else if enoughForNow maxmemory (st.sent.length + n) turn then
          .ok (⟨o, st.sent ++ data.take n⟩, none)
        else writeLoop maxmemory fuel turns.tail ⟨o, st.sent ++ data.take n⟩
      if o.clientHasPendingReplies then
        if o.buf ≠ [] then
          if o.sentlen > o.buf.length then .error .outOfBounds
          else
            let n := turn.socket.nwritten (o.buf.length - o.sentlen)
            next (o.buf.drop o.sentlen) n (o.afterBuffer n)
        else
          match o.reply with
          | [] => .error .nullPointer
          | head :: rest =>
              if head.text = [] then
                writeLoop maxmemory fuel turns { st with output := { o with reply := rest } }
              else if o.sentlen > head.text.length then .error .outOfBounds
              else
                let n := turn.socket.nwritten (head.text.length - o.sentlen)
                next (head.text.drop o.sentlen) n (o.afterObject head rest n)
      else .ok (st, none)

/-- All bytes in the buffers, sent or not. -/
def stored (o : Output) : Bytes := o.buf ++ o.reply.flatMap ReplyObject.text

/-- What a call of `writeToClient` leaves: the buffers, the bytes the socket accepted, and whether
the client was freed. -/
structure Written where
  output : Output
  sent : Bytes
  freed : Bool
deriving DecidableEq, Repr

/-- `writeToClient`. Every round sends a byte, or drops an object, or ends the loop. -/
def writeToClient (maxmemory : Nat) (turns : List Turn) (o : Output) : Except Fault Written := do
  let (st, stopped) ← writeLoop maxmemory (o.stored.length + o.reply.length + 1) turns ⟨o, []⟩
  if stopped = some .error then return ⟨st.output, st.sent, true⟩
  else if st.output.clientHasPendingReplies then return ⟨st.output, st.sent, false⟩
  else return ⟨{ st.output with sentlen := 0 }, st.sent, false⟩

/-! ## What is pending -/

/-- The bytes that are still to be sent. -/
def pending (o : Output) : Bytes := o.stored.drop o.sentlen

/-- The bytes that the counter counts in. -/
def current (o : Output) : Bytes :=
  match o.buf, o.reply with
  | [], [] => []
  | [], head :: _ => head.text
  | b :: rest, _ => b :: rest

/-- The counter stays inside the bytes it counts in, and is back at zero when they are sent. -/
structure Valid (o : Output) : Prop where
  buf_le : o.buf.length ≤ protoReplyChunkBytes
  counter : o.sentlen = 0 ∨ o.sentlen < o.current.length

theorem current_prefix_stored (o : Output) : o.current <+: o.stored := by
  obtain ⟨buf, sentlen, reply⟩ := o
  cases buf with
  | cons b rest => exact List.prefix_append _ _
  | nil =>
      cases reply with
      | nil => exact List.prefix_rfl
      | cons head rest => exact List.prefix_append _ _

theorem Valid.sentlen_le {o : Output} (ho : o.Valid) : o.sentlen ≤ o.current.length := by
  have hcounter := ho.counter
  omega

theorem pending_eq_nil {o : Output} (ho : o.clientHasPendingReplies = false) : o.pending = [] := by
  simp only [clientHasPendingReplies, ne_eq, decide_not, Bool.or_eq_false_iff,
    Bool.not_eq_false', decide_eq_true_eq] at ho
  simp [pending, stored, ho.1, ho.2]

/-! ## Queuing keeps the order -/

theorem flatMap_appendToTail (s : Bytes) (reply : List ReplyObject) :
    (appendToTail s reply).flatMap ReplyObject.text = reply.flatMap ReplyObject.text ++ s := by
  induction reply with
  | nil => simp [appendToTail, createStringObject]
  | cons o rest ih =>
      cases rest with
      | nil =>
          rw [appendToTail]
          split
          next => simp
          next => simp [createStringObject]
      | cons next rest =>
          have htail : appendToTail s (o :: next :: rest) = o :: appendToTail s (next :: rest) :=
            rfl
          rw [htail, List.flatMap_cons, ih, ← List.append_assoc, ← List.flatMap_cons]

/-- The buffer is only used while the list is empty, so that what comes later lies behind. -/
theorem stored_addReplyString (o : Output) (s : Bytes) :
    (o.addReplyString s).stored = o.stored ++ s := by
  unfold addReplyString addReplyToBuffer
  split
  next o' hbuffer =>
    split at hbuffer
    next => cases hbuffer
    next hreply =>
      split at hbuffer
      next => cases hbuffer
      next =>
        cases hbuffer
        have hnil : o.reply = [] := not_not.mp hreply
        simp [stored, hnil]
  next =>
    rw [stored, addReplyStringToList, flatMap_appendToTail, ← List.append_assoc]
    rfl

theorem sentlen_addReplyString (o : Output) (s : Bytes) :
    (o.addReplyString s).sentlen = o.sentlen := by
  unfold addReplyString addReplyToBuffer
  split
  next o' hbuffer =>
    split at hbuffer
    next => cases hbuffer
    next =>
      split at hbuffer
      next => cases hbuffer
      next =>
        cases hbuffer
        rfl
  next => rfl

theorem current_appendToTail (s buf : Bytes) (sentlen : Nat) (reply : List ReplyObject) :
    (Output.mk buf sentlen reply).current <+:
      (Output.mk buf sentlen (appendToTail s reply)).current := by
  cases buf with
  | cons b rest => exact List.prefix_rfl
  | nil =>
      cases reply with
      | nil => exact List.nil_prefix
      | cons head rest =>
          cases rest with
          | cons next rest => exact List.prefix_rfl
          | nil =>
              rw [appendToTail]
              split
              next => exact List.prefix_append _ _
              next => exact List.prefix_rfl

/-- What is queued comes behind what is pending. -/
theorem addReplyString_spec {o : Output} (ho : o.Valid) (s : Bytes) :
    (o.addReplyString s).Valid ∧ (o.addReplyString s).pending = o.pending ++ s := by
  constructor
  -- the text in which `sentlen` counts can only grow
  · have hgrown : o.current <+: (o.addReplyString s).current ∧
        (o.addReplyString s).buf.length ≤ protoReplyChunkBytes := by
      have hle := ho.buf_le
      obtain ⟨buf, sentlen, reply⟩ := o
      unfold addReplyString addReplyToBuffer
      split
      next o' hbuffer =>
        split at hbuffer
        next => cases hbuffer
        next hreply =>
          split at hbuffer
          next => cases hbuffer
          next hroom =>
            cases hbuffer
            obtain rfl : reply = [] := not_not.mp hreply
            refine ⟨?_, by simp only [List.length_append] at hroom hle ⊢; omega⟩
            cases buf with
            | nil => exact List.nil_prefix
            | cons b rest => exact List.prefix_append _ _
      next => exact ⟨current_appendToTail s buf sentlen reply, hle⟩
    refine ⟨hgrown.2, ?_⟩
    rw [sentlen_addReplyString]
    rcases ho.counter with hzero | hlt
    · exact .inl hzero
    · exact .inr (Nat.lt_of_lt_of_le hlt hgrown.1.length_le)
  · rw [pending, stored_addReplyString, sentlen_addReplyString, List.drop_append_of_le_length]
    · rfl
    · exact ho.sentlen_le.trans o.current_prefix_stored.length_le

/-! ## Writing keeps the order -/

section Rounds

variable {o : Output} {n : Nat}

/-- The buffer loses from its front what was written. -/
theorem afterBuffer_spec (ho : o.Valid) (hbuf : o.buf ≠ []) (hn : n ≤ o.buf.length - o.sentlen) :
    (o.buf.drop o.sentlen).take n ++ (o.afterBuffer n).pending = o.pending ∧
      (o.afterBuffer n).Valid ∧ (o.afterBuffer n).reply = o.reply := by
  have hcurrent : o.current = o.buf := by
    obtain ⟨buf, sentlen, reply⟩ := o
    cases buf with
    | nil => exact absurd rfl hbuf
    | cons b rest => rfl
  have hle := ho.sentlen_le
  rw [hcurrent] at hle
  have hpending : o.pending = o.buf.drop o.sentlen ++ o.reply.flatMap ReplyObject.text := by
    rw [pending, stored, List.drop_append_of_le_length hle]
  unfold afterBuffer
  split
  next hall =>
    refine ⟨?_, ⟨Nat.zero_le _, .inl rfl⟩, rfl⟩
    rw [List.take_of_length_le (by rw [List.length_drop]; omega), hpending]
    rfl
  next hpart =>
    refine ⟨?_, ⟨ho.buf_le, .inr ?_⟩, rfl⟩
    · rw [hpending, pending, stored, List.drop_append_of_le_length (by dsimp only; omega),
        ← List.append_assoc]
      dsimp only
      rw [← List.drop_drop, List.take_append_drop]
    · change o.sentlen + n < o.current.length
      rw [hcurrent]
      omega

/-- The first object loses from its front what was written. -/
theorem afterObject_spec {head : ReplyObject} {rest : List ReplyObject} (ho : o.Valid)
    (hbuf : o.buf = []) (hreply : o.reply = head :: rest)
    (hn : n ≤ head.text.length - o.sentlen) :
    (head.text.drop o.sentlen).take n ++ (o.afterObject head rest n).pending = o.pending ∧
      (o.afterObject head rest n).Valid ∧
      (o.afterObject head rest n).reply.length ≤ o.reply.length := by
  have hcurrent : o.current = head.text := by
    obtain ⟨buf, sentlen, reply⟩ := o
    dsimp only at hbuf hreply
    subst hbuf hreply
    rfl
  have hle := ho.sentlen_le
  rw [hcurrent] at hle
  have hpending : o.pending = head.text.drop o.sentlen ++ rest.flatMap ReplyObject.text := by
    rw [pending, stored, hbuf, hreply, List.nil_append, List.flatMap_cons,
      List.drop_append_of_le_length hle]
  unfold afterObject
  split
  next hall =>
    refine ⟨?_, ⟨ho.buf_le, .inl rfl⟩, by simp [hreply]⟩
    rw [List.take_of_length_le (by rw [List.length_drop]; omega), hpending]
    simp [pending, stored, hbuf]
  next hpart =>
    refine ⟨?_, ⟨ho.buf_le, .inr ?_⟩, Nat.le_refl _⟩
    · rw [hpending, pending, stored]
      dsimp only
      rw [hbuf, hreply, List.nil_append, List.flatMap_cons,
        List.drop_append_of_le_length (by omega), ← List.append_assoc, ← List.drop_drop,
        List.take_append_drop]
    · change o.sentlen + n < o.current.length
      rw [hcurrent]
      omega

theorem nwritten_le (socket : SocketWrite) (count : Nat) : socket.nwritten count ≤ count := by
  cases socket with
  | accepts n => exact Nat.min_le_right n count
  | again => exact Nat.zero_le _
  | error => exact Nat.zero_le _

end Rounds

/-- The loop ends. What it sent and what is still pending are together what was pending. -/
def Conserves (st : Writing) (result : Except Fault (Writing × Option SocketWrite)) : Prop :=
  ∃ st' stopped, result = .ok (st', stopped) ∧ st'.output.Valid ∧
    st'.sent ++ st'.output.pending = st.sent ++ st.output.pending

/-- An object without text is dropped, and nothing was counted in it. -/
theorem dropEmpty_spec {o : Output} {head : ReplyObject} {rest : List ReplyObject} (ho : o.Valid)
    (hbuf : o.buf = []) (hreply : o.reply = head :: rest) (hempty : head.text = []) :
    Output.pending { o with reply := rest } = o.pending ∧
      Output.Valid { o with reply := rest } := by
  have hcurrent : o.current = [] := by
    simp only [current, hbuf, hreply, hempty]
  have hzero : o.sentlen = 0 := by
    have hle := ho.sentlen_le
    rw [hcurrent, List.length_nil] at hle
    omega
  refine ⟨?_, ho.buf_le, .inl hzero⟩
  simp [pending, stored, hzero, hbuf, hreply, hempty]

/-- A round wrote `n` bytes of `data` and left `o`. The loop stops there, or goes on with less. -/
theorem round_conserves {maxmemory : Nat} {turn : Turn} {st : Writing} (hst : st.output.Valid)
    {next : Writing → Except Fault (Writing × Option SocketWrite)} {data : Bytes} {n : Nat}
    {o : Output} (hpending : data.take n ++ o.pending = st.output.pending) (hvalid : o.Valid)
    (hnext : n ≠ 0 → Conserves ⟨o, st.sent ++ data.take n⟩ (next ⟨o, st.sent ++ data.take n⟩)) :
    Conserves st
      (if n = 0 then .ok (st, some turn.socket)
        else if enoughForNow maxmemory (st.sent.length + n) turn then
          .ok (⟨o, st.sent ++ data.take n⟩, none)
        else next ⟨o, st.sent ++ data.take n⟩) := by
  have hsent : (st.sent ++ data.take n) ++ o.pending = st.sent ++ st.output.pending := by
    rw [List.append_assoc, hpending]
  split
  next => exact ⟨st, _, rfl, hst, rfl⟩
  next hpos =>
    split
    next => exact ⟨_, _, rfl, hvalid, hsent⟩
    next =>
      obtain ⟨st', stopped, hrun, hvalid', hsent'⟩ := hnext hpos
      exact ⟨st', stopped, hrun, hvalid', hsent'.trans hsent⟩

theorem writeLoop_conserves (maxmemory : Nat) {fuel : Nat} (turns : List Turn) {st : Writing}
    (hst : st.output.Valid) (hfuel : st.output.pending.length + st.output.reply.length < fuel) :
    Conserves st (writeLoop maxmemory fuel turns st) := by
  induction fuel generalizing turns st with
  | zero => exact absurd hfuel (Nat.not_lt_zero _)
  | succ fuel ih =>
      -- the measure is the pending bytes and the objects: a round that writes leaves fewer bytes
      have hless : ∀ {data : Bytes} {n : Nat} {o : Output},
          data.take n ++ o.pending = st.output.pending → o.reply.length ≤ st.output.reply.length →
          n ≤ data.length → n ≠ 0 → o.pending.length + o.reply.length < fuel := by
        intro data n o hpending hreply hn hpos
        have hlength := congrArg List.length hpending
        rw [List.length_append, List.length_take] at hlength
        omega
      have hle := hst.sentlen_le
      rw [writeLoop]
      dsimp only
      split
      next hhas =>
        split
        next hbuf =>
          have hcurrent : st.output.current = st.output.buf := by
            cases hb : st.output.buf with
            | nil => exact absurd hb hbuf
            | cons b rest => simp only [current, hb]
          rw [hcurrent] at hle
          rw [if_neg (by omega)]
          have hn := nwritten_le (turns.headD ⟨.again, 0⟩).socket
            (st.output.buf.length - st.output.sentlen)
          obtain ⟨hpending, hvalid, hreply⟩ := afterBuffer_spec hst hbuf hn
          refine round_conserves hst hpending hvalid fun hpos => ih turns.tail hvalid ?_
          exact hless hpending (by rw [hreply]) (by rw [List.length_drop]; exact hn) hpos
        next hbuf =>
          have hnil : st.output.buf = [] := not_not.mp hbuf
          cases hreply : st.output.reply with
          | nil => simp [clientHasPendingReplies, hnil, hreply] at hhas
          | cons head rest =>
              have hcurrent : st.output.current = head.text := by
                simp only [current, hnil, hreply]
              rw [hcurrent] at hle
              dsimp only
              split
              next hempty =>
                obtain ⟨hsame, hvalid⟩ := dropEmpty_spec hst hnil hreply hempty
                -- an empty object leaves the bytes as they are, with one object less
                have hshorter : (Output.pending { st.output with reply := rest }).length +
                    rest.length < fuel := by
                  rw [hsame]
                  rw [hreply, List.length_cons] at hfuel
                  omega
                obtain ⟨st', stopped, hrun, hvalid', hsent'⟩ :=
                  @ih turns { st with output := { st.output with reply := rest } } hvalid hshorter
                exact ⟨st', stopped, hrun, hvalid', by rw [hsent', hsame]⟩
              next hne =>
                rw [if_neg (by omega)]
                have hn := nwritten_le (turns.headD ⟨.again, 0⟩).socket
                  (head.text.length - st.output.sentlen)
                obtain ⟨hpending, hvalid, hshort⟩ := afterObject_spec hst hnil hreply hn
                refine round_conserves hst hpending hvalid fun hpos => ih turns.tail hvalid ?_
                exact hless hpending hshort (by rw [List.length_drop]; exact hn) hpos
      next => exact ⟨st, none, rfl, hst, rfl⟩

/-- A call sends a front part of what is pending and leaves the rest. -/
theorem writeToClient_spec (maxmemory : Nat) (turns : List Turn) {o : Output} (ho : o.Valid) :
    ∃ written, writeToClient maxmemory turns o = .ok written ∧ written.output.Valid ∧
      written.sent ++ written.output.pending = o.pending := by
  have hfuel : o.pending.length + o.reply.length < o.stored.length + o.reply.length + 1 := by
    rw [pending, List.length_drop]
    omega
  obtain ⟨st, stopped, hrun, hvalid, hsent⟩ :=
    @writeLoop_conserves maxmemory _ turns ⟨o, []⟩ ho hfuel
  rw [writeToClient, hrun, ok_bind]
  dsimp only
  split
  next => exact ⟨_, rfl, hvalid, hsent⟩
  next =>
    split
    next => exact ⟨_, rfl, hvalid, hsent⟩
    next hnone =>
      refine ⟨_, rfl, ⟨hvalid.buf_le, .inl rfl⟩, ?_⟩
      have hsame : Output.pending { st.output with sentlen := 0 } = st.output.pending := by
        rw [pending_eq_nil (Bool.eq_false_iff.mpr hnone)]
        exact pending_eq_nil (Bool.eq_false_iff.mpr hnone)
      rw [hsame]
      exact hsent

end Output

end Blogd
