import Blogd.Foundation.ByteStream
import Blogd.Redis.Crc64

/-! # Streams with a checksum

The streams of `rio.h`, over a file that is written or read. Whatever passes through is taken into
a checksum, chunk by chunk.
-/

namespace Blogd

open StreamM

/-- A `rio` that is written: what has been written, and how much the device still takes. -/
structure RioOut where
  written : Bytes
  room : Nat
  cksum : BitVec 64
  updateCksum : Bool
  maxProcessingChunk : Nat

/-- A `rio` that is read. -/
structure RioIn where
  unread : Bytes
  cksum : BitVec 64
  updateCksum : Bool
  maxProcessingChunk : Nat

/-- `rioInitWithFile` on a file open for writing. -/
def RioOut.initWithFile (room : Nat) : RioOut := ⟨[], room, 0, false, 0⟩

/-- `rioInitWithFile` on a file open for reading. -/
def RioIn.initWithFile (file : Bytes) : RioIn := ⟨file, 0, false, 0⟩

/-- How many of the bytes that are left are processed at once. -/
def rioChunk (maxProcessingChunk len : Nat) : Nat :=
  if maxProcessingChunk ≠ 0 ∧ maxProcessingChunk < len then maxProcessingChunk else len

/-- `update_cksum` -/
def rioUpdate (update : Bool) (cksum : BitVec 64) (buf : Bytes) : BitVec 64 :=
  if update then crc64 cksum buf else cksum

/-- The loop of `rioWrite`. -/
def rioWriteLoop : Nat → Bytes → StreamM RioOut Unit
  | _, [] => pure ()
  | 0, _ :: _ => fault .endless
  | fuel + 1, b :: buf => fun r =>
      let n := rioChunk r.maxProcessingChunk (b :: buf).length
      let chunk := (b :: buf).take n
      if n ≤ r.room then
        rioWriteLoop fuel ((b :: buf).drop n)
          { r with
            written := r.written ++ chunk
            room := r.room - n
            cksum := rioUpdate r.updateCksum r.cksum chunk }
      else .ok none

/-- `rioWrite` -/
def rioWrite (buf : Bytes) : StreamM RioOut Unit := rioWriteLoop buf.length buf

/-- The loop of `rioRead`. -/
def rioReadLoop : Nat → Nat → Bytes → StreamM RioIn Bytes
  | _, 0, buf => pure buf
  | 0, _ + 1, _ => fault .endless
  | fuel + 1, len + 1, buf => fun r =>
      let n := rioChunk r.maxProcessingChunk (len + 1)
      let chunk := r.unread.take n
      if n ≤ r.unread.length then
        rioReadLoop fuel (len + 1 - n) (buf ++ chunk)
          { r with
            unread := r.unread.drop n
            cksum := rioUpdate r.updateCksum r.cksum chunk }
      else .ok none

/-- `rioRead` -/
def rioRead (len : Nat) : StreamM RioIn Bytes := rioReadLoop len len []

/-! ## Texts on a stream -/

theorem rioUpdate_nil (update : Bool) (cksum : BitVec 64) : rioUpdate update cksum [] = cksum := by
  cases update <;> rfl

theorem rioUpdate_append (update : Bool) (cksum : BitVec 64) (x y : Bytes) :
    rioUpdate update cksum (x ++ y) = rioUpdate update (rioUpdate update cksum x) y := by
  cases update with
  | true => exact crc64_append cksum x y
  | false => rfl

namespace RioOut

/-- The stream with a text written. -/
def write (r : RioOut) (text : Bytes) : RioOut :=
  { r with
    written := r.written ++ text
    room := r.room - text.length
    cksum := rioUpdate r.updateCksum r.cksum text }

theorem write_append (r : RioOut) (x y : Bytes) : r.write (x ++ y) = (r.write x).write y := by
  simp only [write, List.append_assoc, List.length_append, rioUpdate_append, Nat.sub_sub]

instance : ByteStream RioOut where
  behind r text := if text.length ≤ r.room then some (r.write text) else none
  behind_nil r := by
    rw [List.length_nil, if_pos (Nat.zero_le _), write, List.append_nil, rioUpdate_nil]
    rfl
  behind_append r x y := by
    rw [List.length_append, write_append]
    by_cases hx : x.length ≤ r.room
    · rw [if_pos hx, Option.bind_some]
      exact if_congr (Nat.le_sub_iff_add_le' hx).symm rfl rfl
    · rw [if_neg hx, if_neg (by omega)]
      rfl

theorem behind_eq (r : RioOut) (text : Bytes) :
    behind r text = if text.length ≤ r.room then some (r.write text) else none := rfl

end RioOut

namespace RioIn

/-- The stream with a text read. -/
def read (r : RioIn) (text : Bytes) : RioIn :=
  { r with
    unread := r.unread.drop text.length
    cksum := rioUpdate r.updateCksum r.cksum text }

theorem read_append (r : RioIn) (x y : Bytes) : r.read (x ++ y) = (r.read x).read y := by
  simp only [read, List.length_append, List.drop_drop, rioUpdate_append]

instance : ByteStream RioIn where
  behind r text := if text <+: r.unread then some (r.read text) else none
  behind_nil r := by
    rw [if_pos List.nil_prefix, read, rioUpdate_nil]
    rfl
  behind_append r x y := by
    rw [read_append]
    by_cases hx : x <+: r.unread
    · rw [if_pos hx, Option.bind_some]
      obtain ⟨rest, hrest⟩ := hx
      have hdrop : (r.read x).unread = rest := by
        rw [read, ← hrest]
        exact List.drop_left
      rw [hdrop, ← hrest]
      exact if_congr (List.prefix_append_right_inj x) rfl rfl
    · rw [if_neg hx, if_neg fun h => hx ((List.prefix_append x y).trans h)]
      rfl

theorem behind_eq_some_iff {r t : RioIn} {text : Bytes} :
    behind r text = some t ↔ text <+: r.unread ∧ t = r.read text := by
  change (if text <+: r.unread then some (r.read text) else none) = some t ↔ _
  rw [Option.ite_none_right_eq_some, Option.some_inj, eq_comm]

/-- What a text leaves is behind it. -/
theorem unread_of_behind {r t : RioIn} {text : Bytes} (h : behind r text = some t) :
    r.unread = text ++ t.unread := by
  obtain ⟨⟨rest, hrest⟩, rfl⟩ := behind_eq_some_iff.mp h
  rw [read, ← hrest, List.drop_left]

end RioIn

/-! ## The loops -/

theorem rioChunk_le (maxProcessingChunk len : Nat) : rioChunk maxProcessingChunk len ≤ len := by
  unfold rioChunk
  split
  next h => exact h.2.le
  next => exact le_refl len

theorem rioChunk_pos (maxProcessingChunk : Nat) {len : Nat} (hlen : 0 < len) :
    0 < rioChunk maxProcessingChunk len := by
  unfold rioChunk
  split
  next h => exact Nat.pos_of_ne_zero h.1
  next => exact hlen

theorem rioWriteLoop_eq {fuel : Nat} {buf : Bytes} (hfuel : buf.length ≤ fuel) (r : RioOut) :
    rioWriteLoop fuel buf r = .ok ((behind r buf).map fun t => ((), t)) := by
  induction fuel generalizing buf r with
  | zero =>
      obtain rfl : buf = [] := List.eq_nil_of_length_eq_zero (Nat.le_zero.mp hfuel)
      rw [behind_nil]
      rfl
  | succ fuel ih =>
      cases buf with
      | nil =>
          rw [behind_nil]
          rfl
      | cons b buf =>
          have hpos : 0 < rioChunk r.maxProcessingChunk (b :: buf).length :=
            rioChunk_pos r.maxProcessingChunk (Nat.succ_pos buf.length)
          have hle := rioChunk_le r.maxProcessingChunk (b :: buf).length
          rw [rioWriteLoop]
          dsimp only
          generalize rioChunk r.maxProcessingChunk (b :: buf).length = n at hpos hle
          have htake : ((b :: buf).take n).length = n := List.length_take_of_le hle
          have hsplit := behind_append r ((b :: buf).take n) ((b :: buf).drop n)
          rw [List.take_append_drop, RioOut.behind_eq r ((b :: buf).take n), htake] at hsplit
          rw [hsplit]
          split
          next hroom =>
            rw [ih (by rw [List.length_drop]; omega), Option.bind_some, RioOut.write, htake]
          next => rfl

/-- A write is taken whole, whatever the chunks are. -/
theorem rioWrite_eq (buf : Bytes) (r : RioOut) :
    rioWrite buf r = .ok ((behind r buf).map fun t => ((), t)) :=
  rioWriteLoop_eq (le_refl _) r

theorem emits_rioWrite (buf : Bytes) : Emits (rioWrite buf) fun _ text => text = buf :=
  fun r => ⟨(), buf, rfl, rioWrite_eq buf r⟩

theorem rioReadLoop_eq {fuel len : Nat} (hfuel : len ≤ fuel) (buf : Bytes) (r : RioIn) :
    rioReadLoop fuel len buf r =
      if len ≤ r.unread.length then
        .ok (some (buf ++ r.unread.take len, r.read (r.unread.take len)))
      else .ok none := by
  induction fuel generalizing len buf r with
  | zero =>
      obtain rfl : len = 0 := Nat.le_zero.mp hfuel
      rw [if_pos (Nat.zero_le _), List.take_zero, List.append_nil, RioIn.read, rioUpdate_nil]
      rfl
  | succ fuel ih =>
      cases len with
      | zero =>
          rw [if_pos (Nat.zero_le _), List.take_zero, List.append_nil, RioIn.read, rioUpdate_nil]
          rfl
      | succ len =>
          have hpos := rioChunk_pos r.maxProcessingChunk (Nat.succ_pos len)
          have hle := rioChunk_le r.maxProcessingChunk (len + 1)
          rw [rioReadLoop]
          dsimp only
          generalize rioChunk r.maxProcessingChunk (len + 1) = n at hpos hle
          split
          next hn =>
            rw [ih (by omega)]
            dsimp only
            have htake : r.unread.take (len + 1) =
                r.unread.take n ++ (r.unread.drop n).take (len + 1 - n) := by
              rw [← List.take_add, Nat.add_sub_cancel' hle]
            have hlen : (r.unread.take n).length = n := List.length_take_of_le hn
            rw [htake, RioIn.read_append, ← List.append_assoc, List.length_drop]
            apply if_congr _ _ rfl
            · omega
            · rw [RioIn.read.eq_1 r, hlen]
          next hn => rw [if_neg (by omega)]

/-- A read takes what comes next, whatever the chunks are. -/
theorem rioRead_eq (len : Nat) (r : RioIn) :
    rioRead len r =
      if len ≤ r.unread.length then .ok (some (r.unread.take len, r.read (r.unread.take len)))
      else .ok none :=
  rioReadLoop_eq (le_refl _) [] r

theorem reads_rioRead {len : Nat} {text : Bytes} (hlen : text.length = len) :
    Reads (rioRead len) text text := by
  subst hlen
  intro r t h
  obtain ⟨htext, rfl⟩ := RioIn.behind_eq_some_iff.mp h
  rw [rioRead_eq, if_pos htext.length_le, ← List.prefix_iff_eq_take.mp htext]

/-- One byte, and what is read behind it. -/
theorem reads_byte_bind {β : Type} {f : Bytes → StreamM RioIn β} {c : UInt8} {text : Bytes} {b : β}
    (hf : Reads (f [c]) text b) : Reads (rioRead 1 >>= f) (c :: text) b :=
  Reads.bind (x := [c]) (reads_rioRead rfl) hf

/-! ## Programs that only read -/

/-- `rioRead` is the only way to get at what a stream holds. -/
inductive IsRioRead : ∀ α : Type, StreamM RioIn α → Prop
  | read (len : Nat) : IsRioRead Bytes (rioRead len)

/-- A program that only reads. -/
abbrev RioReader {α : Type} (m : StreamM RioIn α) : Prop := Sequential IsRioRead m

theorem rioReader_read (len : Nat) : RioReader (rioRead len) := .single (.read len)

theorem RioReader.consumes {α : Type} {m : StreamM RioIn α} (hm : RioReader m) : Consumes m := by
  apply Sequential.consumes ?_ hm
  rintro _ _ ⟨len⟩ r a t h
  rw [rioRead_eq] at h
  split at h
  next hlen =>
    cases h
    exact ⟨_, RioIn.behind_eq_some_iff.mpr ⟨ List.take_prefix len r.unread, rfl⟩⟩
  next => cases h

/-- The stream with more behind its end. -/
def RioIn.extend (more : Bytes) (r : RioIn) : RioIn := { r with unread := r.unread ++ more }

theorem RioReader.steady {α : Type} {m : StreamM RioIn α} (hm : RioReader m) (more : Bytes) :
    Steady (RioIn.extend more) m := by
  apply Sequential.steady ?_ hm
  rintro _ _ ⟨len⟩ r
  rw [rioRead_eq, rioRead_eq]
  by_cases hlen : len ≤ r.unread.length
  · right
    have htake : (r.extend more).unread.take len = r.unread.take len :=
      List.take_append_of_le_length hlen
    have hlen' : len ≤ (r.extend more).unread.length :=
      hlen.trans (List.length_append ▸ Nat.le_add_right _ _)
    rw [if_pos hlen, if_pos hlen', htake, RioIn.read, RioIn.extend,
      List.drop_append_of_le_length (List.length_take_le' len r.unread)]
    rfl
  · exact .inl (if_neg hlen)

/-- A program that reads a text gives up where the text breaks off. -/
theorem RioReader.giveUp_of_short {α : Type} {m : StreamM RioIn α} (hm : RioReader m) {x : Bytes}
    {a : α} (hread : Reads m x a) {r : RioIn} {more : Bytes} (hx : r.unread ++ more = x)
    (hmore : more ≠ []) : m r = .ok none := by
  have hwhole : behind (r.extend more) x = some ((r.extend more).read x) :=
    RioIn.behind_eq_some_iff.mpr ⟨hx ▸ List.prefix_refl _, rfl⟩
  have hrun := hread _ _ hwhole
  rcases hm.steady more r with hnone | hsteady
  · exact hnone
  rw [hrun] at hsteady
  cases hr : m r with
  | error e =>
      rw [hr] at hsteady
      cases hsteady
  | ok p =>
      rw [hr] at hsteady
      cases p with
      | none => rfl
      | some p =>
          have hend := congrArg RioIn.unread
            (congrArg Prod.snd (Option.some.inj (Except.ok.inj hsteady)))
          have hnil : ((r.extend more).read x).unread = [] := by
            rw [← hx]
            exact List.drop_length
          rw [hnil] at hend
          exact absurd (List.append_eq_nil_iff.mp hend.symm).2 hmore

end Blogd
