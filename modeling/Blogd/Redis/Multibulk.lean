import Mathlib.Algebra.GroupWithZero.Nat
import Blogd.Server.State

/-! # The Redis protocol

Commands are written by the client library and read back from the query buffer. The reader
keeps its position between calls in `multibulklen` and `bulklen`, so that a command may arrive
in pieces.
-/

namespace Blogd

/-! ## Writing -/

/-- `intlen`: the number of decimal digits, with fuel for the divisions. -/
def intlenLoop : Nat → Nat → Nat
  | 0, _ => 0
  | fuel + 1, i => if i / 10 = 0 then 1 else intlenLoop fuel (i / 10) + 1

def intlen (i : Nat) : Nat := intlenLoop (i + 1) i

/-- `bulklen` of the client library. -/
def bulkTextLen (len : Nat) : Nat := 1 + intlen len + 2 + len + 2

/-- One argument as it is written. -/
def bulkText (arg : Bytes) : Bytes :=
  ascii "$" ++ decimal arg.length ++ crlf ++ arg ++ crlf

/-- The command as it is written. -/
def commandText (argv : List Bytes) : Bytes :=
  ascii "*" ++ decimal argv.length ++ crlf ++ argv.flatMap bulkText

/-- `redisFormatCommandArgv`. The length is computed first and asserted at the end. -/
def redisFormatCommandArgv (argv : List Bytes) : Except Fault Bytes :=
  let totlen := 1 + intlen argv.length + 2 + (argv.map fun arg => bulkTextLen arg.length).sum
  if (commandText argv).length = totlen then .ok (commandText argv) else .error .assertion

/-! ## Reading -/

/-- `strchr`: the offset of the first occurrence in the string at the start of the memory. -/
def strchr (c : UInt8) (mem : Bytes) : Option Nat := (cstr mem).findIdx? (· = c)

/-- `setProtocolError` -/
def setProtocolError (c : Client) (pos : Nat) : Client :=
  { c with
    flags := { c.flags with closeAfterReply := true }
    querybuf := c.querybuf.range pos (-1) }

/-- Where the argument loop stands: the next position, after an argument was read, or after it
ran out of input, or after an error of protocol. -/
inductive BulkStep
  | next (c : Client) (pos : Nat)
  | wait (c : Client) (pos : Nat)
  | fail (c : Client)

/-- Reading the length of an argument. A large argument is moved to the front of the buffer. -/
def readBulkLength (junk : Nat → UInt8) (c : Client) (pos : Nat) : BulkStep :=
  match strchr CR (c.querybuf.mem.drop pos) with
  | none =>
      if c.querybuf.len > protoInlineMaxSize then
        .fail (setProtocolError
          (c.addReplyError (ascii "Protocol error: too big bulk count string")) 0)
      else .wait c pos
  | some offset =>
      if pos + offset + 2 > c.querybuf.len then .wait c pos
      else if c.querybuf.mem[pos]? ≠ some 36 then
        .fail (setProtocolError
          (c.addReplyErrorFormat (ascii "Protocol error: expected '$', got '" ++
            c.querybuf.mem[pos]?.toList ++ ascii "'")) pos)
      else
        match string2ll ((c.querybuf.mem.drop (pos + 1)).take (offset - 1)) with
        | none =>
            .fail (setProtocolError
              (c.addReplyError (ascii "Protocol error: invalid bulk length")) pos)
        | some ll =>
            if ll < 0 ∨ ll > 512 * 1024 * 1024 then
              .fail (setProtocolError
                (c.addReplyError (ascii "Protocol error: invalid bulk length")) pos)
            else if ll.toNat ≥ protoMbulkBigArg then
              let querybuf := c.querybuf.range (pos + offset + 2 : Nat) (-1)
              let querybuf :=
                if querybuf.len < ll.toNat + 2 then
                  querybuf.makeRoomFor junk (ll.toNat + 2 - querybuf.len)
                else querybuf
              .next { c with querybuf := querybuf, bulklen := some ll.toNat } 0
            else .next { c with bulklen := some ll.toNat } (pos + offset + 2)

/-- Reading an argument of a known length. A large argument that fills the buffer takes the
buffer over. -/
def readBulkArgument (c : Client) (pos bulklen : Nat) : BulkStep :=
  if c.querybuf.len < pos + (bulklen + 2) then .wait c pos
  else if pos = 0 ∧ bulklen ≥ protoMbulkBigArg ∧ c.querybuf.len = bulklen + 2 then
    .next { c with
      argv := c.argv ++ [c.querybuf.mem.take bulklen]
      querybuf := Sds.cleared (bulklen + 2)
      bulklen := none
      multibulklen := c.multibulklen - 1 } 0
  else
    .next { c with
      argv := c.argv ++ [(c.querybuf.mem.drop pos).take bulklen]
      bulklen := none
      multibulklen := c.multibulklen - 1 } (pos + bulklen + 2)

/-- One round of the argument loop. -/
def readBulk (junk : Nat → UInt8) (c : Client) (pos : Nat) : BulkStep :=
  match c.bulklen with
  | some bulklen => readBulkArgument c pos bulklen
  | none =>
      match readBulkLength junk c pos with
      | .next c pos =>
          match c.bulklen with
          | some bulklen => readBulkArgument c pos bulklen
          | none => .wait c pos
      | stopped => stopped

/-- The argument loop, for the number of arguments that are still missing. -/
def readBulks (junk : Nat → UInt8) : Nat → Client → Nat → BulkStep
  | 0, c, pos => .next c pos
  | missing + 1, c, pos =>
      match readBulk junk c pos with
      | .next c pos => readBulks junk missing c pos
      | stopped => stopped

/-- The end of `processMultibulkBuffer`: trim to the position, and tell whether the command is
complete. -/
def finishMultibulk : BulkStep → Client × Bool
  | .fail c => (c, false)
  | .wait c pos => (if pos = 0 then c else { c with querybuf := c.querybuf.range pos (-1) }, false)
  | .next c pos => (if pos = 0 then c else { c with querybuf := c.querybuf.range pos (-1) }, true)

/-- `processMultibulkBuffer`, true for `C_OK`. -/
def processMultibulkBuffer (junk : Nat → UInt8) (c : Client) : Except Fault (Client × Bool) :=
  if c.multibulklen = 0 then
    if c.argv ≠ [] then .error .assertion
    else
      match strchr CR c.querybuf.mem with
      | none =>
          if c.querybuf.len > protoInlineMaxSize then
            .ok (setProtocolError
              (c.addReplyError (ascii "Protocol error: too big mbulk count string")) 0, false)
          else .ok (c, false)
      | some newline =>
          if newline + 2 > c.querybuf.len then .ok (c, false)
          else if c.querybuf.mem[0]? ≠ some 42 then .error .assertion
          else
            match string2ll ((c.querybuf.mem.drop 1).take (newline - 1)) with
            | none =>
                .ok (setProtocolError
                  (c.addReplyError (ascii "Protocol error: invalid multibulk length")) 0, false)
            | some ll =>
                if ll > 1024 * 1024 then
                  .ok (setProtocolError
                    (c.addReplyError (ascii "Protocol error: invalid multibulk length")) 0,
                    false)
                else if ll ≤ 0 then
                  -- the command is complete without any argument
                  .ok ({ c with querybuf := c.querybuf.range (newline + 2 : Nat) (-1) }, true)
                else
                  .ok (finishMultibulk (readBulks junk ll.toNat
                    { c with multibulklen := ll.toNat } (newline + 2)))
  else .ok (finishMultibulk (readBulks junk c.multibulklen c 0))

end Blogd
