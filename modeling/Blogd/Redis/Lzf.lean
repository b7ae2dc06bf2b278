import Blogd.Foundation.Bytes
import Blogd.Foundation.Fault

/-! # The LZF compression of the dump file

`lzf_c.c` and `lzf_d.c` as they are configured here: the table of hashes has `2 ^ 16` slots that
are not initialised, the input of the decompressor is checked, and pointers are compared as
offsets. A pointer is the list of bytes that it still has before it, or an index.
-/

namespace Blogd

namespace Lzf

/-- `MAX_LIT` -/
def maxLit : Nat := 1 <<< 5

/-- `MAX_OFF` -/
def maxOff : Nat := 1 <<< 13

/-- `MAX_REF` -/
def maxRef : Nat := (1 <<< 8) + (1 <<< 3)

/-! ## Decompression -/

/-- Copies bytes of the output one after the other: `*op++ = *ref++`. -/
def copyBytes : Nat → Nat → Bytes → Except Fault Bytes
  | 0, _, out => .ok out
  | n + 1, ref, out =>
      match out[ref]? with
      | none => .error .outOfBounds
      | some b => copyBytes n (ref + 1) (out ++ [b])

/-- The copy of a back reference, of `len + 2` bytes: a few bytes are copied by themselves, areas
that do not overlap with `memcpy`. -/
def copyReference (len ref : Nat) (out : Bytes) : Except Fault Bytes :=
  if len ≤ 9 then copyBytes (len + 2) ref out
  else if ref + (len + 2) ≤ out.length then .ok (out ++ (out.drop ref).take (len + 2))
  else copyBytes (len + 2) ref out

/-- The end of a back reference, from the byte with the low part of its offset on. -/
def decompressReference (outLen len : Nat) (ref : Int) (ip out : Bytes) :
    Except Fault (Option (Bytes × Bytes)) :=
  match ip with
  | [] => .ok none
  | low :: ip =>
      let ref := ref - low.toNat
      if out.length + len + 2 > outLen then .ok none
      else if ref < 0 then .ok none
      else do
        let out ← copyReference len ref.toNat out
        return some (ip, out)

/-- One round of the loop of `lzf_decompress`: what it leaves of the input, and the output.
Without a result the function returns 0. -/
def decompressRound (outLen : Nat) (ip out : Bytes) : Except Fault (Option (Bytes × Bytes)) :=
  match ip with
  | [] => .error .outOfBounds
  | ctrl :: ip =>
      if ctrl.toNat < 1 <<< 5 then
        let run := ctrl.toNat + 1
        if out.length + run > outLen then .ok none
        else if run > ip.length then .ok none
        else .ok (some (ip.drop run, out ++ ip.take run))
      else
        let len := ctrl.toNat >>> 5
        let ref : Int := out.length - ((ctrl.toNat &&& 0x1f) <<< 8 : Nat) - 1
        match ip with
        | [] => .ok none
        | more :: ip' =>
            if len = 7 then decompressReference outLen (len + more.toNat) ref ip' out
            else decompressReference outLen len ref ip out

/-- The loop of `lzf_decompress`, which looks at its condition after each round. -/
def decompressLoop (outLen : Nat) : Nat → Bytes → Bytes → Except Fault (Option Bytes)
  | 0, _, _ => .error .endless
  | fuel + 1, ip, out => do
      match ← decompressRound outLen ip out with
      | none => return none
      | some (ip, out) =>
          if ip = [] then return some out else decompressLoop outLen fuel ip out

end Lzf

open Lzf

/-- `lzf_decompress`: the bytes it writes, or none when it returns 0. -/
def lzfDecompress (inData : Bytes) (outLen : Nat) : Except Fault (Option Bytes) :=
  decompressLoop outLen (inData.length + 1) inData []

/-! ## Compression -/

namespace Lzf

/-- Reads a byte of the input. -/
def inputAt (inData : Bytes) (i : Nat) : Except Fault UInt8 :=
  match inData[i]? with
  | none => .error .outOfBounds
  | some b => .ok b

/-- `FRST` -/
def frst (inData : Bytes) (ip : Nat) : Except Fault UInt32 := do
  let a ← inputAt inData ip
  let b ← inputAt inData (ip + 1)
  return a.toUInt32 <<< 8 ||| b.toUInt32

/-- `NEXT` -/
def next (v : UInt32) (inData : Bytes) (ip : Nat) : Except Fault UInt32 := do
  let c ← inputAt inData (ip + 2)
  return v <<< 8 ||| c.toUInt32

/-- `IDX` -/
def idx (h : UInt32) : Nat := ((h >>> 8 - h * 5) &&& 0xffff).toNat

/-- The variables of `lzf_compress`. The output reaches up to `op`; a byte that `op` only steps
over, to be written when the run ends, is 0 in it. -/
structure Compressor where
  ip : Nat
  hval : UInt32
  htab : Nat → UInt32
  lit : Nat
  out : Bytes

/-- `*op++ = b` -/
def put (outLen : Nat) (out : Bytes) (b : UInt8) : Except Fault Bytes :=
  if out.length < outLen then .ok (out ++ [b]) else .error .overflow

/-- `op [- lit - 1] = lit - 1` -/
def stopRun (outLen lit : Nat) (out : Bytes) : Except Fault Bytes :=
  if lit + 1 ≤ out.length ∧ out.length - lit - 1 < outLen then
    .ok (out.set (out.length - lit - 1) ((lit + 255).toUInt8))
  else .error .overflow

/-- `op -= !lit` -/
def undoRun (lit : Nat) (out : Bytes) : Bytes := if lit = 0 then out.dropLast else out

/-- `op++` -/
def startRun (out : Bytes) : Bytes := out ++ [0]

/-- Whether two bytes of the input are the same. -/
def sameAt (inData : Bytes) (i j : Nat) : Except Fault Bool := do
  let a ← inputAt inData i
  let b ← inputAt inData j
  return a = b

/-- The comparisons that are written out, and whether one of them ended the match. -/
def matchUnrolled (inData : Bytes) (ref ip : Nat) : Nat → Nat → Except Fault (Nat × Bool)
  | 0, len => .ok (len, false)
  | n + 1, len => do
      if ← sameAt inData (ref + (len + 1)) (ip + (len + 1)) then
        matchUnrolled inData ref ip n (len + 1)
      else return (len + 1, true)

/-- The loop that goes on with the match. -/
def matchLoop (inData : Bytes) (ref ip maxlen : Nat) : Nat → Nat → Except Fault Nat
  | 0, _ => .error .endless
  | fuel + 1, len =>
      if len + 1 < maxlen then do
        if ← sameAt inData (ref + (len + 1)) (ip + (len + 1)) then
          matchLoop inData ref ip maxlen fuel (len + 1)
        else return len + 1
      else .ok (len + 1)

/-- The length of a match of at least three bytes. -/
def matchLength (inData : Bytes) (ref ip : Nat) : Except Fault Nat := do
  let maxlen := min (inData.length - ip - 2) maxRef
  if maxlen > 16 then
    match ← matchUnrolled inData ref ip 16 2 with
    | (len, true) => return len
    | (len, false) => matchLoop inData ref ip maxlen maxlen len
  else matchLoop inData ref ip maxlen (maxlen + 1) 2

/-- Writes a back reference. -/
def putReference (outLen off len : Nat) (out : Bytes) : Except Fault Bytes := do
  let out ←
    if len < 7 then put outLen out ((off >>> 8) + (len <<< 5)).toUInt8
    else do
      let out ← put outLen out ((off >>> 8) + (7 <<< 5)).toUInt8
      put outLen out (len - 7).toUInt8
  put outLen out off.toUInt8

/-- What follows a round of the main loop: `return 0`, `break`, or the next round. -/
inductive Round
  | giveUp
  | leave (c : Compressor)
  | again (c : Compressor)

/-- The branch for a match, found `off + 1` bytes back. -/
def matchRound (inData : Bytes) (outLen off : Nat) (c : Compressor) : Except Fault Round := do
  let op := c.out.length
  if op + 3 + 1 ≥ outLen ∧ op - (if c.lit = 0 then 1 else 0) + 3 + 1 ≥ outLen then
    return .giveUp
  let out ← stopRun outLen c.lit c.out
  let out := undoRun c.lit out
  let octets ← matchLength inData (c.ip - off - 1) c.ip
  let out ← putReference outLen off (octets - 2) out
  let ip := c.ip + octets
  let c := { c with ip := ip, lit := 0, out := startRun out }
  if ip ≥ inData.length - 2 then return .leave c
  let hval ← frst inData (ip - 2)
  let hval ← next hval inData (ip - 2)
  let htab := Function.update c.htab (idx hval) (ip - 2).toUInt32
  let hval ← next hval inData (ip - 1)
  let htab := Function.update htab (idx hval) (ip - 1).toUInt32
  return .again { c with hval := hval, htab := htab }

/-- `lit++; *op++ = *ip++`, and the end of a run that is full. -/
def putLiteral (inData : Bytes) (outLen : Nat) (c : Compressor) : Except Fault Compressor := do
  let b ← inputAt inData c.ip
  let out ← put outLen c.out b
  if c.lit + 1 = maxLit then
    let out ← stopRun outLen (c.lit + 1) out
    return { c with ip := c.ip + 1, lit := 0, out := startRun out }
  else return { c with ip := c.ip + 1, lit := c.lit + 1, out := out }

/-- Whether the slot of the table leads to a match: near enough, not at the very start, and with
the same three bytes. -/
def isMatch (inData : Bytes) (ref ip : Nat) : Except Fault Bool := do
  -- `off` is unsigned, so that a slot at or behind `ip` is as far away as can be
  if ref < ip ∧ ip - ref - 1 < maxOff ∧ ref > 0 then
    if ← sameAt inData (ref + 2) (ip + 2) then
      if ← sameAt inData ref ip then sameAt inData (ref + 1) (ip + 1) else return false
    else return false
  else return false

/-- One round of the main loop of `lzf_compress`. -/
def compressRound (inData : Bytes) (outLen : Nat) (c : Compressor) : Except Fault Round := do
  let hval ← next c.hval inData c.ip
  let ref := (c.htab (idx hval)).toNat
  let c := { c with hval := hval, htab := Function.update c.htab (idx hval) c.ip.toUInt32 }
  if ← isMatch inData ref c.ip then matchRound inData outLen (c.ip - ref - 1) c
  else if c.out.length ≥ outLen then return .giveUp
  else do
    let c ← putLiteral inData outLen c
    return .again c

/-- The main loop. Without a result the function returns 0. -/
def compressLoop (inData : Bytes) (outLen : Nat) :
    Nat → Compressor → Except Fault (Option Compressor)
  | 0, _ => .error .endless
  | fuel + 1, c =>
      if c.ip + 2 < inData.length then do
        match ← compressRound inData outLen c with
        | .giveUp => return none
        | .leave c => return some c
        | .again c => compressLoop inData outLen fuel c
      else .ok (some c)

/-- The loop over the last bytes. -/
def literalLoop (inData : Bytes) (outLen : Nat) : Nat → Compressor → Except Fault Compressor
  | 0, _ => .error .endless
  | fuel + 1, c =>
      if c.ip < inData.length then do
        let c ← putLiteral inData outLen c
        literalLoop inData outLen fuel c
      else .ok c

end Lzf

/-- `lzf_compress`: the bytes it writes, or none when it returns 0. The table holds whatever was
on the stack. -/
def lzfCompress (htab : Nat → UInt32) (inData : Bytes) (outLen : Nat) :
    Except Fault (Option Bytes) := do
  if inData.length = 0 ∨ outLen = 0 then return none
  let hval ← frst inData 0
  match ← compressLoop inData outLen inData.length ⟨0, hval, htab, 0, startRun []⟩ with
  | none => return none
  | some c =>
      if c.out.length + 3 > outLen then return none
      let c ← literalLoop inData outLen (inData.length + 1) c
      let out ← stopRun outLen c.lit c.out
      return some (undoRun c.lit out)

end Blogd
