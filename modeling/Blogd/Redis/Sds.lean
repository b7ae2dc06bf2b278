import Blogd.Foundation.Fault

/-! # Dynamic strings

An sds string owns `alloc + 1` bytes of memory, of which the first `len` are its content.
Memory that an allocation returns is arbitrary, and growing in place keeps every old byte
while moving to another header type keeps only the content and its terminator.
-/

namespace Blogd

inductive SdsType
  | type5
  | type8
  | type16
  | type32
  | type64
deriving DecidableEq, Repr

def sdsReqType (size : Nat) : SdsType :=
  if size < 2 ^ 5 then .type5
  else if size < 2 ^ 8 then .type8
  else if size < 2 ^ 16 then .type16
  else if size < 2 ^ 32 then .type32
  else .type64

def sdsMaxPrealloc : Nat := 1024 * 1024

/-- The content is shorter than the memory, so that its terminator fits. -/
structure Sds where
  type : SdsType
  len : Nat
  mem : Bytes
  len_lt : len < mem.length

namespace Sds

def alloc (s : Sds) : Nat := s.mem.length - 1

def content (s : Sds) : Bytes := s.mem.take s.len

/-- The byte after the content is NUL. -/
def Terminated (s : Sds) : Prop := s.mem[s.len]? = some 0

/-- `sdsavail`: a string of type 5 does not remember its free space. -/
def avail (s : Sds) : Nat :=
  match s.type with
  | .type5 => 0
  | _ => s.alloc - s.len

/-- `sdsempty` -/
def empty : Sds := ⟨.type8, 0, [0], by decide⟩

/-- `sdsnewlen(NULL, n)` followed by `sdsclear`: zeroed memory without content. -/
def cleared (n : Nat) : Sds :=
  ⟨match sdsReqType n with
    | .type5 => if n = 0 then .type8 else .type5
    | t => t, 0, List.replicate (n + 1) 0, by simp⟩

/-- An allocation of `n` bytes that begins with the bytes kept from the old one. -/
def grown (junk : Nat → UInt8) (kept : Bytes) (n : Nat) : Bytes :=
  (kept ++ (List.range (n - kept.length)).map fun i => junk (kept.length + i)).take n

theorem length_grown (junk : Nat → UInt8) (kept : Bytes) (n : Nat) :
    (grown junk kept n).length = n := by
  simp only [grown, List.length_take, List.length_append, List.length_map, List.length_range]
  omega

/-- The allocation that `sdsMakeRoomFor` requests when there is not enough room. -/
def newlen (s : Sds) (addlen : Nat) : Nat :=
  if s.len + addlen < sdsMaxPrealloc then (s.len + addlen) * 2
  else s.len + addlen + sdsMaxPrealloc

theorem len_le_newlen (s : Sds) (addlen : Nat) : s.len + addlen ≤ s.newlen addlen := by
  unfold newlen
  split <;> omega

def makeRoomType (size : Nat) : SdsType :=
  match sdsReqType size with
  | .type5 => .type8
  | t => t

/-- `sdsMakeRoomFor` -/
def makeRoomFor (junk : Nat → UInt8) (s : Sds) (addlen : Nat) : Sds :=
  if addlen ≤ s.avail then s
  else
    let type := makeRoomType (s.newlen addlen)
    -- `realloc` keeps the whole block, and a header of another type copies the string alone
    let kept := if s.type = type then s.mem else s.mem.take (s.len + 1)
    ⟨type, s.len, grown junk kept (s.newlen addlen + 1), by
      have := s.len_le_newlen addlen
      rw [length_grown]
      omega⟩

/-- A memory write at an offset. The length field does not change. -/
def write (s : Sds) (off : Nat) (data : Bytes) : Except Fault Sds :=
  if h : off + data.length ≤ s.mem.length then
    .ok ⟨s.type, s.len, s.mem.take off ++ data ++ s.mem.drop (off + data.length), by
      have := s.len_lt
      simp only [List.length_append, List.length_take, List.length_drop]
      omega⟩
  else .error .overflow

/-- The assertion of `sdsIncrLen`. -/
def incrLenOk (s : Sds) (incr : Int) : Bool :=
  match s.type with
  | .type5 => (0 < incr ∧ s.len + incr < 32) ∨ (incr < 0 ∧ -incr ≤ s.len)
  | _ => (0 ≤ incr ∧ incr ≤ s.alloc - s.len) ∨ (incr < 0 ∧ -incr ≤ s.len)

/-- `sdsIncrLen` -/
def incrLen (s : Sds) (incr : Int) : Except Fault Sds :=
  if s.incrLenOk incr then
    if h : (s.len + incr).toNat < s.mem.length then
      .ok ⟨s.type, (s.len + incr).toNat, s.mem.set (s.len + incr).toNat 0, by simpa using h⟩
    else .error .overflow
  else .error .assertion

/-- An index of `sdsrange`, counted from the end when negative. -/
def index (s : Sds) (i : Int) : Nat := if i < 0 then (s.len + i).toNat else i.toNat

/-- The number of bytes `sdsrange` keeps. The last index is cut to the string. -/
def rangeLen (s : Sds) (first last : Nat) : Nat :=
  if last < first ∨ s.len ≤ first then 0 else min last (s.len - 1) + 1 - first

theorem rangeLen_le (s : Sds) (first last : Nat) : s.rangeLen first last ≤ s.len - first := by
  unfold rangeLen
  split <;> omega

/-- `sdsrange`. Moving from offset 0, or moving nothing, leaves the memory as it is. -/
def range (s : Sds) (start stop : Int) : Sds :=
  if s.len = 0 then s
  else
    ⟨s.type, s.rangeLen (s.index start) (s.index stop),
      ((s.mem.drop (s.index start)).take (s.rangeLen (s.index start) (s.index stop)) ++
        s.mem.drop (s.rangeLen (s.index start) (s.index stop))).set
          (s.rangeLen (s.index start) (s.index stop)) 0, by
        have := s.rangeLen_le (s.index start) (s.index stop)
        have := s.len_lt
        simp only [List.length_set, List.length_append, List.length_take, List.length_drop]
        omega⟩

/-! ## What the operations keep -/

@[simp] theorem length_content (s : Sds) : s.content.length = s.len := by
  have := s.len_lt
  simp only [content, List.length_take]
  omega

theorem content_eq_nil (s : Sds) (hlen : s.len = 0) : s.content = [] := by
  simp [content, hlen]

@[simp] theorem makeRoomFor_len (junk : Nat → UInt8) (s : Sds) (addlen : Nat) :
    (s.makeRoomFor junk addlen).len = s.len := by
  unfold makeRoomFor
  split <;> rfl

theorem take_grown {junk : Nat → UInt8} {kept : Bytes} {n k : Nat} (hk : k ≤ kept.length)
    (hn : k ≤ n) : (grown junk kept n).take k = kept.take k := by
  rw [grown, List.take_take, Nat.min_eq_left hn, List.take_append_of_le_length hk]

/-- The content and its terminator survive. -/
theorem makeRoomFor_take (junk : Nat → UInt8) (s : Sds) (addlen : Nat) :
    (s.makeRoomFor junk addlen).mem.take (s.len + 1) = s.mem.take (s.len + 1) := by
  have hlen := s.len_lt
  have hnew := s.len_le_newlen addlen
  unfold makeRoomFor
  split
  next => rfl
  next hroom =>
    dsimp only
    split
    next => rw [take_grown (by omega) (by omega)]
    next =>
      rw [take_grown (by rw [List.length_take]; omega) (by omega), List.take_take, Nat.min_self]

theorem makeRoomFor_content (junk : Nat → UInt8) (s : Sds) (addlen : Nat) :
    (s.makeRoomFor junk addlen).content = s.content := by
  have htake := congrArg (List.take s.len) (s.makeRoomFor_take junk addlen)
  simpa [content, List.take_take] using htake

theorem makeRoomFor_alloc (junk : Nat → UInt8) (s : Sds) (addlen : Nat) :
    (s.makeRoomFor junk addlen).alloc =
      if addlen ≤ s.avail then s.alloc else s.newlen addlen := by
  unfold makeRoomFor
  split
  next => rfl
  next => simp [alloc, length_grown]

theorem makeRoomType_ne_type5 (size : Nat) : makeRoomType size ≠ .type5 := by
  unfold makeRoomType
  split
  next => decide
  next h => exact h

/-- There is room for what was asked for. -/
theorem le_makeRoomFor_avail (junk : Nat → UInt8) (s : Sds) (addlen : Nat) :
    addlen ≤ (s.makeRoomFor junk addlen).avail := by
  by_cases hroom : addlen ≤ s.avail
  · simp [makeRoomFor, hroom]
  · have halloc := s.makeRoomFor_alloc junk addlen
    have hlen := s.makeRoomFor_len junk addlen
    have hnew := s.len_le_newlen addlen
    rw [if_neg hroom] at halloc
    have htype : (s.makeRoomFor junk addlen).type = makeRoomType (s.newlen addlen) := by
      simp [makeRoomFor, hroom]
    have hne := makeRoomType_ne_type5 (s.newlen addlen)
    unfold avail
    split
    next h => exact absurd (htype.symm.trans h) hne
    next => omega

/-- A string of type 5 has no room, so it is never the result. -/
theorem makeRoomFor_ne_type5 (junk : Nat → UInt8) (s : Sds) {addlen : Nat} (haddlen : 0 < addlen) :
    (s.makeRoomFor junk addlen).type ≠ .type5 := by
  intro htype
  have hroom := s.le_makeRoomFor_avail junk addlen
  rw [avail, htype] at hroom
  exact Nat.not_lt_of_ge hroom haddlen

theorem avail_le (s : Sds) : s.avail ≤ s.alloc - s.len := by
  unfold avail
  split <;> omega

theorem write_ok {s : Sds} {off : Nat} {data : Bytes}
    (hfits : off + data.length ≤ s.mem.length) :
    ∃ t, s.write off data = .ok t ∧ t.type = s.type ∧ t.len = s.len ∧
      t.mem = s.mem.take off ++ data ++ s.mem.drop (off + data.length) := by
  refine ⟨_, dif_pos hfits, rfl, rfl, rfl⟩

theorem write_overflow {s : Sds} {off : Nat} {data : Bytes}
    (hfits : ¬ off + data.length ≤ s.mem.length) : s.write off data = .error .overflow :=
  dif_neg hfits

/-- Growing the length within the room asked for passes the assertion. -/
theorem incrLen_ok {s : Sds} {n : Nat} (hroom : n ≤ s.avail) (htype : s.type ≠ .type5) :
    ∃ t, s.incrLen n = .ok t ∧ t.type = s.type ∧ t.len = s.len + n ∧
      t.mem = s.mem.set (s.len + n) 0 := by
  have havail := s.avail_le
  have hlen := s.len_lt
  have halloc : s.alloc = s.mem.length - 1 := rfl
  have hok : s.incrLenOk n = true := by
    unfold incrLenOk
    split
    next h => exact absurd h htype
    next => simp only [decide_eq_true_eq]; omega
  have hnat : ((s.len : Int) + n).toNat = s.len + n := by omega
  refine ⟨⟨s.type, s.len + n, s.mem.set (s.len + n) 0, by rw [List.length_set]; omega⟩, ?_,
    rfl, rfl, rfl⟩
  simp only [incrLen, hok, if_true, hnat]
  rw [dif_pos (by omega)]

theorem mem_length (s : Sds) : s.mem.length = s.alloc + 1 := by
  have := s.len_lt
  unfold alloc
  omega

/-- A string copied with its terminator to the front of an empty buffer becomes the content. -/
theorem write_incrLen {s : Sds} {data : Bytes} (hlen : s.len = 0) (htype : s.type ≠ .type5)
    (hroom : data.length ≤ s.alloc) :
    ∃ written filled : Sds, s.write 0 (data ++ [0]) = .ok written ∧
      written.incrLen data.length = .ok filled ∧ filled.content = data ∧
      filled.type = s.type ∧ filled.alloc = s.alloc := by
  have hmem := s.mem_length
  obtain ⟨written, hwrite, hwtype, hwlen, hwmem⟩ :=
    @write_ok s 0 (data ++ [0]) (by rw [List.length_append, List.length_singleton]; omega)
  rw [List.take_zero, List.nil_append, Nat.zero_add] at hwmem
  have hwalloc : written.alloc = s.alloc := by
    rw [alloc, hwmem, List.length_append, List.length_drop, List.length_append,
      List.length_singleton]
    omega
  have havail : data.length ≤ written.avail := by
    unfold avail
    split
    next h => exact absurd (hwtype.symm.trans h) htype
    next => omega
  obtain ⟨filled, hincr, hftype, hflen, hfmem⟩ := incrLen_ok havail (hwtype ▸ htype)
  refine ⟨written, filled, hwrite, hincr, ?_, hftype.trans hwtype, ?_⟩
  · rw [content, hfmem, hflen, hwlen, hlen, Nat.zero_add, List.take_set_of_le (Nat.le_refl _),
      hwmem, List.append_assoc, List.take_left]
  · rw [← hwalloc, alloc, alloc, hfmem, List.length_set]

theorem index_natCast (s : Sds) (n : Nat) : s.index n = n := by
  unfold index
  rw [if_neg (by omega)]
  omega

theorem index_neg_one (s : Sds) : s.index (-1) = s.len - 1 := by
  unfold index
  rw [if_pos (by omega)]
  omega

/-- Cutting a prefix off. -/
theorem range_content (s : Sds) (n : Nat) : (s.range n (-1)).content = s.content.drop n := by
  have hlt := s.len_lt
  by_cases hlen : s.len = 0
  · simp [range, hlen, content]
  · simp only [range, hlen, if_false, content, index_natCast, index_neg_one]
    have hkept : s.rangeLen n (s.len - 1) = s.len - n := by
      unfold rangeLen
      split <;> omega
    rw [hkept, List.take_set_of_le (by omega), List.take_append_of_le_length (by simp; omega),
      List.take_take, Nat.min_self, List.drop_take]

theorem range_alloc (s : Sds) (start stop : Int) : (s.range start stop).alloc = s.alloc := by
  by_cases hlen : s.len = 0
  · simp [range, hlen]
  · have hle := s.rangeLen_le (s.index start) (s.index stop)
    have hlt := s.len_lt
    simp only [range, hlen, if_false, alloc, List.length_set, List.length_append,
      List.length_take, List.length_drop]
    omega

theorem range_type (s : Sds) (start stop : Int) : (s.range start stop).type = s.type := by
  unfold range
  split <;> rfl

theorem range_terminated {s : Sds} (hs : s.Terminated) (start stop : Int) :
    (s.range start stop).Terminated := by
  by_cases hlen : s.len = 0
  · simpa [range, hlen] using hs
  · have hlt := (s.range start stop).len_lt
    simp only [range, hlen, if_false, List.length_set] at hlt
    simp only [Terminated, range, hlen, if_false, List.getElem?_set_self hlt]

end Sds

end Blogd
