import Blogd.Foundation.Fault

/-! # Scanning memory

A pointer is the memory that lies behind it, up to the end of its allocation. Reading at the
end of the allocation is a fault. A scanning loop moves the pointer forward one byte at a time
while its condition holds.
-/

namespace Blogd

/-- The byte a pointer points at. -/
def deref : Bytes → Except Fault UInt8
  | [] => .error .outOfBounds
  | c :: _ => .ok c

@[simp] theorem deref_cons (c : UInt8) (rest : Bytes) : deref (c :: rest) = .ok c := rfl

/-- `while (cond(p)) p++;` -/
def scanWhile (cond : Bytes → Except Fault Bool) : Bytes → Except Fault Bytes
  | [] => .error .outOfBounds
  | c :: rest =>
      match cond (c :: rest) with
      | .error e => .error e
      | .ok true => scanWhile cond rest
      | .ok false => .ok (c :: rest)

/-! ## Runs

The conditions of interest read the byte at the pointer and the byte behind it. Such a scan drops
a run from the text in front of it. -/

/-- What is left of a text behind its first run of bytes that meet the condition, where a byte is
tested together with the next one. Behind the text comes its terminator. -/
def dropRun (p : UInt8 → UInt8 → Bool) : Bytes → Bytes
  | [] => []
  | c :: rest => if p c (rest.headD 0) then dropRun p rest else c :: rest

/-- On memory of two bytes or more, a condition reads no further than these two. -/
def LooksAt (cond : Bytes → Except Fault Bool) (p : UInt8 → UInt8 → Bool) : Prop :=
  ∀ c d rest, cond (c :: d :: rest) = .ok (p c d)

section Runs

variable {cond : Bytes → Except Fault Bool} {p : UInt8 → UInt8 → Bool}

theorem dropRun_cons_pos {c : UInt8} {rest : Bytes} (hc : p c (rest.headD 0) = true) :
    dropRun p (c :: rest) = dropRun p rest := by
  rw [dropRun, if_pos hc]

theorem dropRun_cons_neg {c : UInt8} {rest : Bytes} (hc : ¬ p c (rest.headD 0) = true) :
    dropRun p (c :: rest) = c :: rest := by
  rw [dropRun, if_neg hc]

theorem dropRun_suffix (text : Bytes) : dropRun p text <:+ text := by
  induction text with
  | nil => exact List.suffix_rfl
  | cons c rest ih =>
      unfold dropRun
      split
      next => exact ih.trans (List.suffix_cons c rest)
      next => exact List.suffix_rfl

theorem length_dropRun_le (text : Bytes) : (dropRun p text).length ≤ text.length :=
  (dropRun_suffix text).length_le

/-- A run that ends two bytes or more before the end of the memory is what the scan passes. -/
theorem scanWhile_eq_dropRun (hlooks : LooksAt cond p) {mem : Bytes}
    (hlen : 2 ≤ (dropRun p mem).length) : scanWhile cond mem = .ok (dropRun p mem) := by
  induction mem with
  | nil => exact absurd hlen (by simp [dropRun])
  | cons c rest ih =>
      cases rest with
      | nil =>
          have hle := hlen.trans (length_dropRun_le [c])
          exact absurd hle (by simp)
      | cons d rest =>
          by_cases hc : p c d = true
          · rw [dropRun_cons_pos hc] at hlen ⊢
            simp only [scanWhile, hlooks c d rest, hc]
            exact ih hlen
          · rw [dropRun_cons_neg hc]
            rw [Bool.not_eq_true] at hc
            simp only [scanWhile, hlooks c d rest, hc]

theorem scanWhile_run (hlooks : LooksAt cond p) {mem stop : Bytes} (hrun : dropRun p mem = stop)
    (hlen : 2 ≤ stop.length) : scanWhile cond mem = .ok stop := by
  rw [scanWhile_eq_dropRun hlooks (hrun.symm ▸ hlen), hrun]

/-- The terminator ends a run, unless it meets the condition itself. -/
theorem dropRun_terminated {text : Bytes}
    (hstop : dropRun p text ≠ [] ∨ ∀ d, p 0 d = false) (rest : Bytes) :
    dropRun p (text ++ 0 :: rest) = dropRun p text ++ 0 :: rest := by
  induction text with
  | nil =>
      refine dropRun_cons_neg ?_
      rw [hstop.resolve_left (fun h => h rfl)]
      exact Bool.false_ne_true
  | cons c text ih =>
      have hhead : (text ++ 0 :: rest).headD 0 = text.headD 0 := by cases text <;> rfl
      by_cases hc : p c (text.headD 0) = true
      · rw [dropRun_cons_pos hc] at hstop ⊢
        rw [← ih hstop]
        exact dropRun_cons_pos (hhead ▸ hc)
      · rw [dropRun_cons_neg hc]
        exact dropRun_cons_neg (hhead ▸ hc)

theorem scanWhile_terminated (hlooks : LooksAt cond p) {text rest : Bytes} (hrest : rest ≠ [])
    (hstop : dropRun p text ≠ [] ∨ ∀ d, p 0 d = false) :
    scanWhile cond (text ++ 0 :: rest) = .ok (dropRun p text ++ 0 :: rest) := by
  rw [← dropRun_terminated hstop rest]
  apply scanWhile_eq_dropRun hlooks
  rw [dropRun_terminated hstop rest, List.length_append, List.length_cons]
  have hpos := List.length_pos_iff.mpr hrest
  omega

/-- A condition that the terminator meets carries the scan on behind a text that is all run. -/
theorem scanWhile_through (hlooks : LooksAt cond p) {text rest : Bytes}
    (hall : dropRun p text = []) :
    scanWhile cond (text ++ 0 :: rest) = scanWhile cond (0 :: rest) := by
  induction text with
  | nil => rfl
  | cons c text ih =>
      by_cases hc : p c (text.headD 0) = true
      · rw [dropRun_cons_pos hc] at hall
        rw [← ih hall]
        cases text with
        | nil =>
            rw [List.cons_append, List.nil_append, scanWhile, hlooks]
            simp only [List.headD_nil] at hc
            simp only [hc]
        | cons d text =>
            rw [List.cons_append, List.cons_append, scanWhile, hlooks]
            simp only [List.headD_cons] at hc
            simp only [hc]
      · rw [dropRun_cons_neg hc] at hall
        exact absurd hall (List.cons_ne_nil c text)

/-- What a condition says at a text with its terminator. -/
theorem LooksAt.terminated (hlooks : LooksAt cond p) (hzero : ∀ d, p 0 d = p 0 0) {rest : Bytes}
    (hrest : rest ≠ []) (text : Bytes) :
    cond (text ++ 0 :: rest) = .ok (p (text.headD 0) (text.tail.headD 0)) := by
  match text, rest with
  | _, [] => exact absurd rfl hrest
  | [], d :: rest => exact (hlooks 0 d rest).trans (by rw [hzero d]; rfl)
  | [c], d :: rest => exact hlooks c 0 (d :: rest)
  | c :: e :: text, d :: rest => exact hlooks c e (text ++ 0 :: d :: rest)

/-- The run is a passage when each of its bytes meets the condition with each byte that can follow
it, and the byte behind the passage does not. -/
theorem dropRun_passage {passed stop : Bytes}
    (hpassed : ∀ c ∈ passed, ∀ d ∈ stop.headD 0 :: passed, p c d = true)
    (hstop : dropRun p stop = stop) : dropRun p (passed ++ stop) = stop := by
  induction passed with
  | nil => exact hstop
  | cons c passed ih =>
      have hnext : (passed ++ stop).headD 0 ∈ stop.headD 0 :: c :: passed := by
        cases passed <;> simp
      rw [List.cons_append, dropRun_cons_pos (hpassed c List.mem_cons_self _ hnext)]
      refine ih fun b hb d hd => hpassed b (List.mem_cons_of_mem c hb) d ?_
      rcases List.mem_cons.mp hd with rfl | hd
      · exact List.mem_cons_self
      · exact List.mem_cons_of_mem _ (List.mem_cons_of_mem c hd)

theorem scanWhile_passage (hlooks : LooksAt cond p) {passed stop : Bytes}
    (hpassed : ∀ c ∈ passed, ∀ d ∈ stop.headD 0 :: passed, p c d = true)
    (hstop : dropRun p stop = stop) (hlen : 2 ≤ stop.length) :
    scanWhile cond (passed ++ stop) = .ok stop :=
  scanWhile_run hlooks (dropRun_passage hpassed hstop) hlen

end Runs

end Blogd
