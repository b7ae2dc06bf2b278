import Blogd.Redis.Command

/-! # Amounts of memory

Numbers in a configuration are amounts of memory: digits and a unit. What is written for a number
is read back as that number. What is no amount is read as 0.
-/

namespace Blogd

/-- The number that digits stand for. -/
def digitsValue (digits : Bytes) : Nat := digits.foldl (fun n c => n * 10 + (c.toNat - 48)) 0

/-- `strtoll` of a text that has only digits behind its sign. It saturates, and is 0 where there
is no digit. -/
def strtoll (text : Bytes) : Int :=
  if text.head? = some 45 then max (-(2 ^ 63)) (-(digitsValue text.tail : Int))
  else min (2 ^ 63 - 1) (digitsValue text : Int)

/-- The multiplier of a unit. -/
def unitMul (u : Bytes) : Option Int :=
  if u = [] ∨ caseEqual u (ascii "b") then some 1
  else if caseEqual u (ascii "k") then some 1000
  else if caseEqual u (ascii "kb") then some 1024
  else if caseEqual u (ascii "m") then some (1000 * 1000)
  else if caseEqual u (ascii "mb") then some (1024 * 1024)
  else if caseEqual u (ascii "g") then some (1000 * 1000 * 1000)
  else if caseEqual u (ascii "gb") then some (1024 * 1024 * 1024)
  else none

/-- `memtoll`: 0 on an error. The product wraps around. -/
def memtoll (p : Bytes) : Int :=
  let u := (if p.head? = some 45 then p.tail else p).dropWhile isdigit
  match unitMul u with
  | none => 0
  | some mul =>
      let digits := p.length - u.length
      if digits ≥ 128 then 0 else (strtoll (p.take digits) * mul).bmod (2 ^ 64)

/-- A `long long` that is stored in an `unsigned int`. -/
def unsignedInt (n : Int) : Nat := (n % 2 ^ 32).toNat

def gb : Nat := 1024 * 1024 * 1024
def mb : Nat := 1024 * 1024
def kb : Nat := 1024

/-- `rewriteConfigFormatMemory` of an `unsigned int`. -/
def rewriteConfigFormatMemory (bytes : Nat) : Bytes :=
  if bytes ≠ 0 ∧ bytes % gb = 0 then decimal (bytes / gb) ++ ascii "gb"
  else if bytes ≠ 0 ∧ bytes % mb = 0 then decimal (bytes / mb) ++ ascii "mb"
  else if bytes ≠ 0 ∧ bytes % kb = 0 then decimal (bytes / kb) ++ ascii "kb"
  else decimal bytes

/-! ## Reading an amount back -/

theorem digitsValue_append (digits : Bytes) (c : UInt8) :
    digitsValue (digits ++ [c]) = digitsValue digits * 10 + (c.toNat - 48) := by
  simp [digitsValue]

theorem digitsValue_decimal (n : Nat) : digitsValue (decimal n) = n := by
  induction n using Nat.strongRecOn with
  | ind n ih =>
      rcases Nat.lt_or_ge n 10 with hn | hn
      · rw [decimal_of_lt hn]
        simp [digitsValue, toNat_digitByte hn]
      · rw [decimal_of_le hn, digitsValue_append, ih (n / 10) (by omega),
          toNat_digitByte (Nat.mod_lt n (by omega))]
        omega

theorem head?_decimal_ne (n : Nat) (rest : Bytes) : (decimal n ++ rest).head? ≠ some 45 := by
  cases hdecimal : decimal n with
  | nil => exact absurd hdecimal (decimal_ne_nil n)
  | cons c digits =>
      have hdigit : isdigit c = true := by
        apply isdigit_of_mem_decimal
        rw [hdecimal]
        exact List.mem_cons_self
      rw [List.cons_append, List.head?_cons, ne_eq, Option.some.injEq]
      rintro rfl
      exact absurd hdigit (by decide)

/-- A number with a unit is that many units. -/
theorem memtoll_decimal {n : Nat} {u : Bytes} {mul : Nat} (hn : n < 2 ^ 32)
    (hu : u.dropWhile isdigit = u) (hmul : unitMul u = some (mul : Int))
    (hfits : n * mul < 2 ^ 63) : memtoll (decimal n ++ u) = n * mul := by
  have hdigits : (decimal n ++ u).dropWhile isdigit = u := by
    rw [List.dropWhile_append_of_pos fun c hc => isdigit_of_mem_decimal hc]
    exact hu
  have hshort : (decimal n).length ≤ 10 :=
    (length_decimal_le_iff (by decide)).mpr (Nat.lt_trans hn (by decide))
  have hlength : (decimal n ++ u).length - u.length = (decimal n).length := by
    rw [List.length_append]
    omega
  have htake : (decimal n ++ u).take (decimal n).length = decimal n := List.take_left
  have hvalue : strtoll (decimal n) = n := by
    have hhead := head?_decimal_ne n []
    rw [List.append_nil] at hhead
    rw [strtoll, if_neg hhead, digitsValue_decimal]
    omega
  rw [memtoll, if_neg (head?_decimal_ne n u), hdigits, hmul]
  dsimp only
  rw [hlength, if_neg (by omega), htake, hvalue]
  have hcast : (n : Int) * (mul : Int) = ((n * mul : Nat) : Int) := (Int.natCast_mul n mul).symm
  rw [hcast]
  exact Int.bmod_eq_of_le (by omega) (by omega)

/-- What is written for a number is read as that number. -/
theorem memtoll_formatMemory {n : Nat} (hn : n < 2 ^ 32) :
    memtoll (rewriteConfigFormatMemory n) = n := by
  have hunit : ∀ {size : Nat} {u : Bytes}, n % size = 0 → u.dropWhile isdigit = u →
      unitMul u = some (size : Int) → memtoll (decimal (n / size) ++ u) = n := by
    intro size u hmod hu hmul
    have hwhole : n / size * size = n := Nat.div_mul_cancel (Nat.dvd_of_mod_eq_zero hmod)
    have hread := memtoll_decimal (Nat.lt_of_le_of_lt (Nat.div_le_self n size) hn) hu hmul
      (by omega)
    rw [hread, ← Int.natCast_mul, hwhole]
  unfold rewriteConfigFormatMemory
  split
  next hgb => exact hunit hgb.2 (by decide) (by decide)
  next =>
    split
    next hmb => exact hunit hmb.2 (by decide) (by decide)
    next =>
      split
      next hkb => exact hunit hkb.2 (by decide) (by decide)
      next =>
        have hplain := @hunit 1 [] (Nat.mod_one n) rfl (by decide)
        rwa [Nat.div_one, List.append_nil] at hplain

end Blogd
