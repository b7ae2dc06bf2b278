import Mathlib.Algebra.Group.Int.Defs
import Mathlib.Algebra.Group.Nat.Defs
import Mathlib.Data.List.TakeWhile
import Mathlib.Tactic.Common

/-! # Byte strings

C strings are lists of bytes. The character classes are those of the `C` locale, and numbers
are printed as `%d` and `%u` print them.
-/

namespace Blogd

abbrev Bytes := List UInt8

instance : LawfulBEq Bytes := inferInstance

/-- The bytes of an ASCII literal. -/
def ascii (s : String) : Bytes := s.toList.map fun c => c.toNat.toUInt8

/-- The C string that starts at the given memory: everything before the first NUL. -/
def cstr (mem : Bytes) : Bytes := mem.takeWhile (· ≠ 0)

def isspace (c : UInt8) : Bool := c = 32 || (9 ≤ c && c ≤ 13)

def isdigit (c : UInt8) : Bool := 48 ≤ c && c ≤ 57

abbrev CR : UInt8 := 13
abbrev LF : UInt8 := 10

def crlf : Bytes := [CR, LF]

/-- A property of the bytes of a text, checked one after the other. -/
theorem forall_mem_of_all {p : UInt8 → Prop} [DecidablePred p] {text : Bytes}
    (hall : text.all (fun c => decide (p c)) = true) : ∀ c ∈ text, p c :=
  fun c hc => of_decide_eq_true (List.all_eq_true.mp hall c hc)

theorem cstr_append {s : Bytes} (hs : 0 ∉ s) (rest : Bytes) :
    cstr (s ++ rest) = s ++ cstr rest := by
  have hall : ∀ c ∈ s, decide (c ≠ 0) = true := by
    intro c hc
    simpa using fun (heq : c = 0) => hs (heq ▸ hc)
  rw [cstr, List.takeWhile_append_of_pos hall]
  rfl

theorem cstr_append_nul {s : Bytes} (hs : 0 ∉ s) (rest : Bytes) : cstr (s ++ 0 :: rest) = s := by
  rw [cstr_append hs]
  exact List.append_nil s

theorem cstr_eq_self {s : Bytes} (hs : 0 ∉ s) : cstr s = s := by
  have hread := cstr_append hs []
  rw [List.append_nil] at hread
  exact hread.trans (List.append_nil s)

theorem nul_not_mem_cstr (mem : Bytes) : 0 ∉ cstr mem := by
  intro hmem
  simpa using List.mem_takeWhile_imp hmem

@[simp] theorem cstr_nil : cstr [] = [] := rfl

@[simp] theorem cstr_cstr (mem : Bytes) : cstr (cstr mem) = cstr mem :=
  cstr_eq_self (nul_not_mem_cstr mem)

/-! ## Decimal numbers -/

/-- The byte of a decimal digit. -/
def digitByte (d : Nat) : UInt8 := (48 + d).toUInt8

/-- What `sprintf` prints for `%d`, `%u` and `%zu` at a non-negative number. -/
def decimal (n : Nat) : Bytes := (Nat.toDigits 10 n).map fun c => c.toNat.toUInt8

theorem byte_digitChar {d : Nat} (hd : d < 10) :
    (Nat.digitChar d).toNat.toUInt8 = digitByte d := by
  revert d
  decide

theorem decimal_of_lt {n : Nat} (hn : n < 10) : decimal n = [digitByte n] := by
  simp [decimal, Nat.toDigits_of_lt_base hn, byte_digitChar hn]

/-- The last digit comes off the end. -/
theorem decimal_of_le {n : Nat} (hn : 10 ≤ n) :
    decimal n = decimal (n / 10) ++ [digitByte (n % 10)] := by
  have hmod : n % 10 < 10 := Nat.mod_lt _ (by omega)
  simp [decimal, Nat.toDigits_of_base_le (by omega) hn, byte_digitChar hmod]

theorem toNat_digitByte {d : Nat} (hd : d < 10) : (digitByte d).toNat = 48 + d := by
  revert d
  decide

theorem digitByte_injOn {d e : Nat} (hd : d < 10) (he : e < 10)
    (heq : digitByte d = digitByte e) : d = e := by
  have hnat := congrArg UInt8.toNat heq
  rw [toNat_digitByte hd, toNat_digitByte he] at hnat
  omega

theorem isdigit_digitByte {d : Nat} (hd : d < 10) : isdigit (digitByte d) = true := by
  revert d
  decide

theorem isdigit_of_mem_decimal {n : Nat} {c : UInt8} (hc : c ∈ decimal n) : isdigit c = true := by
  induction n using Nat.strongRecOn with
  | ind n ih =>
      rcases Nat.lt_or_ge n 10 with hn | hn
      · rw [decimal_of_lt hn, List.mem_singleton] at hc
        subst hc
        exact isdigit_digitByte hn
      · rw [decimal_of_le hn, List.mem_append, List.mem_singleton] at hc
        rcases hc with hc | rfl
        · exact ih (n / 10) (by omega) hc
        · exact isdigit_digitByte (Nat.mod_lt _ (by omega))

theorem decimal_no_nul (n : Nat) : (0 : UInt8) ∉ decimal n := by
  intro hmem
  exact absurd (isdigit_of_mem_decimal hmem) (by decide)

theorem decimal_no_cr (n : Nat) : CR ∉ decimal n := by
  intro hmem
  exact absurd (isdigit_of_mem_decimal hmem) (by decide)

theorem decimal_ne_nil (n : Nat) : decimal n ≠ [] := by
  simp [decimal, Nat.toDigits_ne_nil]

theorem length_decimal_le_iff {n k : Nat} (hk : 0 < k) :
    (decimal n).length ≤ k ↔ n < 10 ^ k := by
  rw [decimal, List.length_map]
  exact Nat.length_toDigits_le_iff (by omega) hk

theorem decimal_injective : Function.Injective decimal := by
  intro n
  induction n using Nat.strongRecOn with
  | ind n ih =>
      intro m heq
      -- the shorter number is a single digit, the longer one splits off its last digit
      rcases Nat.lt_or_ge n 10 with hn | hn <;> rcases Nat.lt_or_ge m 10 with hm | hm
      · rw [decimal_of_lt hn, decimal_of_lt hm, List.singleton_inj] at heq
        exact digitByte_injOn hn hm heq
      · rw [decimal_of_lt hn, decimal_of_le hm] at heq
        have hlength := congrArg List.length heq
        have hpos := List.length_pos_iff.mpr (decimal_ne_nil (m / 10))
        simp only [List.length_append, List.length_cons, List.length_nil] at hlength
        omega
      · rw [decimal_of_le hn, decimal_of_lt hm] at heq
        have hlength := congrArg List.length heq
        have hpos := List.length_pos_iff.mpr (decimal_ne_nil (n / 10))
        simp only [List.length_append, List.length_cons, List.length_nil] at hlength
        omega
      · rw [decimal_of_le hn, decimal_of_le hm] at heq
        obtain ⟨hinit, hlast⟩ := List.append_inj' heq rfl
        have hdiv := ih (n / 10) (by omega) hinit
        have hmod := digitByte_injOn (Nat.mod_lt n (by omega)) (Nat.mod_lt m (by omega))
          (List.singleton_inj.mp hlast)
        omega

/-- A number is told by its last digit from the number that has only that digit. -/
theorem getLast?_decimal (n : Nat) : (decimal n).getLast? = some (digitByte (n % 10)) := by
  rcases Nat.lt_or_ge n 10 with hn | hn
  · rw [decimal_of_lt hn, Nat.mod_eq_of_lt hn]
    rfl
  · rw [decimal_of_le hn, List.getLast?_append]
    rfl

end Blogd
