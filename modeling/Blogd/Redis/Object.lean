import Mathlib.Data.List.Induction
import Blogd.Foundation.Fault

/-! # Objects and the keyspace

A string object is stored as its bytes, or as an integer when its text is the canonical decimal
form of a `long`. The pointer field of an integer object is the integer itself.
-/

namespace Blogd

def ullongMax : Nat := 2 ^ 64 - 1
def llongMax : Nat := 2 ^ 63 - 1

/-- The digit loop of `string2ll`, which gives up where 64 bits overflow. -/
def string2llDigits (v : Nat) : Bytes → Option Nat
  | [] => some v
  | c :: rest =>
      if isdigit c then
        if v > ullongMax / 10 then none
        else if v * 10 > ullongMax - (c.toNat - 48) then none
        else string2llDigits (v * 10 + (c.toNat - 48)) rest
      else none

/-- `string2ll` -/
def string2ll (s : Bytes) : Option Int :=
  match s with
  | [] => none
  | [48] => some 0
  | 45 :: c :: rest =>
      if 49 ≤ c ∧ c ≤ 57 then
        match string2llDigits (c.toNat - 48) rest with
        | some v => if v > llongMax + 1 then none else some (-v)
        | none => none
      else none
  | c :: rest =>
      if 49 ≤ c ∧ c ≤ 57 then
        match string2llDigits (c.toNat - 48) rest with
        | some v => if v > llongMax then none else some v
        | none => none
      else none

/-- The digits of a number, read behind another number, give the two written together. -/
theorem string2llDigits_append {v w : Nat} {s : Bytes} (c : UInt8)
    (hs : string2llDigits v s = some w) :
    string2llDigits v (s ++ [c]) = string2llDigits w [c] := by
  induction s generalizing v with
  | nil =>
      cases hs
      rfl
  | cons b s ih =>
      simp only [string2llDigits] at hs
      split at hs
      next hb =>
        split at hs
        next => cases hs
        next hv =>
          split at hs
          next => cases hs
          next hadd =>
            rw [List.cons_append, string2llDigits, if_pos hb, if_neg hv, if_neg hadd]
            exact ih hs
      next => cases hs

/-- Printing a positive number leaves its leading digit and a tail that reads back. -/
theorem decimal_reads {n : Nat} (hpos : 0 < n) (hn : n ≤ llongMax) :
    ∃ c rest, decimal n = c :: rest ∧ 49 ≤ c ∧ c ≤ 57 ∧
      string2llDigits (c.toNat - 48) rest = some n := by
  induction n using Nat.strongRecOn with
  | ind n ih =>
      rcases Nat.lt_or_ge n 10 with hlt | hge
      · have hbyte := toNat_digitByte hlt
        refine ⟨digitByte n, [], decimal_of_lt hlt, ?_, ?_, ?_⟩
        · rw [UInt8.le_iff_toNat_le, hbyte]
          change 49 ≤ 48 + n
          omega
        · rw [UInt8.le_iff_toNat_le, hbyte]
          change 48 + n ≤ 57
          omega
        · rw [hbyte, string2llDigits]
          simp
      -- the last digit is read after all the others
      · obtain ⟨c, rest, heq, hlow, hhigh, hread⟩ := ih (n / 10) (by omega) (by omega) (by omega)
        refine ⟨c, rest ++ [digitByte (n % 10)], ?_, hlow, hhigh, ?_⟩
        · rw [decimal_of_le hge, heq]
          rfl
        · have hmod : n % 10 < 10 := Nat.mod_lt _ (by omega)
          have hbyte := toNat_digitByte hmod
          rw [string2llDigits_append _ hread, string2llDigits, if_pos (isdigit_digitByte hmod),
            hbyte]
          unfold llongMax at hn
          rw [if_neg (by unfold ullongMax; omega), if_neg (by unfold ullongMax; omega)]
          simp only [string2llDigits, Option.some.injEq]
          omega

/-- What `sprintf` prints, `string2ll` reads back. -/
theorem string2ll_decimal {n : Nat} (hn : n ≤ llongMax) :
    string2ll (decimal n) = some (n : Int) := by
  rcases Nat.eq_zero_or_pos n with rfl | hpos
  · decide
  · obtain ⟨c, rest, heq, hlow, hhigh, hread⟩ := decimal_reads hpos hn
    have hminus : c ≠ 45 := by
      rintro rfl
      exact absurd hlow (by decide)
    have hzero : ¬ (c = 48 ∧ rest = []) := by
      rintro ⟨rfl, -⟩
      exact absurd hlow (by decide)
    rw [heq]
    unfold string2ll
    split
    next h => cases h
    next h => cases h; exact absurd ⟨rfl, rfl⟩ hzero
    next h => cases h; exact absurd rfl hminus
    next h =>
      cases h
      rw [if_pos ⟨hlow, hhigh⟩, hread]
      simp only [if_neg (by omega : ¬ n > llongMax)]

/-! ## Objects -/

inductive Robj
  | string (s : Bytes)
  | int (value : Int)
  | other
deriving DecidableEq, Repr

/-- What a `char *` can be. An integer object's pointer is no address of a string. -/
inductive CharPtr
  | null
  | str (s : Bytes)
  | wild
deriving DecidableEq, Repr

/-- The `ptr` field of a string object, read as a C string. -/
def Robj.ptr : Robj → CharPtr
  | .string s => .str (cstr s)
  | .int value => if value = 0 then .null else .wild
  | .other => .wild

/-- `tryObjectEncoding` -/
def tryObjectEncoding (s : Bytes) : Robj :=
  if s.length ≤ 20 then
    match string2ll s with
    | some value => .int value
    | none => .string s
  else .string s

/-! ## The keyspace -/

structure Db where
  dict : Bytes → Option Robj
  expires : Bytes → Option Int

namespace Db

def empty : Db := ⟨fun _ => none, fun _ => none⟩

/-- `setKey`: the key gets a new value and loses its expire time. -/
def setKey (db : Db) (key : Bytes) (value : Robj) : Db :=
  ⟨fun k => if k = key then some value else db.dict k,
    fun k => if k = key then none else db.expires k⟩

/-- `setCommand` with two arguments. -/
def setCommand (db : Db) (key value : Bytes) : Db := db.setKey key (tryObjectEncoding value)

/-- `dbDelete` -/
def dbDelete (db : Db) (key : Bytes) : Db :=
  ⟨fun k => if k = key then none else db.dict k, fun k => if k = key then none else db.expires k⟩

/-- `executeRedisCommand({"set", key, value})`, one after the other. -/
def setAll (db : Db) (commands : List (Bytes × Bytes)) : Db :=
  commands.foldl (fun db kv => db.setCommand kv.1 kv.2) db

@[simp] theorem setAll_nil (db : Db) : db.setAll [] = db := rfl

@[simp] theorem setAll_append (db : Db) (first second : List (Bytes × Bytes)) :
    db.setAll (first ++ second) = (db.setAll first).setAll second := by
  simp [setAll]

theorem setAll_expires {db : Db} (hdb : ∀ k, db.expires k = none)
    (commands : List (Bytes × Bytes)) : ∀ k, (db.setAll commands).expires k = none := by
  induction commands generalizing db with
  | nil => exact hdb
  | cons kv rest ih =>
      apply ih
      intro k
      simp [setCommand, setKey, hdb]

/-- The last write of a key wins, and a key without a write keeps its value. -/
theorem setAll_dict (db : Db) (commands : List (Bytes × Bytes)) (key : Bytes) :
    (db.setAll commands).dict key =
      match commands.reverse.find? (fun kv => kv.1 = key) with
      | some kv => some (tryObjectEncoding kv.2)
      | none => db.dict key := by
  induction commands using List.reverseRecOn with
  | nil => rfl
  | append_singleton rest kv ih =>
      rw [setAll_append, List.reverse_append, List.reverse_singleton, List.singleton_append,
        List.find?_cons]
      by_cases hkey : kv.1 = key
      · simp [setAll, setCommand, setKey, hkey]
      · have hkey' : ¬ key = kv.1 := fun h => hkey h.symm
        simpa [setAll, setCommand, setKey, hkey, hkey'] using ih

/-- Keys that no command writes are untouched. -/
theorem setAll_dict_of_notMem {db : Db} {commands : List (Bytes × Bytes)} {key : Bytes}
    (hkey : key ∉ commands.map Prod.fst) : (db.setAll commands).dict key = db.dict key := by
  rw [setAll_dict]
  have hnone : commands.reverse.find? (fun kv => kv.1 = key) = none := by
    rw [List.find?_eq_none]
    intro kv hkv heq
    exact hkey (List.mem_map.mpr ⟨kv, List.mem_reverse.mp hkv, by simpa using heq⟩)
  rw [hnone]

/-- A written key has the same value whatever was there before. -/
theorem setAll_dict_of_mem {commands : List (Bytes × Bytes)} {key : Bytes}
    (hkey : key ∈ commands.map Prod.fst) (db db' : Db) :
    (db.setAll commands).dict key = (db'.setAll commands).dict key ∧
      (db.setAll commands).dict key ≠ none := by
  obtain ⟨kv, hkv, heq⟩ := List.mem_map.mp hkey
  rw [setAll_dict, setAll_dict]
  cases hfind : commands.reverse.find? (fun kv => kv.1 = key) with
  | some found => exact ⟨rfl, by simp⟩
  | none =>
      rw [List.find?_eq_none] at hfind
      exact absurd (by simpa using heq) (hfind kv (List.mem_reverse.mpr hkv))

/-- A key that is only ever written with one value has that value. -/
theorem setAll_dict_of_unique {commands : List (Bytes × Bytes)} {key value : Bytes}
    (hmem : (key, value) ∈ commands) (hunique : ∀ other, (key, other) ∈ commands → other = value)
    (db : Db) : (db.setAll commands).dict key = some (tryObjectEncoding value) := by
  rw [setAll_dict]
  cases hfind : commands.reverse.find? (fun kv => kv.1 = key) with
  | none =>
      rw [List.find?_eq_none] at hfind
      exact absurd (decide_eq_true rfl) (hfind (key, value) (List.mem_reverse.mpr hmem))
  | some found =>
      have hfound := List.mem_reverse.mp (List.mem_of_find?_eq_some hfind)
      have hkey : found.1 = key := by simpa using List.find?_some hfind
      have hvalue : found.2 = value := hunique found.2 (hkey ▸ hfound)
      simp only [hvalue]

/-- Commands on a store: what they write alone, over what was there before. -/
theorem setAll_dict_or (db : Db) (commands : List (Bytes × Bytes)) (key : Bytes) :
    (db.setAll commands).dict key = ((empty.setAll commands).dict key).or (db.dict key) := by
  by_cases hkey : key ∈ commands.map Prod.fst
  · obtain ⟨hsame, hbound⟩ := setAll_dict_of_mem hkey db empty
    rw [hsame] at hbound ⊢
    obtain ⟨o, ho⟩ := Option.ne_none_iff_exists'.mp hbound
    rw [ho, Option.some_or]
  · rw [setAll_dict_of_notMem hkey, setAll_dict_of_notMem hkey]
    rfl

/-- Commands store strings. -/
theorem setAll_ne_other {db : Db} (hdb : ∀ key, db.dict key ≠ some .other)
    (commands : List (Bytes × Bytes)) (key : Bytes) :
    (db.setAll commands).dict key ≠ some .other := by
  rw [setAll_dict]
  split
  next kv hfind =>
    unfold tryObjectEncoding
    split
    next => split <;> simp
    next => simp
  next => exact hdb key

end Db

end Blogd
