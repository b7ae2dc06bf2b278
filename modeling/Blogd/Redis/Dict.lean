import Blogd.Foundation.Buckets
import Blogd.Foundation.Ensures

/-! # Dictionaries

The keys of the store stand in a hash table with chaining that grows and shrinks while it is
used. A change of size allocates a second table, and every later operation moves a bucket of the
first table over until nothing is left there. Until then a key may stand in either table.

The hash function is a parameter: nothing here depends on how keys are spread.
-/

namespace Blogd

/-- `dictEntry`. The chain that `next` links is a list. -/
abbrev DictEntry (K V : Type) := Sigma fun _ : K => V

/-- `dictht`. The `NULL` table is the one without buckets. -/
structure Dictht (K V : Type) where
  table : List (List (DictEntry K V))
  used : Nat

/-- `dict`. `rehashidx` is `none` where the field holds -1. -/
structure Dict (K V : Type) where
  ht0 : Dictht K V
  ht1 : Dictht K V
  rehashidx : Option Nat
  iterators : Int

def dictHtInitialSize : Nat := 4
def dictForceResizeRatio : Nat := 5

variable {K V : Type}

namespace Dictht

/-- `_dictReset` -/
def reset : Dictht K V := ⟨[], 0⟩

def size (ht : Dictht K V) : Nat := ht.table.length

def sizemask (ht : Dictht K V) : Nat := ht.size - 1

/-- `h & ht->sizemask` -/
def slot (ht : Dictht K V) (h : UInt32) : Nat := h.toNat &&& ht.sizemask

/-- `ht->table[idx]` -/
def chain (ht : Dictht K V) (idx : Nat) : Except Fault (List (DictEntry K V)) :=
  match ht.table[idx]? with
  | some chain => .ok chain
  | none => .error (if ht.size = 0 then .nullPointer else .outOfBounds)

/-- The entry becomes the first of a chain. -/
def push (ht : Dictht K V) (idx : Nat) (e : DictEntry K V) : Except Fault (Dictht K V) := do
  let chain ← ht.chain idx
  return ⟨ht.table.set idx (e :: chain), ht.used + 1⟩

/-- A table fresh from `zcalloc`. -/
def fresh (size : Nat) : Dictht K V := ⟨List.replicate size [], 0⟩

end Dictht

/-- `dictCreate` -/
def dictCreate : Dict K V := ⟨.reset, .reset, none, 0⟩

def dictSize (d : Dict K V) : Nat := d.ht0.used + d.ht1.used

def dictSlots (d : Dict K V) : Nat := d.ht0.size + d.ht1.size

def dictIsRehashing (d : Dict K V) : Bool := d.rehashidx.isSome

/-! ## Rehashing -/

/-- How the search for a bucket with entries ends: with the allowance of empty buckets spent, or
at a bucket. -/
inductive EmptyVisits
  | spent (rehashidx : Nat)
  | found (rehashidx : Nat) (visits : Int)

/-- `while(d->ht[0].table[d->rehashidx] == NULL)`, over the buckets from `rehashidx` on. -/
def skipEmpty {α : Type} : List (List α) → Nat → Int → Except Fault EmptyVisits
  | [], _, _ => .error .outOfBounds
  | [] :: rest, rehashidx, visits =>
      if visits - 1 = 0 then .ok (.spent (rehashidx + 1))
      else skipEmpty rest (rehashidx + 1) (visits - 1)
  | (_ :: _) :: _, rehashidx, visits => .ok (.found rehashidx visits)

/-- The inner loop of `dictRehash`: every entry of a chain goes to the second table. -/
def moveChain (hash : K → UInt32) (chain : List (DictEntry K V)) (ht : Dictht K V) :
    Except Fault (Dictht K V) :=
  chain.foldlM (fun ht e => ht.push (ht.slot (hash e.1)) e) ht

/-- The outer loop of `dictRehash`. The result is true where the function returned from inside
the loop. -/
def rehashLoop (hash : K → UInt32) :
    Nat → Int → Nat → Dict K V → Except Fault (Bool × Dict K V)
  | 0, _, rehashidx, d => .ok (false, { d with rehashidx := some rehashidx })
  | n + 1, visits, rehashidx, d =>
      if d.ht0.used = 0 then .ok (false, { d with rehashidx := some rehashidx })
      else if d.ht0.size ≤ rehashidx then .error .assertion
      else do
        match ← skipEmpty (d.ht0.table.drop rehashidx) rehashidx visits with
        | .spent rehashidx => return (true, { d with rehashidx := some rehashidx })
        | .found rehashidx visits =>
            let de ← d.ht0.chain rehashidx
            let ht1 ← moveChain hash de d.ht1
            rehashLoop hash n visits (rehashidx + 1)
              { d with ht0 := ⟨d.ht0.table.set rehashidx [], d.ht0.used - de.length⟩, ht1 := ht1 }

/-- `dictRehash`. The result is true where there is more to rehash. -/
def dictRehash (hash : K → UInt32) (d : Dict K V) (n : Nat) : Except Fault (Bool × Dict K V) :=
  match d.rehashidx with
  | none => .ok (false, d)
  | some rehashidx => do
      let (returned, d) ← rehashLoop hash n (10 * n) rehashidx d
      if returned then return (true, d)
      else if d.ht0.used = 0 then
        return (false, { d with ht0 := d.ht1, ht1 := .reset, rehashidx := none })
      else return (true, d)

/-- `_dictRehashStep` -/
def dictRehashStep (hash : K → UInt32) (d : Dict K V) : Except Fault (Dict K V) :=
  if d.iterators = 0 then do
    let (_, d) ← dictRehash hash d 1
    return d
  else .ok d

/-- `if (dictIsRehashing(d)) _dictRehashStep(d)` -/
def rehashStepIfRehashing (hash : K → UInt32) (d : Dict K V) : Except Fault (Dict K V) :=
  if dictIsRehashing d then dictRehashStep hash d else .ok d

/-- `dictRehashMilliseconds`. The number of rounds is what the clock leaves time for. -/
def dictRehashMilliseconds (hash : K → UInt32) : Nat → Dict K V → Except Fault (Dict K V)
  | 0, d => .ok d
  | rounds + 1, d => do
      let (more, d) ← dictRehash hash d 100
      if more then dictRehashMilliseconds hash rounds d else return d

/-! ## Changing the size -/

/-- The doubling of `_dictNextPower`, from a power that is at hand. -/
def doubleUntil (size : Nat) : Nat → Nat → Nat
  | 0, i => i
  | fuel + 1, i => if size ≤ i then i else doubleUntil size fuel (2 * i)

/-- `_dictNextPower`. After 61 doublings of 4 every size below `LONG_MAX` is passed. -/
def dictNextPower (size : Nat) : Nat :=
  if 2 ^ 63 - 1 ≤ size then 2 ^ 63 - 1 else doubleUntil size 61 dictHtInitialSize

/-- `dictExpand`, true for `DICT_OK`. The program ends where the allocator does not grant the
buckets. -/
def dictExpand (room : Nat) (d : Dict K V) (size : Nat) : Except Fault (Bool × Dict K V) :=
  let realsize := dictNextPower size
  if dictIsRehashing d ∨ size < d.ht0.used then .ok (false, d)
  else if realsize = d.ht0.size then .ok (false, d)
  else if room < realsize then .error .exit
  else if d.ht0.size = 0 then .ok (true, { d with ht0 := .fresh realsize })
  else .ok (true, { d with ht1 := .fresh realsize, rehashidx := some 0 })

/-- `dictResize`, true for `DICT_OK`. The number of entries is cut to an `int`. -/
def dictResize (room : Nat) (canResize : Bool) (d : Dict K V) : Except Fault (Bool × Dict K V) :=
  if !canResize || dictIsRehashing d then .ok (false, d)
  else
    let minimal : Int := Int.bmod d.ht0.used (2 ^ 32)
    dictExpand room d (if minimal < dictHtInitialSize then dictHtInitialSize else minimal.toNat)

/-- `_dictExpandIfNeeded`, true for `DICT_OK`. -/
def dictExpandIfNeeded (room : Nat) (canResize : Bool) (d : Dict K V) :
    Except Fault (Bool × Dict K V) :=
  if dictIsRehashing d then .ok (true, d)
  else if d.ht0.size = 0 then dictExpand room d dictHtInitialSize
  else if d.ht0.size ≤ d.ht0.used ∧
      (canResize ∨ dictForceResizeRatio < d.ht0.used / d.ht0.size) then
    dictExpand room d (d.ht0.used * 2)
  else .ok (true, d)

/-! ## Entries -/

/-- Where an entry stands, as a pointer to it says. -/
structure EntryPtr (K V : Type) where
  second : Bool
  idx : Nat
  key : K
  val : V

/-- `_dictClear` of both tables by `dictEmpty`. -/
def dictEmpty (_ : Dict K V) : Dict K V := ⟨.reset, .reset, none, 0⟩

variable [DecidableEq K]

/-- `_dictKeyIndex`. The index is cut to an `int`, and -1 says that there is none. -/
def dictKeyIndex (hash : K → UInt32) (room : Nat) (canResize : Bool) (d : Dict K V) (key : K) :
    Except Fault (Int × Dict K V) := do
  let (ok, d) ← dictExpandIfNeeded room canResize d
  if !ok then return (-1, d)
  let idx := d.ht0.slot (hash key)
  let he ← d.ht0.chain idx
  if key ∈ he.keys then return (-1, d)
  if !dictIsRehashing d then return (Int.bmod idx (2 ^ 32), d)
  let idx := d.ht1.slot (hash key)
  let he ← d.ht1.chain idx
  if key ∈ he.keys then return (-1, d)
  return (Int.bmod idx (2 ^ 32), d)

/-- `ht->table[index] = entry`, with an index that came as an `int`. -/
def Dictht.pushAt (ht : Dictht K V) (index : Int) (e : DictEntry K V) :
    Except Fault (Dictht K V) :=
  if index < 0 then .error .outOfBounds else ht.push index.toNat e

/-- `dictAddRaw`, and the value that its caller stores in the entry it returns. The result is
false for `NULL`. -/
def dictAddRaw (hash : K → UInt32) (room : Nat) (canResize : Bool) (d : Dict K V) (key : K)
    (val : V) : Except Fault (Bool × Dict K V) := do
  let d ← rehashStepIfRehashing hash d
  let (index, d) ← dictKeyIndex hash room canResize d key
  if index = -1 then return (false, d)
  if dictIsRehashing d then
    let ht1 ← d.ht1.pushAt index ⟨key, val⟩
    return (true, { d with ht1 := ht1 })
  else
    let ht0 ← d.ht0.pushAt index ⟨key, val⟩
    return (true, { d with ht0 := ht0 })

/-- `dictAdd`, true for `DICT_OK`. -/
def dictAdd (hash : K → UInt32) (room : Nat) (canResize : Bool) (d : Dict K V) (key : K)
    (val : V) : Except Fault (Bool × Dict K V) :=
  dictAddRaw hash room canResize d key val

/-- `dictFind` -/
def dictFind (hash : K → UInt32) (d : Dict K V) (key : K) :
    Except Fault (Option (EntryPtr K V) × Dict K V) :=
  if d.ht0.used + d.ht1.used = 0 then .ok (none, d)
  else do
    let d ← rehashStepIfRehashing hash d
    let idx := d.ht0.slot (hash key)
    let he ← d.ht0.chain idx
    match he.dlookup key with
    | some val => return (some ⟨false, idx, key, val⟩, d)
    | none =>
        if !dictIsRehashing d then return (none, d)
        let idx := d.ht1.slot (hash key)
        let he ← d.ht1.chain idx
        match he.dlookup key with
        | some val => return (some ⟨true, idx, key, val⟩, d)
        | none => return (none, d)

/-- `dictSetVal` -/
def dictSetVal (d : Dict K V) (entry : EntryPtr K V) (val : V) : Except Fault (Dict K V) := do
  if entry.second then
    let he ← d.ht1.chain entry.idx
    return { d with
      ht1 := ⟨d.ht1.table.set entry.idx (he.kreplace entry.key val), d.ht1.used⟩ }
  else
    let he ← d.ht0.chain entry.idx
    return { d with
      ht0 := ⟨d.ht0.table.set entry.idx (he.kreplace entry.key val), d.ht0.used⟩ }

/-- `dictReplace`, true where the key was added. -/
def dictReplace (hash : K → UInt32) (room : Nat) (canResize : Bool) (d : Dict K V) (key : K)
    (val : V) : Except Fault (Bool × Dict K V) := do
  let (added, d) ← dictAdd hash room canResize d key val
  if added then return (true, d)
  match ← dictFind hash d key with
  | (none, _) => .error .nullPointer
  | (some entry, d) =>
      let d ← dictSetVal d entry val
      return (false, d)

/-- `dictReplaceRaw`, and the value that its caller stores in the entry it returns. -/
def dictReplaceRaw (hash : K → UInt32) (room : Nat) (canResize : Bool) (d : Dict K V) (key : K)
    (val : V) : Except Fault (Dict K V) := do
  match ← dictFind hash d key with
  | (some entry, d) => dictSetVal d entry val
  | (none, d) =>
      let (added, d) ← dictAddRaw hash room canResize d key val
      if added then return d else .error .nullPointer

/-- `dictDelete`, true for `DICT_OK`. -/
def dictDelete (hash : K → UInt32) (d : Dict K V) (key : K) : Except Fault (Bool × Dict K V) :=
  if d.ht0.size = 0 then .ok (false, d)
  else do
    let d ← rehashStepIfRehashing hash d
    let idx := d.ht0.slot (hash key)
    let he ← d.ht0.chain idx
    if key ∈ he.keys then
      return (true, { d with ht0 := ⟨d.ht0.table.set idx (he.kerase key), d.ht0.used - 1⟩ })
    if !dictIsRehashing d then return (false, d)
    let idx := d.ht1.slot (hash key)
    let he ← d.ht1.chain idx
    if key ∈ he.keys then
      return (true, { d with ht1 := ⟨d.ht1.table.set idx (he.kerase key), d.ht1.used - 1⟩ })
    return (false, d)

end Blogd
