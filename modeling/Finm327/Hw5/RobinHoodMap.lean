import Mathlib.Algebra.Group.Nat.Defs
import Mathlib.Logic.Function.Basic

/-!
# The Robin Hood hash table

Transcribes `RobinHoodMap` of `hw5/part1_hashtable.cpp`. Keys are byte strings.
The table is indexed by position; every `while (true)` runs on fuel, one unit
for each iteration, and has no result when the fuel is spent. The fuel a caller
supplies is the capacity. `insert` and `rehash` call each other, so `insert`
also carries a bound on how deeply it may be nested. The hash function is a
parameter, and the load limit is `0.85` of the capacity rounded down.
-/

namespace Finm327.Hw5

open Function (update)

abbrev Key := List UInt8

structure Slot (V : Type) where
  dib : UInt32
  keylen : UInt32
  hash : UInt64
  key : List UInt8
  heapKey : List UInt8
  value : V
deriving DecidableEq

/-- `sizeof(key)`: longer keys spill to `heapKey`. -/
def keySize : Nat := 24

namespace Slot

variable {V : Type}

/-- `Slot{}`. -/
def blank [Inhabited V] : Slot V :=
  { dib := 0, keylen := 0, hash := 0, key := List.replicate keySize 0, heapKey := [],
    value := default }

/-- The bytes `memcmp` is pointed at. -/
def data (s : Slot V) : List UInt8 := if s.keylen.toNat ≤ keySize then s.key else s.heapKey

/-- `string_view(data, keylen)`. -/
def view (s : Slot V) : Key := s.data.take s.keylen.toNat

def keyEq (s : Slot V) (k : Key) : Bool :=
  if s.keylen.toNat ≠ k.length then false
  else s.data.take s.keylen.toNat == k.take s.keylen.toNat

def storeKey (s : Slot V) (k : Key) : Slot V :=
  let s := { s with keylen := UInt32.ofNat k.length }
  if k.length ≤ keySize then { s with key := k ++ s.key.drop k.length }
  else { s with heapKey := k }

/-- The key under which `rehash` inserts the slot again. -/
def movedKey (s : Slot V) : Key :=
  if s.keylen.toNat ≤ keySize then s.key.take s.keylen.toNat else s.heapKey

end Slot

structure RobinHoodMap (V : Type) where
  table : Nat → Slot V
  capacity : Nat
  mask : Nat
  size : Nat

namespace RobinHoodMap

variable {V : Type}

/-- The loop of `round_pow2` on 64-bit words: past the last power of two `p`
becomes zero and stays so. -/
def roundPow2Loop (n : Nat) : Nat → Nat → Option Nat
  | 0, _ => none
  | fuel + 1, p => if p < n then roundPow2Loop n fuel (p <<< 1 % 2 ^ 64) else some p

def roundPow2 (n : Nat) : Option Nat := roundPow2Loop n 65 1

def allocate [Inhabited V] (capacity : Nat) : RobinHoodMap V :=
  { table := fun _ => Slot.blank, capacity := capacity, mask := capacity - 1, size := 0 }

def make [Inhabited V] (cap : Nat) : Option (RobinHoodMap V) :=
  (roundPow2 (max cap 8)).map allocate

/-- `static_cast<size_t>(max_load_ * table_.size())`. -/
def loadLimit (m : RobinHoodMap V) : Nat := 85 * m.capacity / 100

def insertLoop : Nat → RobinHoodMap V → Nat → Slot V → Option (RobinHoodMap V)
  | 0, _, _, _ => none
  | fuel + 1, m, idx, probe =>
    let cur := m.table idx
    if cur.dib = 0 then
      some { m with table := update m.table idx probe, size := m.size + 1 }
    else if cur.hash = probe.hash ∧ cur.keyEq probe.view then
      some { m with table := update m.table idx { cur with value := probe.value } }
    else if cur.dib < probe.dib then
      -- The richer slot gives its place and is carried on.
      insertLoop fuel { m with table := update m.table idx probe } ((idx + 1) &&& m.mask)
        { cur with dib := cur.dib + 1 }
    else
      insertLoop fuel m ((idx + 1) &&& m.mask) { probe with dib := probe.dib + 1 }

/-- The body of the loop of `rehash`. -/
def moveSlot (insert : RobinHoodMap V → Key → V → Option (RobinHoodMap V)) (old : Nat → Slot V)
    (fresh : RobinHoodMap V) (i : Nat) : Option (RobinHoodMap V) :=
  let s := old i
  if s.dib ≠ 0 then insert fresh s.movedKey s.value else some fresh

def rehash [Inhabited V] (insert : RobinHoodMap V → Key → V → Option (RobinHoodMap V))
    (m : RobinHoodMap V) (newCap : Nat) : Option (RobinHoodMap V) :=
  (List.range m.capacity).foldlM (moveSlot insert m.table) (allocate newCap)

section Hashed

variable [Inhabited V] (hasher : Key → UInt64)

def makeProbe (key : Key) (value : V) : Slot V :=
  { ({ (Slot.blank : Slot V) with dib := 1, hash := hasher key }).storeKey key with
    value := value }

def home (m : RobinHoodMap V) (h : UInt64) : Nat := h.toNat &&& m.mask

def insertNested : Nat → RobinHoodMap V → Key → V → Option (RobinHoodMap V)
  | 0, _, _, _ => none
  | depth + 1, m, key, value => do
    let m ← if m.size + 1 > m.loadLimit then
        rehash (insertNested depth) m (m.capacity * 2)
      else some m
    insertLoop m.capacity m (m.home (hasher key)) (makeProbe hasher key value)

def insert (m : RobinHoodMap V) (key : Key) (value : V) : Option (RobinHoodMap V) :=
  insertNested hasher 2 m key value

end Hashed

/-- The search that `find` and `erase` begin with: the position of the key, if
it is there. -/
def probeLoop (m : RobinHoodMap V) (h : UInt64) (key : Key) :
    Nat → Nat → UInt32 → Option (Option Nat)
  | 0, _, _ => none
  | fuel + 1, idx, dist =>
    let cur := m.table idx
    if cur.dib = 0 ∨ cur.dib < dist then some none
    else if cur.hash = h ∧ cur.keyEq key then some (some idx)
    else probeLoop m h key fuel ((idx + 1) &&& m.mask) (dist + 1)

/-- The value `find` points at, `none` for the null pointer. -/
def find (hasher : Key → UInt64) (m : RobinHoodMap V) (key : Key) : Option (Option V) := do
  let found ← probeLoop m (hasher key) key m.capacity (m.home (hasher key)) 1
  return found.map fun idx => (m.table idx).value

/-- Pulls the following slots one step toward their home positions. -/
def backshift [Inhabited V] : Nat → RobinHoodMap V → Nat → Option (RobinHoodMap V)
  | 0, _, _ => none
  | fuel + 1, m, idx =>
    let next := (idx + 1) &&& m.mask
    let nxt := m.table next
    if nxt.dib ≤ 1 then some { m with table := update m.table idx Slot.blank }
    else
      backshift fuel { m with table := update m.table idx { nxt with dib := nxt.dib - 1 } } next

def erase [Inhabited V] (hasher : Key → UInt64) (m : RobinHoodMap V) (key : Key) :
    Option (RobinHoodMap V × Bool) := do
  match ← probeLoop m (hasher key) key m.capacity (m.home (hasher key)) 1 with
  | none => return (m, false)
  | some idx =>
    let m ← backshift m.capacity m idx
    return ({ m with size := m.size - 1 }, true)

end RobinHoodMap

/-! ## The map under a sequence of calls -/

inductive Op (V : Type) where
  | insert (key : Key) (value : V)
  | find (key : Key)
  | erase (key : Key)
deriving DecidableEq

inductive Answer (V : Type) where
  | inserted
  | found (value : Option V)
  | erased (present : Bool)
deriving DecidableEq

def Op.key {V : Type} : Op V → Key
  | .insert key _ => key
  | .find key => key
  | .erase key => key

def RobinHoodMap.step {V : Type} [Inhabited V] (hasher : Key → UInt64) (m : RobinHoodMap V) :
    Op V → Option (RobinHoodMap V × Answer V)
  | .insert key value => do
    let m ← m.insert hasher key value
    return (m, .inserted)
  | .find key => do
    let value ← m.find hasher key
    return (m, .found value)
  | .erase key => do
    let (m, present) ← m.erase hasher key
    return (m, .erased present)

/-! ## The hash function of the table -/

/-- `memcpy` of at most eight bytes into a zero word. -/
def packed (s : Key) : UInt64 := s.reverse.foldl (fun w c => (w <<< 8) ||| c.toUInt64) 0

def symbolHash (s : Key) : UInt64 :=
  if s.length ≤ 8 then
    let w := packed s
    let w := w ^^^ (UInt64.ofNat s.length <<< 56)
    let w := w ^^^ (w >>> 33)
    let w := w * 0xff51afd7ed558ccd
    let w := w ^^^ (w >>> 33)
    let w := w * 0xc4ceb9fe1a85ec53
    w ^^^ (w >>> 33)
  else s.foldl (fun h c => (h ^^^ c.toUInt64) * 1099511628211) 1469598103934665603

end Finm327.Hw5
