import Mathlib.Algebra.Group.Nat.Defs
import Mathlib.Data.List.Nodup
import Mathlib.Data.List.Range
import Mathlib.Tactic.SplitIfs
import Finm327.Library.Chains
import Finm327.Library.Runs

/-!
# The slab pool with its free list inside

Transcribes `phase4/include/MemoryPool.hpp`. A slot holds an object or a pointer of the free
list, and a pointer into the slab is the number of its slot. The block that is allocated has
`slot_bytes() * cap_` bytes, computed in `size_t`; reading or writing outside of it, and reading
a pointer where there is none, is undefined. The pool works for exactly the capacities that are
not 0 and whose slab size does not wrap.
-/

namespace Finm327.Phase4

open Finm327.Library.Chains
open Finm327.Library.Runs

universe u

/-- `union Slot`, or bytes that were never written. -/
inductive Slot (T : Type u) where
  | raw
  | value (value : T)
  | next (following : Option Nat)

namespace Slot

variable {T : Type u}

def link : Slot T → Option (Option Nat)
  | .next following => some following
  | _ => none

theorem eq_of_link {slot : Slot T} {following : Option Nat} (linked : slot.link = some following) :
    slot = .next following := by
  cases slot with
  | raw => cases linked
  | value value => cases linked
  | next other =>
      cases linked
      rfl

end Slot

structure MemoryPool (T : Type u) where
  storage : Nat → Slot T
  /-- Size of the block `storage_` points at. -/
  bytes : Nat
  head : Option Nat
  cap : Nat
  live : Nat

namespace MemoryPool

variable {T : Type u}

/-- The slot lies inside the block. -/
def inside (slotBytes : Nat) (pool : MemoryPool T) (s : Nat) : Bool :=
  decide ((s + 1) * slotBytes ≤ pool.bytes)

def read (slotBytes : Nat) (pool : MemoryPool T) (s : Nat) : Option (Slot T) :=
  if pool.inside slotBytes s then some (pool.storage s) else none

def write (slotBytes : Nat) (pool : MemoryPool T) (s : Nat) (slot : Slot T) :
    Option (MemoryPool T) :=
  if pool.inside slotBytes s then
    some { pool with storage := Function.update pool.storage s slot }
  else none

/-- The loop of the constructor from slot `i` on, with `left` slots to go. -/
def thread (slotBytes : Nat) : Nat → Nat → MemoryPool T → Option (MemoryPool T)
  | 0, _, pool => some pool
  | left + 1, i, pool =>
      match pool.write slotBytes i (.next (if i + 1 < pool.cap then some (i + 1) else none)) with
      | none => none
      | some pool => thread slotBytes left (i + 1) pool

/-- The constructor, when the allocation returns a block. -/
def make (slotBytes capacity : Nat) : Option (MemoryPool T) :=
  match thread slotBytes capacity 0
      ⟨fun _ => .raw, (slotBytes * capacity) % 2 ^ 64, none, capacity, 0⟩ with
  | none => none
  | some pool => some { pool with head := some 0 }

def acquire (slotBytes : Nat) (value : T) (pool : MemoryPool T) :
    Option (Option Nat × MemoryPool T) :=
  match pool.head with
  | none => some (none, pool)
  | some s =>
      match pool.read slotBytes s with
      | some (.next following) =>
          match pool.write slotBytes s (.value value) with
          | none => none
          | some pool => some (some s, { pool with head := following, live := pool.live + 1 })
      | _ => none

def release (slotBytes : Nat) (p : Option Nat) (pool : MemoryPool T) : Option (MemoryPool T) :=
  match p with
  | none => some pool
  | some s =>
      match pool.write slotBytes s (.next pool.head) with
      | none => none
      | some pool => some { pool with head := some s, live := pool.live - 1 }

end MemoryPool

inductive PoolOp (T : Type u) where
  | acquire (value : T)
  | release (p : Option Nat)

namespace MemoryPool

variable {T : Type u}

/-- One call with the pointer it returns. -/
def step (slotBytes : Nat) (pool : MemoryPool T) : PoolOp T → Option (MemoryPool T × Option Nat)
  | .acquire value =>
      match pool.acquire slotBytes value with
      | none => none
      | some (p, pool) => some (pool, p)
  | .release p =>
      match pool.release slotBytes p with
      | none => none
      | some pool => some (pool, none)

abbrev Run (T : Type u) := Config (MemoryPool T) (PoolOp T) (Option Nat)

/-- The slots handed out and not yet released. -/
def settle (held : List Nat) : PoolOp T × Option Nat → List Nat
  | (.acquire _, some s) => s :: held
  | (.release (some s), _) => held.erase s
  | _ => held

def handedOut (config : Run T) : List Nat := config.history.foldl settle []

/-- Only what was handed out is released, and null pointers. -/
def Returned (config : Run T) : PoolOp T → Prop
  | .release (some s) => s ∈ handedOut config
  | _ => True

instance (config : Run T) : ∀ op : PoolOp T, Decidable (Returned config op)
  | .release (some s) => inferInstanceAs (Decidable (s ∈ handedOut config))
  | .release none => .isTrue trivial
  | .acquire _ => .isTrue trivial

/-- What the next `acquire` does, and what `live` counts. -/
structure ServesSlots (slotBytes : Nat) (config : Run T) : Prop where
  acquires : ∀ value, ∃ p after, config.state.acquire slotBytes value = some (p, after) ∧
    (p = none ↔ config.state.live = config.state.cap) ∧
    ∀ s, p = some s → s < config.state.cap ∧ s ∉ handedOut config
  live : config.state.live = (handedOut config).length

/-- The pool can be built, and serves slots after every sequence of calls. -/
def Disciplined (T : Type u) (slotBytes capacity : Nat) : Prop :=
  ∃ pool : MemoryPool T, make slotBytes capacity = some pool ∧ pool.cap = capacity ∧
    ∀ config : Run T, Reachable (step slotBytes) Returned pool config → ServesSlots slotBytes config

section Slots

variable {slotBytes : Nat} {pool after : MemoryPool T} {s : Nat} {slot : Slot T}

theorem write_of_inside (within : pool.inside slotBytes s = true) :
    pool.write slotBytes s slot =
      some { pool with storage := Function.update pool.storage s slot } := by
  rw [write, if_pos within]

theorem write_some (written : pool.write slotBytes s slot = some after) :
    (s + 1) * slotBytes ≤ pool.bytes ∧ after.bytes = pool.bytes := by
  unfold write at written
  by_cases within : pool.inside slotBytes s = true
  · rw [if_pos within, Option.some.injEq] at written
    rw [← written]
    exact ⟨of_decide_eq_true within, rfl⟩
  · rw [if_neg within] at written
    cases written

/-- The block is large enough for every slot. -/
theorem inside_of_fits (fits : pool.bytes = slotBytes * pool.cap) (slotOf : s < pool.cap) :
    pool.inside slotBytes s = true := by
  unfold inside
  rw [decide_eq_true_iff, fits, Nat.mul_comm slotBytes]
  exact Nat.mul_le_mul_right slotBytes slotOf

/-- The loop of the constructor writes from `i` on, if all of it lies in the block. -/
theorem thread_spec (fits : pool.bytes = slotBytes * pool.cap) {left i : Nat}
    (total : i + left = pool.cap) :
    ∃ built, thread slotBytes left i pool = some built ∧ built.bytes = pool.bytes ∧
      built.cap = pool.cap ∧ built.live = pool.live ∧
      (∀ s, s < i → built.storage s = pool.storage s) ∧
      ∀ s, i ≤ s → s < pool.cap →
        built.storage s = .next (if s + 1 < pool.cap then some (s + 1) else none) := by
  induction left generalizing i pool with
  | zero =>
      refine ⟨pool, rfl, rfl, rfl, rfl, fun _ _ => rfl, ?_⟩
      intro s lower upper
      omega
  | succ left ih =>
      have within := inside_of_fits fits (show i < pool.cap by omega)
      rw [thread, write_of_inside within]
      have rest : i + 1 + left = pool.cap := by omega
      let following := if i + 1 < pool.cap then some (i + 1) else none
      obtain ⟨built, ran, bytes, cap, live, before, linked⟩ :=
        @ih { pool with storage := Function.update pool.storage i (.next following) } fits _ rest
      refine ⟨built, ran, bytes, cap, live, ?_, ?_⟩
      · intro s lower
        rw [before s (by omega)]
        exact Function.update_of_ne (by omega) _ _
      · intro s lower upper
        by_cases first : s = i
        · rw [first, before i (Nat.lt_succ_self i)]
          exact Function.update_self _ _ _
        · exact linked s (by omega) upper

/-- The loop is undefined if it leaves the block. -/
theorem thread_inside {left i : Nat} (ran : thread slotBytes left i pool = some after) :
    (i + left) * slotBytes ≤ max pool.bytes (i * slotBytes) := by
  induction left generalizing i pool with
  | zero => exact Nat.le_max_right _ _
  | succ left ih =>
      rw [thread] at ran
      cases written : pool.write slotBytes i
          (.next (if i + 1 < pool.cap then some (i + 1) else none)) with
      | none =>
          rw [written] at ran
          cases ran
      | some next =>
          rw [written] at ran
          have later := ih ran
          have within := write_some written
          rw [within.2] at later
          have total : i + (left + 1) = i + 1 + left := by omega
          rw [total]
          omega

end Slots

/-- The held slots and the free list split the slab between them. -/
structure Holds (slotBytes : Nat) (pool : MemoryPool T) (held free : List Nat) : Prop where
  fits : pool.bytes = slotBytes * pool.cap
  threaded : Threaded (fun s => (pool.storage s).link) pool.head free
  split : (held ++ free).Perm (List.range pool.cap)
  live : pool.live = held.length

section Holds

variable {slotBytes s : Nat} {pool : MemoryPool T} {held free rest : List Nat}

theorem Holds.in_slab (holds : Holds slotBytes pool held free) (member : s ∈ held ++ free) :
    s < pool.cap :=
  List.mem_range.mp (holds.split.mem_iff.mp member)

theorem Holds.nodup (holds : Holds slotBytes pool held free) : (held ++ free).Nodup :=
  holds.split.nodup_iff.mpr List.nodup_range

theorem Holds.total (holds : Holds slotBytes pool held free) :
    held.length + free.length = pool.cap := by
  have lengths := holds.split.length_eq
  rw [List.length_append, List.length_range] at lengths
  exact lengths

theorem threaded_range {link : Nat → Option (Option Nat)} {cap left i : Nat} (total : i + left = cap)
    (linked : ∀ s, i ≤ s → s < cap → link s = some (if s + 1 < cap then some (s + 1) else none)) :
    Threaded link (if i < cap then some i else none) (List.range' i left) := by
  induction left generalizing i with
  | zero => exact if_neg (by omega)
  | succ left ih =>
      rw [List.range'_succ]
      refine ⟨if_pos (by omega), _, linked i (Nat.le_refl i) (by omega), ?_⟩
      apply ih (by omega)
      intro s lower upper
      exact linked s (by omega) upper

theorem make_holds {capacity : Nat} (some_slot : 0 < capacity)
    (unwrapped : slotBytes * capacity < 2 ^ 64) :
    ∃ pool : MemoryPool T, make slotBytes capacity = some pool ∧ pool.cap = capacity ∧
      Holds slotBytes pool [] (List.range capacity) := by
  obtain ⟨built, ran, bytes, cap, live, -, linked⟩ := @thread_spec T slotBytes
    ⟨fun _ => .raw, (slotBytes * capacity) % 2 ^ 64, none, capacity, 0⟩
    (Nat.mod_eq_of_lt unwrapped) capacity 0 (Nat.zero_add capacity)
  dsimp only at bytes cap live linked
  rw [Nat.mod_eq_of_lt unwrapped] at bytes
  refine ⟨{ built with head := some 0 }, ?_, cap, ?_⟩
  · rw [make, ran]
  · refine ⟨bytes.trans (by rw [cap]), ?_, ?_, live⟩
    · have threaded := @threaded_range (fun s => (built.storage s).link) capacity capacity 0
        (Nat.zero_add capacity) (fun s lower upper => by rw [linked s lower upper]; rfl)
      rw [if_pos some_slot, ← List.range_eq_range'] at threaded
      exact threaded
    · rw [List.nil_append]
      dsimp only
      rw [cap]

theorem acquire_empty (holds : Holds slotBytes pool held []) (value : T) :
    pool.acquire slotBytes value = some (none, pool) ∧ pool.live = pool.cap := by
  constructor
  · have empty : pool.head = none := holds.threaded
    rw [acquire, empty]
  · have total := holds.total
    rw [holds.live, ← total, List.length_nil, Nat.add_zero]

/-- The foremost slot leaves the free list, whatever is then written into it. -/
theorem Holds.take (holds : Holds slotBytes pool held (s :: rest)) (slot : Slot T) :
    ∃ following, pool.head = some s ∧ pool.read slotBytes s = some (.next following) ∧
      pool.write slotBytes s slot =
        some { pool with storage := Function.update pool.storage s slot } ∧
      Holds slotBytes { pool with
        storage := Function.update pool.storage s slot, head := following, live := pool.live + 1 }
        (s :: held) rest := by
  obtain ⟨start, following, linked, threaded⟩ := holds.threaded
  have own : s ∈ held ++ s :: rest := List.mem_append_right held List.mem_cons_self
  have within := inside_of_fits holds.fits (holds.in_slab own)
  have fresh : s ∉ rest :=
    (List.nodup_cons.mp (List.Nodup.of_append_right holds.nodup)).1
  refine ⟨following, start, ?_, write_of_inside within, holds.fits, ?_, ?_, ?_⟩
  · rw [read, if_pos within, Slot.eq_of_link linked]
  · apply threaded_congr threaded
    intro other member
    have different : other ≠ s := fun equal => fresh (equal ▸ member)
    dsimp only
    rw [Function.update_of_ne different]
  · exact List.perm_middle.symm.trans holds.split
  · dsimp only
    rw [holds.live, List.length_cons]

theorem acquire_cons (holds : Holds slotBytes pool held (s :: rest)) (value : T) :
    ∃ after, pool.acquire slotBytes value = some (some s, after) ∧ pool.live ≠ pool.cap ∧
      after.cap = pool.cap ∧ Holds slotBytes after (s :: held) rest := by
  obtain ⟨following, start, reads, writes, holdsAfter⟩ := holds.take (.value value)
  refine ⟨{ pool with
    storage := Function.update pool.storage s (.value value), head := following,
    live := pool.live + 1 }, ?_, ?_, rfl, holdsAfter⟩
  · rw [acquire, start]
    dsimp only
    rw [reads]
    dsimp only
    rw [writes]
  · have total := holds.total
    rw [List.length_cons] at total
    rw [holds.live]
    omega

theorem release_held (holds : Holds slotBytes pool held free) (member : s ∈ held) :
    ∃ after, pool.release slotBytes (some s) = some after ∧ after.cap = pool.cap ∧
      Holds slotBytes after (held.erase s) (s :: free) := by
  have within := inside_of_fits holds.fits (holds.in_slab (List.mem_append_left free member))
  have apart : s ∉ free := by
    intro also
    exact (List.nodup_append.mp holds.nodup).2.2 s member s also rfl
  refine ⟨⟨Function.update pool.storage s (.next pool.head), pool.bytes, some s, pool.cap,
    pool.live - 1⟩, ?_, rfl, holds.fits, ?_, ?_, ?_⟩
  · unfold release
    dsimp only
    rw [write_of_inside within]
  · apply threaded_cons holds.threaded
    · dsimp only
      rw [Function.update_self]
      rfl
    · intro other also
      have different : other ≠ s := fun equal => apart (equal ▸ also)
      dsimp only
      rw [Function.update_of_ne different]
  · have moved : (held.erase s ++ s :: free).Perm (held ++ free) :=
      List.perm_middle.trans ((List.perm_cons_erase member).symm.append_right free)
    exact moved.trans holds.split
  · dsimp only
    rw [holds.live, List.length_erase_of_mem member]

end Holds

section Runs

variable {slotBytes capacity : Nat}

theorem handed_out_push (config : Run T) (op : PoolOp T) (pool : MemoryPool T) (p : Option Nat) :
    handedOut (config.push op pool p) = settle (handedOut config) (op, p) := by
  unfold handedOut Config.push
  rw [List.foldl_append]
  rfl

theorem step_holds {config : Run T} {op : PoolOp T} {pool : MemoryPool T} {p : Option Nat}
    {free : List Nat} (holds : Holds slotBytes config.state (handedOut config) free)
    (returned : Returned config op) (next : step slotBytes config.state op = some (pool, p)) :
    pool.cap = config.state.cap ∧
      ∃ free, Holds slotBytes pool (handedOut (config.push op pool p)) free := by
  rw [handed_out_push]
  cases op with
  | acquire value =>
      unfold step at next
      dsimp only at next
      cases free with
      | nil =>
          rw [(acquire_empty holds value).1] at next
          cases next
          exact ⟨rfl, [], holds⟩
      | cons s rest =>
          obtain ⟨after, ran, -, cap, holdsAfter⟩ := acquire_cons holds value
          rw [ran] at next
          cases next
          exact ⟨cap, rest, holdsAfter⟩
  | release q =>
      unfold step at next
      dsimp only at next
      cases q with
      | none =>
          cases next
          exact ⟨rfl, free, holds⟩
      | some s =>
          obtain ⟨after, ran, cap, holdsAfter⟩ := release_held holds returned
          rw [ran] at next
          cases next
          exact ⟨cap, s :: free, holdsAfter⟩

theorem serves_of_holds {config : Run T} {free : List Nat}
    (holds : Holds slotBytes config.state (handedOut config) free) :
    ServesSlots slotBytes config := by
  refine ⟨?_, holds.live⟩
  intro value
  cases free with
  | nil =>
      have full := acquire_empty holds value
      refine ⟨none, config.state, full.1, ⟨fun _ => full.2, fun _ => rfl⟩, ?_⟩
      intro s contrary
      cases contrary
  | cons s rest =>
      obtain ⟨after, ran, notFull, -, -⟩ := acquire_cons holds value
      refine ⟨some s, after, ran, ⟨fun contrary => (by cases contrary), ?_⟩, ?_⟩
      · exact fun full => absurd full notFull
      · intro other equal
        rw [← Option.some.inj equal]
        refine ⟨holds.in_slab (List.mem_append_right _ List.mem_cons_self), ?_⟩
        intro member
        exact (List.nodup_append.mp holds.nodup).2.2 s member s List.mem_cons_self rfl

theorem disciplined_of_fits (some_slot : 0 < capacity)
    (unwrapped : slotBytes * capacity < 2 ^ 64) : Disciplined T slotBytes capacity := by
  obtain ⟨pool, built, cap, holds⟩ := @make_holds T slotBytes capacity some_slot unwrapped
  refine ⟨pool, built, cap, ?_⟩
  intro config reached
  obtain ⟨free, holdsThere⟩ := reachable_invariant
    (fun config => ∃ free, Holds slotBytes config.state (handedOut config) free)
    ⟨_, holds⟩ (fun _ _ _ _ holds returned next => by
      obtain ⟨free, holds⟩ := holds
      exact (step_holds holds returned next).2) reached
  exact serves_of_holds holdsThere

theorem acquire_outside {pool : MemoryPool T} {s : Nat} (start : pool.head = some s)
    (outside : pool.inside slotBytes s = false) (value : T) :
    pool.acquire slotBytes value = none := by
  unfold acquire read
  rw [start]
  dsimp only
  rw [outside]
  rfl

/-- Without a slot the head is not null, and the first `acquire` reads outside the block. -/
theorem make_zero (bytes : 0 < slotBytes) :
    ∃ pool : MemoryPool T, make slotBytes 0 = some pool ∧ pool.live = pool.cap ∧
      ∀ value, pool.acquire slotBytes value = none := by
  refine ⟨_, rfl, rfl, ?_⟩
  intro value
  apply acquire_outside rfl
  unfold inside
  dsimp only
  rw [decide_eq_false_iff_not, Nat.mul_zero, Nat.zero_mod, Nat.zero_add, Nat.one_mul]
  exact Nat.not_le.mpr bytes

theorem not_disciplined_zero [Inhabited T] (bytes : 0 < slotBytes) : ¬ Disciplined T slotBytes 0 := by
  rintro ⟨pool, built, -, serves⟩
  obtain ⟨own, builtOwn, -, outside⟩ := @make_zero T slotBytes bytes
  rw [built, Option.some.injEq] at builtOwn
  obtain ⟨p, after, ran, -⟩ := (serves _ reachable_start).acquires default
  rw [Config.start_state, builtOwn, outside] at ran
  cases ran

/-- A slab whose size wraps is smaller than its slots, and the constructor leaves it. -/
theorem unwrapped_of_make {pool : MemoryPool T} (built : make slotBytes capacity = some pool) :
    slotBytes * capacity < 2 ^ 64 := by
  unfold make at built
  cases threaded : thread slotBytes capacity 0
      (⟨fun _ => .raw, (slotBytes * capacity) % 2 ^ 64, none, capacity, 0⟩ : MemoryPool T) with
  | none =>
      rw [threaded] at built
      cases built
  | some after =>
      have within := thread_inside threaded
      rw [Nat.zero_add, Nat.zero_mul, Nat.mul_comm] at within
      dsimp only at within
      omega

/-- The pool hands out slots of its slab, each to one holder, and is exhausted exactly when all
are handed out, in every run: for the capacities other than 0 whose slab size fits. -/
theorem disciplined_iff [Inhabited T] (bytes : 0 < slotBytes) :
    Disciplined T slotBytes capacity ↔ 0 < capacity ∧ slotBytes * capacity < 2 ^ 64 := by
  constructor
  · intro disciplined
    constructor
    · apply Nat.pos_of_ne_zero
      rintro rfl
      exact not_disciplined_zero bytes disciplined
    · obtain ⟨pool, built, -, -⟩ := disciplined
      exact unwrapped_of_make built
  · exact fun fits => disciplined_of_fits fits.1 fits.2

/-- Two slots of 48 bytes. -/
theorem disciplined_iff_sample : Disciplined Nat 48 2 :=
  (disciplined_iff (by decide)).mpr (by decide)

/-- With capacity 0 `live` equals `capacity`, and `acquire` does not return `nullptr`. -/
theorem acquire_from_empty_slab :
    (∃ pool : MemoryPool Nat, make 48 0 = some pool ∧ pool.live = pool.cap ∧
      pool.acquire 48 7 = none) ∧ ¬ Disciplined Nat 48 0 := by
  constructor
  · obtain ⟨pool, built, full, outside⟩ := @make_zero Nat 48 (by decide)
    exact ⟨pool, built, full, outside 7⟩
  · exact not_disciplined_zero (by decide)

end Runs

end MemoryPool

end Finm327.Phase4
