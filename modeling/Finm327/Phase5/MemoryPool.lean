import Mathlib.Data.List.Nodup
import Mathlib.Data.List.Range
import Mathlib.Logic.Function.Basic

/-!
# The slab pool of the order books

Transcribes `phase5/include/MemoryPool.hpp`. A pointer into the slab is its
slot number. `buffer` holds the objects constructed in the slots, and the free
list is kept with the back of the vector first.
-/

namespace Finm327.Phase5

universe u

variable {T : Type u}

structure MemoryPool (T : Type u) where
  capacity : Nat
  buffer : Nat → Option T
  alive : Nat → Bool
  freeList : List Nat

namespace MemoryPool

/-- The constructor pushes `capacity - 1` down to `0`, so slot `0` is on top. -/
def make (capacity : Nat) : MemoryPool T :=
  ⟨capacity, fun _ => none, fun _ => false, List.range capacity⟩

def acquire (value : T) (pool : MemoryPool T) : Option Nat × MemoryPool T :=
  match pool.freeList with
  | [] => (none, pool)
  | idx :: rest =>
      (some idx, { pool with
        freeList := rest
        buffer := Function.update pool.buffer idx (some value)
        alive := Function.update pool.alive idx true })

def release (p : Option Nat) (pool : MemoryPool T) : MemoryPool T :=
  match p with
  | none => pool
  | some idx =>
      { pool with
        buffer := Function.update pool.buffer idx none
        alive := Function.update pool.alive idx false
        freeList := idx :: pool.freeList }

def inUse (pool : MemoryPool T) : Nat := pool.capacity - pool.freeList.length

/-- Writes through a pointer; undefined where no object was constructed. -/
def modify (idx : Nat) (change : T → T) (pool : MemoryPool T) : Option (MemoryPool T) :=
  match pool.buffer idx with
  | none => none
  | some value => some { pool with buffer := Function.update pool.buffer idx (some (change value)) }

end MemoryPool

/-- Free and held slots partition the slab. -/
structure PoolSound (pool : MemoryPool T) : Prop where
  nodup : pool.freeList.Nodup
  inSlab : ∀ idx ∈ pool.freeList, idx < pool.capacity
  alive : ∀ idx, pool.alive idx = true ↔ idx < pool.capacity ∧ idx ∉ pool.freeList
  built : ∀ idx, (pool.buffer idx).isSome = pool.alive idx

namespace MemoryPool

variable {pool : MemoryPool T} {idx : Nat}

theorem make_sound (capacity : Nat) : PoolSound (make capacity : MemoryPool T) where
  nodup := List.nodup_range
  inSlab := fun _ member => List.mem_range.mp member
  alive := by simp [make]
  built := by simp [make]

/-- With a free slot `acquire` takes the top one and builds the object in it. -/
theorem acquire_cons {rest : List Nat} (value : T) (free : pool.freeList = idx :: rest) :
    acquire value pool = (some idx, { pool with
      freeList := rest
      buffer := Function.update pool.buffer idx (some value)
      alive := Function.update pool.alive idx true }) := by
  simp only [acquire, free]

theorem acquire_sound (sound : PoolSound pool) (value : T) :
    PoolSound (acquire value pool).2 := by
  cases free : pool.freeList with
  | nil => simpa only [acquire, free] using sound
  | cons idx rest =>
      have nodup := sound.nodup
      have inSlab := sound.inSlab
      rw [free] at nodup inSlab
      obtain ⟨notRest, restNodup⟩ := List.nodup_cons.mp nodup
      rw [acquire_cons value free]
      constructor
      · exact restNodup
      · exact fun other member => inSlab other (List.mem_cons_of_mem _ member)
      · intro other
        by_cases same : other = idx
        · subst same
          simp [notRest, inSlab other List.mem_cons_self]
        · simp [same, sound.alive other, free]
      · intro other
        by_cases same : other = idx
        · subst same
          simp
        · simp [same, sound.built other]

theorem release_sound (sound : PoolSound pool) (held : pool.alive idx = true) :
    PoolSound (release (some idx) pool) := by
  obtain ⟨inSlab, notFree⟩ := (sound.alive idx).mp held
  constructor
  · exact List.nodup_cons.mpr ⟨notFree, sound.nodup⟩
  · intro other member
    rcases List.mem_cons.mp member with same | free
    · exact same ▸ inSlab
    · exact sound.inSlab other free
  · intro other
    by_cases same : other = idx
    · subst same
      simp [release]
    · simp [release, same, sound.alive other]
  · intro other
    by_cases same : other = idx
    · subst same
      simp [release]
    · simp [release, same, sound.built other]

theorem modify_eq_some {value : T} (built : pool.buffer idx = some value) (change : T → T) :
    modify idx change pool =
      some { pool with buffer := Function.update pool.buffer idx (some (change value)) } := by
  simp only [modify, built]

theorem modify_sound (sound : PoolSound pool) {change : T → T} {after : MemoryPool T}
    (ran : modify idx change pool = some after) : PoolSound after := by
  unfold modify at ran
  cases built : pool.buffer idx with
  | none => simp [built] at ran
  | some value =>
      rw [built] at ran
      simp only [Option.some.injEq] at ran
      subst ran
      refine ⟨sound.nodup, sound.inSlab, sound.alive, ?_⟩
      intro other
      by_cases same : other = idx
      · subst same
        have was := sound.built other
        rw [built] at was
        simpa using was
      · simp [same, sound.built other]

end MemoryPool

end Finm327.Phase5
