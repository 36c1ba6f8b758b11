import Mathlib.Data.List.Basic
import Mathlib.Logic.Function.Basic
import Mathlib.Order.Lattice

/-!
# Release and acquire

Threads that share atomic and plain variables. An atomic variable keeps all its stores in
modification order, and a load may read any of them that is not older than one its thread
already knows. A release store publishes what its thread knows, and an acquire load takes
over what the store that it reads has published. What a thread knows is a clock: how many
accesses of each thread to plain variables happened before. An access races when a
conflicting access of another thread is not among these.
-/

namespace Finm327.Library.ReleaseAcquire

open Function (update)

universe u v w

variable {Thread : Type u} {Var : Type v} {Value : Type w}

/-- For each thread, how many of its accesses are known. -/
abbrev Clock (Thread : Type u) := Thread → Nat

namespace Clock

def join (first second : Clock Thread) : Clock Thread := fun t => max (first t) (second t)

/-- What a relaxed store publishes. -/
def nothing : Clock Thread := fun _ => 0

end Clock

/-! ## Atomic variables -/

structure Store (Thread : Type u) (Value : Type w) where
  value : Value
  published : Clock Thread

/-- `position` is for each thread the newest store that it knows. -/
structure Atomic (Thread : Type u) (Value : Type w) where
  stores : List (Store Thread Value)
  position : Thread → Nat

namespace Atomic

def make (value : Value) : Atomic Thread Value := ⟨[⟨value, Clock.nothing⟩], fun _ => 0⟩

variable [DecidableEq Thread]

def store (thread : Thread) (value : Value) (published : Clock Thread)
    (atomic : Atomic Thread Value) : Atomic Thread Value where
  stores := atomic.stores ++ [⟨value, published⟩]
  position := update atomic.position thread atomic.stores.length

/-- A load that reads the store with the given place in the modification order. -/
def load (thread : Thread) (index : Nat) (atomic : Atomic Thread Value) :
    Option (Store Thread Value × Atomic Thread Value) :=
  if atomic.position thread ≤ index then
    match atomic.stores[index]? with
    | none => none
    | some read => some (read, { atomic with position := update atomic.position thread index })
  else none

/-- No store that the thread may still read has this value. -/
def NoneVisible (atomic : Atomic Thread Value) (thread : Thread) (value : Value) : Prop :=
  ∀ index read, atomic.position thread ≤ index → atomic.stores[index]? = some read →
    read.value ≠ value

/-- Of the stores that the thread may still read, only the last one can have this value,
and that one publishes the given clock. -/
def OnlyLast (atomic : Atomic Thread Value) (thread : Thread) (value : Value)
    (published : Clock Thread) : Prop :=
  ∀ index read, atomic.position thread ≤ index → atomic.stores[index]? = some read →
    read.value = value → read.published = published ∧ index + 1 = atomic.stores.length

variable {atomic next : Atomic Thread Value} {thread other : Thread} {value stored : Value}
  {published : Clock Thread} {index : Nat} {read : Store Thread Value}

theorem load_eq_some (ran : atomic.load thread index = some (read, next)) :
    atomic.position thread ≤ index ∧ atomic.stores[index]? = some read ∧
      next = { atomic with position := update atomic.position thread index } := by
  unfold load at ran
  split_ifs at ran with known
  split at ran
  · cases ran
  · rename_i found
    cases ran
    exact ⟨known, found, rfl⟩

/-- A load does not bring back older stores. -/
theorem position_le_load (ran : atomic.load thread index = some (read, next)) (t : Thread) :
    atomic.position t ≤ next.position t ∧ next.stores = atomic.stores := by
  obtain ⟨known, _, same⟩ := load_eq_some ran
  subst same
  refine ⟨?_, rfl⟩
  dsimp only
  by_cases own : t = thread
  · rw [own, Function.update_self]
    exact known
  · rw [Function.update_of_ne own]

theorem NoneVisible.load (hidden : atomic.NoneVisible other value)
    (ran : atomic.load thread index = some (read, next)) : next.NoneVisible other value := by
  obtain ⟨older, stores⟩ := position_le_load ran other
  intro place found visible
  rw [stores]
  exact hidden place found (Nat.le_trans older visible)

theorem OnlyLast.load (last : atomic.OnlyLast other value published)
    (ran : atomic.load thread index = some (read, next)) :
    next.OnlyLast other value published := by
  obtain ⟨older, stores⟩ := position_le_load ran other
  intro place found visible
  rw [stores]
  exact last place found (Nat.le_trans older visible)

theorem store_position_self :
    (atomic.store thread stored published).position thread = atomic.stores.length :=
  Function.update_self _ _ _

theorem store_position_of_ne (apart : other ≠ thread) :
    (atomic.store thread stored published).position other = atomic.position other :=
  Function.update_of_ne apart _ _

theorem length_store :
    (atomic.store thread stored published).stores.length = atomic.stores.length + 1 :=
  List.length_append

theorem stores_get {place : Nat} {found : Store Thread Value}
    (holds : (atomic.store thread stored published).stores[place]? = some found) :
    place < atomic.stores.length ∧ atomic.stores[place]? = some found ∨
      place = atomic.stores.length ∧ found = ⟨stored, published⟩ := by
  unfold store at holds
  rcases Nat.lt_trichotomy place atomic.stores.length with before | last | past
  · rw [List.getElem?_append_left before] at holds
    exact .inl ⟨before, holds⟩
  · rw [last, List.getElem?_concat_length, Option.some.injEq] at holds
    exact .inr ⟨last, holds.symm⟩
  · rw [List.getElem?_eq_none] at holds
    · cases holds
    · rw [List.length_append, List.length_singleton]
      exact past

/-- A thread that stores another value sees only its own store from then on. -/
theorem none_visible_store_self (different : stored ≠ value) :
    (atomic.store thread stored published).NoneVisible thread value := by
  intro place found visible holds
  rw [store_position_self] at visible
  rcases stores_get holds with ⟨before, _⟩ | ⟨_, same⟩
  · omega
  · rw [same]
    exact different

theorem NoneVisible.store (hidden : atomic.NoneVisible other value) (apart : other ≠ thread)
    (different : stored ≠ value) :
    (atomic.store thread stored published).NoneVisible other value := by
  intro place found visible holds
  rw [store_position_of_ne apart] at visible
  rcases stores_get holds with ⟨_, old⟩ | ⟨_, same⟩
  · exact hidden place found visible old
  · rw [same]
    exact different

/-- A first store of the value is the only one that the other thread can read. -/
theorem NoneVisible.only_last_store (hidden : atomic.NoneVisible other value)
    (apart : other ≠ thread) :
    (atomic.store thread value published).OnlyLast other value published := by
  intro place found visible holds same
  rw [store_position_of_ne apart] at visible
  rcases stores_get holds with ⟨_, old⟩ | ⟨last, new⟩
  · exact absurd same (hidden place found visible old)
  · rw [length_store, last, new]
    exact ⟨rfl, rfl⟩

end Atomic

/-! ## Plain variables -/

inductive Access
  | read
  | write
deriving DecidableEq

/-- Two accesses to one variable conflict unless both read. -/
def Conflict (first second : Access) : Prop := first = .write ∨ second = .write

/-- `last` is for each variable and thread the number of the last access of that kind,
counted among the accesses of that thread. -/
structure Accesses (Thread : Type u) (Var : Type v) where
  clock : Thread → Clock Thread
  last : Access → Var → Thread → Nat
  raced : Prop

namespace Accesses

def none : Accesses Thread Var := ⟨fun _ => Clock.nothing, fun _ _ _ => 0, False⟩

/-- The last access of this kind is among those of the clock. -/
def Within (accesses : Accesses Thread Var) (kind : Access) (clock : Clock Thread)
    (thread : Thread) (var : Var) : Prop :=
  accesses.last kind var thread ≤ clock thread

variable [DecidableEq Thread] [DecidableEq Var]

def access (kind : Access) (thread : Thread) (var : Var) (accesses : Accesses Thread Var) :
    Accesses Thread Var where
  clock := update accesses.clock thread
    (update (accesses.clock thread) thread (accesses.clock thread thread + 1))
  last := update accesses.last kind (update (accesses.last kind) var
    (update (accesses.last kind var) thread (accesses.clock thread thread + 1)))
  raced := accesses.raced ∨ ∃ other earlier, other ≠ thread ∧ Conflict kind earlier ∧
    ¬ accesses.Within earlier (accesses.clock thread) other var

omit [DecidableEq Var] in
def acquire (thread : Thread) (published : Clock Thread) (accesses : Accesses Thread Var) :
    Accesses Thread Var :=
  { accesses with
    clock := update accesses.clock thread ((accesses.clock thread).join published) }

/-- Each thread knows its own accesses. -/
def Own (accesses : Accesses Thread Var) : Prop :=
  ∀ thread kind var, accesses.Within kind (accesses.clock thread) thread var

variable {accesses : Accesses Thread Var} {kind earlier : Access} {thread other : Thread}
  {var elsewhere : Var} {clock published : Clock Thread}

omit [DecidableEq Thread] [DecidableEq Var] in
theorem Within.mono (within : accesses.Within kind clock thread var)
    (more : clock thread ≤ published thread) : accesses.Within kind published thread var :=
  Nat.le_trans within more

theorem clock_le_access (t u : Thread) :
    accesses.clock t u ≤ (accesses.access kind thread var).clock t u := by
  unfold access
  dsimp only
  by_cases own : t = thread
  · rw [own, Function.update_self]
    by_cases self : u = thread
    · rw [self, Function.update_self]
      exact Nat.le_succ _
    · rw [Function.update_of_ne self]
  · rw [Function.update_of_ne own]

theorem access_clock_of_ne (different : other ≠ thread) :
    (accesses.access kind thread var).clock other = accesses.clock other :=
  Function.update_of_ne different _ _

/-- An access leaves the last accesses of other threads, of another kind and to other
variables alone. -/
theorem within_access
    (apart : other ≠ thread ∨ earlier ≠ kind ∨ elsewhere ≠ var) :
    (accesses.access kind thread var).Within earlier clock other elsewhere ↔
      accesses.Within earlier clock other elsewhere := by
  have same : (accesses.access kind thread var).last earlier elsewhere other =
      accesses.last earlier elsewhere other := by
    unfold access
    dsimp only
    by_cases sameKind : earlier = kind
    · rw [sameKind, Function.update_self]
      by_cases sameVar : elsewhere = var
      · rw [sameVar, Function.update_self]
        have different : other ≠ thread := by
          rcases apart with different | different | different
          · exact different
          · exact absurd sameKind different
          · exact absurd sameVar different
        rw [Function.update_of_ne different]
      · rw [Function.update_of_ne sameVar]
    · rw [Function.update_of_ne sameKind]
  unfold Within
  rw [same]

theorem access_not_raced (fine : ¬ accesses.raced)
    (ordered : ∀ other earlier, other ≠ thread → Conflict kind earlier →
      accesses.Within earlier (accesses.clock thread) other var) :
    ¬ (accesses.access kind thread var).raced := by
  rintro (before | ⟨other, earlier, different, conflict, missing⟩)
  · exact fine before
  · exact missing (ordered other earlier different conflict)

theorem Own.access (own : accesses.Own) : (accesses.access kind thread var).Own := by
  intro t earlier elsewhere
  by_cases same : t = thread ∧ earlier = kind ∧ elsewhere = var
  · obtain ⟨rfl, rfl, rfl⟩ := same
    unfold Within Accesses.access
    simp only [Function.update_self, Nat.le_refl]
  · have apart : t ≠ thread ∨ earlier ≠ kind ∨ elsewhere ≠ var := by
      by_cases sameThread : t = thread
      · by_cases sameKind : earlier = kind
        · exact .inr (.inr fun sameVar => same ⟨sameThread, sameKind, sameVar⟩)
        · exact .inr (.inl sameKind)
      · exact .inl sameThread
    rw [within_access apart]
    exact (own t earlier elsewhere).mono (clock_le_access t t)

omit [DecidableEq Var] in
theorem clock_le_acquire (t u : Thread) :
    accesses.clock t u ≤ (accesses.acquire thread published).clock t u := by
  unfold acquire
  dsimp only
  by_cases own : t = thread
  · rw [own, Function.update_self]
    exact le_max_left _ _
  · rw [Function.update_of_ne own]

omit [DecidableEq Var] in
theorem acquire_clock_of_ne (different : other ≠ thread) :
    (accesses.acquire thread published).clock other = accesses.clock other :=
  Function.update_of_ne different _ _

omit [DecidableEq Var] in
theorem published_le_acquire (u : Thread) :
    published u ≤ (accesses.acquire thread published).clock thread u := by
  unfold acquire
  dsimp only
  rw [Function.update_self]
  exact le_max_right _ _

omit [DecidableEq Var] in
theorem Own.acquire (own : accesses.Own) : (accesses.acquire thread published).Own :=
  fun t kind var => (own t kind var).mono (clock_le_acquire t t)

end Accesses

end Finm327.Library.ReleaseAcquire
