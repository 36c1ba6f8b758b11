import Finm327.Library.SlotPools
import Finm327.Phase4.MemoryPool
import Finm327.Phase5.MemoryPool

/-!
# Constructors that throw

`acquire` of both pools takes the slot before it runs the constructor, and
nothing puts it back when the constructor throws. What is in the slot then is not
an object, and the phase 5 pool has not marked it alive.
-/

namespace Finm327

open Finm327.Library.Runs
open Finm327.Library.SlotPools

universe u

variable {T : Type u}

namespace Phase4.MemoryPool

/-- `acquire` with a constructor that throws. -/
def acquireThrows (slotBytes : Nat) (pool : MemoryPool T) : Option (MemoryPool T × PoolReply) :=
  match pool.head with
  | none => some (pool, .returned none)
  | some s =>
      match pool.read slotBytes s with
      | some (.next following) =>
          match pool.write slotBytes s .raw with
          | none => none
          | some pool => some ({ pool with head := following, live := pool.live + 1 }, .threw)
      | _ => none

def call (slotBytes : Nat) (pool : MemoryPool T) : Call T → Option (MemoryPool T × PoolReply)
  | .acquire (some value) => do
    let (p, pool) ← pool.acquire slotBytes value
    return (pool, .returned p)
  | .acquire none => pool.acquireThrows slotBytes
  | .release p => do
    let pool ← pool.release slotBytes p
    return (pool, .returned none)

theorem serves (slotBytes : Nat) :
    Serves (call slotBytes : MemoryPool T → Call T → Option (MemoryPool T × PoolReply))
      MemoryPool.live MemoryPool.cap (Holds slotBytes) where
  nodup holds := holds.nodup
  counted holds := holds.live
  total holds := holds.total
  exhausted := by
    intro pool taken holds constructed
    cases constructed with
    | some value =>
        rw [call, (acquire_empty holds value).1]
        rfl
    | none =>
        have empty : pool.head = none := holds.threaded
        rw [call, acquireThrows, empty]
  acquires := by
    intro pool taken s rest holds value
    obtain ⟨next, ran, _, _, holdsAfter⟩ := acquire_cons holds value
    exact ⟨next, by rw [call, ran]; rfl, holdsAfter⟩
  throws := by
    intro pool taken s rest holds
    obtain ⟨following, start, reads, writes, holdsAfter⟩ := holds.take .raw
    refine ⟨_, ?_, holdsAfter⟩
    rw [call, acquireThrows, start]
    dsimp only
    rw [reads]
    dsimp only
    rw [writes]
  releases := by
    intro pool taken free s holds member
    obtain ⟨next, ran, _, holdsAfter⟩ := release_held holds member
    exact ⟨next, by rw [call, ran]; rfl, holdsAfter⟩
  ignores _ := rfl

end Phase4.MemoryPool

namespace Phase5.MemoryPool

/-- `acquire` with a constructor that throws. -/
def acquireThrows (pool : MemoryPool T) : MemoryPool T × PoolReply :=
  match pool.freeList with
  | [] => (pool, .returned none)
  | _ :: rest => ({ pool with freeList := rest }, .threw)

def call (pool : MemoryPool T) : Call T → Option (MemoryPool T × PoolReply)
  | .acquire (some value) =>
      let (p, pool) := acquire value pool
      some (pool, .returned p)
  | .acquire none => some pool.acquireThrows
  | .release p => some (release p pool, .returned none)

/-- The slots that are not free are taken, built or not. -/
structure Split (pool : MemoryPool T) (taken free : List Nat) : Prop where
  stacked : pool.freeList = free
  split : (taken ++ free).Perm (List.range pool.capacity)

theorem Split.total {pool : MemoryPool T} {taken free : List Nat} (split : Split pool taken free) :
    taken.length + free.length = pool.capacity := by
  have lengths := split.split.length_eq
  rw [List.length_append, List.length_range] at lengths
  exact lengths

theorem serves :
    Serves (call : MemoryPool T → Call T → Option (MemoryPool T × PoolReply)) inUse
      MemoryPool.capacity Split where
  nodup split := split.split.nodup_iff.mpr List.nodup_range
  counted split := by
    have total := split.total
    rw [inUse, split.stacked]
    omega
  total split := split.total
  exhausted := by
    intro pool taken split constructed
    have free := split.stacked
    cases constructed with
    | some value =>
        simp only [call, acquire, free]
    | none => simp only [call, acquireThrows, free]
  acquires := by
    intro pool taken s rest split value
    refine ⟨{ pool with
      freeList := rest
      buffer := Function.update pool.buffer s (some value)
      alive := Function.update pool.alive s true }, ?_, rfl, ?_⟩
    · rw [call, acquire_cons value split.stacked]
    · exact List.perm_middle.symm.trans split.split
  throws := by
    intro pool taken s rest split
    refine ⟨{ pool with freeList := rest }, ?_, rfl, List.perm_middle.symm.trans split.split⟩
    simp only [call, acquireThrows, split.stacked]
  releases := by
    intro pool taken free s split member
    refine ⟨_, rfl, congrArg (List.cons s) split.stacked, ?_⟩
    have moved : (taken.erase s ++ s :: free).Perm (taken ++ free) :=
      List.perm_middle.trans ((List.perm_cons_erase member).symm.append_right free)
    exact moved.trans split.split
  ignores _ := rfl

theorem make_split (capacity : Nat) :
    Split (make capacity : MemoryPool T) [] (List.range capacity) :=
  ⟨rfl, List.Perm.refl _⟩

end Phase5.MemoryPool

section EmptySlab

variable {slotBytes : Nat} {pool : Phase4.MemoryPool T} {config : Run (Phase4.MemoryPool T) T}

open Phase4.MemoryPool (make call acquireThrows acquire_outside)

theorem call_outside {s : Nat} (start : pool.head = some s)
    (outside : pool.inside slotBytes s = false) (constructed : Option T) :
    call slotBytes pool (.acquire constructed) = none := by
  cases constructed with
  | some value =>
      rw [call, acquire_outside start outside]
      rfl
  | none =>
      unfold call acquireThrows Phase4.MemoryPool.read
      rw [start]
      dsimp only
      rw [outside]
      rfl

/-- A pool without slots never completes an `acquire`, so nothing is ever released to it. -/
theorem call_empty_slab (bytes : 0 < slotBytes) (built : make slotBytes 0 = some pool)
    (reached : Reachable (call slotBytes) Returned pool config) (constructed : Option T) :
    call slotBytes config.state (.acquire constructed) = none := by
  have outside : pool.inside slotBytes 0 = false := by
    cases built
    unfold Phase4.MemoryPool.inside
    dsimp only
    rw [decide_eq_false_iff_not, Nat.mul_zero, Nat.zero_mod, Nat.zero_add, Nat.one_mul]
    exact Nat.not_le.mpr bytes
  have start : pool.head = some 0 := by
    cases built
    rfl
  have still : config.state = pool ∧ handedOut config = [] := by
    apply reachable_invariant (fun config => config.state = pool ∧ handedOut config = []) ?_ ?_
      reached
    · exact ⟨rfl, rfl⟩
    · rintro config op next reply ⟨same, none⟩ returned ran
      rw [same] at ran
      cases op with
      | acquire constructed =>
          rw [call_outside start outside] at ran
          cases ran
      | release p =>
          cases p with
          | none =>
              cases ran
              rw [handed_out_push, none]
              exact ⟨rfl, rfl⟩
          | some s =>
              have member : s ∈ handedOut config := returned
              rw [none] at member
              cases member
  rw [still.1]
  exact call_outside start outside constructed

end EmptySlab

/-- Both pools, after any calls, failed ones included. -/
theorem failed_construction_iff [Nonempty T] :
    (∀ {slotBytes capacity : Nat} {pool : Phase4.MemoryPool T}, 0 < slotBytes →
      Phase4.MemoryPool.make slotBytes capacity = some pool →
      ∀ {config : Run (Phase4.MemoryPool T) T},
        Reachable (Phase4.MemoryPool.call slotBytes) Returned pool config →
        ∀ {next reply}, Phase4.MemoryPool.call slotBytes config.state (.acquire none) =
            some (next, reply) →
          (Unchanged (Phase4.MemoryPool.call slotBytes) Phase4.MemoryPool.live config
              (config.push (.acquire none) next reply) ↔
            config.state.live = config.state.cap)) ∧
    ∀ {capacity : Nat} {config : Run (Phase5.MemoryPool T) T},
      Reachable Phase5.MemoryPool.call Returned (Phase5.MemoryPool.make capacity) config →
      ∀ {next reply}, Phase5.MemoryPool.call config.state (.acquire none) = some (next, reply) →
        (Unchanged Phase5.MemoryPool.call Phase5.MemoryPool.inUse config
            (config.push (.acquire none) next reply) ↔
          config.state.inUse = config.state.capacity) := by
  constructor
  · intro slotBytes capacity pool bytes built config reached next reply ran
    have slots : 0 < capacity := by
      apply Nat.pos_of_ne_zero
      rintro rfl
      rw [call_empty_slab bytes built reached] at ran
      cases ran
    have unwrapped : slotBytes * capacity < 2 ^ 64 := Phase4.MemoryPool.unwrapped_of_make built
    obtain ⟨own, builtOwn, _, holds⟩ := @Phase4.MemoryPool.make_holds T slotBytes capacity slots unwrapped
    rw [built, Option.some.injEq] at builtOwn
    subst builtOwn
    obtain ⟨taken, free, tracks⟩ :=
      (Phase4.MemoryPool.serves slotBytes).reachable_tracks ⟨_, holds⟩ reached
    exact (Phase4.MemoryPool.serves slotBytes).unchanged_iff tracks ran
  · intro capacity config reached next reply ran
    obtain ⟨taken, free, tracks⟩ :=
      Phase5.MemoryPool.serves.reachable_tracks ⟨_, Phase5.MemoryPool.make_split capacity⟩ reached
    exact Phase5.MemoryPool.serves.unchanged_iff tracks ran

/-- Two slots, one of them in use, and a construction that fails. -/
theorem failed_construction_sample :
    (∃ (pool : Phase4.MemoryPool Nat) (config : Run (Phase4.MemoryPool Nat) Nat)
        (next : Phase4.MemoryPool Nat) (reply : PoolReply),
      Phase4.MemoryPool.make 48 2 = some pool ∧
        execute (Phase4.MemoryPool.call 48) Returned (.start pool)
          [.acquire (some 7), .acquire (some 8), .release (some 0)] = some config ∧
        Phase4.MemoryPool.call 48 config.state (.acquire none) = some (next, reply) ∧
        ¬ Unchanged (Phase4.MemoryPool.call 48) Phase4.MemoryPool.live config
          (config.push (.acquire none) next reply)) ∧
      ∃ (config : Run (Phase5.MemoryPool Nat) Nat) (next : Phase5.MemoryPool Nat) (reply : PoolReply),
        execute Phase5.MemoryPool.call Returned (.start (Phase5.MemoryPool.make 2))
          [.acquire (some 7), .acquire (some 8)] = some config ∧
        Phase5.MemoryPool.call config.state (.acquire none) = some (next, reply) ∧
        Unchanged Phase5.MemoryPool.call Phase5.MemoryPool.inUse config
          (config.push (.acquire none) next reply) := by
  have both := @failed_construction_iff Nat _
  constructor
  · obtain ⟨pool, built⟩ : ∃ pool : Phase4.MemoryPool Nat,
      Phase4.MemoryPool.make 48 2 = some pool := ⟨_, rfl⟩
    have completes : ((Phase4.MemoryPool.make 48 2 : Option (Phase4.MemoryPool Nat)).bind fun pool =>
        execute (Phase4.MemoryPool.call 48) Returned (.start pool)
          [.acquire (some 7), .acquire (some 8), .release (some 0)]).any (fun config =>
            decide (config.state.live ≠ config.state.cap) &&
              (Phase4.MemoryPool.call 48 config.state (.acquire none)).isSome) = true := by
      decide
    rw [built, Option.bind_some] at completes
    obtain ⟨config, ran, found⟩ := (Option.any_eq_true _ _).mp completes
    obtain ⟨room, served⟩ := Bool.and_eq_true_iff.mp found
    obtain ⟨⟨next, reply⟩, answered⟩ := Option.isSome_iff_exists.mp served
    refine ⟨pool, config, next, reply, built, ran, answered, ?_⟩
    rw [both.1 (by decide) built (reachable_of_execute ran) answered]
    exact of_decide_eq_true room
  · have completes : (execute Phase5.MemoryPool.call Returned
        (.start (Phase5.MemoryPool.make 2 : Phase5.MemoryPool Nat))
        [.acquire (some 7), .acquire (some 8)]).any (fun config =>
          decide (config.state.inUse = config.state.capacity) &&
            (Phase5.MemoryPool.call config.state (.acquire none)).isSome) = true := by
      decide
    obtain ⟨config, ran, found⟩ := (Option.any_eq_true _ _).mp completes
    obtain ⟨full, served⟩ := Bool.and_eq_true_iff.mp found
    obtain ⟨⟨next, reply⟩, answered⟩ := Option.isSome_iff_exists.mp served
    refine ⟨config, next, reply, ran, answered, ?_⟩
    rw [both.2 (reachable_of_execute ran) answered]
    exact of_decide_eq_true full

/-- The only slot is lost: nobody holds it, and the pool reports that it is in use. -/
theorem only_slot_lost :
    (∃ (pool : Phase4.MemoryPool Nat) (config : Run (Phase4.MemoryPool Nat) Nat),
      Phase4.MemoryPool.make 48 1 = some pool ∧
        execute (Phase4.MemoryPool.call 48) Returned (.start pool) [.acquire none] = some config ∧
        config.observations = [.threw] ∧ handedOut config = [] ∧
        CanHandOut (Phase4.MemoryPool.call 48) (.start pool) 0 ∧
        ¬ CanHandOut (Phase4.MemoryPool.call 48) config 0 ∧
        pool.live = 0 ∧ config.state.live = 1) ∧
      ∃ config : Run (Phase5.MemoryPool Nat) Nat,
        execute Phase5.MemoryPool.call Returned (.start (Phase5.MemoryPool.make 1)) [.acquire none] =
          some config ∧
        config.observations = [.threw] ∧ handedOut config = [] ∧
        CanHandOut Phase5.MemoryPool.call
          (.start (Phase5.MemoryPool.make 1) : Run (Phase5.MemoryPool Nat) Nat) 0 ∧
        ¬ CanHandOut Phase5.MemoryPool.call config 0 ∧
        (Phase5.MemoryPool.make 1 : Phase5.MemoryPool Nat).inUse = 0 ∧ config.state.inUse = 1 := by
  constructor
  · obtain ⟨pool, built, _, holds⟩ :=
      @Phase4.MemoryPool.make_holds Nat 48 1 (by decide) (by decide)
    obtain ⟨config, ran, threw, held, empty, live, cap⟩ : ∃ config : Run (Phase4.MemoryPool Nat) Nat,
        execute (Phase4.MemoryPool.call 48) Returned (.start pool) [.acquire none] = some config ∧
          config.observations = [.threw] ∧ handedOut config = [] ∧ pool.live = 0 ∧
          config.state.live = 1 ∧ config.state.cap = 1 := by
      cases built
      exact ⟨_, rfl, rfl, rfl, rfl, rfl, rfl⟩
    obtain ⟨_, _, tracks⟩ :=
      (Phase4.MemoryPool.serves 48).reachable_tracks ⟨_, holds⟩ (reachable_of_execute ran)
    refine ⟨pool, config, built, ran, threw, held, ?_, ?_, empty, live⟩
    · cases built
      exact ⟨_, .refl, 7, _, rfl⟩
    · apply (Phase4.MemoryPool.serves 48).not_can_hand_out_full tracks (live.trans cap.symm)
      rw [held]
      exact List.not_mem_nil
  · obtain ⟨config, ran, threw, held, used, capacity⟩ : ∃ config : Run (Phase5.MemoryPool Nat) Nat,
        execute Phase5.MemoryPool.call Returned (.start (Phase5.MemoryPool.make 1))
            [.acquire none] = some config ∧
          config.observations = [.threw] ∧ handedOut config = [] ∧ config.state.inUse = 1 ∧
          config.state.capacity = 1 :=
      ⟨_, rfl, rfl, rfl, rfl, rfl⟩
    obtain ⟨_, _, tracks⟩ := Phase5.MemoryPool.serves.reachable_tracks
      ⟨_, Phase5.MemoryPool.make_split 1⟩ (reachable_of_execute ran)
    refine ⟨config, ran, threw, held, ?_, ?_, rfl, used⟩
    · exact ⟨_, .refl, 7, _, rfl⟩
    · apply Phase5.MemoryPool.serves.not_can_hand_out_full tracks (used.trans capacity.symm)
      rw [held]
      exact List.not_mem_nil

end Finm327
