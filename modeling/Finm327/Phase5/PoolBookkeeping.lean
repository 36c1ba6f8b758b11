import Finm327.Phase5.FailedConstruction

/-!
# What the slab pool writes down

The pool of the books records twice which slots are taken: in the stack of free ones and in
the marks `alive_`. Both agree with what the callers hold as long as every constructor that
runs returns. One that throws leaves its slot in neither, and then no operation puts it back.
-/

namespace Finm327.Phase5.MemoryPool

open Finm327.Library.Runs
open Finm327.Library.SlotPools

universe u

variable {T : Type u}

/-- The slots whose objects `~MemoryPool` destroys, in its order. -/
def destroyed (pool : MemoryPool T) : List Nat :=
  (List.range pool.capacity).filter pool.alive

/-- The free list, the marks and the callers agree, and the calls go by them. -/
structure Exact (capacity : Nat) (config : Run (MemoryPool T) T) : Prop where
  slab : config.state.capacity = capacity
  nodup : config.state.freeList.Nodup
  covers : ∀ idx, idx < capacity ↔ idx ∈ config.state.freeList ∨ config.state.alive idx = true
  disjoint : ∀ idx ∈ config.state.freeList, config.state.alive idx = false
  fresh : ∀ constructed s next,
    call config.state (.acquire constructed) = some (next, .returned (some s)) →
      s ∉ handedOut config
  exhausted : ∀ constructed,
    (∃ next, call config.state (.acquire constructed) = some (next, .returned none)) ↔
      config.state.inUse = capacity
  held : (destroyed config.state).Perm (handedOut config)
  once : (destroyed config.state).Nodup
  objects : ∀ idx ∈ destroyed config.state, (config.state.buffer idx).isSome

/-- No constructor that runs throws; it does not run when no slot is free. -/
def Constructs (config : Run (MemoryPool T) T) : Call T → Prop
  | .acquire none => config.state.inUse = config.state.capacity
  | _ => True

/-- What is released was handed out, and no constructor throws. -/
def Regular (config : Run (MemoryPool T) T) (op : Call T) : Prop :=
  Returned config op ∧ Constructs config op

instance (config : Run (MemoryPool T) T) : ∀ op : Call T, Decidable (Constructs config op)
  | .acquire none => inferInstanceAs (Decidable (config.state.inUse = config.state.capacity))
  | .acquire (some _) => .isTrue trivial
  | .release _ => .isTrue trivial

instance (config : Run (MemoryPool T) T) (op : Call T) : Decidable (Regular config op) :=
  inferInstanceAs (Decidable (Returned config op ∧ Constructs config op))

/-! ## What the calls keep -/

/-- The pool is sound and its marks are the slots that callers hold. -/
structure Marked (capacity : Nat) (config : Run (MemoryPool T) T) : Prop where
  sound : PoolSound config.state
  slab : config.state.capacity = capacity
  nodup : (handedOut config).Nodup
  marks : ∀ idx, idx ∈ handedOut config ↔ config.state.alive idx = true

variable {capacity : Nat} {config : Run (MemoryPool T) T}

theorem full_iff (sound : PoolSound config.state) :
    config.state.inUse = config.state.capacity ↔ config.state.freeList = [] := by
  have few : config.state.freeList.length ≤ config.state.capacity := by
    have inside := sound.nodup.subperm fun idx member =>
      List.mem_range.mpr (sound.inSlab idx member)
    simpa using inside.length_le
  rw [← List.length_eq_zero_iff, inUse]
  omega

theorem start_marked : Marked capacity (.start (make capacity) : Run (MemoryPool T) T) where
  sound := make_sound capacity
  slab := rfl
  nodup := List.nodup_nil
  marks idx := by simp [handedOut, make, Config.start]

theorem acquired_marked (marked : Marked capacity config) {s : Nat} {rest : List Nat}
    (free : config.state.freeList = s :: rest) (value : T) :
    Marked capacity
      (config.push (.acquire (some value)) (acquire value config.state).2
        (.returned (some s))) := by
  have unmarked : config.state.alive s ≠ true := by
    rw [Ne, marked.sound.alive, free]
    exact fun both => both.2 List.mem_cons_self
  have held := handed_out_push config (.acquire (some value)) (acquire value config.state).2
    (.returned (some s))
  constructor
  · exact acquire_sound marked.sound value
  · rw [Config.push_state, acquire_cons value free]
    exact marked.slab
  · rw [held]
    exact List.nodup_cons.mpr ⟨fun member => unmarked ((marked.marks s).mp member), marked.nodup⟩
  · intro idx
    rw [held, Config.push_state, acquire_cons value free, settle, List.mem_cons, marked.marks]
    by_cases same : idx = s
    · simp [same]
    · simp [same]

theorem released_marked (marked : Marked capacity config) {s : Nat}
    (member : s ∈ handedOut config) :
    Marked capacity
      (config.push (.release (some s)) (release (some s) config.state) (.returned none)) := by
  have held := handed_out_push config (.release (some s)) (release (some s) config.state)
    (.returned none)
  constructor
  · exact release_sound marked.sound ((marked.marks s).mp member)
  · exact marked.slab
  · rw [held]
    exact marked.nodup.erase s
  · intro idx
    rw [held, settle, marked.nodup.mem_erase_iff, marked.marks]
    by_cases same : idx = s
    · simp [same, release]
    · simp [same, release]

theorem step_marked (marked : Marked capacity config) {op : Call T} (regular : Regular config op)
    {next : MemoryPool T} {reply : PoolReply} (ran : call config.state op = some (next, reply)) :
    Marked capacity (config.push op next reply) := by
  obtain ⟨returned, constructs⟩ := regular
  cases op with
  | acquire constructed =>
      cases free : config.state.freeList with
      | nil =>
          -- Nothing is free, and the pool stays as it is.
          have same : call config.state (.acquire constructed) =
              some (config.state, .returned none) := by
            cases constructed with
            | none => simp [call, acquireThrows, free]
            | some value => simp [call, acquire, free]
          rw [same, Option.some.injEq, Prod.mk.injEq] at ran
          obtain ⟨rfl, rfl⟩ := ran
          have held := handed_out_push config (.acquire constructed) config.state (.returned none)
          exact ⟨marked.sound, marked.slab, held ▸ marked.nodup, held ▸ marked.marks⟩
      | cons s rest =>
          cases constructed with
          | none =>
              have full := (full_iff marked.sound).mp constructs
              rw [free] at full
              cases full
          | some value =>
              have top : (acquire value config.state).1 = some s := by
                rw [acquire_cons value free]
              simp only [call, top, Option.some.injEq, Prod.mk.injEq] at ran
              obtain ⟨rfl, rfl⟩ := ran
              exact acquired_marked marked free value
  | release p =>
      simp only [call, Option.some.injEq, Prod.mk.injEq] at ran
      obtain ⟨rfl, rfl⟩ := ran
      cases p with
      | none =>
          have held := handed_out_push config (.release none) config.state (.returned none)
          exact ⟨marked.sound, marked.slab, held ▸ marked.nodup, held ▸ marked.marks⟩
      | some s => exact released_marked marked returned

theorem reachable_marked (reached : Reachable call Regular (make capacity) config) :
    Marked capacity config :=
  reachable_invariant (Marked capacity) start_marked
    (fun _ _ _ _ marked regular ran => step_marked marked regular ran) reached

/-! ## What the marks say -/

theorem mem_destroyed (sound : PoolSound config.state) (idx : Nat) :
    idx ∈ destroyed config.state ↔ config.state.alive idx = true := by
  rw [destroyed, List.mem_filter, List.mem_range]
  exact ⟨And.right, fun marked => ⟨((sound.alive idx).mp marked).1, marked⟩⟩

theorem acquire_returns (constructed : Option T) {pool next : MemoryPool T} {p : Option Nat}
    (ran : call pool (.acquire constructed) = some (next, .returned p)) :
    p = pool.freeList.head? := by
  cases free : pool.freeList with
  | nil =>
      cases constructed with
      | none => simpa [call, acquireThrows, free] using (congrArg (Option.map Prod.snd) ran).symm
      | some value => simpa [call, acquire, free] using (congrArg (Option.map Prod.snd) ran).symm
  | cons s rest =>
      cases constructed with
      | none => simp [call, acquireThrows, free] at ran
      | some value => simpa [call, acquire, free] using (congrArg (Option.map Prod.snd) ran).symm

theorem exact_of_marked (marked : Marked capacity config) : Exact capacity config := by
  have sound := marked.sound
  have slab := marked.slab
  have once : (destroyed config.state).Nodup := List.nodup_range.filter _
  constructor
  · exact slab
  · exact sound.nodup
  · intro idx
    rw [sound.alive, slab]
    constructor
    · intro inSlab
      by_cases free : idx ∈ config.state.freeList
      · exact .inl free
      · exact .inr ⟨inSlab, free⟩
    · rintro (free | both)
      · exact slab ▸ sound.inSlab idx free
      · exact both.1
  · intro idx free
    rw [← Bool.not_eq_true, sound.alive]
    exact fun both => both.2 free
  · intro constructed s next ran member
    have top := acquire_returns constructed ran
    have free : s ∈ config.state.freeList := List.mem_of_head? top.symm
    exact ((sound.alive s).mp ((marked.marks s).mp member)).2 free
  · intro constructed
    rw [← slab, full_iff sound]
    constructor
    · rintro ⟨next, ran⟩
      exact List.head?_eq_none_iff.mp (acquire_returns constructed ran).symm
    · intro free
      cases constructed with
      | none => exact ⟨config.state, by simp [call, acquireThrows, free]⟩
      | some value => exact ⟨config.state, by simp [call, acquire, free]⟩
  · apply (List.perm_ext_iff_of_nodup once marked.nodup).mpr
    intro idx
    rw [mem_destroyed sound, marked.marks]
  · exact once
  · intro idx member
    rw [sound.built]
    exact (mem_destroyed sound idx).mp member

/-- The slot of a constructor that throws is neither free nor marked. -/
theorem thrown_not_exact (marked : Marked capacity config)
    (room : config.state.inUse ≠ config.state.capacity) {next : MemoryPool T} {reply : PoolReply}
    (ran : call config.state (.acquire none) = some (next, reply)) :
    ¬ Exact capacity (config.push (.acquire none) next reply) := by
  intro exact
  cases free : config.state.freeList with
  | nil => exact room ((full_iff marked.sound).mpr free)
  | cons s rest =>
      simp only [call, acquireThrows, free, Option.some.injEq, Prod.mk.injEq] at ran
      obtain ⟨rfl, rfl⟩ := ran
      have nodup := marked.sound.nodup
      rw [free] at nodup
      have inSlab : s < capacity := by
        rw [← marked.slab]
        apply marked.sound.inSlab
        rw [free]
        exact List.mem_cons_self
      have somewhere := (exact.covers s).mp inSlab
      rw [Config.push_state] at somewhere
      cases somewhere with
      | inl still => exact (List.nodup_cons.mp nodup).1 still
      | inr mark =>
          have taken := ((marked.sound.alive s).mp mark).2
          rw [free] at taken
          exact taken List.mem_cons_self

/-- Every run whose constructors return keeps the books exact, and one further call does so
exactly when its constructor returns or does not run. -/
theorem bookkeeping_exact_iff (reached : Reachable call Regular (make capacity) config) :
    Exact capacity config ∧ ∀ op, Returned config op →
      ∃ next reply, call config.state op = some (next, reply) ∧
        (Exact capacity (config.push op next reply) ↔ Constructs config op) := by
  have marked := reachable_marked reached
  refine ⟨exact_of_marked marked, ?_⟩
  intro op returned
  obtain ⟨⟨next, reply⟩, ran⟩ : ∃ result, call config.state op = some result := by
    cases op with
    | acquire constructed =>
        cases constructed with
        | none => exact ⟨_, rfl⟩
        | some value => exact ⟨_, rfl⟩
    | release p => exact ⟨_, rfl⟩
  refine ⟨next, reply, ran, ?_⟩
  by_cases constructs : Constructs config op
  · have after := exact_of_marked (step_marked marked ⟨returned, constructs⟩ ran)
    exact ⟨fun _ => constructs, fun _ => after⟩
  · refine ⟨fun exact => absurd exact ?_, fun contrary => absurd contrary constructs⟩
    cases op with
    | acquire constructed =>
        cases constructed with
        | none => exact thrown_not_exact marked constructs ran
        | some value => exact absurd trivial constructs
    | release p => exact absurd trivial constructs

/-- Three slots, one released before the pool is full, and null among the released. -/
theorem bookkeeping_exact_sample :
    ∃ config : Run (MemoryPool Nat) Nat,
      Reachable call Regular (make 3) config ∧ destroyed config.state = [0, 1, 2] ∧
        Exact 3 config ∧ ∀ op, Returned config op →
          ∃ next reply, call config.state op = some (next, reply) ∧
            (Exact 3 (config.push op next reply) ↔ Constructs config op) := by
  have completes : (execute call Regular (.start (make 3 : MemoryPool Nat))
      [.acquire (some 7), .acquire (some 8), .release (some 0), .release none,
        .acquire (some 9), .acquire (some 5), .acquire none]).any (fun config =>
          decide (destroyed config.state = [0, 1, 2])) = true := by
    decide
  obtain ⟨config, reached, slots⟩ := reachable_of_execute_any completes
  exact ⟨config, reached, slots, bookkeeping_exact_iff reached⟩

/-- The first constructor throws: slot 0 is not free and not marked. -/
theorem thrown_slot_unrecorded :
    ∃ config : Run (MemoryPool Nat) Nat,
      Reachable call Returned (make 2) config ∧ config.observations = [.threw] ∧
        config.state.freeList = [1] ∧ (∀ idx, config.state.alive idx = false) ∧
        handedOut config = [] ∧ config.state.inUse = 1 ∧ ¬ Exact 2 config := by
  obtain ⟨config, ran, threw, free, marks, held, used⟩ : ∃ config : Run (MemoryPool Nat) Nat,
      execute call Returned (.start (make 2)) [.acquire none] = some config ∧
        config.observations = [.threw] ∧ config.state.freeList = [1] ∧
        (∀ idx, config.state.alive idx = false) ∧ handedOut config = [] ∧
        config.state.inUse = 1 :=
    ⟨_, rfl, rfl, rfl, fun _ => rfl, rfl, rfl⟩
  refine ⟨config, reachable_of_execute ran, threw, free, marks, held, used, ?_⟩
  intro exact
  have somewhere := (exact.covers 0).mp (by decide)
  rw [free, marks] at somewhere
  simp at somewhere

end Finm327.Phase5.MemoryPool
