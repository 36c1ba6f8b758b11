import Finm327.Library.Runs
import Mathlib.Algebra.Ring.Nat
import Mathlib.Data.List.Pairwise

/-!
# The allocator on the stack

Transcribes `StackAllocator` of `hw4/include/OrderBookBuffer.hpp`. Addresses are numbers and
`size_t` is `UInt64`, so `sizeof(T) * n` and the sum in the test wrap. What `operator new`
returns, where it is called, comes with the request.
-/

namespace Finm327.Hw4

open Finm327.Library.Runs

def kBytes : UInt64 := 4096

structure StackAllocator where
  buf : Nat
  used : UInt64
deriving DecidableEq

inductive Request where
  /-- Without an address `operator new` throws. -/
  | allocate (n : UInt64) (new : Option Nat)
  | deallocate (p : Nat)
deriving DecidableEq

inductive Outcome where
  | fromBuffer (p : Nat)
  | fromNew (size : UInt64) (p : Nat)
  | threw (size : UInt64)
  | kept
  | deleted (p : Nat)
deriving DecidableEq

namespace StackAllocator

def make (buf : Nat) : StackAllocator := ⟨buf, 0⟩

def allocate (sizeofT n : UInt64) (new : Option Nat) (alloc : StackAllocator) :
    StackAllocator × Outcome :=
  let need := sizeofT * n
  if alloc.used + need ≤ kBytes then
    ({ alloc with used := alloc.used + need }, .fromBuffer (alloc.buf + alloc.used.toNat))
  else
    match new with
    | some p => (alloc, .fromNew need p)
    | none => (alloc, .threw need)

def deallocate (p : Nat) (alloc : StackAllocator) : Outcome :=
  if alloc.buf ≤ p ∧ p < alloc.buf + kBytes.toNat then .kept else .deleted p

def call (sizeofT : UInt64) (alloc : StackAllocator) : Request → Option (StackAllocator × Outcome)
  | .allocate n new => some (alloc.allocate sizeofT n new)
  | .deallocate p => some (alloc, alloc.deallocate p)

/-! ## What is handed out -/

inductive Origin where
  | buffer
  | new (size : UInt64)
deriving DecidableEq

/-- What a caller of `allocate(n)` takes for its own: `n` elements from an address on. -/
structure Block where
  start : Nat
  bytes : Nat
  origin : Origin
deriving DecidableEq

def Block.Covers (block : Block) (address : Nat) : Prop :=
  block.start ≤ address ∧ address < block.start + block.bytes

def handed (sizeofT : UInt64) : Request × Outcome → Option Block
  | (.allocate n _, .fromBuffer p) => some ⟨p, sizeofT.toNat * n.toNat, .buffer⟩
  | (.allocate n _, .fromNew size p) => some ⟨p, sizeofT.toNat * n.toNat, .new size⟩
  | _ => none

abbrev AllocatorRun := Config StackAllocator Request Outcome

def blocks (sizeofT : UInt64) (config : AllocatorRun) : List Block :=
  config.history.filterMap (handed sizeofT)

/-- `operator new` returns storage outside the buffer, and what is released was returned. -/
def Permitted (sizeofT : UInt64) (config : AllocatorRun) : Request → Prop
  | .allocate n new => ∀ p ∈ new, p + max 1 (sizeofT * n).toNat ≤ config.state.buf ∨
      config.state.buf + kBytes.toNat ≤ p
  | .deallocate p => ∃ block ∈ blocks sizeofT config, block.start = p

structure RealStorage (sizeofT : UInt64) (config : AllocatorRun) : Prop where
  inside : ∀ block ∈ blocks sizeofT config, block.origin = .buffer →
    config.state.buf ≤ block.start ∧
      block.start + block.bytes ≤ config.state.buf + kBytes.toNat
  apart : (blocks sizeofT config).Pairwise fun first second => first.origin = .buffer →
    second.origin = .buffer → ∀ address, ¬ (first.Covers address ∧ second.Covers address)
  enough : ∀ block ∈ blocks sizeofT config, ∀ size, block.origin = .new size →
    block.bytes ≤ size.toNat
  deletes : ∀ block ∈ blocks sizeofT config,
    config.state.deallocate block.start = .deleted block.start ↔ block.origin ≠ .buffer

/-- The number of bytes fits beside those in use, and is not zero when all are; or `operator new`
is called and throws. -/
def Fits (sizeofT : UInt64) (config : AllocatorRun) : Request → Prop
  | .allocate n new =>
      let bytes := sizeofT.toNat * n.toNat
      (config.state.used.toNat + bytes < 2 ^ 64 ∧
        (bytes = 0 → config.state.used < kBytes)) ∨
      (kBytes < config.state.used + sizeofT * n ∧ new = none)
  | .deallocate _ => True

instance (sizeofT : UInt64) (config : AllocatorRun) :
    ∀ request, Decidable (Permitted sizeofT config request)
  | .allocate n new => inferInstanceAs (Decidable (∀ p ∈ new,
      p + max 1 (sizeofT * n).toNat ≤ config.state.buf ∨ config.state.buf + kBytes.toNat ≤ p))
  | .deallocate p =>
      inferInstanceAs (Decidable (∃ block ∈ blocks sizeofT config, block.start = p))

instance (sizeofT : UInt64) (config : AllocatorRun) :
    ∀ request, Decidable (Fits sizeofT config request)
  | .allocate n new => inferInstanceAs (Decidable
      ((config.state.used.toNat + sizeofT.toNat * n.toNat < 2 ^ 64 ∧
          (sizeofT.toNat * n.toNat = 0 → config.state.used < kBytes)) ∨
        (kBytes < config.state.used + sizeofT * n ∧ new = none)))
  | .deallocate _ => .isTrue trivial

/-! ## What a run that fits keeps -/

theorem k_bytes_to_nat : kBytes.toNat = 4096 := rfl

/-- The blocks from the buffer lie in order below the mark, and start before its end. -/
structure Placed (sizeofT : UInt64) (config : AllocatorRun) : Prop where
  used : config.state.used.toNat ≤ kBytes.toNat
  buffer : ∀ block ∈ blocks sizeofT config, block.origin = .buffer →
    config.state.buf ≤ block.start ∧ block.start < config.state.buf + kBytes.toNat ∧
      block.start + block.bytes ≤ config.state.buf + config.state.used.toNat
  new : ∀ block ∈ blocks sizeofT config, ∀ size, block.origin = .new size →
    block.bytes ≤ size.toNat ∧ ¬ (config.state.buf ≤ block.start ∧
      block.start < config.state.buf + kBytes.toNat)
  order : (blocks sizeofT config).Pairwise fun first second => first.origin = .buffer →
    second.origin = .buffer → first.start + first.bytes ≤ second.start

variable {sizeofT : UInt64} {config : AllocatorRun}

theorem real_of_placed (placed : Placed sizeofT config) : RealStorage sizeofT config where
  inside block member origin := by
    obtain ⟨lower, _, upper⟩ := placed.buffer block member origin
    have used := placed.used
    exact ⟨lower, by omega⟩
  apart := by
    apply placed.order.imp
    intro first second before one two address both
    have order := before one two
    obtain ⟨⟨_, below⟩, ⟨above, _⟩⟩ := both
    omega
  enough block member size origin := (placed.new block member size origin).1
  deletes block member := by
    unfold deallocate
    cases origin : block.origin with
    | buffer =>
        obtain ⟨lower, upper, _⟩ := placed.buffer block member origin
        simp [lower, upper]
    | new size =>
        have outside := (placed.new block member size origin).2
        simp [if_neg outside]

theorem blocks_push (request : Request) (next : StackAllocator) (outcome : Outcome) :
    blocks sizeofT (config.push request next outcome) =
      blocks sizeofT config ++ (handed sizeofT (request, outcome)).toList := by
  rw [blocks, Config.push, List.filterMap_append]
  cases handedOut : handed sizeofT (request, outcome) with
  | none => simp [handedOut, blocks]
  | some block => simp [handedOut, blocks]

theorem mem_blocks_push {request : Request} {next : StackAllocator} {outcome : Outcome}
    {block : Block} :
    block ∈ blocks sizeofT (config.push request next outcome) ↔
      block ∈ blocks sizeofT config ∨ handed sizeofT (request, outcome) = some block := by
  rw [blocks_push, List.mem_append, Option.mem_toList]

theorem from_buffer_mem (sizeofT : UInt64) (config : AllocatorRun) (n : UInt64) (new : Option Nat)
    (next : StackAllocator) (p : Nat) :
    ⟨p, sizeofT.toNat * n.toNat, .buffer⟩ ∈
      blocks sizeofT (config.push (.allocate n new) next (.fromBuffer p)) :=
  mem_blocks_push.mpr (.inr rfl)

theorem from_new_mem (sizeofT : UInt64) (config : AllocatorRun) (n : UInt64) (new : Option Nat)
    (next : StackAllocator) (size : UInt64) (p : Nat) :
    ⟨p, sizeofT.toNat * n.toNat, .new size⟩ ∈
      blocks sizeofT (config.push (.allocate n new) next (.fromNew size p)) :=
  mem_blocks_push.mpr (.inr rfl)

theorem pairwise_blocks_push {request : Request} {next : StackAllocator} {outcome : Outcome}
    {Related : Block → Block → Prop} (before : (blocks sizeofT config).Pairwise Related)
    (last : ∀ first ∈ blocks sizeofT config, ∀ second,
      handed sizeofT (request, outcome) = some second → Related first second) :
    (blocks sizeofT (config.push request next outcome)).Pairwise Related := by
  rw [blocks_push]
  apply List.pairwise_append.mpr
  refine ⟨before, ?_, fun first member second handedOut => last first member second
    (Option.mem_toList.mp handedOut)⟩
  cases handed sizeofT (request, outcome) with
  | none => exact List.Pairwise.nil
  | some block => exact List.pairwise_singleton Related block

theorem start_placed (buf : Nat) : Placed sizeofT (.start (make buf) : AllocatorRun) where
  used := Nat.zero_le _
  buffer := by simp [blocks, Config.start]
  new := by simp [blocks, Config.start]
  order := by simp [blocks, Config.start]

/-- Nothing is handed out. -/
theorem push_same (placed : Placed sizeofT config) {request : Request} {outcome : Outcome}
    (nothing : handed sizeofT (request, outcome) = none) :
    Placed sizeofT (config.push request config.state outcome) := by
  have same : blocks sizeofT (config.push request config.state outcome) =
      blocks sizeofT config := by
    rw [blocks_push, nothing]
    simp
  exact ⟨placed.used, same ▸ placed.buffer, same ▸ placed.new, same ▸ placed.order⟩

theorem push_from_new (placed : Placed sizeofT config) {n : UInt64} {p : Nat}
    (permitted : Permitted sizeofT config (.allocate n (some p)))
    (exact : (sizeofT * n).toNat = sizeofT.toNat * n.toNat) :
    Placed sizeofT (config.push (.allocate n (some p)) config.state
      (.fromNew (sizeofT * n) p)) := by
  have avoids := permitted p rfl
  constructor
  · exact placed.used
  · intro block member origin
    rcases mem_blocks_push.mp member with before | last
    · exact placed.buffer block before origin
    · cases last
      cases origin
  · intro block member size origin
    rcases mem_blocks_push.mp member with before | last
    · exact placed.new block before size origin
    · cases last
      cases origin
      refine ⟨Nat.le_of_eq exact.symm, ?_⟩
      rintro ⟨lower, upper⟩
      rw [Config.push_state] at lower upper
      dsimp only at lower upper
      omega
  · apply pairwise_blocks_push placed.order
    intro first _ second last _ origin
    cases last
    cases origin

theorem push_from_buffer (placed : Placed sizeofT config) {n : UInt64} {new : Option Nat}
    (room : config.state.used.toNat + sizeofT.toNat * n.toNat ≤ kBytes.toNat)
    (some : sizeofT.toNat * n.toNat = 0 → config.state.used.toNat < kBytes.toNat)
    {next : StackAllocator} (same : next.buf = config.state.buf)
    (used : next.used.toNat = config.state.used.toNat + sizeofT.toNat * n.toNat) :
    Placed sizeofT (config.push (.allocate n new) next
      (.fromBuffer (config.state.buf + config.state.used.toNat))) := by
  constructor
  · rw [Config.push_state, used]
    exact room
  · rw [Config.push_state, same, used]
    intro block member origin
    rcases mem_blocks_push.mp member with before | last
    · obtain ⟨lower, upper, within⟩ := placed.buffer block before origin
      exact ⟨lower, upper, by omega⟩
    · cases last
      dsimp only
      refine ⟨by omega, ?_, by omega⟩
      by_cases empty : sizeofT.toNat * n.toNat = 0
      · have below := some empty
        omega
      · omega
  · rw [Config.push_state, same]
    intro block member size origin
    rcases mem_blocks_push.mp member with before | last
    · exact placed.new block before size origin
    · cases last
      cases origin
  · apply pairwise_blocks_push placed.order
    intro first member second last one _
    cases last
    exact (placed.buffer first member one).2.2

/-! ## One call -/

/-- Where the numbers fit, the words of the test are the numbers. -/
theorem words_exact {n : UInt64}
    (fits : config.state.used.toNat + sizeofT.toNat * n.toNat < 2 ^ 64) :
    (sizeofT * n).toNat = sizeofT.toNat * n.toNat ∧
      (config.state.used + sizeofT * n).toNat =
        config.state.used.toNat + sizeofT.toNat * n.toNat := by
  have need : (sizeofT * n).toNat = sizeofT.toNat * n.toNat := by
    rw [UInt64.toNat_mul]
    exact Nat.mod_eq_of_lt (by omega)
  refine ⟨need, ?_⟩
  rw [UInt64.toNat_add, need]
  exact Nat.mod_eq_of_lt fits

theorem call_placed (placed : Placed sizeofT config) {request : Request}
    (permitted : Permitted sizeofT config request) (fits : Fits sizeofT config request)
    {next : StackAllocator} {outcome : Outcome}
    (ran : call sizeofT config.state request = some (next, outcome)) :
    Placed sizeofT (config.push request next outcome) := by
  cases request with
  | allocate n new =>
      unfold call allocate at ran
      rw [Option.some.injEq] at ran
      dsimp only at ran
      rcases fits with ⟨fits, some⟩ | ⟨full, throws⟩
      · obtain ⟨need, sum⟩ := @words_exact _ _ _ fits
        by_cases room : config.state.used + sizeofT * n ≤ kBytes
        · rw [if_pos room] at ran
          cases ran
          rw [UInt64.le_iff_toNat_le, sum] at room
          exact push_from_buffer placed room (fun empty => UInt64.lt_iff_toNat_lt.mp (some empty))
            rfl sum
        · rw [if_neg room] at ran
          cases new with
          | none =>
              cases ran
              exact push_same placed rfl
          | some p =>
              cases ran
              exact push_from_new placed permitted need
      · have beyond : ¬ config.state.used + sizeofT * n ≤ kBytes := UInt64.not_le.mpr full
        rw [if_neg beyond, throws] at ran
        cases ran
        exact push_same placed rfl
  | deallocate p =>
      cases ran
      exact push_same placed rfl

/-- A wrapped size is not enough, a wrapped sum leads out of the buffer, and the empty block at
its end is taken for the heap's. -/
theorem not_real_of_not_fits (placed : Placed sizeofT config) {request : Request}
    (unfit : ¬ Fits sizeofT config request) {next : StackAllocator} {outcome : Outcome}
    (ran : call sizeofT config.state request = some (next, outcome)) :
    ¬ RealStorage sizeofT (config.push request next outcome) := by
  intro real
  have used := placed.used
  cases request with
  | deallocate p => exact unfit trivial
  | allocate n new =>
      unfold call allocate at ran
      rw [Option.some.injEq] at ran
      dsimp only at ran
      by_cases room : config.state.used + sizeofT * n ≤ kBytes
      · rw [if_pos room] at ran
        cases ran
        have member := from_buffer_mem sizeofT config n new
          ⟨config.state.buf, config.state.used + sizeofT * n⟩
          (config.state.buf + config.state.used.toNat)
        obtain ⟨_, within⟩ := real.inside _ member rfl
        have kept := (real.deletes _ member).mp
        rw [Config.push_state] at within kept
        dsimp only at within kept
        apply unfit
        refine .inl ⟨by rw [k_bytes_to_nat] at within; omega, ?_⟩
        intro empty
        rw [UInt64.lt_iff_toNat_lt]
        by_contra full
        exact kept (if_neg (by dsimp only; omega)) rfl
      · rw [if_neg room] at ran
        cases new with
        | none => exact unfit (.inr ⟨UInt64.not_le.mp room, rfl⟩)
        | some p =>
            cases ran
            have member := from_new_mem sizeofT config n (some p) config.state (sizeofT * n) p
            have enough := real.enough _ member _ rfl
            dsimp only at enough
            have word := (sizeofT * n).toNat_lt
            have need : (sizeofT * n).toNat = sizeofT.toNat * n.toNat := by
              rw [UInt64.toNat_mul]
              exact Nat.mod_eq_of_lt (by omega)
            rw [UInt64.le_iff_toNat_le, UInt64.toNat_add, need, k_bytes_to_nat] at room
            rw [k_bytes_to_nat] at used
            apply unfit
            refine .inl ⟨by omega, ?_⟩
            intro empty
            rw [empty] at room
            omega

/-! ## Whole runs -/

/-- What the caller keeps to: its calls are permitted and fit. -/
def Careful (sizeofT : UInt64) (config : AllocatorRun) (request : Request) : Prop :=
  Permitted sizeofT config request ∧ Fits sizeofT config request

instance (sizeofT : UInt64) (config : AllocatorRun) (request : Request) :
    Decidable (Careful sizeofT config request) :=
  inferInstanceAs (Decidable (Permitted sizeofT config request ∧ Fits sizeofT config request))

theorem reachable_placed {buf : Nat}
    (reached : Reachable (call sizeofT) (Careful sizeofT) (make buf) config) :
    Placed sizeofT config :=
  reachable_invariant (Placed sizeofT) (start_placed buf)
    (fun _ _ _ _ placed careful ran => call_placed placed careful.1 careful.2 ran) reached

/-- Every run whose requests fit hands out real, disjoint storage, and after one further call the
blocks are so exactly when it fits too. -/
theorem real_storage_iff {buf : Nat}
    (reached : Reachable (call sizeofT) (Careful sizeofT) (make buf) config) :
    RealStorage sizeofT config ∧ ∀ request, Permitted sizeofT config request →
      ∃ next outcome, call sizeofT config.state request = some (next, outcome) ∧
        (RealStorage sizeofT (config.push request next outcome) ↔ Fits sizeofT config request) := by
  have placed := reachable_placed reached
  refine ⟨real_of_placed placed, ?_⟩
  intro request permitted
  obtain ⟨⟨next, outcome⟩, ran⟩ : ∃ result, call sizeofT config.state request = some result := by
    cases request with
    | allocate n new => exact ⟨_, rfl⟩
    | deallocate p => exact ⟨_, rfl⟩
  refine ⟨next, outcome, ran, ?_⟩
  constructor
  · intro real
    by_contra unfit
    exact not_real_of_not_fits placed unfit ran real
  · intro fits
    exact real_of_placed (call_placed placed permitted fits ran)

/-- Elements of 24 bytes: the first block comes from the buffer, the second one, too long for what
is left, from the heap, and both are released. -/
theorem real_storage_sample :
    ∃ config : AllocatorRun, Reachable (call 24) (Careful 24) (make 65536) config ∧
      config.observations = [.fromBuffer 65536, .fromNew 4800 90000, .fromBuffer 65776, .kept,
        .deleted 90000] ∧
      RealStorage 24 config ∧ ∀ request, Permitted 24 config request →
        ∃ next outcome, call 24 config.state request = some (next, outcome) ∧
          (RealStorage 24 (config.push request next outcome) ↔ Fits 24 config request) := by
  have completes : (execute (call 24) (Careful 24) (.start (make 65536))
      [.allocate 10 none, .allocate 200 (some 90000), .allocate 1 (some 90000),
        .deallocate 65536, .deallocate 90000]).any (fun config =>
          decide (config.observations = [.fromBuffer 65536, .fromNew 4800 90000,
            .fromBuffer 65776, .kept, .deleted 90000])) = true := by
    decide
  obtain ⟨config, reached, seen⟩ := reachable_of_execute_any completes
  exact ⟨config, reached, seen, real_storage_iff reached⟩

/-- For 2 ^ 61 elements of 8 bytes the size wraps to zero: the request is served from the buffer,
and nothing of it is used up. -/
theorem huge_request_served :
    ∃ config : AllocatorRun, Reachable (call 8) (Permitted 8) (make 65536) config ∧
      config.ops = [.allocate 2305843009213693952 none] ∧
      config.observations = [.fromBuffer 65536] ∧ config.state.used = 0 ∧
      blocks 8 config = [⟨65536, 2 ^ 64, .buffer⟩] ∧ ¬ RealStorage 8 config := by
  have completes : (execute (call 8) (Permitted 8) (.start (make 65536))
      [.allocate 2305843009213693952 none]).any (fun config =>
        decide (config.ops = [.allocate 2305843009213693952 none] ∧
          config.observations = [.fromBuffer 65536] ∧ config.state = ⟨65536, 0⟩ ∧
          blocks 8 config = [⟨65536, 2 ^ 64, .buffer⟩])) = true := by
    decide
  obtain ⟨config, reached, ops, seen, state, served⟩ := reachable_of_execute_any completes
  refine ⟨config, reached, ops, seen, by rw [state], served, ?_⟩
  intro real
  obtain ⟨_, within⟩ := real.inside ⟨65536, 2 ^ 64, .buffer⟩ (by rw [served]; simp) rfl
  rw [state, k_bytes_to_nat] at within
  dsimp only at within
  omega

end StackAllocator

end Finm327.Hw4
