import Mathlib.Data.List.Perm.Subperm
import Mathlib.Data.List.Nodup
import Finm327.Library.Runs

/-!
# Pools of slots

A pool hands out slots, builds an object in each, and takes slots back. Building
an object can fail after the slot has been taken. Whatever a pool keeps, its
slots are split into taken and free ones, and the free ones are a stack. Then a
slot can be handed out later exactly when it is free or held by a caller, who can
give it back; a failed construction takes a slot that nobody holds.
-/

namespace Finm327.Library.SlotPools

open Finm327.Library.Runs

universe u v

inductive Call (T : Type u) where
  /-- The object that the constructor builds; none when it throws. -/
  | acquire (constructed : Option T)
  | release (p : Option Nat)
deriving DecidableEq

inductive PoolReply where
  | returned (p : Option Nat)
  | threw
deriving DecidableEq

variable {Pool : Type v} {T : Type u}

abbrev Run (Pool : Type v) (T : Type u) := Config Pool (Call T) PoolReply

/-- The slots handed out and not yet released. -/
def settle (held : List Nat) : Call T × PoolReply → List Nat
  | (.acquire _, .returned (some s)) => s :: held
  | (.release (some s), _) => held.erase s
  | _ => held

def handedOut (config : Run Pool T) : List Nat := config.history.foldl settle []

/-- Only what was handed out is released, and null pointers. -/
def Returned (config : Run Pool T) : Call T → Prop
  | .release (some s) => s ∈ handedOut config
  | _ => True

instance (config : Run Pool T) : ∀ call : Call T, Decidable (Returned config call)
  | .release (some s) => inferInstanceAs (Decidable (s ∈ handedOut config))
  | .release none => .isTrue trivial
  | .acquire _ => .isTrue trivial

/-- Some calls end with an acquire that hands out the slot. -/
def CanHandOut (step : Pool → Call T → Option (Pool × PoolReply)) (config : Run Pool T) (s : Nat) :
    Prop :=
  ∃ later, Leads step Returned config later ∧ ∃ value next,
    step later.state (.acquire (some value)) = some (next, .returned (some s))

/-- What holds of the calls and of the numbers that the pool reports. -/
structure Serves (step : Pool → Call T → Option (Pool × PoolReply)) (count capacity : Pool → Nat)
    (Splits : Pool → List Nat → List Nat → Prop) : Prop where
  nodup : ∀ {pool taken free}, Splits pool taken free → (taken ++ free).Nodup
  counted : ∀ {pool taken free}, Splits pool taken free → count pool = taken.length
  total : ∀ {pool taken free}, Splits pool taken free →
    taken.length + free.length = capacity pool
  exhausted : ∀ {pool taken}, Splits pool taken [] → ∀ constructed,
    step pool (.acquire constructed) = some (pool, .returned none)
  acquires : ∀ {pool taken s rest}, Splits pool taken (s :: rest) → ∀ value,
    ∃ next, step pool (.acquire (some value)) = some (next, .returned (some s)) ∧
      Splits next (s :: taken) rest
  throws : ∀ {pool taken s rest}, Splits pool taken (s :: rest) →
    ∃ next, step pool (.acquire none) = some (next, .threw) ∧ Splits next (s :: taken) rest
  releases : ∀ {pool taken free s}, Splits pool taken free → s ∈ taken →
    ∃ next, step pool (.release (some s)) = some (next, .returned none) ∧
      Splits next (taken.erase s) (s :: free)
  ignores : ∀ pool, step pool (.release none) = some (pool, .returned none)

/-- The taken slots include those that callers hold. -/
structure Tracks (Splits : Pool → List Nat → List Nat → Prop) (config : Run Pool T)
    (taken free : List Nat) : Prop where
  splits : Splits config.state taken free
  held : (handedOut config).Subperm taken

theorem handed_out_push (config : Run Pool T) (call : Call T) (pool : Pool) (reply : PoolReply) :
    handedOut (config.push call pool reply) = settle (handedOut config) (call, reply) := by
  unfold handedOut Config.push
  rw [List.foldl_append]
  rfl

section Serves

variable {step : Pool → Call T → Option (Pool × PoolReply)} {count capacity : Pool → Nat}
  {Splits : Pool → List Nat → List Nat → Prop} {config : Run Pool T} {taken free : List Nat}

/-- What one call does to the split, and what it answers. -/
inductive Effect (config : Run Pool T) (taken free : List Nat) (next : Pool) (reply : PoolReply) :
    Call T → List Nat → List Nat → Prop
  | exhausted (constructed : Option T) (empty : free = []) (answer : reply = .returned none)
      (same : next = config.state) : Effect config taken free next reply (.acquire constructed) taken []
  | acquired (value : T) (s : Nat) (rest : List Nat) (top : free = s :: rest)
      (answer : reply = .returned (some s)) :
      Effect config taken free next reply (.acquire (some value)) (s :: taken) rest
  | threw (s : Nat) (rest : List Nat) (top : free = s :: rest) (answer : reply = .threw) :
      Effect config taken free next reply (.acquire none) (s :: taken) rest
  | released (s : Nat) (held : s ∈ handedOut config) (answer : reply = .returned none) :
      Effect config taken free next reply (.release (some s)) (taken.erase s) (s :: free)
  | ignored (answer : reply = .returned none) (same : next = config.state) :
      Effect config taken free next reply (.release none) taken free

theorem Serves.step_effect (serves : Serves step count capacity Splits)
    (tracks : Tracks Splits config taken free) {call : Call T} (returned : Returned config call)
    {next : Pool} {reply : PoolReply} (ran : step config.state call = some (next, reply)) :
    ∃ takenAfter freeAfter, Effect config taken free next reply call takenAfter freeAfter ∧
      Splits next takenAfter freeAfter := by
  have splits := tracks.splits
  cases call with
  | acquire constructed =>
      cases free with
      | nil =>
          rw [serves.exhausted splits] at ran
          cases ran
          exact ⟨_, _, .exhausted constructed rfl rfl rfl, splits⟩
      | cons s rest =>
          cases constructed with
          | some value =>
              obtain ⟨after, served, splitsAfter⟩ := serves.acquires splits value
              rw [served] at ran
              cases ran
              exact ⟨_, _, .acquired value s rest rfl rfl, splitsAfter⟩
          | none =>
              obtain ⟨after, served, splitsAfter⟩ := serves.throws splits
              rw [served] at ran
              cases ran
              exact ⟨_, _, .threw s rest rfl rfl, splitsAfter⟩
  | release p =>
      cases p with
      | some s =>
          obtain ⟨after, served, splitsAfter⟩ :=
            serves.releases splits (tracks.held.subset returned)
          rw [served] at ran
          cases ran
          exact ⟨_, _, .released s returned rfl, splitsAfter⟩
      | none =>
          rw [serves.ignores] at ran
          cases ran
          exact ⟨_, _, .ignored rfl rfl, splits⟩

theorem Effect.tracks {call : Call T} {next : Pool} {reply : PoolReply}
    {takenAfter freeAfter : List Nat} (tracks : Tracks Splits config taken free)
    (effect : Effect config taken free next reply call takenAfter freeAfter)
    (splits : Splits next takenAfter freeAfter) :
    Tracks Splits (config.push call next reply) takenAfter freeAfter := by
  refine ⟨splits, ?_⟩
  rw [handed_out_push]
  have held := tracks.held
  cases effect with
  | exhausted constructed empty answer same =>
      rw [answer]
      exact held
  | acquired value s rest top answer =>
      rw [answer]
      exact List.subperm_cons s |>.mpr held
  | threw s rest top answer =>
      rw [answer]
      exact held.trans (List.sublist_cons_self s taken).subperm
  | released s member answer =>
      exact held.erase s
  | ignored answer same => exact held

theorem Serves.push_tracks (serves : Serves step count capacity Splits)
    (tracks : Tracks Splits config taken free) {call : Call T} (returned : Returned config call)
    {next : Pool} {reply : PoolReply} (ran : step config.state call = some (next, reply)) :
    ∃ taken free, Tracks Splits (config.push call next reply) taken free := by
  obtain ⟨_, _, effect, splits⟩ := serves.step_effect tracks returned ran
  exact ⟨_, _, effect.tracks tracks splits⟩

theorem Serves.reachable_tracks (serves : Serves step count capacity Splits) {initial : Pool}
    (splits : ∃ free, Splits initial [] free) (reached : Reachable step Returned initial config) :
    ∃ taken free, Tracks Splits config taken free := by
  apply reachable_invariant (fun config => ∃ taken free, Tracks Splits config taken free) ?_ ?_
    reached
  · obtain ⟨free, fresh⟩ := splits
    exact ⟨[], free, fresh, List.Subperm.refl []⟩
  · rintro config call next reply ⟨_, _, tracks⟩ returned ran
    exact serves.push_tracks tracks returned ran

/-- Neither free nor held: lost, or no slot of the pool. -/
def Gone (Splits : Pool → List Nat → List Nat → Prop) (config : Run Pool T) (s : Nat) : Prop :=
  ∃ taken free, Tracks Splits config taken free ∧ s ∉ handedOut config ∧ s ∉ free

theorem Serves.step_gone (serves : Serves step count capacity Splits) {s : Nat}
    (gone : Gone Splits config s) {call : Call T} (returned : Returned config call) {next : Pool}
    {reply : PoolReply} (ran : step config.state call = some (next, reply)) :
    Gone Splits (config.push call next reply) s := by
  obtain ⟨taken, free, tracks, notHeld, notFree⟩ := gone
  obtain ⟨_, _, effect, splits⟩ := serves.step_effect tracks returned ran
  refine ⟨_, _, effect.tracks tracks splits, ?_⟩
  rw [handed_out_push]
  cases effect with
  | exhausted constructed empty answer same =>
      rw [answer]
      exact ⟨notHeld, List.not_mem_nil⟩
  | acquired value other rest top answer =>
      rw [top, List.mem_cons, not_or] at notFree
      rw [answer]
      exact ⟨fun member => (List.mem_cons.mp member).elim notFree.1 notHeld, notFree.2⟩
  | threw other rest top answer =>
      rw [top, List.mem_cons, not_or] at notFree
      rw [answer]
      exact ⟨notHeld, notFree.2⟩
  | released other held answer =>
      have different : s ≠ other := fun same => notHeld (same ▸ held)
      refine ⟨fun member => notHeld (List.mem_of_mem_erase member), ?_⟩
      exact fun member => (List.mem_cons.mp member).elim different notFree
  | ignored answer same => exact ⟨notHeld, notFree⟩

/-- What is gone is never handed out. -/
theorem Serves.not_can_hand_out (serves : Serves step count capacity Splits) {s : Nat}
    (gone : Gone Splits config s) : ¬ CanHandOut step config s := by
  rintro ⟨later, leads, value, next, ran⟩
  obtain ⟨taken, free, tracks, _, notFree⟩ :=
    leads_invariant (fun config => Gone Splits config s)
      (fun _ _ _ _ gone returned ran => serves.step_gone gone returned ran) leads gone
  have returned : Returned later (.acquire (some value)) := trivial
  obtain ⟨_, _, effect, _⟩ := serves.step_effect tracks returned ran
  cases effect with
  | exhausted constructed empty answer same => cases answer
  | acquired value other rest top answer =>
      cases answer
      rw [top] at notFree
      exact notFree List.mem_cons_self

/-- A pool that reports to be full hands out nothing but what it gets back. -/
theorem Serves.not_can_hand_out_full (serves : Serves step count capacity Splits)
    (tracks : Tracks Splits config taken free)
    (full : count config.state = capacity config.state) {s : Nat}
    (notHeld : s ∉ handedOut config) : ¬ CanHandOut step config s := by
  have counted := serves.counted tracks.splits
  have total := serves.total tracks.splits
  have empty : free = [] := List.length_eq_zero_iff.mp (by omega)
  rw [empty] at tracks
  exact serves.not_can_hand_out ⟨taken, [], tracks, notHeld, List.not_mem_nil⟩

theorem can_hand_out_push {s : Nat} {call : Call T} {next : Pool} {reply : PoolReply}
    (returned : Returned config call) (ran : step config.state call = some (next, reply))
    (later : CanHandOut step (config.push call next reply) s) : CanHandOut step config s := by
  obtain ⟨last, leads, served⟩ := later
  exact ⟨last, leads.head (.run returned ran), served⟩

variable [Nonempty T]

theorem Serves.hands_out_free (serves : Serves step count capacity Splits)
    (tracks : Tracks Splits config taken free) {s : Nat} (member : s ∈ free) :
    CanHandOut step config s := by
  obtain ⟨value⟩ := ‹Nonempty T›
  induction free generalizing config taken with
  | nil => cases member
  | cons top rest ih =>
      obtain ⟨next, served, splits⟩ := serves.acquires tracks.splits value
      have returned : Returned config (.acquire (some value)) := trivial
      by_cases first : s = top
      · exact ⟨config, .refl, value, next, first ▸ served⟩
      · have effect : Effect config taken (top :: rest) next (.returned (some top))
            (.acquire (some value)) (top :: taken) rest := .acquired value top rest rfl rfl
        apply can_hand_out_push returned served
        exact ih (effect.tracks tracks splits) ((List.mem_cons.mp member).resolve_left first)

theorem Serves.can_hand_out_iff (serves : Serves step count capacity Splits)
    (tracks : Tracks Splits config taken free) (s : Nat) :
    CanHandOut step config s ↔ s ∈ handedOut config ∨ s ∈ free := by
  constructor
  · intro can
    by_contra neither
    rw [not_or] at neither
    exact serves.not_can_hand_out ⟨taken, free, tracks, neither⟩ can
  · intro either
    cases either with
    | inl held =>
        -- The holder gives it back, and it is on top.
        obtain ⟨next, served, splits⟩ :=
          serves.releases tracks.splits (tracks.held.subset held)
        have effect : Effect config taken free next (.returned none) (.release (some s))
            (taken.erase s) (s :: free) := .released s held rfl
        have returned : Returned config (.release (some s)) := held
        apply can_hand_out_push returned served
        exact serves.hands_out_free (effect.tracks tracks splits) List.mem_cons_self
    | inr member => exact serves.hands_out_free tracks member

/-- The call leaves no trace in what the pool can do and in what it reports. -/
structure Unchanged (step : Pool → Call T → Option (Pool × PoolReply)) (count : Pool → Nat)
    (before after : Run Pool T) : Prop where
  slots : ∀ s, CanHandOut step before s ↔ CanHandOut step after s
  count : count after.state = count before.state

/-- After a failed construction the pool can hand out the same slots only when it had none left
and the constructor did not run. -/
theorem Serves.slots_kept_iff (serves : Serves step count capacity Splits)
    (tracks : Tracks Splits config taken free) {next : Pool} {reply : PoolReply}
    (ran : step config.state (.acquire none) = some (next, reply)) :
    (∀ s, CanHandOut step config s ↔
      CanHandOut step (config.push (.acquire none) next reply) s) ↔ free = [] := by
  have returned : Returned config (.acquire (none : Option T)) := trivial
  obtain ⟨_, _, effect, splits⟩ := serves.step_effect tracks returned ran
  have tracksAfter := effect.tracks tracks splits
  have held := handed_out_push config (.acquire none) next reply
  cases effect with
  | exhausted constructed empty answer same =>
      subst empty same answer
      refine ⟨fun _ => rfl, ?_⟩
      intro _ s
      rw [serves.can_hand_out_iff tracks, serves.can_hand_out_iff tracksAfter, held]
      rfl
  | threw top rest fresh answer =>
      subst fresh answer
      refine ⟨?_, fun empty => (by cases empty)⟩
      intro kept
      obtain ⟨_, restNodup, apart⟩ := List.nodup_append.mp (serves.nodup tracks.splits)
      have notHeld : top ∉ handedOut config :=
        fun member => apart top (tracks.held.subset member) top List.mem_cons_self rfl
      have gone : Gone Splits (config.push (.acquire none) next .threw) top :=
        ⟨_, _, tracksAfter, held ▸ notHeld, (List.nodup_cons.mp restNodup).1⟩
      have before := serves.hands_out_free tracks List.mem_cons_self
      exact absurd ((kept top).mp before) (serves.not_can_hand_out gone)

omit [Nonempty T] in
theorem Serves.count_kept_iff (serves : Serves step count capacity Splits)
    (tracks : Tracks Splits config taken free) {next : Pool} {reply : PoolReply}
    (ran : step config.state (.acquire none) = some (next, reply)) :
    count next = count config.state ↔ free = [] := by
  have returned : Returned config (.acquire (none : Option T)) := trivial
  have counted := serves.counted tracks.splits
  obtain ⟨_, _, effect, splits⟩ := serves.step_effect tracks returned ran
  cases effect with
  | exhausted constructed empty answer same =>
      rw [same]
      exact ⟨fun _ => empty, fun _ => rfl⟩
  | threw top rest fresh answer =>
      have more := serves.counted splits
      rw [more, counted, fresh]
      exact ⟨fun same => absurd same (Nat.succ_ne_self _), fun empty => (by cases empty)⟩

theorem Serves.unchanged_iff (serves : Serves step count capacity Splits)
    (tracks : Tracks Splits config taken free) {next : Pool} {reply : PoolReply}
    (ran : step config.state (.acquire none) = some (next, reply)) :
    Unchanged step count config (config.push (.acquire none) next reply) ↔
      count config.state = capacity config.state := by
  have slots := serves.slots_kept_iff tracks ran
  have kept := serves.count_kept_iff tracks ran
  have full : count config.state = capacity config.state ↔ free = [] := by
    rw [serves.counted tracks.splits, ← serves.total tracks.splits, ← List.length_eq_zero_iff]
    omega
  rw [full]
  constructor
  · exact fun unchanged => slots.mp unchanged.slots
  · exact fun empty => ⟨slots.mpr empty, kept.mpr empty⟩

end Serves

end Finm327.Library.SlotPools
