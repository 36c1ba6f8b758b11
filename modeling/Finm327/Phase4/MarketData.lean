import Finm327.Library.XorShifts
import Mathlib.Data.Rat.Defs

/-!
# The mock feed

Transcribes `phase4/include/MarketData.hpp` and `phase4/src/MarketData.cpp`. A `double` is a
rational; the clock that stamps a tick is an argument of `next`.
-/

namespace Finm327.Phase4

open Finm327.Library.XorShifts

structure MarketData where
  symbol : String
  bidPrice : ℚ
  askPrice : ℚ
  bidSize : Int
  askSize : Int
  timestamp : Int
  seq : UInt64
deriving Repr

structure MarketDataFeed where
  symbol : String
  mid : ℚ
  spread : ℚ
  state : UInt64
  seq : UInt64
deriving Repr

namespace MarketDataFeed

/-- `seed ? seed : 0x9E3779B97F4A7C15ULL`. -/
def seeded (seed : UInt64) : UInt64 := if seed ≠ 0 then seed else 0x9E3779B97F4A7C15

def make (symbol : String) (mid spread : ℚ) (seed : UInt64) : MarketDataFeed :=
  ⟨symbol, mid, spread, seeded seed, 0⟩

def seed (feed : MarketDataFeed) (s : UInt64) : MarketDataFeed := { feed with state := seeded s }

def rand64 : StateM MarketDataFeed UInt64 := do
  let x := (← get).state
  let x := x ^^^ (x <<< 13)
  let x := x ^^^ (x >>> 7)
  let x := x ^^^ (x <<< 17)
  modify fun feed => { feed with state := x }
  return x

def next (now : Int) : StateM MarketDataFeed MarketData := do
  let step : Int := ((← rand64) % 11).toNat - 5
  modify fun feed => { feed with mid := feed.mid + step * (1 / 100) }
  let symbol := (← get).symbol
  let bidPrice := (← get).mid - (← get).spread * (1 / 2)
  let askPrice := (← get).mid + (← get).spread * (1 / 2)
  let bidSize : Int := 100 + ((← rand64) % 400).toNat
  let askSize : Int := 100 + ((← rand64) % 400).toNat
  modify fun feed => { feed with seq := feed.seq + 1 }
  return ⟨symbol, bidPrice, askPrice, bidSize, askSize, now, (← get).seq⟩

/-- What the owner of a feed can ask of it. -/
inductive Call where
  | next (now : Int)
  | seed (s : UInt64)

def call (feed : MarketDataFeed) : Call → MarketDataFeed
  | .next now => (next now feed).2
  | .seed s => feed.seed s

/-! ## One round of the generator -/

/-- The three lines of `rand64` that mix the state. -/
def mixed (x : BitVec 64) : BitVec 64 :=
  fold (fun word => word <<< 17) (fold (fun word => word >>> 7) (fold (fun word => word <<< 13) x))

theorem mixed_bijective : Function.Bijective mixed :=
  (fold_bijective (shift_left_drains (by decide))).comp
    ((fold_bijective (shift_right_drains (by decide))).comp
      (fold_bijective (shift_left_drains (by decide))))

theorem mixed_eq_zero {x : BitVec 64} : mixed x = 0#64 ↔ x = 0#64 := by
  rw [mixed, fold_eq_zero (shift_left_drains (by decide)),
    fold_eq_zero (shift_right_drains (by decide)), fold_eq_zero (shift_left_drains (by decide))]

/-- What `rand64` does: the word it returns is the state it leaves, and nothing else changes. -/
theorem rand64_eq (feed : MarketDataFeed) :
    rand64 feed = (⟨mixed feed.state.toBitVec⟩,
      { feed with state := ⟨mixed feed.state.toBitVec⟩ }) := by
  rfl

theorem mixed_word_bijective :
    Function.Bijective fun x : UInt64 => (⟨mixed x.toBitVec⟩ : UInt64) := by
  constructor
  · intro x y same
    exact UInt64.toBitVec_inj.mp (mixed_bijective.injective (UInt64.ofBitVec.inj same))
  · intro y
    obtain ⟨x, image⟩ := mixed_bijective.surjective y.toBitVec
    exact ⟨⟨x⟩, congrArg UInt64.ofBitVec image⟩

/-! ## One call -/

theorem seeded_ne_zero (seed : UInt64) : seeded seed ≠ 0 := by
  by_cases given : seed ≠ 0
  · rw [seeded, if_pos given]
    exact given
  · rw [seeded, if_neg given]
    decide

theorem rand64_state_eq_zero (feed : MarketDataFeed) :
    (rand64 feed).2.state = 0 ↔ feed.state = 0 := by
  rw [rand64_eq, ← UInt64.toBitVec_inj, ← UInt64.toBitVec_inj]
  exact mixed_eq_zero

/-- A tick takes three words: one for the walk and two for the sizes. -/
theorem next_state (feed : MarketDataFeed) (now : Int) :
    (next now feed).2.state = (rand64 (rand64 (rand64 feed).2).2).2.state := by
  rfl

theorem call_state_ne_zero {feed : MarketDataFeed} (alive : feed.state ≠ 0) (asked : Call) :
    (feed.call asked).state ≠ 0 := by
  cases asked with
  | next now =>
      intro collapsed
      rw [call, next_state, rand64_state_eq_zero, rand64_state_eq_zero,
        rand64_state_eq_zero] at collapsed
      exact alive collapsed
  | seed s => exact seeded_ne_zero s

theorem run_state_ne_zero {feed : MarketDataFeed} (alive : feed.state ≠ 0) (calls : List Call) :
    (calls.foldl call feed).state ≠ 0 := by
  induction calls generalizing feed with
  | nil => exact alive
  | cons asked calls ih => exact ih (call_state_ne_zero alive asked)

/-- The ranges that the comments of `next` give: the walk of the mid and the two sizes. -/
theorem next_ranges (feed : MarketDataFeed) (now : Int) :
    (∃ step : Int, -5 ≤ step ∧ step ≤ 5 ∧
      (next now feed).2.mid = feed.mid + step * (1 / 100)) ∧
    100 ≤ (next now feed).1.bidSize ∧ (next now feed).1.bidSize < 500 ∧
    100 ≤ (next now feed).1.askSize ∧ (next now feed).1.askSize < 500 := by
  have size (x : UInt64) :
      100 ≤ (100 : Int) + (x % 400).toNat ∧ (100 : Int) + (x % 400).toNat < 500 := by
    have small : (x % 400).toNat < 400 := by
      rw [UInt64.toNat_mod]
      exact Nat.mod_lt _ (by decide)
    omega
  have small : ((rand64 feed).1 % 11).toNat < 11 := by
    rw [UInt64.toNat_mod]
    exact Nat.mod_lt _ (by decide)
  constructor
  · exact ⟨((rand64 feed).1 % 11).toNat - 5, by omega, by omega, rfl⟩
  · exact ⟨(size _).1, (size _).2, (size _).1, (size _).2⟩

/-! ## The generator never collapses -/

/-- Whatever it is seeded with and whatever is asked of it, the state of a feed is not zero;
and a round of the generator merges no two states. -/
theorem generator_never_collapses :
    (∀ (symbol : String) (mid spread : ℚ) (seed : UInt64) (calls : List Call),
      (calls.foldl call (make symbol mid spread seed)).state ≠ 0) ∧
    (∀ feed : MarketDataFeed,
      (Function.Bijective fun state : UInt64 => (rand64 { feed with state := state }).2.state) ∧
      ∀ state : UInt64, (rand64 { feed with state := state }).2.state = 0 ↔ state = 0) := by
  constructor
  · intro symbol mid spread seed calls
    exact run_state_ne_zero (seeded_ne_zero seed) calls
  · intro feed
    constructor
    · simp only [rand64_eq]
      exact mixed_word_bijective
    · intro state
      exact rand64_state_eq_zero { feed with state := state }

end MarketDataFeed

end Finm327.Phase4
