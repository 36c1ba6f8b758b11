import Mathlib.Algebra.BigOperators.Fin
import Mathlib.Algebra.Order.Ring.Rat
import Mathlib.Data.Rat.Defs
import Finm327.Library.Buffers
import Finm327.Library.WordLoops

/-!
# Moving averages

Transcribes `hw5/part3_timeseries_simd.cpp`. `double` is `ℚ`, `size_t` is `UInt64`. A
load or a store outside its array has no result, like a loop that never ends. The
sums are about windows of at least one price; 1 / 0, which `double` has, is 0 here.

The brute-force versions differ in how they add up one window. Their vector loops
keep one invariant: all lanes together hold the prefix that was read.
-/

namespace Finm327.Hw5

open Finm327.Library.Buffers
open Finm327.Library.WordLoops

/-- `for (; j < W; ++j) s += p[i + j]`. -/
def addRest (p : Buffer ℚ) (W i j : UInt64) (s : ℚ) : Option (UInt64 × ℚ) :=
  wordLoop (fun j => j < W) 1 (fun j s => do
    let x ← p.load (i + j).toNat
    return s + x) (W.toNat + 1) j s

/-- The price that enters is added and the one that leaves is taken off. -/
def slideStep (p : Buffer ℚ) (W : UInt64) (inv : ℚ) (i : UInt64) (state : ℚ × Buffer ℚ) :
    Option (ℚ × Buffer ℚ) := do
  let entering ← p.load (i + W - 1).toNat
  let leaving ← p.load (i - 1).toNat
  let sum := state.1 + (entering - leaving)
  let out ← state.2.store i.toNat (sum * inv)
  return (sum, out)

def movingAvgScalar (p : Buffer ℚ) (n W : UInt64) (out : Buffer ℚ) : Option (Buffer ℚ) :=
  if n < W then some out
  else do
    let (_, sum) ← wordLoop (fun i => i < W) 1 (fun i sum => do
      let x ← p.load i.toNat
      return sum + x) (W.toNat + 1) 0 0
    let inv : ℚ := 1 / W.toNat
    let out ← out.store 0 (sum * inv)
    let last := n - W
    let (_, _, out) ← wordLoop (fun i => i ≤ last) 1 (slideStep p W inv) (n.toNat + 1) 1 (sum, out)
    return out

/-- The frame of the brute-force versions, over the sum of the window at `i`. -/
def movingAvgBrute (windowSum : UInt64 → Option ℚ) (n W : UInt64) (out : Buffer ℚ) :
    Option (Buffer ℚ) :=
  if n < W then some out
  else do
    let inv : ℚ := 1 / W.toNat
    let last := n - W
    let (_, out) ← wordLoop (fun i => i ≤ last) 1 (fun i out => do
      let s ← windowSum i
      out.store i.toNat (s * inv)) (n.toNat + 1) 0 out
    return out

def movingAvgBruteScalar (p : Buffer ℚ) (n W : UInt64) (out : Buffer ℚ) : Option (Buffer ℚ) :=
  movingAvgBrute (fun i => do
    let (_, s) ← addRest p W i 0 0
    return s) n W out

/-- Consecutive prices, one to a lane. -/
def loadu (lanes : Nat) (p : Buffer ℚ) (t : Nat) : Option (Fin lanes → ℚ) :=
  if t + lanes ≤ p.size then some fun l => p.cells (t + l) else none

def avx2Step (p : Buffer ℚ) (i j : UInt64) (acc : Fin 4 → ℚ) : Option (Fin 4 → ℚ) := do
  let v ← loadu 4 p (i.toNat + j.toNat)
  return acc + v

def sumAvx2 (p : Buffer ℚ) (W i : UInt64) : Option ℚ := do
  let (j, acc) ← wordLoop (fun j => j + 4 ≤ W) 4 (avx2Step p i) (W.toNat + 1) 0 0
  let (_, s) ← addRest p W i j (acc 0 + acc 1 + acc 2 + acc 3)
  return s

/-- `moving_avg_brute_simd` with AVX2. -/
def movingAvgBruteAvx2 (p : Buffer ℚ) (n W : UInt64) (out : Buffer ℚ) : Option (Buffer ℚ) :=
  movingAvgBrute (sumAvx2 p W) n W out

def neonStep (p : Buffer ℚ) (i j : UInt64) (accs : (Fin 2 → ℚ) × (Fin 2 → ℚ)) :
    Option ((Fin 2 → ℚ) × (Fin 2 → ℚ)) := do
  let v0 ← loadu 2 p (i.toNat + j.toNat)
  let v1 ← loadu 2 p (i.toNat + j.toNat + 2)
  return (accs.1 + v0, accs.2 + v1)

def sumNeon (p : Buffer ℚ) (W i : UInt64) : Option ℚ := do
  let (j, acc0, acc1) ← wordLoop (fun j => j + 4 ≤ W) 4 (neonStep p i) (W.toNat + 1) 0 (0, 0)
  let acc := acc0 + acc1
  let (_, s) ← addRest p W i j (acc 0 + acc 1)
  return s

/-- `moving_avg_brute_simd` with NEON. -/
def movingAvgBruteNeon (p : Buffer ℚ) (n W : UInt64) (out : Buffer ℚ) : Option (Buffer ℚ) :=
  movingAvgBrute (sumNeon p W) n W out

inductive AvgVersion where
  | scalar | bruteScalar | avx2 | neon
  deriving DecidableEq, Repr

def AvgVersion.run : AvgVersion → Buffer ℚ → UInt64 → UInt64 → Buffer ℚ → Option (Buffer ℚ)
  | .scalar => movingAvgScalar
  | .bruteScalar => movingAvgBruteScalar
  | .avx2 => movingAvgBruteAvx2
  | .neon => movingAvgBruteNeon

/-! ## One window -/

/-- The sum of the first `count` prices from `i` on. -/
def window (p : Buffer ℚ) (i count : Nat) : ℚ := ∑ j ∈ Finset.range count, p.cells (i + j)

theorem window_succ (p : Buffer ℚ) (i count : Nat) :
    window p i (count + 1) = window p i count + p.cells (i + count) := Finset.sum_range_succ _ _

/-- One price enters the window and one leaves it. -/
theorem window_slide (p : Buffer ℚ) (i count : Nat) :
    window p (i + 1) count = window p i count + (p.cells (i + count) - p.cells i) := by
  have both := window_succ p i count
  rw [window, Finset.sum_range_succ'] at both
  have shifted : ∑ j ∈ Finset.range count, p.cells (i + (j + 1)) = window p (i + 1) count := by
    apply Finset.sum_congr rfl
    intro j _
    rw [Nat.add_right_comm, Nat.add_assoc]
  rw [shifted] at both
  rw [← add_sub_assoc, ← both, Nat.add_zero i, add_sub_cancel_right]

theorem window_quad (p : Buffer ℚ) (i count : Nat) :
    window p i (count + 4) = window p i count + p.cells (i + count) + p.cells (i + count + 1) +
      p.cells (i + count + 2) + p.cells (i + count + 3) := by
  rw [window_succ, window_succ, window_succ, window_succ]
  rfl

/-- The prices that a load at `t` brings. -/
def lanesAt (lanes : Nat) (p : Buffer ℚ) (t : Nat) : Fin lanes → ℚ := fun l => p.cells (t + l)

theorem loadu_of_le {p : Buffer ℚ} {lanes t : Nat} (inside : t + lanes ≤ p.size) :
    loadu lanes p t = some (lanesAt lanes p t) := if_pos inside

section Window

variable {p : Buffer ℚ} {W i : UInt64}

theorem add_rest_spec (inside : i.toNat + W.toNat ≤ p.size) (addressable : 8 * p.size < 2 ^ 64)
    {j : UInt64} (below : j.toNat ≤ W.toNat) :
    ∃ last, addRest p W i j (window p i.toNat j.toNat) = some (last, window p i.toNat W.toNat) := by
  obtain ⟨last, s, ran, done, bound, sum⟩ := @word_loop_rule _ (fun j => j < W) 1
    (fun j s => do
      let x ← p.load (i + j).toNat
      return s + x)
    (fun j s => j ≤ W.toNat ∧ s = window p i.toNat j) W.toNat (UInt64.toNat_lt W) (by decide)
    (by
      rintro j s ⟨_, sum⟩ enters
      have below := UInt64.lt_iff_toNat_lt.mp (of_decide_eq_true enters)
      refine ⟨below, ?_⟩
      rw [add_to_nat (by omega) (Nat.add_le_add_left below.le _), p.load_of_lt (by omega)]
      exact ⟨_, rfl, below, by rw [sum]; exact (window_succ p _ _).symm⟩)
    (W.toNat + 1) j (window p i.toNat j.toNat) (by omega) ⟨below, rfl⟩
  have reached : last.toNat = W.toNat := by
    have stops := of_decide_eq_false done
    rw [UInt64.lt_iff_toNat_lt] at stops
    omega
  exact ⟨last, by rw [addRest, ran, sum, reached]⟩

theorem quad_fits (inside : W.toNat + 4 < 2 ^ 64) {j : UInt64} (below : j.toNat ≤ W.toNat)
    (enters : decide (j + 4 ≤ W) = true) : j.toNat + 4 ≤ W.toNat := by
  have fits := UInt64.le_iff_toNat_le.mp (of_decide_eq_true enters)
  rwa [add_to_nat inside (Nat.add_le_add_right below 4)] at fits

/-- A vector loop whose lanes together hold the prefix. -/
theorem vector_loop_spec {Lanes : Type} {step : UInt64 → Lanes → Option Lanes}
    {total : Lanes → ℚ} (inside : i.toNat + W.toNat ≤ p.size) (addressable : 8 * p.size < 2 ^ 64)
    (adds : ∀ j acc, i.toNat + j.toNat + 4 ≤ p.size → total acc = window p i.toNat j.toNat →
      ∃ next, step j acc = some next ∧ total next = window p i.toNat (j.toNat + 4))
    {start : Lanes} (zero : total start = 0) :
    ∃ j acc, wordLoop (fun j => j + 4 ≤ W) 4 step (W.toNat + 1) 0 start = some (j, acc) ∧
      j.toNat ≤ W.toNat ∧ total acc = window p i.toNat j.toNat := by
  obtain ⟨j, acc, ran, _, below, sum⟩ := @word_loop_rule _ (fun j => j + 4 ≤ W) 4 step
    (fun j acc => j ≤ W.toNat ∧ total acc = window p i.toNat j)
    W.toNat (UInt64.toNat_lt W) (by decide)
    (by
      rintro j acc ⟨below, sum⟩ enters
      have fits := quad_fits (by omega) below enters
      obtain ⟨next, ran, sum⟩ := adds j acc (by omega) sum
      exact ⟨fits, next, ran, fits, sum⟩)
    (W.toNat + 1) 0 start (by omega) ⟨Nat.zero_le _, zero⟩
  exact ⟨j, acc, ran, below, sum⟩

theorem avx2_step_spec {j : UInt64} (inside : i.toNat + j.toNat + 4 ≤ p.size) {acc : Fin 4 → ℚ}
    (sum : acc 0 + acc 1 + acc 2 + acc 3 = window p i.toNat j.toNat) :
    ∃ next, avx2Step p i j acc = some next ∧
      next 0 + next 1 + next 2 + next 3 = window p i.toNat (j.toNat + 4) := by
  refine ⟨acc + lanesAt 4 p (i.toNat + j.toNat), ?_, ?_⟩
  · rw [avx2Step, loadu_of_le inside]
    rfl
  · calc acc 0 + p.cells (i.toNat + j.toNat) + (acc 1 + p.cells (i.toNat + j.toNat + 1)) +
          (acc 2 + p.cells (i.toNat + j.toNat + 2)) + (acc 3 + p.cells (i.toNat + j.toNat + 3))
        = acc 0 + acc 1 + acc 2 + acc 3 + p.cells (i.toNat + j.toNat) +
            p.cells (i.toNat + j.toNat + 1) + p.cells (i.toNat + j.toNat + 2) +
            p.cells (i.toNat + j.toNat + 3) := by ring
      _ = window p i.toNat (j.toNat + 4) := by rw [sum, ← window_quad]

theorem sum_avx2_spec (inside : i.toNat + W.toNat ≤ p.size) (addressable : 8 * p.size < 2 ^ 64) :
    sumAvx2 p W i = some (window p i.toNat W.toNat) := by
  obtain ⟨j, acc, ran, below, sum⟩ := @vector_loop_spec p W i _ (avx2Step p i)
    (fun acc => acc 0 + acc 1 + acc 2 + acc 3) inside addressable
    (fun j acc room sum => avx2_step_spec room sum) 0
    (by simp only [Pi.zero_apply, add_zero])
  obtain ⟨last, rest⟩ := add_rest_spec inside addressable below
  rw [sumAvx2, ran, Option.bind_eq_bind, Option.bind_some]
  dsimp only
  rw [sum, rest]
  rfl

theorem neon_step_spec {j : UInt64} (inside : i.toNat + j.toNat + 4 ≤ p.size)
    {accs : (Fin 2 → ℚ) × (Fin 2 → ℚ)}
    (sum : (accs.1 + accs.2) 0 + (accs.1 + accs.2) 1 = window p i.toNat j.toNat) :
    ∃ next, neonStep p i j accs = some next ∧
      (next.1 + next.2) 0 + (next.1 + next.2) 1 = window p i.toNat (j.toNat + 4) := by
  refine ⟨(accs.1 + lanesAt 2 p (i.toNat + j.toNat),
    accs.2 + lanesAt 2 p (i.toNat + j.toNat + 2)), ?_, ?_⟩
  · rw [neonStep, loadu_of_le (by omega), loadu_of_le (by omega)]
    rfl
  · calc accs.1 0 + p.cells (i.toNat + j.toNat) + (accs.2 0 + p.cells (i.toNat + j.toNat + 2)) +
          (accs.1 1 + p.cells (i.toNat + j.toNat + 1) +
            (accs.2 1 + p.cells (i.toNat + j.toNat + 3)))
        = accs.1 0 + accs.2 0 + (accs.1 1 + accs.2 1) + p.cells (i.toNat + j.toNat) +
            p.cells (i.toNat + j.toNat + 1) + p.cells (i.toNat + j.toNat + 2) +
            p.cells (i.toNat + j.toNat + 3) := by ring
      _ = window p i.toNat (j.toNat + 4) := by
          rw [window_quad, ← sum]
          rfl

theorem sum_neon_spec (inside : i.toNat + W.toNat ≤ p.size) (addressable : 8 * p.size < 2 ^ 64) :
    sumNeon p W i = some (window p i.toNat W.toNat) := by
  obtain ⟨j, accs, ran, below, sum⟩ := @vector_loop_spec p W i _ (neonStep p i)
    (fun accs => (accs.1 + accs.2) 0 + (accs.1 + accs.2) 1) inside addressable
    (fun j accs room sum => neon_step_spec room sum) (0, 0)
    (by simp only [Pi.add_apply, Pi.zero_apply, add_zero])
  obtain ⟨last, rest⟩ := add_rest_spec inside addressable below
  rw [sumNeon, ran, Option.bind_eq_bind, Option.bind_some]
  dsimp only
  rw [sum, rest]
  rfl

theorem first_sum_spec (inside : W.toNat ≤ p.size) (addressable : 8 * p.size < 2 ^ 64) :
    ∃ last, wordLoop (fun i => i < W) 1 (fun i sum => do
      let x ← p.load i.toNat
      return sum + x) (W.toNat + 1) 0 (0 : ℚ) = some (last, window p 0 W.toNat) := by
  have whole : (0 : UInt64).toNat + W.toNat ≤ p.size := by
    rw [UInt64.toNat_zero, Nat.zero_add]
    exact inside
  obtain ⟨last, sum⟩ := @add_rest_spec p W 0 whole addressable 0 (Nat.zero_le _)
  simp only [addRest, UInt64.zero_add] at sum
  exact ⟨last, sum⟩

end Window

/-! ## All windows -/

/-- The first `count` outputs are the means, and the others what they were. -/
def averaged (p : Buffer ℚ) (W : Nat) (out : Buffer ℚ) (count : Nat) : Buffer ℚ :=
  { out with cells := fun t => if t < count then window p t W / W else out.cells t }

theorem averaged_store {p out : Buffer ℚ} {W i : Nat} (inside : i < out.size) :
    (averaged p W out i).store i (window p i W * (1 / W)) = some (averaged p W out (i + 1)) := by
  have room : i < (averaged p W out i).size := inside
  rw [Buffer.store_of_lt room, averaged, averaged, mul_one_div]
  apply congrArg some
  congr 1
  funext t
  by_cases here : t = i
  · rw [here, Function.update_self, if_pos (Nat.lt_succ_self i)]
  · rw [Function.update_of_ne here]
    exact if_congr (by omega) rfl rfl

section Outputs

variable {p out : Buffer ℚ} {n W : UInt64}

theorem last_to_nat (fits : W.toNat ≤ n.toNat) : (n - W).toNat = n.toNat - W.toNat :=
  UInt64.toNat_sub_of_le _ _ (UInt64.le_iff_toNat_le.mpr fits)

theorem not_short (fits : W.toNat ≤ n.toNat) : ¬ n < W := by
  rw [UInt64.lt_iff_toNat_lt]
  omega

/-- The loop over the windows visits each once, and stops right behind the last one. -/
theorem windows_loop_spec {State : Type} {step : UInt64 → State → Option State}
    (before : Nat → State) (positive : 0 < W.toNat) (fits : W.toNat ≤ n.toNat) {first : UInt64}
    (early : first.toNat ≤ n.toNat - W.toNat + 1)
    (steps : ∀ i, first.toNat ≤ i.toNat → i.toNat + W.toNat ≤ n.toNat →
      step i (before i.toNat) = some (before (i.toNat + 1))) :
    ∃ last, wordLoop (fun i => i ≤ n - W) 1 step (n.toNat + 1) first (before first.toNat) =
      some (last, before (n.toNat - W.toNat + 1)) := by
  have small := UInt64.toNat_lt n
  have final := last_to_nat fits
  obtain ⟨j, out, ran, done, _, bound, same⟩ := @word_loop_rule _ (fun i => i ≤ n - W) 1 step
    (fun i s => first.toNat ≤ i ∧ i ≤ n.toNat - W.toNat + 1 ∧ s = before i)
    (n.toNat - W.toNat + 1) (by omega) (by decide)
    (by
      rintro i s ⟨started, _, same⟩ enters
      have below := UInt64.le_iff_toNat_le.mp (of_decide_eq_true enters)
      rw [final] at below
      have next : i.toNat + 1 ≤ n.toNat - W.toNat + 1 := by omega
      rw [same]
      exact ⟨next, _, steps i started (by omega), Nat.le_succ_of_le started, next, rfl⟩)
    (n.toNat + 1) first (before first.toNat) (by omega) ⟨Nat.le_refl _, early, rfl⟩
  have stops := of_decide_eq_false done
  rw [UInt64.le_iff_toNat_le, final] at stops
  have reached : j.toNat = n.toNat - W.toNat + 1 := by omega
  exact ⟨j, by rw [ran, same, reached]⟩

theorem brute_spec (positive : 0 < W.toNat) (fits : W.toNat ≤ n.toNat)
    (room : n.toNat - W.toNat < out.size) {windowSum : UInt64 → Option ℚ}
    (sums : ∀ i, i.toNat + W.toNat ≤ n.toNat →
      windowSum i = some (window p i.toNat W.toNat)) :
    movingAvgBrute windowSum n W out =
      some (averaged p W.toNat out (n.toNat - W.toNat + 1)) := by
  obtain ⟨_, ran⟩ := @windows_loop_spec n W _
    (fun i out => do
      let s ← windowSum i
      out.store i.toNat (s * (1 / W.toNat)))
    (averaged p W.toNat out) positive fits 0 (Nat.zero_le _)
    (by
      intro i _ inside
      rw [sums i inside, Option.bind_eq_bind, Option.bind_some]
      exact averaged_store (by omega))
  rw [movingAvgBrute, if_neg (not_short fits)]
  exact congrArg (fun r => r.bind fun last => some last.2) ran

theorem sub_one_to_nat {i : UInt64} (positive : 1 ≤ i.toNat) : (i - 1).toNat = i.toNat - 1 :=
  UInt64.toNat_sub_of_le _ _ (UInt64.le_iff_toNat_le.mpr positive)

theorem slide_step_spec {i : UInt64} (positive : 1 ≤ i.toNat) (inside : i.toNat + W.toNat ≤ p.size)
    (addressable : 8 * p.size < 2 ^ 64) (room : i.toNat < out.size) :
    slideStep p W (1 / W.toNat) i
        (window p (i.toNat - 1) W.toNat, averaged p W.toNat out i.toNat) =
      some (window p i.toNat W.toNat, averaged p W.toNat out (i.toNat + 1)) := by
  have past : (i + W).toNat = i.toNat + W.toNat := add_to_nat (by omega) inside
  have enters : (i + W - 1).toNat = i.toNat - 1 + W.toNat := by
    rw [sub_one_to_nat (by omega), past]
    omega
  have slide := window_slide p (i.toNat - 1) W.toNat
  rw [Nat.sub_add_cancel positive] at slide
  rw [slideStep, enters, sub_one_to_nat positive, p.load_of_lt (by omega),
    p.load_of_lt (by omega), Option.bind_eq_bind, Option.bind_some, Option.bind_some]
  dsimp only
  rw [← slide, averaged_store room]
  rfl

theorem sliding_spec (size : n.toNat = p.size) (addressable : 8 * p.size < 2 ^ 64)
    (positive : 0 < W.toNat) (fits : W.toNat ≤ n.toNat)
    (room : n.toNat - W.toNat < out.size) :
    movingAvgScalar p n W out = some (averaged p W.toNat out (n.toNat - W.toNat + 1)) := by
  obtain ⟨_, first⟩ := first_sum_spec (size ▸ fits) addressable
  obtain ⟨_, ran⟩ := @windows_loop_spec n W _ (slideStep p W (1 / W.toNat))
    (fun i => (window p (i - 1) W.toNat, averaged p W.toNat out i)) positive fits 1
    (Nat.succ_le_succ (Nat.zero_le _))
    (fun i started inside => slide_step_spec started (by omega) addressable (by omega))
  have stored : out.store 0 (window p 0 W.toNat * (1 / W.toNat)) =
      some (averaged p W.toNat out 1) := averaged_store (by omega)
  rw [movingAvgScalar, if_neg (not_short fits), first, Option.bind_eq_bind, Option.bind_some]
  dsimp only
  rw [stored, Option.bind_eq_bind, Option.bind_some]
  exact congrArg (fun r => r.bind fun last => some last.2.2) ran

end Outputs

/-- A list of prices that memory can hold. -/
structure Series where
  prices : Buffer ℚ
  addressable : 8 * prices.size < 2 ^ 64

/-- Its length, as a `size_t`. -/
def Series.n (s : Series) : UInt64 := UInt64.ofNat s.prices.size

theorem Series.n_to_nat (s : Series) : s.n.toNat = s.prices.size := by
  have fits := s.addressable
  rw [Series.n, UInt64.toNat_ofNat', Nat.mod_eq_of_lt (by omega)]

theorem run_spec (s : Series) {W : UInt64} (positive : 1 ≤ W) (fits : W ≤ s.n) {out : Buffer ℚ}
    (room : s.n.toNat - W.toNat < out.size) (version : AvgVersion) :
    version.run s.prices s.n W out =
      some (averaged s.prices W.toNat out (s.n.toNat - W.toNat + 1)) := by
  have positive := UInt64.le_iff_toNat_le.mp positive
  have fits := UInt64.le_iff_toNat_le.mp fits
  have inside : ∀ i : UInt64, i.toNat + W.toNat ≤ s.n.toNat →
      i.toNat + W.toNat ≤ s.prices.size := fun i below => s.n_to_nat ▸ below
  cases version with
  | scalar => exact sliding_spec s.n_to_nat s.addressable positive fits room
  | bruteScalar =>
      apply brute_spec positive fits room
      intro i below
      obtain ⟨_, rest⟩ := @add_rest_spec _ _ _ (inside i below) s.addressable 0 (Nat.zero_le _)
      exact congrArg (fun r => r.bind fun last => some last.2) rest
  | avx2 =>
      apply brute_spec positive fits room
      exact fun i below => sum_avx2_spec (inside i below) s.addressable
  | neon =>
      apply brute_spec positive fits room
      exact fun i below => sum_neon_spec (inside i below) s.addressable

theorem run_short (s : Series) {W : UInt64} (short : s.n < W) (out : Buffer ℚ)
    (version : AvgVersion) : version.run s.prices s.n W out = some out := by
  cases version <;> exact if_pos short

/-- Every version writes the means of the windows, one to an output, and nothing else; a series
that is shorter than the window leaves the outputs as they were. -/
theorem moving_averages_agree (s : Series) (W : UInt64) (positive : 1 ≤ W) (version : AvgVersion)
    (out : Buffer ℚ) :
    (W ≤ s.n → s.prices.size - W.toNat + 1 ≤ out.size →
      ∃ means, version.run s.prices s.n W out = some means ∧ means.size = out.size ∧
        (∀ i, i < s.prices.size - W.toNat + 1 →
          means.cells i = (∑ j ∈ Finset.range W.toNat, s.prices.cells (i + j)) / W.toNat) ∧
        ∀ i, s.prices.size - W.toNat + 1 ≤ i → means.cells i = out.cells i) ∧
      (s.n < W → version.run s.prices s.n W out = some out) := by
  refine ⟨?_, fun short => run_short s short out version⟩
  intro fits room
  rw [← s.n_to_nat] at room ⊢
  exact ⟨_, run_spec s positive fits room version, rfl, fun i inside => if_pos inside,
    fun i beyond => if_neg (Nat.not_lt.mpr beyond)⟩

/-- Six prices, for windows of five and of seven. -/
def tickSeries : Series := ⟨⟨6, fun t => t * t⟩, by decide⟩

theorem moving_averages_agree_sample :
    (∃ means, AvgVersion.avx2.run tickSeries.prices tickSeries.n 5 ⟨2, fun _ => 7⟩ = some means ∧
      means.size = 2 ∧
      (∀ i, i < 6 - 5 + 1 →
        means.cells i = (∑ j ∈ Finset.range 5, tickSeries.prices.cells (i + j)) / 5) ∧
      ∀ i, 6 - 5 + 1 ≤ i → means.cells i = 7) ∧
    AvgVersion.neon.run tickSeries.prices tickSeries.n 7 ⟨0, fun _ => 7⟩ = some ⟨0, fun _ => 7⟩ :=
  ⟨(moving_averages_agree tickSeries 5 (by decide) .avx2 ⟨2, fun _ => 7⟩).1 (by decide)
      (by decide),
    (moving_averages_agree tickSeries 7 (by decide) .neon ⟨0, fun _ => 7⟩).2 (by decide)⟩

end Finm327.Hw5
