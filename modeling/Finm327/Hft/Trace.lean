import Finm327.Library.Sums

/-!
# The trace kernels

Transcribes `trace_AB_T` of `hft/src/trace.hpp`. One of three versions is chosen
when the program is compiled. The two vector versions differ only in the number
of 32-bit lanes of a register. A register is the function from lane numbers to
lanes; `packus` saturates to unsigned 16-bit lanes inside each group of four, and
`madd` multiplies them as signed ones.
-/

namespace Finm327.Hft

open Finm327.Library.Sums

def N : Nat := 128

def MOD : Int := 997

/-- `HFT_HAVE_AVX512`, `HFT_HAVE_AVX2` or neither. -/
inductive Tier where
  | avx512
  | avx2
  | scalar
deriving DecidableEq, Repr

def loadu (A : Nat → Int32) (j : Nat) : Nat → Int32 := fun t => A (j + t)

def saturate (x : Int32) : UInt16 := UInt16.ofNat (min x.toInt.toNat 65535)

def packus (a b : Nat → Int32) : Nat → UInt16 := fun t =>
  if t % 8 < 4 then saturate (a (t / 8 * 4 + t % 8)) else saturate (b (t / 8 * 4 + t % 8 - 4))

def madd (x y : Nat → UInt16) : Nat → Int32 := fun t =>
  (x (2 * t)).toInt16.toInt32 * (y (2 * t)).toInt16.toInt32 +
    (x (2 * t + 1)).toInt16.toInt32 * (y (2 * t + 1)).toInt16.toInt32

def addEpi32 (a b : Nat → Int32) : Nat → Int32 := fun t => a t + b t

/-- One pass of the loop adds to both accumulators. -/
def accumulate (lanes : Nat) (A B : Nat → Int32)
    (acc : (Nat → Int32) × (Nat → Int32)) (pass : Nat) : (Nat → Int32) × (Nat → Int32) :=
  let j := pass * (4 * lanes)
  let a0 := loadu A j
  let a1 := loadu A (j + lanes)
  let a2 := loadu A (j + 2 * lanes)
  let a3 := loadu A (j + 3 * lanes)
  let b0 := loadu B j
  let b1 := loadu B (j + lanes)
  let b2 := loadu B (j + 2 * lanes)
  let b3 := loadu B (j + 3 * lanes)
  (addEpi32 acc.1 (madd (packus a0 a1) (packus b0 b1)),
    addEpi32 acc.2 (madd (packus a2 a3) (packus b2 b3)))

/-- The vector versions; the halves of the last sum are widened to 64 bits. -/
def traceLanes (lanes : Nat) (A B : Nat → Int32) : Int64 :=
  let acc := (List.range (N * N / (4 * lanes))).foldl (accumulate lanes A B)
    (fun _ => 0, fun _ => 0)
  let acc := addEpi32 acc.1 acc.2
  let half := lanes / 2
  (List.range half).foldl (fun s t => s + ((acc t).toInt64 + (acc (half + t)).toInt64)) 0

def traceScalar (A B : Nat → Int32) : Int64 :=
  (List.range (N * N)).foldl (fun acc j => acc + (A j).toInt64 * (B j).toInt64) 0

def traceABT : Tier → (Nat → Int32) → (Nat → Int32) → Int64
  | .avx512 => traceLanes 16
  | .avx2 => traceLanes 8
  | .scalar => traceScalar

/-- What a version multiplies an entry as. -/
def Tier.operand : Tier → Int32 → Int
  | .avx512, x => max x.toInt 0
  | .avx2, x => max x.toInt 0
  | .scalar, x => x.toInt

/-- Entries the parser can produce and no lane overflows on. -/
def Bounded (A : Nat → Int32) : Prop :=
  ∀ j, j < N * N → -30000 ≤ (A j).toInt ∧ (A j).toInt ≤ 996

theorem clamp_bound {x : Int32} (small : x.toInt ≤ 996) :
    0 ≤ max x.toInt 0 ∧ max x.toInt 0 ≤ 996 :=
  ⟨le_max_right _ _, max_le small (by omega)⟩

theorem saturate_to_int {x : Int32} (small : x.toInt ≤ 996) :
    (saturate x).toInt16.toInt = max x.toInt 0 := by
  have fits : min x.toInt.toNat 65535 = x.toInt.toNat := by omega
  obtain ⟨low, high⟩ := clamp_bound small
  rw [saturate, fits, UInt16.toInt16_ofNat', Int16.toInt_ofNat', Int.toNat_eq_max]
  generalize max x.toInt 0 = clamped at low high
  have size : Int16.size = 65536 := rfl
  rw [size]
  exact Int.bmod_eq_of_le_mul_two (by omega) (by omega)

/-- The lanes of a packed register, for the four lanes of each group. -/
theorem packus_low (a b : Nat → Int32) (g : Nat) {c : Nat} (below : c < 4) :
    packus a b (8 * g + c) = saturate (a (4 * g + c)) := by
  have column : (8 * g + c) % 8 = c := by omega
  have group : (8 * g + c) / 8 = g := by omega
  rw [packus, column, group, if_pos below, Nat.mul_comm g 4]

theorem packus_high (a b : Nat → Int32) (g : Nat) {c : Nat} (below : c < 4) :
    packus a b (8 * g + 4 + c) = saturate (b (4 * g + c)) := by
  have column : (8 * g + 4 + c) % 8 = 4 + c := by omega
  have group : (8 * g + 4 + c) / 8 = g := by omega
  rw [packus, column, group, if_neg (by omega)]
  congr 2
  omega

/-- The product that one packed lane contributes. -/
def product (x y : Int32) : Int := max x.toInt 0 * max y.toInt 0

theorem product_bound {x y : Int32} (small : x.toInt ≤ 996) (smallToo : y.toInt ≤ 996) :
    0 ≤ product x y ∧ product x y ≤ 992016 := by
  obtain ⟨low, high⟩ := clamp_bound small
  obtain ⟨lowToo, highToo⟩ := clamp_bound smallToo
  unfold product
  constructor
  · exact mul_nonneg low lowToo
  · calc max x.toInt 0 * max y.toInt 0 ≤ 996 * 996 := mul_le_mul high highToo lowToo (by omega)
      _ = 992016 := rfl

theorem lane_product {x y : UInt16} {a b : Int32} (left : x = saturate a) (right : y = saturate b)
    (small : a.toInt ≤ 996) (smallToo : b.toInt ≤ 996) :
    (x.toInt16.toInt32 * y.toInt16.toInt32).toInt = product a b := by
  have bound := product_bound small smallToo
  have exact_ : x.toInt16.toInt32.toInt * y.toInt16.toInt32.toInt = product a b := by
    rw [Int16.toInt_toInt32, Int16.toInt_toInt32, left, right, saturate_to_int small,
      saturate_to_int smallToo]
    rfl
  rw [int32_mul, exact_]
  rw [exact_, abs_lt]
  omega

theorem madd_pair {x y : Nat → UInt16} {t : Nat} {a a' b b' : Int32}
    (even : x (2 * t) = saturate a) (odd : x (2 * t + 1) = saturate a')
    (evenToo : y (2 * t) = saturate b) (oddToo : y (2 * t + 1) = saturate b')
    (small : a.toInt ≤ 996) (small' : a'.toInt ≤ 996) (smallToo : b.toInt ≤ 996)
    (smallToo' : b'.toInt ≤ 996) :
    (madd x y t).toInt = product a b + product a' b' := by
  have first := lane_product even evenToo small smallToo
  have second := lane_product odd oddToo small' smallToo'
  have bound := product_bound small smallToo
  have bound' := product_bound small' smallToo'
  rw [madd, int32_add, first, second]
  rw [first, second, abs_lt]
  omega

def SmallGroup (a : Nat → Int32) (g : Nat) : Prop := ∀ e, e < 4 → (a (4 * g + e)).toInt ≤ 996

section Group

variable {a0 a1 b0 b1 : Nat → Int32} {g : Nat}

theorem madd_low (smallA : SmallGroup a0 g) (smallB : SmallGroup b0 g) {c : Nat} (below : c < 2) :
    (madd (packus a0 a1) (packus b0 b1) (4 * g + c)).toInt =
      product (a0 (4 * g + 2 * c)) (b0 (4 * g + 2 * c)) +
        product (a0 (4 * g + (2 * c + 1))) (b0 (4 * g + (2 * c + 1))) := by
  have even : 2 * (4 * g + c) = 8 * g + 2 * c := by omega
  have odd : 2 * (4 * g + c) + 1 = 8 * g + (2 * c + 1) := by omega
  apply madd_pair
  · rw [even, packus_low _ _ g (by omega)]
  · rw [odd, packus_low _ _ g (by omega)]
  · rw [even, packus_low _ _ g (by omega)]
  · rw [odd, packus_low _ _ g (by omega)]
  · exact smallA _ (by omega)
  · exact smallA _ (by omega)
  · exact smallB _ (by omega)
  · exact smallB _ (by omega)

theorem madd_high (smallA : SmallGroup a1 g) (smallB : SmallGroup b1 g) {c : Nat} (below : c < 2) :
    (madd (packus a0 a1) (packus b0 b1) (4 * g + (2 + c))).toInt =
      product (a1 (4 * g + 2 * c)) (b1 (4 * g + 2 * c)) +
        product (a1 (4 * g + (2 * c + 1))) (b1 (4 * g + (2 * c + 1))) := by
  have even : 2 * (4 * g + (2 + c)) = 8 * g + 4 + 2 * c := by omega
  have odd : 2 * (4 * g + (2 + c)) + 1 = 8 * g + 4 + (2 * c + 1) := by omega
  apply madd_pair
  · rw [even, packus_high _ _ g (by omega)]
  · rw [odd, packus_high _ _ g (by omega)]
  · rw [even, packus_high _ _ g (by omega)]
  · rw [odd, packus_high _ _ g (by omega)]
  · exact smallA _ (by omega)
  · exact smallA _ (by omega)
  · exact smallB _ (by omega)
  · exact smallB _ (by omega)

/-- The four lanes of one group hold the eight products of its entries. -/
theorem madd_group (smallA0 : SmallGroup a0 g) (smallA1 : SmallGroup a1 g)
    (smallB0 : SmallGroup b0 g) (smallB1 : SmallGroup b1 g) :
    ∑ c ∈ Finset.range 4, (madd (packus a0 a1) (packus b0 b1) (4 * g + c)).toInt =
      ∑ c ∈ Finset.range 4, product (a0 (4 * g + c)) (b0 (4 * g + c)) +
        ∑ c ∈ Finset.range 4, product (a1 (4 * g + c)) (b1 (4 * g + c)) := by
  have lane0 := @madd_low a0 a1 b0 b1 g smallA0 smallB0 0 (by omega)
  have lane1 := @madd_low a0 a1 b0 b1 g smallA0 smallB0 1 (by omega)
  have lane2 := @madd_high a0 a1 b0 b1 g smallA1 smallB1 0 (by omega)
  have lane3 := @madd_high a0 a1 b0 b1 g smallA1 smallB1 1 (by omega)
  simp only [Finset.sum_range_succ, Finset.sum_range_zero]
  simp only [Nat.mul_zero, Nat.mul_one, Nat.add_zero, Nat.zero_add, Nat.reduceAdd] at *
  rw [lane0, lane1, lane2, lane3]
  ring

theorem madd_bound (smallA0 : SmallGroup a0 g) (smallA1 : SmallGroup a1 g)
    (smallB0 : SmallGroup b0 g) (smallB1 : SmallGroup b1 g) {c : Nat} (below : c < 4) :
    |(madd (packus a0 a1) (packus b0 b1) (4 * g + c)).toInt| ≤ 1984032 := by
  rw [abs_le']
  by_cases low : c < 2
  · have first := product_bound (smallA0 (2 * c) (by omega)) (smallB0 (2 * c) (by omega))
    have second := product_bound (smallA0 (2 * c + 1) (by omega)) (smallB0 (2 * c + 1) (by omega))
    rw [madd_low smallA0 smallB0 low]
    omega
  · obtain ⟨d, same⟩ : ∃ d, c = 2 + d := ⟨c - 2, by omega⟩
    subst same
    have first := product_bound (smallA1 (2 * d) (by omega)) (smallB1 (2 * d) (by omega))
    have second := product_bound (smallA1 (2 * d + 1) (by omega)) (smallB1 (2 * d + 1) (by omega))
    rw [madd_high smallA1 smallB1 (by omega)]
    omega

end Group

/-! ## All passes -/

/-- The product register of the pass that starts at `j`. -/
def passProducts (lanes : Nat) (A B : Nat → Int32) (j : Nat) : Nat → Int32 :=
  madd (packus (loadu A j) (loadu A (j + lanes))) (packus (loadu B j) (loadu B (j + lanes)))

theorem accumulate_eq (lanes : Nat) (A B : Nat → Int32) (acc : (Nat → Int32) × (Nat → Int32))
    (pass : Nat) :
    accumulate lanes A B acc pass =
      (addEpi32 acc.1 (passProducts lanes A B (pass * (4 * lanes))),
        addEpi32 acc.2 (passProducts lanes A B (pass * (4 * lanes) + 2 * lanes))) := by
  have third : pass * (4 * lanes) + 3 * lanes = pass * (4 * lanes) + 2 * lanes + lanes := by omega
  unfold accumulate passProducts
  dsimp only
  rw [third]

/-- Each lane of an accumulator is a sum of its own. -/
theorem accumulators_eq (lanes : Nat) (A B : Nat → Int32) (passes t : Nat) :
    let acc := (List.range passes).foldl (accumulate lanes A B) (fun _ => 0, fun _ => 0)
    acc.1 t = (List.range passes).foldl
        (fun s pass => s + passProducts lanes A B (pass * (4 * lanes)) t) 0 ∧
      acc.2 t = (List.range passes).foldl
        (fun s pass => s + passProducts lanes A B (pass * (4 * lanes) + 2 * lanes) t) 0 := by
  induction passes with
  | zero => exact ⟨rfl, rfl⟩
  | succ passes ih =>
      simp only [List.range_succ, List.foldl_append, List.foldl_cons, List.foldl_nil,
        accumulate_eq, addEpi32] at ih ⊢
      rw [ih.1, ih.2]
      exact ⟨rfl, rfl⟩

section Passes

variable {A B : Nat → Int32}

theorem small_group_loadu (bounded : Bounded A) {j g : Nat} (inside : j + 4 * g + 4 ≤ N * N) :
    SmallGroup (loadu A j) g := by
  intro e below
  exact (bounded (j + (4 * g + e)) (by omega)).2

theorem pass_bound (boundedA : Bounded A) (boundedB : Bounded B) {groups j t : Nat}
    (inside : j + 2 * (4 * groups) ≤ N * N) (below : t < 4 * groups) :
    |(passProducts (4 * groups) A B j t).toInt| ≤ 1984032 := by
  have place : t = 4 * (t / 4) + t % 4 := (Nat.div_add_mod t 4).symm
  rw [place]
  apply madd_bound
  · exact small_group_loadu boundedA (by omega)
  · exact small_group_loadu boundedA (by omega)
  · exact small_group_loadu boundedB (by omega)
  · exact small_group_loadu boundedB (by omega)
  · exact Nat.mod_lt t (by omega)

theorem sum_groups (f : Nat → Int) (groups : Nat) :
    ∑ g ∈ Finset.range groups, ∑ c ∈ Finset.range 4, f (4 * g + c) =
      ∑ t ∈ Finset.range (4 * groups), f t := by
  rw [Nat.mul_comm 4 groups, ← sum_rows]
  simp only [Nat.mul_comm 4]

/-- The lanes of a pass hold the products of the entries of two registers. -/
theorem pass_sum (boundedA : Bounded A) (boundedB : Bounded B) {groups j : Nat}
    (inside : j + 2 * (4 * groups) ≤ N * N) :
    ∑ t ∈ Finset.range (4 * groups), (passProducts (4 * groups) A B j t).toInt =
      ∑ e ∈ Finset.range (2 * (4 * groups)), product (A (j + e)) (B (j + e)) := by
  have group : ∀ g, g < groups →
      ∑ c ∈ Finset.range 4, (passProducts (4 * groups) A B j (4 * g + c)).toInt =
        ∑ c ∈ Finset.range 4, product (A (j + (4 * g + c))) (B (j + (4 * g + c))) +
          ∑ c ∈ Finset.range 4, product (A (j + 4 * groups + (4 * g + c)))
            (B (j + 4 * groups + (4 * g + c))) := by
    intro g below
    exact madd_group (small_group_loadu boundedA (by omega))
      (small_group_loadu boundedA (by omega)) (small_group_loadu boundedB (by omega))
      (small_group_loadu boundedB (by omega))
  have halves : 2 * (4 * groups) = 4 * groups + 4 * groups := by omega
  rw [halves, Finset.sum_range_add, ← sum_groups, ← sum_groups, ← sum_groups,
    ← Finset.sum_add_distrib]
  apply Finset.sum_congr rfl
  intro g member
  rw [group g (Finset.mem_range.mp member)]
  simp only [Nat.add_assoc]

/-- What a lane holds when both accumulators are added. -/
def laneTotal (lanes : Nat) (A B : Nat → Int32) (t : Nat) : Int :=
  ∑ pass ∈ Finset.range (N * N / (4 * lanes)),
    ((passProducts lanes A B (pass * (4 * lanes)) t).toInt +
      (passProducts lanes A B (pass * (4 * lanes) + 2 * lanes) t).toInt)

theorem pass_inside {width pass : Nat} (below : pass < N * N / width) :
    pass * width + width ≤ N * N := by
  calc pass * width + width = (pass + 1) * width := by ring
    _ ≤ N * N / width * width := Nat.mul_le_mul_right width below
    _ ≤ N * N := Nat.div_mul_le_self _ _

/-- The accumulators and their sum stay within 32 bits. -/
theorem lane_total_eq (boundedA : Bounded A) (boundedB : Bounded B) {groups t : Nat}
    (passes : N * N / (4 * (4 * groups)) ≤ 512) (below : t < 4 * groups) :
    let acc := (List.range (N * N / (4 * (4 * groups)))).foldl (accumulate (4 * groups) A B)
      (fun _ => 0, fun _ => 0)
    (addEpi32 acc.1 acc.2 t).toInt = laneTotal (4 * groups) A B t ∧
      |laneTotal (4 * groups) A B t| ≤ 2031648768 := by
  intro acc
  have many : ((N * N / (4 * (4 * groups)) : Nat) : Int) ≤ 512 := by exact_mod_cast passes
  have first : ∀ pass, pass < N * N / (4 * (4 * groups)) →
      |(passProducts (4 * groups) A B (pass * (4 * (4 * groups))) t).toInt| ≤ 1984032 := by
    intro pass within
    have inside := pass_inside within
    exact pass_bound boundedA boundedB (by omega) below
  have second : ∀ pass, pass < N * N / (4 * (4 * groups)) →
      |(passProducts (4 * groups) A B
        (pass * (4 * (4 * groups)) + 2 * (4 * groups)) t).toInt| ≤ 1984032 := by
    intro pass within
    have inside := pass_inside within
    exact pass_bound boundedA boundedB (by omega) below
  obtain ⟨left, right⟩ := accumulators_eq (4 * groups) A B (N * N / (4 * (4 * groups))) t
  have leftSum := abs_sum_le _ first
  have rightSum := abs_sum_le _ second
  have leftInt : (acc.1 t).toInt = _ := left ▸ int32_sum first (by omega)
  have rightInt : (acc.2 t).toInt = _ := right ▸ int32_sum second (by omega)
  have total : |(acc.1 t).toInt + (acc.2 t).toInt| ≤ 2031648768 := by
    rw [leftInt, rightInt]
    exact (abs_add_le _ _).trans (by omega)
  have sum : laneTotal (4 * groups) A B t = (acc.1 t).toInt + (acc.2 t).toInt := by
    rw [laneTotal, Finset.sum_add_distrib, leftInt, rightInt]
  rw [sum]
  refine ⟨?_, total⟩
  rw [addEpi32, int32_add]
  omega

/-- All lanes together hold the products of all entries. -/
theorem lane_totals_sum (boundedA : Bounded A) (boundedB : Bounded B) {groups : Nat}
    (whole : N * N / (4 * (4 * groups)) * (4 * (4 * groups)) = N * N) :
    ∑ t ∈ Finset.range (4 * groups), laneTotal (4 * groups) A B t =
      ∑ j ∈ Finset.range (N * N), product (A j) (B j) := by
  have flat := sum_rows (fun j => product (A j) (B j)) (N * N / (4 * (4 * groups)))
    (4 * (4 * groups))
  rw [whole] at flat
  unfold laneTotal
  rw [Finset.sum_comm, ← flat]
  apply Finset.sum_congr rfl
  intro pass member
  have inside := pass_inside (Finset.mem_range.mp member)
  have halves : 4 * (4 * groups) = 2 * (4 * groups) + 2 * (4 * groups) := by omega
  rw [Finset.sum_add_distrib, pass_sum boundedA boundedB (by omega),
    pass_sum boundedA boundedB (by omega), halves, Finset.sum_range_add]
  simp only [Nat.add_assoc]

end Passes

theorem int32_abs_le (x : Int32) : |x.toInt| ≤ 2147483648 := by
  have low := Int32.le_toInt x
  have high := Int32.toInt_lt x
  rw [abs_le']
  omega

/-- The last reduction works on 64-bit lanes. -/
theorem widened_sum (acc : Nat → Int32) {half : Nat} (few : half ≤ 400) :
    ((List.range half).foldl (fun s t => s + ((acc t).toInt64 + (acc (half + t)).toInt64)) 0).toInt =
      ∑ t ∈ Finset.range (half + half), (acc t).toInt := by
  have pair : ∀ t, ((acc t).toInt64 + (acc (half + t)).toInt64).toInt =
      (acc t).toInt + (acc (half + t)).toInt := by
    intro t
    have bound := (abs_add_le (acc t).toInt (acc (half + t)).toInt).trans
      (add_le_add (int32_abs_le _) (int32_abs_le _))
    rw [int64_add, Int32.toInt_toInt64, Int32.toInt_toInt64]
    rw [Int32.toInt_toInt64, Int32.toInt_toInt64]
    omega
  have small : ∀ t, t < half →
      |((acc t).toInt64 + (acc (half + t)).toInt64).toInt| ≤ 4294967296 := by
    intro t _
    rw [pair]
    exact (abs_add_le _ _).trans (add_le_add (int32_abs_le _) (int32_abs_le _))
  rw [int64_sum small (by omega), Finset.sum_range_add, ← Finset.sum_add_distrib]
  exact Finset.sum_congr rfl fun t _ => pair t

theorem trace_lanes_eq {A B : Nat → Int32} (boundedA : Bounded A) (boundedB : Bounded B)
    {groups half : Nat} (even : groups = 2 * half)
    (whole : N * N / (4 * (4 * groups)) * (4 * (4 * groups)) = N * N)
    (passes : N * N / (4 * (4 * groups)) ≤ 512) (few : half ≤ 100) :
    (traceLanes (4 * groups) A B).toInt = ∑ j ∈ Finset.range (N * N), product (A j) (B j) := by
  have halves : 4 * groups / 2 = 4 * half := by omega
  have split : 4 * half + 4 * half = 4 * groups := by omega
  unfold traceLanes
  dsimp only
  rw [halves, widened_sum _ (by omega), split, ← lane_totals_sum boundedA boundedB whole]
  apply Finset.sum_congr rfl
  intro t member
  exact (lane_total_eq boundedA boundedB passes (Finset.mem_range.mp member)).1

theorem trace_scalar_eq {A B : Nat → Int32} (boundedA : Bounded A) (boundedB : Bounded B) :
    (traceScalar A B).toInt = ∑ j ∈ Finset.range (N * N), (A j).toInt * (B j).toInt := by
  have exactly : ∀ j, j < N * N → ((A j).toInt64 * (B j).toInt64).toInt =
      (A j).toInt * (B j).toInt ∧ |(A j).toInt * (B j).toInt| ≤ 900000000 := by
    intro j below
    have boundA := boundedA j below
    have boundB := boundedB j below
    have absA : |(A j).toInt| ≤ 30000 := by
      rw [abs_le']
      omega
    have absB : |(B j).toInt| ≤ 30000 := by
      rw [abs_le']
      omega
    have bound : |(A j).toInt * (B j).toInt| ≤ 900000000 := by
      rw [abs_mul]
      exact mul_le_mul absA absB (abs_nonneg _) (by omega)
    refine ⟨?_, bound⟩
    rw [int64_mul, Int32.toInt_toInt64, Int32.toInt_toInt64]
    rw [Int32.toInt_toInt64, Int32.toInt_toInt64]
    omega
  have size : N * N = 16384 := rfl
  unfold traceScalar
  rw [@int64_sum _ 900000000, Finset.sum_congr rfl]
  · intro j member
    exact (exactly j (Finset.mem_range.mp member)).1
  · intro j below
    rw [(exactly j below).1]
    exact (exactly j below).2
  · rw [size]
    omega

/-- Every version returns the sum of the products of its operands. -/
theorem trace_AB_T_eq (tier : Tier) {A B : Nat → Int32} (boundedA : Bounded A)
    (boundedB : Bounded B) :
    (traceABT tier A B).toInt =
      ∑ j ∈ Finset.range (N * N), tier.operand (A j) * tier.operand (B j) := by
  cases tier with
  | avx512 => exact @trace_lanes_eq A B boundedA boundedB 4 2 rfl rfl (by decide) (by omega)
  | avx2 => exact @trace_lanes_eq A B boundedA boundedB 2 1 rfl rfl (by decide) (by omega)
  | scalar => exact trace_scalar_eq boundedA boundedB

end Finm327.Hft
