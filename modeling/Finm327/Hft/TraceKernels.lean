import Finm327.Hft.Decode

/-!
# All kernels compute the same trace

On matrices with entries from 0 to 996 the three versions of `trace_AB_T`, given the transpose,
and `trace_AB` return the exact trace of the product. In the vector versions no operation loses
anything: packing keeps every entry, and every product, every pass of both accumulators and
their last addition fit the 32 bits of a lane.
-/

namespace Finm327.Hft

open Finm327.Library.Sums

def traceAB (A B : Nat → Int32) : Int64 :=
  (List.range N).foldl (fun acc i =>
    (List.range N).foldl (fun acc k =>
      acc + (A (i * N + k)).toInt64 * (B (k * N + i)).toInt64) acc) 0

/-- The transpose of a row-major matrix. -/
def transposed (B : Nat → Int32) : Nat → Int32 := fun j => B (slotB j)

/-- The trace of the product, in exact numbers. -/
def traceSum (A B : Nat → Int32) : Int :=
  ∑ i ∈ Finset.range N, ∑ k ∈ Finset.range N, (A (i * N + k)).toInt * (B (k * N + i)).toInt

def Entries (A : Nat → Int32) : Prop :=
  ∀ j, j < N * N → 0 ≤ (A j).toInt ∧ (A j).toInt ≤ 996

/-- Both accumulators after the first passes. -/
def accumulated (lanes : Nat) (A B : Nat → Int32) (passes : Nat) :
    (Nat → Int32) × (Nat → Int32) :=
  (List.range passes).foldl (accumulate lanes A B) (fun _ => 0, fun _ => 0)

/-- What a 16-bit lane multiplies as. -/
def factor (x : Nat → UInt16) (t : Nat) : Int := (x t).toInt16.toInt

/-- A lane of `madd` has room for both products and their sum. -/
def MaddExact (x y : Nat → UInt16) (t : Nat) : Prop :=
  (madd x y t).toInt =
    factor x (2 * t) * factor y (2 * t) + factor x (2 * t + 1) * factor y (2 * t + 1)

/-- No operation of a vector version wraps or saturates. -/
structure LanesExact (lanes : Nat) (A B : Nat → Int32) : Prop where
  packed : ∀ j, j < N * N →
    (saturate (A j)).toInt16.toInt = (A j).toInt ∧ (saturate (B j)).toInt16.toInt = (B j).toInt
  multiplied : ∀ pass, pass < N * N / (4 * lanes) → ∀ t, t < lanes → ∀ half, half < 2 →
    let j := pass * (4 * lanes) + half * (2 * lanes)
    MaddExact (packus (loadu A j) (loadu A (j + lanes)))
      (packus (loadu B j) (loadu B (j + lanes))) t
  added : ∀ pass, pass < N * N / (4 * lanes) → ∀ t, t < lanes →
    let acc := accumulated lanes A B pass
    let next := accumulated lanes A B (pass + 1)
    let j := pass * (4 * lanes)
    (next.1 t).toInt = (acc.1 t).toInt + (passProducts lanes A B j t).toInt ∧
      (next.2 t).toInt = (acc.2 t).toInt + (passProducts lanes A B (j + 2 * lanes) t).toInt
  merged : ∀ t, t < lanes →
    let acc := accumulated lanes A B (N * N / (4 * lanes))
    (addEpi32 acc.1 acc.2 t).toInt = (acc.1 t).toInt + (acc.2 t).toInt

section Entries

variable {A B : Nat → Int32}

theorem Entries.bounded (entries : Entries A) : Bounded A := by
  intro j inside
  obtain ⟨low, high⟩ := entries j inside
  exact ⟨by omega, high⟩

theorem Entries.transposed (entries : Entries B) : Entries (transposed B) :=
  fun j inside => entries (slotB j) (slot_B_lt inside)

theorem transposed_entry (B : Nat → Int32) {k : Nat} (column : k < N) (i : Nat) :
    transposed B (i * N + k) = B (k * N + i) := by
  rw [transposed, slot_B_eq column]

theorem operand_of_entry (tier : Tier) {x : Int32} (low : 0 ≤ x.toInt) :
    tier.operand x = x.toInt := by
  cases tier with
  | avx512 => exact max_eq_left low
  | avx2 => exact max_eq_left low
  | scalar => rfl

theorem trace_sum_flat (A B : Nat → Int32) :
    ∑ j ∈ Finset.range (N * N), (A j).toInt * (transposed B j).toInt = traceSum A B := by
  rw [traceSum, ← sum_rows]
  apply Finset.sum_congr rfl
  intro i _
  apply Finset.sum_congr rfl
  intro k column
  rw [transposed_entry B (Finset.mem_range.mp column)]

theorem trace_AB_T_exact (tier : Tier) (entriesA : Entries A) (entriesB : Entries B) :
    (traceABT tier A (transposed B)).toInt = traceSum A B := by
  have entriesT := entriesB.transposed
  rw [trace_AB_T_eq tier entriesA.bounded entriesT.bounded, ← trace_sum_flat]
  apply Finset.sum_congr rfl
  intro j member
  have inside := Finset.mem_range.mp member
  rw [operand_of_entry tier (entriesA j inside).1, operand_of_entry tier (entriesT j inside).1]

/-- `trace_AB` visits the entries in the order in which the scalar version reads the
transpose. -/
theorem trace_AB_eq (A B : Nat → Int32) : traceAB A B = traceABT .scalar A (transposed B) := by
  have scalar : traceABT .scalar A (transposed B) = traceScalar A (transposed B) := rfl
  rw [scalar, traceScalar, traceAB, ← foldl_rows]
  apply List.foldl_ext
  intro acc i _
  apply List.foldl_ext
  intro acc k column
  rw [transposed_entry B (List.mem_range.mp column)]

theorem trace_AB_exact (entriesA : Entries A) (entriesB : Entries B) :
    (traceAB A B).toInt = traceSum A B := by
  rw [trace_AB_eq]
  exact trace_AB_T_exact .scalar entriesA entriesB

end Entries

/-! ## No lane wraps -/

section Lanes

variable {A B : Nat → Int32}

theorem packed_exact (entries : Entries A) {j : Nat} (inside : j < N * N) :
    (saturate (A j)).toInt16.toInt = (A j).toInt := by
  obtain ⟨low, high⟩ := entries j inside
  rw [saturate_to_int high, max_eq_left low]

/-- A packed lane is the saturated form of an entry of one of the two registers. -/
theorem packus_saturates (a b : Nat → Int32) {groups t : Nat} (inside : t < 2 * (4 * groups)) :
    ∃ e, e < 4 * groups ∧ (packus a b t = saturate (a e) ∨ packus a b t = saturate (b e)) := by
  have column : t % 8 < 8 := Nat.mod_lt t (by omega)
  have place := Nat.div_add_mod t 8
  by_cases low : t % 8 < 4
  · refine ⟨t / 8 * 4 + t % 8, by omega, .inl ?_⟩
    rw [packus, if_pos low]
  · refine ⟨t / 8 * 4 + t % 8 - 4, by omega, .inr ?_⟩
    rw [packus, if_neg low]

theorem factor_bound (bounded : Bounded A) {groups j t : Nat}
    (inside : j + 2 * (4 * groups) ≤ N * N) (below : t < 2 * (4 * groups)) :
    0 ≤ factor (packus (loadu A j) (loadu A (j + 4 * groups))) t ∧
      factor (packus (loadu A j) (loadu A (j + 4 * groups))) t ≤ 996 := by
  obtain ⟨e, within, either⟩ :=
    packus_saturates (loadu A j) (loadu A (j + 4 * groups)) below
  unfold factor
  rcases either with first | second
  · have small : (loadu A j e).toInt ≤ 996 := (bounded (j + e) (by omega)).2
    rw [first, saturate_to_int small]
    exact clamp_bound small
  · have small : (loadu A (j + 4 * groups) e).toInt ≤ 996 :=
      (bounded (j + 4 * groups + e) (by omega)).2
    rw [second, saturate_to_int small]
    exact clamp_bound small

theorem madd_exact {x y : Nat → UInt16} {t : Nat}
    (even : 0 ≤ factor x (2 * t) ∧ factor x (2 * t) ≤ 996)
    (odd : 0 ≤ factor x (2 * t + 1) ∧ factor x (2 * t + 1) ≤ 996)
    (evenToo : 0 ≤ factor y (2 * t) ∧ factor y (2 * t) ≤ 996)
    (oddToo : 0 ≤ factor y (2 * t + 1) ∧ factor y (2 * t + 1) ≤ 996) : MaddExact x y t := by
  have fits : ∀ {a b : UInt16}, 0 ≤ a.toInt16.toInt ∧ a.toInt16.toInt ≤ 996 →
      0 ≤ b.toInt16.toInt ∧ b.toInt16.toInt ≤ 996 →
      (a.toInt16.toInt32 * b.toInt16.toInt32).toInt = a.toInt16.toInt * b.toInt16.toInt ∧
        0 ≤ a.toInt16.toInt * b.toInt16.toInt ∧ a.toInt16.toInt * b.toInt16.toInt ≤ 992016 := by
    intro a b first second
    have low := mul_nonneg first.1 second.1
    have high : a.toInt16.toInt * b.toInt16.toInt ≤ 996 * 996 :=
      mul_le_mul first.2 second.2 second.1 (by omega)
    refine ⟨?_, low, high⟩
    rw [int32_mul]
    · rw [Int16.toInt_toInt32, Int16.toInt_toInt32]
    · rw [Int16.toInt_toInt32, Int16.toInt_toInt32, abs_lt]
      omega
  obtain ⟨first, low, high⟩ := fits even evenToo
  obtain ⟨second, lowToo, highToo⟩ := fits odd oddToo
  unfold MaddExact factor
  rw [madd, int32_add, first, second]
  rw [first, second, abs_lt]
  omega

/-- An accumulator is the exact sum of the products of the passes so far. -/
theorem accumulated_to_int (boundedA : Bounded A) (boundedB : Bounded B) {groups t passes : Nat}
    (few : passes ≤ 512) (within : passes ≤ N * N / (4 * (4 * groups))) (below : t < 4 * groups) :
    let acc := accumulated (4 * groups) A B passes
    (acc.1 t).toInt = ∑ pass ∈ Finset.range passes,
        (passProducts (4 * groups) A B (pass * (4 * (4 * groups))) t).toInt ∧
      (acc.2 t).toInt = ∑ pass ∈ Finset.range passes,
        (passProducts (4 * groups) A B (pass * (4 * (4 * groups)) + 2 * (4 * groups)) t).toInt := by
  intro acc
  have many : (passes : Int) ≤ 512 := by exact_mod_cast few
  have start : ∀ pass, pass < passes → ∀ half, half < 2 →
      |(passProducts (4 * groups) A B (pass * (4 * (4 * groups)) + half * (2 * (4 * groups)))
        t).toInt| ≤ 1984032 := by
    intro pass early half small
    have inside := pass_inside (early.trans_le within)
    have offset : half * (2 * (4 * groups)) ≤ 1 * (2 * (4 * groups)) :=
      Nat.mul_le_mul_right _ (Nat.le_of_lt_succ small)
    exact pass_bound boundedA boundedB (by omega) below
  obtain ⟨left, right⟩ := accumulators_eq (4 * groups) A B passes t
  constructor
  · refine left ▸ int32_sum (fun pass early => ?_) (by omega : (passes : Int) * 1984032 < 2 ^ 31)
    have bound := start pass early 0 (by omega)
    rwa [Nat.zero_mul, Nat.add_zero] at bound
  · refine right ▸ int32_sum (fun pass early => ?_) (by omega : (passes : Int) * 1984032 < 2 ^ 31)
    have bound := start pass early 1 (by omega)
    rwa [Nat.one_mul] at bound

theorem lanes_exact (entriesA : Entries A) (entriesB : Entries B) {groups : Nat}
    (few : N * N / (4 * (4 * groups)) ≤ 512) : LanesExact (4 * groups) A B where
  packed := fun j inside => ⟨packed_exact entriesA inside, packed_exact entriesB inside⟩
  multiplied := by
    intro pass early t below half small j
    have inside := pass_inside early
    have offset : half * (2 * (4 * groups)) ≤ 1 * (2 * (4 * groups)) :=
      Nat.mul_le_mul_right _ (Nat.le_of_lt_succ small)
    have whole : j + 2 * (4 * groups) ≤ N * N := by omega
    apply madd_exact
    · exact factor_bound entriesA.bounded whole (by omega)
    · exact factor_bound entriesA.bounded whole (by omega)
    · exact factor_bound entriesB.bounded whole (by omega)
    · exact factor_bound entriesB.bounded whole (by omega)
  added := by
    intro pass early t below acc next j
    obtain ⟨first, second⟩ := accumulated_to_int entriesA.bounded entriesB.bounded
      (early.le.trans few) early.le below
    obtain ⟨firstNext, secondNext⟩ := accumulated_to_int entriesA.bounded entriesB.bounded
      (Nat.succ_le_of_lt (early.trans_le few)) early below
    rw [Finset.sum_range_succ, ← first] at firstNext
    rw [Finset.sum_range_succ, ← second] at secondNext
    exact ⟨firstNext, secondNext⟩
  merged := by
    intro t below acc
    obtain ⟨first, second⟩ := accumulated_to_int entriesA.bounded entriesB.bounded few le_rfl below
    obtain ⟨total, bound⟩ := lane_total_eq entriesA.bounded entriesB.bounded few below
    refine total.trans ?_
    rw [laneTotal, Finset.sum_add_distrib]
    exact congrArg₂ (· + ·) first.symm second.symm

end Lanes

theorem trace_kernels_agree {A B : Nat → Int32} (entriesA : Entries A) (entriesB : Entries B) :
    (∀ tier, (traceABT tier A (transposed B)).toInt = traceSum A B) ∧
      (traceAB A B).toInt = traceSum A B ∧
      LanesExact 16 A (transposed B) ∧ LanesExact 8 A (transposed B) :=
  ⟨fun tier => trace_AB_T_exact tier entriesA entriesB, trace_AB_exact entriesA entriesB,
    @lanes_exact A (transposed B) entriesA entriesB.transposed 4 (by decide),
    @lanes_exact A (transposed B) entriesA entriesB.transposed 2 (by decide)⟩

/-- The largest entries everywhere. -/
theorem trace_kernels_agree_sample :
    (traceABT .avx2 (fun _ => 996) (transposed fun _ => 996)).toInt = 16253190144 ∧
      LanesExact 8 (fun _ => 996) (transposed fun _ => 996) := by
  have entries : Entries (fun _ => 996) := by
    intro _ _
    exact (by decide : 0 ≤ (996 : Int32).toInt ∧ (996 : Int32).toInt ≤ 996)
  obtain ⟨tiers, -, -, exact_⟩ := trace_kernels_agree entries entries
  refine ⟨?_, exact_⟩
  rw [tiers, traceSum, Finset.sum_const, Finset.sum_const, Finset.card_range]
  rfl

end Finm327.Hft
