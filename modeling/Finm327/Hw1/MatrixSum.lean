import Finm327.Library.ReadLoops
import Finm327.Library.SignedArithmetic
import Mathlib.Tactic.NormNum
import Mathlib.Tactic.Positivity

/-!
# The sum of a matrix

Transcribes `hw1/matrix_sum.cpp`. Every `int` and `long long` expression is in range or has no
result. Both versions keep their totals in 64 bits, and both pass through 32: the basic one at
every addition, the optimized one in each group of four entries.
-/

namespace Finm327.Hw1

open Finm327.Library.ReadLoops
open Finm327.Library.SignedArithmetic
open Finm327.Library.Sums

def SIZE : Nat := 4096

abbrev Matrix := Nat → Nat → Int32

def getElement (matrix : Matrix) (row col : Nat) : Int32 := matrix row col

def add (a b : Int32) : Option Int32 :=
  if InRange 32 (a.toInt + b.toInt) then some (a + b) else none

/-- The sum is converted to `int` for the call, and its result back to `long long`. -/
def sumMatrixBasic (matrix : Matrix) : Option Int :=
  (List.range SIZE).foldlM (fun sum i =>
    (List.range SIZE).foldlM (fun sum j =>
      (add (Int32.ofInt sum) (getElement matrix i j)).map Int32.toInt) sum) 0

/-- `row[j] + row[j + 1] + row[j + 2] + row[j + 3]`, in `int`. -/
def addFour (row : Nat → Int32) (j : Nat) : Option Int32 := do
  let s ← add (row j) (row (j + 1))
  let s ← add s (row (j + 2))
  add s (row (j + 3))

def unrolled : Nat := SIZE - SIZE % 4

def sumRow (row : Nat → Int32) : Option Int := do
  let rowSum ← (List.range (unrolled / 4)).foldlM (fun rowSum m => do
    let s ← addFour row (m * 4)
    checkedSigned 64 (rowSum + s.toInt)) 0
  (List.range' unrolled (SIZE % 4)).foldlM (fun rowSum j =>
    checkedSigned 64 (rowSum + (row j).toInt)) rowSum

def sumMatrixOptimized (matrix : Matrix) : Option Int :=
  (List.range SIZE).foldlM (fun total i => do
    let rowSum ← sumRow (matrix i)
    checkedSigned 64 (total + rowSum)) 0

/-! ## What the sums are to be -/

def matrixSum (matrix : Matrix) : Int :=
  ∑ i ∈ Finset.range SIZE, ∑ j ∈ Finset.range SIZE, (matrix i j).toInt

/-- Both versions run through and return the exact sum. -/
def Exact (matrix : Matrix) : Prop :=
  sumMatrixBasic matrix = some (matrixSum matrix) ∧
    sumMatrixOptimized matrix = some (matrixSum matrix)

/-- The entry at a place in row-major order. -/
def entry (matrix : Matrix) (t : Nat) : Int := (matrix (t / SIZE) (t % SIZE)).toInt

/-- The sums of the first entries, as many as one likes, fit an `int`. -/
def PrefixesFit (matrix : Matrix) : Prop :=
  ∀ t, t ≤ SIZE * SIZE → InRange 32 (∑ s ∈ Finset.range t, entry matrix s)

/-- In the group of four from column `j` the sums of the first entries fit an `int`. -/
def GroupFits (row : Nat → Int32) (j : Nat) : Prop :=
  ∀ count, count ≤ 4 → InRange 32 (∑ k ∈ Finset.range count, (row (j + k)).toInt)

def GroupsFit (matrix : Matrix) : Prop :=
  ∀ i, i < SIZE → ∀ m, m < unrolled / 4 → GroupFits (matrix i) (m * 4)

/-! ## The basic version -/

theorem int32_in_range (a : Int32) : InRange 32 a.toInt := ⟨a.le_toInt, a.toInt_lt⟩

theorem add_eq (a b : Int32) :
    (add a b).map Int32.toInt = checkedSigned 32 (a.toInt + b.toInt) := by
  unfold add checkedSigned
  by_cases fits : InRange 32 (a.toInt + b.toInt)
  · rw [if_pos fits, if_pos fits, Option.map_some, Int32.toInt_add]
    exact congrArg some (Int.bmod_eq_of_le (by exact fits.1) (by exact fits.2))
  · rw [if_neg fits, if_neg fits, Option.map_none]

theorem row_major {i j : Nat} (inside : j < SIZE) :
    (i * SIZE + j) / SIZE = i ∧ (i * SIZE + j) % SIZE = j := by
  have positive : 0 < SIZE := by decide
  rw [Nat.mul_comm, Nat.mul_add_div positive, Nat.mul_add_mod, Nat.div_eq_of_lt inside,
    Nat.mod_eq_of_lt inside]
  exact ⟨rfl, rfl⟩

theorem matrix_sum_eq (matrix : Matrix) :
    matrixSum matrix = ∑ t ∈ Finset.range (SIZE * SIZE), entry matrix t := by
  rw [← sum_rows]
  apply Finset.sum_congr rfl
  intro i _
  apply Finset.sum_congr rfl
  intro j member
  obtain ⟨row, column⟩ := @row_major i j (Finset.mem_range.mp member)
  rw [entry, row, column]

/-- A sum that fits is not changed by the conversion. -/
theorem basic_step {sum : Int} (fits : InRange 32 sum) (a : Int32) :
    (add (Int32.ofInt sum) a).map Int32.toInt = checkedSigned 32 (sum + a.toInt) := by
  rw [add_eq, Int32.toInt_ofInt_of_le fits.1 fits.2]

theorem sum_matrix_basic_iff (matrix : Matrix) :
    sumMatrixBasic matrix = some (matrixSum matrix) ↔ PrefixesFit matrix := by
  have flat : sumMatrixBasic matrix = (List.range (SIZE * SIZE)).foldlM (fun sum t =>
      (add (Int32.ofInt sum) (matrix (t / SIZE) (t % SIZE))).map Int32.toInt) 0 := by
    apply foldlM_rows
    intro sum i j inside
    obtain ⟨row, column⟩ := @row_major i j inside
    rw [row, column, getElement]
  have loop := @foldlM_signed_iff 32 _ (entry matrix) (SIZE * SIZE)
    (fun sum t _ fits => basic_step fits (matrix (t / SIZE) (t % SIZE))) (by decide)
    (matrixSum matrix)
  rw [flat, loop, matrix_sum_eq]
  exact and_iff_right rfl

/-! ## The optimized version -/

theorem add_of_in_range {a b : Int32} (fits : InRange 32 (a.toInt + b.toInt)) :
    ∃ c, add a b = some c ∧ c.toInt = a.toInt + b.toInt := by
  have sum := add_eq a b
  rw [checkedSigned, if_pos fits] at sum
  exact Option.map_eq_some_iff.mp sum

theorem in_range_of_add {a b c : Int32} (ran : add a b = some c) :
    c.toInt = a.toInt + b.toInt ∧ InRange 32 (a.toInt + b.toInt) := by
  have sum := add_eq a b
  rw [ran, Option.map_some] at sum
  exact checked_signed_eq_some.mp sum.symm

theorem add_four_of_fits {row : Nat → Int32} {j : Nat} (fits : GroupFits row j) :
    ∃ s, addFour row j = some s ∧ s.toInt = ∑ k ∈ Finset.range 4, (row (j + k)).toInt := by
  have two := fits 2 (by decide)
  have three := fits 3 (by decide)
  have four := fits 4 (by decide)
  simp only [Finset.sum_range_succ, Finset.sum_range_zero, Nat.add_zero, zero_add]
    at two three four ⊢
  obtain ⟨s, ran, sum⟩ := add_of_in_range two
  rw [← sum] at three four ⊢
  obtain ⟨s', ran', sum'⟩ := add_of_in_range three
  rw [← sum'] at four ⊢
  obtain ⟨s'', ran'', sum''⟩ := add_of_in_range four
  refine ⟨s'', ?_, sum''⟩
  simp [addFour, ran, ran', ran'']

theorem fits_of_add_four {row : Nat → Int32} {j : Nat} {s : Int32} (ran : addFour row j = some s) :
    GroupFits row j := by
  obtain ⟨a, first, ran⟩ := Option.bind_eq_some_iff.mp ran
  obtain ⟨b, second, third⟩ := Option.bind_eq_some_iff.mp ran
  obtain ⟨sumA, fitsA⟩ := in_range_of_add first
  obtain ⟨sumB, fitsB⟩ := in_range_of_add second
  obtain ⟨sumC, fitsC⟩ := in_range_of_add third
  intro count le
  have cases : count = 0 ∨ count = 1 ∨ count = 2 ∨ count = 3 ∨ count = 4 := by omega
  rcases cases with rfl | rfl | rfl | rfl | rfl
  · exact (by decide : InRange 32 0)
  · simpa [Finset.sum_range_succ] using int32_in_range (row j)
  · simpa [Finset.sum_range_succ] using fitsA
  · rw [sumA] at fitsB
    simpa [Finset.sum_range_succ] using fitsB
  · rw [sumB, sumA] at fitsC
    simpa [Finset.sum_range_succ] using fitsC

theorem abs_le_of_in_range {x : Int} (fits : InRange 32 x) : |x| ≤ 2 ^ 31 := by
  obtain ⟨lower, upper⟩ := fits
  rw [abs_le]
  omega

/-- A row of groups that fit: the 64 bits of its sum are never full. -/
theorem sum_row_of_fits {row : Nat → Int32} (fits : ∀ m, m < unrolled / 4 → GroupFits row (m * 4)) :
    sumRow row = some (∑ j ∈ Finset.range SIZE, (row j).toInt) := by
  have four (m : Nat) (below : m < unrolled / 4) : ∃ s, addFour row (m * 4) = some s ∧
      s.toInt = ∑ k ∈ Finset.range 4, (row (m * 4 + k)).toInt := add_four_of_fits (fits m below)
  have loop := @foldlM_signed_of_bound 64 (fun rowSum m => do
      let s ← addFour row (m * 4)
      checkedSigned 64 (rowSum + s.toInt)) (fun m => ∑ k ∈ Finset.range 4, (row (m * 4 + k)).toInt)
    (unrolled / 4) ?_ (2 ^ 31) ?_ (by norm_num) (by norm_num [unrolled, SIZE])
  · have leftovers : List.range' unrolled (SIZE % 4) = [] := rfl
    have groups : unrolled / 4 * 4 = SIZE := rfl
    rw [sumRow, loop, leftovers, sum_rows (fun t => (row t).toInt), groups]
    rfl
  · intro rowSum m below _
    obtain ⟨s, ran, sum⟩ := four m below
    rw [← sum, ran]
    rfl
  · intro m below
    exact abs_le_of_in_range (fits m below 4 le_rfl)

theorem fits_of_sum_row {row : Nat → Int32} {r : Int} (ran : sumRow row = some r) :
    ∀ m, m < unrolled / 4 → GroupFits row (m * 4) := by
  intro m below
  rw [sumRow, Option.bind_eq_bind, Option.bind_eq_some_iff] at ran
  obtain ⟨rowSum, groups, _⟩ := ran
  obtain ⟨before, after, one⟩ := body_of_foldlM groups (List.mem_range.mpr below)
  obtain ⟨s, sum, _⟩ := Option.bind_eq_some_iff.mp one
  exact fits_of_add_four sum

theorem abs_row_le (row : Nat → Int32) :
    |∑ j ∈ Finset.range SIZE, (row j).toInt| ≤ SIZE * 2 ^ 31 :=
  abs_sum_le SIZE fun j _ => abs_le_of_in_range (int32_in_range (row j))

theorem sum_matrix_optimized_iff (matrix : Matrix) :
    sumMatrixOptimized matrix = some (matrixSum matrix) ↔ GroupsFit matrix := by
  constructor
  · intro ran i inside
    rw [sumMatrixOptimized] at ran
    obtain ⟨before, after, one⟩ := body_of_foldlM ran (List.mem_range.mpr inside)
    obtain ⟨rowSum, row, _⟩ := Option.bind_eq_some_iff.mp one
    exact fits_of_sum_row row
  · intro fits
    rw [sumMatrixOptimized, matrixSum]
    apply @foldlM_signed_of_bound 64 _ (fun i => ∑ j ∈ Finset.range SIZE, (matrix i j).toInt)
      SIZE ?_ (SIZE * 2 ^ 31) (fun i _ => abs_row_le (matrix i)) (by positivity) (by norm_num [SIZE])
    intro total i inside _
    rw [sum_row_of_fits (fits i inside)]
    rfl

/-! ## Both versions -/

/-- Both are exact, without overflow, exactly when every sum fits an `int` that one of them keeps
in an `int`. -/
theorem sums_exact_iff (matrix : Matrix) : Exact matrix ↔ PrefixesFit matrix ∧ GroupsFit matrix :=
  and_congr (sum_matrix_basic_iff matrix) (sum_matrix_optimized_iff matrix)

/-- Every entry is 128, a little above what the program fills its matrix with: the last addition
of the basic version overflows. -/
theorem basic_overflows :
    sumMatrixBasic (fun _ _ => 128) ≠ sumMatrixOptimized (fun _ _ => 128) ∧
      sumMatrixOptimized (fun _ _ => 128) = some (2 ^ 31) ∧ ¬ Exact (fun _ _ => 128) := by
  have value : (128 : Int32).toInt = 128 := rfl
  have total : matrixSum (fun _ _ => 128) = 2 ^ 31 := by
    simp [matrixSum, value, SIZE]
  have basic : ¬ PrefixesFit (fun _ _ => 128) := by
    intro fits
    have last := (fits (SIZE * SIZE) le_rfl).2
    simp [entry, value, SIZE] at last
  have optimized : GroupsFit (fun _ _ => 128) := by
    intro i _ m _ count le
    dsimp only
    rw [value, Finset.sum_const, Finset.card_range, nsmul_eq_mul]
    constructor
    · omega
    · omega
  have ran := (sum_matrix_optimized_iff _).mpr optimized
  have failed := mt (sum_matrix_basic_iff _).mp basic
  rw [total] at ran failed
  exact ⟨fun same => failed (same.trans ran), ran, fun both => failed (total ▸ both.1)⟩

end Finm327.Hw1
