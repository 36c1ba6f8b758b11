import Mathlib.Algebra.BigOperators.Group.Finset.Basic
import Mathlib.Algebra.BigOperators.Intervals
import Mathlib.Algebra.BigOperators.Ring.Finset
import Mathlib.Algebra.Order.BigOperators.Group.Finset
import Mathlib.Algebra.Order.Ring.Abs
import Mathlib.Algebra.Order.Ring.Int
import Mathlib.Tactic.Ring

/-!
# Sums in machine words

A loop that adds up words gives the exact sum as long as the bound of the terms
times their number fits the word. Sums over blocks of equal length are sums over
one index.
-/

namespace Finm327.Library.Sums

theorem sum_rows {Value : Type} [AddCommMonoid Value] (f : Nat → Value) (m n : Nat) :
    ∑ i ∈ Finset.range m, ∑ j ∈ Finset.range n, f (i * n + j) =
      ∑ t ∈ Finset.range (m * n), f t := by
  induction m with
  | zero => rw [Nat.zero_mul, Finset.sum_range_zero, Finset.sum_range_zero]
  | succ m ih => rw [Finset.sum_range_succ, ih, Nat.succ_mul, Finset.sum_range_add]

theorem sum_column {Value : Type} [AddCommMonoid Value] (f : Nat → Value) (m : Nat) {n k : Nat}
    (below : k < n) :
    ∑ t ∈ Finset.range (m * n), (if t % n = k then f t else 0) =
      ∑ i ∈ Finset.range m, f (i * n + k) := by
  rw [← sum_rows]
  apply Finset.sum_congr rfl
  intro i _
  have row : ∀ j ∈ Finset.range n, (if (i * n + j) % n = k then f (i * n + j) else 0) =
      if k = j then f (i * n + j) else 0 := by
    intro j member
    rw [Nat.mul_comm, Nat.mul_add_mod, Nat.mod_eq_of_lt (Finset.mem_range.mp member)]
    exact if_congr eq_comm rfl rfl
  rw [Finset.sum_congr rfl row, Finset.sum_ite_eq, if_pos (Finset.mem_range.mpr below)]

/-- Blocks whose last one is clipped cover the range once. -/
theorem sum_clipped {Value : Type} [AddCommMonoid Value] (f : Nat → Value) {step stop : Nat}
    (count : Nat) :
    ∑ m ∈ Finset.range count, ∑ i ∈ Finset.Ico (m * step) (min (m * step + step) stop), f i =
      ∑ i ∈ Finset.range (min (count * step) stop), f i := by
  induction count with
  | zero => rw [Nat.zero_mul, Nat.zero_min, Finset.sum_range_zero, Finset.sum_range_zero]
  | succ count ih =>
      rw [Finset.sum_range_succ, ih, Nat.succ_mul, Finset.range_eq_Ico, Finset.range_eq_Ico]
      by_cases inside : count * step ≤ stop
      · rw [Nat.min_eq_left inside]
        exact Finset.sum_Ico_consecutive f (Nat.zero_le _) (by omega)
      · have beyond : min (count * step + step) stop = stop := by omega
        have before : min (count * step) stop = stop := by omega
        have empty : ¬ count * step < stop := by omega
        rw [beyond, before, Finset.Ico_eq_empty empty, Finset.sum_empty, add_zero]

/-- The innermost sum moves to the front. -/
theorem sum_turn {Value : Type} [AddCommMonoid Value] (rows columns depths : Finset Nat)
    (f : Nat → Nat → Nat → Value) :
    ∑ i ∈ rows, ∑ k ∈ depths, ∑ j ∈ columns, f i k j =
      ∑ j ∈ columns, ∑ i ∈ rows, ∑ k ∈ depths, f i k j := by
  calc ∑ i ∈ rows, ∑ k ∈ depths, ∑ j ∈ columns, f i k j
      = ∑ i ∈ rows, ∑ j ∈ columns, ∑ k ∈ depths, f i k j :=
        Finset.sum_congr rfl fun _ _ => Finset.sum_comm
    _ = ∑ j ∈ columns, ∑ i ∈ rows, ∑ k ∈ depths, f i k j := Finset.sum_comm

theorem foldl_add (f : Nat → Int) (n : Nat) :
    (List.range n).foldl (fun acc t => acc + f t) 0 = ∑ t ∈ Finset.range n, f t := by
  induction n with
  | zero => rfl
  | succ n ih =>
      rw [List.range_succ, List.foldl_append, ih, List.foldl_cons, List.foldl_nil,
        Finset.sum_range_succ]

/-- Nested loops over rows and columns are one loop over all places. -/
theorem foldl_rows {State : Type} (f : State → Nat → State) (m n : Nat) (start : State) :
    (List.range m).foldl (fun s i => (List.range n).foldl (fun s j => f s (i * n + j)) s) start =
      (List.range (m * n)).foldl f start := by
  induction m with
  | zero => rw [Nat.zero_mul, List.range_zero, List.foldl_nil, List.foldl_nil]
  | succ m ih =>
      rw [List.range_succ, List.foldl_append, ih, List.foldl_cons, List.foldl_nil, Nat.succ_mul,
        List.range_add, List.foldl_append, List.foldl_map]

theorem abs_sum_le {f : Nat → Int} {bound : Int} (n : Nat)
    (small : ∀ t, t < n → |f t| ≤ bound) :
    |∑ t ∈ Finset.range n, f t| ≤ n * bound := by
  calc |∑ t ∈ Finset.range n, f t| ≤ ∑ t ∈ Finset.range n, |f t| :=
        Finset.abs_sum_le_sum_abs f _
    _ ≤ ∑ _ ∈ Finset.range n, bound :=
        Finset.sum_le_sum fun t member => small t (Finset.mem_range.mp member)
    _ = n * bound := by rw [Finset.sum_const, Finset.card_range, nsmul_eq_mul]

theorem int32_add {a b : Int32} (fits : |a.toInt + b.toInt| < 2 ^ 31) :
    (a + b).toInt = a.toInt + b.toInt := by
  rw [abs_lt] at fits
  rw [Int32.toInt_add]
  exact Int.bmod_eq_of_le_mul_two (by omega) (by omega)

theorem int32_mul {a b : Int32} (fits : |a.toInt * b.toInt| < 2 ^ 31) :
    (a * b).toInt = a.toInt * b.toInt := by
  rw [abs_lt] at fits
  rw [Int32.toInt_mul]
  exact Int.bmod_eq_of_le_mul_two (by omega) (by omega)

theorem int64_add {a b : Int64} (fits : |a.toInt + b.toInt| < 2 ^ 63) :
    (a + b).toInt = a.toInt + b.toInt := by
  rw [abs_lt] at fits
  rw [Int64.toInt_add]
  exact Int.bmod_eq_of_le_mul_two (by omega) (by omega)

theorem int64_mul {a b : Int64} (fits : |a.toInt * b.toInt| < 2 ^ 63) :
    (a * b).toInt = a.toInt * b.toInt := by
  rw [abs_lt] at fits
  rw [Int64.toInt_mul]
  exact Int.bmod_eq_of_le_mul_two (by omega) (by omega)

/-- The loop adds exactly, for any word whose addition is exact below a limit. -/
theorem word_sum {Word : Type} [Zero Word] [Add Word] {toInt : Word → Int} {limit : Int}
    (zero : toInt 0 = 0)
    (add : ∀ a b, |toInt a + toInt b| < limit → toInt (a + b) = toInt a + toInt b)
    {f : Nat → Word} {bound : Int} {n : Nat} (small : ∀ t, t < n → |toInt (f t)| ≤ bound)
    (fits : n * bound < limit) :
    toInt ((List.range n).foldl (fun acc t => acc + f t) 0) =
      ∑ t ∈ Finset.range n, toInt (f t) := by
  induction n with
  | zero => exact zero
  | succ n ih =>
      have here := small n (Nat.lt_succ_self n)
      have positive := (abs_nonneg _).trans here
      have room : (n + 1 : Int) * bound < limit := by exact_mod_cast fits
      have fewer := ih (fun t below => small t (by omega)) (by rw [add_mul] at room; omega)
      have total := abs_sum_le (n + 1) small
      rw [Finset.sum_range_succ] at total
      rw [List.range_succ, List.foldl_append, List.foldl_cons, List.foldl_nil,
        Finset.sum_range_succ, add, fewer]
      rw [fewer]
      push_cast at total
      exact total.trans_lt room

theorem int32_sum {f : Nat → Int32} {bound : Int} {n : Nat}
    (small : ∀ t, t < n → |(f t).toInt| ≤ bound) (fits : n * bound < 2 ^ 31) :
    ((List.range n).foldl (fun acc t => acc + f t) 0).toInt =
      ∑ t ∈ Finset.range n, (f t).toInt :=
  @word_sum _ _ _ Int32.toInt _ rfl (fun _ _ => int32_add) _ _ _ small fits

theorem int64_sum {f : Nat → Int64} {bound : Int} {n : Nat}
    (small : ∀ t, t < n → |(f t).toInt| ≤ bound) (fits : n * bound < 2 ^ 63) :
    ((List.range n).foldl (fun acc t => acc + f t) 0).toInt =
      ∑ t ∈ Finset.range n, (f t).toInt :=
  @word_sum _ _ _ Int64.toInt _ rfl (fun _ _ => int64_add) _ _ _ small fits

end Finm327.Library.Sums
