import Finm327.Library.Sums

/-!
# Signed results

An operation on `int` has the exact result where 32 bits hold it. Beyond that the language
leaves it open: the result is a parameter where the program goes on with it, and there is none
where the program has to stay in range. A loop that adds up has a result when all the sums on
its way are in range.
-/

namespace Finm327.Library.SignedArithmetic

def signed (overflow : Int → Int32) (x : Int) : Int32 :=
  if -2 ^ 31 ≤ x ∧ x < 2 ^ 31 then Int32.ofInt x else overflow x

theorem signed_to_int {overflow : Int → Int32} {x : Int} (lower : -2 ^ 31 ≤ x)
    (upper : x < 2 ^ 31) : (signed overflow x).toInt = x := by
  rw [signed, if_pos ⟨lower, upper⟩, Int32.toInt_ofInt_of_le lower upper]

theorem signed_succ {overflow : Int → Int32} {x : Int32} (room : x.toInt + 1 < 2 ^ 31) :
    (signed overflow (x.toInt + 1)).toInt = x.toInt + 1 := by
  have lower := x.le_toInt
  exact signed_to_int (by omega) room

theorem signed_pred {overflow : Int → Int32} {x : Int32} (positive : 0 < x.toInt) :
    (signed overflow (x.toInt - 1)).toInt = x.toInt - 1 := by
  have upper := x.toInt_lt
  exact signed_to_int (by omega) (by omega)

/-! ## Sums that have to fit -/

/-- What a signed word of so many bits holds. -/
def InRange (bits : Nat) (x : Int) : Prop := -2 ^ (bits - 1) ≤ x ∧ x < 2 ^ (bits - 1)

instance (bits : Nat) (x : Int) : Decidable (InRange bits x) :=
  inferInstanceAs (Decidable (-2 ^ (bits - 1) ≤ x ∧ x < 2 ^ (bits - 1)))

def checkedSigned (bits : Nat) (x : Int) : Option Int := if InRange bits x then some x else none

theorem checked_signed_eq_some {bits : Nat} {x y : Int} :
    checkedSigned bits x = some y ↔ y = x ∧ InRange bits x := by
  unfold checkedSigned
  split_ifs with fits
  · simp [fits, eq_comm]
  · simp [fits]

theorem in_range_of_abs_le {bits : Nat} {x bound : Int} (small : |x| ≤ bound)
    (room : bound < 2 ^ (bits - 1)) : InRange bits x := by
  obtain ⟨lower, upper⟩ := abs_le.mp small
  constructor
  · omega
  · omega

variable {bits : Nat} {body : Int → Nat → Option Int} {f : Nat → Int} {n : Nat}

/-- A loop whose body adds a term in range, from any sum in range. -/
theorem foldlM_signed_iff
    (adds : ∀ s t, t < n → InRange bits s → body s t = checkedSigned bits (s + f t))
    (zero : InRange bits 0) (r : Int) :
    (List.range n).foldlM body 0 = some r ↔
      r = ∑ t ∈ Finset.range n, f t ∧
        ∀ m, m ≤ n → InRange bits (∑ t ∈ Finset.range m, f t) := by
  induction n generalizing r with
  | zero =>
      constructor
      · intro ran
        cases ran
        refine ⟨rfl, ?_⟩
        intro m le
        rw [Nat.le_zero.mp le]
        exact zero
      · rintro ⟨rfl, _⟩
        rfl
  | succ n ih =>
      have fewer := ih fun s t below => adds s t (by omega)
      rw [List.range_succ, List.foldlM_append, Finset.sum_range_succ]
      constructor
      · intro ran
        obtain ⟨s, before, last⟩ := Option.bind_eq_some_iff.mp ran
        obtain ⟨rfl, fits⟩ := (fewer s).mp before
        rw [List.foldlM_cons, adds _ n (by omega) (fits n le_rfl)] at last
        obtain ⟨same, here⟩ := checked_signed_eq_some.mp (by simpa using last)
        refine ⟨same, ?_⟩
        intro m le
        by_cases done : m ≤ n
        · exact fits m done
        · rw [show m = n + 1 by omega, Finset.sum_range_succ]
          exact here
      · rintro ⟨rfl, fits⟩
        have before := (fewer _).mpr ⟨rfl, fun m le => fits m (by omega)⟩
        have here := fits (n + 1) le_rfl
        rw [Finset.sum_range_succ] at here
        rw [before, Option.bind_eq_bind, Option.bind_some, List.foldlM_cons,
          adds _ n (by omega) (fits n (by omega)), checked_signed_eq_some.mpr ⟨rfl, here⟩]
        rfl

/-- Terms whose bound times their number fits: the loop runs through. -/
theorem foldlM_signed_of_bound
    (adds : ∀ s t, t < n → InRange bits s → body s t = checkedSigned bits (s + f t))
    {bound : Int} (small : ∀ t, t < n → |f t| ≤ bound) (positive : 0 ≤ bound)
    (room : n * bound < 2 ^ (bits - 1)) :
    (List.range n).foldlM body 0 = some (∑ t ∈ Finset.range n, f t) := by
  have fits : ∀ m, m ≤ n → InRange bits (∑ t ∈ Finset.range m, f t) := by
    intro m le
    have fewer_le : (m : Int) * bound ≤ n * bound :=
      mul_le_mul_of_nonneg_right (Int.ofNat_le.mpr le) positive
    apply in_range_of_abs_le (Sums.abs_sum_le m fun t below => small t (by omega))
    exact fewer_le.trans_lt room
  exact (foldlM_signed_iff adds (fits 0 (Nat.zero_le n)) _).mpr ⟨rfl, fits⟩

/-- A loop that runs through has run each of its bodies. -/
theorem body_of_foldlM {State Item : Type} {body : State → Item → Option State} {items : List Item}
    {s r : State} (ran : items.foldlM body s = some r) {x : Item} (member : x ∈ items) :
    ∃ before after, body before x = some after := by
  induction items generalizing s with
  | nil => cases member
  | cons first items ih =>
      rw [List.foldlM_cons] at ran
      obtain ⟨next, one, rest⟩ := Option.bind_eq_some_iff.mp ran
      cases List.mem_cons.mp member with
      | inl same => exact ⟨s, next, same ▸ one⟩
      | inr later => exact ih rest later

end Finm327.Library.SignedArithmetic
