import Mathlib.Data.Nat.Init
import Mathlib.Logic.Function.Basic
import Mathlib.Tactic.SplitIfs

/-!
# Implicit binary heaps with a hole

The first `n` places of an array form a binary tree in which the children of place `i` are
`2 * i + 1` and `2 * i + 2`. While a value is on its way to its place the array has a hole,
whose content is not looked at: the order holds off the hole and across it, and of the value
it is known that it fits on one side. Each move of the hole keeps this, and where the value
fits on the other side too it fills the hole.
-/

namespace Finm327.Library.HeapOrder

open Function (update)

universe u

variable {T : Type u}

/-- A comparator for "less": equivalence, as the lack of order, is transitive too. -/
structure StrictWeakOrder (cmp : T → T → Bool) : Prop where
  irrefl : ∀ a, cmp a a = false
  trans : ∀ a b c, cmp a b = true → cmp b c = true → cmp a c = true
  equivalent : ∀ a b c, cmp a b = false → cmp b a = false → cmp b c = false → cmp c b = false →
    cmp a c = false ∧ cmp c a = false

namespace StrictWeakOrder

variable {cmp : T → T → Bool}

theorem asymm (order : StrictWeakOrder cmp) {a b : T} (less : cmp a b = true) :
    cmp b a = false := by
  cases back : cmp b a with
  | false => rfl
  | true =>
      have loop := order.trans a b a less back
      rw [order.irrefl] at loop
      cases loop

theorem not_less_trans (order : StrictWeakOrder cmp) {a b c : T} (first : cmp a b = false)
    (second : cmp b c = false) : cmp a c = false := by
  cases less : cmp a c with
  | false => rfl
  | true =>
      cases up : cmp b a with
      | true =>
          rw [order.trans b a c up less] at second
          cases second
      | false =>
          cases down : cmp c b with
          | true =>
              rw [order.trans a c b less down] at first
              cases first
          | false =>
              rw [(order.equivalent a b c first up second down).1] at less
              cases less

end StrictWeakOrder

def parent (i : Nat) : Nat := (i - 1) / 2

theorem parent_lt {i : Nat} (positive : 0 < i) : parent i < i := by
  unfold parent
  omega

/-- A place below the first `n` that hangs on another one. -/
structure Below (n above i : Nat) : Prop where
  positive : 0 < i
  inside : i < n
  hangs : parent i = above

theorem Below.eq_or {n above i : Nat} (below : Below n above i) :
    i = 2 * above + 1 ∨ i = 2 * above + 2 := by
  have hangs := below.hangs
  have positive := below.positive
  unfold parent at hangs
  omega

theorem Below.above_lt {n above i : Nat} (below : Below n above i) : above < i :=
  below.hangs ▸ parent_lt below.positive

variable (cmp : T → T → Bool)

/-- No entry is less than one that hangs on it. -/
def Ordered (n : Nat) (a : Nat → T) : Prop :=
  ∀ above i, Below n above i → cmp (a above) (a i) = false

/-- The order away from the hole, and across it. -/
structure Holed (n : Nat) (a : Nat → T) (hole : Nat) : Prop where
  inside : hole < n
  off : ∀ above i, Below n above i → above ≠ hole → i ≠ hole → cmp (a above) (a i) = false
  across : ∀ i, Below n hole i → 0 < hole → cmp (a (parent hole)) (a i) = false

/-- The value may still have to rise: nothing below the hole is greater. -/
structure Rising (n : Nat) (a : Nat → T) (hole : Nat) (value : T) : Prop where
  holed : Holed cmp n a hole
  below : ∀ i, Below n hole i → cmp value (a i) = false

/-- The value may still have to sink: what the hole hangs on is not less. -/
structure Sinking (n : Nat) (a : Nat → T) (hole : Nat) (value : T) : Prop where
  holed : Holed cmp n a hole
  above : 0 < hole → cmp (a (parent hole)) value = false

variable {cmp} {n hole : Nat} {a : Nat → T} {value : T}

theorem Holed.of_ordered (ordered : Ordered cmp n a) (order : StrictWeakOrder cmp)
    (inside : hole < n) : Holed cmp n a hole where
  inside := inside
  off := fun above i below _ _ => ordered above i below
  across := fun i below positive =>
    order.not_less_trans (ordered (parent hole) hole ⟨positive, inside, rfl⟩)
      (ordered hole i below)

theorem Holed.fill (holed : Holed cmp n a hole)
    (above : 0 < hole → cmp (a (parent hole)) value = false)
    (below : ∀ i, Below n hole i → cmp value (a i) = false) :
    Ordered cmp n (update a hole value) := by
  intro up i hangs
  rw [Function.update_apply, Function.update_apply]
  by_cases atHole : i = hole
  · have upper : up ≠ hole := by
      rw [← atHole]
      exact Nat.ne_of_lt hangs.above_lt
    rw [if_neg upper, if_pos atHole, ← hangs.hangs, atHole]
    exact above (atHole ▸ hangs.positive)
  · rw [if_neg atHole]
    split_ifs with same
    · exact below i (same ▸ hangs)
    · exact holed.off up i hangs same atHole

/-- The hole moves up. -/
theorem Rising.rise (rising : Rising cmp n a hole value) (order : StrictWeakOrder cmp)
    (positive : 0 < hole) (less : cmp (a (parent hole)) value = true) :
    Rising cmp n (update a hole (a (parent hole))) (parent hole) value := by
  have lower := parent_lt positive
  have inside := rising.holed.inside
  refine ⟨⟨Nat.lt_trans lower inside, ?_, ?_⟩, ?_⟩
  · intro up i hangs notUp notThis
    rw [Function.update_apply, Function.update_apply]
    by_cases atHole : i = hole
    · exact absurd (hangs.hangs.symm.trans (congrArg parent atHole)) notUp
    · rw [if_neg atHole]
      split_ifs with same
      · exact rising.holed.across i (same ▸ hangs) positive
      · exact rising.holed.off up i hangs same atHole
  · intro i hangs positiveToo
    have grand : cmp (a (parent (parent hole))) (a (parent hole)) = false := by
      apply rising.holed.off _ _ ⟨positiveToo, Nat.lt_trans lower inside, rfl⟩
      · exact Nat.ne_of_lt (Nat.lt_trans (parent_lt positiveToo) lower)
      · exact Nat.ne_of_lt lower
    have notHole : parent (parent hole) ≠ hole :=
      Nat.ne_of_lt (Nat.lt_trans (parent_lt positiveToo) lower)
    rw [Function.update_apply, if_neg notHole, Function.update_apply]
    split_ifs with atHole
    · exact grand
    · exact order.not_less_trans grand
        (rising.holed.off _ i hangs (Nat.ne_of_lt lower) atHole)
  · intro i hangs
    rw [Function.update_apply]
    split_ifs with atHole
    · exact order.asymm less
    · have sibling := rising.holed.off _ i hangs (Nat.ne_of_lt lower) atHole
      exact order.not_less_trans (order.asymm less) sibling

/-- The hole moves down to the greater of the entries that hang on it. -/
theorem Sinking.sink (sinking : Sinking cmp n a hole value) (order : StrictWeakOrder cmp)
    {child : Nat} (hangs : Below n hole child) (less : cmp value (a child) = true)
    (greatest : ∀ i, Below n hole i → cmp (a child) (a i) = false) :
    Sinking cmp n (update a hole (a child)) child value := by
  have lower := hangs.above_lt
  refine ⟨⟨hangs.inside, ?_, ?_⟩, ?_⟩
  · intro up i below notUp notThis
    rw [Function.update_apply, Function.update_apply]
    by_cases atHole : i = hole
    · have upper : up ≠ hole := by
        rw [← atHole]
        exact Nat.ne_of_lt below.above_lt
      rw [if_neg upper, if_pos atHole, ← below.hangs, atHole]
      exact sinking.holed.across child hangs (atHole ▸ below.positive)
    · rw [if_neg atHole]
      split_ifs with same
      · exact greatest i (same ▸ below)
      · exact sinking.holed.off up i below same atHole
  · intro i below _
    have notHole : i ≠ hole := Nat.ne_of_gt (Nat.lt_trans lower below.above_lt)
    rw [hangs.hangs, Function.update_self, Function.update_of_ne notHole]
    exact sinking.holed.off child i below (Nat.ne_of_gt lower) notHole
  · intro _
    rw [hangs.hangs, Function.update_self]
    exact order.asymm less

theorem Ordered.top (ordered : Ordered cmp n a) (order : StrictWeakOrder cmp) {i : Nat}
    (inside : i < n) : cmp (a 0) (a i) = false := by
  induction i using Nat.strongRecOn with
  | ind i ih =>
      cases Nat.eq_zero_or_pos i with
      | inl zero =>
          rw [zero]
          exact order.irrefl _
      | inr positive =>
          have lower := parent_lt positive
          exact order.not_less_trans (ih (parent i) lower (Nat.lt_trans lower inside))
            (ordered (parent i) i ⟨positive, inside, rfl⟩)

end Finm327.Library.HeapOrder
