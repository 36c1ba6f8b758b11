import Mathlib.Data.Fintype.EquivFin
import Mathlib.Logic.Function.Iterate

/-!
# Folding a shifted copy into a word

`x ^= x << k` and `x ^= x >> k` add to a word its image under a map that is linear over
`xor` and that pushes every word out after some rounds. Adding such an image loses nothing:
the difference of two words with one result is its own image, round after round.
-/

namespace Finm327.Library.XorShifts

variable {w : Nat}

/-- Linear over `xor`, and no word survives `rounds` rounds. -/
structure Drains (f : BitVec w → BitVec w) (rounds : Nat) : Prop where
  linear : ∀ x y, f (x ^^^ y) = f x ^^^ f y
  empty : ∀ x, f^[rounds] x = 0#w

theorem Drains.fixed_eq_zero {f : BitVec w → BitVec w} {rounds : Nat} (drains : Drains f rounds)
    {x : BitVec w} (fixed : f x = x) : x = 0#w := by
  have stays : f^[rounds] x = x := Function.iterate_fixed fixed rounds
  rw [← stays]
  exact drains.empty x

/-- `x ^= f(x)`. -/
def fold (f : BitVec w → BitVec w) (x : BitVec w) : BitVec w := x ^^^ f x

theorem fold_injective {f : BitVec w → BitVec w} {rounds : Nat} (drains : Drains f rounds) :
    Function.Injective (fold f) := by
  intro x y same
  have fixed : f (x ^^^ y) = x ^^^ y := by
    calc f (x ^^^ y) = f x ^^^ f y := drains.linear x y
      _ = x ^^^ (x ^^^ f x) ^^^ f y := by rw [← BitVec.xor_assoc, BitVec.xor_self, BitVec.zero_xor]
      _ = x ^^^ (y ^^^ f y) ^^^ f y := by rw [show x ^^^ f x = y ^^^ f y from same]
      _ = x ^^^ y := by rw [BitVec.xor_assoc, BitVec.xor_assoc y, BitVec.xor_self, BitVec.xor_zero]
  exact BitVec.xor_eq_zero_iff.mp (drains.fixed_eq_zero fixed)

/-- Only zero is folded to zero. -/
theorem fold_eq_zero {f : BitVec w → BitVec w} {rounds : Nat} (drains : Drains f rounds)
    {x : BitVec w} : fold f x = 0#w ↔ x = 0#w := by
  have image : f 0#w = 0#w := by simpa using drains.linear 0#w 0#w
  have zero : fold f 0#w = 0#w := by simp [fold, image]
  constructor
  · intro collapsed
    exact fold_injective drains (collapsed.trans zero.symm)
  · intro nothing
    rw [nothing, zero]

instance finiteBitVec : Finite (BitVec w) :=
  Finite.of_injective BitVec.toFin fun _ _ same => BitVec.toFin_inj.mp same

theorem fold_bijective {f : BitVec w → BitVec w} {rounds : Nat} (drains : Drains f rounds) :
    Function.Bijective (fold f) :=
  Finite.injective_iff_bijective.mp (fold_injective drains)

theorem shift_left_iterate (k rounds : Nat) (x : BitVec w) :
    (fun word : BitVec w => word <<< k)^[rounds] x = x <<< (k * rounds) := by
  induction rounds with
  | zero => simp
  | succ rounds ih => rw [Function.iterate_succ_apply', ih, Nat.mul_succ, BitVec.shiftLeft_add]

theorem shift_right_iterate (k rounds : Nat) (x : BitVec w) :
    (fun word : BitVec w => word >>> k)^[rounds] x = x >>> (k * rounds) := by
  induction rounds with
  | zero => simp
  | succ rounds ih => rw [Function.iterate_succ_apply', ih, Nat.mul_succ, BitVec.shiftRight_add]

theorem shift_left_drains {k : Nat} (positive : 0 < k) :
    Drains (fun word : BitVec w => word <<< k) w where
  linear x y := BitVec.shiftLeft_xor_distrib x y k
  empty x := by
    rw [shift_left_iterate]
    exact BitVec.shiftLeft_eq_zero (Nat.le_mul_of_pos_left w positive)

theorem shift_right_drains {k : Nat} (positive : 0 < k) :
    Drains (fun word : BitVec w => word >>> k) w where
  linear x y := BitVec.ushiftRight_xor_distrib x y k
  empty x := by
    rw [shift_right_iterate]
    exact BitVec.ushiftRight_eq_zero (Nat.le_mul_of_pos_left w positive)

end Finm327.Library.XorShifts
