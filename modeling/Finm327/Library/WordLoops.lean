import Mathlib.Algebra.Ring.Nat

/-!
# Loops with a counter of 64 bits

The counter wraps, so a loop may never end: the fuel counts its tests. A loop whose
counter stays below a limit under an invariant ends, and leaves the invariant.
-/

namespace Finm327.Library.WordLoops

variable {State : Type}

/-- `for (; test(i); i += step)`: the counter and the state at the end. -/
def wordLoop (test : UInt64 → Bool) (step : UInt64) (body : UInt64 → State → Option State) :
    Nat → UInt64 → State → Option (UInt64 × State)
  | 0, _, _ => none
  | fuel + 1, i, s =>
    if test i then do
      let s ← body i s
      wordLoop test step body fuel (i + step) s
    else some (i, s)

theorem add_to_nat {a b : UInt64} {limit : Nat} (fits : limit < 2 ^ 64)
    (below : a.toNat + b.toNat ≤ limit) : (a + b).toNat = a.toNat + b.toNat := by
  rw [UInt64.toNat_add, Nat.mod_eq_of_lt (by omega)]

/-- The invariant sees the counter as a number: it never wraps. -/
theorem word_loop_rule {test : UInt64 → Bool} {step : UInt64}
    {body : UInt64 → State → Option State} (invariant : Nat → State → Prop) {limit : Nat}
    (fits : limit < 2 ^ 64) (advances : 0 < step.toNat)
    (keeps : ∀ i s, invariant i.toNat s → test i = true → i.toNat + step.toNat ≤ limit ∧
      ∃ next, body i s = some next ∧ invariant (i.toNat + step.toNat) next)
    {fuel : Nat} {i : UInt64} {s : State} (enough : limit - i.toNat < fuel)
    (start : invariant i.toNat s) :
    ∃ j out, wordLoop test step body fuel i s = some (j, out) ∧ test j = false ∧
      invariant j.toNat out := by
  induction fuel generalizing i s with
  | zero => omega
  | succ fuel ih =>
      by_cases enters : test i = true
      · obtain ⟨below, next, ran, kept⟩ := keeps i s start enters
        have place := add_to_nat fits below
        rw [← place] at kept
        rw [wordLoop, if_pos enters, ran, Option.bind_eq_bind, Option.bind_some]
        exact ih (by omega) kept
      · exact ⟨i, s, by rw [wordLoop, if_neg enters], Bool.not_eq_true _ ▸ enters, start⟩

end Finm327.Library.WordLoops
