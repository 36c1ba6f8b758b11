import Mathlib.Algebra.Ring.Nat
import Mathlib.Data.List.Nodup
import Mathlib.Data.List.ProdSigma
import Mathlib.Logic.Function.Basic
import Mathlib.Tactic.SplitIfs

/-!
# Loops whose arithmetic must fit

A result of an integer type exists only below the limit of the type: beyond it the language
leaves the program without meaning. A loop over such results runs through when no step of it
passes the limit. The first part is about loops over a list of places, the second about loops
with a counter that is tested and advanced.
-/

namespace Finm327.Library.CheckedLoops

open Function (update)

def checked (limit x : Nat) : Option Nat := if x < limit then some x else none

theorem checked_of_lt {limit x : Nat} (fits : x < limit) : checked limit x = some x := if_pos fits

section Places

variable {Place Value : Type}

theorem foldlM_checked_add {limit : Nat} (f : Place → Nat) (places : List Place) {start : Nat}
    (fits : start + (places.map f).sum < limit) :
    places.foldlM (fun sum place => checked limit (sum + f place)) start =
      some (start + (places.map f).sum) := by
  induction places generalizing start with
  | nil => rfl
  | cons place places ih =>
      rw [List.map_cons, List.sum_cons, ← Nat.add_assoc] at fits ⊢
      rw [List.foldlM_cons, checked_of_lt (by omega), Option.bind_eq_bind, Option.bind_some]
      exact ih fits

variable [DecidableEq Place]

/-- A loop that visits each place once and computes its new content from the old one. -/
theorem foldlM_update {compute : Place → Value → Option Value} {result : Place → Value}
    {places : List Place} (once : places.Nodup) {content : Place → Value}
    (computes : ∀ place ∈ places, compute place (content place) = some (result place)) :
    places.foldlM (fun content place =>
        (compute place (content place)).map (update content place)) content =
      some (fun place => if place ∈ places then result place else content place) := by
  induction places generalizing content with
  | nil => rfl
  | cons first places ih =>
      obtain ⟨absent, rest⟩ := List.nodup_cons.mp once
      rw [List.foldlM_cons, computes first List.mem_cons_self, Option.map_some,
        Option.bind_eq_bind, Option.bind_some, ih rest]
      · congr 1
        funext place
        by_cases here : place = first
        · rw [here, if_neg absent, Function.update_self, if_pos List.mem_cons_self]
        · rw [Function.update_of_ne here]
          exact if_congr (by rw [List.mem_cons, or_iff_right here]) rfl rfl
      · intro place member
        have other : place ≠ first := fun same => absent (same ▸ member)
        rw [Function.update_of_ne other]
        exact computes place (List.mem_cons_of_mem first member)

end Places

section Counters

variable {State : Type}

/-- `for (; i < stop; i += step)`, with fuel for the tests. -/
def countedLoop (limit stop step : Nat) (body : Nat → State → Option State) :
    Nat → Nat → State → Option State
  | 0, _, _ => none
  | fuel + 1, i, s =>
    if i < stop then do
      let s ← body i s
      let i ← checked limit (i + step)
      countedLoop limit stop step body fuel i s
    else some s

def blocks (stop step : Nat) : Nat := (stop + step - 1) / step

theorem lt_blocks_iff {stop step m : Nat} (advances : 0 < step) :
    m < blocks stop step ↔ m * step < stop := by
  rw [blocks, ← Nat.succ_le_iff, Nat.le_div_iff_mul_le advances, Nat.succ_mul]
  omega

variable {limit stop step : Nat} {body : Nat → State → Option State}

theorem counted_loop_eq (advances : 0 < step)
    (fits : ∀ m, m * step < stop → m * step + step < limit) {left m fuel : Nat}
    (rest : m + left = blocks stop step) (enough : left < fuel) (s : State) :
    countedLoop limit stop step body fuel (m * step) s =
      (List.range' m left).foldlM (fun s m => body (m * step) s) s := by
  induction fuel generalizing left m s with
  | zero => omega
  | succ fuel ih =>
      rw [countedLoop]
      cases left with
      | zero =>
          have done : ¬ m * step < stop := by
            rw [← lt_blocks_iff advances]
            omega
          rw [if_neg done]
          rfl
      | succ left =>
          have enters : m * step < stop := by
            rw [← lt_blocks_iff advances]
            omega
          rw [if_pos enters, List.range'_succ, List.foldlM_cons, checked_of_lt (fits m enters)]
          apply congrArg (Option.bind (body (m * step) s))
          funext next
          rw [← Nat.succ_mul]
          exact ih (by omega) (by omega) next

theorem counted_loop_visits (advances : 0 < step)
    (fits : ∀ m, m * step < stop → m * step + step < limit) (s : State) :
    countedLoop limit stop step body (blocks stop step + 1) 0 s =
      (List.range (blocks stop step)).foldlM (fun s m => body (m * step) s) s := by
  have visits := @counted_loop_eq _ _ _ _ body advances fits (blocks stop step) 0
    (blocks stop step + 1) (Nat.zero_add _) (Nat.lt_succ_self _) s
  rw [Nat.zero_mul, ← List.range_eq_range'] at visits
  exact visits

/-- A counter that has to pass the limit never stops the loop. -/
theorem counted_loop_overflows (divides : step ∣ limit) (high : limit < stop + step)
    {fuel i : Nat} (below : i < limit) (visited : step ∣ i) (s : State) :
    countedLoop limit stop step body fuel i s = none := by
  induction fuel generalizing i s with
  | zero => rfl
  | succ fuel ih =>
      have room : i + step ≤ limit := by
        obtain ⟨m, visits⟩ := visited
        obtain ⟨last, total⟩ := divides
        subst visits total
        rw [← Nat.mul_succ]
        exact Nat.mul_le_mul_left step (Nat.lt_of_mul_lt_mul_left below)
      rw [countedLoop, if_pos (by omega)]
      cases body i s with
      | none => rfl
      | some next =>
          rw [Option.bind_eq_bind, Option.bind_some]
          by_cases fits : i + step < limit
          · rw [checked_of_lt fits]
            exact ih fits (Nat.dvd_add visited (Nat.dvd_refl step)) next
          · rw [checked, if_neg fits]
            rfl

theorem foldlM_product {Row Column : Type} (rows : List Row) (columns : List Column)
    (step : State → Row → Column → Option State) (s : State) :
    rows.foldlM (fun s i => columns.foldlM (fun s j => step s i j) s) s =
      (rows ×ˢ columns).foldlM (fun s place => step s place.1 place.2) s := by
  induction rows generalizing s with
  | nil => rfl
  | cons row rows ih =>
      rw [List.foldlM_cons, List.product_cons, List.foldlM_append, List.foldlM_map]
      exact congrArg _ (funext ih)

end Counters

end Finm327.Library.CheckedLoops
