import Mathlib.Data.List.Induction
import Mathlib.Data.List.Perm.Basic
import Mathlib.Order.Lattice

/-!
# Scans for a least item

A scan reads a list once and keeps the first item whose weight no later one is below. Items
without a weight are passed over. The weight it finds does not depend on the order of the
list, and any item of least weight can be the one it finds.
-/

namespace Finm327.Library.Scans

universe u v

variable {Item : Type u} {Key : Type v} [LinearOrder Key]

def pick (weigh : Item → Option Key) (best : Option (Item × Key)) (x : Item) :
    Option (Item × Key) :=
  match weigh x, best with
  | none, best => best
  | some k, none => some (x, k)
  | some k, some (y, l) => if k < l then some (x, k) else some (y, l)

def scan (weigh : Item → Option Key) (xs : List Item) : Option (Item × Key) :=
  xs.foldl (pick weigh) none

/-- The item has the weight, and no item of the list a smaller one. -/
structure Least (weigh : Item → Option Key) (xs : List Item) (x : Item) (k : Key) : Prop where
  member : x ∈ xs
  weighs : weigh x = some k
  bound : ∀ y ∈ xs, ∀ l, weigh y = some l → k ≤ l

variable {weigh : Item → Option Key} {xs ys : List Item} {x : Item} {k : Key}

theorem scan_append_singleton (xs : List Item) (x : Item) :
    scan weigh (xs ++ [x]) = pick weigh (scan weigh xs) x := by
  rw [scan, List.foldl_append]
  rfl

theorem pick_none (weightless : weigh x = none) (best : Option (Item × Key)) :
    pick weigh best x = best := by
  unfold pick
  rw [weightless]

theorem scan_eq_none_iff : scan weigh xs = none ↔ ∀ x ∈ xs, weigh x = none := by
  induction xs using List.reverseRecOn with
  | nil => exact ⟨fun _ _ contrary => absurd contrary List.not_mem_nil, fun _ => rfl⟩
  | append_singleton xs x ih =>
      rw [scan_append_singleton]
      cases weight : weigh x with
      | none =>
          rw [pick_none weight, ih]
          constructor
          · intro before y member
            rcases List.mem_append.mp member with earlier | last
            · exact before y earlier
            · rw [List.mem_singleton.mp last]
              exact weight
          · exact fun all y member => all y (List.mem_append_left _ member)
      | some k =>
          constructor
          · intro found
            unfold pick at found
            rw [weight] at found
            cases best : scan weigh xs with
            | none =>
                rw [best] at found
                cases found
            | some before =>
                rw [best] at found
                dsimp only at found
                split_ifs at found
          · intro all
            rw [all x (List.mem_append_right _ List.mem_cons_self)] at weight
            cases weight

theorem scan_least (found : scan weigh xs = some (x, k)) : Least weigh xs x k := by
  induction xs using List.reverseRecOn generalizing x k with
  | nil => cases found
  | append_singleton xs z ih =>
      rw [scan_append_singleton] at found
      cases weight : weigh z with
      | none =>
          rw [pick_none weight] at found
          have before := ih found
          refine ⟨List.mem_append_left _ before.member, before.weighs, ?_⟩
          intro y member l weighs
          rcases List.mem_append.mp member with earlier | last
          · exact before.bound y earlier l weighs
          · rw [List.mem_singleton.mp last, weight] at weighs
            cases weighs
      | some own =>
          unfold pick at found
          rw [weight] at found
          cases best : scan weigh xs with
          | none =>
              rw [best] at found
              cases found
              refine ⟨List.mem_append_right _ List.mem_cons_self, weight, ?_⟩
              intro y member l weighs
              rcases List.mem_append.mp member with earlier | last
              · rw [scan_eq_none_iff.mp best y earlier] at weighs
                cases weighs
              · rw [List.mem_singleton.mp last, weight] at weighs
                exact (Option.some.inj weighs).le
          | some old =>
              obtain ⟨y, l⟩ := old
              have before := ih best
              rw [best] at found
              dsimp only at found
              split_ifs at found with smaller
              · cases found
                refine ⟨List.mem_append_right _ List.mem_cons_self, weight, ?_⟩
                intro y' member l' weighs
                rcases List.mem_append.mp member with earlier | last
                · exact smaller.le.trans (before.bound y' earlier l' weighs)
                · rw [List.mem_singleton.mp last, weight] at weighs
                  exact (Option.some.inj weighs).le
              · cases found
                refine ⟨List.mem_append_left _ before.member, before.weighs, ?_⟩
                intro y' member l' weighs
                rcases List.mem_append.mp member with earlier | last
                · exact before.bound y' earlier l' weighs
                · rw [List.mem_singleton.mp last, weight] at weighs
                  rw [← Option.some.inj weighs]
                  exact not_lt.mp smaller

/-- A least item at the front is found. -/
theorem scan_front (least : Least weigh (x :: xs) x k) : scan weigh (x :: xs) = some (x, k) := by
  induction xs using List.reverseRecOn with
  | nil =>
      rw [scan, List.foldl_cons, List.foldl_nil]
      unfold pick
      rw [least.weighs]
  | append_singleton xs z ih =>
      have before : Least weigh (x :: xs) x k := by
        refine ⟨List.mem_cons_self, least.weighs, ?_⟩
        intro y member
        exact least.bound y (List.mem_append_left [z] member)
      rw [← List.cons_append, scan_append_singleton, ih before]
      cases weight : weigh z with
      | none => exact pick_none weight _
      | some own =>
          unfold pick
          rw [weight]
          dsimp only
          rw [if_neg]
          exact not_lt.mpr (least.bound z
            (List.mem_cons_of_mem x (List.mem_append_right xs List.mem_cons_self)) own weight)

theorem Least.perm (least : Least weigh xs x k) (same : ys.Perm xs) : Least weigh ys x k :=
  ⟨same.mem_iff.mpr least.member, least.weighs,
    fun y member => least.bound y (same.mem_iff.mp member)⟩

theorem Least.unique {y : Item} {l : Key} (least : Least weigh xs x k)
    (other : Least weigh xs y l) : k = l :=
  le_antisymm (least.bound y other.member l other.weighs) (other.bound x least.member k least.weighs)

/-- Some order of the list makes the scan find a given least item. -/
theorem exists_perm_scan (least : Least weigh xs x k) :
    ∃ ys, ys.Perm xs ∧ scan weigh ys = some (x, k) := by
  obtain ⟨before, after, rfl⟩ := List.append_of_mem least.member
  have same : (x :: (before ++ after)).Perm (before ++ x :: after) := List.perm_middle.symm
  exact ⟨_, same, scan_front (least.perm same)⟩

/-- The order under which a scan finds a greatest weight. -/
@[reducible] def descending (Key : Type v) [LinearOrder Key] : LinearOrder Key :=
  OrderDual.instLinearOrder Key

theorem descending_scan_greatest (found : @scan _ Key (descending Key) weigh xs = some (x, k)) :
    x ∈ xs ∧ weigh x = some k ∧ ∀ y ∈ xs, ∀ l, weigh y = some l → l ≤ k := by
  have least := @scan_least _ Key (descending Key) _ _ _ _ found
  cases least with
  | mk member weighs bound => exact ⟨member, weighs, bound⟩

/-- A scan that keeps the weight alone, with a reserved one for nothing found yet. -/
def sentinelScan (weigh : Item → Option Key) (nothing : Key) (xs : List Item) : Key :=
  xs.foldl (fun best x =>
    match weigh x with
    | none => best
    | some k => if best = nothing ∨ k < best then k else best) nothing

theorem sentinel_scan_append_singleton (nothing : Key) (xs : List Item) (x : Item) :
    sentinelScan weigh nothing (xs ++ [x]) =
      match weigh x with
      | none => sentinelScan weigh nothing xs
      | some k =>
          if sentinelScan weigh nothing xs = nothing ∨ k < sentinelScan weigh nothing xs then k
          else sentinelScan weigh nothing xs := by
  rw [sentinelScan, List.foldl_append]
  rfl

/-- The reserved weight does no harm where no item has it. -/
theorem sentinel_scan_eq {nothing : Key} (apart : ∀ x ∈ xs, weigh x ≠ some nothing) :
    sentinelScan weigh nothing xs = (scan weigh xs).elim nothing Prod.snd := by
  induction xs using List.reverseRecOn with
  | nil => rfl
  | append_singleton xs x ih =>
      have before := ih (fun y member => apart y (List.mem_append_left [x] member))
      rw [sentinel_scan_append_singleton, scan_append_singleton, before]
      unfold pick
      cases weight : weigh x with
      | none => rfl
      | some k =>
          cases found : scan weigh xs with
          | none => exact if_pos (.inl rfl)
          | some best =>
              obtain ⟨y, l⟩ := best
              have least := scan_least found
              have different : l ≠ nothing := by
                intro equal
                apply apart y (List.mem_append_left [x] least.member)
                rw [least.weighs, equal]
              dsimp only
              by_cases smaller : k < l
              · rw [if_pos smaller]
                exact if_pos (.inr smaller)
              · rw [if_neg smaller]
                exact if_neg (fun either => Or.elim either different smaller)

end Finm327.Library.Scans
