import Mathlib.Algebra.BigOperators.Group.List.Basic
import Mathlib.Algebra.BigOperators.Pi
import Finm327.Library.CheckedLoops
import Finm327.Library.Sums

/-!
# Loops over a block of memory

A buffer has a size, and an access beyond it has no result. Two kinds of loops:
one writes each place once, whatever was there; the other adds to what is there,
so that it does not matter in which order and in how many parts.
-/

namespace Finm327.Library.Buffers

open Finm327.Library.CheckedLoops
open Function (update)

structure Buffer (Value : Type) where
  size : Nat
  cells : Nat → Value

variable {Value : Type}

namespace Buffer

def load (b : Buffer Value) (i : Nat) : Option Value :=
  if i < b.size then some (b.cells i) else none

def store (b : Buffer Value) (i : Nat) (value : Value) : Option (Buffer Value) :=
  if i < b.size then some { b with cells := update b.cells i value } else none

/-- The first `count` cells take one value. -/
def fill (b : Buffer Value) (count : Nat) (value : Value) : Option (Buffer Value) :=
  if count ≤ b.size then some { b with cells := fun t => if t < count then value else b.cells t }
  else none

theorem load_of_lt {b : Buffer Value} {i : Nat} (inside : i < b.size) :
    b.load i = some (b.cells i) := if_pos inside

theorem store_of_lt {b : Buffer Value} {i : Nat} (inside : i < b.size) (value : Value) :
    b.store i value = some { b with cells := update b.cells i value } := if_pos inside

end Buffer

section Writes

variable {Place : Type} {position : Place → Nat} {value : Place → Value}
  {body : Buffer Value → Place → Option (Buffer Value)}

/-- A loop that writes each of its places once. -/
theorem foldlM_store {places : List Place} {b : Buffer Value}
    (inside : ∀ place ∈ places, position place < b.size)
    (apart : ∀ place ∈ places, ∀ other ∈ places, position place = position other → place = other)
    (writes : ∀ place ∈ places, ∀ c : Buffer Value, c.size = b.size →
      body c place = c.store (position place) (value place)) :
    ∃ c, places.foldlM body b = some c ∧ c.size = b.size ∧
      (∀ place ∈ places, c.cells (position place) = value place) ∧
      ∀ t, (∀ place ∈ places, position place ≠ t) → c.cells t = b.cells t := by
  induction places generalizing b with
  | nil => exact ⟨b, rfl, rfl, fun _ member => (by cases member), fun _ _ => rfl⟩
  | cons first places ih =>
      have here := inside first List.mem_cons_self
      rw [List.foldlM_cons, writes first List.mem_cons_self b rfl, Buffer.store_of_lt here,
        Option.bind_eq_bind, Option.bind_some]
      obtain ⟨c, ran, size, written, kept⟩ :=
        @ih { b with cells := update b.cells (position first) (value first) }
          (fun place member => inside place (List.mem_cons_of_mem _ member))
          (fun place member other memberToo =>
            apart place (List.mem_cons_of_mem _ member) other (List.mem_cons_of_mem _ memberToo))
          (fun place member => writes place (List.mem_cons_of_mem _ member))
      refine ⟨c, ran, size, ?_, ?_⟩
      · intro place member
        by_cases later : place ∈ places
        · exact written place later
        · have same := (List.mem_cons.mp member).resolve_right later
          rw [same, kept]
          · exact Function.update_self _ _ _
          · intro other memberToo equal
            have again := apart other (List.mem_cons_of_mem _ memberToo) first
              List.mem_cons_self equal
            exact later (same ▸ again ▸ memberToo)
      · intro t away
        rw [kept t fun place member => away place (List.mem_cons_of_mem _ member)]
        exact Function.update_of_ne (Ne.symm (away first List.mem_cons_self)) _ _

end Writes

/-- Nested loops that write the places of a matrix, each once. -/
theorem loops_store {rows cols : Nat} {b : Buffer Value} {position : Nat → Nat → Nat}
    {value : Nat → Nat → Value} {body : Buffer Value → Nat → Nat → Option (Buffer Value)}
    (inside : ∀ i j, i < rows → j < cols → position i j < b.size)
    (apart : ∀ i j row column, i < rows → j < cols → row < rows → column < cols →
      position i j = position row column → i = row ∧ j = column)
    (writes : ∀ i j, i < rows → j < cols → ∀ c : Buffer Value, c.size = b.size →
      body c i j = c.store (position i j) (value i j)) :
    ∃ c, (List.range rows).foldlM (fun c i => (List.range cols).foldlM (fun c j => body c i j) c) b =
        some c ∧ c.size = b.size ∧
      ∀ i j, i < rows → j < cols → c.cells (position i j) = value i j := by
  have bounds : ∀ place ∈ List.range rows ×ˢ List.range cols,
      place.1 < rows ∧ place.2 < cols := by
    intro place member
    obtain ⟨row, column⟩ := List.mem_product.mp member
    exact ⟨List.mem_range.mp row, List.mem_range.mp column⟩
  obtain ⟨c, ran, size, written, _⟩ :=
    @foldlM_store Value (Nat × Nat) (fun place => position place.1 place.2)
      (fun place => value place.1 place.2) (fun c place => body c place.1 place.2)
      (List.range rows ×ˢ List.range cols) b
      (fun place member => inside _ _ (bounds place member).1 (bounds place member).2)
      (fun place member other memberToo same => by
        have both := apart _ _ _ _ (bounds place member).1 (bounds place member).2
          (bounds other memberToo).1 (bounds other memberToo).2 same
        exact Prod.ext both.1 both.2)
      (fun place member => writes _ _ (bounds place member).1 (bounds place member).2)
  refine ⟨c, ?_, size, ?_⟩
  · rw [foldlM_product]
    exact ran
  · intro i j row column
    exact written (i, j)
      (List.mem_product.mpr ⟨List.mem_range.mpr row, List.mem_range.mpr column⟩)

section Adds

variable [AddCommMonoid Value]

def Buffer.plus (b : Buffer Value) (amount : Nat → Value) : Buffer Value :=
  { b with cells := b.cells + amount }

/-- On a buffer of this size the step adds the amount, cell by cell. -/
def Adds (size : Nat) (body : Buffer Value → Option (Buffer Value)) (amount : Nat → Value) : Prop :=
  ∀ b, b.size = size → body b = some (b.plus amount)

variable {size : Nat}

theorem adds_at {i : Nat} (inside : i < size) (value : Value) :
    Adds size (fun b => do
      let old ← b.load i
      b.store i (old + value)) (Pi.single i value) := by
  intro b same
  subst same
  dsimp only
  rw [Buffer.load_of_lt inside, Option.bind_eq_bind, Option.bind_some, Buffer.store_of_lt inside]
  apply congrArg some
  unfold Buffer.plus
  congr 1
  funext t
  by_cases here : t = i
  · rw [here, Function.update_self, Pi.add_apply, Pi.single_eq_same]
  · rw [Function.update_of_ne here, Pi.add_apply, Pi.single_eq_of_ne here, add_zero]

variable {Place : Type} {amount : Place → Nat → Value}
  {body : Buffer Value → Place → Option (Buffer Value)}

theorem adds_foldlM {places : List Place}
    (each : ∀ place ∈ places, Adds size (fun b => body b place) (amount place)) :
    Adds size (fun b => places.foldlM body b) (places.map amount).sum := by
  induction places with
  | nil =>
      intro b _
      dsimp only
      rw [List.foldlM_nil, List.map_nil, List.sum_nil, Buffer.plus, add_zero]
      rfl
  | cons first places ih =>
      intro b same
      have now : body b first = some (b.plus (amount first)) :=
        each first List.mem_cons_self b same
      have rest : places.foldlM body (b.plus (amount first)) =
          some ((b.plus (amount first)).plus (places.map amount).sum) :=
        ih (fun place member => each place (List.mem_cons_of_mem _ member))
          (b.plus (amount first)) same
      dsimp only
      rw [List.foldlM_cons, now, Option.bind_eq_bind, Option.bind_some, rest, List.map_cons,
        List.sum_cons, Buffer.plus, Buffer.plus, Buffer.plus, add_assoc]

theorem adds_range {amount : Nat → Nat → Value} {body : Buffer Value → Nat → Option (Buffer Value)}
    {first stop : Nat}
    (each : ∀ i, first ≤ i → i < stop → Adds size (fun b => body b i) (amount i)) :
    Adds size (fun b => (List.range' first (stop - first)).foldlM body b)
      (∑ i ∈ Finset.Ico first stop, amount i) := by
  apply adds_foldlM
  intro i member
  have bounds := List.mem_range'_1.mp member
  exact each i bounds.1 (by omega)

end Adds

end Finm327.Library.Buffers
