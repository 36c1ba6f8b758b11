import Mathlib.Order.Lattice
import Finm327.Library.Maps

/-!
# Ordered maps that are searched by comparison

A `std::map` with the order of its keys asks only whether one key is less than another, and
a search ends at the first key that is not less than the wanted one. In a linear order that
is the wanted key itself or none. With a value that compares with nothing, as NaN does, the
search ends at the first key of the map, whatever it is. An iterator is the key that it
points at.
-/

namespace Finm327.Library.Comparisons

open Finm327.Library.Maps

universe u v

/-- Numbers as a program compares them. -/
class Compares (Number : Type u) where
  less : Number → Number → Bool
  equals : Number → Number → Bool
  less_irrefl : ∀ a, less a a = false
  eq_of_equals : ∀ a b, equals a b = true → a = b

instance {Number : Type u} [LinearOrder Number] : Compares Number where
  less := fun a b => decide (a < b)
  equals := fun a b => decide (a = b)
  less_irrefl := fun a => decide_eq_false (lt_irrefl a)
  eq_of_equals := fun _ _ same => of_decide_eq_true same

/-- The numbers and one more value that is neither less nor greater than any, nor equal to
itself. -/
inductive WithNaN (Number : Type u)
  | nan
  | number (a : Number)
deriving DecidableEq, Repr

namespace WithNaN

variable {Number : Type u} [LinearOrder Number]

instance : LT (WithNaN Number) where
  lt
    | number a, number b => a < b
    | _, _ => False

instance : ∀ a b : WithNaN Number, Decidable (a < b)
  | number a, number b => inferInstanceAs (Decidable (a < b))
  | nan, nan => .isFalse id
  | nan, number _ => .isFalse id
  | number _, nan => .isFalse id

instance : LE (WithNaN Number) where
  le
    | number a, number b => a ≤ b
    | _, _ => False

instance : ∀ a b : WithNaN Number, Decidable (a ≤ b)
  | number a, number b => inferInstanceAs (Decidable (a ≤ b))
  | nan, nan => .isFalse id
  | nan, number _ => .isFalse id
  | number _, nan => .isFalse id

instance [Inhabited Number] : Inhabited (WithNaN Number) := ⟨number default⟩

def equals : WithNaN Number → WithNaN Number → Bool
  | number a, number b => decide (a = b)
  | _, _ => false

instance : Compares (WithNaN Number) where
  less := fun a b => decide (a < b)
  equals := equals
  less_irrefl
    | nan => rfl
    | number a => decide_eq_false (lt_irrefl a)
  eq_of_equals
    | number _, number _, same => congrArg number (of_decide_eq_true same)

end WithNaN

section Search

variable {Number : Type u} {Value : Type v} [Compares Number]

/-- The first key that is not less than the wanted one. -/
def lowerBound (key : Number) (m : KeyMap Number Value) : Option Number :=
  m.keys.find? fun first => !Compares.less first key &&
    m.keys.all fun other => Compares.less other key || !Compares.less other first

def find (key : Number) (m : KeyMap Number Value) : Option Number :=
  (lowerBound key m).filter fun first => !Compares.less key first

/-- Where `m[key]` and `try_emplace` find the entry or make it. -/
def place (key : Number) (m : KeyMap Number Value) : Number := (find key m).getD key

variable {key first : Number} {m : KeyMap Number Value}

theorem mem_of_find (found : find key m = some first) : first ∈ m := by
  obtain ⟨bound, _⟩ := Option.filter_eq_some_iff.mp found
  exact AList.mem_keys.mpr (List.mem_of_find?_eq_some bound)

/-- The key that a search ends at is not apart from the wanted one. -/
theorem not_less_of_find (found : find key m = some first) :
    Compares.less first key = false ∧ Compares.less key first = false := by
  obtain ⟨bound, notGreater⟩ := Option.filter_eq_some_iff.mp found
  have passes := List.find?_some bound
  rw [Bool.and_eq_true] at passes
  exact ⟨(Bool.not_eq_true' _).mp passes.1, (Bool.not_eq_true' _).mp notGreater⟩

theorem find_isSome (present : key ∈ m) : (find key m).isSome = true := by
  have candidate : (!Compares.less key key && m.keys.all fun other =>
      Compares.less other key || !Compares.less other key) = true := by
    simp [Compares.less_irrefl]
  have some : (lowerBound key m).isSome = true :=
    List.find?_isSome.mpr ⟨key, AList.mem_keys.mp present, candidate⟩
  obtain ⟨first, bound⟩ := Option.isSome_iff_exists.mp some
  have passes := List.find?_some bound
  rw [Bool.and_eq_true, List.all_eq_true] at passes
  have least := passes.2 key (AList.mem_keys.mp present)
  rw [Compares.less_irrefl, Bool.false_or] at least
  rw [find, bound, Option.filter_some, if_pos least]
  rfl

end Search

section LinearOrder

variable {Number : Type u} {Value : Type v} [LinearOrder Number] {key : Number}
  {m : KeyMap Number Value}

/-- In a linear order a search finds the key itself. -/
theorem find_eq (key : Number) (m : KeyMap Number Value) :
    find key m = if key ∈ m then some key else none := by
  cases found : find key m with
  | some first =>
      obtain ⟨notLess, notGreater⟩ := not_less_of_find found
      have same : first = key :=
        le_antisymm (le_of_not_gt (of_decide_eq_false notGreater))
          (le_of_not_gt (of_decide_eq_false notLess))
      rw [if_pos (same ▸ mem_of_find found), same]
  | none =>
      rw [if_neg]
      intro present
      have finds := find_isSome present
      rw [found] at finds
      cases finds

theorem place_eq (key : Number) (m : KeyMap Number Value) : place key m = key := by
  rw [place, find_eq]
  split_ifs
  · rfl
  · rfl

end LinearOrder

end Finm327.Library.Comparisons
