import Mathlib.Order.Lattice
import Finm327.Phase4.MatchingEngine

/-!
# What both books have in common

A lawful book is, side by side, a sequence of keyed queues on which the
template members act as the level operations. Everything about `submit` that
does not depend on the order of prices is proved once against these laws and
holds for `OrderBook` and `FlatOrderBook` alike.
-/

namespace Finm327.Phase4

open Finm327.Library
open Finm327.Library.LevelQueues

universe u v

variable {PriceT : Type u} {Book : Type v}

class LawfulBook (Book : Type v) {PriceT : outParam (Type u)} [BookT Book PriceT] where
  levels : Book → Side → List (Level PriceT OrderPtr)
  ahead : Side → PriceT → PriceT → Bool
  same : Side → PriceT → PriceT → Bool
  levels_empty_book : ∀ s, levels BookT.emptyBook s = []
  levels_add : ∀ (heap : Heap PriceT) (o : OrderPtr) (book : Book) (s : Side),
    levels (BookT.add heap o book) s =
      if s = (heap o).side then pushBack (ahead s) (same s) (heap o).price o (levels book s)
      else levels book s
  levels_prune_front : ∀ (heap : Heap PriceT) (s t : Side) (book : Book),
    levels (BookT.pruneFront heap s book) t =
      if t = s then LevelQueues.pruneFront heap.live (levels book t) else levels book t
  levels_pop_best : ∀ (s t : Side) (book : Book),
    levels (BookT.popBest s book) t = if t = s then popFront (levels book t) else levels book t
  empty_eq : ∀ (book : Book) (s : Side), BookT.empty book s = (levels book s).isEmpty
  best_eq : ∀ (book : Book) (s : Side), BookT.best book s = front (levels book s)
  depth_eq : ∀ (book : Book) (s : Side), BookT.depth book s = (levels book s).length

/-- Better prices stand in front: higher bids, lower asks. -/
def betterPrice [LT PriceT] [DecidableLT PriceT] (s : Side) : PriceT → PriceT → Bool :=
  if s = .buy then greater else less

section Instances

variable [LT PriceT] [DecidableLT PriceT]

instance : LawfulBook (OrderBook PriceT) where
  levels book s := if s = .buy then book.bids else book.asks
  ahead := betterPrice
  same s a b := !betterPrice s b a
  levels_empty_book s := by cases s <;> rfl
  levels_add heap o book s := by
    simp only [BookT.add, OrderBook.add, mapPushBack]
    cases side : (heap o).side <;> cases s <;> simp [betterPrice]
  levels_prune_front heap s t book := by cases s <;> cases t <;> rfl
  levels_pop_best s t book := by cases s <;> cases t <;> rfl
  empty_eq book s := by cases s <;> rfl
  best_eq book s := by cases s <;> rfl
  depth_eq book s := by cases s <;> rfl

instance [BEq PriceT] : LawfulBook (FlatOrderBook PriceT) where
  levels := FlatOrderBook.side
  ahead := betterPrice
  same _ a b := a == b
  levels_empty_book s := by cases s <;> rfl
  levels_add heap o book s := by
    simp only [BookT.add, FlatOrderBook.add, FlatOrderBook.side]
    cases side : (heap o).side <;> cases s <;> simp [betterPrice]
  levels_prune_front heap s t book := by cases s <;> cases t <;> rfl
  levels_pop_best s t book := by cases s <;> cases t <;> rfl
  empty_eq book s := rfl
  best_eq book s := rfl
  depth_eq book s := rfl

end Instances

section Linear

variable [LinearOrder PriceT]

theorem better_price_iff (s : Side) (a b : PriceT) :
    betterPrice s a b = true ↔ if s = .buy then b < a else a < b := by
  cases s <;> simp [betterPrice, greater, less]

/-- With linearly ordered prices the comparators of both books order the
levels, and an existing level is joined exactly when its price is equal. -/
theorem key_order_of_same_iff (s : Side) (same : PriceT → PriceT → Bool)
    (sameIff : ∀ a b, betterPrice s a b = false → (same a b = true ↔ a = b)) :
    KeyOrder (betterPrice s) same where
  irrefl a := by cases s <;> simp [betterPrice, greater, less]
  trans a b c first second := by
    rw [better_price_iff] at *
    cases s
    · exact second.trans first
    · exact first.trans second
  total a b := by
    rw [better_price_iff, better_price_iff]
    cases s
    · rcases lt_trichotomy a b with below | equal | above
      · exact .inr (.inr below)
      · exact .inr (.inl equal)
      · exact .inl above
    · exact lt_trichotomy a b
  same_iff := sameIff

theorem map_key_order (s : Side) :
    KeyOrder (betterPrice s) (fun a b : PriceT => !betterPrice s b a) := by
  apply key_order_of_same_iff
  intro a b notAhead
  cases s <;> simp only [betterPrice, greater, less, if_true, reduceCtorEq, if_false,
    decide_eq_false_iff_not, not_lt, gt_iff_lt, Bool.not_eq_true', decide_eq_false_iff_not,
    not_lt] at notAhead ⊢
  · exact ⟨fun le => le_antisymm notAhead le, fun equal => equal.ge⟩
  · exact ⟨fun le => le_antisymm le notAhead, fun equal => equal.le⟩

theorem flat_key_order (s : Side) :
    KeyOrder (betterPrice s) (fun a b : PriceT => a == b) := by
  apply key_order_of_same_iff
  intro a b _
  exact beq_iff_eq

end Linear

end Finm327.Phase4
