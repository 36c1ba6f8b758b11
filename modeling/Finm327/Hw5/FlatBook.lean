import Mathlib.Order.Bounds.Basic
import Finm327.Library.Scans
import Finm327.Hw5.OrderBook

/-!
# The indexed book against the linear scan

Transcribes `FlatBook` of `hw5/part4_orderbook.cpp`, which keeps the orders by id only and
scans them for the best price, with 0 for none seen yet. An `add` under a live id changes
neither book's orders, but the indexed one queues the id a second time. The extra entry stays
when the order is cancelled, so the books agree for good exactly as long as no live id is added.
-/

namespace Finm327.Hw5.Books

open Finm327.Library.LevelQueues
open Finm327.Library.Maps
open Finm327.Library.Runs
open Finm327.Library.Scans

universe u

structure FlatBook (PriceT : Type u) where
  byId : KeyMap UInt32 (Order PriceT)

namespace FlatBook

variable {PriceT : Type u} [LinearOrder PriceT]

def add (id : UInt32) (price : PriceT) (qty : UInt32) (side : Char) (book : FlatBook PriceT) :
    FlatBook PriceT :=
  ⟨emplace id ⟨id, price, qty, side⟩ book.byId⟩

def modify (id : UInt32) (newQty : UInt32) (book : FlatBook PriceT) : FlatBook PriceT × Bool :=
  match book.byId.lookup id with
  | none => (book, false)
  | some order => (⟨book.byId.insert id { order with qty := newQty }⟩, true)

/-- `by_id_.erase(id) > 0`. -/
def cancel (id : UInt32) (book : FlatBook PriceT) : FlatBook PriceT × Bool :=
  (⟨book.byId.erase id⟩, (book.byId.lookup id).isSome)

/-- The stored orders, which the hash map yields in an order of its own. -/
def orders (book : FlatBook PriceT) : List (Order PriceT) := book.byId.entries.map Sigma.snd

/-- `best_bid`, over the orders as the loop meets them. -/
def bestBid [Zero PriceT] (met : List (Order PriceT)) : PriceT :=
  met.foldl (fun best order =>
    if order.side = 'B' ∧ best < order.price then order.price else best) 0

def bestAsk [Zero PriceT] (met : List (Order PriceT)) : PriceT :=
  met.foldl (fun best order =>
    if order.side = 'S' ∧ (best = 0 ∨ order.price < best) then order.price else best) 0

def step (book : FlatBook PriceT) : BookOp PriceT → Option (FlatBook PriceT × Option Bool)
  | .add id price qty side => some (book.add id price qty side, none)
  | .modify id newQty => some ((book.modify id newQty).1, some (book.modify id newQty).2)
  | .cancel id => some ((book.cancel id).1, some (book.cancel id).2)

omit [LinearOrder PriceT] in
theorem step_by_id {book after : FlatBook PriceT} {op : BookOp PriceT} {answer : Option Bool}
    (next : book.step op = some (after, answer)) :
    after.byId = op.edit book.byId ∧ answer = op.answer book.byId := by
  cases op with
  | add id price qty side =>
      cases next
      exact ⟨rfl, rfl⟩
  | modify id newQty =>
      cases next
      unfold modify BookOp.edit BookOp.answer
      dsimp only
      cases book.byId.lookup id with
      | none => exact ⟨rfl, rfl⟩
      | some order => exact ⟨rfl, rfl⟩
  | cancel id =>
      cases next
      exact ⟨rfl, rfl⟩

section Best

variable [Zero PriceT] {met : List (Order PriceT)}

def priceOn (side : Char) (order : Order PriceT) : Option PriceT :=
  if order.side = side then some order.price else none

omit [LinearOrder PriceT] [Zero PriceT] in
theorem price_on_eq_some {side : Char} {order : Order PriceT} {price : PriceT} :
    priceOn side order = some price ↔ order.side = side ∧ order.price = price := by
  unfold priceOn
  split_ifs with own
  · rw [Option.some.injEq]
    exact ⟨fun equal => ⟨own, equal⟩, fun both => both.2⟩
  · exact ⟨fun contrary => (by cases contrary), fun both => absurd both.1 own⟩

theorem best_ask_eq : bestAsk met = sentinelScan (priceOn 'S') 0 met := by
  unfold bestAsk sentinelScan priceOn
  congr 1
  funext best order
  by_cases sells : order.side = 'S'
  · rw [if_pos sells]
    dsimp only
    rw [if_congr (and_iff_right sells) rfl rfl]
  · rw [if_neg sells, if_neg (fun both => sells both.1)]

/-- A bid above 0 is above the reserved price, so the missing test for it does not matter. -/
theorem best_bid_eq (positive : ∀ order ∈ met, 0 < order.price) :
    bestBid met = @sentinelScan _ PriceT (descending PriceT) (priceOn 'B') 0 met := by
  unfold bestBid sentinelScan
  apply List.foldl_ext
  intro best order member
  unfold priceOn
  by_cases buys : order.side = 'B'
  · rw [if_pos buys]
    dsimp only
    have better : best < order.price ↔ best = 0 ∨ best < order.price := by
      constructor
      · exact .inr
      · rintro (rfl | above)
        · exact positive order member
        · exact above
    by_cases above : best < order.price
    · rw [if_pos ⟨buys, above⟩]
      exact (if_pos (better.mp above)).symm
    · rw [if_neg (fun both => above both.2)]
      exact (if_neg (fun either => above (better.mpr either))).symm
  · rw [if_neg buys, if_neg (fun both => buys both.1)]

theorem best_ask_extreme (positive : ∀ order ∈ met, 0 < order.price) :
    OrderBook.ExtremeOrZero IsLeast {price | ∃ order ∈ met, order.side = 'S' ∧ order.price = price}
      (bestAsk met) := by
  have apart : ∀ order ∈ met, priceOn 'S' order ≠ some 0 := by
    intro order member equal
    exact absurd (price_on_eq_some.mp equal).2 (ne_of_gt (positive order member))
  rw [best_ask_eq, sentinel_scan_eq apart]
  cases found : scan (priceOn 'S') met with
  | none =>
      refine .inl ⟨Set.eq_empty_iff_forall_notMem.mpr ?_, rfl⟩
      rintro price ⟨order, member, own⟩
      have weightless := scan_eq_none_iff.mp found order member
      rw [price_on_eq_some.mpr own] at weightless
      cases weightless
  | some best =>
      obtain ⟨order, price⟩ := best
      have least := scan_least found
      refine .inr ⟨⟨order, least.member, price_on_eq_some.mp least.weighs⟩, ?_⟩
      rintro other ⟨order, member, own⟩
      exact least.bound order member other (price_on_eq_some.mpr own)

theorem best_bid_extreme (positive : ∀ order ∈ met, 0 < order.price) :
    OrderBook.ExtremeOrZero IsGreatest
      {price | ∃ order ∈ met, order.side = 'B' ∧ order.price = price} (bestBid met) := by
  have apart : ∀ order ∈ met, priceOn 'B' order ≠ some 0 := by
    intro order member equal
    exact absurd (price_on_eq_some.mp equal).2 (ne_of_gt (positive order member))
  rw [best_bid_eq positive, @sentinel_scan_eq _ PriceT (descending PriceT) _ _ _ apart]
  cases found : @scan _ PriceT (descending PriceT) (priceOn 'B') met with
  | none =>
      refine .inl ⟨Set.eq_empty_iff_forall_notMem.mpr ?_, rfl⟩
      rintro price ⟨order, member, own⟩
      have weightless := (@scan_eq_none_iff _ PriceT (descending PriceT) _ _).mp found order member
      rw [price_on_eq_some.mpr own] at weightless
      cases weightless
  | some best =>
      obtain ⟨order, price⟩ := best
      have greatest := descending_scan_greatest found
      refine .inr ⟨⟨order, greatest.1, price_on_eq_some.mp greatest.2.1⟩, ?_⟩
      rintro other ⟨order, member, own⟩
      exact greatest.2.2 order member other (price_on_eq_some.mpr own)

end Best

end FlatBook

end Finm327.Hw5.Books
