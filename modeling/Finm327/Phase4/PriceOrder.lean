import Finm327.Phase4.DeskInvariant

/-!
# Levels in price order

With linearly ordered prices both books keep the levels of a side sorted from
best to worst price and every order at the level of its own price, in every
reachable state. So no queued order has a better price than the one `best`
returns.
-/

namespace Finm327.Phase4

open Finm327.Library
open Finm327.Library.LevelQueues
open Finm327.Library.Runs
open MatchingEngine

universe u v

variable {PriceT : Type u} {Book : Type v} [LinearOrder PriceT]

/-- A book whose comparators are the price comparisons of the two sides. -/
class PriceOrdered (Book : Type v) {PriceT : outParam (Type u)} [LinearOrder PriceT]
    [BookT Book PriceT] [LawfulBook Book] : Prop where
  ahead_eq : ∀ s, @LawfulBook.ahead Book PriceT _ _ s = betterPrice s
  key_order : ∀ s, KeyOrder (betterPrice s) (@LawfulBook.same Book PriceT _ _ s)

instance : PriceOrdered (OrderBook PriceT) where
  ahead_eq _ := rfl
  key_order := map_key_order

instance : PriceOrdered (FlatOrderBook PriceT) where
  ahead_eq _ := rfl
  key_order := flat_key_order

variable [BookT Book PriceT] [LawfulBook Book]

/-- Both sides are sorted by price, and every order is queued at its price. -/
structure BookOrdered (heap : Heap PriceT) (book : Book) : Prop where
  sorted : ∀ s, Sorted (betterPrice s) (LawfulBook.levels book s)
  keyed : ∀ s, Keyed (fun o => (heap o).price) (LawfulBook.levels book s)

section Book

variable {heap later : Heap PriceT} {book : Book}

theorem empty_book_ordered : BookOrdered heap (BookT.emptyBook : Book) where
  sorted := by
    intro s
    rw [LawfulBook.levels_empty_book]
    exact List.Pairwise.nil
  keyed := by
    intro s
    rw [LawfulBook.levels_empty_book]
    intro level member
    exact absurd member List.not_mem_nil

theorem book_ordered_congr (ordered : BookOrdered heap book)
    (prices : ∀ s, ∀ o ∈ queuedOn book s, (later o).price = (heap o).price) :
    BookOrdered later book where
  sorted := ordered.sorted
  keyed := fun s => keyed_congr (ordered.keyed s) (prices s)

theorem prune_front_ordered (ordered : BookOrdered heap book) (s : Side) :
    BookOrdered heap (BookT.pruneFront heap s book) := by
  constructor
  · intro t
    rw [LawfulBook.levels_prune_front]
    split_ifs
    · exact sorted_prune_front (ordered.sorted t)
    · exact ordered.sorted t
  · intro t
    rw [LawfulBook.levels_prune_front]
    split_ifs
    · exact keyed_prune_front (ordered.keyed t)
    · exact ordered.keyed t

theorem add_ordered [PriceOrdered Book] (ordered : BookOrdered heap book) (o : OrderPtr) :
    BookOrdered heap (BookT.add heap o book) := by
  constructor
  · intro s
    rw [LawfulBook.levels_add, PriceOrdered.ahead_eq]
    split_ifs
    · exact sorted_push_back (PriceOrdered.key_order s) (ordered.sorted s)
    · exact ordered.sorted s
  · intro s
    rw [LawfulBook.levels_add, PriceOrdered.ahead_eq]
    split_ifs
    · exact keyed_push_back (PriceOrdered.key_order s) (ordered.keyed s) rfl
    · exact ordered.keyed s

/-- No queued order has a better price than the best one. -/
theorem best_first (ordered : BookOrdered heap book) {s : Side}
    {resting o : OrderPtr}
    (best : BookT.best book s = some resting) (member : o ∈ queuedOn book s) :
    betterPrice s (heap o).price (heap resting).price = false := by
  rw [LawfulBook.best_eq] at best
  have sorted := ordered.sorted s
  have keyed := ordered.keyed s
  rw [queuedOn] at member
  cases shape : LawfulBook.levels book s with
  | nil =>
      rw [shape] at member
      contradiction
  | cons level rest =>
      rw [shape] at best sorted keyed member
      have first : resting ∈ level.queue := List.mem_of_mem_head? best
      have own : (heap resting).price = level.key := keyed level List.mem_cons_self resting first
      rw [own]
      exact foremost_key (map_key_order s) sorted keyed member

end Book

namespace MatchingEngine

omit [BookT Book PriceT] [LawfulBook Book] in
/-- Whatever crosses an order crosses every order that is at least as good. -/
theorem crosses_mono {taker maker other : Order PriceT} (crossing : crosses taker other = true)
    (notBetter : betterPrice taker.side.opp other.price maker.price = false) :
    crosses taker maker = true := by
  rw [← Bool.not_eq_true, better_price_iff] at notBetter
  cases side : taker.side with
  | buy =>
      simp only [crosses, side, if_true, ge_iff_le, decide_eq_true_eq, Side.opp_buy, reduceCtorEq,
        if_false, not_lt] at crossing notBetter ⊢
      exact notBetter.trans crossing
  | sell =>
      simp only [crosses, side, if_true, decide_eq_true_eq, Side.opp_sell, reduceCtorEq,
        if_false, not_lt] at crossing notBetter ⊢
      exact crossing.trans notBetter

theorem trade_ordered {clock : Nat → Int} {tickSeq : UInt64} {tRecvNs : Int}
    {incoming resting : OrderPtr} {m : Matching Book PriceT} (ordered : BookOrdered m.heap m.book)
    (distinct : incoming ≠ resting) :
    BookOrdered (trade clock incoming resting tickSeq tRecvNs m).heap
      (trade clock incoming resting tickSeq tRecvNs m).book := by
  have popped : BookOrdered m.heap (trade clock incoming resting tickSeq tRecvNs m).book := by
    constructor
    · intro t
      rw [levels_trade _ _ _ _ _ _ distinct]
      split_ifs
      · exact sorted_pop_front (ordered.sorted t)
      · exact ordered.sorted t
    · intro t
      rw [levels_trade _ _ _ _ _ _ distinct]
      split_ifs
      · exact keyed_pop_front (ordered.keyed t)
      · exact ordered.keyed t
  apply book_ordered_congr popped
  intro _ o _
  rw [(trade_terms clock incoming resting tickSeq tRecvNs m o).price]

theorem match_loop_ordered {clock : Nat → Int} {tickSeq : UInt64} {tRecvNs : Int}
    {allocated incoming : OrderPtr} {fuel : Nat} {m last : Matching Book PriceT}
    (ran : matchLoop clock incoming tickSeq tRecvNs fuel m = some last)
    (sound : LoopSound allocated m) (ordered : BookOrdered m.heap m.book) :
    BookOrdered last.heap last.book := by
  refine (match_loop_rule
    (fun m => LoopSound allocated m ∧ BookOrdered m.heap m.book) ?_ ?_ ran ⟨sound, ordered⟩).1.2
  · exact fun m holds => ⟨pruned_sound holds.1 _, prune_front_ordered holds.2 _⟩
  · exact fun m resting holds unfilled foremost _ => ⟨trade_sound holds.1 unfilled foremost,
      trade_ordered holds.2 (foremost_ne_incoming holds.1 foremost)⟩

end MatchingEngine

namespace Desk

variable [PriceOrdered Book]

theorem step_ordered {clock : Nat → Int} {desk next : Desk Book PriceT} {op : Op PriceT}
    {reply : Reply PriceT} (sound : DeskSound desk) (ordered : BookOrdered desk.heap desk.book)
    (ran : desk.step clock op = some (next, reply)) : BookOrdered next.heap next.book := by
  cases step_effect ran with
  | place symbol price qty s state =>
      rw [state]
      apply book_ordered_congr ordered
      intro t o queued
      rw [desk.place_heap_old symbol price qty s (sound.book.placed t o queued)]
  | submit incoming tickSeq tRecvNs trades submits =>
      obtain ⟨m, looped, _, rfl⟩ := submit_cases submits
      have after := match_loop_ordered looped (submit_enters sound) ordered
      dsimp only
      split_ifs
      · exact add_ordered after incoming
      · exact after
  | cancel id state =>
      rw [state]
      rcases desk.cancel_cases id with same | ⟨target, _, _, changed⟩
      · rw [same]
        exact ordered
      · rw [changed]
        apply book_ordered_congr ordered
        intro _ o _
        exact (Heap.modify_terms _ _ _ _ mark_cancelled_terms).price
  | reap state =>
      rw [state]
      exact ordered

theorem reachable_ordered [Inhabited PriceT] {clock : Nat → Int}
    {config : Config (Desk Book PriceT) (Op PriceT) (Reply PriceT)}
    (reached : Reachable (step clock) submitPlaced initial config) :
    BookOrdered config.state.heap config.state.book := by
  refine reachable_invariant_of_reachable
    (fun config => BookOrdered config.state.heap config.state.book) ?_ ?_ reached
  · exact empty_book_ordered
  · intro config op next reply earlier ordered _ ran
    exact step_ordered (reachable_sound earlier) ordered ran

end Desk

end Finm327.Phase4
