import Finm327.Phase5.Refinement

/-!
# The two books are equivalent

Both books show the same live orders after the same operations, as long as ids
are new when they are added and the slab has room. Everything a caller can ask
for is a function of the live orders.
-/

namespace Finm327.Phase5

open Finm327.Library
open Finm327.Library.Maps
open Finm327.Library.Runs
open Function (update)

variable {PriceT : Type} [LinearOrder PriceT]

namespace OptimizedOrderBook

/-- The optimized book holds the live orders, one slot for each. -/
structure Shows (book : OptimizedOrderBook PriceT) (capacity : Nat) (live : Live PriceT) :
    Prop where
  sound : ∃ queues, Sound Eq book queues
  counted : book.pool.freeList.length + book.size = capacity
  order : book.order = live

theorem shows_of_refines {book : OptimizedOrderBook PriceT} {capacity : Nat}
    {arrivals : Arrivals PriceT} (refines : Refines Eq book capacity arrivals) :
    Shows book capacity arrivals.live := by
  obtain ⟨queues, sound, follows⟩ := refines.queued
  exact ⟨⟨queues, sound⟩, refines.counted, (follows.live_eq sound).symm⟩

end OptimizedOrderBook

/-- The two books answer every query alike. -/
structure BooksAgree (book : OrderBook PriceT) (optimized : OptimizedOrderBook PriceT) : Prop where
  contains : ∀ id, optimized.contains id = book.contains id
  size : optimized.size = book.size
  levels : optimized.levels = book.levels
  order : ∀ id, optimized.order id = book.orderLookup.lookup id

/-- Adds use ids that are not in the book and leave at most `capacity` orders. -/
def addsFresh (capacity : Nat) (config : Config (OrderBook PriceT) (Op PriceT) Unit) :
    Op PriceT → Prop
  | .addOrder id _ _ _ => config.state.contains id = false ∧ config.state.size < capacity
  | _ => True

instance (capacity : Nat) (config : Config (OrderBook PriceT) (Op PriceT) Unit) :
    ∀ op : Op PriceT, Decidable (addsFresh capacity config op)
  | .addOrder id _ _ _ => inferInstanceAs
      (Decidable (config.state.contains id = false ∧ config.state.size < capacity))
  | .modifyOrder .. => .isTrue trivial
  | .deleteOrder _ => .isTrue trivial

theorem books_agree_of_shows {book : OrderBook PriceT} {optimized : OptimizedOrderBook PriceT}
    {capacity : Nat} {live : Live PriceT} (shows : book.Shows live)
    (optimizedShows : optimized.Shows capacity live) : BooksAgree book optimized := by
  obtain ⟨queues, sound⟩ := optimizedShows.sound
  have members : ∀ id, id ∈ optimized.lookup ↔ id ∈ book.orderLookup := by
    intro id
    rw [OptimizedOrderBook.mem_lookup_iff sound, mem_iff_lookup, optimizedShows.order, shows.lookup]
  have prices : ∀ price, price ∈ optimized.orderLevels ↔ price ∈ book.orderLevels := by
    intro price
    rw [OptimizedOrderBook.mem_levels_iff sound, OrderBook.mem_levels_iff shows,
      optimizedShows.order]
  refine ⟨?_, size_eq_of_mem_iff members, size_eq_of_mem_iff prices, ?_⟩
  · exact fun id => decide_eq_decide.mpr (members id)
  · intro id
    rw [optimizedShows.order, shows.lookup]

omit [LinearOrder PriceT] in
theorem adds_new_of_agree {capacity : Nat} {config : Config (OrderBook PriceT) (Op PriceT) Unit}
    {mirror : Config (OptimizedOrderBook PriceT) (Op PriceT) Unit}
    (agree : BooksAgree config.state mirror.state) {op : Op PriceT}
    (permitted : addsFresh capacity config op) :
    OptimizedOrderBook.addsNew capacity mirror op := by
  cases op with
  | addOrder id price quantity isBuy =>
      have absent : mirror.state.contains id = false := (agree.contains id).trans permitted.1
      have room : mirror.state.size < capacity := agree.size ▸ permitted.2
      exact ⟨absent, room⟩
  | modifyOrder id newPrice newQuantity => exact trivial
  | deleteOrder id => exact trivial

/-- After every operation of every run in which ids are new when added and the
capacity is respected, the optimized book has a result and agrees with the
baseline. -/
theorem books_equivalent {capacity : Nat} {config : Config (OrderBook PriceT) (Op PriceT) Unit}
    (reached : Reachable OrderBook.step (addsFresh capacity) OrderBook.initial config) :
    (∃ mirror : Config (OptimizedOrderBook PriceT) (Op PriceT) Unit,
        Reachable OptimizedOrderBook.step (fun _ _ => True)
          (OptimizedOrderBook.initial capacity) mirror ∧ mirror.ops = config.ops) ∧
      ∀ mirror : Config (OptimizedOrderBook PriceT) (Op PriceT) Unit,
        Reachable OptimizedOrderBook.step (fun _ _ => True)
          (OptimizedOrderBook.initial capacity) mirror → mirror.ops = config.ops →
          BooksAgree config.state mirror.state := by
  apply reachable_forall_of_exists
  have simulated : ∃ mirror : Config (OptimizedOrderBook PriceT) (Op PriceT) Unit,
      Reachable OptimizedOrderBook.step (fun _ _ => True)
        (OptimizedOrderBook.initial capacity) mirror ∧ mirror.ops = config.ops ∧
        ∃ arrivals, config.state.Shows (Arrivals.live arrivals) ∧
          mirror.state.Refines Eq capacity arrivals := by
    refine reachable_simulation (fun config mirror => mirror.ops = config.ops ∧
      ∃ arrivals, config.state.Shows (Arrivals.live arrivals) ∧
        OptimizedOrderBook.Refines Eq mirror.state capacity arrivals) ?_ ?_ reached
    · exact ⟨rfl, [], OrderBook.initial_shows, OptimizedOrderBook.initial_refines capacity⟩
    · intro config mirror op next _ ⟨ops, arrivals, shows, refines⟩ permitted ran
      have agree := books_agree_of_shows shows (OptimizedOrderBook.shows_of_refines refines)
      have mirrored := adds_new_of_agree agree permitted
      have fresh : ∀ id price quantity isBuy, op = .addOrder id price quantity isBuy →
          arrivals.live id = none := by
        rintro id price quantity isBuy rfl
        rw [← shows.lookup, AList.lookup_eq_none]
        exact of_decide_eq_false permitted.1
      obtain ⟨image, ranImage, imageRefines⟩ := OptimizedOrderBook.step_refines
        OptimizedOrderBook.places_own_price refines mirrored
      refine ⟨image, (), trivial, ranImage, ?_, _, ?_, imageRefines⟩
      · rw [Config.push_ops, Config.push_ops, ops]
      · rw [Config.push_state, Arrivals.live_step fresh]
        exact OrderBook.step_shows shows fresh ran
  obtain ⟨mirror, mirrorReached, ops, arrivals, shows, refines⟩ := simulated
  exact ⟨mirror, mirrorReached, ops,
    books_agree_of_shows shows (OptimizedOrderBook.shows_of_refines refines)⟩

def sampleOps : List (Op Int) :=
  [.addOrder "A" 10 5 true, .addOrder "B" 10 6 true, .modifyOrder "A" 11 7, .modifyOrder "B" 10 8,
    .deleteOrder "B", .deleteOrder "X", .addOrder "B" 11 9 false]

theorem books_equivalent_sample :
    ∃ (config : Config (OrderBook Int) (Op Int) Unit)
      (mirror : Config (OptimizedOrderBook Int) (Op Int) Unit),
      execute OrderBook.step (addsFresh 2) (.start OrderBook.initial) sampleOps = some config ∧
        Reachable OptimizedOrderBook.step (fun _ _ => True)
          (OptimizedOrderBook.initial 2) mirror ∧ mirror.ops = config.ops ∧
        BooksAgree config.state mirror.state := by
  have completes : (execute OrderBook.step (addsFresh 2)
      (.start (OrderBook.initial : OrderBook Int)) sampleOps).isSome = true := by
    decide
  obtain ⟨config, ran⟩ := Option.isSome_iff_exists.mp completes
  obtain ⟨⟨mirror, mirrorReached, ops⟩, agree⟩ := books_equivalent (reachable_of_execute ran)
  exact ⟨config, mirror, ran, mirrorReached, ops, agree mirror mirrorReached ops⟩

end Finm327.Phase5
