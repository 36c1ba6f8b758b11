import Finm327.Library.LevelQueues
import Finm327.Phase4.Order

/-!
# The two books of the matching engine

Transcribes `phase4/include/OrderBook.hpp`. `MatchingEngine` is a template over
the book, so what it calls is the class `BookT`; `OrderBook` (two `std::map`s
with opposite comparators) and `FlatOrderBook` (two sorted vectors of levels)
are its two instances. A `std::map` is the sequence of its elements in
comparator order, and a lookup finds the first key the comparator does not put
in front of the wanted one. Prices are only compared, never computed with, so
they are any type with the comparisons the code uses.
-/

namespace Finm327.Phase4

open Finm327.Library
open Finm327.Library.LevelQueues

universe u v

/-- The members of its book that `MatchingEngine` and the benches use. -/
class BookT (Book : Type v) (PriceT : outParam (Type u)) where
  emptyBook : Book
  add : Heap PriceT → OrderPtr → Book → Book
  pruneFront : Heap PriceT → Side → Book → Book
  empty : Book → Side → Bool
  best : Book → Side → Option OrderPtr
  popBest : Side → Book → Book
  depth : Book → Side → Nat

variable {PriceT : Type u}

section Comparators

variable [LT PriceT] [DecidableLT PriceT]

def greater (a b : PriceT) : Bool := decide (a > b)

def less (a b : PriceT) : Bool := decide (a < b)

end Comparators

/-- `m[key].push_back(o)` on a `std::map` with the given comparator. -/
def mapPushBack (compare : PriceT → PriceT → Bool) (key : PriceT) (o : OrderPtr)
    (m : List (Level PriceT OrderPtr)) : List (Level PriceT OrderPtr) :=
  pushBack compare (fun a b => !compare b a) key o m

structure OrderBook (PriceT : Type u) where
  bids : List (Level PriceT OrderPtr)
  asks : List (Level PriceT OrderPtr)
deriving DecidableEq, Repr

namespace OrderBook

variable [LT PriceT] [DecidableLT PriceT]

def add (heap : Heap PriceT) (o : OrderPtr) (book : OrderBook PriceT) : OrderBook PriceT :=
  if (heap o).side = .buy then
    { book with bids := mapPushBack greater (heap o).price o book.bids }
  else
    { book with asks := mapPushBack less (heap o).price o book.asks }

omit [LT PriceT] [DecidableLT PriceT] in
def pruneFront (heap : Heap PriceT) (s : Side) (book : OrderBook PriceT) : OrderBook PriceT :=
  if s = .buy then { book with bids := LevelQueues.pruneFront heap.live book.bids }
  else { book with asks := LevelQueues.pruneFront heap.live book.asks }

def empty (book : OrderBook PriceT) (s : Side) : Bool :=
  if s = .buy then book.bids.isEmpty else book.asks.isEmpty

def best (book : OrderBook PriceT) (s : Side) : Option OrderPtr :=
  if s = .buy then front book.bids else front book.asks

def popBest (s : Side) (book : OrderBook PriceT) : OrderBook PriceT :=
  if s = .buy then { book with bids := popFront book.bids }
  else { book with asks := popFront book.asks }

def depth (book : OrderBook PriceT) (s : Side) : Nat :=
  if s = .buy then book.bids.length else book.asks.length

instance : BookT (OrderBook PriceT) PriceT where
  emptyBook := ⟨[], []⟩
  add := add
  pruneFront := pruneFront
  empty := empty
  best := best
  popBest := popBest
  depth := depth

end OrderBook

structure FlatOrderBook (PriceT : Type u) where
  bids : List (Level PriceT OrderPtr)
  asks : List (Level PriceT OrderPtr)
deriving DecidableEq, Repr

namespace FlatOrderBook

def side (book : FlatOrderBook PriceT) (s : Side) : List (Level PriceT OrderPtr) :=
  if s = .buy then book.bids else book.asks

def setSide (book : FlatOrderBook PriceT) (s : Side) (levels : List (Level PriceT OrderPtr)) :
    FlatOrderBook PriceT :=
  if s = .buy then { book with bids := levels } else { book with asks := levels }

section Add

variable [LT PriceT] [DecidableLT PriceT] [BEq PriceT]

/-- The linear search of `FlatOrderBook::add`: walk past the better levels,
then join a level of equal price or insert one at the iterator. -/
def add (heap : Heap PriceT) (o : OrderPtr) (book : FlatOrderBook PriceT) :
    FlatOrderBook PriceT :=
  if (heap o).side = .buy then
    { book with bids := pushBack greater (· == ·) (heap o).price o book.bids }
  else
    { book with asks := pushBack less (· == ·) (heap o).price o book.asks }

end Add

def empty (book : FlatOrderBook PriceT) (s : Side) : Bool := (book.side s).isEmpty

def best (book : FlatOrderBook PriceT) (s : Side) : Option OrderPtr := front (book.side s)

def popBest (s : Side) (book : FlatOrderBook PriceT) : FlatOrderBook PriceT :=
  book.setSide s (popFront (book.side s))

def pruneFront (heap : Heap PriceT) (s : Side) (book : FlatOrderBook PriceT) :
    FlatOrderBook PriceT :=
  book.setSide s (LevelQueues.pruneFront heap.live (book.side s))

def depth (book : FlatOrderBook PriceT) (s : Side) : Nat := (book.side s).length

instance [LT PriceT] [DecidableLT PriceT] [BEq PriceT] : BookT (FlatOrderBook PriceT) PriceT where
  emptyBook := ⟨[], []⟩
  add := add
  pruneFront := pruneFront
  empty := empty
  best := best
  popBest := popBest
  depth := depth

end FlatOrderBook

end Finm327.Phase4
