import Finm327.Library.Comparisons
import Finm327.Phase5.MemoryPool

/-!
# The two order books of phase 5

Transcribes `phase5/include/OrderBook.hpp` and `OptimizedOrderBook.hpp`. The
baseline keeps every order by value in two maps. The optimized book keeps nodes
in a slab, links the nodes of a price level both ways and lets the lookup entry
carry the level's iterator. Prices are only compared. Pointers to nodes are slots
of the slab and an iterator is the price it points at; an operation that follows
a null or stale one is undefined and has no result.
-/

namespace Finm327.Phase5

open Finm327.Library
open Finm327.Library.Comparisons
open Finm327.Library.Maps

structure Order (PriceT : Type) where
  id : String
  price : PriceT
  quantity : Int
  isBuy : Bool
deriving DecidableEq, Repr

inductive Op (PriceT : Type) where
  | addOrder (id : String) (price : PriceT) (quantity : Int) (isBuy : Bool)
  | modifyOrder (id : String) (newPrice : PriceT) (newQuantity : Int)
  | deleteOrder (id : String)
deriving DecidableEq, Repr

structure OrderBook (PriceT : Type) where
  orderLevels : KeyMap PriceT (KeyMap String (Order PriceT))
  orderLookup : KeyMap String (Order PriceT)

variable {PriceT : Type} [DecidableEq PriceT] [Compares PriceT]

namespace OrderBook

def initial : OrderBook PriceT := ⟨∅, ∅⟩

def addOrder (id : String) (price : PriceT) (quantity : Int) (isBuy : Bool)
    (book : OrderBook PriceT) : OrderBook PriceT :=
  let o : Order PriceT := ⟨id, price, quantity, isBuy⟩
  let key := place price book.orderLevels
  let level := (book.orderLevels.lookup key).getD ∅
  { orderLevels := book.orderLevels.insert key (emplace id o level)
    orderLookup := emplace id o book.orderLookup }

def eraseFromLevel (price : PriceT) (id : String) (book : OrderBook PriceT) : OrderBook PriceT :=
  match find price book.orderLevels with
  | none => book
  | some lvl =>
      let level := ((book.orderLevels.lookup lvl).getD ∅).erase id
      { book with
        orderLevels := if size level = 0 then book.orderLevels.erase lvl
          else book.orderLevels.insert lvl level }

def modifyOrder (id : String) (newPrice : PriceT) (newQuantity : Int)
    (book : OrderBook PriceT) : OrderBook PriceT :=
  match book.orderLookup.lookup id with
  | none => book
  | some old =>
      let book := eraseFromLevel old.price id book
      addOrder id newPrice newQuantity old.isBuy
        { book with orderLookup := book.orderLookup.erase id }

def deleteOrder (id : String) (book : OrderBook PriceT) : OrderBook PriceT :=
  match book.orderLookup.lookup id with
  | none => book
  | some old =>
      let book := eraseFromLevel old.price id book
      { book with orderLookup := book.orderLookup.erase id }

def contains (id : String) (book : OrderBook PriceT) : Bool := decide (id ∈ book.orderLookup)

def size (book : OrderBook PriceT) : Nat := Maps.size book.orderLookup

def levels (book : OrderBook PriceT) : Nat := Maps.size book.orderLevels

def step (book : OrderBook PriceT) : Op PriceT → Option (OrderBook PriceT × Unit)
  | .addOrder id price quantity isBuy => some (addOrder id price quantity isBuy book, ())
  | .modifyOrder id newPrice newQuantity => some (modifyOrder id newPrice newQuantity book, ())
  | .deleteOrder id => some (deleteOrder id book, ())

end OrderBook

/-- `Node* prev` and `Node* next` are slots, or null. -/
structure Node (PriceT : Type) where
  order : Order PriceT
  prev : Option Nat
  next : Option Nat
deriving DecidableEq, Repr

namespace OptimizedOrderBook

structure Level where
  head : Option Nat
  tail : Option Nat
deriving DecidableEq, Repr

structure Slot (PriceT : Type) where
  node : Option Nat
  level : PriceT
deriving DecidableEq, Repr

end OptimizedOrderBook

structure OptimizedOrderBook (PriceT : Type) where
  pool : MemoryPool (Node PriceT)
  orderLevels : KeyMap PriceT OptimizedOrderBook.Level
  lookup : KeyMap String (OptimizedOrderBook.Slot PriceT)

namespace OptimizedOrderBook

def initial (capacity : Nat) : OptimizedOrderBook PriceT := ⟨MemoryPool.make capacity, ∅, ∅⟩

/-- `if (ptr) ptr->next = value; else lvl.head = value`. -/
def setNextOrHead (ptr value : Option Nat) (lvl : Level) (pool : MemoryPool (Node PriceT)) :
    Option (MemoryPool (Node PriceT) × Level) :=
  match ptr with
  | some n => (pool.modify n fun node => { node with next := value }).map fun pool => (pool, lvl)
  | none => some (pool, { lvl with head := value })

/-- `if (ptr) ptr->prev = value; else lvl.tail = value`. -/
def setPrevOrTail (ptr value : Option Nat) (lvl : Level) (pool : MemoryPool (Node PriceT)) :
    Option (MemoryPool (Node PriceT) × Level) :=
  match ptr with
  | some n => (pool.modify n fun node => { node with prev := value }).map fun pool => (pool, lvl)
  | none => some (pool, { lvl with tail := value })

def addOrder (id : String) (price : PriceT) (quantity : Int) (isBuy : Bool)
    (book : OptimizedOrderBook PriceT) : Option (OptimizedOrderBook PriceT) :=
  let (n, pool) := book.pool.acquire ⟨⟨id, price, quantity, isBuy⟩, none, none⟩
  let lit := place price book.orderLevels
  let orderLevels := emplace lit ⟨none, none⟩ book.orderLevels
  match n, orderLevels.lookup lit with
  | some n, some lvl => do
      let pool ← pool.modify n fun node => { node with prev := lvl.tail }
      let (pool, lvl) ← setNextOrHead lvl.tail (some n) lvl pool
      let lvl := { lvl with tail := some n }
      pure ⟨pool, orderLevels.insert lit lvl, emplace id ⟨some n, lit⟩ book.lookup⟩
  | _, _ => none

/-- Splices `slot.node` out of its level. -/
def unlink (slot : Slot PriceT) (book : OptimizedOrderBook PriceT) :
    Option (OptimizedOrderBook PriceT) := do
  let n ← slot.node
  let lvl ← book.orderLevels.lookup slot.level
  let node ← book.pool.buffer n
  let (pool, lvl) ← setNextOrHead node.prev node.next lvl book.pool
  let node ← pool.buffer n
  let (pool, lvl) ← setPrevOrTail node.next node.prev lvl pool
  pure { book with
    pool := pool
    orderLevels := if lvl.head = none then book.orderLevels.erase slot.level
      else book.orderLevels.insert slot.level lvl }

def modifyOrder (id : String) (newPrice : PriceT) (newQuantity : Int)
    (book : OptimizedOrderBook PriceT) : Option (OptimizedOrderBook PriceT) :=
  match book.lookup.lookup id with
  | none => some book
  | some slot => do
      let n ← slot.node
      let node ← book.pool.buffer n
      if Compares.equals node.order.price newPrice then
        let pool ← book.pool.modify n fun node =>
          { node with order := { node.order with quantity := newQuantity } }
        pure { book with pool := pool }
      else
        let wasBuy := node.order.isBuy
        let book ← unlink slot book
        let pool := book.pool.release slot.node
        addOrder id newPrice newQuantity wasBuy
          { book with pool := pool, lookup := book.lookup.erase id }

def deleteOrder (id : String) (book : OptimizedOrderBook PriceT) :
    Option (OptimizedOrderBook PriceT) :=
  match book.lookup.lookup id with
  | none => some book
  | some slot => do
      let book ← unlink slot book
      let pool := book.pool.release slot.node
      pure { book with pool := pool, lookup := book.lookup.erase id }

def contains (id : String) (book : OptimizedOrderBook PriceT) : Bool := decide (id ∈ book.lookup)

def size (book : OptimizedOrderBook PriceT) : Nat := Maps.size book.lookup

def levels (book : OptimizedOrderBook PriceT) : Nat := Maps.size book.orderLevels

def step (book : OptimizedOrderBook PriceT) : Op PriceT → Option (OptimizedOrderBook PriceT × Unit)
  | .addOrder id price quantity isBuy =>
      (addOrder id price quantity isBuy book).map fun book => (book, ())
  | .modifyOrder id newPrice newQuantity =>
      (modifyOrder id newPrice newQuantity book).map fun book => (book, ())
  | .deleteOrder id => (deleteOrder id book).map fun book => (book, ())

/-- The order a live id stands for. -/
def order (book : OptimizedOrderBook PriceT) (id : String) : Option (Order PriceT) := do
  let slot ← book.lookup.lookup id
  let n ← slot.node
  let node ← book.pool.buffer n
  pure node.order

end OptimizedOrderBook

end Finm327.Phase5
