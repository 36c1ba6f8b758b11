import Mathlib.Logic.Function.Basic
import Mathlib.Order.Basic

/-!
# Orders, trades and the objects behind `shared_ptr`

Transcribes `phase4/include/Order.hpp`. The order manager, the book queues and
the incoming side of `submit` share one order object through `shared_ptr`, so
orders live in a heap and everything else holds pointers into it. Quantities
are unbounded integers: `filled` never leaves the range between zero and
`quantity`, so no `int` expression on them can wrap.
-/

namespace Finm327.Phase4

universe u

inductive Side where
  | buy
  | sell
deriving DecidableEq, Repr

inductive OrdState where
  | new
  | partiallyFilled
  | filled
  | cancelled
deriving DecidableEq, Repr

structure Order (PriceT : Type u) where
  id : Int
  symbol : String
  price : PriceT
  quantity : Int
  filled : Int
  side : Side
  state : OrdState
deriving DecidableEq, Repr

namespace Order

variable {PriceT : Type u}

def remaining (order : Order PriceT) : Int := order.quantity - order.filled

def live (order : Order PriceT) : Bool :=
  order.state == .new || order.state == .partiallyFilled

/-- `Order() = default`: every member value-initialised. -/
instance [Inhabited PriceT] : Inhabited (Order PriceT) where
  default := ⟨0, "", default, 0, 0, .buy, .new⟩

/-- `Order(i, sym, p, q, s)`; `filled` and `state` keep their initialisers. -/
def make (i : Int) (sym : String) (p : PriceT) (q : Int) (s : Side) : Order PriceT :=
  ⟨i, sym, p, q, 0, s, .new⟩

/-- `it->second->state = OrdState::Cancelled`. -/
def markCancelled (order : Order PriceT) : Order PriceT := { order with state := .cancelled }

end Order

structure Trade (PriceT : Type u) where
  buyId : Int
  sellId : Int
  symbol : String
  price : PriceT
  quantity : Int
  seq : UInt64
  ns : Int
deriving DecidableEq, Repr

/-- The side an incoming order of side `s` trades against. -/
def Side.opp (s : Side) : Side := if s = .buy then .sell else .buy

@[simp] theorem Side.opp_buy : Side.opp .buy = .sell := rfl

@[simp] theorem Side.opp_sell : Side.opp .sell = .buy := rfl

theorem Side.opp_ne (s : Side) : s.opp ≠ s := by cases s <;> decide

/-- Everything `place` fixes once and for all. -/
structure SameTerms {PriceT : Type u} (before after : Order PriceT) : Prop where
  id : after.id = before.id
  symbol : after.symbol = before.symbol
  price : after.price = before.price
  quantity : after.quantity = before.quantity
  side : after.side = before.side

theorem same_terms_refl {PriceT : Type u} (order : Order PriceT) : SameTerms order order :=
  ⟨rfl, rfl, rfl, rfl, rfl⟩

theorem SameTerms.trans {PriceT : Type u} {first second third : Order PriceT}
    (left : SameTerms first second) (right : SameTerms second third) : SameTerms first third :=
  ⟨right.id.trans left.id, right.symbol.trans left.symbol, right.price.trans left.price,
    right.quantity.trans left.quantity, right.side.trans left.side⟩

theorem mark_cancelled_terms {PriceT : Type u} (order : Order PriceT) :
    SameTerms order order.markCancelled :=
  ⟨rfl, rfl, rfl, rfl, rfl⟩

abbrev OrderPtr := Nat

abbrev Heap (PriceT : Type u) := OrderPtr → Order PriceT

namespace Heap

variable {PriceT : Type u}

def modify (heap : Heap PriceT) (o : OrderPtr) (change : Order PriceT → Order PriceT) :
    Heap PriceT :=
  Function.update heap o (change (heap o))

@[simp] theorem modify_self (heap : Heap PriceT) (o : OrderPtr)
    (change : Order PriceT → Order PriceT) : heap.modify o change o = change (heap o) := by
  simp [modify]

theorem modify_of_ne (heap : Heap PriceT) {o other : OrderPtr}
    (change : Order PriceT → Order PriceT) (different : other ≠ o) :
    heap.modify o change other = heap other := by
  simp [modify, different]

theorem modify_terms (heap : Heap PriceT) (o other : OrderPtr)
    (change : Order PriceT → Order PriceT) (keeps : ∀ order, SameTerms order (change order)) :
    SameTerms (heap other) (heap.modify o change other) := by
  by_cases same : other = o
  · subst same
    rw [modify_self]
    exact keeps _
  · rw [modify_of_ne heap change same]
    exact same_terms_refl _

def live (heap : Heap PriceT) (o : OrderPtr) : Bool := (heap o).live

end Heap

end Finm327.Phase4
