import Finm327.Library.Maps
import Finm327.Library.SignedArithmetic

/-!
# The active orders

Transcribes `phase3/order_manager.cpp`. The manager owns its orders by id; what it prints about
an order is the report of a call. `filled` and the next id are of type `int`, and a sum that no
`int` holds is a parameter. `handle_fill` adds whatever quantity it is given: an order stays
within its quantity exactly as long as no fill is negative or larger than what is left.
-/

namespace Finm327.Phase3

open Finm327.Library.Maps
open Finm327.Library.SignedArithmetic

universe u

inductive Side where
  | buy
  | sell
deriving DecidableEq

inductive OrderStatus where
  | new
  | filled
  | partiallyFilled
  | cancelled
deriving DecidableEq

structure MyOrder (PriceT : Type u) where
  id : Int32
  side : Side
  price : PriceT
  quantity : Int32
  filled : Int32 := 0
  status : OrderStatus := .new
deriving DecidableEq

structure OrderManager (PriceT : Type u) where
  orders : KeyMap Int32 (MyOrder PriceT)
  nextId : Int32

/-- What a call prints. -/
inductive Report (PriceT : Type u) where
  | placed (order : MyOrder PriceT)
  | unknown (id : Int32)
  | cancelled (order : MyOrder PriceT)
  | completed (order : MyOrder PriceT)
  | partially (order : MyOrder PriceT)
deriving DecidableEq

namespace OrderManager

variable {PriceT : Type u}

def initial : OrderManager PriceT := ⟨∅, 1⟩

def placeOrder (overflow : Int → Int32) (side : Side) (price : PriceT) (qty : Int32)
    (om : OrderManager PriceT) : OrderManager PriceT × Report PriceT :=
  let id := om.nextId
  let order : MyOrder PriceT := { id, side, price, quantity := qty }
  (⟨emplace id order om.orders, signed overflow (om.nextId.toInt + 1)⟩, .placed order)

def cancel (id : Int32) (om : OrderManager PriceT) : OrderManager PriceT × Report PriceT :=
  match om.orders.lookup id with
  | none => (om, .unknown id)
  | some ord =>
      ({ om with orders := om.orders.erase id }, .cancelled { ord with status := .cancelled })

def handleFill (overflow : Int → Int32) (id filledQty : Int32) (om : OrderManager PriceT) :
    OrderManager PriceT × Report PriceT :=
  match om.orders.lookup id with
  | none => (om, .unknown id)
  | some ord =>
      let filled := signed overflow (ord.filled.toInt + filledQty.toInt)
      if ord.quantity ≤ filled then
        ({ om with orders := om.orders.erase id },
          .completed { ord with filled := filled, status := .filled })
      else
        let ord : MyOrder PriceT := { ord with filled := filled, status := .partiallyFilled }
        ({ om with orders := om.orders.insert id ord }, .partially ord)

def hasActiveAt [DecidableEq PriceT] (price : PriceT) (side : Side) (om : OrderManager PriceT) :
    Bool :=
  om.orders.entries.any fun entry => entry.2.side = side && entry.2.price = price

theorem has_active_at_eq_false_iff [DecidableEq PriceT] {price : PriceT} {side : Side}
    {om : OrderManager PriceT} :
    om.hasActiveAt price side = false ↔ ∀ id order, om.orders.lookup id = some order →
      ¬ (order.side = side ∧ order.price = price) := by
  unfold hasActiveAt
  rw [List.any_eq_false]
  constructor
  · intro none id order found both
    apply none ⟨id, order⟩ (AList.mem_lookup_iff.mp found)
    rw [Bool.and_eq_true, decide_eq_true_iff, decide_eq_true_iff]
    exact both
  · intro none entry member both
    rw [Bool.and_eq_true, decide_eq_true_iff, decide_eq_true_iff] at both
    exact none entry.1 entry.2 (AList.mem_lookup_iff.mpr member) both

section Calls

variable {overflow : Int → Int32} {om : OrderManager PriceT}

/-- The order that a placement makes. -/
def opened (side : Side) (price : PriceT) (qty : Int32) (om : OrderManager PriceT) :
    MyOrder PriceT :=
  { id := om.nextId, side, price, quantity := qty }

theorem place_order_lookup (side : Side) (price : PriceT) (qty : Int32) (id : Int32) :
    (om.placeOrder overflow side price qty).1.orders.lookup id =
      if id = om.nextId ∧ id ∉ om.orders then some (om.opened side price qty)
      else om.orders.lookup id := by
  unfold placeOrder
  dsimp only
  by_cases known : om.nextId ∈ om.orders
  · rw [emplace, if_pos known, if_neg]
    rintro ⟨rfl, fresh⟩
    exact fresh known
  · rw [lookup_emplace_of_notMem known]
    by_cases same : id = om.nextId
    · rw [if_pos same, if_pos ⟨same, same ▸ known⟩]
      rfl
    · rw [if_neg same, if_neg (fun both => same both.1)]

end Calls

end OrderManager

end Finm327.Phase3
