import Mathlib.Algebra.Ring.Int.Defs
import Mathlib.Data.List.Induction
import Mathlib.Data.List.Perm.Lattice
import Mathlib.Data.Set.Basic
import Mathlib.Order.Bounds.Defs
import Mathlib.Order.OrderDual
import Finm327.Library.LevelIndex
import Finm327.Library.Maps
import Finm327.Library.Runs

/-!
# The indexed order book

Transcribes `OrderBook` of `hw5/part4_orderbook.cpp`: orders by id, and for each side a
sorted map from prices to vectors of ids. Prices are an abstract linear order with a zero, so
a price that is not a number is left out. A level is found through the price of the stored
order and loses an id by a swap with its last one.
-/

namespace Finm327.Hw5.Books

open Finm327.Library.LevelQueues
open Finm327.Library.Maps
open Finm327.Library.Runs

universe u

structure Order (PriceT : Type u) where
  id : UInt32
  price : PriceT
  qty : UInt32
  side : Char
deriving DecidableEq

inductive BookOp (PriceT : Type u)
  | add (id : UInt32) (price : PriceT) (qty : UInt32) (side : Char)
  | modify (id : UInt32) (newQty : UInt32)
  | cancel (id : UInt32)
deriving DecidableEq

namespace BookOp

variable {PriceT : Type u}

/-- What is added has a side and a price of the kind. -/
def Adds (kind : Char → PriceT → Prop) : BookOp PriceT → Prop
  | add _ price _ side => kind side price
  | _ => True

/-- The sides the program uses. -/
def Sided (op : BookOp PriceT) : Prop := op.Adds (fun side _ => side = 'B' ∨ side = 'S')

/-- An order is added only under an id that is not live. -/
def Fresh (byId : KeyMap UInt32 (Order PriceT)) : BookOp PriceT → Prop
  | add id _ _ _ => id ∉ byId
  | _ => True

def edit (byId : KeyMap UInt32 (Order PriceT)) : BookOp PriceT → KeyMap UInt32 (Order PriceT)
  | add id price qty side => emplace id ⟨id, price, qty, side⟩ byId
  | modify id newQty =>
      match byId.lookup id with
      | none => byId
      | some order => byId.insert id { order with qty := newQty }
  | cancel id => byId.erase id

def answer (byId : KeyMap UInt32 (Order PriceT)) : BookOp PriceT → Option Bool
  | add _ _ _ _ => none
  | modify id _ => some (byId.lookup id).isSome
  | cancel id => some (byId.lookup id).isSome

instance (op : BookOp PriceT) : Decidable op.Sided := by
  cases op <;> unfold Sided Adds <;> infer_instance

instance (byId : KeyMap UInt32 (Order PriceT)) (op : BookOp PriceT) : Decidable (op.Fresh byId) := by
  cases op <;> unfold Fresh <;> infer_instance

end BookOp

/-- `std::greater<double>`: the highest bid stands first. -/
def bidAhead {PriceT : Type u} [LinearOrder PriceT] (a b : PriceT) : Bool := decide (b < a)

def askAhead {PriceT : Type u} [LinearOrder PriceT] (a b : PriceT) : Bool := decide (a < b)

def samePrice {PriceT : Type u} [LinearOrder PriceT] (a b : PriceT) : Bool := decide (a = b)

/-- `v[i] = v.back(); v.pop_back();` at the first position that holds the id. -/
def swapRemove (id : UInt32) (v : List UInt32) : List UInt32 :=
  match v.findIdx? (fun own => own == id) with
  | none => v
  | some i => (v.set i (v.getLastD id)).dropLast

theorem swap_remove_perm {id : UInt32} {v : List UInt32} (member : id ∈ v) :
    (id :: swapRemove id v).Perm v := by
  obtain ⟨before, after, rfl, absent⟩ := List.eq_append_cons_of_mem member
  have position : (before ++ id :: after).findIdx? (fun own => own == id) = some before.length := by
    rw [List.findIdx?_append, List.findIdx?_cons, beq_self_eq_true, if_pos rfl,
      List.findIdx?_eq_none_iff.mpr]
    · rw [Option.none_or, Option.map_some, Nat.zero_add]
    · intro own earlier
      rw [beq_eq_false_iff_ne]
      intro equal
      exact absent (equal ▸ earlier)
  rw [swapRemove, position]
  dsimp only
  rw [List.set_append_right _ _ (Nat.le_refl _), Nat.sub_self, List.set_cons_zero]
  induction after using List.reverseRecOn with
  | nil =>
      rw [List.dropLast_concat]
      exact (List.perm_append_singleton id before).symm
  | append_singleton middle last _ =>
      have final : (before ++ id :: (middle ++ [last])).getLastD id = last := by
        rw [← List.cons_append, ← List.append_assoc, List.getLastD_concat]
      rw [final, ← List.cons_append, ← List.append_assoc, List.dropLast_concat]
      have moved : (last :: middle).Perm (middle ++ [last]) :=
        (List.perm_append_singleton last middle).symm
      exact List.perm_middle.symm.trans ((moved.cons id).append_left before)

structure OrderBook (PriceT : Type u) where
  byId : KeyMap UInt32 (Order PriceT)
  bids : List (Level PriceT UInt32)
  asks : List (Level PriceT UInt32)

namespace OrderBook

variable {PriceT : Type u} [LinearOrder PriceT]

def initial : OrderBook PriceT := ⟨∅, [], []⟩

def eraseIdAt (price : PriceT) (id : UInt32) (m : List (Level PriceT UInt32)) :
    List (Level PriceT UInt32) :=
  change price (swapRemove id) m

def add (id : UInt32) (price : PriceT) (qty : UInt32) (side : Char) (book : OrderBook PriceT) :
    OrderBook PriceT :=
  let byId := emplace id ⟨id, price, qty, side⟩ book.byId
  if side = 'B' then { book with byId, bids := pushBack bidAhead samePrice price id book.bids }
  else { book with byId, asks := pushBack askAhead samePrice price id book.asks }

def modify (id : UInt32) (newQty : UInt32) (book : OrderBook PriceT) : OrderBook PriceT × Bool :=
  match book.byId.lookup id with
  | none => (book, false)
  | some order =>
      ({ book with byId := book.byId.insert id { order with qty := newQty } }, true)

def cancel (id : UInt32) (book : OrderBook PriceT) : OrderBook PriceT × Bool :=
  match book.byId.lookup id with
  | none => (book, false)
  | some order =>
      let byId := book.byId.erase id
      if order.side = 'B' then
        ({ book with byId, bids := eraseIdAt order.price id book.bids }, true)
      else ({ book with byId, asks := eraseIdAt order.price id book.asks }, true)

def bestBid [Zero PriceT] (book : OrderBook PriceT) : PriceT :=
  match book.bids with
  | [] => 0
  | level :: _ => level.key

def bestAsk [Zero PriceT] (book : OrderBook PriceT) : PriceT :=
  match book.asks with
  | [] => 0
  | level :: _ => level.key

/-- The vector pointed at, or `nullptr`. -/
def ordersAt (price : PriceT) (side : Char) (book : OrderBook PriceT) : Option (List UInt32) :=
  if side = 'B' then find price book.bids else find price book.asks

def size (book : OrderBook PriceT) : Nat := Library.Maps.size book.byId

/-- One call with the answer it returns, if it returns one. -/
def step (book : OrderBook PriceT) : BookOp PriceT → Option (OrderBook PriceT × Option Bool)
  | .add id price qty side => some (book.add id price qty side, none)
  | .modify id newQty => some ((book.modify id newQty).1, some (book.modify id newQty).2)
  | .cancel id => some ((book.cancel id).1, some (book.cancel id).2)

end OrderBook

section Rests

variable {PriceT : Type u} {onSide : Char → Prop} {byId : KeyMap UInt32 (Order PriceT)}
  {id other : UInt32} {price place : PriceT} {order : Order PriceT}

/-- The id names a live order of the side at the price. -/
def Rests (onSide : Char → Prop) (byId : KeyMap UInt32 (Order PriceT)) (id : UInt32)
    (price : PriceT) : Prop :=
  ∃ order, byId.lookup id = some order ∧ onSide order.side ∧ order.price = price

theorem rests_single (first : Rests onSide byId id price) (second : Rests onSide byId id place) :
    price = place := by
  obtain ⟨order, found, -, own⟩ := first
  obtain ⟨again, foundAgain, -, ownAgain⟩ := second
  rw [found, Option.some.injEq] at foundAgain
  rw [← own, ← ownAgain, foundAgain]

theorem rests_nil : ¬ Rests onSide (∅ : KeyMap UInt32 (Order PriceT)) id price := by
  rintro ⟨order, found, -⟩
  cases found

theorem not_rests_of_fresh (fresh : id ∉ byId) : ¬ Rests onSide byId id price := by
  rintro ⟨order, found, -⟩
  exact fresh (mem_iff_lookup.mpr ⟨order, found⟩)

theorem not_rests_of_side (live : byId.lookup id = some order) (off : ¬ onSide order.side) :
    ¬ Rests onSide byId id price := by
  rintro ⟨found, equal, on, -⟩
  rw [live, Option.some.injEq] at equal
  exact off (equal ▸ on)

theorem rests_emplace (fresh : id ∉ byId) :
    Rests onSide (emplace id order byId) other place ↔
      other = id ∧ onSide order.side ∧ order.price = place ∨ Rests onSide byId other place := by
  unfold Rests
  rw [lookup_emplace_of_notMem fresh]
  by_cases own : other = id
  · have missing : byId.lookup id = none := AList.lookup_eq_none.mpr fresh
    rw [if_pos own, own, missing]
    constructor
    · rintro ⟨found, equal, rests⟩
      rw [Option.some.inj equal]
      exact .inl ⟨rfl, rests⟩
    · rintro (⟨-, rests⟩ | ⟨found, equal, -⟩)
      · exact ⟨order, rfl, rests⟩
      · cases equal
  · rw [if_neg own]
    exact ⟨.inr, fun rests => rests.resolve_left (fun new => own new.1)⟩

theorem rests_emplace_on_side (fresh : id ∉ byId) (on : onSide order.side) :
    Rests onSide (emplace id order byId) other place ↔
      other = id ∧ place = order.price ∨ Rests onSide byId other place := by
  rw [rests_emplace fresh]
  constructor
  · rintro (⟨same, -, at_price⟩ | rests)
    · exact .inl ⟨same, at_price.symm⟩
    · exact .inr rests
  · rintro (⟨same, at_price⟩ | rests)
    · exact .inl ⟨same, on, at_price.symm⟩
    · exact .inr rests

theorem rests_emplace_off_side (off : ¬ onSide order.side) :
    Rests onSide (emplace id order byId) other place ↔ Rests onSide byId other place := by
  by_cases present : id ∈ byId
  · rw [emplace, if_pos present]
  · rw [rests_emplace present]
    exact ⟨fun rests => rests.resolve_left (fun new => off new.2.1), .inr⟩

theorem rests_insert (live : byId.lookup id = some order) {edited : Order PriceT}
    (side : edited.side = order.side) (at_price : edited.price = order.price) :
    Rests onSide (byId.insert id edited) other place ↔ Rests onSide byId other place := by
  unfold Rests
  rw [lookup_insert_eq]
  by_cases own : other = id
  · rw [if_pos own, own, live]
    constructor
    · rintro ⟨found, equal, rests⟩
      rw [← Option.some.inj equal, side, at_price] at rests
      exact ⟨order, rfl, rests⟩
    · rintro ⟨found, equal, rests⟩
      rw [← Option.some.inj equal, ← side, ← at_price] at rests
      exact ⟨edited, rfl, rests⟩
  · rw [if_neg own]

theorem rests_erase :
    Rests onSide (byId.erase id) other place ↔ Rests onSide byId other place ∧ other ≠ id := by
  unfold Rests
  rw [lookup_erase_eq]
  by_cases own : other = id
  · rw [if_pos own]
    constructor
    · rintro ⟨found, equal, -⟩
      cases equal
    · exact fun both => absurd own both.2
  · rw [if_neg own]
    exact ⟨fun rests => ⟨rests, own⟩, fun both => both.1⟩

theorem rests_erase_off_side (live : byId.lookup id = some order) (off : ¬ onSide order.side) :
    Rests onSide (byId.erase id) other place ↔ Rests onSide byId other place := by
  rw [rests_erase]
  constructor
  · exact fun both => both.1
  · intro rests
    refine ⟨rests, ?_⟩
    rintro rfl
    exact not_rests_of_side live off rests

theorem rests_erase_on_side (live : byId.lookup id = some order) :
    Rests onSide (byId.erase id) other place ↔
      Rests onSide byId other place ∧ ¬ (other = id ∧ place = order.price) := by
  rw [rests_erase]
  constructor
  · exact fun both => ⟨both.1, fun same => both.2 same.1⟩
  · rintro ⟨rests, apart⟩
    refine ⟨rests, ?_⟩
    rintro rfl
    obtain ⟨found, equal, -, own⟩ := rests
    rw [live, Option.some.injEq] at equal
    exact apart ⟨rfl, by rw [← own, equal]⟩

/-- Every live order has a side and a price of the kind. -/
def Every (kind : Char → PriceT → Prop) (byId : KeyMap UInt32 (Order PriceT)) : Prop :=
  ∀ id order, byId.lookup id = some order → kind order.side order.price

variable {kind : Char → PriceT → Prop}

theorem every_emplace (every : Every kind byId) (own : kind order.side order.price) :
    Every kind (emplace id order byId) := by
  intro other found live
  by_cases present : id ∈ byId
  · rw [emplace, if_pos present] at live
    exact every other found live
  · rw [lookup_emplace_of_notMem present] at live
    split_ifs at live
    · rw [← Option.some.inj live]
      exact own
    · exact every other found live

theorem every_insert (every : Every kind byId) (own : kind order.side order.price) :
    Every kind (byId.insert id order) := by
  intro other found live
  rw [lookup_insert_eq] at live
  split_ifs at live
  · rw [← Option.some.inj live]
    exact own
  · exact every other found live

theorem every_erase (every : Every kind byId) : Every kind (byId.erase id) := by
  intro other found live
  rw [lookup_erase_eq] at live
  split_ifs at live
  exact every other found live

theorem every_edit {op : BookOp PriceT} (every : Every kind byId) (own : op.Adds kind) :
    Every kind (op.edit byId) := by
  cases op with
  | add id price qty side => exact every_emplace every own
  | modify id newQty =>
      unfold BookOp.edit
      dsimp only
      cases live : byId.lookup id with
      | none => exact every
      | some order => exact every_insert every (every id order live)
  | cancel id => exact every_erase every

end Rests

namespace OrderBook

variable {PriceT : Type u} [LinearOrder PriceT] {book : OrderBook PriceT} {id : UInt32}
  {price : PriceT} {qty : UInt32} {side : Char}

theorem ask_key_order : KeyOrder (askAhead : PriceT → PriceT → Bool) samePrice :=
  key_order_lt PriceT

theorem bid_key_order : KeyOrder (bidAhead : PriceT → PriceT → Bool) samePrice :=
  key_order_lt PriceTᵒᵈ

/-- Each side's levels index its live orders by price. -/
structure Indexed (book : OrderBook PriceT) : Prop where
  bids : Indexes bidAhead (Rests (· = 'B') book.byId) book.bids
  asks : Indexes askAhead (Rests (· ≠ 'B') book.byId) book.asks

theorem initial_indexed : Indexed (initial : OrderBook PriceT) :=
  ⟨Indexes.nil_index (fun _ _ => rests_nil), Indexes.nil_index (fun _ _ => rests_nil)⟩

theorem add_indexed (indexed : Indexed book) (fresh : id ∉ book.byId) :
    Indexed (book.add id price qty side) := by
  unfold add
  by_cases buys : side = 'B'
  · rw [if_pos buys]
    exact ⟨indexed.bids.push_back bid_key_order (not_rests_of_fresh fresh)
        (fun _ _ => rests_emplace_on_side fresh buys),
      indexed.asks.congr (fun _ _ => rests_emplace_off_side (fun off => off buys))⟩
  · rw [if_neg buys]
    exact ⟨indexed.bids.congr (fun _ _ => rests_emplace_off_side buys),
      indexed.asks.push_back ask_key_order (not_rests_of_fresh fresh)
        (fun _ _ => rests_emplace_on_side fresh buys)⟩

theorem modify_indexed (indexed : Indexed book) : Indexed (book.modify id qty).1 := by
  unfold modify
  cases live : book.byId.lookup id with
  | none => exact indexed
  | some order =>
      exact ⟨indexed.bids.congr (fun _ _ => rests_insert live rfl rfl),
        indexed.asks.congr (fun _ _ => rests_insert live rfl rfl)⟩

theorem cancel_indexed (indexed : Indexed book) : Indexed (book.cancel id).1 := by
  unfold cancel
  cases live : book.byId.lookup id with
  | none => exact indexed
  | some order =>
      dsimp only
      by_cases buys : order.side = 'B'
      · rw [if_pos buys]
        refine ⟨?_, indexed.asks.congr (fun _ _ => rests_erase_off_side live (fun off => off buys))⟩
        exact indexed.bids.change_remove bid_key_order.irrefl (fun _ => swap_remove_perm)
          ⟨order, live, buys, rfl⟩ (fun _ _ => rests_erase_on_side live)
      · rw [if_neg buys]
        refine ⟨indexed.bids.congr (fun _ _ => rests_erase_off_side live buys), ?_⟩
        exact indexed.asks.change_remove ask_key_order.irrefl (fun _ => swap_remove_perm)
          ⟨order, live, buys, rfl⟩ (fun _ _ => rests_erase_on_side live)

theorem step_indexed {op : BookOp PriceT} {after : OrderBook PriceT} {answer : Option Bool}
    (indexed : Indexed book) (fresh : op.Fresh book.byId)
    (next : book.step op = some (after, answer)) : Indexed after := by
  cases op with
  | add id price qty side =>
      cases next
      exact add_indexed indexed fresh
  | modify id newQty =>
      cases next
      exact modify_indexed indexed
  | cancel id =>
      cases next
      exact cancel_indexed indexed

/-- What a call does to the orders by id, and what it answers, depends on these alone. -/
theorem step_by_id {op : BookOp PriceT} {after : OrderBook PriceT} {answer : Option Bool}
    (next : book.step op = some (after, answer)) :
    after.byId = op.edit book.byId ∧ answer = op.answer book.byId := by
  cases op with
  | add id price qty side =>
      cases next
      unfold add
      split_ifs
      · exact ⟨rfl, rfl⟩
      · exact ⟨rfl, rfl⟩
  | modify id newQty =>
      cases next
      unfold modify BookOp.edit BookOp.answer
      dsimp only
      cases book.byId.lookup id with
      | none => exact ⟨rfl, rfl⟩
      | some order => exact ⟨rfl, rfl⟩
  | cancel id =>
      cases next
      unfold cancel BookOp.edit BookOp.answer
      dsimp only
      cases live : book.byId.lookup id with
      | none => exact ⟨(erase_of_notMem (AList.lookup_eq_none.mp live)).symm, rfl⟩
      | some order =>
          dsimp only
          split_ifs
          · exact ⟨rfl, rfl⟩
          · exact ⟨rfl, rfl⟩

/-- The ids of the live orders at the price and side. -/
def liveAt (price : PriceT) (side : Char) (book : OrderBook PriceT) : List UInt32 :=
  book.byId.keys.filter (fun id =>
    (book.byId.lookup id).any (fun order => decide (order.side = side ∧ order.price = price)))

/-- The prices of the live orders of the side. -/
def prices (side : Char) (book : OrderBook PriceT) : Set PriceT :=
  {price | ∃ id order, book.byId.lookup id = some order ∧ order.side = side ∧ order.price = price}

/-- The extreme price of the set, with 0 for an empty one. -/
def ExtremeOrZero [Zero PriceT] (Extreme : Set PriceT → PriceT → Prop) (prices : Set PriceT)
    (best : PriceT) : Prop :=
  prices = ∅ ∧ best = 0 ∨ Extreme prices best

/-- Every live id lies in one vector, that of its own price and side, and what is read off the
vectors is true of the live orders. -/
structure IndexesAgree [Zero PriceT] (book : OrderBook PriceT) : Prop where
  once : ∀ id, (items book.bids ++ items book.asks).count id = if id ∈ book.byId then 1 else 0
  placed : ∀ id order, book.byId.lookup id = some order →
    ∃ ids, book.ordersAt order.price order.side = some ids ∧ id ∈ ids
  queued : AllQueued book.bids ∧ AllQueued book.asks
  absent : ∀ price side, side = 'B' ∨ side = 'S' →
    (book.ordersAt price side = none ↔ book.liveAt price side = [])
  ordersAt : ∀ price side, side = 'B' ∨ side = 'S' →
    ((book.ordersAt price side).getD []).Perm (book.liveAt price side)
  bestBid : ExtremeOrZero IsGreatest (book.prices 'B') book.bestBid
  bestAsk : ExtremeOrZero IsLeast (book.prices 'S') book.bestAsk

theorem mem_live_at : id ∈ book.liveAt price side ↔ Rests (· = side) book.byId id price := by
  unfold liveAt Rests
  rw [List.mem_filter, AList.mem_keys.symm, Option.any_eq_true]
  constructor
  · rintro ⟨-, order, live, own⟩
    exact ⟨order, live, of_decide_eq_true own⟩
  · rintro ⟨order, live, own⟩
    exact ⟨mem_iff_lookup.mpr ⟨order, live⟩, order, live, decide_eq_true own⟩

theorem live_at_nodup : (book.liveAt price side).Nodup := book.byId.nodupKeys.filter _

/-- A vector holds the live ids of its side and price. -/
theorem find_perm {ahead : PriceT → PriceT → Bool} {levels : List (Level PriceT UInt32)}
    (indexed : Indexes ahead (Rests (· = side) book.byId) levels) :
    (find price levels = none ↔ book.liveAt price side = []) ∧
      ((find price levels).getD []).Perm (book.liveAt price side) := by
  cases found : find price levels with
  | none =>
      have nothing : book.liveAt price side = [] := by
        rw [List.eq_nil_iff_forall_not_mem]
        intro id member
        obtain ⟨ids, contrary, -⟩ := (indexed.mem price id).mpr (mem_live_at.mp member)
        rw [found] at contrary
        cases contrary
      rw [nothing]
      exact ⟨⟨fun _ => rfl, fun _ => rfl⟩, List.Perm.refl []⟩
  | some ids =>
      have same : ids.Perm (book.liveAt price side) := by
        rw [List.perm_ext_iff_of_nodup (indexed.nodup price ids found) live_at_nodup]
        intro id
        rw [mem_live_at, ← indexed.mem]
        constructor
        · exact fun member => ⟨ids, found, member⟩
        · rintro ⟨again, foundAgain, member⟩
          rw [found, Option.some.injEq] at foundAgain
          rw [foundAgain]
          exact member
      refine ⟨⟨fun contrary => (by cases contrary), ?_⟩, same⟩
      intro nothing
      rw [nothing, List.perm_nil] at same
      exact absurd same (indexed.queued ⟨price, ids⟩ (mem_of_find found))

/-- The key of the first level, or zero. -/
def firstKey [Zero PriceT] (levels : List (Level PriceT UInt32)) : PriceT :=
  match levels with
  | [] => 0
  | level :: _ => level.key

/-- No level and no live order of the side, or a first level at a price of the side that no
other price of it is ahead of. -/
theorem foremost_level [Zero PriceT] {ahead : PriceT → PriceT → Bool}
    {levels : List (Level PriceT UInt32)}
    (indexed : Indexes ahead (Rests (· = side) book.byId) levels)
    {Extreme : Set PriceT → PriceT → Prop}
    (extreme : ∀ key ∈ book.prices side,
      (∀ price ∈ book.prices side, price = key ∨ ahead key price = true) →
        Extreme (book.prices side) key) :
    ExtremeOrZero Extreme (book.prices side) (firstKey levels) := by
  cases levels with
  | nil =>
      refine .inl ⟨Set.eq_empty_iff_forall_notMem.mpr ?_, rfl⟩
      rintro price ⟨id, own⟩
      obtain ⟨ids, contrary, -⟩ := (indexed.mem price id).mpr own
      cases contrary
  | cons level rest =>
      have front := indexed.foremost
      refine .inr (extreme level.key front.1 ?_)
      rintro price ⟨id, own⟩
      exact front.2 id price own

theorem foremost_bid [Zero PriceT]
    (indexed : Indexes bidAhead (Rests (· = 'B') book.byId) book.bids) :
    ExtremeOrZero IsGreatest (book.prices 'B') book.bestBid := by
  apply foremost_level indexed
  intro key own ahead
  refine ⟨own, ?_⟩
  intro price member
  cases ahead price member with
  | inl same => exact le_of_eq same
  | inr behind => exact le_of_lt (of_decide_eq_true behind)

theorem foremost_ask [Zero PriceT]
    (indexed : Indexes askAhead (Rests (· = 'S') book.byId) book.asks) :
    ExtremeOrZero IsLeast (book.prices 'S') book.bestAsk := by
  apply foremost_level indexed
  intro key own ahead
  refine ⟨own, ?_⟩
  intro price member
  cases ahead price member with
  | inl same => exact le_of_eq same.symm
  | inr behind => exact le_of_lt (of_decide_eq_true behind)

/-- With the two sides told apart, everything that is not a bid is an ask. -/
theorem Indexed.asks_of_sided (indexed : Indexed book)
    (sided : Every (fun side _ => side = 'B' ∨ side = 'S') book.byId) :
    Indexes askAhead (Rests (· = 'S') book.byId) book.asks := by
  refine indexed.asks.congr ?_
  intro id price
  constructor
  · rintro ⟨order, live, sells, at_price⟩
    refine ⟨order, live, ?_, at_price⟩
    rw [sells]
    decide
  · rintro ⟨order, live, notBuys, at_price⟩
    exact ⟨order, live, (sided id order live).resolve_left notBuys, at_price⟩

theorem Indexed.agree [Zero PriceT] (indexed : Indexed book)
    (sided : Every (fun side _ => side = 'B' ∨ side = 'S') book.byId) : IndexesAgree book := by
  have asks := indexed.asks_of_sided sided
  refine ⟨?_, ?_, ⟨indexed.bids.queued, indexed.asks.queued⟩, ?_, ?_, foremost_bid indexed.bids,
    foremost_ask asks⟩
  · intro id
    rw [List.count_append]
    cases live : book.byId.lookup id with
    | none =>
        have missing : id ∉ book.byId := AList.lookup_eq_none.mp live
        rw [if_neg missing,
          indexed.bids.count_eq_zero bid_key_order.irrefl (fun _ => not_rests_of_fresh missing),
          asks.count_eq_zero ask_key_order.irrefl (fun _ => not_rests_of_fresh missing)]
    | some order =>
        rw [if_pos (mem_iff_lookup.mpr ⟨order, live⟩)]
        cases sided id order live with
        | inl buys =>
            rw [indexed.bids.count_eq_one bid_key_order.irrefl (fun _ _ _ => rests_single)
              ⟨order, live, buys, rfl⟩, asks.count_eq_zero ask_key_order.irrefl]
            exact fun price => not_rests_of_side live (by rw [buys]; decide)
        | inr sells =>
            rw [asks.count_eq_one ask_key_order.irrefl (fun _ _ _ => rests_single)
              ⟨order, live, sells, rfl⟩, indexed.bids.count_eq_zero bid_key_order.irrefl]
            exact fun price => not_rests_of_side live (by rw [sells]; decide)
  · intro id order live
    unfold ordersAt
    by_cases buys : order.side = 'B'
    · rw [if_pos buys]
      exact (indexed.bids.mem order.price id).mpr ⟨order, live, buys, rfl⟩
    · rw [if_neg buys]
      exact (indexed.asks.mem order.price id).mpr ⟨order, live, buys, rfl⟩
  · intro price side kind
    unfold ordersAt
    rcases kind with rfl | rfl
    · exact (find_perm indexed.bids).1
    · exact (find_perm asks).1
  · intro price side kind
    unfold ordersAt
    rcases kind with rfl | rfl
    · exact (find_perm indexed.bids).2
    · exact (find_perm asks).2

/-- What the calls keep as long as no id is added while it is live. -/
theorem reachable_indexed {config : Config (OrderBook PriceT) (BookOp PriceT) (Option Bool)}
    (reached : Reachable step (fun config op => op.Sided ∧ op.Fresh config.state.byId) initial
      config) :
    Indexed config.state ∧
      Every (fun side _ => side = 'B' ∨ side = 'S') config.state.byId := by
  refine reachable_invariant (fun config => Indexed config.state ∧
    Every (fun side _ => side = 'B' ∨ side = 'S') config.state.byId) ?_ ?_ reached
  · refine ⟨initial_indexed, ?_⟩
    intro id order live
    cases live
  · rintro config op after answer ⟨indexed, sided⟩ ⟨adds, fresh⟩ next
    refine ⟨step_indexed indexed fresh next, ?_⟩
    rw [Config.push_state, (step_by_id next).1]
    exact every_edit sided adds

/-- In every state that additions under fresh ids, modifications and cancels lead to, the
levels and the orders by id say the same. -/
theorem order_book_indexes_agree [Zero PriceT]
    {config : Config (OrderBook PriceT) (BookOp PriceT) (Option Bool)}
    (reached : Reachable step (fun config op => op.Sided ∧ op.Fresh config.state.byId) initial
      config) : IndexesAgree config.state := by
  have kept := reachable_indexed reached
  exact kept.1.agree kept.2

/-- The first id of a level is cancelled and added again on the other side. -/
def sampleOps : List (BookOp Int) :=
  [.add 1 100 10 'B', .add 2 100 20 'B', .add 3 99 30 'B', .cancel 1, .add 1 101 5 'S',
    .modify 2 7, .cancel 3]

theorem order_book_indexes_agree_sample :
    ∃ config : Config (OrderBook Int) (BookOp Int) (Option Bool),
      Reachable step (fun config op => op.Sided ∧ op.Fresh config.state.byId) initial config ∧
        config.state.bestBid = 100 ∧ config.state.bestAsk = 101 ∧ IndexesAgree config.state := by
  have completes : (execute step (fun config op => op.Sided ∧ op.Fresh config.state.byId)
      (.start (initial : OrderBook Int)) sampleOps).any (fun config =>
        decide (config.state.bestBid = 100 ∧ config.state.bestAsk = 101)) = true := by
    decide
  obtain ⟨config, reached, bid, ask⟩ := reachable_of_execute_any completes
  exact ⟨config, reached, bid, ask, order_book_indexes_agree reached⟩

end OrderBook

end Finm327.Hw5.Books
