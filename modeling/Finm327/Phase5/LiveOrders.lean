import Finm327.Phase5.OrderBook

/-!
# The live orders a book stands for

What both books are for: a map from ids to orders in which an add of a new id
enters an order, a modify keeps its side and a delete removes it. When prices are
linearly ordered the baseline represents such a map, and its price levels are the
prices of the live orders.
-/

namespace Finm327.Phase5

open Finm327.Library
open Finm327.Library.Comparisons
open Finm327.Library.Maps

variable {PriceT : Type}

abbrev Live (PriceT : Type) := String → Option (Order PriceT)

namespace Live

def empty : Live PriceT := fun _ => none

def step (live : Live PriceT) : Op PriceT → Live PriceT
  | .addOrder id price quantity isBuy =>
      Function.update live id (some ⟨id, price, quantity, isBuy⟩)
  | .modifyOrder id newPrice newQuantity =>
      match live id with
      | none => live
      | some old => Function.update live id (some ⟨id, newPrice, newQuantity, old.isBuy⟩)
  | .deleteOrder id => Function.update live id none

theorem step_modify_dead {live : Live PriceT} {id : String} (dead : live id = none)
    (newPrice : PriceT) (newQuantity : Int) :
    live.step (.modifyOrder id newPrice newQuantity) = live := by
  unfold step
  simp only [dead]

theorem step_modify_live {live : Live PriceT} {id : String} {old : Order PriceT}
    (alive : live id = some old) (newPrice : PriceT) (newQuantity : Int) :
    live.step (.modifyOrder id newPrice newQuantity) =
      Function.update live id (some ⟨id, newPrice, newQuantity, old.isBuy⟩) := by
  unfold step
  simp only [alive]

theorem step_delete_dead {live : Live PriceT} {id : String} (dead : live id = none) :
    live.step (.deleteOrder id) = live := by
  have same : Function.update live id none = live := by
    rw [← dead, Function.update_eq_self]
  exact same

/-- Some live order has this price. -/
def At (live : Live PriceT) (price : PriceT) : Prop :=
  ∃ id o, live id = some o ∧ o.price = price

end Live

variable [LinearOrder PriceT]

namespace OrderBook

/-- The order a level holds for an id. -/
def entry (book : OrderBook PriceT) (price : PriceT) (id : String) : Option (Order PriceT) :=
  (book.orderLevels.lookup price).bind fun level => level.lookup id

theorem add_order_eq (id : String) (price : PriceT) (quantity : Int) (isBuy : Bool)
    (book : OrderBook PriceT) :
    addOrder id price quantity isBuy book =
      { orderLevels := book.orderLevels.insert price
          (emplace id ⟨id, price, quantity, isBuy⟩ ((book.orderLevels.lookup price).getD ∅))
        orderLookup := emplace id ⟨id, price, quantity, isBuy⟩ book.orderLookup } := by
  rw [addOrder, place_eq]

theorem erase_from_level_none {book : OrderBook PriceT} {price : PriceT}
    (absent : book.orderLevels.lookup price = none) (id : String) :
    eraseFromLevel price id book = book := by
  rw [eraseFromLevel, find_eq, if_neg (AList.lookup_eq_none.mp absent)]

theorem erase_from_level_some {book : OrderBook PriceT} {price : PriceT}
    {level : KeyMap String (Order PriceT)} (found : book.orderLevels.lookup price = some level)
    (id : String) :
    eraseFromLevel price id book = { book with
      orderLevels := if Maps.size (level.erase id) = 0 then book.orderLevels.erase price
        else book.orderLevels.insert price (level.erase id) } := by
  rw [eraseFromLevel, find_eq, if_pos (mem_iff_lookup.mpr ⟨level, found⟩)]
  simp only [found, Option.getD_some]

/-- Both indexes of the baseline show the live orders, and no level is empty. -/
structure Shows (book : OrderBook PriceT) (live : Live PriceT) : Prop where
  lookup : ∀ id, book.orderLookup.lookup id = live id
  entry : ∀ price id, book.entry price id = (live id).filter fun o => o.price = price
  nonempty : ∀ price level, book.orderLevels.lookup price = some level → ∃ id, id ∈ level

theorem initial_shows : Shows (initial : OrderBook PriceT) Live.empty where
  lookup := fun _ => rfl
  entry := fun _ _ => rfl
  nonempty := by simp [initial]

/-- The level that `orderLevels_[price]` finds or makes. -/
theorem level_lookup (book : OrderBook PriceT) (price : PriceT) (id : String) :
    ((book.orderLevels.lookup price).getD ∅).lookup id = book.entry price id := by
  unfold entry
  cases book.orderLevels.lookup price with
  | none => rfl
  | some level => rfl

theorem mem_levels_iff {book : OrderBook PriceT} {live : Live PriceT} (shows : Shows book live)
    (price : PriceT) : price ∈ book.orderLevels ↔ live.At price := by
  rw [mem_iff_lookup]
  constructor
  · rintro ⟨level, found⟩
    obtain ⟨id, member⟩ := shows.nonempty price level found
    obtain ⟨o, holds⟩ := mem_iff_lookup.mp member
    have held := shows.entry price id
    rw [entry, found, Option.bind_some, holds] at held
    obtain ⟨alive, priced⟩ := Option.filter_eq_some_iff.mp held.symm
    exact ⟨id, o, alive, of_decide_eq_true priced⟩
  · rintro ⟨id, o, alive, priced⟩
    have held := shows.entry price id
    rw [alive, Option.filter_some, if_pos (decide_eq_true priced)] at held
    obtain ⟨level, found, _⟩ := Option.bind_eq_some_iff.mp held
    exact ⟨level, found⟩

theorem entry_insert (orderLevels : KeyMap PriceT (KeyMap String (Order PriceT)))
    (orderLookup : KeyMap String (Order PriceT)) (price other : PriceT) (id : String)
    (level : KeyMap String (Order PriceT)) :
    (OrderBook.mk (orderLevels.insert price level) orderLookup).entry other id =
      if other = price then level.lookup id
      else (OrderBook.mk orderLevels orderLookup).entry other id := by
  unfold entry
  rw [lookup_insert_eq]
  split_ifs
  · rfl
  · rfl

theorem entry_erase_from_level (book : OrderBook PriceT) (price other : PriceT)
    (id otherId : String) :
    (eraseFromLevel price id book).entry other otherId =
      if other = price ∧ otherId = id then none else book.entry other otherId := by
  cases found : book.orderLevels.lookup price with
  | none =>
      rw [erase_from_level_none found]
      split_ifs with hit
      · rw [entry, hit.1, found]
        rfl
      · rfl
  | some level =>
      have here : book.entry price otherId = level.lookup otherId := by
        rw [entry, found, Option.bind_some]
      have erased := lookup_erase_eq id otherId level
      rw [erase_from_level_some found]
      split_ifs with empty hit hit
      · rw [entry, lookup_erase_eq, if_pos hit.1]
        rfl
      · rw [lookup_of_size_eq_zero empty] at erased
        rw [entry, lookup_erase_eq]
        by_cases same : other = price
        · rw [if_neg (fun own => hit ⟨same, own⟩)] at erased
          rw [if_pos same, same, here, ← erased]
          rfl
        · rw [if_neg same]
          rfl
      · rw [entry_insert, if_pos hit.1, erased, if_pos hit.2]
      · rw [entry_insert]
        by_cases same : other = price
        · rw [if_pos same, erased, if_neg (fun own => hit ⟨same, own⟩), same, here]
        · rw [if_neg same]

theorem nonempty_erase_from_level {book : OrderBook PriceT}
    (nonempty : ∀ price level, book.orderLevels.lookup price = some level → ∃ id, id ∈ level)
    (price : PriceT) (id : String) (other : PriceT) (level : KeyMap String (Order PriceT))
    (found : (eraseFromLevel price id book).orderLevels.lookup other = some level) :
    ∃ id, id ∈ level := by
  cases here : book.orderLevels.lookup price with
  | none =>
      rw [erase_from_level_none here] at found
      exact nonempty other level found
  | some old =>
      rw [erase_from_level_some here] at found
      dsimp only at found
      split_ifs at found with empty
      · rw [lookup_erase_eq] at found
        split_ifs at found
        exact nonempty other level found
      · rw [lookup_insert_eq] at found
        split_ifs at found
        · rw [← Option.some.inj found]
          exact exists_mem_of_size_ne_zero empty
        · exact nonempty other level found

theorem erase_from_level_lookup (price : PriceT) (id : String) (book : OrderBook PriceT) :
    (eraseFromLevel price id book).orderLookup = book.orderLookup := by
  unfold eraseFromLevel
  split <;> rfl

/-- Erasing an id from its level and from the lookup. -/
theorem remove_shows {book : OrderBook PriceT} {live : Live PriceT} (shows : Shows book live)
    {id : String} {old : Order PriceT} (alive : live id = some old) :
    Shows { eraseFromLevel old.price id book with
        orderLookup := (eraseFromLevel old.price id book).orderLookup.erase id }
      (Function.update live id none) where
  lookup := by
    intro other
    dsimp only
    rw [erase_from_level_lookup, lookup_erase_eq, Function.update_apply, shows.lookup]
  entry := by
    intro price other
    have erased := entry_erase_from_level book old.price price id other
    rw [shows.entry] at erased
    rw [Function.update_apply]
    refine Eq.trans erased ?_
    by_cases own : other = id
    · rw [if_pos own, own, alive]
      by_cases here : price = old.price
      · rw [if_pos ⟨here, rfl⟩]
        rfl
      · rw [if_neg (fun contrary => here contrary.1), Option.filter_some, if_neg]
        · rfl
        · exact fun same => here (of_decide_eq_true same).symm
    · rw [if_neg own, if_neg (fun contrary => own contrary.2)]
  nonempty := nonempty_erase_from_level shows.nonempty old.price id

theorem add_shows {book : OrderBook PriceT} {live : Live PriceT} (shows : Shows book live)
    {id : String} (fresh : live id = none) (price : PriceT) (quantity : Int) (isBuy : Bool) :
    Shows (addOrder id price quantity isBuy book)
      (Function.update live id (some ⟨id, price, quantity, isBuy⟩)) where
  lookup := by
    have notIn : id ∉ book.orderLookup := by
      rw [← AList.lookup_eq_none, shows.lookup, fresh]
    intro other
    rw [Function.update_apply, ← shows.lookup]
    exact lookup_emplace_of_notMem notIn other _
  entry := by
    intro other otherId
    have here := level_lookup book price
    have notIn : id ∉ (book.orderLevels.lookup price).getD ∅ := by
      rw [← AList.lookup_eq_none, here, shows.entry, fresh]
      rfl
    have old : (OrderBook.mk book.orderLevels (emplace id ⟨id, price, quantity, isBuy⟩
        book.orderLookup)).entry other otherId = book.entry other otherId := rfl
    rw [add_order_eq, entry_insert, lookup_emplace_of_notMem notIn, here, old, Function.update_apply]
    by_cases own : otherId = id
    · subst own
      rw [if_pos rfl, if_pos rfl, Option.filter_some]
      by_cases same : other = price
      · rw [if_pos same, if_pos (decide_eq_true same.symm)]
      · rw [if_neg same, if_neg, shows.entry, fresh]
        · rfl
        · exact fun priced => same (of_decide_eq_true priced).symm
    · rw [if_neg own, if_neg own]
      by_cases same : other = price
      · rw [if_pos same, shows.entry, same]
      · rw [if_neg same, shows.entry]
  nonempty := by
    intro other level found
    rw [add_order_eq] at found
    dsimp only at found
    rw [lookup_insert_eq] at found
    split_ifs at found
    · rw [← Option.some.inj found]
      refine ⟨id, ?_⟩
      unfold emplace
      split_ifs with member
      · exact member
      · exact (AList.mem_insert _).mpr (.inl rfl)
    · exact shows.nonempty other level found

theorem step_shows {book next : OrderBook PriceT} {live : Live PriceT} (shows : Shows book live)
    {op : Op PriceT} (fresh : ∀ id price quantity isBuy, op = .addOrder id price quantity isBuy →
      live id = none) (ran : book.step op = some (next, ())) : Shows next (live.step op) := by
  cases op with
  | addOrder id price quantity isBuy =>
      rw [← (Prod.mk.inj (Option.some.inj ran)).1]
      exact add_shows shows (fresh id price quantity isBuy rfl) price quantity isBuy
  | modifyOrder id newPrice newQuantity =>
      rw [← (Prod.mk.inj (Option.some.inj ran)).1]
      unfold modifyOrder
      rw [shows.lookup]
      cases alive : live id with
      | none =>
          rw [Live.step_modify_dead alive]
          exact shows
      | some old =>
          have removed := remove_shows shows alive
          have gone : Function.update live id none id = none := Function.update_self _ _ _
          have added := add_shows removed gone newPrice newQuantity old.isBuy
          rw [Function.update_idem] at added
          rw [Live.step_modify_live alive]
          exact added
  | deleteOrder id =>
      rw [← (Prod.mk.inj (Option.some.inj ran)).1]
      unfold deleteOrder
      rw [shows.lookup]
      cases alive : live id with
      | none =>
          rw [Live.step_delete_dead alive]
          exact shows
      | some old => exact remove_shows shows alive

end OrderBook

end Finm327.Phase5
