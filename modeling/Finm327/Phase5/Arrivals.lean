import Finm327.Phase5.OptimizedInvariant

/-!
# The orders in order of arrival

What the levels of the optimized book are for: the live orders in the order in which they
arrived, where the queue of a price is the part at that price. A modify at another price is
a new arrival and one at the same price keeps its place. The queues of the book follow
these through every operation: each level has the orders that are filed under it in order of
arrival, which are those at its price when prices are linearly ordered.
-/

namespace Finm327.Phase5

open Finm327.Library.Comparisons
open Finm327.Library.Maps
open Function (update)

variable {PriceT : Type}

abbrev Arrivals (PriceT : Type) := List (Order PriceT)

namespace Arrivals

def without (id : String) (arrivals : Arrivals PriceT) : Arrivals PriceT :=
  arrivals.filter fun o => o.id ≠ id

def requantify (id : String) (quantity : Int) (o : Order PriceT) : Order PriceT :=
  if o.id = id then { o with quantity := quantity } else o

def live (arrivals : Arrivals PriceT) : Live PriceT := fun id => arrivals.find? fun o => o.id = id

theorem live_push {arrivals : Arrivals PriceT} {o : Order PriceT} (dead : arrivals.live o.id = none) :
    (arrivals ++ [o]).live = update arrivals.live o.id (some o) := by
  funext other
  unfold live at dead ⊢
  rw [List.find?_append, Function.update_apply]
  split_ifs with own
  · rw [own, dead, Option.none_or, List.find?_singleton, if_pos (decide_eq_true rfl)]
  · rw [List.find?_singleton, if_neg (by simpa using Ne.symm own), Option.or_none]

theorem live_without (id : String) (arrivals : Arrivals PriceT) :
    (without id arrivals).live = update arrivals.live id none := by
  funext other
  unfold live without
  rw [List.find?_filter, Function.update_apply]
  split_ifs with own
  · apply List.find?_eq_none.mpr
    intro o _
    simp [own]
  · congr 1
    funext o
    by_cases same : o.id = other
    · simp [same, own]
    · simp [same]

theorem live_requantify {arrivals : Arrivals PriceT} {id : String} {o : Order PriceT}
    (alive : arrivals.live id = some o) (quantity : Int) :
    live (arrivals.map (requantify id quantity)) =
      update arrivals.live id (some { o with quantity := quantity }) := by
  have sameId : ∀ o : Order PriceT, (requantify id quantity o).id = o.id := by
    intro o
    unfold requantify
    split_ifs <;> rfl
  have named : o.id = id := by simpa using List.find?_some alive
  funext other
  unfold live at alive ⊢
  rw [List.find?_map, Function.update_apply]
  have found : (fun o : Order PriceT => decide (o.id = other)) ∘ requantify id quantity =
      fun o => decide (o.id = other) := by
    funext o
    rw [Function.comp_apply, sameId]
  rw [found]
  split_ifs with own
  · rw [own, alive, Option.map_some, requantify, if_pos named]
  · cases held : arrivals.find? fun o => o.id = other with
    | none => rfl
    | some p =>
        have otherNamed : p.id = other := by simpa using List.find?_some held
        rw [Option.map_some, requantify, if_neg]
        exact fun contrary => own (otherNamed.symm.trans contrary)

def step [Compares PriceT] (arrivals : Arrivals PriceT) : Op PriceT → Arrivals PriceT
  | .addOrder id price quantity isBuy => arrivals ++ [⟨id, price, quantity, isBuy⟩]
  | .modifyOrder id newPrice newQuantity =>
      match arrivals.find? fun o => o.id = id with
      | none => arrivals
      | some old =>
          if Compares.equals old.price newPrice then arrivals.map (requantify id newQuantity)
          else without id arrivals ++ [⟨id, newPrice, newQuantity, old.isBuy⟩]
  | .deleteOrder id => without id arrivals

def queue [DecidableEq PriceT] (arrivals : Arrivals PriceT) (price : PriceT) : List (Order PriceT) :=
  arrivals.filter fun o => o.price = price

/-- By id, the arrived orders change as the live ones do. -/
theorem live_step [Compares PriceT] {arrivals : Arrivals PriceT} {op : Op PriceT}
    (fresh : ∀ id price quantity isBuy, op = .addOrder id price quantity isBuy →
      arrivals.live id = none) : (arrivals.step op).live = arrivals.live.step op := by
  cases op with
  | addOrder id price quantity isBuy => exact live_push (fresh id price quantity isBuy rfl)
  | modifyOrder id newPrice newQuantity =>
      unfold step
      dsimp only
      cases alive : arrivals.live id with
      | none =>
          have found := alive
          unfold live at found
          rw [found, Live.step_modify_dead alive]
      | some old =>
          have found := alive
          unfold live at found
          rw [found, Live.step_modify_live alive]
          dsimp only
          have named : old.id = id := by simpa using List.find?_some found
          split_ifs with same
          · rw [live_requantify alive, ← Compares.eq_of_equals _ _ same, ← named]
          · have gone : (without id arrivals).live id = none := by
              rw [live_without, Function.update_self]
            have pushed := @live_push _ _ ⟨id, newPrice, newQuantity, old.isBuy⟩ gone
            rw [pushed, live_without, Function.update_idem]
  | deleteOrder id => exact live_without id arrivals

end Arrivals

namespace OptimizedOrderBook

open Arrivals

/-- The slot of a queued node. -/
def slotAt (level : PriceT) (n : Nat) : Option (Slot PriceT) := some ⟨some n, level⟩

theorem slot_at_injective {level : PriceT} {n m : Nat} (same : slotAt level n = slotAt level m) :
    n = m := by
  unfold slotAt at same
  injection same with slot
  injection slot with node
  exact Option.some.inj node

def slots (book : OptimizedOrderBook PriceT) (arrivals : Arrivals PriceT) :
    List (Option (Slot PriceT)) :=
  arrivals.map fun o => book.lookup.lookup o.id

variable [DecidableEq PriceT]

def filedUnder (level : PriceT) (slot : Option (Slot PriceT)) : Bool :=
  slot.map Slot.level = some level

variable {Fits : PriceT → PriceT → Prop} {book : OptimizedOrderBook PriceT}
  {queues : Queues PriceT} {arrivals : Arrivals PriceT}

/-- The arrived orders are the live ones, and each queue has the nodes of those filed under
its level in order of arrival. -/
structure Follows (book : OptimizedOrderBook PriceT) (queues : Queues PriceT)
    (arrivals : Arrivals PriceT) : Prop where
  live : ∀ o ∈ arrivals, book.order o.id = some o
  placed : ∀ level, (slots book arrivals).filter (filedUnder level) =
    (queues level).map (slotAt level)

theorem initial_follows (capacity : Nat) :
    Follows (initial capacity : OptimizedOrderBook PriceT) (fun _ => []) [] :=
  ⟨fun _ contrary => absurd contrary List.not_mem_nil, fun _ => rfl⟩

/-- The orders of the queued nodes are those that arrived. -/
theorem Follows.filed_orders (follows : Follows book queues arrivals) (level : PriceT) :
    (queues level).map (orderOf book.pool) =
      (arrivals.filter fun o => filedUnder level (book.lookup.lookup o.id)).map some := by
  have both := congrArg
    (List.map fun slot : Option (Slot PriceT) => slot.bind fun slot =>
      slot.node.bind (orderOf book.pool)) (follows.placed level)
  rw [slots, List.filter_map, List.map_map, List.map_map] at both
  have nodes : ((fun slot : Option (Slot PriceT) => slot.bind fun slot =>
      slot.node.bind (orderOf book.pool)) ∘ slotAt level) = orderOf book.pool := rfl
  rw [nodes] at both
  rw [← both]
  apply List.map_congr_left
  intro o member
  rw [Function.comp_apply, ← order_eq]
  exact follows.live o (List.mem_filter.mp member).1

/-- In a linear order the queue of a level has the arrived orders at its price. -/
theorem Follows.orders (follows : Follows book queues arrivals) (sound : Sound Eq book queues)
    (price : PriceT) :
    (queues price).map (orderOf book.pool) = (queue arrivals price).map some := by
  rw [follows.filed_orders, queue]
  congr 1
  apply List.filter_congr
  intro o arrived
  obtain ⟨n, level, found, _, priced, _⟩ := order_eq_some sound (follows.live o arrived)
  rw [found, filedUnder, ← priced]
  simp

theorem Follows.mem_of_order (follows : Follows book queues arrivals)
    (sound : Sound Fits book queues) {id : String} {o : Order PriceT}
    (alive : book.order id = some o) : o ∈ arrivals := by
  obtain ⟨n, level, _, queued, _, built, _⟩ := order_eq_some sound alive
  have member : orderOf book.pool n ∈ (queues level).map (orderOf book.pool) :=
    List.mem_map_of_mem queued
  rw [follows.filed_orders, built, List.mem_map] at member
  obtain ⟨p, arrived, same⟩ := member
  rw [← Option.some.inj same]
  exact (List.mem_filter.mp arrived).1

theorem Follows.find_eq (follows : Follows book queues arrivals) (sound : Sound Fits book queues)
    (id : String) : (arrivals.find? fun o => o.id = id) = book.order id := by
  cases found : arrivals.find? fun o => o.id = id with
  | some o =>
      have named : o.id = id := by simpa using List.find?_some found
      rw [← named, follows.live o (List.mem_of_find?_eq_some found)]
  | none =>
      cases alive : book.order id with
      | none => rfl
      | some o =>
          obtain ⟨_, _, _, _, _, _, named⟩ := order_eq_some sound alive
          have absent := List.find?_eq_none.mp found o (follows.mem_of_order sound alive)
          exact absurd (decide_eq_true named) absent

theorem Follows.live_eq (follows : Follows book queues arrivals)
    (sound : Sound Fits book queues) : arrivals.live = book.order :=
  funext (follows.find_eq sound)

/-- A new order at the end of its queue. -/
theorem Follows.push (follows : Follows book queues arrivals) {id : String} {price level : PriceT}
    {quantity : Int} {isBuy : Bool} {n : Nat} {next : OptimizedOrderBook PriceT}
    (fresh : id ∉ book.lookup)
    (lookup : next.lookup = emplace id ⟨some n, level⟩ book.lookup)
    (order : next.order = update book.order id (some ⟨id, price, quantity, isBuy⟩)) :
    Follows next (update queues level (queues level ++ [n]))
      (arrivals ++ [⟨id, price, quantity, isBuy⟩]) := by
  have others : ∀ o ∈ arrivals, o.id ≠ id := by
    intro o arrived same
    have alive := follows.live o arrived
    rw [same, order_of_not_mem fresh] at alive
    cases alive
  have pushed : slots next (arrivals ++ [⟨id, price, quantity, isBuy⟩]) =
      slots book arrivals ++ [slotAt level n] := by
    have old : slots next arrivals = slots book arrivals := by
      apply List.map_congr_left
      intro o arrived
      rw [lookup, lookup_emplace_ne (others o arrived)]
    have own : next.lookup.lookup id = slotAt level n := by
      rw [lookup, lookup_emplace_of_notMem fresh, if_pos rfl]
      rfl
    rw [← old, slots, List.map_append, List.map_singleton, own]
    rfl
  constructor
  · intro o member
    rw [order, Function.update_apply]
    rcases List.mem_append.mp member with arrived | last
    · rw [if_neg (others o arrived)]
      exact follows.live o arrived
    · rw [List.mem_singleton.mp last, if_pos rfl]
  · intro other
    rw [pushed, List.filter_append, follows.placed, Function.update_apply, List.filter_singleton]
    by_cases same : other = level
    · have filed : filedUnder other (slotAt level n) = true := by simp [filedUnder, slotAt, same]
      rw [filed, if_pos same, same, List.map_append]
      rfl
    · have elsewhere : filedUnder other (slotAt level n) = false := by
        simp [filedUnder, slotAt, Ne.symm same]
      rw [elsewhere, if_neg same]
      exact List.append_nil _

/-- Pulling a node out of its queue leaves the nodes with other slots. -/
theorem pulled_queues (sound : Sound Fits book queues) {level : PriceT} {n : Nat}
    {front back : List Nat} (split : queues level = front ++ n :: back) :
    ∀ price, update queues level (front ++ back) price =
      (queues price).filter fun m => slotAt price m ≠ slotAt level n := by
  intro price
  have queued : n ∈ queues level := by
    rw [split]
    exact List.mem_append_right _ List.mem_cons_self
  have nodup := sound.nodup level
  rw [split] at nodup
  have apart : n ∉ front ++ back := (List.nodup_middle.mp nodup).notMem
  rw [Function.update_apply]
  split_ifs with same
  · have stays : ∀ m ∈ front ++ back, m ≠ n := fun m member own => apart (own ▸ member)
    rw [same, split, List.filter_append, List.filter_cons_of_neg (by simp),
      ← List.filter_append]
    apply Eq.symm
    apply List.filter_eq_self.mpr
    intro m member
    exact decide_eq_true fun contrary => stays m member (slot_at_injective contrary)
  · apply Eq.symm
    apply List.filter_eq_self.mpr
    intro m member
    apply decide_eq_true
    intro contrary
    injection contrary with slots
    injection slots with _ level
    exact same level

/-- The slots of the arrivals are told apart by their ids. -/
theorem Follows.slot_ne_iff (follows : Follows book queues arrivals)
    (sound : Sound Fits book queues) (id : String) : ∀ o ∈ arrivals,
      (book.lookup.lookup o.id ≠ book.lookup.lookup id ↔ o.id ≠ id) := by
  intro o arrived
  constructor
  · exact fun different same => different (by rw [same])
  · intro different same
    have alive := follows.live o arrived
    rw [order_eq, same, ← order_eq] at alive
    obtain ⟨_, _, _, _, _, _, own⟩ := order_eq_some sound alive
    exact different own

theorem Follows.pull (follows : Follows book queues arrivals) (sound : Sound Fits book queues)
    {id : String} {slot : Slot PriceT} {n : Nat} {front back : List Nat}
    {next : OptimizedOrderBook PriceT} (found : book.lookup.lookup id = some slot)
    (holds : slot.node = some n) (split : queues slot.level = front ++ n :: back)
    (lookup : next.lookup = book.lookup.erase id) (order : next.order = update book.order id none) :
    Follows next (update queues slot.level (front ++ back)) (without id arrivals) := by
  have slot_eq : book.lookup.lookup id = slotAt slot.level n := by
    rw [found, slotAt, ← holds]
  have rest := pulled_queues sound split
  have pulled : slots next (without id arrivals) =
      (slots book arrivals).filter fun slot => slot ≠ book.lookup.lookup id := by
    have kept : without id arrivals = arrivals.filter ((fun slot =>
        decide (slot ≠ book.lookup.lookup id)) ∘ fun o => book.lookup.lookup o.id) := by
      apply List.filter_congr
      intro o arrived
      exact decide_eq_decide.mpr (follows.slot_ne_iff sound id o arrived).symm
    rw [slots, slots, List.filter_map, ← kept]
    apply List.map_congr_left
    intro o member
    rw [lookup, AList.lookup_erase_ne (of_decide_eq_true (List.mem_filter.mp member).2)]
  constructor
  · intro o member
    obtain ⟨arrived, different⟩ := List.mem_filter.mp member
    rw [order, Function.update_of_ne (of_decide_eq_true different)]
    exact follows.live o arrived
  · intro level
    have filed := congrArg (List.filter fun slot => slot ≠ book.lookup.lookup id)
      (follows.placed level)
    rw [List.filter_filter, List.filter_map] at filed
    rw [pulled, List.filter_filter, rest level, ← slot_eq]
    refine Eq.trans ?_ filed
    apply List.filter_congr
    intro slot _
    exact Bool.and_comm _ _

theorem Follows.requantify (follows : Follows book queues arrivals) {id : String}
    {o : Order PriceT} {quantity : Int} {next : OptimizedOrderBook PriceT}
    (alive : book.order id = some o) (lookup : next.lookup = book.lookup)
    (order : next.order = update book.order id (some { o with quantity := quantity })) :
    Follows next queues (arrivals.map (Arrivals.requantify id quantity)) := by
  have sameId : ∀ o : Order PriceT, (Arrivals.requantify id quantity o).id = o.id := by
    intro o
    unfold Arrivals.requantify
    split_ifs
    · rfl
    · rfl
  have kept : slots next (arrivals.map (Arrivals.requantify id quantity)) =
      slots book arrivals := by
    rw [slots, List.map_map]
    apply List.map_congr_left
    intro p _
    rw [Function.comp_apply, sameId, lookup]
  constructor
  · intro changed member
    obtain ⟨p, arrived, rfl⟩ := List.mem_map.mp member
    have held := follows.live p arrived
    rw [sameId, order, Function.update_apply, Arrivals.requantify]
    split_ifs with own
    · rw [own, alive, Option.some.injEq] at held
      rw [held]
    · exact held
  · intro level
    rw [kept]
    exact follows.placed level

end OptimizedOrderBook

end Finm327.Phase5
