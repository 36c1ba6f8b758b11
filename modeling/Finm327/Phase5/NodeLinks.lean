import Finm327.Phase5.OrderBook

/-!
# Reading and writing links of pool nodes

The three members of the nodes in the slab, read as functions of the slot. A
write to one link changes one value of one of these functions and keeps the
orders and the bookkeeping of the pool.
-/

namespace Finm327.Phase5

open Function (update)

variable {PriceT : Type}

def orderOf (pool : MemoryPool (Node PriceT)) (n : Nat) : Option (Order PriceT) :=
  (pool.buffer n).map Node.order

def prevOf (pool : MemoryPool (Node PriceT)) (n : Nat) : Option Nat :=
  (pool.buffer n).bind Node.prev

def nextOf (pool : MemoryPool (Node PriceT)) (n : Nat) : Option Nat :=
  (pool.buffer n).bind Node.next

variable {pool after later : MemoryPool (Node PriceT)} {n : Nat} {node : Node PriceT}
  {prev next : Nat → Option Nat}

theorem built_iff_order : (pool.buffer n).isSome = (orderOf pool n).isSome := by
  rw [orderOf, Option.isSome_map]

theorem views_of_buffer (built : pool.buffer n = some node) :
    orderOf pool n = some node.order ∧ prevOf pool n = node.prev ∧ nextOf pool n = node.next := by
  refine ⟨?_, ?_, ?_⟩
  · rw [orderOf, built, Option.map_some]
  · rw [prevOf, built, Option.bind_some]
  · rw [nextOf, built, Option.bind_some]

/-- The pool with an object `value` built in slot `n`, or with none there. -/
theorem views_update (pool : MemoryPool (Node PriceT)) (freeList : List Nat) (alive : Nat → Bool)
    (n : Nat) (value : Option (Node PriceT)) :
    orderOf ⟨pool.capacity, update pool.buffer n value, alive, freeList⟩ =
        update (orderOf pool) n (value.map Node.order) ∧
      prevOf ⟨pool.capacity, update pool.buffer n value, alive, freeList⟩ =
        update (prevOf pool) n (value.bind Node.prev) ∧
      nextOf ⟨pool.capacity, update pool.buffer n value, alive, freeList⟩ =
        update (nextOf pool) n (value.bind Node.next) := by
  refine ⟨?_, ?_, ?_⟩
  all_goals
    funext m
    by_cases same : m = n
    · subst same
      simp [orderOf, prevOf, nextOf]
    · simp [orderOf, prevOf, nextOf, same]

/-- The pool `after` differs from `pool` in links only; its links are `prev`
and `next`. -/
structure Relinked (pool after : MemoryPool (Node PriceT)) (prev next : Nat → Option Nat) :
    Prop where
  capacity : after.capacity = pool.capacity
  freeList : after.freeList = pool.freeList
  alive : after.alive = pool.alive
  orders : orderOf after = orderOf pool
  prev : prevOf after = prev
  next : nextOf after = next

theorem relinked_refl : Relinked pool pool (prevOf pool) (nextOf pool) :=
  ⟨rfl, rfl, rfl, rfl, rfl, rfl⟩

theorem Relinked.trans {prevMid nextMid : Nat → Option Nat}
    (first : Relinked pool after prevMid nextMid) (second : Relinked after later prev next) :
    Relinked pool later prev next where
  capacity := second.capacity.trans first.capacity
  freeList := second.freeList.trans first.freeList
  alive := second.alive.trans first.alive
  orders := second.orders.trans first.orders
  prev := second.prev
  next := second.next

theorem relinked_sound (sound : PoolSound pool) (relinked : Relinked pool after prev next) :
    PoolSound after where
  nodup := by
    rw [relinked.freeList]
    exact sound.nodup
  inSlab := by
    rw [relinked.freeList, relinked.capacity]
    exact sound.inSlab
  alive := by
    rw [relinked.freeList, relinked.capacity, relinked.alive]
    exact sound.alive
  built := by
    intro idx
    rw [built_iff_order, relinked.orders, relinked.alive, ← built_iff_order]
    exact sound.built idx

/-- `n->prev = target`. -/
theorem set_prev_relinked (built : (orderOf pool n).isSome = true) (target : Option Nat) :
    ∃ after, pool.modify n (fun node => { node with prev := target }) = some after ∧
      Relinked pool after (update (prevOf pool) n target) (nextOf pool) := by
  rw [← built_iff_order] at built
  obtain ⟨node, holds⟩ := Option.isSome_iff_exists.mp built
  obtain ⟨order, prev, next⟩ := views_of_buffer holds
  have views := views_update pool pool.freeList pool.alive n (some { node with prev := target })
  refine ⟨_, MemoryPool.modify_eq_some holds _, rfl, rfl, rfl, ?_, views.2.1, ?_⟩
  · rw [views.1, Option.map_some, ← order, Function.update_eq_self]
  · rw [views.2.2, Option.bind_some, ← next, Function.update_eq_self]

/-- `n->next = target`. -/
theorem set_next_relinked (built : (orderOf pool n).isSome = true) (target : Option Nat) :
    ∃ after, pool.modify n (fun node => { node with next := target }) = some after ∧
      Relinked pool after (prevOf pool) (update (nextOf pool) n target) := by
  rw [← built_iff_order] at built
  obtain ⟨node, holds⟩ := Option.isSome_iff_exists.mp built
  obtain ⟨order, prev, next⟩ := views_of_buffer holds
  have views := views_update pool pool.freeList pool.alive n (some { node with next := target })
  refine ⟨_, MemoryPool.modify_eq_some holds _, rfl, rfl, rfl, ?_, ?_, views.2.2⟩
  · rw [views.1, Option.map_some, ← order, Function.update_eq_self]
  · rw [views.2.1, Option.bind_some, ← prev, Function.update_eq_self]

/-- A write to the order of a node. -/
theorem set_order {o : Order PriceT} (built : orderOf pool n = some o)
    (change : Order PriceT → Order PriceT) :
    ∃ after, pool.modify n (fun node => { node with order := change node.order }) = some after ∧
      after.capacity = pool.capacity ∧ after.freeList = pool.freeList ∧ after.alive = pool.alive ∧
      orderOf after = update (orderOf pool) n (some (change o)) ∧ prevOf after = prevOf pool ∧
      nextOf after = nextOf pool := by
  obtain ⟨node, holds, same⟩ := Option.map_eq_some_iff.mp built
  obtain ⟨_, prev, next⟩ := views_of_buffer holds
  have views := views_update pool pool.freeList pool.alive n
    (some { node with order := change node.order })
  refine ⟨_, MemoryPool.modify_eq_some holds _, rfl, rfl, rfl, ?_, ?_, ?_⟩
  · rw [views.1, Option.map_some, same]
  · rw [views.2.1, Option.bind_some, ← prev, Function.update_eq_self]
  · rw [views.2.2, Option.bind_some, ← next, Function.update_eq_self]

namespace OptimizedOrderBook

theorem set_next_or_head {ptr : Option Nat} (built : ∀ n, ptr = some n → (orderOf pool n).isSome = true)
    (value : Option Nat) (lvl : Level) :
    ∃ after, setNextOrHead ptr value lvl pool =
        some (after, if ptr = none then { lvl with head := value } else lvl) ∧
      Relinked pool after (prevOf pool) (fun m => if ptr = some m then value else nextOf pool m) := by
  cases ptr with
  | none => exact ⟨pool, rfl, relinked_refl⟩
  | some n =>
      obtain ⟨after, ran, relinked⟩ := set_next_relinked (built n rfl) value
      refine ⟨after, ?_, ?_⟩
      · rw [setNextOrHead, ran]
        rfl
      · have same : update (nextOf pool) n value =
            fun m => if some n = some m then value else nextOf pool m := by
          funext m
          simp only [Function.update_apply, Option.some.injEq, eq_comm]
        rw [← same]
        exact relinked

theorem set_prev_or_tail {ptr : Option Nat} (built : ∀ n, ptr = some n → (orderOf pool n).isSome = true)
    (value : Option Nat) (lvl : Level) :
    ∃ after, setPrevOrTail ptr value lvl pool =
        some (after, if ptr = none then { lvl with tail := value } else lvl) ∧
      Relinked pool after (fun m => if ptr = some m then value else prevOf pool m) (nextOf pool) := by
  cases ptr with
  | none => exact ⟨pool, rfl, relinked_refl⟩
  | some n =>
      obtain ⟨after, ran, relinked⟩ := set_prev_relinked (built n rfl) value
      refine ⟨after, ?_, ?_⟩
      · rw [setPrevOrTail, ran]
        rfl
      · have same : update (prevOf pool) n value =
            fun m => if some n = some m then value else prevOf pool m := by
          funext m
          simp only [Function.update_apply, Option.some.injEq, eq_comm]
        rw [← same]
        exact relinked

end OptimizedOrderBook

end Finm327.Phase5
