import Mathlib.Data.Int.Order.Basic
import Mathlib.Data.List.Perm.Subperm
import Finm327.Library.Runs
import Finm327.Phase5.Arrivals

/-!
# The optimized book refines its queues

Reads the levels of the book the way a program would, by walking the nodes from the head,
and relates what is found to the orders in order of arrival. Every run that respects the
capacity and adds new ids only keeps the lists well formed and in this order, each order at
the level of its price as long as prices are linearly ordered.
-/

namespace Finm327.Phase5

open Finm327.Library
open Finm327.Library.Chains
open Finm327.Library.Comparisons
open Finm327.Library.Maps
open Finm327.Library.Runs
open Function (update)

variable {PriceT : Type}

namespace OptimizedOrderBook

/-- The nodes from a pointer on, at most `fuel` of them. -/
def walk (pool : MemoryPool (Node PriceT)) : Nat → Option Nat → List Nat
  | 0, _ => []
  | _ + 1, none => []
  | fuel + 1, some n => n :: walk pool fuel (nextOf pool n)

theorem walk_chain {pool : MemoryPool (Node PriceT)} {before : Option Nat} {nodes : List Nat}
    {fuel : Nat} (chain : Chain (prevOf pool) (nextOf pool) before nodes none)
    (enough : nodes.length ≤ fuel) : walk pool fuel nodes.head? = nodes := by
  induction nodes generalizing before fuel with
  | nil =>
      cases fuel with
      | zero => rfl
      | succ fuel => rfl
  | cons n rest ih =>
      cases fuel with
      | zero => cases enough
      | succ fuel =>
          obtain ⟨_, forth, chained⟩ := chain
          rw [Option.or_none] at forth
          rw [List.head?_cons, walk, forth, ih chained (Nat.le_of_succ_le_succ enough)]

theorem first_and_last {pool : MemoryPool (Node PriceT)} {nodes : List Nat}
    (chain : Chain (prevOf pool) (nextOf pool) none nodes none) (nonempty : nodes ≠ []) :
    (∃ n, nodes.head? = some n ∧ prevOf pool n = none) ∧
      ∃ n, nodes.getLast? = some n ∧ nextOf pool n = none := by
  constructor
  · cases nodes with
    | nil => exact absurd rfl nonempty
    | cons n rest => exact ⟨n, rfl, chain.1⟩
  · rcases List.eq_nil_or_concat nodes with empty | ⟨init, n, split⟩
    · exact absurd empty nonempty
    · rw [List.concat_eq_append] at split
      subst split
      exact ⟨n, List.getLast?_concat, (chain_links chain).2⟩

variable [DecidableEq PriceT]

/-- The nodes of a level from its head on. -/
def nodes (book : OptimizedOrderBook PriceT) (price : PriceT) : List Nat :=
  walk book.pool book.pool.capacity ((book.orderLevels.lookup price).bind Level.head)

variable {Fits : PriceT → PriceT → Prop} {book : OptimizedOrderBook PriceT}
  {queues : Queues PriceT}

theorem queue_length_le (sound : Sound Fits book queues) (price : PriceT) :
    (queues price).length ≤ book.pool.capacity := by
  have inSlab : queues price ⊆ List.range book.pool.capacity := by
    intro n member
    have held := (sound.held n).mpr ⟨price, member⟩
    exact List.mem_range.mpr ((sound.pool.alive n).mp held).1
  have counted := (List.subperm_of_subset (sound.nodup price) inSlab).length_le
  rw [List.length_range] at counted
  exact counted

theorem nodes_eq (sound : Sound Fits book queues) (price : PriceT) :
    nodes book price = queues price := by
  unfold nodes
  have head : (book.orderLevels.lookup price).bind Level.head = (queues price).head? := by
    rw [sound.level]
    split_ifs with empty
    · rw [empty]
      rfl
    · rfl
  rw [head]
  exact walk_chain (sound.chain price) (queue_length_le sound price)

/-- What a reader of the pointers finds. -/
structure WellFormed (book : OptimizedOrderBook PriceT) : Prop where
  pool : PoolSound book.pool
  head : ∀ price lvl, book.orderLevels.lookup price = some lvl →
    (nodes book price).head? = lvl.head ∧ ∃ n, lvl.head = some n ∧ prevOf book.pool n = none
  tail : ∀ price lvl, book.orderLevels.lookup price = some lvl →
    (nodes book price).getLast? = lvl.tail ∧ ∃ n, lvl.tail = some n ∧ nextOf book.pool n = none
  inverse : ∀ n m, nextOf book.pool n = some m ↔ prevOf book.pool m = some n
  acyclic : ∀ price, (nodes book price).Nodup
  oneLevel : ∀ n price other, n ∈ nodes book price → n ∈ nodes book other → price = other
  indexed : ∀ n, (∃ price, n ∈ nodes book price) ↔
    ∃ id slot, book.lookup.lookup id = some slot ∧ slot.node = some n
  inUse : ∀ n, (∃ price, n ∈ nodes book price) ↔ book.pool.alive n = true
  slot : ∀ id slot, book.lookup.lookup id = some slot → ∃ n o, slot.node = some n ∧
    orderOf book.pool n = some o ∧ o.id = id ∧ slot.level = o.price ∧ n ∈ nodes book slot.level

theorem links_inverse (sound : Sound Fits book queues) (n m : Nat) :
    nextOf book.pool n = some m ↔ prevOf book.pool m = some n := by
  have queued : ∀ n, (book.pool.buffer n).isSome = true → ∃ price, n ∈ queues price := by
    intro n built
    rw [sound.pool.built] at built
    exact (sound.held n).mp built
  constructor
  · intro forth
    obtain ⟨node, built, _⟩ := Option.bind_eq_some_iff.mp forth
    obtain ⟨price, member⟩ := queued n (Option.isSome_iff_exists.mpr ⟨node, built⟩)
    exact ((chain_next_iff (sound.chain price)).mp ⟨member, forth⟩).2
  · intro links
    obtain ⟨node, built, _⟩ := Option.bind_eq_some_iff.mp links
    obtain ⟨price, member⟩ := queued m (Option.isSome_iff_exists.mpr ⟨node, built⟩)
    exact ((chain_next_iff (sound.chain price)).mpr ⟨member, links⟩).2

theorem sound_well_formed (sound : Sound Eq book queues) : WellFormed book := by
  have level : ∀ price lvl, book.orderLevels.lookup price = some lvl →
      queues price ≠ [] ∧ ends (queues price) = lvl := by
    intro price lvl found
    rw [sound.level] at found
    split_ifs at found with empty
    exact ⟨empty, Option.some.inj found⟩
  constructor
  · exact sound.pool
  · intro price lvl found
    obtain ⟨nonempty, rfl⟩ := level price lvl found
    rw [nodes_eq sound]
    exact ⟨rfl, (first_and_last (sound.chain price) nonempty).1⟩
  · intro price lvl found
    obtain ⟨nonempty, rfl⟩ := level price lvl found
    rw [nodes_eq sound]
    exact ⟨rfl, (first_and_last (sound.chain price) nonempty).2⟩
  · exact links_inverse sound
  · intro price
    rw [nodes_eq sound]
    exact sound.nodup price
  · intro n price other member also
    rw [nodes_eq sound] at member also
    exact queue_unique sound member also
  · intro n
    simp only [nodes_eq sound]
    constructor
    · rintro ⟨price, member⟩
      obtain ⟨o, _, _, known⟩ := sound.node price n member
      exact ⟨o.id, _, known, rfl⟩
    · rintro ⟨id, slot, known, holds⟩
      obtain ⟨m, _, holdsToo, queued, _⟩ := sound.slot id slot known
      rw [holds, Option.some.injEq] at holdsToo
      exact ⟨slot.level, holdsToo ▸ queued⟩
  · intro n
    simp only [nodes_eq sound]
    exact (sound.held n).symm
  · intro id slot known
    obtain ⟨n, o, holds, queued, built, named⟩ := sound.slot id slot known
    obtain ⟨p, builtToo, priced, _⟩ := sound.node slot.level n queued
    rw [built, Option.some.injEq] at builtToo
    rw [nodes_eq sound]
    exact ⟨n, o, holds, built, named, by rw [builtToo, ← priced], queued⟩

/-- The book has the arrived orders in its queues and one slot for each. -/
structure Refines (Fits : PriceT → PriceT → Prop) (book : OptimizedOrderBook PriceT)
    (capacity : Nat) (arrivals : Arrivals PriceT) : Prop where
  queued : ∃ queues, Sound Fits book queues ∧ Follows book queues arrivals
  slab : book.pool.capacity = capacity
  counted : book.pool.freeList.length + book.size = capacity

variable {capacity : Nat} {arrivals : Arrivals PriceT}

theorem initial_refines (capacity : Nat) :
    Refines Fits (initial capacity : OptimizedOrderBook PriceT) capacity [] where
  queued := ⟨_, initial_sound capacity, initial_follows capacity⟩
  slab := rfl
  counted := by simp [initial, MemoryPool.make, size, Maps.size]

theorem remove_refines (refines : Refines Fits book capacity arrivals) {id : String}
    {slot : Slot PriceT} (found : book.lookup.lookup id = some slot) :
    ∃ middle next, unlink slot book = some middle ∧
      next = { middle with
        pool := middle.pool.release slot.node
        lookup := middle.lookup.erase id } ∧
      id ∉ next.lookup ∧ next.size < capacity ∧
      Refines Fits next capacity (Arrivals.without id arrivals) := by
  obtain ⟨queues, sound, follows⟩ := refines.queued
  obtain ⟨n, front, back, middle, next, holds, split, ran, shape, nextSound, freeList, slab,
    lookup, order⟩ := remove_sound sound found
  have counted := refines.counted
  have smaller := size_erase (mem_iff_lookup.mpr ⟨slot, found⟩)
  have nextSize : next.size + 1 = book.size := by
    rw [size, lookup, smaller, size]
  refine ⟨middle, next, ran, shape, ?_, ?_,
    ⟨_, nextSound, follows.pull sound found holds split lookup order⟩, slab.trans refines.slab,
    ?_⟩
  · rw [lookup, ← AList.lookup_eq_none]
    exact AList.lookup_erase _ _
  · omega
  · rw [freeList, List.length_cons]
    omega

theorem delete_refines (refines : Refines Fits book capacity arrivals) (id : String) :
    ∃ next, deleteOrder id book = some next ∧
      Refines Fits next capacity (Arrivals.without id arrivals) := by
  obtain ⟨queues, sound, follows⟩ := refines.queued
  unfold deleteOrder
  cases found : book.lookup.lookup id with
  | none =>
      have dead : ∀ o ∈ arrivals, decide (o.id ≠ id) = true := by
        intro o arrived
        apply decide_eq_true
        intro same
        have alive := follows.live o arrived
        rw [same, order_eq, found] at alive
        cases alive
      have same : Arrivals.without id arrivals = arrivals := List.filter_eq_self.mpr dead
      rw [same]
      exact ⟨book, rfl, refines⟩
  | some slot =>
      obtain ⟨middle, next, ran, shape, _, _, nextRefines⟩ := remove_refines refines found
      simp only [ran, Option.bind_eq_bind, Option.bind_some, Option.pure_def]
      exact ⟨next, by rw [shape], nextRefines⟩

variable [Compares PriceT]

/-- A level that is found or made for a price is one that orders at this price fit. -/
def Places (Fits : PriceT → PriceT → Prop) : Prop :=
  ∀ (price : PriceT) (orderLevels : KeyMap PriceT Level), Fits (place price orderLevels) price

theorem add_refines (places : Places Fits) (refines : Refines Fits book capacity arrivals)
    {id : String} (fresh : id ∉ book.lookup) (room : book.size < capacity) (price : PriceT)
    (quantity : Int) (isBuy : Bool) :
    ∃ next, addOrder id price quantity isBuy book = some next ∧
      Refines Fits next capacity (arrivals ++ [⟨id, price, quantity, isBuy⟩]) := by
  obtain ⟨queues, sound, follows⟩ := refines.queued
  have counted := refines.counted
  cases free : book.pool.freeList with
  | nil =>
      rw [free, List.length_nil] at counted
      omega
  | cons n rest =>
      obtain ⟨next, ran, nextSound, freeList, slab, lookup, order⟩ :=
        @add_order_sound _ _ _ _ _ id price quantity isBuy _ _ _ sound free fresh _ rfl
          (places price book.orderLevels)
      refine ⟨next, ran, ⟨_, nextSound, follows.push fresh lookup order⟩,
        slab.trans refines.slab, ?_⟩
      rw [free, List.length_cons] at counted
      rw [freeList, size, lookup, size_emplace fresh]
      simp only [size] at counted
      omega

theorem modify_refines (places : Places Fits) (refines : Refines Fits book capacity arrivals)
    (id : String) (newPrice : PriceT) (newQuantity : Int) :
    ∃ next, modifyOrder id newPrice newQuantity book = some next ∧
      Refines Fits next capacity (Arrivals.step arrivals (.modifyOrder id newPrice newQuantity)) := by
  obtain ⟨queues, sound, follows⟩ := refines.queued
  unfold modifyOrder Arrivals.step
  dsimp only
  rw [follows.find_eq sound]
  cases alive : book.order id with
  | none =>
      have absent : book.lookup.lookup id = none := by
        rw [AList.lookup_eq_none, mem_lookup_iff sound, alive]
        simp
      rw [absent]
      exact ⟨book, rfl, refines⟩
  | some old =>
      obtain ⟨n, level, found, queued, _, built, named⟩ := order_eq_some sound alive
      obtain ⟨node, holds, order⟩ := Option.map_eq_some_iff.mp built
      simp only [found, holds, order, Option.bind_eq_bind, Option.bind_some, Option.pure_def]
      split_ifs with same
      · obtain ⟨next, ran, nextSound, freeList, slab, lookup, nextOrder⟩ :=
          quantity_sound sound queued built named newQuantity
        rw [Option.map_eq_bind] at ran
        refine ⟨next, ran, ⟨_, nextSound, follows.requantify alive lookup nextOrder⟩,
          slab.trans refines.slab, ?_⟩
        rw [freeList, size, lookup]
        exact refines.counted
      · obtain ⟨middle, next, ran, shape, gone, room, nextRefines⟩ := remove_refines refines found
        obtain ⟨last, added, lastRefines⟩ :=
          add_refines places nextRefines gone room newPrice newQuantity old.isBuy
        rw [ran, Option.bind_some]
        rw [shape] at added
        exact ⟨last, added, lastRefines⟩

/-- Adds use ids that are not in the book and leave at most `capacity` orders. -/
def addsNew (capacity : Nat) (config : Config (OptimizedOrderBook PriceT) (Op PriceT) Unit) :
    Op PriceT → Prop
  | .addOrder id _ _ _ => config.state.contains id = false ∧ config.state.size < capacity
  | _ => True

instance (capacity : Nat) (config : Config (OptimizedOrderBook PriceT) (Op PriceT) Unit) :
    ∀ op : Op PriceT, Decidable (addsNew capacity config op)
  | .addOrder id _ _ _ => inferInstanceAs
      (Decidable (config.state.contains id = false ∧ config.state.size < capacity))
  | .modifyOrder .. => .isTrue trivial
  | .deleteOrder _ => .isTrue trivial

theorem step_refines (places : Places Fits)
    {config : Config (OptimizedOrderBook PriceT) (Op PriceT) Unit}
    (refines : Refines Fits config.state capacity arrivals) {op : Op PriceT}
    (permitted : addsNew capacity config op) :
    ∃ next, config.state.step op = some (next, ()) ∧
      Refines Fits next capacity (Arrivals.step arrivals op) := by
  cases op with
  | addOrder id price quantity isBuy =>
      obtain ⟨absent, room⟩ := permitted
      obtain ⟨next, ran, nextRefines⟩ :=
        add_refines places refines (of_decide_eq_false absent) room price quantity isBuy
      exact ⟨next, by rw [step, ran, Option.map_some], nextRefines⟩
  | modifyOrder id newPrice newQuantity =>
      obtain ⟨next, ran, nextRefines⟩ := modify_refines places refines id newPrice newQuantity
      exact ⟨next, by rw [step, ran, Option.map_some], nextRefines⟩
  | deleteOrder id =>
      obtain ⟨next, ran, nextRefines⟩ := delete_refines refines id
      exact ⟨next, by rw [step, ran, Option.map_some], nextRefines⟩

/-- The live orders of the book change as they should. -/
theorem order_of_refines {next : OptimizedOrderBook PriceT} {op : Op PriceT}
    (refines : Refines Fits book capacity arrivals)
    (nextRefines : Refines Fits next capacity (Arrivals.step arrivals op))
    (fresh : ∀ id price quantity isBuy, op = .addOrder id price quantity isBuy →
      book.order id = none) : next.order = Live.step book.order op := by
  obtain ⟨queues, sound, follows⟩ := refines.queued
  obtain ⟨_, nextSound, nextFollows⟩ := nextRefines.queued
  rw [← nextFollows.live_eq nextSound, ← follows.live_eq sound]
  apply Arrivals.live_step
  rw [follows.live_eq sound]
  exact fresh

/-- The orders in order of arrival after some operations. -/
def arrived (ops : List (Op PriceT)) : Arrivals PriceT := ops.foldl Arrivals.step []

theorem reachable_refines (places : Places Fits)
    {config : Config (OptimizedOrderBook PriceT) (Op PriceT) Unit}
    (reached : Reachable step (addsNew capacity) (initial capacity) config) :
    Refines Fits config.state capacity (arrived config.ops) := by
  refine reachable_invariant (fun config => Refines Fits config.state capacity (arrived config.ops))
    (initial_refines capacity) ?_ reached
  intro config op next _ refines permitted ran
  obtain ⟨result, ranToo, nextRefines⟩ := step_refines places refines permitted
  rw [ran, Option.some.injEq, Prod.mk.injEq] at ranToo
  rw [Config.push_ops, arrived, List.foldl_concat, Config.push_state, ranToo.1]
  exact nextRefines

section LinearPrices

variable {PriceT : Type} [LinearOrder PriceT] {capacity : Nat}

theorem places_own_price : Places (Eq : PriceT → PriceT → Prop) :=
  fun price orderLevels => place_eq price orderLevels

/-- When prices are linearly ordered, in every run the lists of the levels are well formed,
walking them gives the orders in order of arrival, and every further operation has a
result. -/
theorem refines_queues {config : Config (OptimizedOrderBook PriceT) (Op PriceT) Unit}
    (reached : Reachable step (addsNew capacity) (initial capacity) config) :
    WellFormed config.state ∧
      (∀ price, (nodes config.state price).map (orderOf config.state.pool) =
        (Arrivals.queue (arrived config.ops) price).map some) ∧
      ∀ op, addsNew capacity config op → ∃ next, config.state.step op = some (next, ()) := by
  have refines := reachable_refines places_own_price reached
  obtain ⟨queues, sound, follows⟩ := refines.queued
  refine ⟨sound_well_formed sound, ?_, ?_⟩
  · intro price
    rw [nodes_eq sound]
    exact follows.orders sound price
  · intro op permitted
    obtain ⟨next, ran, _⟩ := step_refines places_own_price refines permitted
    exact ⟨next, ran⟩

end LinearPrices

/-- Three ids at one price, the middle one relocated and back, the head deleted, a modify
in place, and a delete whose slot the next add takes. -/
def queueOps : List (Op Int) :=
  [.addOrder "A" 10 1 true, .addOrder "B" 10 2 true, .addOrder "C" 10 3 false,
    .modifyOrder "B" 11 4, .modifyOrder "B" 10 5, .deleteOrder "A", .modifyOrder "C" 10 6,
    .addOrder "D" 10 7 true]

theorem refines_queues_sample :
    ∃ config : Config (OptimizedOrderBook Int) (Op Int) Unit,
      Reachable step (addsNew 3) (initial 3) config ∧ nodes config.state 10 = [2, 1, 0] ∧
        WellFormed config.state ∧
        (∀ price, (nodes config.state price).map (orderOf config.state.pool) =
          (Arrivals.queue (arrived config.ops) price).map some) ∧
        ∀ op, addsNew 3 config op → ∃ next, config.state.step op = some (next, ()) := by
  have completes : (execute step (addsNew 3) (.start (initial 3 : OptimizedOrderBook Int))
      queueOps).any (fun config => decide (nodes config.state 10 = [2, 1, 0])) = true := by
    decide
  obtain ⟨config, reached, found⟩ := reachable_of_execute_any completes
  exact ⟨config, reached, found, refines_queues reached⟩

/-- A price that compares with none joins the level that is there. -/
theorem nan_joins_level :
    ∃ config : Config (OptimizedOrderBook (WithNaN Int)) (Op (WithNaN Int)) Unit,
      Reachable step (addsNew 2) (initial 2) config ∧
        config.state.lookup.lookup "B" = some ⟨some 1, .number 10⟩ ∧
        config.state.order "B" = some ⟨"B", .nan, 1, true⟩ ∧ ¬ WellFormed config.state := by
  have completes : (execute step (addsNew 2)
      (.start (initial 2 : OptimizedOrderBook (WithNaN Int)))
      [.addOrder "A" (.number 10) 1 true, .addOrder "B" .nan 1 true]).any (fun config =>
        decide (config.state.lookup.lookup "B" = some ⟨some 1, .number 10⟩ ∧
          config.state.order "B" = some ⟨"B", .nan, 1, true⟩)) = true := by
    decide
  obtain ⟨config, reached, found, held⟩ := reachable_of_execute_any completes
  refine ⟨config, reached, found, held, ?_⟩
  intro wellFormed
  obtain ⟨n, o, node, built, _, level, _⟩ := wellFormed.slot "B" _ found
  rw [order_eq, found, Option.bind_some, node, Option.bind_some, built, Option.some.injEq] at held
  rw [held] at level
  cases level

end OptimizedOrderBook

end Finm327.Phase5
