import Finm327.Phase5.Refinement

/-!
# The slots of the optimized book

How many slots are in use, and what an add does when none is left. A second add of a live
id takes a slot that no lookup entry leads to, and an add to a full pool follows the null
pointer that `acquire` returns. Both keep out of every run in which adds use new ids and
find a free slot.
-/

namespace Finm327.Phase5

open Finm327.Library
open Finm327.Library.Comparisons
open Finm327.Library.Maps
open Finm327.Library.Runs
open Function (update)

variable {PriceT : Type} [DecidableEq PriceT]

namespace OptimizedOrderBook

/-- Every slot in use belongs to a live id. -/
structure Accounted (book : OptimizedOrderBook PriceT) : Prop where
  inUse : book.pool.inUse = book.size
  registered : ∀ price, ∀ n ∈ nodes book price, ∃ o slot, orderOf book.pool n = some o ∧
    book.lookup.lookup o.id = some slot ∧ slot.node = some n
  emptied : (∀ id, id ∉ book.lookup) → book.levels = 0

def usesNewId (book : OptimizedOrderBook PriceT) : Op PriceT → Prop
  | .addOrder id _ _ _ => book.contains id = false
  | _ => True

def findsSlot (book : OptimizedOrderBook PriceT) : Op PriceT → Prop
  | .addOrder .. => book.pool.inUse < book.pool.capacity
  | _ => True

omit [DecidableEq PriceT] in
instance (book : OptimizedOrderBook PriceT) : ∀ op, Decidable (findsSlot book op)
  | .addOrder .. => inferInstanceAs (Decidable (book.pool.inUse < book.pool.capacity))
  | .modifyOrder .. => .isTrue trivial
  | .deleteOrder _ => .isTrue trivial

variable {Fits : PriceT → PriceT → Prop} {book : OptimizedOrderBook PriceT} {capacity : Nat}
  {arrivals : Arrivals PriceT}

theorem in_use_eq (refines : Refines Fits book capacity arrivals) :
    book.pool.inUse = book.size := by
  have counted := refines.counted
  rw [MemoryPool.inUse, refines.slab]
  omega

theorem accounted_of_refines (refines : Refines Fits book capacity arrivals) : Accounted book := by
  obtain ⟨queues, sound, _⟩ := refines.queued
  refine ⟨in_use_eq refines, ?_, ?_⟩
  · intro price n member
    rw [nodes_eq sound] at member
    obtain ⟨o, built, _, known⟩ := sound.node price n member
    exact ⟨o, _, built, known, rfl⟩
  · intro gone
    apply size_of_forall_notMem
    intro price present
    obtain ⟨id, o, alive, _⟩ := exists_of_mem_levels sound present
    exact gone id ((mem_lookup_iff sound id).mpr ⟨o, alive⟩)

theorem adds_new_iff {config : Config (OptimizedOrderBook PriceT) (Op PriceT) Unit}
    (refines : Refines Fits config.state capacity arrivals) (op : Op PriceT) :
    addsNew capacity config op ↔ usesNewId config.state op ∧ findsSlot config.state op := by
  cases op with
  | addOrder id price quantity isBuy =>
      unfold addsNew usesNewId findsSlot
      rw [in_use_eq refines, refines.slab]
  | modifyOrder id newPrice newQuantity => exact ⟨fun _ => ⟨trivial, trivial⟩, fun _ => trivial⟩
  | deleteOrder id => exact ⟨fun _ => ⟨trivial, trivial⟩, fun _ => trivial⟩

omit [DecidableEq PriceT] in
theorem places_any [Compares PriceT] : Places fun _ _ : PriceT => True := fun _ _ => trivial

/-! ## Repeated ids -/

/-- A second add of a live id takes one more slot and registers no id for it. -/
theorem add_again_leaks [Compares PriceT] (refines : Refines Fits book capacity arrivals)
    {id : String} (present : id ∈ book.lookup) (room : book.pool.inUse < book.pool.capacity) (price : PriceT)
    (quantity : Int) (isBuy : Bool) :
    ∃ next, addOrder id price quantity isBuy book = some next ∧ ¬ Accounted next := by
  obtain ⟨queues, sound, _⟩ := refines.queued
  cases free : book.pool.freeList with
  | nil =>
      rw [MemoryPool.inUse, free, List.length_nil] at room
      omega
  | cons n rest =>
      obtain ⟨pool, ran, added⟩ :=
        @add_order_eq _ _ _ _ _ id price quantity isBuy _ _ _ sound free _ rfl
      refine ⟨_, ran, ?_⟩
      intro accounted
      have leaked := accounted.inUse
      have counted := refines.counted
      rw [free, List.length_cons, ← refines.slab, size] at counted
      rw [MemoryPool.inUse, added.capacity, added.freeList, size,
        size_emplace_of_mem present] at leaked
      omega

/-- Within the capacity every operation has a result, and it leaves a slot without a live
id exactly when it adds an id that is in the book. -/
theorem no_leak_iff [Compares PriceT]
    {config : Config (OptimizedOrderBook PriceT) (Op PriceT) Unit}
    (reached : Reachable step (addsNew capacity) (initial capacity) config) :
    Accounted config.state ∧ ∀ op, findsSlot config.state op →
      ∃ next, config.state.step op = some (next, ()) ∧
        (Accounted next ↔ usesNewId config.state op) := by
  have refines := reachable_refines places_any reached
  refine ⟨accounted_of_refines refines, ?_⟩
  intro op room
  by_cases new : usesNewId config.state op
  · obtain ⟨next, ran, nextRefines⟩ :=
      step_refines places_any refines ((adds_new_iff refines op).mpr ⟨new, room⟩)
    exact ⟨next, ran, fun _ => new, fun _ => accounted_of_refines nextRefines⟩
  · cases op with
    | addOrder id price quantity isBuy =>
        have present : id ∈ config.state.lookup := by
          apply Decidable.byContradiction
          exact fun absent => new (decide_eq_false absent)
        obtain ⟨next, ran, leaks⟩ := add_again_leaks refines present room price quantity isBuy
        exact ⟨next, by rw [step, ran, Option.map_some], fun fine => absurd fine leaks,
          fun contrary => absurd contrary new⟩
    | modifyOrder id newPrice newQuantity => exact absurd trivial new
    | deleteOrder id => exact absurd trivial new

theorem no_leak_sample :
    ∃ config : Config (OptimizedOrderBook Int) (Op Int) Unit,
      Reachable step (addsNew 3) (initial 3) config ∧ config.state.size = 3 ∧
        Accounted config.state ∧ ∀ op, findsSlot config.state op →
          ∃ next, config.state.step op = some (next, ()) ∧
            (Accounted next ↔ usesNewId config.state op) := by
  have completes : (execute step (addsNew 3) (.start (initial 3 : OptimizedOrderBook Int))
      queueOps).any (fun config => decide (config.state.size = 3)) = true := by
    decide
  obtain ⟨config, reached, found⟩ := reachable_of_execute_any completes
  exact ⟨config, reached, found, no_leak_iff reached⟩

/-- An id is added twice and deleted once: no id is left, but one slot and one level are. -/
theorem ghost_order_stays :
    ∃ config : Config (OptimizedOrderBook Int) (Op Int) Unit,
      Reachable step (fun config op => findsSlot config.state op) (initial 2) config ∧
        config.state.size = 0 ∧ config.state.pool.inUse = 1 ∧ config.state.levels = 1 ∧
        ¬ Accounted config.state := by
  have completes : (execute step (fun config op => findsSlot config.state op)
      (.start (initial 2 : OptimizedOrderBook Int))
      [.addOrder "A" 10 5 true, .addOrder "A" 10 6 true, .deleteOrder "A"]).any (fun config =>
        decide (config.state.size = 0 ∧ config.state.pool.inUse = 1 ∧
          config.state.levels = 1)) = true := by
    decide
  obtain ⟨config, reached, empty, inUse, levels⟩ := reachable_of_execute_any completes
  refine ⟨config, reached, empty, inUse, levels, ?_⟩
  intro accounted
  have equal := accounted.inUse
  rw [inUse, empty] at equal
  cases equal

/-! ## A full pool -/

/-- What an operation is to leave: an add to a full pool the book as it was, and any other
operation the orders that it is for. -/
def Leaves (book : OptimizedOrderBook PriceT) (op : Op PriceT) (next : OptimizedOrderBook PriceT) :
    Prop :=
  match op with
  | .addOrder .. => if book.pool.inUse = book.pool.capacity then next = book
      else next.order = Live.step book.order op
  | _ => next.order = Live.step book.order op

/-- The operation follows no null pointer and leaves what it is to leave. -/
def Handled [Compares PriceT] (book : OptimizedOrderBook PriceT) (op : Op PriceT) : Prop :=
  ∃ next, book.step op = some (next, ()) ∧ Leaves book op next

theorem add_full_undefined [Compares PriceT] (book : OptimizedOrderBook PriceT) {id : String}
    {price : PriceT} {quantity : Int} {isBuy : Bool} (full : book.pool.freeList = []) :
    addOrder id price quantity isBuy book = none := by
  unfold addOrder MemoryPool.acquire
  rw [full]

/-- In every run whose adds use new ids and find a slot, a further operation with a new id
is handled exactly when it is no add to a full pool: `addOrder` links the null pointer that
it gets there. -/
theorem exhaustion_handled_iff [Compares PriceT]
    {config : Config (OptimizedOrderBook PriceT) (Op PriceT) Unit}
    (reached : Reachable step (addsNew capacity) (initial capacity) config) :
    ∀ op, usesNewId config.state op →
      (Handled config.state op ↔ findsSlot config.state op) := by
  have refines := reachable_refines places_any reached
  intro op new
  constructor
  · rintro ⟨next, ran, _⟩
    cases op with
    | addOrder id price quantity isBuy =>
        apply Decidable.byContradiction
        intro full
        have counted := refines.counted
        have inUse := in_use_eq refines
        unfold findsSlot at full
        rw [inUse, refines.slab] at full
        have none : config.state.pool.freeList = [] := List.eq_nil_of_length_eq_zero (by omega)
        rw [step, add_full_undefined config.state none] at ran
        cases ran
    | modifyOrder id newPrice newQuantity => exact trivial
    | deleteOrder id => exact trivial
  · intro room
    obtain ⟨next, ran, nextRefines⟩ :=
      step_refines places_any refines ((adds_new_iff refines op).mpr ⟨new, room⟩)
    have order : next.order = Live.step config.state.order op := by
      apply order_of_refines refines nextRefines
      rintro id price quantity isBuy rfl
      exact order_of_not_mem (of_decide_eq_false new)
    refine ⟨next, ran, ?_⟩
    cases op with
    | addOrder id price quantity isBuy =>
        unfold Leaves
        dsimp only
        rw [if_neg (Nat.ne_of_lt room)]
        exact order
    | modifyOrder id newPrice newQuantity => exact order
    | deleteOrder id => exact order

/-- The pool is full, an order is relocated in it and another one deleted. -/
def fullOps : List (Op Int) :=
  [.addOrder "A" 10 1 true, .addOrder "B" 10 2 false, .modifyOrder "A" 11 3, .deleteOrder "B",
    .addOrder "C" 12 4 true]

theorem exhaustion_handled_sample :
    ∃ config : Config (OptimizedOrderBook Int) (Op Int) Unit,
      Reachable step (addsNew 2) (initial 2) config ∧
        config.state.pool.inUse = config.state.pool.capacity ∧
        config.state.order "A" = some ⟨"A", 11, 3, true⟩ ∧
        (Handled config.state (.modifyOrder "A" 12 5) ↔
          findsSlot config.state (.modifyOrder "A" 12 5)) := by
  have completes : (execute step (addsNew 2) (.start (initial 2 : OptimizedOrderBook Int))
      fullOps).any (fun config => decide (config.state.pool.inUse = config.state.pool.capacity ∧
        config.state.order "A" = some ⟨"A", 11, 3, true⟩)) = true := by
    decide
  obtain ⟨config, reached, full, kept⟩ := reachable_of_execute_any completes
  exact ⟨config, reached, full, kept, exhaustion_handled_iff reached _ trivial⟩

theorem add_to_full_pool :
    ∃ config : Config (OptimizedOrderBook Int) (Op Int) Unit,
      Reachable step (addsNew 1) (initial 1) config ∧
        config.state.pool.inUse = config.state.pool.capacity ∧
        usesNewId config.state (.addOrder "B" 11 2 true) ∧
        config.state.step (.addOrder "B" 11 2 true) = none ∧
        ¬ Handled config.state (.addOrder "B" 11 2 true) := by
  have completes : (execute step (addsNew 1) (.start (initial 1 : OptimizedOrderBook Int))
      [.addOrder "A" 10 1 true]).any (fun config =>
        decide (config.state.pool.inUse = config.state.pool.capacity ∧
          config.state.contains "B" = false ∧
          (config.state.step (.addOrder "B" 11 2 true)).isNone = true)) = true := by
    decide
  obtain ⟨config, reached, full, absent, undefined⟩ := reachable_of_execute_any completes
  rw [Option.isNone_iff_eq_none] at undefined
  refine ⟨config, reached, full, absent, undefined, ?_⟩
  rintro ⟨next, defined, _⟩
  rw [undefined] at defined
  cases defined

end OptimizedOrderBook

end Finm327.Phase5
