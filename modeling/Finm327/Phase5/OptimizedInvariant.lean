import Finm327.Library.Chains
import Finm327.Phase5.LiveOrders
import Finm327.Phase5.NodeLinks

/-!
# The invariant of the optimized book

`queues` lists the slots of each price level in order of arrival. Every queue
is a doubly linked chain in the slab, the levels hold exactly the ends of the
non-empty queues, the held slots are exactly the queued ones, and lookup
entries and queued nodes correspond. Each operation keeps this for suitable
queues and has a result as long as a slot is free when one is needed. Which
orders are filed under which level is a parameter: any under any when prices
compare in no particular way, and those of its own price in a linear order.
-/

namespace Finm327.Phase5

open Finm327.Library
open Finm327.Library.Chains
open Finm327.Library.Comparisons
open Finm327.Library.Maps
open Function (update)

variable {PriceT : Type} [DecidableEq PriceT] {Fits : PriceT → PriceT → Prop}

namespace OptimizedOrderBook

abbrev Queues (PriceT : Type) := PriceT → List Nat

/-- The ends of a queue, as a `Level` holds them. -/
def ends (queue : List Nat) : Level := ⟨queue.head?, queue.getLast?⟩

theorem ends_push_back (queue : List Nat) (n : Nat) :
    ends (queue ++ [n]) =
      { (if queue.getLast? = none then { ends queue with head := some n } else ends queue) with
        tail := some n } := by
  rw [ends, List.getLast?_concat]
  cases queue with
  | nil => rfl
  | cons first rest => simp [ends]

theorem ends_unlink (front back : List Nat) (n : Nat) :
    (let lvl := ends (front ++ n :: back)
     let lvl := if front.getLast? = none then { lvl with head := back.head? } else lvl
     if back.head? = none then { lvl with tail := front.getLast? } else lvl) =
      ends (front ++ back) := by
  have head : (if front.getLast? = none then back.head? else (front ++ n :: back).head?) =
      (front ++ back).head? := by
    cases front with
    | nil => rfl
    | cons first rest => simp
  have tail : (if back.head? = none then front.getLast? else (front ++ n :: back).getLast?) =
      (front ++ back).getLast? := by
    cases back with
    | nil => simp
    | cons next others =>
        rw [List.getLast?_append, List.getLast?_append, List.getLast?_cons_cons]
        simp
  unfold ends
  rw [← head, ← tail]
  split_ifs <;> rfl

/-- `Fits level price` is what a level has to do with the prices of its orders. -/
structure Sound (Fits : PriceT → PriceT → Prop) (book : OptimizedOrderBook PriceT)
    (queues : Queues PriceT) : Prop where
  pool : PoolSound book.pool
  held : ∀ n, book.pool.alive n = true ↔ ∃ price, n ∈ queues price
  nodup : ∀ price, (queues price).Nodup
  chain : ∀ price, Chain (prevOf book.pool) (nextOf book.pool) none (queues price) none
  level : ∀ price, book.orderLevels.lookup price =
    if queues price = [] then none else some (ends (queues price))
  node : ∀ price, ∀ n ∈ queues price, ∃ o, orderOf book.pool n = some o ∧ Fits price o.price ∧
    book.lookup.lookup o.id = some ⟨some n, price⟩
  slot : ∀ id slot, book.lookup.lookup id = some slot → ∃ n o, slot.node = some n ∧
    n ∈ queues slot.level ∧ orderOf book.pool n = some o ∧ o.id = id

variable {book : OptimizedOrderBook PriceT} {queues : Queues PriceT}

theorem initial_sound (capacity : Nat) :
    Sound Fits (initial capacity : OptimizedOrderBook PriceT) fun _ => [] where
  pool := MemoryPool.make_sound capacity
  held := by simp [initial, MemoryPool.make]
  nodup := fun _ => List.nodup_nil
  chain := fun _ => trivial
  level := fun _ => rfl
  node := by simp
  slot := by simp [initial]

theorem queue_unique (sound : Sound Fits book queues) {n : Nat} {price other : PriceT}
    (member : n ∈ queues price) (also : n ∈ queues other) : price = other := by
  obtain ⟨o, holds, _, known⟩ := sound.node price n member
  obtain ⟨p, same, _, knownToo⟩ := sound.node other n also
  rw [holds, Option.some.injEq] at same
  rw [← same, known, Option.some.injEq] at knownToo
  exact congrArg Slot.level knownToo

theorem queued_built (sound : Sound Fits book queues) {n : Nat} {price : PriceT}
    (member : n ∈ queues price) : (orderOf book.pool n).isSome = true := by
  obtain ⟨o, holds, _⟩ := sound.node price n member
  rw [holds]
  rfl

omit [DecidableEq PriceT] in
/-- The order stored for a live id. -/
theorem order_eq (book : OptimizedOrderBook PriceT) (id : String) :
    book.order id =
      (book.lookup.lookup id).bind fun slot => slot.node.bind (orderOf book.pool) := by
  unfold order
  cases book.lookup.lookup id with
  | none => rfl
  | some slot =>
      cases node : slot.node with
      | none => simp [node]
      | some n => cases holds : book.pool.buffer n <;> simp [node, orderOf, holds]

omit [DecidableEq PriceT] in
theorem order_of_not_mem {book : OptimizedOrderBook PriceT} {id : String}
    (absent : id ∉ book.lookup) : book.order id = none := by
  rw [order_eq, AList.lookup_eq_none.mpr absent]
  rfl

/-- The node of a live id, and the level it is queued at. -/
theorem order_eq_some (sound : Sound Fits book queues) {id : String} {o : Order PriceT}
    (alive : book.order id = some o) :
    ∃ n level, book.lookup.lookup id = some ⟨some n, level⟩ ∧ n ∈ queues level ∧
      Fits level o.price ∧ orderOf book.pool n = some o ∧ o.id = id := by
  rw [order_eq] at alive
  obtain ⟨slot, found, _⟩ := Option.bind_eq_some_iff.mp alive
  obtain ⟨n, p, holds, queued, built, named⟩ := sound.slot id slot found
  obtain ⟨_, same, fits, _⟩ := sound.node slot.level n queued
  rw [found, Option.bind_some, holds, Option.bind_some, built, Option.some.injEq] at alive
  rw [built, alive, Option.some.injEq] at same
  refine ⟨n, slot.level, ?_, queued, same ▸ fits, alive ▸ built, alive ▸ named⟩
  rw [found, ← holds]

theorem mem_lookup_iff (sound : Sound Fits book queues) (id : String) :
    id ∈ book.lookup ↔ ∃ o, book.order id = some o := by
  rw [mem_iff_lookup]
  constructor
  · rintro ⟨slot, found⟩
    obtain ⟨n, o, holds, _, built, _⟩ := sound.slot id slot found
    refine ⟨o, ?_⟩
    rw [order_eq, found, Option.bind_some, holds, Option.bind_some, built]
  · rintro ⟨o, alive⟩
    obtain ⟨n, level, found, _⟩ := order_eq_some sound alive
    exact ⟨_, found⟩

/-- A level is there for some live order. -/
theorem exists_of_mem_levels (sound : Sound Fits book queues) {price : PriceT}
    (present : price ∈ book.orderLevels) :
    ∃ id o, book.order id = some o ∧ Fits price o.price := by
  obtain ⟨level, found⟩ := mem_iff_lookup.mp present
  rw [sound.level price] at found
  split_ifs at found with empty
  obtain ⟨n, member⟩ := List.exists_mem_of_ne_nil _ empty
  obtain ⟨o, built, fits, known⟩ := sound.node price n member
  refine ⟨o.id, o, ?_, fits⟩
  rw [order_eq, known, Option.bind_some, Option.bind_some, built]

/-- In a linear order the levels are the prices of the live orders. -/
theorem mem_levels_iff (sound : Sound Eq book queues) (price : PriceT) :
    price ∈ book.orderLevels ↔ Live.At book.order price := by
  constructor
  · intro present
    obtain ⟨id, o, alive, priced⟩ := exists_of_mem_levels sound present
    exact ⟨id, o, alive, priced.symm⟩
  · rintro ⟨id, o, alive, priced⟩
    obtain ⟨n, level, _, queued, fits, _⟩ := order_eq_some sound alive
    rw [fits, priced] at queued
    rw [mem_iff_lookup, sound.level price, if_neg (List.ne_nil_of_mem queued)]
    exact ⟨_, rfl⟩

section Add

variable {id : String} {price : PriceT} {quantity : Int} {isBuy : Bool} {n : Nat} {rest : List Nat}

/-- What `addOrder` leaves of the pool. -/
structure Added (book : OptimizedOrderBook PriceT) (queue : List Nat) (o : Order PriceT) (n : Nat)
    (rest : List Nat) (pool : MemoryPool (Node PriceT)) : Prop where
  sound : PoolSound pool
  capacity : pool.capacity = book.pool.capacity
  freeList : pool.freeList = rest
  alive : pool.alive = update book.pool.alive n true
  orders : orderOf pool = update (orderOf book.pool) n (some o)
  prev : ∀ m, prevOf pool m = if m = n then queue.getLast? else prevOf book.pool m
  next : ∀ m, nextOf pool m =
    if m = n then none else if queue.getLast? = some m then some n else nextOf book.pool m

theorem free_not_queued (sound : Sound Fits book queues) (free : book.pool.freeList = n :: rest)
    {m : Nat} {other : PriceT} (member : m ∈ queues other) : m ≠ n := by
  intro same
  have held := (sound.held m).mpr ⟨other, member⟩
  rw [same, sound.pool.alive, free] at held
  simp at held

/-- The level `try_emplace` finds or makes. -/
theorem lookup_emplaced (sound : Sound Fits book queues) (price : PriceT) :
    (emplace price ⟨none, none⟩ book.orderLevels).lookup price = some (ends (queues price)) := by
  have level := sound.level price
  split_ifs at level with empty
  · rw [lookup_emplace_of_notMem (AList.lookup_eq_none.mp level), if_pos rfl, empty]
    rfl
  · have member : price ∈ book.orderLevels := mem_iff_lookup.mpr ⟨_, level⟩
    rw [emplace, if_pos member, level]

theorem add_order_eq [Compares PriceT] (sound : Sound Fits book queues)
    (free : book.pool.freeList = n :: rest) {level : PriceT}
    (placed : place price book.orderLevels = level) :
    ∃ pool, addOrder id price quantity isBuy book = some ⟨pool,
        (emplace level ⟨none, none⟩ book.orderLevels).insert level (ends (queues level ++ [n])),
        emplace id ⟨some n, level⟩ book.lookup⟩ ∧
      Added book (queues level) ⟨id, price, quantity, isBuy⟩ n rest pool := by
  subst placed
  have acquiredSound := MemoryPool.acquire_sound sound.pool
    (⟨⟨id, price, quantity, isBuy⟩, none, none⟩ : Node PriceT)
  have acquired := MemoryPool.acquire_cons
    (⟨⟨id, price, quantity, isBuy⟩, none, none⟩ : Node PriceT) free
  have views := views_update book.pool rest (update book.pool.alive n true) n
    (some ⟨⟨id, price, quantity, isBuy⟩, none, none⟩)
  simp only [addOrder, lookup_emplaced sound (place price book.orderLevels)]
  generalize place price book.orderLevels = level
  generalize book.pool.acquire ⟨⟨id, price, quantity, isBuy⟩, none, none⟩ = result at *
  subst acquired
  dsimp only at acquiredSound ⊢
  generalize made : ({ book.pool with
    freeList := rest
    buffer := update book.pool.buffer n (some ⟨⟨id, price, quantity, isBuy⟩, none, none⟩)
    alive := update book.pool.alive n true } : MemoryPool (Node PriceT)) = pool1 at *
  have capacity : pool1.capacity = book.pool.capacity := by rw [← made]
  have freeList : pool1.freeList = rest := by rw [← made]
  have alive : pool1.alive = update book.pool.alive n true := by rw [← made]
  obtain ⟨orders, prev, next⟩ := views
  have built : (orderOf pool1 n).isSome = true := by
    rw [orders, Function.update_self]
    rfl
  obtain ⟨pool2, setPrev, relinked⟩ := set_prev_relinked built (ends (queues level)).tail
  have tailBuilt : ∀ m, (queues level).getLast? = some m → (orderOf pool2 m).isSome = true := by
    intro m isLast
    have member := List.mem_of_getLast? isLast
    rw [relinked.orders, orders, Function.update_of_ne (free_not_queued sound free member)]
    exact queued_built sound member
  obtain ⟨pool3, setNext, relinkedNext⟩ :=
    set_next_or_head tailBuilt (some n) (ends (queues level))
  rw [relinked.prev, relinked.next, next, prev] at relinkedNext
  have both := relinked.trans relinkedNext
  refine ⟨pool3, ?_, relinked_sound acquiredSound both, both.capacity.trans capacity,
    both.freeList.trans freeList, both.alive.trans alive, both.orders.trans orders, ?_, ?_⟩
  · simp only [setPrev, Option.bind_eq_bind, Option.bind_some, Option.pure_def]
    have tail : (ends (queues level)).tail = (queues level).getLast? := rfl
    rw [tail, setNext, Option.bind_some, ends_push_back]
  · intro m
    rw [both.prev, Function.update_idem, Function.update_apply]
    rfl
  · intro m
    rw [both.next]
    dsimp only
    rw [Function.update_apply]
    by_cases own : m = n
    · have notLast : ¬ (queues level).getLast? = some m := by
        intro isLast
        exact free_not_queued sound free (List.mem_of_getLast? isLast) own
      rw [if_pos own, if_neg notLast, if_pos own]
      rfl
    · rw [if_neg own, if_neg own]

theorem queued_after_add (queues : Queues PriceT) (price other : PriceT)
    (n m : Nat) :
    m ∈ update queues price (queues price ++ [n]) other ↔
      m ∈ queues other ∨ other = price ∧ m = n := by
  rw [Function.update_apply]
  split_ifs with same
  · simp [same]
  · simp [same]

theorem Added.chain {o : Order PriceT} {pool : MemoryPool (Node PriceT)}
    (added : Added book (queues price) o n rest pool) (sound : Sound Fits book queues)
    (free : book.pool.freeList = n :: rest) (other : PriceT) :
    Chain (prevOf pool) (nextOf pool) none
      (update queues price (queues price ++ [n]) other) none := by
  have notQueued : ∀ other, ∀ m ∈ queues other, m ≠ n :=
    fun other m member => free_not_queued sound free member
  rw [Function.update_apply]
  split_ifs with same
  · apply chain_push_back (sound.chain price) (sound.nodup price)
    · rw [added.prev, if_pos rfl]
    · rw [added.next, if_pos rfl]
    · intro m member
      rw [added.prev, if_neg (notQueued price m member)]
    · intro m member notLast
      rw [added.next, if_neg (notQueued price m member), if_neg notLast]
    · intro last isLast
      rw [added.next, if_neg (notQueued price last (List.mem_of_getLast? isLast)), if_pos isLast]
  · apply chain_congr (sound.chain other)
    · intro m member
      rw [added.prev, if_neg (notQueued other m member)]
    · intro m member
      have apart : (queues price).getLast? ≠ some m := by
        intro isLast
        exact same (queue_unique sound member (List.mem_of_getLast? isLast))
      rw [added.next, if_neg (notQueued other m member), if_neg apart]

theorem level_of_added (sound : Sound Fits book queues) (price other : PriceT) (n : Nat) :
    ((emplace price ⟨none, none⟩ book.orderLevels).insert price
      (ends (queues price ++ [n]))).lookup other =
      if update queues price (queues price ++ [n]) other = [] then none
      else some (ends (update queues price (queues price ++ [n]) other)) := by
  rw [lookup_insert_eq, Function.update_apply]
  split_ifs with same empty
  · simp at empty
  · rfl
  · rw [lookup_emplace_ne same, sound.level other, if_pos ‹_›]
  · rw [lookup_emplace_ne same, sound.level other, if_neg ‹_›]

theorem order_of_added (sound : Sound Fits book queues) (free : book.pool.freeList = n :: rest)
    (fresh : id ∉ book.lookup) {o : Order PriceT} {next : OptimizedOrderBook PriceT}
    (orders : orderOf next.pool = update (orderOf book.pool) n (some o))
    (lookup : next.lookup = emplace id ⟨some n, price⟩ book.lookup) :
    next.order = update book.order id (some o) := by
  funext other
  rw [order_eq, Function.update_apply, lookup, lookup_emplace_of_notMem fresh]
  split_ifs with same
  · rw [Option.bind_some, Option.bind_some, orders, Function.update_self]
  · rw [order_eq]
    cases found : book.lookup.lookup other with
    | none => rfl
    | some slot =>
        obtain ⟨m, p, holds, queued, _⟩ := sound.slot other slot found
        rw [Option.bind_some, Option.bind_some, holds, Option.bind_some, Option.bind_some, orders,
          Function.update_of_ne (free_not_queued sound free queued)]

theorem add_order_sound [Compares PriceT] (sound : Sound Fits book queues)
    (free : book.pool.freeList = n :: rest) (fresh : id ∉ book.lookup) {level : PriceT}
    (placed : place price book.orderLevels = level) (fits : Fits level price) :
    ∃ next, addOrder id price quantity isBuy book = some next ∧
      Sound Fits next (update queues level (queues level ++ [n])) ∧
      next.pool.freeList = rest ∧ next.pool.capacity = book.pool.capacity ∧
      next.lookup = emplace id ⟨some n, level⟩ book.lookup ∧
      next.order = update book.order id (some ⟨id, price, quantity, isBuy⟩) := by
  obtain ⟨pool, ran, added⟩ :=
    @add_order_eq _ _ _ _ _ id price quantity isBuy _ _ _ sound free _ placed
  have notQueued : ∀ other, ∀ m ∈ queues other, m ≠ n :=
    fun other m member => free_not_queued sound free member
  have lookups := fun other => lookup_emplace_of_notMem fresh other
    (⟨some n, level⟩ : Slot PriceT)
  have members := queued_after_add queues level
  refine ⟨_, ran, ?_, added.freeList, added.capacity, rfl, ?_⟩
  · constructor
    · exact added.sound
    · intro m
      dsimp only
      rw [added.alive, Function.update_apply]
      simp only [members]
      split_ifs with own
      · simp [own]
      · simp [own, sound.held m]
    · intro other
      rw [Function.update_apply]
      split_ifs
      · apply List.nodup_append.mpr
        refine ⟨sound.nodup level, List.nodup_singleton n, ?_⟩
        intro m member last isLast
        rw [List.mem_singleton.mp isLast]
        exact notQueued level m member
      · exact sound.nodup other
    · exact added.chain sound free
    · exact fun other => level_of_added sound level other n
    · intro other m member
      dsimp only
      rw [added.orders, Function.update_apply]
      rcases (members other n m).mp member with old | ⟨atLevel, own⟩
      · obtain ⟨o, holds, filed, found⟩ := sound.node other m old
        have known : o.id ≠ id := by
          intro same
          exact fresh (mem_iff_lookup.mpr ⟨_, same ▸ found⟩)
        rw [if_neg (notQueued other m old)]
        refine ⟨o, holds, filed, ?_⟩
        rw [lookups, if_neg known, found]
      · rw [if_pos own]
        refine ⟨_, rfl, atLevel ▸ fits, ?_⟩
        rw [lookups, if_pos rfl, own, atLevel]
    · intro other slot found
      dsimp only at found ⊢
      rw [lookups] at found
      rw [added.orders]
      split_ifs at found with same
      · rw [← Option.some.inj found]
        refine ⟨n, _, rfl, (members level n n).mpr (.inr ⟨rfl, rfl⟩), Function.update_self _ _ _,
          same.symm⟩
      · obtain ⟨m, o, holds, queued, built, named⟩ := sound.slot other slot found
        refine ⟨m, o, holds, (members _ n m).mpr (.inl queued), ?_, named⟩
        rw [Function.update_of_ne (notQueued _ m queued), built]
  · exact order_of_added sound free fresh added.orders rfl

end Add

section Remove

variable {id : String} {slot : Slot PriceT} {n : Nat} {front back : List Nat}

omit [DecidableEq PriceT] in
theorem exists_node {pool : MemoryPool (Node PriceT)} (built : (orderOf pool n).isSome = true) :
    ∃ node, pool.buffer n = some node ∧ node.prev = prevOf pool n ∧ node.next = nextOf pool n := by
  rw [← built_iff_order] at built
  obtain ⟨node, holds⟩ := Option.isSome_iff_exists.mp built
  obtain ⟨_, prev, next⟩ := views_of_buffer holds
  exact ⟨node, holds, prev.symm, next.symm⟩

/-- `unlink` makes the neighbours of the node, or the ends of the level, point
past it, and drops a level that has become empty. -/
theorem unlink_eq (sound : Sound Fits book queues) (holds : slot.node = some n)
    (queue : queues slot.level = front ++ n :: back) :
    ∃ pool, unlink slot book = some { book with
        pool := pool
        orderLevels := if front ++ back = [] then book.orderLevels.erase slot.level
          else book.orderLevels.insert slot.level (ends (front ++ back)) } ∧
      Relinked book.pool pool
        (fun m => if back.head? = some m then front.getLast? else prevOf book.pool m)
        (fun m => if front.getLast? = some m then back.head? else nextOf book.pool m) := by
  have chain := sound.chain slot.level
  have nodup := sound.nodup slot.level
  have level := sound.level slot.level
  rw [queue] at chain nodup level
  rw [if_neg (by simp)] at level
  obtain ⟨links, forth⟩ := chain_links chain
  have built : ∀ m ∈ front ++ n :: back, (orderOf book.pool m).isSome = true := by
    intro m member
    rw [← queue] at member
    exact queued_built sound member
  obtain ⟨node, nodeHolds, nodePrev, nodeNext⟩ := exists_node (built n (by simp))
  have apart : n ∉ front ++ back := (List.nodup_middle.mp nodup).notMem
  rw [links] at nodePrev
  rw [forth] at nodeNext
  have frontBuilt : ∀ m, front.getLast? = some m → (orderOf book.pool m).isSome = true :=
    fun m isLast => built m (List.mem_append_left _ (List.mem_of_getLast? isLast))
  obtain ⟨pool1, ranNext, relinkedNext⟩ := set_next_or_head frontBuilt back.head?
    (ends (front ++ n :: back))
  -- the node itself is not its own neighbour, so the second read finds the same links
  have notLast : ¬ front.getLast? = some n := fun isLast =>
    apart (List.mem_append_left _ (List.mem_of_getLast? isLast))
  have stillBuilt : (orderOf pool1 n).isSome = true := by
    rw [relinkedNext.orders]
    exact built n (by simp)
  obtain ⟨again, againHolds, againPrev, againNext⟩ := exists_node stillBuilt
  rw [relinkedNext.prev, links] at againPrev
  rw [relinkedNext.next] at againNext
  dsimp only at againNext
  rw [if_neg notLast, forth] at againNext
  have backBuilt : ∀ m, back.head? = some m → (orderOf pool1 m).isSome = true := by
    intro m isFirst
    rw [relinkedNext.orders]
    exact built m (List.mem_append_right _ (List.mem_cons_of_mem _ (List.mem_of_head? isFirst)))
  obtain ⟨pool2, ranPrev, relinkedPrev⟩ := set_prev_or_tail backBuilt front.getLast?
    (if front.getLast? = none then { ends (front ++ n :: back) with head := back.head? }
      else ends (front ++ n :: back))
  rw [relinkedNext.prev, relinkedNext.next] at relinkedPrev
  refine ⟨pool2, ?_, relinkedNext.trans relinkedPrev⟩
  have remaining := ends_unlink front back n
  dsimp only at remaining
  rw [remaining] at ranPrev
  have isEmpty : (ends (front ++ back)).head = none ↔ front ++ back = [] := List.head?_eq_none_iff
  simp only [unlink, holds, level, nodeHolds, Option.bind_eq_bind, Option.bind_some, Option.pure_def,
    nodePrev, nodeNext, ranNext, againHolds, againPrev, againNext, ranPrev, isEmpty]

/-- What unlinking and releasing a node leaves of the pool. -/
structure Removed (book : OptimizedOrderBook PriceT) (front back : List Nat) (n : Nat)
    (pool : MemoryPool (Node PriceT)) : Prop where
  sound : PoolSound pool
  capacity : pool.capacity = book.pool.capacity
  freeList : pool.freeList = n :: book.pool.freeList
  alive : pool.alive = update book.pool.alive n false
  orders : orderOf pool = update (orderOf book.pool) n none
  prev : ∀ m, m ≠ n → prevOf pool m =
    if back.head? = some m then front.getLast? else prevOf book.pool m
  next : ∀ m, m ≠ n → nextOf pool m =
    if front.getLast? = some m then back.head? else nextOf book.pool m

theorem release_removed {pool : MemoryPool (Node PriceT)} (sound : Sound Fits book queues)
    (held : book.pool.alive n = true)
    (relinked : Relinked book.pool pool
      (fun m => if back.head? = some m then front.getLast? else prevOf book.pool m)
      (fun m => if front.getLast? = some m then back.head? else nextOf book.pool m)) :
    Removed book front back n (pool.release (some n)) := by
  have views := views_update pool (n :: pool.freeList) (update pool.alive n false) n none
  rw [relinked.orders, relinked.prev, relinked.next] at views
  obtain ⟨orders, prev, next⟩ : orderOf (pool.release (some n)) = _ ∧
    prevOf (pool.release (some n)) = _ ∧ nextOf (pool.release (some n)) = _ := views
  have heldAlive : pool.alive n = true := by
    rw [relinked.alive]
    exact held
  constructor
  · exact MemoryPool.release_sound (relinked_sound sound.pool relinked) heldAlive
  · exact relinked.capacity
  · rw [← relinked.freeList]
    rfl
  · rw [← relinked.alive]
    rfl
  · exact orders
  · intro m different
    rw [prev, Function.update_of_ne different]
  · intro m different
    rw [next, Function.update_of_ne different]

theorem queued_after_remove (sound : Sound Fits book queues) {level : PriceT}
    (queue : queues level = front ++ n :: back) (other : PriceT) (m : Nat) :
    m ∈ update queues level (front ++ back) other ↔ m ∈ queues other ∧ m ≠ n := by
  have nodup := sound.nodup level
  rw [queue] at nodup
  have apart : n ∉ front ++ back := (List.nodup_middle.mp nodup).notMem
  rw [Function.update_apply]
  split_ifs with same
  · rw [same, queue]
    simp only [List.mem_append, List.mem_cons] at apart ⊢
    constructor
    · rintro (inFront | inBack)
      · exact ⟨.inl inFront, fun own => apart (.inl (own ▸ inFront))⟩
      · exact ⟨.inr (.inr inBack), fun own => apart (.inr (own ▸ inBack))⟩
    · rintro ⟨inFront | own | inBack, other⟩
      · exact .inl inFront
      · exact absurd own other
      · exact .inr inBack
  · refine ⟨fun member => ⟨member, ?_⟩, And.left⟩
    intro own
    have queued : n ∈ queues level := by
      rw [queue]
      exact List.mem_append_right _ List.mem_cons_self
    exact same (queue_unique sound member (own ▸ queued))

theorem Removed.chain {pool : MemoryPool (Node PriceT)} (removed : Removed book front back n pool)
    (sound : Sound Fits book queues) {level : PriceT} (queue : queues level = front ++ n :: back)
    (other : PriceT) :
    Chain (prevOf pool) (nextOf pool) none (update queues level (front ++ back) other) none := by
  have nodup := sound.nodup level
  have chain := sound.chain level
  rw [queue] at nodup chain
  have apart : n ∉ front ++ back := (List.nodup_middle.mp nodup).notMem
  rw [Function.update_apply]
  split_ifs with same
  · obtain ⟨links, forth⟩ := chain_links chain
    apply chain_unlink chain nodup
    · intro m member notLast
      have different : m ≠ n := fun own => apart (own ▸ member)
      rw [links] at notLast
      rw [removed.next m different, if_neg notLast]
    · intro m isLast
      rw [links] at isLast
      have different : m ≠ n := fun own =>
        apart (List.mem_append_left _ (own ▸ List.mem_of_getLast? isLast))
      rw [removed.next m different, if_pos isLast, forth]
    · intro m member notFirst
      have different : m ≠ n := fun own => apart (own ▸ member)
      rw [forth] at notFirst
      rw [removed.prev m different, if_neg notFirst]
    · intro m isFirst
      rw [forth] at isFirst
      have different : m ≠ n := fun own =>
        apart (List.mem_append_right _ (own ▸ List.mem_of_head? isFirst))
      rw [removed.prev m different, if_pos isFirst, links]
  · have elsewhere : ∀ m ∈ queues other, m ∉ queues level :=
      fun m member also => same (queue_unique sound member also)
    rw [queue] at elsewhere
    apply chain_congr (sound.chain other)
    · intro m member
      have notFirst : ¬ back.head? = some m := fun isFirst => elsewhere m member
        (List.mem_append_right _ (List.mem_cons_of_mem _ (List.mem_of_head? isFirst)))
      have different : m ≠ n := fun own => elsewhere m member (by simp [own])
      rw [removed.prev m different, if_neg notFirst]
    · intro m member
      have notLast : ¬ front.getLast? = some m := fun isLast => elsewhere m member
        (List.mem_append_left _ (List.mem_of_getLast? isLast))
      have different : m ≠ n := fun own => elsewhere m member (by simp [own])
      rw [removed.next m different, if_neg notLast]

theorem other_node (sound : Sound Fits book queues) {o : Order PriceT}
    (built : orderOf book.pool n = some o) (named : o.id = id) {other : String}
    {otherSlot : Slot PriceT} (known : book.lookup.lookup other = some otherSlot)
    (different : other ≠ id) :
    ∃ m p, otherSlot.node = some m ∧ m ∈ queues otherSlot.level ∧ m ≠ n ∧
      orderOf book.pool m = some p ∧ p.id = other := by
  obtain ⟨m, p, otherHolds, otherQueued, otherBuilt, otherNamed⟩ := sound.slot other otherSlot known
  refine ⟨m, p, otherHolds, otherQueued, ?_, otherBuilt, otherNamed⟩
  intro same
  rw [same, built, Option.some.injEq] at otherBuilt
  exact different (by rw [← otherNamed, ← otherBuilt, named])

theorem order_of_removed (sound : Sound Fits book queues) {o : Order PriceT}
    (built : orderOf book.pool n = some o) (named : o.id = id) {next : OptimizedOrderBook PriceT}
    (orders : orderOf next.pool = update (orderOf book.pool) n none)
    (lookup : next.lookup = book.lookup.erase id) : next.order = update book.order id none := by
  funext other
  rw [order_eq, Function.update_apply, lookup, lookup_erase_eq]
  split_ifs with same
  · rfl
  · rw [order_eq]
    cases known : book.lookup.lookup other with
    | none => rfl
    | some slot =>
        obtain ⟨m, p, holds, _, different, _⟩ := other_node sound built named known same
        rw [Option.bind_some, Option.bind_some, holds, Option.bind_some, Option.bind_some, orders,
          Function.update_of_ne different]

theorem level_of_removed (sound : Sound Fits book queues) (level other : PriceT) (rest : List Nat) :
    (if rest = [] then book.orderLevels.erase level
      else book.orderLevels.insert level (ends rest)).lookup other =
      if update queues level rest other = [] then none
      else some (ends (update queues level rest other)) := by
  rw [Function.update_apply]
  by_cases same : other = level
  · rw [if_pos same, same]
    split_ifs with empty
    · exact AList.lookup_erase _ _
    · exact AList.lookup_insert _
  · rw [if_neg same, ← sound.level other]
    split_ifs with empty
    · exact AList.lookup_erase_ne same
    · exact AList.lookup_insert_ne same

/-- Unlinking, releasing and erasing a live order, as `modifyOrder` and
`deleteOrder` do. -/
theorem remove_sound (sound : Sound Fits book queues) (found : book.lookup.lookup id = some slot) :
    ∃ n front back middle next, slot.node = some n ∧ queues slot.level = front ++ n :: back ∧
      unlink slot book = some middle ∧
      next = { middle with
        pool := middle.pool.release slot.node
        lookup := middle.lookup.erase id } ∧
      Sound Fits next (update queues slot.level (front ++ back)) ∧
      next.pool.freeList = n :: book.pool.freeList ∧
      next.pool.capacity = book.pool.capacity ∧ next.lookup = book.lookup.erase id ∧
      next.order = update book.order id none := by
  obtain ⟨n, o, holds, queued, built, named⟩ := sound.slot id slot found
  obtain ⟨front, back, queue⟩ := List.append_of_mem queued
  obtain ⟨pool, ran, relinked⟩ := unlink_eq sound holds queue
  have nodup := sound.nodup slot.level
  rw [queue] at nodup
  have members := queued_after_remove sound queue
  have removed := release_removed sound ((sound.held n).mpr ⟨_, queued⟩) relinked
  refine ⟨n, front, back, _, _, holds, queue, ran, rfl, ?_, ?_, ?_, rfl, ?_⟩
  · rw [holds]
    constructor
    · exact removed.sound
    · intro m
      dsimp only
      rw [removed.alive, Function.update_apply]
      simp only [members]
      split_ifs with own
      · simp [own]
      · simp [own, sound.held m]
    · intro other
      rw [Function.update_apply]
      split_ifs
      · exact (List.nodup_cons.mp (List.nodup_middle.mp nodup)).2
      · exact sound.nodup other
    · exact removed.chain sound queue
    · exact fun other => level_of_removed sound slot.level other (front ++ back)
    · intro other m member
      obtain ⟨old, different⟩ := (members other m).mp member
      obtain ⟨p, holdsOrder, priced, known⟩ := sound.node other m old
      refine ⟨p, ?_, priced, ?_⟩
      · dsimp only
        rw [removed.orders, Function.update_of_ne different, holdsOrder]
      · have notId : p.id ≠ id := by
          intro same
          rw [same, found, Option.some.injEq] at known
          rw [known] at holds
          exact different (Option.some.inj holds)
        exact (AList.lookup_erase_ne notId).trans known
    · intro other slot' known
      dsimp only at known ⊢
      rw [lookup_erase_eq] at known
      split_ifs at known with same
      obtain ⟨m, p, otherHolds, otherQueued, different, otherBuilt, otherNamed⟩ :=
        other_node sound built named known same
      refine ⟨m, p, otherHolds, (members _ m).mpr ⟨otherQueued, different⟩, ?_, otherNamed⟩
      rw [removed.orders, Function.update_of_ne different, otherBuilt]
  · rw [holds]
    exact removed.freeList
  · rw [holds]
    exact removed.capacity
  · rw [holds]
    exact order_of_removed sound built named removed.orders rfl

end Remove

/-- Another order at the node of a live id is another order for that id. -/
theorem order_of_replaced (sound : Sound Fits book queues) {id : String} {o changed : Order PriceT}
    {n : Nat} {price : PriceT} (queued : n ∈ queues price) (built : orderOf book.pool n = some o)
    (named : o.id = id) {next : OptimizedOrderBook PriceT}
    (orders : orderOf next.pool = update (orderOf book.pool) n (some changed))
    (lookup : next.lookup = book.lookup) : next.order = update book.order id (some changed) := by
  obtain ⟨p, builtToo, _, found⟩ := sound.node price n queued
  rw [built, Option.some.injEq] at builtToo
  rw [← builtToo, named] at found
  funext other
  rw [order_eq, Function.update_apply, order_eq, lookup]
  cases known : book.lookup.lookup other with
  | none =>
      have different : other ≠ id := by
        intro same
        rw [← same, known] at found
        contradiction
      rw [if_neg different]
      rfl
  | some slot =>
      obtain ⟨m, q, holds, _, holdsOrder, namedOther⟩ := sound.slot other slot known
      rw [Option.bind_some, Option.bind_some, holds, Option.bind_some, Option.bind_some, orders,
        Function.update_apply]
      have sameNode : m = n ↔ other = id := by
        constructor
        · intro same
          rw [same, built, Option.some.injEq] at holdsOrder
          rw [← namedOther, ← holdsOrder, named]
        · intro same
          rw [← same, known, Option.some.injEq] at found
          rw [found] at holds
          exact (Option.some.inj holds).symm
      simp only [sameNode]

/-- The in-place branch of `modifyOrder`. -/
theorem quantity_sound (sound : Sound Fits book queues) {id : String} {o : Order PriceT} {n : Nat}
    {price : PriceT} (queued : n ∈ queues price) (built : orderOf book.pool n = some o)
    (named : o.id = id) (quantity : Int) :
    ∃ next : OptimizedOrderBook PriceT, (book.pool.modify n (fun node =>
        { node with order := { node.order with quantity := quantity } })).map
          (fun pool => { book with pool := pool }) = some next ∧
      Sound Fits next queues ∧ next.pool.freeList = book.pool.freeList ∧
      next.pool.capacity = book.pool.capacity ∧ next.lookup = book.lookup ∧
      next.order = update book.order id (some { o with quantity := quantity }) := by
  obtain ⟨pool, ran, capacity, freeList, alive, orders, prev, next⟩ :=
    set_order built fun order => { order with quantity := quantity }
  have updated : ∀ m p, orderOf book.pool m = some p → ∃ changed, orderOf pool m = some changed ∧
      changed.id = p.id ∧ changed.price = p.price := by
    intro m p holds
    rw [orders, Function.update_apply]
    split_ifs with same
    · rw [same, built, Option.some.injEq] at holds
      exact ⟨_, rfl, by rw [holds], by rw [holds]⟩
    · exact ⟨p, holds, rfl, rfl⟩
  rw [ran, Option.map_some]
  refine ⟨_, rfl, ?_, freeList, capacity, rfl, ?_⟩
  · constructor
    · exact MemoryPool.modify_sound sound.pool ran
    · dsimp only
      rw [alive]
      exact sound.held
    · exact sound.nodup
    · dsimp only
      rw [prev, next]
      exact sound.chain
    · exact sound.level
    · intro other m member
      obtain ⟨p, holds, priced, known⟩ := sound.node other m member
      obtain ⟨changed, changedHolds, sameId, samePrice⟩ := updated m p holds
      exact ⟨changed, changedHolds, samePrice ▸ priced, sameId ▸ known⟩
    · intro other slot known
      obtain ⟨m, p, holds, slotQueued, holdsOrder, namedOther⟩ := sound.slot other slot known
      obtain ⟨changed, changedHolds, sameId, _⟩ := updated m p holdsOrder
      exact ⟨m, changed, holds, slotQueued, changedHolds, sameId.trans namedOther⟩
  · exact order_of_replaced sound queued built named orders rfl

end OptimizedOrderBook

end Finm327.Phase5
