import Finm327.Phase4.SubmitLoop

/-!
# Invariants of every reachable desk

What holds of order objects, of the queues and of the order manager after any
sequence of operations, whatever the caller does with the pointers `place`
returned: nothing here needs the prices to be ordered or an order to be
submitted only once. The last result is that every operation completes, so the
fuel of the matching loop never runs out and no empty queue is ever read.
-/

namespace Finm327.Phase4

open Finm327.Library
open Finm327.Library.LevelQueues
open Finm327.Library.Runs
open MatchingEngine

universe u v

variable {PriceT : Type u} {Book : Type v}

/-- Fill accounting of one order. -/
structure OrderSound (order : Order PriceT) : Prop where
  nonneg : 0 ≤ order.filled
  bounded : order.filled ≤ max order.quantity 0
  whenFilled : order.state = .filled → order.filled = order.quantity
  whenPartial : order.state = .partiallyFilled → 0 < order.filled ∧ order.filled < order.quantity
  whenNew : order.state = .new → order.filled = 0

theorem make_sound (i : Int) (sym : String) (p : PriceT) (q : Int) (s : Side) :
    OrderSound (Order.make i sym p q s) where
  nonneg := le_rfl
  bounded := le_max_right _ _
  whenFilled := by simp [Order.make]
  whenPartial := by simp [Order.make]
  whenNew := fun _ => rfl

theorem fill_by_sound {order : Order PriceT} (sound : OrderSound order) {qty : Int}
    (positive : 0 < qty) (fits : qty ≤ order.remaining) : OrderSound (order.fillBy qty) := by
  have nonneg := sound.nonneg
  have amount : order.remaining = order.quantity - order.filled := rfl
  have filled : (order.fillBy qty).filled = order.filled + qty := rfl
  have quantity : (order.fillBy qty).quantity = order.quantity := rfl
  have state := fill_by_state qty order
  by_cases used : order.remaining = qty
  · rw [if_pos used] at state
    constructor
    · omega
    · omega
    · intro _
      omega
    · intro isPartial
      rw [state] at isPartial
      contradiction
    · intro isNew
      rw [state] at isNew
      contradiction
  · rw [if_neg used] at state
    constructor
    · omega
    · omega
    · intro isFilled
      rw [state] at isFilled
      contradiction
    · intro _
      omega
    · intro isNew
      rw [state] at isNew
      contradiction

theorem cancel_sound {order : Order PriceT} (sound : OrderSound order) :
    OrderSound order.markCancelled where
  nonneg := sound.nonneg
  bounded := sound.bounded
  whenFilled := by simp [Order.markCancelled]
  whenPartial := by simp [Order.markCancelled]
  whenNew := by simp [Order.markCancelled]

/-- Ids are given out in the order of the heap. -/
def IdsFollow (heap : Heap PriceT) (allocated : OrderPtr) : Prop :=
  ∀ o < allocated, (heap o).id = o + 1

theorem id_eq_iff {heap : Heap PriceT} {allocated first second : OrderPtr}
    (ids : IdsFollow heap allocated) (firstPlaced : first < allocated)
    (secondPlaced : second < allocated) :
    (heap first).id = (heap second).id ↔ first = second := by
  rw [ids first firstPlaced, ids second secondPlaced, Int.add_left_inj, Int.ofNat_inj]

theorem id_le_allocated {heap : Heap PriceT} {allocated o : OrderPtr}
    (ids : IdsFollow heap allocated) (placed : o < allocated) : (heap o).id ≤ allocated := by
  rw [ids o placed]
  exact_mod_cast placed

variable [BookT Book PriceT] [LawfulBook Book]

/-- What the queues hold, and in which state. -/
structure BookSound (heap : Heap PriceT) (allocated : OrderPtr) (book : Book) : Prop where
  allQueued : ∀ s, AllQueued (LawfulBook.levels book s)
  placed : ∀ s, ∀ o ∈ queuedOn book s, o < allocated
  sided : ∀ s, ∀ o ∈ queuedOn book s, (heap o).side = s
  unfilled : ∀ s, ∀ o ∈ queuedOn book s, heap.live o = true → 0 < (heap o).remaining

structure DeskSound (desk : Desk Book PriceT) : Prop where
  nextId : desk.oms.nextId = desk.allocated + 1
  ids : IdsFollow desk.heap desk.allocated
  active : ∀ entry ∈ desk.oms.active, entry.2 < desk.allocated ∧ entry.1 = entry.2 + 1
  orders : ∀ o < desk.allocated, OrderSound (desk.heap o)
  book : BookSound desk.heap desk.allocated desk.book

namespace MatchingEngine

/-- The invariant of the loop of `submit`. -/
structure LoopSound (allocated : OrderPtr) (m : Matching Book PriceT) : Prop where
  orders : ∀ o < allocated, OrderSound (m.heap o)
  book : BookSound m.heap allocated m.book

theorem queued_on_pruned_sublist (m : Matching Book PriceT) (s t : Side) :
    (queuedOn (pruned m s).book t).Sublist (queuedOn m.book t) := by
  rw [queuedOn, levels_pruned]
  split_ifs
  · rw [items_prune_front]
    exact List.dropWhile_sublist _
  · exact List.Sublist.refl _

theorem mem_queued_on_pruned {m : Matching Book PriceT} {s t : Side} {o : OrderPtr}
    (member : o ∈ queuedOn (pruned m s).book t) : o ∈ queuedOn m.book t :=
  (queued_on_pruned_sublist m s t).subset member

theorem mem_pruned_of_live {m : Matching Book PriceT} {s t : Side} {o : OrderPtr}
    (member : o ∈ queuedOn m.book t) (alive : m.heap.live o = true) :
    o ∈ queuedOn (pruned m s).book t := by
  rw [queuedOn, levels_pruned]
  split_ifs
  · exact mem_prune_front_of_live member alive
  · exact member

theorem pruned_sound {allocated : OrderPtr} {m : Matching Book PriceT}
    (sound : LoopSound allocated m) (s : Side) : LoopSound allocated (pruned m s) where
  orders := sound.orders
  book := {
    allQueued := by
      intro t
      rw [levels_pruned]
      split_ifs
      · exact all_queued_prune_front (sound.book.allQueued t)
      · exact sound.book.allQueued t
    placed := fun t o member => sound.book.placed t o (mem_queued_on_pruned member)
    sided := fun t o member => sound.book.sided t o (mem_queued_on_pruned member)
    unfilled := fun t o member => sound.book.unfilled t o (mem_queued_on_pruned member) }

theorem foremost_ne_incoming {allocated incoming resting : OrderPtr} {m : Matching Book PriceT}
    (sound : LoopSound allocated m) (foremost : Foremost m (m.heap incoming).side.opp resting) :
    incoming ≠ resting := by
  intro same
  have opposite := sound.book.sided _ resting foremost.queued
  rw [← same] at opposite
  exact Side.opp_ne _ opposite.symm

theorem trade_qty_positive {allocated incoming resting : OrderPtr} {m : Matching Book PriceT}
    (sound : LoopSound allocated m) (unfilled : (m.heap incoming).remaining > 0)
    (foremost : Foremost m (m.heap incoming).side.opp resting) :
    0 < tradeQty m incoming resting :=
  lt_min unfilled (sound.book.unfilled _ resting foremost.queued foremost.live)

/-- Popping the used-up order takes it, and only it, out of the queue. -/
theorem queued_on_trade {clock : Nat → Int} {tickSeq : UInt64} {tRecvNs : Int}
    {allocated incoming resting : OrderPtr} {m : Matching Book PriceT}
    (sound : LoopSound allocated m) (foremost : Foremost m (m.heap incoming).side.opp resting)
    (t : Side) :
    queuedOn (trade clock incoming resting tickSeq tRecvNs m).book t =
      if t = (m.heap incoming).side.opp ∧
          (m.heap resting).remaining = tradeQty m incoming resting then
        (queuedOn m.book t).tail
      else queuedOn m.book t := by
  rw [queuedOn, levels_trade _ _ _ _ _ m (foremost_ne_incoming sound foremost)]
  split_ifs
  · exact items_pop_front (sound.book.allQueued t)
  · rfl

theorem queued_on_trade_sublist {clock : Nat → Int} {tickSeq : UInt64} {tRecvNs : Int}
    {allocated incoming resting : OrderPtr} {m : Matching Book PriceT}
    (sound : LoopSound allocated m) (foremost : Foremost m (m.heap incoming).side.opp resting)
    (t : Side) :
    (queuedOn (trade clock incoming resting tickSeq tRecvNs m).book t).Sublist
      (queuedOn m.book t) := by
  rw [queued_on_trade sound foremost]
  split_ifs
  · exact List.tail_sublist _
  · exact List.Sublist.refl _

theorem trade_sound {clock : Nat → Int} {tickSeq : UInt64} {tRecvNs : Int}
    {allocated incoming resting : OrderPtr} {m : Matching Book PriceT}
    (sound : LoopSound allocated m) (unfilled : (m.heap incoming).remaining > 0)
    (foremost : Foremost m (m.heap incoming).side.opp resting) :
    LoopSound allocated (trade clock incoming resting tickSeq tRecvNs m) := by
  have distinct := foremost_ne_incoming sound foremost
  have positive := trade_qty_positive sound unfilled foremost
  have queuedBefore : ∀ t, ∀ o ∈ queuedOn (trade clock incoming resting tickSeq tRecvNs m).book t,
      o ∈ queuedOn m.book t :=
    fun t _ member => (queued_on_trade_sublist sound foremost t).subset member
  constructor
  · intro o placed
    rw [trade_heap _ _ _ _ _ _ distinct]
    split_ifs with party
    · exact fill_by_sound (sound.orders o placed) positive (trade_qty_fits m party)
    · exact sound.orders o placed
  · constructor
    · intro t
      rw [levels_trade _ _ _ _ _ _ distinct]
      split_ifs
      · exact all_queued_pop_front (sound.book.allQueued t)
      · exact sound.book.allQueued t
    · exact fun t o member => sound.book.placed t o (queuedBefore t o member)
    · intro t o member
      rw [(trade_terms clock incoming resting tickSeq tRecvNs m o).side]
      exact sound.book.sided t o (queuedBefore t o member)
    · intro t o member alive
      rw [Heap.live] at alive
      rw [trade_heap _ _ _ _ _ _ distinct] at alive ⊢
      split_ifs at alive ⊢ with party
      · have rest := (fill_by_live_iff _ _).mp alive
        have fits := trade_qty_fits m party
        rw [fill_by_remaining]
        omega
      · exact sound.book.unfilled t o (queuedBefore t o member) alive

variable [LE PriceT] [DecidableLE PriceT]

theorem match_loop_sound {clock : Nat → Int} {tickSeq : UInt64} {tRecvNs : Int}
    {allocated incoming : OrderPtr} {fuel : Nat} {m last : Matching Book PriceT}
    (ran : matchLoop clock incoming tickSeq tRecvNs fuel m = some last)
    (sound : LoopSound allocated m) : LoopSound allocated last ∧ Stopped incoming last :=
  match_loop_rule (LoopSound allocated) (fun _ current => pruned_sound current _)
    (fun _ _ current unfilled foremost _ => trade_sound current unfilled foremost) ran sound

/-- Each iteration lowers the incoming order's remaining quantity, so fuel
above it is never used up. -/
theorem match_loop_completes (clock : Nat → Int) (tickSeq : UInt64) (tRecvNs : Int)
    {allocated incoming : OrderPtr} {fuel : Nat} {m : Matching Book PriceT}
    (sound : LoopSound allocated m) (enough : (m.heap incoming).remaining.toNat < fuel) :
    ∃ last, matchLoop clock incoming tickSeq tRecvNs fuel m = some last := by
  induction fuel generalizing m with
  | zero => omega
  | succ fuel ih =>
      rcases match_loop_succ clock incoming tickSeq tRecvNs fuel m with
        ⟨_, shape⟩ | ⟨_, _, shape⟩ | ⟨unfilled, resting, foremost, shape⟩
      · exact ⟨_, shape⟩
      · exact ⟨_, shape⟩
      · rw [shape]
        split_ifs
        · have prunedSound := pruned_sound sound (m.heap incoming).side.opp
          have positive := trade_qty_positive prunedSound unfilled foremost
          have distinct := foremost_ne_incoming prunedSound foremost
          apply ih (trade_sound prunedSound unfilled foremost)
          rw [trade_heap_incoming _ _ _ _ _ _ distinct, fill_by_remaining]
          have kept : (pruned m (m.heap incoming).side.opp).heap = m.heap := rfl
          rw [kept]
          omega
        · exact ⟨_, rfl⟩

end MatchingEngine

section Queues

variable {heap later : Heap PriceT} {allocated grown : OrderPtr} {book : Book}

theorem mem_queued_on_add (o other : OrderPtr) (s : Side) :
    other ∈ queuedOn (BookT.add heap o book) s ↔
      s = (heap o).side ∧ other = o ∨ other ∈ queuedOn book s := by
  rw [queuedOn, LawfulBook.levels_add]
  split_ifs with own
  · rw [mem_items_push_back]
    simp only [own, true_and]
    rfl
  · simp only [own, false_and, false_or]
    rfl

theorem add_sound (sound : BookSound heap allocated book) {o : OrderPtr} (placed : o < allocated)
    (unfilled : 0 < (heap o).remaining) : BookSound heap allocated (BookT.add heap o book) where
  allQueued := by
    intro s
    rw [LawfulBook.levels_add]
    split_ifs
    · exact all_queued_push_back (sound.allQueued s)
    · exact sound.allQueued s
  placed := by
    intro s other member
    rcases (mem_queued_on_add o other s).mp member with ⟨_, same⟩ | old
    · rw [same]
      exact placed
    · exact sound.placed s other old
  sided := by
    intro s other member
    rcases (mem_queued_on_add o other s).mp member with ⟨own, same⟩ | old
    · rw [same, own]
    · exact sound.sided s other old
  unfilled := by
    intro s other member alive
    rcases (mem_queued_on_add o other s).mp member with ⟨_, same⟩ | old
    · rw [same]
      exact unfilled
    · exact sound.unfilled s other old alive

/-- The queues only care about the objects they point to, and about those only
that sides stay and that no dead order comes alive or regains quantity. -/
theorem book_sound_mono (sound : BookSound heap allocated book) (grows : allocated ≤ grown)
    (side : ∀ o < allocated, (later o).side = (heap o).side)
    (keeps : ∀ o < allocated, later.live o = true →
      heap.live o = true ∧ (later o).remaining = (heap o).remaining) :
    BookSound later grown book where
  allQueued := sound.allQueued
  placed := fun s o member => (sound.placed s o member).trans_le grows
  sided := by
    intro s o member
    rw [side o (sound.placed s o member)]
    exact sound.sided s o member
  unfilled := by
    intro s o member alive
    obtain ⟨was, same⟩ := keeps o (sound.placed s o member) alive
    rw [same]
    exact sound.unfilled s o member was

end Queues

namespace Desk

theorem initial_sound [Inhabited PriceT] :
    DeskSound (initial : Desk Book PriceT) where
  nextId := rfl
  ids := by simp [initial, IdsFollow]
  active := by simp [initial]
  orders := by simp [initial]
  book := by
    constructor <;> intro s
    · simp [initial, LawfulBook.levels_empty_book, AllQueued]
    all_goals simp [initial, queuedOn, LawfulBook.levels_empty_book]

theorem place_sound {desk : Desk Book PriceT} (sound : DeskSound desk) (symbol : String)
    (price : PriceT) (qty : Int) (s : Side) : DeskSound (desk.place symbol price qty s).1 := by
  have old : ∀ o < desk.allocated, (desk.place symbol price qty s).1.heap o = desk.heap o :=
    fun o inHeap => desk.place_heap_old symbol price qty s inHeap
  have fresh := desk.place_heap_new symbol price qty s
  have allocated : (desk.place symbol price qty s).1.allocated = desk.allocated + 1 := rfl
  constructor
  · simp only [place, sound.nextId]
    omega
  · intro o placed
    rcases Nat.lt_succ_iff_lt_or_eq.mp (allocated ▸ placed) with before | new
    · rw [old o before]
      exact sound.ids o before
    · rw [new, fresh]
      exact sound.nextId
  · intro entry member
    rcases List.mem_cons.mp member with new | kept
    · rw [new]
      exact ⟨Nat.lt_succ_self _, sound.nextId⟩
    · have was := sound.active entry (List.mem_of_mem_filter kept)
      exact ⟨was.1.trans (Nat.lt_succ_self _), was.2⟩
  · intro o placed
    rcases Nat.lt_succ_iff_lt_or_eq.mp (allocated ▸ placed) with before | new
    · rw [old o before]
      exact sound.orders o before
    · rw [new, fresh]
      exact make_sound _ _ _ _ _
  · apply book_sound_mono sound.book (Nat.le_succ desk.allocated)
    · intro o placed
      rw [old o placed]
    · intro o placed alive
      rw [Heap.live, old o placed] at alive
      exact ⟨alive, by rw [old o placed]⟩

theorem cancel_desk_sound {desk : Desk Book PriceT} (sound : DeskSound desk) (id : Int) :
    DeskSound (desk.cancel id).1 := by
  rcases desk.cancel_cases id with same | ⟨o, _, _, changed⟩
  · rw [same]
    exact sound
  · rw [changed]
    have terms : ∀ other, SameTerms (desk.heap other)
        (desk.heap.modify o Order.markCancelled other) :=
      fun other => Heap.modify_terms _ _ _ _ mark_cancelled_terms
    constructor
    · exact sound.nextId
    · intro other placed
      rw [(terms other).id]
      exact sound.ids other placed
    · exact sound.active
    · intro other placed
      by_cases same : other = o
      · subst same
        simp only [Heap.modify_self]
        exact cancel_sound (sound.orders other placed)
      · simp only [Heap.modify_of_ne _ _ same]
        exact sound.orders other placed
    · apply book_sound_mono sound.book (Nat.le_refl _)
      · exact fun other _ => (terms other).side
      · intro other _ alive
        by_cases same : other = o
        · subst same
          simp [Heap.live, Order.live, Order.markCancelled] at alive
        · simp only [Heap.live, Heap.modify_of_ne _ _ same] at alive ⊢
          exact ⟨alive, trivial⟩

theorem reap_sound {desk : Desk Book PriceT} (sound : DeskSound desk) :
    DeskSound desk.reap.1 where
  nextId := sound.nextId
  ids := sound.ids
  active := fun entry member => sound.active entry (List.mem_of_mem_filter member)
  orders := sound.orders
  book := sound.book

/-- The invariant of the loop when `submit` enters it. -/
theorem submit_enters {desk : Desk Book PriceT} (sound : DeskSound desk) :
    LoopSound desk.allocated (⟨desk.heap, desk.book, desk.log, 0⟩ : Matching Book PriceT) :=
  ⟨sound.orders, sound.book⟩

variable [LE PriceT] [DecidableLE PriceT]

theorem submit_sound {clock : Nat → Int} {desk next : Desk Book PriceT} {incoming : OrderPtr}
    {tickSeq : UInt64} {tRecvNs trades : Int} (sound : DeskSound desk)
    (placed : incoming < desk.allocated)
    (ran : submit clock desk incoming tickSeq tRecvNs = some (next, trades)) : DeskSound next := by
  obtain ⟨m, looped, _, rfl⟩ := submit_cases ran
  have loopSound := (match_loop_sound looped (submit_enters sound)).1
  constructor
  · exact sound.nextId
  · intro o inHeap
    have terms := match_loop_terms looped o
    rw [terms.id]
    exact sound.ids o inHeap
  · exact sound.active
  · exact loopSound.orders
  · dsimp only
    split_ifs with unfilled
    · exact add_sound loopSound.book placed unfilled
    · exact loopSound.book

theorem step_sound {clock : Nat → Int} {desk next : Desk Book PriceT} {op : Op PriceT}
    {reply : Reply PriceT} (sound : DeskSound desk)
    (allowed : ∀ incoming tickSeq tRecvNs, op = .submit incoming tickSeq tRecvNs →
      incoming < desk.allocated)
    (ran : desk.step clock op = some (next, reply)) : DeskSound next := by
  cases step_effect ran with
  | place symbol price qty s state =>
      rw [state]
      exact place_sound sound symbol price qty s
  | submit incoming tickSeq tRecvNs trades submits =>
      exact submit_sound sound (allowed incoming tickSeq tRecvNs rfl) submits
  | cancel id state =>
      rw [state]
      exact cancel_desk_sound sound id
  | reap state =>
      rw [state]
      exact reap_sound sound

/-- Every state of every run is sound. -/
theorem reachable_sound [Inhabited PriceT] {clock : Nat → Int}
    {config : Config (Desk Book PriceT) (Op PriceT) (Reply PriceT)}
    (reached : Reachable (step clock) submitPlaced initial config) : DeskSound config.state := by
  refine reachable_invariant (fun config => DeskSound config.state) ?_ ?_ reached
  · exact initial_sound
  · intro config op next reply sound permitted ran
    apply step_sound sound ?_ ran
    rintro incoming tickSeq tRecvNs rfl
    exact permitted

/-- Every permitted operation completes. -/
theorem step_completes {clock : Nat → Int} {desk : Desk Book PriceT} (sound : DeskSound desk)
    (op : Op PriceT) : ∃ next reply, desk.step clock op = some (next, reply) := by
  cases op with
  | place symbol price qty s => exact ⟨_, _, rfl⟩
  | submit incoming tickSeq tRecvNs =>
      obtain ⟨m, looped⟩ := match_loop_completes clock tickSeq tRecvNs (submit_enters sound)
        (Nat.lt_succ_self (desk.heap incoming).remaining.toNat)
      simp only [step, submit, submitFuel, looped]
      exact ⟨_, _, rfl⟩
  | cancel id => exact ⟨_, _, rfl⟩
  | reap => exact ⟨_, _, rfl⟩

end Desk

end Finm327.Phase4
