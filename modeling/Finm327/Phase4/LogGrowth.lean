import Mathlib.Data.Finset.Card
import Mathlib.Data.Finset.Range
import Finm327.Phase4.Residence

/-!
# How far the log grows

Every trade uses up at least one of its two orders, an order is used up once and stays so. So
the log never has more records than there are filled orders, and at least half as many.
-/

namespace Finm327.Phase4

open Finm327.Library.Runs
open MatchingEngine

universe u v

variable {PriceT : Type u} {Book : Type v}

/-- The placed orders that are filled. -/
def filledOrders (heap : Heap PriceT) (allocated : OrderPtr) : Finset OrderPtr :=
  (Finset.range allocated).filter fun o => (heap o).state = .filled

theorem mem_filled_orders {heap : Heap PriceT} {allocated o : OrderPtr} :
    o ∈ filledOrders heap allocated ↔ o < allocated ∧ (heap o).state = .filled := by
  simp [filledOrders]

/-- The two bounds. -/
structure LogPaid (heap : Heap PriceT) (allocated : OrderPtr) (log : List (Trade PriceT)) :
    Prop where
  fills : log.length ≤ (filledOrders heap allocated).card
  pairs : (filledOrders heap allocated).card ≤ 2 * log.length

theorem log_paid_congr {heap later : Heap PriceT} {allocated grown : OrderPtr}
    {log : List (Trade PriceT)} (paid : LogPaid heap allocated log)
    (same : filledOrders later grown = filledOrders heap allocated) :
    LogPaid later grown log := by
  constructor
  · rw [same]
    exact paid.fills
  · rw [same]
    exact paid.pairs

variable [BookT Book PriceT] [LawfulBook Book]

namespace MatchingEngine

variable {clock : Nat → Int} {tickSeq : UInt64} {tRecvNs : Int}
  {allocated incoming resting : OrderPtr} {m : Matching Book PriceT}

/-- The parties that a trade uses up. -/
def usedUp (m : Matching Book PriceT) (incoming resting : OrderPtr) : Finset OrderPtr :=
  ({incoming, resting} : Finset OrderPtr).filter fun o =>
    (m.heap o).remaining = tradeQty m incoming resting

omit [BookT Book PriceT] [LawfulBook Book] in
theorem used_up_card (m : Matching Book PriceT) (incoming resting : OrderPtr) :
    1 ≤ (usedUp m incoming resting).card ∧ (usedUp m incoming resting).card ≤ 2 := by
  constructor
  · apply Finset.card_pos.mpr
    rcases min_choice (m.heap incoming).remaining (m.heap resting).remaining with least | least
    · exact ⟨incoming, by simp [usedUp, tradeQty, least]⟩
    · exact ⟨resting, by simp [usedUp, tradeQty, least]⟩
  · exact (Finset.card_filter_le _ _).trans Finset.card_le_two

theorem filled_orders_trade (sound : LoopSound allocated m) (placed : incoming < allocated)
    (unfilled : (m.heap incoming).remaining > 0)
    (foremost : Foremost m (m.heap incoming).side.opp resting) :
    filledOrders (trade clock incoming resting tickSeq tRecvNs m).heap allocated =
        filledOrders m.heap allocated ∪ usedUp m incoming resting ∧
      Disjoint (filledOrders m.heap allocated) (usedUp m incoming resting) := by
  have distinct := foremost_ne_incoming sound foremost
  have restingPlaced := sound.book.placed _ resting foremost.queued
  have restingUnfilled := sound.book.unfilled _ resting foremost.queued foremost.live
  have parties : ∀ o, o = incoming ∨ o = resting → o < allocated ∧ (m.heap o).state ≠ .filled := by
    rintro o (rfl | rfl)
    · exact ⟨placed, not_filled_of_unfilled (sound.orders _ placed) unfilled⟩
    · exact ⟨restingPlaced, not_filled_of_unfilled (sound.orders _ restingPlaced) restingUnfilled⟩
  have party (o : OrderPtr) : o ∈ usedUp m incoming resting ↔
      (o = incoming ∨ o = resting) ∧ (m.heap o).remaining = tradeQty m incoming resting := by
    simp [usedUp]
  constructor
  · ext o
    rw [Finset.mem_union, mem_filled_orders, mem_filled_orders, party,
      trade_heap _ _ _ _ _ _ distinct]
    split_ifs with trades
    · obtain ⟨inHeap, notYet⟩ := parties o trades
      rw [fill_by_state]
      split_ifs with used
      · simp [inHeap, trades, used]
      · simp [notYet, used]
    · simp [trades]
  · rw [Finset.disjoint_left]
    intro o filled used
    exact (parties o ((party o).mp used).1).2 (mem_filled_orders.mp filled).2

theorem trade_log_paid (sound : LoopSound allocated m) (placed : incoming < allocated)
    (unfilled : (m.heap incoming).remaining > 0)
    (foremost : Foremost m (m.heap incoming).side.opp resting)
    (paid : LogPaid m.heap allocated m.log) :
    LogPaid (trade clock incoming resting tickSeq tRecvNs m).heap allocated
      (trade clock incoming resting tickSeq tRecvNs m).log := by
  obtain ⟨grows, apart⟩ := @filled_orders_trade _ _ _ _ clock tickSeq tRecvNs _ _ _ _ sound placed
    unfilled foremost
  have parties := used_up_card m incoming resting
  have fills := paid.fills
  have pairs := paid.pairs
  have distinct := foremost_ne_incoming sound foremost
  constructor
  · rw [grows, Finset.card_union_of_disjoint apart, trade_log _ _ _ _ _ _ distinct,
      List.length_append, List.length_singleton]
    omega
  · rw [grows, Finset.card_union_of_disjoint apart, trade_log _ _ _ _ _ _ distinct,
      List.length_append, List.length_singleton]
    omega

end MatchingEngine

namespace Desk

omit [BookT Book PriceT] [LawfulBook Book] in
theorem place_log_paid {desk : Desk Book PriceT}
    (paid : LogPaid desk.heap desk.allocated desk.log) (symbol : String) (price : PriceT)
    (qty : Int) (s : Side) :
    LogPaid (desk.place symbol price qty s).1.heap (desk.place symbol price qty s).1.allocated
      desk.log := by
  refine log_paid_congr paid ?_
  ext o
  rw [mem_filled_orders, mem_filled_orders]
  change o < desk.allocated + 1 ∧ _ ↔ _
  by_cases older : o < desk.allocated
  · simp [desk.place_heap_old symbol price qty s older, older, Nat.lt_succ_of_lt older]
  · by_cases new : o = desk.allocated
    · rw [new, desk.place_heap_new]
      simp [Order.make]
    · have later : ¬ o < desk.allocated + 1 :=
        fun inHeap => (Nat.lt_succ_iff_lt_or_eq.mp inHeap).elim older new
      simp only [older, later, false_and]

omit [BookT Book PriceT] [LawfulBook Book] in
theorem cancel_log_paid {desk : Desk Book PriceT}
    (paid : LogPaid desk.heap desk.allocated desk.log) (id : Int) :
    LogPaid (desk.cancel id).1.heap (desk.cancel id).1.allocated (desk.cancel id).1.log := by
  rcases desk.cancel_cases id with same | ⟨o, _, alive, changed⟩
  · rw [same]
    exact paid
  · rw [changed]
    refine log_paid_congr paid ?_
    ext other
    rw [mem_filled_orders, mem_filled_orders]
    by_cases same : other = o
    · have unfilled : (desk.heap o).state ≠ .filled := by
        intro filled
        simp [Heap.live, Order.live, filled] at alive
      simp [same, Order.markCancelled, unfilled]
    · dsimp only
      rw [Heap.modify_of_ne _ _ same]

variable [LE PriceT] [DecidableLE PriceT] {clock : Nat → Int}

theorem submit_log_paid {desk next : Desk Book PriceT} {incoming : OrderPtr} {tickSeq : UInt64}
    {tRecvNs trades : Int} (sound : DeskSound desk) (placed : incoming < desk.allocated)
    (paid : LogPaid desk.heap desk.allocated desk.log)
    (ran : submit clock desk incoming tickSeq tRecvNs = some (next, trades)) :
    LogPaid next.heap next.allocated next.log ∧
      trades + desk.log.length = next.log.length := by
  obtain ⟨m, looped, rfl, rfl⟩ := submit_cases ran
  refine (match_loop_rule (fun m => LoopSound desk.allocated m ∧
    LogPaid m.heap desk.allocated m.log ∧ m.trades + desk.log.length = m.log.length)
    ?_ ?_ looped ⟨submit_enters sound, paid, Int.zero_add _⟩).1.2
  · exact fun m holds => ⟨pruned_sound holds.1 _, holds.2⟩
  · intro m resting holds unfilled foremost _
    obtain ⟨loopSound, loopPaid, counted⟩ := holds
    refine ⟨trade_sound loopSound unfilled foremost,
      trade_log_paid loopSound placed unfilled foremost loopPaid, ?_⟩
    rw [trade_log _ _ _ _ _ _ (foremost_ne_incoming loopSound foremost), List.length_append,
      List.length_singleton]
    change m.trades + 1 + _ = _
    push_cast
    omega

theorem reachable_log_paid [Inhabited PriceT]
    {config : Config (Desk Book PriceT) (Op PriceT) (Reply PriceT)}
    (reached : Reachable (step clock) submitPlaced initial config) :
    LogPaid config.state.heap config.state.allocated config.state.log := by
  refine reachable_invariant_of_reachable (fun config =>
    LogPaid config.state.heap config.state.allocated config.state.log) ?_ ?_ reached
  · exact ⟨Nat.le_refl _, Nat.le_refl _⟩
  · intro config op next reply earlier paid permitted ran
    have sound := reachable_sound earlier
    cases step_effect ran with
    | place symbol price qty s state =>
        rw [state]
        exact place_log_paid paid symbol price qty s
    | submit incoming tickSeq tRecvNs trades submits =>
        exact (submit_log_paid sound permitted paid submits).1
    | cancel id state =>
        rw [state]
        exact cancel_log_paid paid id
    | reap state =>
        rw [state]
        exact paid

/-- In every run, whatever is placed, submitted, cancelled and reaped, and whatever the prices:
the log has at most one record for each filled order, and at least one for any two. -/
theorem log_paid_by_fills [Inhabited PriceT]
    {config : Config (Desk Book PriceT) (Op PriceT) (Reply PriceT)}
    (reached : Reachable (step clock) submitPlaced initial config) :
    LogPaid config.state.heap config.state.allocated config.state.log :=
  reachable_log_paid reached

theorem log_paid_by_fills_sample :
    ∃ config : Config (Desk (OrderBook Int) Int) (Op Int) (Reply Int),
      execute (step fun n => n) submitPlaced (.start initial) sampleOps = some config ∧
        LogPaid config.state.heap config.state.allocated config.state.log := by
  have completes : (execute (step fun n => n) submitPlaced
      (.start (initial : Desk (OrderBook Int) Int)) sampleOps).isSome = true := by
    decide
  obtain ⟨config, ran⟩ := Option.isSome_iff_exists.mp completes
  exact ⟨config, ran, log_paid_by_fills (reachable_of_execute ran)⟩

end Desk

end Finm327.Phase4
