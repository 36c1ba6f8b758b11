import Mathlib.Algebra.BigOperators.Group.List.Basic
import Mathlib.Algebra.Ring.Int.Defs
import Finm327.Phase4.DeskInvariant

/-!
# Fills and the trade log

The log determines every order's `filled`: it is the sum of the quantities of
the trades that name the order. One loop iteration writes two orders and one
record, and the two sums that the record enters are exactly those of the two
orders, because ids are distinct.
-/

namespace Finm327.Phase4

open Finm327.Library.Runs
open MatchingEngine

universe u v

variable {PriceT : Type u} {Book : Type v}

/-- The record names the order with this id, as buyer or as seller. -/
def Trade.names (tr : Trade PriceT) (id : Int) : Bool := tr.buyId == id || tr.sellId == id

def traded (log : List (Trade PriceT)) (id : Int) : Int :=
  ((log.filter fun tr => tr.names id).map Trade.quantity).sum

theorem traded_append (log : List (Trade PriceT)) (tr : Trade PriceT) (id : Int) :
    traded (log ++ [tr]) id = traded log id + if tr.names id then tr.quantity else 0 := by
  cases named : tr.names id <;> simp [traded, List.filter_append, named]

/-- The record is about one buy order and one sell order of the desk. -/
def BetweenSides (heap : Heap PriceT) (allocated : OrderPtr) (tr : Trade PriceT) : Prop :=
  (∃ o < allocated, (heap o).id = tr.buyId ∧ (heap o).side = .buy) ∧
    ∃ o < allocated, (heap o).id = tr.sellId ∧ (heap o).side = .sell

structure LogSound (heap : Heap PriceT) (allocated : OrderPtr) (log : List (Trade PriceT)) :
    Prop where
  trades : ∀ tr ∈ log, 0 < tr.quantity ∧ BetweenSides heap allocated tr
  filled : ∀ o < allocated, (heap o).filled = traded log (heap o).id

theorem between_sides_mono {heap later : Heap PriceT} {allocated grown : OrderPtr}
    {tr : Trade PriceT} (between : BetweenSides heap allocated tr) (grows : allocated ≤ grown)
    (terms : ∀ o < allocated, SameTerms (heap o) (later o)) : BetweenSides later grown tr := by
  obtain ⟨⟨buyer, buyerPlaced, buyId, buySide⟩, seller, sellerPlaced, sellId, sellSide⟩ := between
  refine ⟨⟨buyer, buyerPlaced.trans_le grows, ?_, ?_⟩, seller, sellerPlaced.trans_le grows, ?_, ?_⟩
  · exact (terms buyer buyerPlaced).id.trans buyId
  · exact (terms buyer buyerPlaced).side.trans buySide
  · exact (terms seller sellerPlaced).id.trans sellId
  · exact (terms seller sellerPlaced).side.trans sellSide

/-- The whole accounting in one desk. -/
structure FillsAccounted (desk : Desk Book PriceT) : Prop where
  idsDistinct : ∀ first < desk.allocated, ∀ second < desk.allocated,
    (desk.heap first).id = (desk.heap second).id → first = second
  log : LogSound desk.heap desk.allocated desk.log
  orders : ∀ o < desk.allocated, OrderSound (desk.heap o)

variable [BookT Book PriceT]

namespace MatchingEngine

omit [BookT Book PriceT] in
theorem trade_record_names (clock : Nat → Int) (incoming resting : OrderPtr) (tickSeq : UInt64)
    (tRecvNs : Int) (m : Matching Book PriceT) (id : Int) :
    (tradeRecord clock incoming resting tickSeq tRecvNs m).names id = true ↔
      (m.heap incoming).id = id ∨ (m.heap resting).id = id := by
  cases side : (m.heap incoming).side <;> simp [tradeRecord, Trade.names, side, or_comm]

variable [LawfulBook Book]

/-- The accounting part of the loop invariant. -/
structure LoopAccounted (allocated : OrderPtr) (m : Matching Book PriceT) : Prop where
  sound : LoopSound allocated m
  ids : IdsFollow m.heap allocated
  log : LogSound m.heap allocated m.log

theorem trade_between_sides {clock : Nat → Int} {tickSeq : UInt64} {tRecvNs : Int}
    {allocated incoming resting : OrderPtr} {m : Matching Book PriceT}
    (sound : LoopSound allocated m) (placed : incoming < allocated)
    (foremost : Foremost m (m.heap incoming).side.opp resting) :
    BetweenSides m.heap allocated (tradeRecord clock incoming resting tickSeq tRecvNs m) := by
  have restingPlaced := sound.book.placed _ resting foremost.queued
  have opposite := sound.book.sided _ resting foremost.queued
  cases side : (m.heap incoming).side with
  | buy =>
      rw [side] at opposite
      refine ⟨⟨incoming, placed, ?_, side⟩, resting, restingPlaced, ?_, opposite⟩
      · simp [tradeRecord, side]
      · simp [tradeRecord, side]
  | sell =>
      rw [side] at opposite
      refine ⟨⟨resting, restingPlaced, ?_, opposite⟩, incoming, placed, ?_, side⟩
      · simp [tradeRecord, side]
      · simp [tradeRecord, side]

theorem trade_accounted {clock : Nat → Int} {tickSeq : UInt64} {tRecvNs : Int}
    {allocated incoming resting : OrderPtr} {m : Matching Book PriceT}
    (accounted : LoopAccounted allocated m) (placed : incoming < allocated)
    (unfilled : (m.heap incoming).remaining > 0)
    (foremost : Foremost m (m.heap incoming).side.opp resting) :
    LoopAccounted allocated (trade clock incoming resting tickSeq tRecvNs m) := by
  have sound := accounted.sound
  have distinct := foremost_ne_incoming sound foremost
  have restingPlaced := sound.book.placed _ resting foremost.queued
  have terms := trade_terms clock incoming resting tickSeq tRecvNs m
  refine ⟨trade_sound sound unfilled foremost, ?_, ?_, ?_⟩
  · intro o inHeap
    rw [(terms o).id]
    exact accounted.ids o inHeap
  · intro tr member
    rw [trade_log _ _ _ _ _ _ distinct, List.mem_append, List.mem_singleton] at member
    rcases member with old | new
    · have was := accounted.log.trades tr old
      exact ⟨was.1, between_sides_mono was.2 (Nat.le_refl _) fun o _ => terms o⟩
    · rw [new]
      exact ⟨trade_qty_positive sound unfilled foremost,
        between_sides_mono (trade_between_sides sound placed foremost) (Nat.le_refl _)
          fun o _ => terms o⟩
  · intro o inHeap
    have named : (tradeRecord clock incoming resting tickSeq tRecvNs m).names (m.heap o).id = true ↔
        o = incoming ∨ o = resting := by
      rw [trade_record_names, id_eq_iff accounted.ids placed inHeap,
        id_eq_iff accounted.ids restingPlaced inHeap, @eq_comm _ incoming, @eq_comm _ resting]
    rw [(terms o).id, trade_log _ _ _ _ _ _ distinct, traded_append,
      ← accounted.log.filled o inHeap, trade_heap _ _ _ _ _ _ distinct]
    by_cases party : o = incoming ∨ o = resting
    · rw [if_pos party, if_pos (named.mpr party)]
      rfl
    · rw [if_neg party, if_neg (named.not.mpr party), Int.add_zero]

end MatchingEngine

variable [LawfulBook Book]

namespace Desk

omit [LawfulBook Book] in
theorem initial_accounted [Inhabited PriceT] :
    LogSound (initial : Desk Book PriceT).heap (initial : Desk Book PriceT).allocated
      (initial : Desk Book PriceT).log := by
  constructor <;> simp [initial]

/-- An operation that logs nothing and leaves the fills of placed orders alone
keeps the accounting. -/
theorem log_sound_mono {heap later : Heap PriceT} {allocated : OrderPtr}
    {log : List (Trade PriceT)} (sound : LogSound heap allocated log)
    (terms : ∀ o < allocated, SameTerms (heap o) (later o))
    (filled : ∀ o < allocated, (later o).filled = (heap o).filled) :
    LogSound later allocated log where
  trades := fun tr member => ⟨(sound.trades tr member).1,
    between_sides_mono (sound.trades tr member).2 (Nat.le_refl _) terms⟩
  filled := by
    intro o placed
    rw [filled o placed, (terms o placed).id]
    exact sound.filled o placed

/-- No record in the log of a sound desk names an id above the last one given out. -/
theorem traded_unplaced {heap : Heap PriceT} {allocated : OrderPtr} {log : List (Trade PriceT)}
    (sound : LogSound heap allocated log) (ids : IdsFollow heap allocated) {id : Int}
    (fresh : (allocated : Int) < id) : traded log id = 0 := by
  have noneNamed : log.filter (fun tr => tr.names id) = [] := by
    rw [List.filter_eq_nil_iff]
    intro tr member named
    obtain ⟨⟨buyer, buyerPlaced, buyId, _⟩, seller, sellerPlaced, sellId, _⟩ :=
      (sound.trades tr member).2
    have buyerOld := id_le_allocated ids buyerPlaced
    have sellerOld := id_le_allocated ids sellerPlaced
    rw [buyId] at buyerOld
    rw [sellId] at sellerOld
    simp only [Trade.names, Bool.or_eq_true, beq_iff_eq] at named
    rcases named with same | same <;> omega
  simp [traded, noneNamed]

theorem place_accounted {desk : Desk Book PriceT} (sound : DeskSound desk)
    (accounted : LogSound desk.heap desk.allocated desk.log) (symbol : String) (price : PriceT)
    (qty : Int) (s : Side) :
    LogSound (desk.place symbol price qty s).1.heap (desk.place symbol price qty s).1.allocated
      (desk.place symbol price qty s).1.log := by
  have old : ∀ o < desk.allocated,
      (desk.place symbol price qty s).1.heap o = desk.heap o :=
    fun o placed => desk.place_heap_old symbol price qty s placed
  have fresh := desk.place_heap_new symbol price qty s
  have log : (desk.place symbol price qty s).1.log = desk.log := rfl
  rw [log]
  constructor
  · intro tr member
    refine ⟨(accounted.trades tr member).1, ?_⟩
    apply between_sides_mono (accounted.trades tr member).2 (Nat.le_succ desk.allocated)
    intro o placed
    rw [old o placed]
    exact same_terms_refl _
  · intro o placed
    rcases Nat.lt_succ_iff_lt_or_eq.mp placed with before | new
    · rw [old o before]
      exact accounted.filled o before
    · have none := traded_unplaced accounted sound.ids
        (show (desk.allocated : Int) < desk.oms.nextId by rw [sound.nextId]; omega)
      rw [new, fresh]
      exact none.symm

omit [BookT Book PriceT] [LawfulBook Book] in
theorem cancel_accounted {desk : Desk Book PriceT}
    (accounted : LogSound desk.heap desk.allocated desk.log) (id : Int) :
    LogSound (desk.cancel id).1.heap (desk.cancel id).1.allocated (desk.cancel id).1.log := by
  rcases desk.cancel_cases id with same | ⟨o, _, _, changed⟩
  · rw [same]
    exact accounted
  · rw [changed]
    apply log_sound_mono accounted
    · exact fun other _ => Heap.modify_terms desk.heap o other _ mark_cancelled_terms
    · intro other _
      by_cases same : other = o
      · subst same
        simp [Order.markCancelled]
      · simp only [Heap.modify_of_ne _ _ same]

variable [LE PriceT] [DecidableLE PriceT]

theorem submit_accounted {clock : Nat → Int} {desk next : Desk Book PriceT} {incoming : OrderPtr}
    {tickSeq : UInt64} {tRecvNs trades : Int} (sound : DeskSound desk)
    (accounted : LogSound desk.heap desk.allocated desk.log) (placed : incoming < desk.allocated)
    (ran : submit clock desk incoming tickSeq tRecvNs = some (next, trades)) :
    LogSound next.heap next.allocated next.log := by
  obtain ⟨m, looped, _, rfl⟩ := submit_cases ran
  have entered : LoopAccounted desk.allocated (⟨desk.heap, desk.book, desk.log, 0⟩ : Matching _ _) :=
    ⟨submit_enters sound, sound.ids, accounted⟩
  refine (match_loop_rule (LoopAccounted desk.allocated) ?_ ?_ looped entered).1.log
  · exact fun m current => ⟨pruned_sound current.sound _, current.ids, current.log⟩
  · exact fun m resting current unfilled foremost _ =>
      trade_accounted current placed unfilled foremost

theorem reachable_accounted [Inhabited PriceT] {clock : Nat → Int}
    {config : Config (Desk Book PriceT) (Op PriceT) (Reply PriceT)}
    (reached : Reachable (step clock) submitPlaced initial config) :
    LogSound config.state.heap config.state.allocated config.state.log := by
  refine reachable_invariant_of_reachable
    (fun config => LogSound config.state.heap config.state.allocated config.state.log) ?_ ?_ reached
  · exact initial_accounted
  · intro config op next reply earlier accounted permitted ran
    have sound := reachable_sound earlier
    cases step_effect ran with
    | place symbol price qty s state =>
        rw [state]
        exact place_accounted sound accounted symbol price qty s
    | submit incoming tickSeq tRecvNs trades submits =>
        exact submit_accounted sound accounted permitted submits
    | cancel id state =>
        rw [state]
        exact cancel_accounted accounted id
    | reap state =>
        rw [state]
        exact accounted

/-- In every reachable state the log accounts for every fill: trades move a
positive quantity between one buy and one sell order, `filled` is the sum over
the trades naming the order and stays between zero and the quantity, and the
state says how far the fill has come. -/
theorem fill_accounting [Inhabited PriceT] {clock : Nat → Int}
    {config : Config (Desk Book PriceT) (Op PriceT) (Reply PriceT)}
    (reached : Reachable (step clock) submitOnce initial config) :
    FillsAccounted config.state := by
  have placedOnly := reachable_mono submit_once_placed reached
  have sound := reachable_sound placedOnly
  refine ⟨?_, reachable_accounted placedOnly, sound.orders⟩
  intro first firstPlaced second secondPlaced same
  exact (id_eq_iff sound.ids firstPlaced secondPlaced).mp same

theorem fill_accounting_sample :
    ∃ config : Config (Desk (OrderBook Int) Int) (Op Int) (Reply Int),
      execute (step fun n => n) submitOnce (.start initial) sampleOps = some config ∧
        FillsAccounted config.state := by
  have completes : (execute (step fun n => n) submitOnce
      (.start (initial : Desk (OrderBook Int) Int)) sampleOps).isSome = true := by
    decide
  obtain ⟨config, ran⟩ := Option.isSome_iff_exists.mp completes
  exact ⟨config, ran, fill_accounting (reachable_of_execute ran)⟩

end Desk

end Finm327.Phase4
