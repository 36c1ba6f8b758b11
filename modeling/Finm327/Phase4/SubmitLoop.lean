import Mathlib.Data.List.Sort
import Finm327.Phase4.LawfulBook

/-!
# What the loop of `submit` can do

`match_loop_rule` is the one place where the loop is unfolded: whatever pruning
and trading against a live foremost order preserve holds when the loop stops,
and it stops only filled, with the opposite side empty, or in front of a live
best order that does not cross. The facts about orders and queues that every
later result rests on follow, and with them that the fuel always suffices.
-/

namespace Finm327.Phase4

open Finm327.Library
open Finm327.Library.LevelQueues
open Finm327.Library.Runs
open MatchingEngine

universe u v

variable {PriceT : Type u} {Book : Type v}

section Fill

/-- What a trade of `qty` units leaves of either party. -/
def Order.fillBy (qty : Int) (order : Order PriceT) : Order PriceT :=
  settle { order with filled := order.filled + qty }

@[simp] theorem fill_by_remaining (qty : Int) (order : Order PriceT) :
    (order.fillBy qty).remaining = order.remaining - qty := by
  simp only [Order.fillBy, settle, Order.remaining]
  omega

theorem fill_by_state (qty : Int) (order : Order PriceT) :
    (order.fillBy qty).state = if order.remaining = qty then .filled else .partiallyFilled := by
  have settled : (order.fillBy qty).state =
      if (order.fillBy qty).remaining = 0 then .filled else .partiallyFilled := rfl
  rw [settled, fill_by_remaining]
  simp only [Int.sub_eq_zero]

theorem fill_by_live_iff (qty : Int) (order : Order PriceT) :
    (order.fillBy qty).live = true ↔ order.remaining ≠ qty := by
  simp only [Order.live, fill_by_state]
  split_ifs with used
  · simpa using used
  · simpa using used

end Fill

variable [BookT Book PriceT]

section Trade

namespace MatchingEngine

variable (clock : Nat → Int) (incoming resting : OrderPtr) (tickSeq : UInt64) (tRecvNs : Int)
  (m : Matching Book PriceT)

/-- The quantity the next trade moves. -/
def tradeQty (m : Matching Book PriceT) (incoming resting : OrderPtr) : Int :=
  min (m.heap incoming).remaining (m.heap resting).remaining

omit [BookT Book PriceT] in
theorem trade_qty_fits {incoming resting o : OrderPtr} (party : o = incoming ∨ o = resting) :
    tradeQty m incoming resting ≤ (m.heap o).remaining := by
  rcases party with same | same <;> subst same
  · exact min_le_left _ _
  · exact min_le_right _ _

/-- A trade fills its two parties by the same quantity and touches no other
order. The two are different orders, since they are on opposite sides. -/
theorem trade_heap (distinct : incoming ≠ resting) (o : OrderPtr) :
    (trade clock incoming resting tickSeq tRecvNs m).heap o =
      if o = incoming ∨ o = resting then (m.heap o).fillBy (tradeQty m incoming resting)
      else m.heap o := by
  by_cases isIncoming : o = incoming
  · subst isIncoming
    simp [trade, Heap.modify, tradeQty, Order.fillBy, distinct]
  · by_cases isResting : o = resting
    · subst isResting
      simp [trade, Heap.modify, tradeQty, Order.fillBy, isIncoming]
    · simp [trade, Heap.modify, isIncoming, isResting]

theorem trade_heap_incoming (distinct : incoming ≠ resting) :
    (trade clock incoming resting tickSeq tRecvNs m).heap incoming =
      (m.heap incoming).fillBy (tradeQty m incoming resting) := by
  rw [trade_heap _ _ _ _ _ _ distinct]
  exact if_pos (.inl rfl)

theorem trade_heap_resting (distinct : incoming ≠ resting) :
    (trade clock incoming resting tickSeq tRecvNs m).heap resting =
      (m.heap resting).fillBy (tradeQty m incoming resting) := by
  rw [trade_heap _ _ _ _ _ _ distinct]
  exact if_pos (.inr rfl)

theorem trade_terms (o : OrderPtr) :
    SameTerms (m.heap o) ((trade clock incoming resting tickSeq tRecvNs m).heap o) := by
  simp only [trade]
  have settles : ∀ order : Order PriceT, SameTerms order (settle order) :=
    fun _ => ⟨rfl, rfl, rfl, rfl, rfl⟩
  refine .trans (Heap.modify_terms m.heap incoming o _ ?_) <|
    .trans (Heap.modify_terms _ resting o _ ?_) <|
    .trans (Heap.modify_terms _ incoming o _ settles) (Heap.modify_terms _ resting o _ settles)
  · exact fun _ => ⟨rfl, rfl, rfl, rfl, rfl⟩
  · exact fun _ => ⟨rfl, rfl, rfl, rfl, rfl⟩

/-- The record a trade appends to the log. -/
def tradeRecord : Trade PriceT :=
  { buyId := if (m.heap incoming).side = .buy then (m.heap incoming).id else (m.heap resting).id
    sellId := if (m.heap incoming).side = .sell then (m.heap incoming).id else (m.heap resting).id
    symbol := (m.heap incoming).symbol
    price := (m.heap resting).price
    quantity := tradeQty m incoming resting
    seq := tickSeq
    ns := clock m.log.length - tRecvNs }

theorem trade_log (distinct : incoming ≠ resting) :
    (trade clock incoming resting tickSeq tRecvNs m).log =
      m.log ++ [tradeRecord clock incoming resting tickSeq tRecvNs m] := by
  simp [trade, tradeRecord, tradeQty, Heap.modify, settle, distinct,
    distinct.symm]

end MatchingEngine

end Trade

variable [LawfulBook Book]

/-- Orders queued on one side, best level first and oldest first in a level. -/
def queuedOn (book : Book) (s : Side) : List OrderPtr := items (LawfulBook.levels book s)

namespace MatchingEngine

/-- The order `submit` would trade with next: foremost on the opposite side,
still live. -/
structure Foremost (m : Matching Book PriceT) (s : Side) (resting : OrderPtr) : Prop where
  best : BookT.best m.book s = some resting
  live : m.heap.live resting = true
  queued : resting ∈ queuedOn m.book s

section

variable [LE PriceT] [DecidableLE PriceT]

/-- The three exits of the loop. -/
def Stopped (incoming : OrderPtr) (m : Matching Book PriceT) : Prop :=
  (m.heap incoming).remaining ≤ 0 ∨
    LawfulBook.levels m.book (m.heap incoming).side.opp = [] ∨
    ∃ resting, Foremost m (m.heap incoming).side.opp resting ∧
      crosses (m.heap incoming) (m.heap resting) = false

end

def pruned (m : Matching Book PriceT) (s : Side) : Matching Book PriceT :=
  { m with book := BookT.pruneFront m.heap s m.book }

theorem levels_pruned (m : Matching Book PriceT) (s t : Side) :
    LawfulBook.levels (pruned m s).book t =
      if t = s then LevelQueues.pruneFront m.heap.live (LawfulBook.levels m.book t)
      else LawfulBook.levels m.book t :=
  LawfulBook.levels_prune_front m.heap s t m.book

/-- After pruning a side is empty or its best order is live. -/
theorem foremost_of_pruned (m : Matching Book PriceT) (s : Side) :
    LawfulBook.levels (pruned m s).book s = [] ∨ ∃ resting, Foremost (pruned m s) s resting := by
  have shape := levels_pruned m s s
  rw [if_pos rfl] at shape
  rcases prune_front_cases m.heap.live (LawfulBook.levels m.book s) with
    ⟨empty, _⟩ | ⟨key, resting, queue, rest, split, alive⟩
  · left
    rw [shape, empty]
  · right
    rw [split] at shape
    refine ⟨resting, ?_, alive, ?_⟩
    · rw [LawfulBook.best_eq, shape]
      rfl
    · rw [queuedOn, shape]
      simp

variable [LE PriceT] [DecidableLE PriceT]

/-- One unfolding of the loop, with the pruned book's shape worked out. -/
theorem match_loop_succ (clock : Nat → Int) (incoming : OrderPtr) (tickSeq : UInt64)
    (tRecvNs : Int) (fuel : Nat) (m : Matching Book PriceT) :
    ((m.heap incoming).remaining ≤ 0 ∨
        LawfulBook.levels m.book (m.heap incoming).side.opp = []) ∧
      matchLoop clock incoming tickSeq tRecvNs (fuel + 1) m = some m ∨
    (m.heap incoming).remaining > 0 ∧
      LawfulBook.levels (pruned m (m.heap incoming).side.opp).book
        (m.heap incoming).side.opp = [] ∧
      matchLoop clock incoming tickSeq tRecvNs (fuel + 1) m =
        some (pruned m (m.heap incoming).side.opp) ∨
    (m.heap incoming).remaining > 0 ∧
      ∃ resting, Foremost (pruned m (m.heap incoming).side.opp) (m.heap incoming).side.opp resting ∧
        matchLoop clock incoming tickSeq tRecvNs (fuel + 1) m =
          if crosses (m.heap incoming) (m.heap resting) then
            matchLoop clock incoming tickSeq tRecvNs fuel
              (trade clock incoming resting tickSeq tRecvNs
                (pruned m (m.heap incoming).side.opp))
          else some (pruned m (m.heap incoming).side.opp) := by
  by_cases enter : (m.heap incoming).remaining > 0 ∧
      BookT.empty m.book (m.heap incoming).side.opp = false
  · right
    rcases foremost_of_pruned m (m.heap incoming).side.opp with drained | ⟨resting, foremost⟩
    · left
      refine ⟨enter.1, drained, ?_⟩
      have isEmpty : BookT.empty (pruned m (m.heap incoming).side.opp).book
          (m.heap incoming).side.opp = true := by
        rw [LawfulBook.empty_eq, drained]
        rfl
      simp only [matchLoop, if_pos enter]
      exact if_pos isEmpty
    · right
      refine ⟨enter.1, resting, foremost, ?_⟩
      have nonEmpty : BookT.empty (pruned m (m.heap incoming).side.opp).book
          (m.heap incoming).side.opp = false := by
        rw [LawfulBook.empty_eq]
        have best := foremost.best
        rw [LawfulBook.best_eq] at best
        cases shape : LawfulBook.levels (pruned m (m.heap incoming).side.opp).book
            (m.heap incoming).side.opp with
        | nil => simp [shape, front] at best
        | cons => rfl
      have best := foremost.best
      simp only [pruned] at nonEmpty best
      simp only [matchLoop, if_pos enter, nonEmpty, best, Bool.false_eq_true, if_false, pruned]
  · left
    constructor
    · by_cases unfilled : (m.heap incoming).remaining > 0
      · right
        have isEmpty : BookT.empty m.book (m.heap incoming).side.opp = true := by
          simpa [unfilled] using enter
        rw [LawfulBook.empty_eq] at isEmpty
        exact List.isEmpty_iff.mp isEmpty
      · exact .inl (Int.not_lt.mp unfilled)
    · simp only [matchLoop, if_neg enter]

/-- The rule for the loop of `submit`. -/
theorem match_loop_rule {clock : Nat → Int} {incoming : OrderPtr} {tickSeq : UInt64}
    {tRecvNs : Int} (Holds : Matching Book PriceT → Prop)
    (prunes : ∀ m, Holds m → Holds (pruned m (m.heap incoming).side.opp))
    (trades : ∀ m resting, Holds m → (m.heap incoming).remaining > 0 →
      Foremost m (m.heap incoming).side.opp resting →
      crosses (m.heap incoming) (m.heap resting) = true →
      Holds (trade clock incoming resting tickSeq tRecvNs m))
    {fuel : Nat} {m last : Matching Book PriceT}
    (ran : matchLoop clock incoming tickSeq tRecvNs fuel m = some last) (holds : Holds m) :
    Holds last ∧ Stopped incoming last := by
  induction fuel generalizing m with
  | zero => simp [matchLoop] at ran
  | succ fuel ih =>
      rcases match_loop_succ clock incoming tickSeq tRecvNs fuel m with
        ⟨stop, shape⟩ | ⟨_, drained, shape⟩ | ⟨unfilled, resting, foremost, shape⟩
      · rw [shape, Option.some.injEq] at ran
        subst ran
        exact ⟨holds, stop.imp_right .inl⟩
      · rw [shape, Option.some.injEq] at ran
        subst ran
        exact ⟨prunes m holds, .inr (.inl drained)⟩
      · rw [shape] at ran
        split_ifs at ran with crossing
        · exact ih ran (trades _ resting (prunes m holds) unfilled foremost crossing)
        · rw [Option.some.injEq] at ran
          subst ran
          exact ⟨prunes m holds, .inr (.inr ⟨resting, foremost, (Bool.not_eq_true _).mp crossing⟩)⟩

theorem match_loop_terms {clock : Nat → Int} {incoming : OrderPtr} {tickSeq : UInt64}
    {tRecvNs : Int} {fuel : Nat} {m last : Matching Book PriceT}
    (ran : matchLoop clock incoming tickSeq tRecvNs fuel m = some last) (o : OrderPtr) :
    SameTerms (m.heap o) (last.heap o) := by
  refine (match_loop_rule (fun current => SameTerms (m.heap o) (current.heap o)) ?_ ?_ ran
    (same_terms_refl _)).1
  · exact fun _ kept => kept
  · exact fun _ _ kept _ _ _ => kept.trans (trade_terms _ _ _ _ _ _ o)

end MatchingEngine

namespace MatchingEngine

/-- A trade that uses up the resting order pops it, and changes nothing else in
the book. -/
theorem levels_trade (clock : Nat → Int) (incoming resting : OrderPtr) (tickSeq : UInt64)
    (tRecvNs : Int) (m : Matching Book PriceT) (distinct : incoming ≠ resting) (t : Side) :
    LawfulBook.levels (trade clock incoming resting tickSeq tRecvNs m).book t =
      if t = (m.heap incoming).side.opp ∧
          (m.heap resting).remaining = tradeQty m incoming resting then
        popFront (LawfulBook.levels m.book t)
      else LawfulBook.levels m.book t := by
  have book : (trade clock incoming resting tickSeq tRecvNs m).book =
      if ((trade clock incoming resting tickSeq tRecvNs m).heap resting).remaining = 0 then
        BookT.popBest (m.heap incoming).side.opp m.book else m.book := rfl
  rw [book, trade_heap_resting clock incoming resting tickSeq tRecvNs m distinct]
  simp only [fill_by_remaining, Int.sub_eq_zero]
  split_ifs with used both notBoth
  · rw [LawfulBook.levels_pop_best, if_pos both.1]
  · rw [LawfulBook.levels_pop_best, if_neg (fun same => both ⟨same, used⟩)]
  · exact absurd notBoth.2 used
  · rfl

end MatchingEngine

end Finm327.Phase4
