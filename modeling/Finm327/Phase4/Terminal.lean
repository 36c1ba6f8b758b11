import Finm327.Phase4.DeskInvariant
import Finm327.Phase4.FillAccounting

/-!
# Filled and cancelled orders

Pruning keeps dead orders away from the resting side of a match, and a filled
incoming order has nothing left to trade. The incoming side is never asked
whether it is live: an order cancelled before its submission trades like any
other and leaves the state `cancelled`. `Revives` is exactly that submission,
and `not_terminal` exhibits it; every run without one keeps closed orders as
they are.
-/

namespace Finm327.Phase4

open Finm327.Library.Runs
open MatchingEngine

universe u v

variable {PriceT : Type u} {Book : Type v}

def Order.Closed (order : Order PriceT) : Prop :=
  order.state = .filled ∨ order.state = .cancelled

instance (order : Order PriceT) : Decidable order.Closed :=
  inferInstanceAs (Decidable (order.state = .filled ∨ order.state = .cancelled))

theorem closed_iff_not_live (order : Order PriceT) : order.Closed ↔ order.live = false := by
  cases state : order.state <;> simp [Order.Closed, Order.live, state]

/-- Between two desks of one run the order keeps its state and fill, and no
trade logged in between names it. -/
structure StaysClosed (before after : Desk Book PriceT) (o : OrderPtr) : Prop where
  state : (after.heap o).state = (before.heap o).state
  filled : (after.heap o).filled = (before.heap o).filled
  appended : before.log <+: after.log
  unnamed : ∀ tr ∈ after.log.drop before.log.length, tr.names (before.heap o).id = false

theorem stays_closed_of_same {before after : Desk Book PriceT} {o : OrderPtr}
    (heap : after.heap o = before.heap o) (log : after.log = before.log) :
    StaysClosed before after o where
  state := by rw [heap]
  filled := by rw [heap]
  appended := log ▸ List.prefix_refl _
  unnamed := by
    rw [log, List.drop_length]
    simp

theorem StaysClosed.trans {first second third : Desk Book PriceT} {o : OrderPtr}
    (left : StaysClosed first second o) (right : StaysClosed second third o)
    (id : (second.heap o).id = (first.heap o).id) : StaysClosed first third o where
  state := right.state.trans left.state
  filled := right.filled.trans left.filled
  appended := left.appended.trans right.appended
  unnamed := by
    obtain ⟨added, grown⟩ := left.appended
    obtain ⟨more, further⟩ := right.appended
    have addedUnnamed := left.unnamed
    have moreUnnamed := right.unnamed
    rw [← grown, List.drop_left] at addedUnnamed
    rw [← further, List.drop_left, id] at moreUnnamed
    rw [← further, ← grown, List.append_assoc, List.drop_left]
    intro tr member
    rcases List.mem_append.mp member with old | new
    · exact addedUnnamed tr old
    · exact moreUnnamed tr new

variable [BookT Book PriceT]

section Revives

variable [LE PriceT] [DecidableLE PriceT]

/-- The order has units left and would cross the best live order of the other
side, in the code's own terms. -/
def meets (desk : Desk Book PriceT) (incoming : OrderPtr) : Bool :=
  let opp := (desk.heap incoming).side.opp
  let book := BookT.pruneFront desk.heap opp desk.book
  decide ((desk.heap incoming).remaining > 0) && !BookT.empty desk.book opp &&
    match BookT.best book opp with
    | none => false
    | some resting => crosses (desk.heap incoming) (desk.heap resting)

/-- A submission that trades a cancelled order. -/
def Revives (desk : Desk Book PriceT) : Op PriceT → Prop
  | .submit incoming _ _ =>
      (desk.heap incoming).state = .cancelled ∧ meets desk incoming = true
  | _ => False

def submitOnceUnrevived (config : Config (Desk Book PriceT) (Op PriceT) (Reply PriceT))
    (op : Op PriceT) : Prop :=
  submitOnce config op ∧ ¬ Revives config.state op

instance (desk : Desk Book PriceT) : ∀ op : Op PriceT, Decidable (Revives desk op)
  | .submit incoming _ _ => inferInstanceAs
      (Decidable ((desk.heap incoming).state = .cancelled ∧ meets desk incoming = true))
  | .place .. => .isFalse id
  | .cancel _ => .isFalse id
  | .reap => .isFalse id

instance (config : Config (Desk Book PriceT) (Op PriceT) (Reply PriceT)) (op : Op PriceT) :
    Decidable (submitOnceUnrevived config op) :=
  inferInstanceAs (Decidable (submitOnce config op ∧ ¬ Revives config.state op))

end Revives

variable [LawfulBook Book]

namespace MatchingEngine

variable [LE PriceT] [DecidableLE PriceT]

/-- Without a crossing best order the loop trades nothing. -/
theorem match_loop_idle {clock : Nat → Int} {tickSeq : UInt64} {tRecvNs : Int} {fuel : Nat}
    {desk : Desk Book PriceT} {incoming : OrderPtr} {last : Matching Book PriceT}
    (idle : meets desk incoming = false)
    (ran : matchLoop clock incoming tickSeq tRecvNs (fuel + 1)
      ⟨desk.heap, desk.book, desk.log, 0⟩ = some last) :
    last.heap = desk.heap ∧ last.log = desk.log := by
  rcases match_loop_succ clock incoming tickSeq tRecvNs fuel
      (⟨desk.heap, desk.book, desk.log, 0⟩ : Matching Book PriceT) with
    ⟨_, shape⟩ | ⟨_, _, shape⟩ | ⟨unfilled, resting, foremost, shape⟩
  · rw [shape, Option.some.injEq] at ran
    subst ran
    exact ⟨rfl, rfl⟩
  · rw [shape, Option.some.injEq] at ran
    subst ran
    exact ⟨rfl, rfl⟩
  · rw [shape] at ran
    split_ifs at ran with crossing
    · exfalso
      have nonEmpty : BookT.empty desk.book (desk.heap incoming).side.opp = false := by
        rw [LawfulBook.empty_eq, List.isEmpty_eq_false_iff]
        intro nothing
        have queued := mem_queued_on_pruned foremost.queued
        simp only [queuedOn, nothing] at queued
        contradiction
      have best := foremost.best
      simp only [pruned] at best
      simp [meets, unfilled, nonEmpty, best, crossing] at idle
    · rw [Option.some.injEq] at ran
      subst ran
      exact ⟨rfl, rfl⟩

/-- The loop's effect on a closed order that is not the incoming one. -/
structure LoopKeeps (allocated o : OrderPtr) (before m : Matching Book PriceT) : Prop where
  sound : LoopSound allocated m
  ids : IdsFollow m.heap allocated
  same : m.heap o = before.heap o
  appended : ∃ added, m.log = before.log ++ added ∧ ∀ tr ∈ added, tr.names (before.heap o).id = false

theorem match_loop_keeps {clock : Nat → Int} {tickSeq : UInt64} {tRecvNs : Int} {fuel : Nat}
    {allocated o incoming : OrderPtr} {before last : Matching Book PriceT}
    (placed : o < allocated) (incomingPlaced : incoming < allocated) (other : o ≠ incoming)
    (dead : before.heap.live o = false)
    (ran : matchLoop clock incoming tickSeq tRecvNs fuel before = some last)
    (keeps : LoopKeeps allocated o before before) : LoopKeeps allocated o before last := by
  refine (match_loop_rule (LoopKeeps allocated o before) ?_ ?_ ran keeps).1
  · exact fun m current => ⟨pruned_sound current.sound _, current.ids, current.same,
      current.appended⟩
  · intro m resting current unfilled foremost _
    have distinct := foremost_ne_incoming current.sound foremost
    have restingPlaced := current.sound.book.placed _ resting foremost.queued
    have notResting : o ≠ resting := by
      intro same
      have alive := foremost.live
      rw [Heap.live, ← same, current.same] at alive
      rw [Heap.live, alive] at dead
      contradiction
    have untouched : ¬ (o = incoming ∨ o = resting) := by
      simp [other, notResting]
    refine ⟨trade_sound current.sound unfilled foremost, ?_, ?_, ?_⟩
    · intro order inHeap
      rw [(trade_terms _ _ _ _ _ m order).id]
      exact current.ids order inHeap
    · rw [trade_heap _ _ _ _ _ _ distinct, if_neg untouched]
      exact current.same
    · obtain ⟨added, log, unnamed⟩ := current.appended
      refine ⟨added ++ [tradeRecord clock incoming resting tickSeq tRecvNs m], ?_, ?_⟩
      · rw [trade_log _ _ _ _ _ _ distinct, log, List.append_assoc]
      · intro tr member
        rcases List.mem_append.mp member with old | new
        · exact unnamed tr old
        · rw [List.mem_singleton.mp new, ← current.same, ← Bool.not_eq_true,
            trade_record_names, id_eq_iff current.ids incomingPlaced placed,
            id_eq_iff current.ids restingPlaced placed]
          rintro (same | same)
          · exact other same.symm
          · exact notResting same.symm

end MatchingEngine

namespace Desk

variable [LE PriceT] [DecidableLE PriceT]

theorem submit_keeps_closed {clock : Nat → Int} {desk next : Desk Book PriceT}
    {incoming o : OrderPtr} {tickSeq : UInt64} {tRecvNs trades : Int} (sound : DeskSound desk)
    (incomingPlaced : incoming < desk.allocated) (placed : o < desk.allocated)
    (closed : (desk.heap o).Closed)
    (unrevived : ¬ ((desk.heap incoming).state = .cancelled ∧ meets desk incoming = true))
    (ran : submit clock desk incoming tickSeq tRecvNs = some (next, trades)) :
    StaysClosed desk next o := by
  obtain ⟨m, looped, _, rfl⟩ := submit_cases ran
  by_cases own : o = incoming
  · subst own
    have idle : meets desk o = false := by
      rcases closed with filled | cancelled
      · have none : (desk.heap o).remaining = 0 := by
          have full := (sound.orders o placed).whenFilled filled
          simp only [Order.remaining]
          omega
        simp [meets, none]
      · simpa [cancelled] using unrevived
    obtain ⟨heap, log⟩ := match_loop_idle idle looped
    exact stays_closed_of_same (congrFun heap o) log
  · have dead : desk.heap.live o = false := (closed_iff_not_live _).mp closed
    have kept := match_loop_keeps placed incomingPlaced own dead looped
      ⟨submit_enters sound, sound.ids, rfl, [], by simp, by simp⟩
    obtain ⟨added, log, unnamed⟩ := kept.appended
    refine ⟨?_, ?_, ⟨added, log.symm⟩, ?_⟩
    · dsimp only
      rw [kept.same]
    · dsimp only
      rw [kept.same]
    · dsimp only
      rw [log, List.drop_left]
      exact unnamed

theorem step_keeps_closed {clock : Nat → Int} {desk next : Desk Book PriceT} {op : Op PriceT}
    {reply : Reply PriceT} {o : OrderPtr} (sound : DeskSound desk)
    (allowed : ∀ incoming tickSeq tRecvNs, op = .submit incoming tickSeq tRecvNs →
      incoming < desk.allocated)
    (unrevived : ¬ Revives desk op) (placed : o < desk.allocated) (closed : (desk.heap o).Closed)
    (ran : desk.step clock op = some (next, reply)) : StaysClosed desk next o := by
  cases step_effect ran with
  | place symbol price qty s state =>
      rw [state]
      apply stays_closed_of_same
      · exact desk.place_heap_old symbol price qty s placed
      · rfl
  | submit incoming tickSeq tRecvNs trades submits =>
      exact submit_keeps_closed sound (allowed incoming tickSeq tRecvNs rfl) placed closed
        unrevived submits
  | cancel id state =>
      rw [state]
      rcases desk.cancel_cases id with same | ⟨target, _, alive, changed⟩
      · rw [same]
        exact stays_closed_of_same rfl rfl
      · rw [changed]
        have other : o ≠ target := by
          intro same
          rw [closed_iff_not_live, same] at closed
          rw [Heap.live, closed] at alive
          contradiction
        exact stays_closed_of_same (Heap.modify_of_ne _ _ other) rfl
  | reap state =>
      rw [state]
      exact stays_closed_of_same rfl rfl

/-- The condition is exact: a revival takes its order out of `cancelled`. -/
theorem revival_breaks {clock : Nat → Int} {desk next : Desk Book PriceT} {incoming : OrderPtr}
    {tickSeq : UInt64} {tRecvNs trades : Int} (sound : DeskSound desk)
    (cancelled : (desk.heap incoming).state = .cancelled) (trading : meets desk incoming = true)
    (ran : submit clock desk incoming tickSeq tRecvNs = some (next, trades)) :
    ¬ StaysClosed desk next incoming := by
  intro kept
  have stays := kept.state
  rw [cancelled] at stays
  obtain ⟨m, looped, _, rfl⟩ := submit_cases ran
  simp only at stays
  have afterTrade : ∀ (current : Matching Book PriceT) (resting : OrderPtr),
      LoopSound desk.allocated current → Foremost current (current.heap incoming).side.opp resting →
        ((trade clock incoming resting tickSeq tRecvNs current).heap incoming).state ≠
          .cancelled := by
    intro current resting currentSound foremost
    rw [trade_heap_incoming _ _ _ _ _ _ (foremost_ne_incoming currentSound foremost),
      fill_by_state]
    split_ifs <;> simp
  rcases match_loop_succ clock incoming tickSeq tRecvNs (desk.heap incoming).remaining.toNat
      (⟨desk.heap, desk.book, desk.log, 0⟩ : Matching Book PriceT) with
    ⟨stop, _⟩ | ⟨_, drained, _⟩ | ⟨unfilled, resting, foremost, shape⟩
  · rcases stop with done | nothing
    · have none : ¬ (desk.heap incoming).remaining > 0 := by simpa using done
      simp [meets, none] at trading
    · simp [meets, LawfulBook.empty_eq, nothing] at trading
  · have noBest : BookT.best (BookT.pruneFront desk.heap (desk.heap incoming).side.opp desk.book)
        (desk.heap incoming).side.opp = none := by
      simp only [pruned] at drained
      rw [LawfulBook.best_eq, drained]
      rfl
    simp [meets, noBest] at trading
  · have best := foremost.best
    simp only [pruned] at best
    have crossing : crosses (desk.heap incoming) (desk.heap resting) = true := by
      simp only [meets, best, Bool.and_eq_true] at trading
      exact trading.2
    rw [submitFuel, shape, if_pos crossing] at looped
    have entered := pruned_sound (submit_enters sound) (desk.heap incoming).side.opp
    refine (match_loop_rule (fun current => LoopSound desk.allocated current ∧
      (current.heap incoming).state ≠ .cancelled) ?_ ?_ looped
        ⟨trade_sound entered unfilled foremost, afterTrade _ resting entered foremost⟩).1.2 stays
    · exact fun current hyp => ⟨pruned_sound hyp.1 _, hyp.2⟩
    · exact fun current other hyp more next _ =>
        ⟨trade_sound hyp.1 more next, afterTrade current other hyp.1 next⟩

/-- In a run without revivals filled and cancelled orders are final: neither
their state nor their fill changes and no later trade names them. -/
theorem closed_orders_stay [Inhabited PriceT] {clock : Nat → Int}
    {config later : Config (Desk Book PriceT) (Op PriceT) (Reply PriceT)}
    (reached : Reachable (step clock) submitOnce initial config)
    (leads : Leads (step clock) submitOnceUnrevived config later)
    {o : OrderPtr} (placed : o < config.state.allocated) (closed : (config.state.heap o).Closed) :
    StaysClosed config.state later.state o := by
  have sound := reachable_sound (reachable_mono submit_once_placed reached)
  refine (leads_invariant (fun later => DeskSound later.state ∧
    o < later.state.allocated ∧ StaysClosed config.state later.state o) ?_ leads
      ⟨sound, placed, stays_closed_of_same rfl rfl⟩).2.2
  intro current op next reply ⟨currentSound, currentPlaced, kept⟩ permitted ran
  have allowed : ∀ incoming tickSeq tRecvNs, op = .submit incoming tickSeq tRecvNs →
      incoming < current.state.allocated := by
    rintro incoming tickSeq tRecvNs rfl
    exact permitted.1.1
  have stillClosed : (current.state.heap o).Closed := by
    rw [Order.Closed, kept.state]
    exact closed
  have one := step_keeps_closed currentSound allowed permitted.2 currentPlaced stillClosed ran
  have sameId : (current.state.heap o).id = (config.state.heap o).id := by
    rw [currentSound.ids o currentPlaced, sound.ids o placed]
  exact ⟨step_sound currentSound allowed ran, currentPlaced.trans_le (step_allocated_le ran),
    kept.trans one sameId⟩

theorem closed_orders_stay_sample :
    ∃ config later : Config (Desk (OrderBook Int) Int) (Op Int) (Reply Int),
      execute (step fun n => n) submitOnce (.start initial) (sampleOps.take 7) = some config ∧
        execute (step fun n => n) submitOnceUnrevived config (sampleOps.drop 7) = some later ∧
        (config.state.heap 0).state = .cancelled ∧ StaysClosed config.state later.state 0 := by
  have runs : (execute (step fun n => n) submitOnce
      (.start (initial : Desk (OrderBook Int) Int)) (sampleOps.take 7)).any (fun config =>
        decide (0 < config.state.allocated) &&
          decide ((config.state.heap 0).state = .cancelled) &&
          (execute (step fun n => n) submitOnceUnrevived config (sampleOps.drop 7)).isSome) =
      true := by
    decide
  obtain ⟨config, ran, checked⟩ := (Option.any_eq_true _ _).mp runs
  simp only [Bool.and_eq_true, decide_eq_true_eq] at checked
  obtain ⟨⟨placed, cancelled⟩, completes⟩ := checked
  obtain ⟨later, ranOn⟩ := Option.isSome_iff_exists.mp completes
  refine ⟨config, later, ran, ranOn, cancelled, ?_⟩
  exact closed_orders_stay (reachable_of_execute ran) (leads_of_execute ranOn) placed
    (.inr cancelled)

/-- Cancelled first, submitted afterwards: the bid trades with the resting ask. -/
def revivingOps : List (Op Int) :=
  [.place "AAPL" 100 10 .sell, .submit 0 1 0, .place "AAPL" 100 10 .buy, .cancel 2]

theorem not_terminal :
    ¬ ∀ config later : Config (Desk (OrderBook Int) Int) (Op Int) (Reply Int),
      Reachable (step fun n => n) submitOnce initial config →
        Leads (step fun n => n) submitOnce config later →
        ∀ o < config.state.allocated, (config.state.heap o).Closed →
          StaysClosed config.state later.state o := by
  intro terminal
  have runs : (execute (step fun n => n) submitOnce
      (.start (initial : Desk (OrderBook Int) Int)) revivingOps).any (fun config =>
        decide (1 < config.state.allocated) &&
          decide ((config.state.heap 1).state = .cancelled) &&
          (execute (step fun n => n) submitOnce config [.submit 1 2 0]).any (fun later =>
            decide ((later.state.heap 1).state = .filled))) = true := by
    decide
  obtain ⟨config, ran, checked⟩ := (Option.any_eq_true _ _).mp runs
  simp only [Bool.and_eq_true, decide_eq_true_eq] at checked
  obtain ⟨⟨placed, cancelled⟩, completes⟩ := checked
  obtain ⟨later, ranOn, filled⟩ := (Option.any_eq_true _ _).mp completes
  have stays := terminal config later (reachable_of_execute ran) (leads_of_execute ranOn) 1
    placed (.inr cancelled)
  have same := stays.state
  rw [cancelled, of_decide_eq_true filled] at same
  contradiction

end Desk

end Finm327.Phase4
