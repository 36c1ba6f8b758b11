import Finm327.Phase4.DeskInvariant

/-!
# Why `submit` returns

One iteration of its loop is a partial function of the loop's state: no result
means that the loop is left. Every iteration takes something off the incoming
order, because the order it trades against is live and a queued live order is
never used up; the loops of `prune_front` inside it only remove.
-/

namespace Finm327.Phase4

open Finm327.Library
open Finm327.Library.LevelQueues
open Finm327.Library.Runs
open MatchingEngine

universe u v

variable {PriceT : Type u} {Book : Type v} [BookT Book PriceT]

namespace MatchingEngine

section Iteration

variable [LE PriceT] [DecidableLE PriceT] (clock : Nat → Int) (incoming : OrderPtr)
  (tickSeq : UInt64) (tRecvNs : Int)

/-- One iteration that comes back to the loop's condition. -/
def iteration (m : Matching Book PriceT) : Option (Matching Book PriceT) :=
  let opp := (m.heap incoming).side.opp
  if (m.heap incoming).remaining > 0 ∧ BookT.empty m.book opp = false then
    let m := pruned m opp
    if BookT.empty m.book opp then none
    else
      match BookT.best m.book opp with
      | none => none
      | some resting =>
          if crosses (m.heap incoming) (m.heap resting) then
            some (trade clock incoming resting tickSeq tRecvNs m)
          else none
  else none

/-- The states of the loop, with the number of iterations behind them. -/
inductive Iterated (start : Matching Book PriceT) : Nat → Matching Book PriceT → Prop
  | enter : Iterated start 0 start
  | again {n : Nat} {m next : Matching Book PriceT} (before : Iterated start n m)
      (goesOn : iteration clock incoming tickSeq tRecvNs m = some next) :
      Iterated start (n + 1) next

variable {clock incoming tickSeq tRecvNs}

theorem iteration_cases {m next : Matching Book PriceT}
    (goesOn : iteration clock incoming tickSeq tRecvNs m = some next) :
    ((m.heap incoming).remaining > 0 ∧ BookT.empty m.book (m.heap incoming).side.opp = false) ∧
      BookT.empty (pruned m (m.heap incoming).side.opp).book (m.heap incoming).side.opp = false ∧
      ∃ resting, BookT.best (pruned m (m.heap incoming).side.opp).book
          (m.heap incoming).side.opp = some resting ∧
        crosses (m.heap incoming) (m.heap resting) = true ∧
        next = trade clock incoming resting tickSeq tRecvNs
          (pruned m (m.heap incoming).side.opp) := by
  simp only [iteration] at goesOn
  split at goesOn
  case isFalse => cases goesOn
  case isTrue enters =>
    split at goesOn
    case isTrue => cases goesOn
    case isFalse nonEmpty =>
      split at goesOn
      case h_1 => cases goesOn
      case h_2 resting best =>
        split at goesOn
        case isFalse => cases goesOn
        case isTrue crossing =>
          exact ⟨enters, (Bool.not_eq_true _).mp nonEmpty, resting, best, crossing,
            (Option.some.inj goesOn).symm⟩

theorem match_loop_again {m next : Matching Book PriceT} (fuel : Nat)
    (goesOn : iteration clock incoming tickSeq tRecvNs m = some next) :
    matchLoop clock incoming tickSeq tRecvNs (fuel + 1) m =
      matchLoop clock incoming tickSeq tRecvNs fuel next := by
  obtain ⟨enters, nonEmpty, resting, best, crossing, trades⟩ := iteration_cases goesOn
  simp only [pruned] at nonEmpty best
  simp only [matchLoop, if_pos enters, nonEmpty, best, crossing, if_true, trades, pruned,
    Bool.false_eq_true, if_false]

theorem iterated_after {start next m : Matching Book PriceT} {n : Nat}
    (goesOn : iteration clock incoming tickSeq tRecvNs start = some next)
    (iterated : Iterated clock incoming tickSeq tRecvNs next n m) :
    Iterated clock incoming tickSeq tRecvNs start (n + 1) m := by
  induction iterated with
  | enter => exact .again .enter goesOn
  | again _ later ih => exact .again ih later

theorem match_loop_iterated {fuel : Nat} {start last : Matching Book PriceT}
    (ran : matchLoop clock incoming tickSeq tRecvNs fuel start = some last) :
    ∃ n m, Iterated clock incoming tickSeq tRecvNs start n m ∧
      iteration clock incoming tickSeq tRecvNs m = none := by
  induction fuel generalizing start with
  | zero => cases ran
  | succ fuel ih =>
      cases goesOn : iteration clock incoming tickSeq tRecvNs start with
      | none => exact ⟨0, start, .enter, goesOn⟩
      | some next =>
          rw [match_loop_again fuel goesOn] at ran
          obtain ⟨n, m, iterated, leaves⟩ := ih ran
          exact ⟨n + 1, m, iterated_after goesOn iterated, leaves⟩

end Iteration

variable [LawfulBook Book]

theorem foremost_of_best {m : Matching Book PriceT} {s : Side} {resting : OrderPtr}
    (best : BookT.best (pruned m s).book s = some resting) : Foremost (pruned m s) s resting := by
  rcases foremost_of_pruned m s with drained | ⟨other, foremost⟩
  · rw [LawfulBook.best_eq, drained] at best
    cases best
  · have same := foremost.best
    rw [best, Option.some.injEq] at same
    rw [same]
    exact foremost

theorem exposed_unfilled {allocated resting : OrderPtr} {m : Matching Book PriceT} {s : Side}
    (sound : LoopSound allocated m) (best : BookT.best (pruned m s).book s = some resting) :
    m.heap.live resting = true ∧ 0 < (m.heap resting).remaining := by
  have foremost := foremost_of_best best
  exact ⟨foremost.live,
    (pruned_sound sound s).book.unfilled s resting foremost.queued foremost.live⟩

theorem prune_loop_levels (m : Matching Book PriceT) (s : Side) :
    pruneLoop m.heap.live (roundBound (LawfulBook.levels m.book s) + 1)
        (LawfulBook.levels m.book s) =
      some (LawfulBook.levels (pruned m s).book s) := by
  rw [prune_loop_eq (Nat.lt_succ_self _), levels_pruned, if_pos rfl]

variable [LE PriceT] [DecidableLE PriceT] {clock : Nat → Int} {incoming : OrderPtr}
  {tickSeq : UInt64} {tRecvNs : Int}

theorem iteration_sound {allocated : OrderPtr} {m next : Matching Book PriceT}
    (sound : LoopSound allocated m)
    (goesOn : iteration clock incoming tickSeq tRecvNs m = some next) :
    LoopSound allocated next ∧ 0 ≤ (next.heap incoming).remaining ∧
      (next.heap incoming).remaining < (m.heap incoming).remaining := by
  obtain ⟨⟨unfilled, _⟩, _, resting, best, _, trades⟩ := iteration_cases goesOn
  have prunedSound := pruned_sound sound (m.heap incoming).side.opp
  have foremost := foremost_of_best best
  have distinct := foremost_ne_incoming prunedSound foremost
  have positive := trade_qty_positive prunedSound unfilled foremost
  have fits := trade_qty_fits (pruned m (m.heap incoming).side.opp)
    (Or.inl rfl : incoming = incoming ∨ incoming = resting)
  have heap : (pruned m (m.heap incoming).side.opp).heap = m.heap := rfl
  rw [heap] at fits
  subst trades
  refine ⟨trade_sound prunedSound unfilled foremost, ?_⟩
  rw [trade_heap_incoming _ _ _ _ _ _ distinct, fill_by_remaining, heap]
  omega

/-- Every iteration is paid for by a unit of the incoming order. -/
theorem iterated_sound {allocated : OrderPtr} {start m : Matching Book PriceT} {n : Nat}
    (sound : LoopSound allocated start)
    (iterated : Iterated clock incoming tickSeq tRecvNs start n m) :
    LoopSound allocated m ∧
      (m.heap incoming).remaining.toNat + n ≤ (start.heap incoming).remaining.toNat := by
  induction iterated with
  | enter => exact ⟨sound, Nat.le_refl _⟩
  | again _ goesOn ih =>
      obtain ⟨soundBefore, paid⟩ := ih
      obtain ⟨soundAfter, nonneg, lower⟩ := iteration_sound soundBefore goesOn
      exact ⟨soundAfter, by omega⟩

end MatchingEngine

/-- What the loop of `submit` starts from. -/
def Desk.matching (desk : Desk Book PriceT) : Matching Book PriceT :=
  ⟨desk.heap, desk.book, desk.log, 0⟩

variable [LawfulBook Book]

/-- Why `submit` returns: `measured` lowers a natural number in each iteration, because of
`exposed`, and the loops inside one iteration end because of `prunes`. -/
structure MatchingEnds [LE PriceT] [DecidableLE PriceT] (clock : Nat → Int) (desk : Desk Book PriceT)
    (incoming : OrderPtr) (tickSeq : UInt64) (tRecvNs : Int) : Prop where
  returns : ∃ next trades, submit clock desk incoming tickSeq tRecvNs = some (next, trades)
  leaves : ∃ n m, Iterated clock incoming tickSeq tRecvNs desk.matching n m ∧
    iteration clock incoming tickSeq tRecvNs m = none
  bounded : ∀ n m, Iterated clock incoming tickSeq tRecvNs desk.matching n m →
    n ≤ (desk.heap incoming).remaining.toNat
  measured : ∀ n m next, Iterated clock incoming tickSeq tRecvNs desk.matching n m →
    iteration clock incoming tickSeq tRecvNs m = some next →
    0 ≤ (next.heap incoming).remaining ∧
      (next.heap incoming).remaining < (m.heap incoming).remaining
  exposed : ∀ n m s resting, Iterated clock incoming tickSeq tRecvNs desk.matching n m →
    BookT.best (pruned m s).book s = some resting →
    m.heap.live resting = true ∧ 0 < (m.heap resting).remaining
  prunes : ∀ n m s, Iterated clock incoming tickSeq tRecvNs desk.matching n m →
    pruneLoop m.heap.live (roundBound (LawfulBook.levels m.book s) + 1)
        (LawfulBook.levels m.book s) = some (LawfulBook.levels (pruned m s).book s) ∧
      ∀ t, (queuedOn (pruned m s).book t).Sublist (queuedOn m.book t)

namespace Desk

variable [LE PriceT] [DecidableLE PriceT] {clock : Nat → Int}

theorem matching_ends {desk : Desk Book PriceT} (sound : DeskSound desk) (incoming : OrderPtr)
    (tickSeq : UInt64) (tRecvNs : Int) : MatchingEnds clock desk incoming tickSeq tRecvNs := by
  have enters : LoopSound desk.allocated desk.matching := submit_enters sound
  obtain ⟨last, looped⟩ := match_loop_completes clock tickSeq tRecvNs enters
    (Nat.lt_succ_self (desk.heap incoming).remaining.toNat)
  constructor
  case returns =>
    have ran : matchLoop clock incoming tickSeq tRecvNs (submitFuel (desk.heap incoming))
      ⟨desk.heap, desk.book, desk.log, 0⟩ = some last := looped
    rw [submit, ran]
    exact ⟨_, _, rfl⟩
  case leaves => exact match_loop_iterated looped
  case bounded =>
    intro n m iterated
    have paid := (iterated_sound enters iterated).2
    have start : desk.matching.heap = desk.heap := rfl
    rw [start] at paid
    omega
  case measured =>
    intro n m next iterated goesOn
    exact (iteration_sound (iterated_sound enters iterated).1 goesOn).2
  case exposed =>
    intro n m s resting iterated best
    exact exposed_unfilled (iterated_sound enters iterated).1 best
  case prunes =>
    intro n m s _
    exact ⟨prune_loop_levels m s, queued_on_pruned_sublist m s⟩

/-- Whatever was placed, submitted, cancelled and reaped before, `submit` returns. -/
theorem submit_terminates [Inhabited PriceT]
    {config : Config (Desk Book PriceT) (Op PriceT) (Reply PriceT)}
    (reached : Reachable (step clock) submitOnce initial config) (incoming : OrderPtr)
    (tickSeq : UInt64) (tRecvNs : Int) :
    MatchingEnds clock config.state incoming tickSeq tRecvNs :=
  matching_ends (reachable_sound (reachable_mono submit_once_placed reached)) incoming tickSeq
    tRecvNs

/-- Orders without and with a negative quantity on both sides, a cancelled order in front, and
a bid that takes two asks. -/
def emptyHandedOps : List (Op Int) :=
  [.place "AAPL" 100 0 .sell, .submit 0 1 0, .place "AAPL" 100 (-5) .sell, .submit 1 2 0,
    .place "AAPL" 100 3 .sell, .submit 2 3 0, .place "AAPL" 101 4 .sell, .submit 3 4 0,
    .place "AAPL" 99 2 .sell, .submit 4 5 0, .cancel 5, .place "AAPL" 102 6 .buy]

theorem submit_terminates_sample :
    ∃ config : Config (Desk (FlatOrderBook Int) Int) (Op Int) (Reply Int),
      execute (step fun n => n) submitOnce (.start initial) emptyHandedOps = some config ∧
        MatchingEnds (fun n => n) config.state 5 6 0 := by
  have completes : (execute (step fun n => n) submitOnce
      (.start (initial : Desk (FlatOrderBook Int) Int)) emptyHandedOps).isSome = true := by
    decide
  obtain ⟨config, ran⟩ := Option.isSome_iff_exists.mp completes
  exact ⟨config, ran, submit_terminates (reachable_of_execute ran) 5 6 0⟩

end Desk

end Finm327.Phase4
