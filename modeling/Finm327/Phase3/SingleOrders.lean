import Mathlib.Algebra.Ring.Int.Defs
import Finm327.Phase3.Strategy

/-!
# One order at a price

In a run over a feed the market snapshot shows the standing quotes of the feed, so the strategy
places its orders at the best of them. It asks first whether an order rests there, and an
execution can only remove orders. Ids are taken from a counter, which is exact as long as the
ids fit an `int`.
-/

namespace Finm327.Phase3

open Finm327.Library.Maps
open Finm327.Library.Runs
open Finm327.Library.SignedArithmetic

universe u

variable {PriceT : Type u}

def Report.isPlaced : Report PriceT → Bool
  | .placed _ => true
  | _ => false

namespace OrderManager

/-- No two orders on one side of one price. -/
def Single (om : OrderManager PriceT) : Prop :=
  ∀ id other order twin, om.orders.lookup id = some order → om.orders.lookup other = some twin →
    order.side = twin.side → order.price = twin.price → id = other

/-- The orders carry their ids, which were given out one after the other. -/
structure Numbered (om : OrderManager PriceT) (placements : Nat) : Prop where
  named : ∀ id order, om.orders.lookup id = some order → order.id = id
  next : placements < 2 ^ 31 - 1 → om.nextId.toInt = placements + 1
  given : placements < 2 ^ 31 - 1 →
    ∀ id order, om.orders.lookup id = some order → 0 < id.toInt ∧ id.toInt ≤ placements

theorem initial_single : (initial : OrderManager PriceT).Single := by
  intro id other order twin found
  cases found

theorem initial_numbered : (initial : OrderManager PriceT).Numbered 0 := by
  refine ⟨?_, fun _ => rfl, ?_⟩
  · intro id order found
    cases found
  · intro _ id order found
    cases found

/-- Every order was there before, with the same terms. -/
def Shrinks (before after : OrderManager PriceT) : Prop :=
  after.nextId = before.nextId ∧ ∀ id order, after.orders.lookup id = some order →
    ∃ old, before.orders.lookup id = some old ∧ old.id = order.id ∧ old.side = order.side ∧
      old.price = order.price

theorem handle_fill_shrinks (overflow : Int → Int32) (id filledQty : Int32)
    (om : OrderManager PriceT) :
    om.Shrinks (om.handleFill overflow id filledQty).1 ∧
      (om.handleFill overflow id filledQty).2.isPlaced = false := by
  unfold handleFill
  cases found : om.orders.lookup id with
  | none => exact ⟨⟨rfl, fun _ order own => ⟨order, own, rfl, rfl, rfl⟩⟩, rfl⟩
  | some ord =>
      dsimp only
      split_ifs
      · refine ⟨⟨rfl, ?_⟩, rfl⟩
        intro other order own
        rw [lookup_erase_eq] at own
        split_ifs at own
        exact ⟨order, own, rfl, rfl, rfl⟩
      · refine ⟨⟨rfl, ?_⟩, rfl⟩
        intro other order own
        rw [lookup_insert_eq] at own
        split_ifs at own with same
        · cases own
          exact ⟨ord, same ▸ found, rfl, rfl, rfl⟩
        · exact ⟨order, own, rfl, rfl, rfl⟩

section Kept

variable {om after : OrderManager PriceT} {placements : Nat}

theorem Single.shrink (single : om.Single) (shrinks : om.Shrinks after) : after.Single := by
  intro id other order twin found foundToo side price
  obtain ⟨old, own, -, oldSide, oldPrice⟩ := shrinks.2 id order found
  obtain ⟨oldTwin, ownToo, -, twinSide, twinPrice⟩ := shrinks.2 other twin foundToo
  apply single id other old oldTwin own ownToo
  · rw [oldSide, side, twinSide]
  · rw [oldPrice, price, twinPrice]

theorem Numbered.shrink (numbered : om.Numbered placements) (shrinks : om.Shrinks after) :
    after.Numbered placements := by
  refine ⟨?_, ?_, ?_⟩
  · intro id order found
    obtain ⟨old, own, same, -⟩ := shrinks.2 id order found
    rw [← same]
    exact numbered.named id old own
  · rw [shrinks.1]
    exact numbered.next
  · intro few id order found
    obtain ⟨old, own, -⟩ := shrinks.2 id order found
    exact numbered.given few id old own

variable {overflow : Int → Int32} {side : Side} {price : PriceT} {qty : Int32}

theorem Single.place [DecidableEq PriceT] (single : om.Single)
    (vacant : om.hasActiveAt price side = false) :
    (om.placeOrder overflow side price qty).1.Single := by
  have none := has_active_at_eq_false_iff.mp vacant
  intro id other order twin found foundToo sameSide samePrice
  rw [place_order_lookup] at found foundToo
  split_ifs at found foundToo with new newToo newToo
  · rw [new.1, newToo.1]
  · cases found
    exact absurd ⟨sameSide.symm, samePrice.symm⟩ (none other twin foundToo)
  · cases foundToo
    exact absurd ⟨sameSide, samePrice⟩ (none id order found)
  · exact single id other order twin found foundToo sameSide samePrice

theorem Numbered.place (numbered : om.Numbered placements) :
    (om.placeOrder overflow side price qty).1.Numbered (placements + 1) := by
  refine ⟨?_, ?_, ?_⟩
  · intro id order found
    rw [place_order_lookup] at found
    split_ifs at found with new
    · cases found
      exact new.1.symm
    · exact numbered.named id order found
  · intro few
    have next := numbered.next (by omega)
    have taken : (om.placeOrder overflow side price qty).1.nextId =
        signed overflow (om.nextId.toInt + 1) := rfl
    rw [taken, signed_succ (by omega), next]
    omega
  · intro few id order found
    rw [place_order_lookup] at found
    split_ifs at found with new
    · have next := numbered.next (by omega)
      rw [new.1, next]
      omega
    · have given := numbered.given (by omega) id order found
      omega

end Kept

end OrderManager

namespace Trader

variable [LinearOrder PriceT] {overflow : Int → Int32} {thresholds : Thresholds PriceT}

/-- The update that a step makes to one side of the market. -/
def updateOf (type : FeedType) : TraderOp PriceT → Option (PriceT × Int32)
  | .event ev => if ev.type = type then some (ev.price, ev.quantity) else none
  | _ => none

def updates (type : FeedType) (ops : List (TraderOp PriceT)) : List (PriceT × Int32) :=
  ops.filterMap (updateOf type)

omit [LinearOrder PriceT] in
theorem updates_append {type : FeedType} {ev : FeedEvent PriceT} (own : ev.type = type)
    (ops : List (TraderOp PriceT)) :
    updates type (ops ++ [.event ev]) = updates type ops ++ [(ev.price, ev.quantity)] := by
  have update : updateOf type (.event ev) = some (ev.price, ev.quantity) := if_pos own
  rw [updates, List.filterMap_append, List.filterMap_cons_some update]
  rfl

omit [LinearOrder PriceT] in
theorem updates_append_other {type : FeedType} {ev : FeedEvent PriceT} (other : ev.type ≠ type)
    (ops : List (TraderOp PriceT)) : updates type (ops ++ [.event ev]) = updates type ops := by
  have update : updateOf type (.event ev) = none := if_neg other
  rw [updates, List.filterMap_append, List.filterMap_cons_none update, List.filterMap_nil,
    List.append_nil]
  rfl

/-- The order sells at the best standing bid or buys at the best standing ask, and the price
passes the threshold. -/
def AtBest (thresholds : Thresholds PriceT) (ops : List (TraderOp PriceT))
    (order : MyOrder PriceT) : Prop :=
  order.side = .sell ∧ IsGreatest (MarketSnapshot.standing (updates .bid ops)) order.price ∧
      thresholds.kSellThreshold ≤ order.price ∨
    order.side = .buy ∧ IsLeast (MarketSnapshot.standing (updates .ask ops)) order.price ∧
      order.price ≤ thresholds.kBuyThreshold

/-- What one of the two placements can do. -/
inductive Placement (om : OrderManager PriceT) (side : Side) (wanted : PriceT → Bool)
    (best : Option (PriceLevel PriceT)) (overflow : Int → Int32) :
    OrderManager PriceT × List (Report PriceT) → Prop where
  | nothing : Placement om side wanted best overflow (om, [])
  | places (level : PriceLevel PriceT) (own : best = some level)
      (passes : wanted level.price = true) (vacant : om.hasActiveAt level.price side = false) :
      Placement om side wanted best overflow
        ((om.placeOrder overflow side level.price kOrderQty).1,
          [.placed (om.opened side level.price kOrderQty)])

theorem place_at_placement (om : OrderManager PriceT) (side : Side) (wanted : PriceT → Bool)
    (best : Option (PriceLevel PriceT)) :
    Placement om side wanted best overflow (placeAt overflow side wanted best om) := by
  cases best with
  | none => exact .nothing
  | some level =>
      unfold placeAt
      dsimp only
      split_ifs with free
      · rw [Bool.and_eq_true, Bool.not_eq_true'] at free
        exact .places level rfl free.1 free.2
      · exact .nothing

/-- The orders of a run with this many placements. -/
structure Orderly (om : OrderManager PriceT) (placements : Nat) : Prop where
  single : om.Single
  numbered : om.Numbered placements

theorem Placement.orderly {om : OrderManager PriceT} {side : Side} {wanted : PriceT → Bool}
    {best : Option (PriceLevel PriceT)} {result : OrderManager PriceT × List (Report PriceT)}
    (placement : Placement om side wanted best overflow result) {placements : Nat}
    (orderly : Orderly om placements) :
    Orderly result.1 (placements + result.2.countP Report.isPlaced) := by
  cases placement with
  | nothing => exact orderly
  | places level own passes vacant => exact ⟨orderly.single.place vacant, orderly.numbered.place⟩

theorem Placement.placed {om : OrderManager PriceT} {side : Side} {wanted : PriceT → Bool}
    {best : Option (PriceLevel PriceT)} {result : OrderManager PriceT × List (Report PriceT)}
    (placement : Placement om side wanted best overflow result) {order : MyOrder PriceT}
    (member : .placed order ∈ result.2) :
    order.side = side ∧ wanted order.price = true ∧
      ∃ level, best = some level ∧ level.price = order.price := by
  cases placement with
  | nothing => cases member
  | places level own passes vacant =>
      cases List.mem_singleton.mp member
      exact ⟨rfl, passes, level, own, rfl⟩

theorem run_strategy_orderly (snapshot : MarketSnapshot PriceT) {om : OrderManager PriceT}
    {placements : Nat} (orderly : Orderly om placements) :
    Orderly (runStrategy overflow thresholds snapshot om).1
      (placements + (runStrategy overflow thresholds snapshot om).2.countP Report.isPlaced) := by
  rw [run_strategy_eq, List.countP_append, ← Nat.add_assoc]
  exact (place_at_placement _ _ _ _).orderly ((place_at_placement _ _ _ _).orderly orderly)

/-- The snapshot shows the quotes of a run. -/
structure Mirrors (snapshot : MarketSnapshot PriceT) (ops : List (TraderOp PriceT)) : Prop where
  bids : MarketSnapshot.Shows snapshot.bids (updates .bid ops)
  asks : MarketSnapshot.Shows snapshot.asks (updates .ask ops)

theorem run_strategy_at_best {snapshot : MarketSnapshot PriceT} {ops : List (TraderOp PriceT)}
    (mirrors : Mirrors snapshot ops) (om : OrderManager PriceT) {order : MyOrder PriceT}
    (member : .placed order ∈ (runStrategy overflow thresholds snapshot om).2) :
    AtBest thresholds ops order := by
  rw [run_strategy_eq] at member
  cases List.mem_append.mp member with
  | inl sells =>
      obtain ⟨side, passes, level, best, same⟩ := (place_at_placement _ _ _ _).placed sells
      rw [decide_eq_true_iff] at passes
      exact .inl ⟨side, same ▸ MarketSnapshot.best_bid_greatest mirrors.bids best, passes⟩
  | inr buys =>
      obtain ⟨side, passes, level, best, same⟩ := (place_at_placement _ _ _ _).placed buys
      rw [decide_eq_true_iff] at passes
      exact .inr ⟨side, same ▸ MarketSnapshot.best_ask_least mirrors.asks best, passes⟩

def placements (config : TraderRun PriceT) : Nat :=
  config.observations.flatten.countP Report.isPlaced

omit [LinearOrder PriceT] in
theorem placements_push (config : TraderRun PriceT) (op : TraderOp PriceT)
    (after : Trader PriceT) (reports : List (Report PriceT)) :
    placements (config.push op after reports) =
      placements config + reports.countP Report.isPlaced := by
  rw [placements, Config.push_observations, List.flatten_append, List.flatten_singleton,
    List.countP_append]
  rfl

theorem Mirrors.update_bid {snapshot : MarketSnapshot PriceT} {ops : List (TraderOp PriceT)}
    (mirrors : Mirrors snapshot ops) {ev : FeedEvent PriceT} (bid : ev.type = .bid) :
    Mirrors (snapshot.updateBid ev.price ev.quantity) (ops ++ [.event ev]) := by
  constructor
  · rw [updates_append bid]
    exact MarketSnapshot.update_levels_shows mirrors.bids ev.price ev.quantity
  · rw [updates_append_other (by rw [bid]; nofun)]
    exact mirrors.asks

theorem Mirrors.update_ask {snapshot : MarketSnapshot PriceT} {ops : List (TraderOp PriceT)}
    (mirrors : Mirrors snapshot ops) {ev : FeedEvent PriceT} (ask : ev.type = .ask) :
    Mirrors (snapshot.updateAsk ev.price ev.quantity) (ops ++ [.event ev]) := by
  constructor
  · rw [updates_append_other (by rw [ask]; nofun)]
    exact mirrors.bids
  · rw [updates_append ask]
    exact MarketSnapshot.update_levels_shows mirrors.asks ev.price ev.quantity

theorem Mirrors.no_update {snapshot : MarketSnapshot PriceT} {ops : List (TraderOp PriceT)}
    (mirrors : Mirrors snapshot ops) {ev : FeedEvent PriceT} (no_bid : ev.type ≠ .bid)
    (no_ask : ev.type ≠ .ask) : Mirrors snapshot (ops ++ [.event ev]) := by
  constructor
  · rw [updates_append_other no_bid]
    exact mirrors.bids
  · rw [updates_append_other no_ask]
    exact mirrors.asks

/-- What holds after every run over a feed. -/
structure Kept (config : TraderRun PriceT) : Prop where
  mirrors : Mirrors config.state.snapshot config.ops
  orderly : Orderly config.state.om (placements config)

theorem dispatch_kept {config : TraderRun PriceT} (kept : Kept config) (ev : FeedEvent PriceT) :
    Kept (config.push (.event ev) (config.state.dispatch overflow thresholds ev).1
        (config.state.dispatch overflow thresholds ev).2) ∧
      ∀ order, .placed order ∈ (config.state.dispatch overflow thresholds ev).2 →
        AtBest thresholds (config.ops ++ [.event ev]) order := by
  obtain ⟨mirrors, orderly⟩ := kept
  cases kind : ev.type with
  | bid =>
      have shows := mirrors.update_bid kind
      rw [dispatch_bid kind]
      refine ⟨⟨?_, ?_⟩, fun order member => run_strategy_at_best shows _ member⟩
      · rw [Config.push_ops]
        exact shows
      · rw [placements_push]
        exact run_strategy_orderly _ orderly
  | ask =>
      have shows := mirrors.update_ask kind
      rw [dispatch_ask kind]
      refine ⟨⟨?_, ?_⟩, fun order member => run_strategy_at_best shows _ member⟩
      · rw [Config.push_ops]
        exact shows
      · rw [placements_push]
        exact run_strategy_orderly _ orderly
  | execution =>
      obtain ⟨shrinks, quiet⟩ := OrderManager.handle_fill_shrinks overflow ev.orderId ev.quantity
        config.state.om
      rw [dispatch_execution kind]
      refine ⟨⟨?_, ?_⟩, ?_⟩
      · rw [Config.push_ops]
        exact mirrors.no_update (by rw [kind]; nofun) (by rw [kind]; nofun)
      · rw [placements_push, List.countP_singleton, quiet]
        exact ⟨orderly.single.shrink shrinks, orderly.numbered.shrink shrinks⟩
      · intro order member
        rw [← List.mem_singleton.mp member] at quiet
        cases quiet
  | unknown =>
      rw [dispatch_unknown kind]
      refine ⟨⟨?_, ?_⟩, fun order member => absurd member List.not_mem_nil⟩
      · rw [Config.push_ops]
        exact mirrors.no_update (by rw [kind]; nofun) (by rw [kind]; nofun)
      · rw [placements_push]
        exact orderly

theorem step_kept {config : TraderRun PriceT} (kept : Kept config) {op : TraderOp PriceT}
    (event : fed config op) {after : Trader PriceT} {reports : List (Report PriceT)}
    (next : config.state.step overflow thresholds op = some (after, reports)) :
    Kept (config.push op after reports) ∧
      ∀ order, .placed order ∈ reports → AtBest thresholds (config.ops ++ [op]) order := by
  cases op with
  | event ev =>
      have done := @dispatch_kept _ _ overflow thresholds config kept ev
      have ran := Option.some.inj next
      rw [ran] at done
      exact done
  | place side price qty => cases event
  | cancel id => cases event
  | fill id filledQty => cases event

theorem reachable_kept {config : TraderRun PriceT}
    (reached : Reachable (step overflow thresholds) fed initial config) : Kept config := by
  refine reachable_invariant (fun config : TraderRun PriceT => Kept config) ?_ ?_ reached
  · exact ⟨⟨MarketSnapshot.shows_empty, MarketSnapshot.shows_empty⟩,
      OrderManager.initial_single, OrderManager.initial_numbered⟩
  · exact fun _ _ _ _ kept event next => (step_kept kept event next).1

/-- The promises of the strategy, of the state of a run. -/
structure NeverDoubled (config : TraderRun PriceT) : Prop where
  single : config.state.om.Single
  named : ∀ id order, config.state.om.orders.lookup id = some order → order.id = id
  given : placements config < 2 ^ 31 - 1 → ∀ id order,
    config.state.om.orders.lookup id = some order → 0 < id ∧ id < config.state.om.nextId

theorem strategy_never_doubles {config : TraderRun PriceT}
    (reached : Reachable (step overflow thresholds) fed initial config) :
    NeverDoubled config ∧ ∀ op after reports, fed config op →
      config.state.step overflow thresholds op = some (after, reports) →
      ∀ order, .placed order ∈ reports → AtBest thresholds (config.ops ++ [op]) order := by
  have kept := reachable_kept reached
  obtain ⟨single, numbered⟩ := kept.orderly
  refine ⟨⟨single, numbered.named, ?_⟩, ?_⟩
  · intro few id order found
    obtain ⟨positive, below⟩ := numbered.given few id order found
    rw [Int32.lt_iff_toInt_lt, Int32.lt_iff_toInt_lt, numbered.next few]
    exact ⟨positive, by omega⟩
  · exact fun op after reports event next => (step_kept kept event next).2

/-- Bids and asks come and go, and an order that is filled makes room for another one. -/
def sampleFeed : List (TraderOp Int) :=
  [.event ⟨.ask, 120, 5, -1⟩, .event ⟨.bid, 101, 300, -1⟩, .event ⟨.bid, 102, 1, -1⟩,
    .event ⟨.bid, 102, 0, -1⟩, .event ⟨.execution, 0, 50, 1⟩, .event ⟨.ask, 100, 7, -1⟩]

theorem strategy_never_doubles_sample :
    ∃ config : TraderRun Int, Reachable (step (fun _ => 0) ⟨101, 100⟩) fed initial config ∧
      placements config = 4 ∧ NeverDoubled config := by
  have completes : (execute (step (fun _ => 0) ⟨101, 100⟩) fed (.start (initial : Trader Int))
      sampleFeed).any (fun config => decide (placements config = 4)) = true := by
    decide
  obtain ⟨config, reached, placed⟩ := reachable_of_execute_any completes
  exact ⟨config, reached, placed, (strategy_never_doubles reached).1⟩

end Trader

end Finm327.Phase3
