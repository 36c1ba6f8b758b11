import Finm327.Library.Runs
import Finm327.Phase3.FeedParser
import Finm327.Phase3.MarketSnapshot
import Finm327.Phase3.OrderManager

/-!
# The strategy and the event loop

Transcribes `phase3/main.cpp`. After each update of the market the strategy may place an order
on each side; an execution goes to the order manager alone. The thresholds are parameters,
since they are prices. A step shows what the order manager prints.
-/

namespace Finm327.Phase3

open Finm327.Library.Maps
open Finm327.Library.Runs

universe u

structure Thresholds (PriceT : Type u) where
  kSellThreshold : PriceT
  kBuyThreshold : PriceT

def kOrderQty : Int32 := 50

/-- The two components of `main`. -/
structure Trader (PriceT : Type u) where
  snapshot : MarketSnapshot PriceT
  om : OrderManager PriceT

/-- An event of the feed, or a direct call of the order manager. -/
inductive TraderOp (PriceT : Type u) where
  | event (ev : FeedEvent PriceT)
  | place (side : Side) (price : PriceT) (qty : Int32)
  | cancel (id : Int32)
  | fill (id filledQty : Int32)
deriving DecidableEq

variable {PriceT : Type u}

def TraderOp.isEvent : TraderOp PriceT → Bool
  | .event _ => true
  | _ => false

namespace Trader

def initial : Trader PriceT := ⟨⟨∅, ∅⟩, .initial⟩

variable [LinearOrder PriceT]

/-- One of the two conditional placements of `run_strategy`. -/
def placeAt (overflow : Int → Int32) (side : Side) (wanted : PriceT → Bool)
    (best : Option (PriceLevel PriceT)) (om : OrderManager PriceT) :
    OrderManager PriceT × List (Report PriceT) :=
  match best with
  | none => (om, [])
  | some level =>
      if wanted level.price && !om.hasActiveAt level.price side then
        let (om, report) := om.placeOrder overflow side level.price kOrderQty
        (om, [report])
      else (om, [])

def runStrategy (overflow : Int → Int32) (thresholds : Thresholds PriceT)
    (snapshot : MarketSnapshot PriceT) (om : OrderManager PriceT) :
    OrderManager PriceT × List (Report PriceT) :=
  let bb := snapshot.getBestBid
  let ba := snapshot.getBestAsk
  let (om, sells) :=
    placeAt overflow .sell (fun price => thresholds.kSellThreshold ≤ price) bb om
  let (om, buys) :=
    placeAt overflow .buy (fun price => price ≤ thresholds.kBuyThreshold) ba om
  (om, sells ++ buys)

/-- The body of the loop over the feed. -/
def dispatch (overflow : Int → Int32) (thresholds : Thresholds PriceT) (ev : FeedEvent PriceT)
    (trader : Trader PriceT) : Trader PriceT × List (Report PriceT) :=
  match ev.type with
  | .bid =>
      let snapshot := trader.snapshot.updateBid ev.price ev.quantity
      let (om, reports) := runStrategy overflow thresholds snapshot trader.om
      (⟨snapshot, om⟩, reports)
  | .ask =>
      let snapshot := trader.snapshot.updateAsk ev.price ev.quantity
      let (om, reports) := runStrategy overflow thresholds snapshot trader.om
      (⟨snapshot, om⟩, reports)
  | .execution =>
      let (om, report) := trader.om.handleFill overflow ev.orderId ev.quantity
      ({ trader with om := om }, [report])
  | .unknown => (trader, [])

section Dispatch

variable {overflow : Int → Int32} {thresholds : Thresholds PriceT} {ev : FeedEvent PriceT}

theorem dispatch_bid (bid : ev.type = .bid) (trader : Trader PriceT) :
    trader.dispatch overflow thresholds ev =
      (⟨trader.snapshot.updateBid ev.price ev.quantity, (runStrategy overflow thresholds
        (trader.snapshot.updateBid ev.price ev.quantity) trader.om).1⟩,
      (runStrategy overflow thresholds
        (trader.snapshot.updateBid ev.price ev.quantity) trader.om).2) := by
  unfold dispatch
  rw [bid]

theorem dispatch_ask (ask : ev.type = .ask) (trader : Trader PriceT) :
    trader.dispatch overflow thresholds ev =
      (⟨trader.snapshot.updateAsk ev.price ev.quantity, (runStrategy overflow thresholds
        (trader.snapshot.updateAsk ev.price ev.quantity) trader.om).1⟩,
      (runStrategy overflow thresholds
        (trader.snapshot.updateAsk ev.price ev.quantity) trader.om).2) := by
  unfold dispatch
  rw [ask]

theorem dispatch_execution (execution : ev.type = .execution) (trader : Trader PriceT) :
    trader.dispatch overflow thresholds ev =
      ({ trader with om := (trader.om.handleFill overflow ev.orderId ev.quantity).1 },
        [(trader.om.handleFill overflow ev.orderId ev.quantity).2]) := by
  unfold dispatch
  rw [execution]

theorem dispatch_unknown (unknown : ev.type = .unknown) (trader : Trader PriceT) :
    trader.dispatch overflow thresholds ev = (trader, []) := by
  unfold dispatch
  rw [unknown]

theorem run_strategy_eq (snapshot : MarketSnapshot PriceT) (om : OrderManager PriceT) :
    runStrategy overflow thresholds snapshot om =
      ((placeAt overflow .buy (fun price => price ≤ thresholds.kBuyThreshold) snapshot.getBestAsk
        (placeAt overflow .sell (fun price => thresholds.kSellThreshold ≤ price)
          snapshot.getBestBid om).1).1,
      (placeAt overflow .sell (fun price => thresholds.kSellThreshold ≤ price)
        snapshot.getBestBid om).2 ++
      (placeAt overflow .buy (fun price => price ≤ thresholds.kBuyThreshold) snapshot.getBestAsk
        (placeAt overflow .sell (fun price => thresholds.kSellThreshold ≤ price)
          snapshot.getBestBid om).1).2) :=
  rfl

end Dispatch

/-- The two components when `main` is through with the file; without events it fails. -/
def main [Zero PriceT] (overflow : Int → Int32) (thresholds : Thresholds PriceT)
    (readPrice : List UInt8 → Option (PriceT × List UInt8)) (file : Option (List UInt8)) :
    Option (Trader PriceT) :=
  let feed := loadFeed readPrice file
  if feed = [] then none
  else some (feed.foldl (fun trader ev => (trader.dispatch overflow thresholds ev).1) initial)

def step (overflow : Int → Int32) (thresholds : Thresholds PriceT) (trader : Trader PriceT) :
    TraderOp PriceT → Option (Trader PriceT × List (Report PriceT))
  | .event ev => some (trader.dispatch overflow thresholds ev)
  | .place side price qty =>
      let (om, report) := trader.om.placeOrder overflow side price qty
      some ({ trader with om := om }, [report])
  | .cancel id =>
      let (om, report) := trader.om.cancel id
      some ({ trader with om := om }, [report])
  | .fill id filledQty =>
      let (om, report) := trader.om.handleFill overflow id filledQty
      some ({ trader with om := om }, [report])

abbrev TraderRun (PriceT : Type u) :=
  Config (Trader PriceT) (TraderOp PriceT) (List (Report PriceT))

/-- Nothing but events, as in `main`. -/
def fed (_ : TraderRun PriceT) (op : TraderOp PriceT) : Prop := op.isEvent = true

instance (config : TraderRun PriceT) (op : TraderOp PriceT) : Decidable (fed config op) :=
  inferInstanceAs (Decidable (_ = _))

theorem feed_reachable (overflow : Int → Int32) (thresholds : Thresholds PriceT)
    (feed : List (FeedEvent PriceT)) :
    ∃ config : TraderRun PriceT, Reachable (step overflow thresholds) fed initial config ∧
      config.ops = feed.map .event ∧ config.state =
        feed.foldl (fun trader ev => (trader.dispatch overflow thresholds ev).1) initial := by
  induction feed using List.reverseRecOn with
  | nil => exact ⟨_, reachable_start, rfl, rfl⟩
  | append_singleton feed ev ih =>
      obtain ⟨config, reached, ops, state⟩ := ih
      have ran : step overflow thresholds config.state (.event ev) =
          some (config.state.dispatch overflow thresholds ev) := rfl
      have permitted : fed config (.event ev) := rfl
      refine ⟨_, reached.tail (.run permitted ran), ?_, ?_⟩
      · rw [Config.push_ops, ops, List.map_append, List.map_singleton]
      · rw [Config.push_state, List.foldl_append, ← state]
        rfl

/-- Where `main` gets is reached by a run over the feed of its file. -/
theorem main_reachable [Zero PriceT] {overflow : Int → Int32} {thresholds : Thresholds PriceT}
    {readPrice : List UInt8 → Option (PriceT × List UInt8)} {file : Option (List UInt8)}
    {trader : Trader PriceT} (finished : main overflow thresholds readPrice file = some trader) :
    ∃ config : TraderRun PriceT, Reachable (step overflow thresholds) fed initial config ∧
      config.ops = (loadFeed readPrice file).map .event ∧ config.state = trader := by
  unfold main at finished
  dsimp only at finished
  split_ifs at finished
  obtain ⟨config, reached, ops, state⟩ :=
    feed_reachable overflow thresholds (loadFeed readPrice file)
  exact ⟨config, reached, ops, state.trans (Option.some.inj finished)⟩

end Trader

end Finm327.Phase3
