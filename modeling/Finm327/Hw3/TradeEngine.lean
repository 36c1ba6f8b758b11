import Mathlib.Algebra.Order.Ring.Rat
import Mathlib.Data.Rat.Defs
import Finm327.Library.KeyedStreams
import Finm327.Library.Maps

/-!
# The trade engine

Transcribes `TradeEngine` of `hw3/hft_engine.cpp`. A `double` is a rational and the clock
answers its readings in turn. `price_history[id]` creates a missing history, so the
signals pass the map along.
-/

namespace Finm327.Hw3

open Finm327.Library.Maps
open Finm327.Library.KeyedStreams

structure MarketData where
  instrumentId : Int32
  price : ℚ
  timestamp : Int

structure Order where
  instrumentId : Int32
  price : ℚ
  isBuy : Bool
  timestamp : Int

abbrev Histories := KeyMap Int32 (List ℚ)

/-- `price_history[id]`. -/
def historyOf (id : Int32) : StateM Histories (List ℚ) := fun histories =>
  match histories.lookup id with
  | some hist => (hist, histories)
  | none => ([], histories.insert id [])

def updateHistory (tick : MarketData) : StateM Histories Unit := do
  let hist ← historyOf tick.instrumentId
  modify fun histories => histories.insert tick.instrumentId (slide 10 hist tick.price)

def getAvg (id : Int32) : StateM Histories ℚ := do
  let hist ← historyOf id
  let s := hist.foldl (fun s p => s + p) 0
  return if hist.isEmpty then 0 else s / hist.length

/-- The price is near an end of the range. -/
def signal1 (tick : MarketData) : Bool := tick.price < 105 || 195 < tick.price

/-- The price is more than 2% away from the average. -/
def signal2 (tick : MarketData) : StateM Histories Bool := do
  let hist ← historyOf tick.instrumentId
  if hist.length < 5 then return false
  else
    let avg ← getAvg tick.instrumentId
    return tick.price < avg * (98 / 100) || avg * (102 / 100) < tick.price

/-- The last two moves were up. -/
def signal3 (tick : MarketData) : StateM Histories Bool := do
  let hist ← historyOf tick.instrumentId
  if short : hist.length < 3 then return false
  else
    let diff1 := hist[hist.length - 2] - hist[hist.length - 3]
    let diff2 := hist[hist.length - 1] - hist[hist.length - 2]
    return 0 < diff1 && 0 < diff2

structure TradeEngine where
  orders : List Order
  latencies : List Int
  priceHistory : Histories

/-- The flags `buy` and `sell` after the signals. -/
def flags (tick : MarketData) : StateM Histories (Bool × Bool) := do
  let buy := signal1 tick
  let (buy, sell) ← do
    if ← signal2 tick then
      let avg ← getAvg tick.instrumentId
      if tick.price < avg then pure (true, false) else pure (buy, true)
    else pure (buy, false)
  let buy := if ← signal3 tick then true else buy
  return (buy, sell)

/-- The body of the loop of `process`. -/
def processTick (clock : Nat → Int) (engine : TradeEngine) (tick : MarketData) : TradeEngine :=
  let ((), histories) := (updateHistory tick).run engine.priceHistory
  let ((buy, sell), histories) := (flags tick).run histories
  if buy || sell then
    let now := clock engine.orders.length
    { orders := engine.orders ++ [⟨tick.instrumentId,
        tick.price + (if buy then 1 / 100 else -(1 / 100)), buy, now⟩]
      latencies := engine.latencies ++ [now - tick.timestamp]
      priceHistory := histories }
  else { engine with priceHistory := histories }

def process (clock : Nat → Int) (marketData : List MarketData) : TradeEngine :=
  marketData.foldl (processTick clock) ⟨[], [], ∅⟩

/-! ## One tick -/

def average (hist : List ℚ) : ℚ :=
  if hist.isEmpty then 0 else hist.foldl (fun s p => s + p) 0 / hist.length

def deviates (hist : List ℚ) (price : ℚ) : Bool :=
  5 ≤ hist.length && (price < average hist * (98 / 100) || average hist * (102 / 100) < price)

def rising (hist : List ℚ) : Bool :=
  if short : hist.length < 3 then false
  else 0 < hist[hist.length - 2] - hist[hist.length - 3] &&
    0 < hist[hist.length - 1] - hist[hist.length - 2]

/-- The flags, from the history that the price has been added to. -/
def flagsOf (hist : List ℚ) (price : ℚ) : Bool × Bool :=
  let extreme : Bool := price < 105 || 195 < price
  let below := deviates hist price && price < average hist
  let above := deviates hist price && !(price < average hist)
  (extreme || below || rising hist, above)

/-- The price and the side of the order that a tick leads to. -/
def decision (hist : List ℚ) (price : ℚ) : Option (ℚ × Bool) :=
  let (buy, sell) := flagsOf hist price
  if buy || sell then some (price + (if buy then 1 / 100 else -(1 / 100)), buy) else none

section Signals

theorem pure_eq {Value : Type} (v : Value) (histories : Histories) :
    (pure v : StateM Histories Value) histories = (v, histories) := rfl

theorem bind_eq {First Second : Type} (first : StateM Histories First)
    (rest : First → StateM Histories Second) (histories : Histories) :
    (first >>= rest) histories = rest (first histories).1 (first histories).2 := rfl

theorem map_eq {First Second : Type} (f : First → Second) (first : StateM Histories First)
    (histories : Histories) :
    (f <$> first) histories = (f (first histories).1, (first histories).2) := rfl

theorem modify_eq (change : Histories → Histories) (histories : Histories) :
    (modify change : StateM Histories PUnit) histories = (⟨⟩, change histories) := rfl

variable {histories : Histories} {hist : List ℚ} {tick : MarketData}

theorem history_of_eq {id : Int32} (found : histories.lookup id = some hist) :
    historyOf id histories = (hist, histories) := by
  simp [historyOf, found]

theorem get_avg_eq {id : Int32} (found : histories.lookup id = some hist) :
    getAvg id histories = (average hist, histories) := by
  simp [getAvg, average, bind_eq, history_of_eq found]
  rfl

theorem signal2_eq (found : histories.lookup tick.instrumentId = some hist) :
    signal2 tick histories = (deviates hist tick.price, histories) := by
  simp only [signal2, bind_eq, history_of_eq found, deviates]
  by_cases few : hist.length < 5
  · rw [if_pos few, decide_eq_false (Nat.not_le.mpr few)]
    rfl
  · rw [if_neg few, decide_eq_true (Nat.le_of_not_lt few)]
    simp only [bind_eq, get_avg_eq found]
    rfl

theorem signal3_eq (found : histories.lookup tick.instrumentId = some hist) :
    signal3 tick histories = (rising hist, histories) := by
  simp only [signal3, bind_eq, history_of_eq found, rising]
  by_cases short : hist.length < 3
  · rw [dif_pos short, dif_pos short]
    rfl
  · rw [dif_neg short, dif_neg short]
    rfl

theorem flags_eq (found : histories.lookup tick.instrumentId = some hist) :
    flags tick histories = (flagsOf hist tick.price, histories) := by
  simp only [flags, bind_eq, signal2_eq found]
  cases far : deviates hist tick.price with
  | false =>
      simp [bind_eq, pure_eq, map_eq, signal3_eq found, flagsOf, far, signal1,
        Bool.or_comm]
  | true =>
      by_cases below : tick.price < average hist
      · simp [bind_eq, map_eq, signal3_eq found, get_avg_eq found, flagsOf,
          far, below]
      · simp [bind_eq, map_eq, signal3_eq found, get_avg_eq found, flagsOf,
          far, below, signal1, Bool.or_comm]

end Signals

def historyAt (engine : TradeEngine) (id : Int32) : List ℚ :=
  (engine.priceHistory.lookup id).getD []

def ordersOf (engine : TradeEngine) (id : Int32) : List (ℚ × Bool) :=
  (engine.orders.filter fun o => o.instrumentId = id).map fun o => (o.price, o.isBuy)

theorem update_history_lookup (tick : MarketData) (histories : Histories) (id : Int32) :
    ((updateHistory tick histories).2).lookup id =
      if id = tick.instrumentId then
        some (slide 10 ((histories.lookup tick.instrumentId).getD []) tick.price)
      else histories.lookup id := by
  cases found : histories.lookup tick.instrumentId with
  | some hist =>
      simp [updateHistory, bind_eq, modify_eq, historyOf, found, lookup_insert_eq]
  | none =>
      simp [updateHistory, bind_eq, modify_eq, historyOf, found, lookup_insert_eq]

section Tick

variable (clock : Nat → Int) (engine : TradeEngine) (tick : MarketData)

/-- The history of the instrument with the price of the tick. -/
def window : List ℚ := slide 10 (historyAt engine tick.instrumentId) tick.price

theorem process_tick_eq :
    (processTick clock engine tick).priceHistory = (updateHistory tick engine.priceHistory).2 ∧
      (processTick clock engine tick).orders = engine.orders ++
        ((decision (window engine tick) tick.price).map fun placed =>
          ⟨tick.instrumentId, placed.1, placed.2, clock engine.orders.length⟩).toList := by
  have found : ((updateHistory tick engine.priceHistory).2).lookup tick.instrumentId =
      some (window engine tick) := by
    rw [update_history_lookup, if_pos rfl, window, historyAt]
  have same := flags_eq found
  unfold processTick StateT.run decision
  generalize updateHistory tick engine.priceHistory = updated at same ⊢
  obtain ⟨⟨⟩, histories⟩ := updated
  dsimp only at same ⊢
  rw [same]
  cases flagsOf (window engine tick) tick.price with
  | mk buy sell => cases buy <;> cases sell <;> simp

theorem history_at_process_tick (id : Int32) :
    historyAt (processTick clock engine tick) id =
      if id = tick.instrumentId then window engine tick else historyAt engine id := by
  rw [historyAt, (process_tick_eq clock engine tick).1, update_history_lookup]
  split_ifs <;> rfl

theorem orders_of_process_tick (id : Int32) :
    ordersOf (processTick clock engine tick) id =
      ordersOf engine id ++ if id = tick.instrumentId then
        (decision (window engine tick) tick.price).toList else [] := by
  rw [ordersOf, (process_tick_eq clock engine tick).2, List.filter_append, List.map_append]
  apply congrArg (ordersOf engine id ++ ·)
  cases decision (window engine tick) tick.price with
  | none => simp
  | some placed => by_cases same : id = tick.instrumentId <;> simp [same, Ne.symm]

end Tick

/-! ## A run -/

theorem process_append (clock : Nat → Int) (ticks : List MarketData) (tick : MarketData) :
    process clock (ticks ++ [tick]) = processTick clock (process clock ticks) tick := by
  rw [process, List.foldl_append]
  rfl

/-- What is seen of an instrument. -/
def seen (engine : TradeEngine) (id : Int32) : List ℚ × List (ℚ × Bool) :=
  (historyAt engine id, ordersOf engine id)

def seeTick (view : List ℚ × List (ℚ × Bool)) (tick : MarketData) : List ℚ × List (ℚ × Bool) :=
  let hist := slide 10 view.1 tick.price
  (hist, view.2 ++ (decision hist tick.price).toList)

theorem process_tick_isolated (clock : Nat → Int) :
    Isolated (processTick clock) MarketData.instrumentId seen seeTick where
  same engine tick := by
    rw [seen, history_at_process_tick, orders_of_process_tick, if_pos rfl, if_pos rfl]
    rfl
  other engine tick id different := by
    rw [seen, history_at_process_tick, orders_of_process_tick, if_neg (Ne.symm different),
      if_neg (Ne.symm different), List.append_nil]
    rfl

/-- The prices of the instrument, in order. -/
def pricesOf (id : Int32) (ticks : List MarketData) : List ℚ :=
  (eventsOf MarketData.instrumentId id ticks).map MarketData.price

theorem history_at_process (clock : Nat → Int) (ticks : List MarketData) (id : Int32) :
    historyAt (process clock ticks) id = (pricesOf id ticks).rtake 10 := by
  have run := (process_tick_isolated clock).view_run ⟨[], [], ∅⟩ ticks id
  have windows : ∀ (view : List ℚ × List (ℚ × Bool)) (events : List MarketData),
      (events.foldl seeTick view).1 = (events.map MarketData.price).foldl (slide 10) view.1 := by
    intro view events
    induction events generalizing view with
    | nil => rfl
    | cons event events ih => exact ih (seeTick view event)
  have held := congrArg Prod.fst run
  rw [windows, ← pricesOf] at held
  exact held.trans (foldl_slide 10 (pricesOf id ticks))

/-- An order is for the instrument of some tick. -/
theorem order_instrument (clock : Nat → Int) (ticks : List MarketData) :
    ∀ o ∈ (process clock ticks).orders, ∃ tick ∈ ticks, tick.instrumentId = o.instrumentId := by
  induction ticks using List.reverseRecOn with
  | nil => exact fun o member => absurd member List.not_mem_nil
  | append_singleton ticks tick ih =>
      intro o member
      rw [process_append, (process_tick_eq clock _ tick).2] at member
      rcases List.mem_append.mp member with earlier | placed
      · obtain ⟨old, present, same⟩ := ih o earlier
        exact ⟨old, List.mem_append_left _ present, same⟩
      · obtain ⟨_, _, built⟩ := Option.map_eq_some_iff.mp (Option.mem_toList.mp placed)
        exact ⟨tick, List.mem_append_right _ (List.mem_singleton_self tick), by rw [← built]⟩

/-- What the last tick of an instrument leads to, from its last prices. -/
def decisionAfter (prices : List ℚ) : Option (ℚ × Bool) := prices.getLast?.bind (decision prices)

/-- An instrument sees its own ticks only, and of these the last ten. -/
theorem instruments_isolated (clock clockToo : Nat → Int) :
    (∀ ticks x, ordersOf (process clock ticks) x =
      (process clockToo (eventsOf MarketData.instrumentId x ticks)).orders.map
        fun o => (o.price, o.isBuy)) ∧
    ∀ before tick,
      let last := (pricesOf tick.instrumentId (before ++ [tick])).rtake 10
      (process clock (before ++ [tick])).priceHistory.lookup tick.instrumentId = some last ∧
        ordersOf (process clock (before ++ [tick])) tick.instrumentId =
          ordersOf (process clock before) tick.instrumentId ++ (decisionAfter last).toList := by
  constructor
  · intro ticks x
    have alike := (process_tick_isolated clock).view_eq (process_tick_isolated clockToo)
      (rfl : seen ⟨[], [], ∅⟩ x = seen ⟨[], [], ∅⟩ x) ticks
    have own : ∀ o ∈ (process clockToo (eventsOf MarketData.instrumentId x ticks)).orders,
        decide (o.instrumentId = x) = true := by
      intro o member
      obtain ⟨tick, present, same⟩ := order_instrument clockToo _ o member
      rw [← same]
      exact (List.mem_filter.mp present).2
    calc ordersOf (process clock ticks) x
        = ordersOf (process clockToo (eventsOf MarketData.instrumentId x ticks)) x :=
          congrArg Prod.snd alike
      _ = _ := by rw [ordersOf, List.filter_eq_self.mpr own]
  · intro before tick last
    have held : window (process clock before) tick = last := by
      rw [window, history_at_process, slide_rtake, pricesOf]
      dsimp only [last]
      rw [pricesOf, events_of_append_same rfl, List.map_append]
      rfl
    have current : last.getLast? = some tick.price := by
      dsimp only [last]
      rw [pricesOf, events_of_append_same rfl, List.map_append, List.map_singleton,
        List.rtake_concat_succ, List.getLast?_concat]
    rw [process_append, orders_of_process_tick, if_pos rfl, decisionAfter, current, ← held]
    refine ⟨?_, rfl⟩
    rw [(process_tick_eq clock _ tick).1, update_history_lookup, if_pos rfl]
    rfl

end Finm327.Hw3
