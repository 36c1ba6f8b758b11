import Mathlib.Algebra.Ring.Int.Defs
import Finm327.Phase3.Strategy

/-!
# Fills within the order

What a call may do to the orders: none of them has a negative fill or one that reaches its
quantity, fills do not go back, and an order leaves as filled with exactly its quantity. That
holds of a fill exactly if it is not negative and not larger than what is left, and of all else
in any case.
-/

namespace Finm327.Phase3

open Finm327.Library.Maps
open Finm327.Library.Runs
open Finm327.Library.SignedArithmetic

universe u

variable {PriceT : Type u}

namespace OrderManager

/-- Every active order has something left to fill. -/
def Bounded (om : OrderManager PriceT) : Prop :=
  ∀ id order, om.orders.lookup id = some order → 0 ≤ order.filled ∧ order.filled < order.quantity

/-- The promise about one step. -/
structure StaysWithin (before after : OrderManager PriceT) (reports : List (Report PriceT)) :
    Prop where
  bounded : after.Bounded
  grows : ∀ id old order, before.orders.lookup id = some old →
    after.orders.lookup id = some order →
    old.filled ≤ order.filled ∧ order.quantity = old.quantity
  completes : ∀ order, .completed order ∈ reports → ∃ id old,
    before.orders.lookup id = some old ∧ id ∉ after.orders ∧ old.filled ≤ order.filled ∧
      order = { old with filled := old.quantity, status := .filled }
  leaves : ∀ id old, before.orders.lookup id = some old → id ∉ after.orders →
    .completed { old with filled := old.quantity, status := .filled } ∈ reports ∨
      .cancelled { old with status := .cancelled } ∈ reports

/-- Orders are added, none is touched or completed. -/
structure Extends (before after : OrderManager PriceT) (reports : List (Report PriceT)) :
    Prop where
  kept : ∀ id order, before.orders.lookup id = some order → after.orders.lookup id = some order
  added : ∀ id order, after.orders.lookup id = some order →
    before.orders.lookup id = some order ∨ order.filled = 0 ∧ 0 < order.quantity
  silent : ∀ order, .completed order ∉ reports

theorem extends_refl (om : OrderManager PriceT) : Extends om om [] :=
  ⟨fun _ _ found => found, fun _ _ found => .inl found, fun _ => List.not_mem_nil⟩

theorem Extends.trans {before between after : OrderManager PriceT}
    {first second : List (Report PriceT)} (extends_first : Extends before between first)
    (extends_second : Extends between after second) : Extends before after (first ++ second) := by
  refine ⟨?_, ?_, ?_⟩
  · intro id order found
    exact extends_second.kept id order (extends_first.kept id order found)
  · intro id order found
    cases extends_second.added id order found with
    | inl old => exact extends_first.added id order old
    | inr new => exact .inr new
  · intro order member
    cases List.mem_append.mp member with
    | inl early => exact extends_first.silent order early
    | inr late => exact extends_second.silent order late

theorem Extends.within {before after : OrderManager PriceT} {reports : List (Report PriceT)}
    (extension : Extends before after reports) (bounded : before.Bounded) :
    StaysWithin before after reports := by
  refine ⟨?_, ?_, ?_, ?_⟩
  · intro id order found
    cases extension.added id order found with
    | inl old => exact bounded id order old
    | inr new =>
        rw [new.1]
        exact ⟨by decide, new.2⟩
  · intro id old order found later
    rw [extension.kept id old found] at later
    cases later
    exact ⟨Int32.le_refl _, rfl⟩
  · exact fun order member => absurd member (extension.silent order)
  · intro id old found gone
    exact absurd (mem_iff_lookup.mpr ⟨old, extension.kept id old found⟩) gone

theorem place_order_extends (overflow : Int → Int32) (side : Side) (price : PriceT) {qty : Int32}
    (positive : 0 < qty) (om : OrderManager PriceT) :
    Extends om (om.placeOrder overflow side price qty).1
      [(om.placeOrder overflow side price qty).2] := by
  refine ⟨?_, ?_, ?_⟩
  · intro id order found
    rw [place_order_lookup, if_neg, found]
    exact fun both => both.2 (mem_iff_lookup.mpr ⟨order, found⟩)
  · intro id order found
    rw [place_order_lookup] at found
    split_ifs at found
    · cases found
      exact .inr ⟨rfl, positive⟩
    · exact .inl found
  · intro order member
    have shown := List.mem_singleton.mp member
    cases shown

/-- A call for an id that is not there. -/
theorem unknown_within {om : OrderManager PriceT} (bounded : om.Bounded) (id : Int32) :
    StaysWithin om om [.unknown id] := by
  apply Extends.within ?_ bounded
  refine ⟨fun _ _ own => own, fun _ _ own => .inl own, ?_⟩
  intro order member
  cases List.mem_singleton.mp member

/-- An order leaves as completed with its quantity, or as cancelled. -/
theorem erase_within {om : OrderManager PriceT} (bounded : om.Bounded) {id : Int32}
    {ord : MyOrder PriceT} (found : om.orders.lookup id = some ord) {report : Report PriceT}
    (told : report = .completed { ord with filled := ord.quantity, status := .filled } ∨
      report = .cancelled { ord with status := .cancelled }) :
    StaysWithin om { om with orders := om.orders.erase id } [report] := by
  have left : ∀ other order, (om.orders.erase id).lookup other = some order →
      om.orders.lookup other = some order := by
    intro other order own
    rw [lookup_erase_eq] at own
    split_ifs at own
    exact own
  refine ⟨?_, ?_, ?_, ?_⟩
  · exact fun other order own => bounded other order (left other order own)
  · intro other old order own later
    rw [left other order later] at own
    cases own
    exact ⟨Int32.le_refl _, rfl⟩
  · intro order member
    rw [← List.mem_singleton.mp member] at told
    rcases told with completed | contrary
    · cases completed
      exact ⟨id, ord, found, AList.lookup_eq_none.mp (AList.lookup_erase id om.orders),
        Int32.le_of_lt (bounded id ord found).2, rfl⟩
    · cases contrary
  · intro other old own gone
    rw [← AList.lookup_eq_none, lookup_erase_eq] at gone
    split_ifs at gone with same
    · rw [same, found] at own
      cases own
      rw [List.mem_singleton, List.mem_singleton]
      exact told.imp Eq.symm Eq.symm
    · rw [own] at gone
      cases gone

theorem cancel_within {om : OrderManager PriceT} (bounded : om.Bounded) (id : Int32) :
    StaysWithin om (om.cancel id).1 [(om.cancel id).2] := by
  unfold cancel
  cases found : om.orders.lookup id with
  | none => exact unknown_within bounded id
  | some ord => exact erase_within bounded found (.inr rfl)

/-- An order is filled further and has something left. -/
theorem insert_within {om : OrderManager PriceT} (bounded : om.Bounded) {id : Int32}
    {ord order : MyOrder PriceT} (found : om.orders.lookup id = some ord)
    (grown : ord.filled ≤ order.filled) (below : order.filled < order.quantity)
    (same : order.quantity = ord.quantity) :
    StaysWithin om { om with orders := om.orders.insert id order } [.partially order] := by
  refine ⟨?_, ?_, ?_, ?_⟩
  · intro other later own
    rw [lookup_insert_eq] at own
    split_ifs at own
    · cases own
      exact ⟨Int32.le_trans (bounded id ord found).1 grown, below⟩
    · exact bounded other later own
  · intro other old later own ownLater
    rw [lookup_insert_eq] at ownLater
    split_ifs at ownLater with here
    · rw [here, found] at own
      cases own
      cases ownLater
      exact ⟨grown, same⟩
    · rw [own] at ownLater
      cases ownLater
      exact ⟨Int32.le_refl _, rfl⟩
  · intro later member
    cases List.mem_singleton.mp member
  · intro other old own gone
    rw [← AList.lookup_eq_none, lookup_insert_eq] at gone
    split_ifs at gone
    rw [own] at gone
    cases gone

/-- The quantity is no negative one, and there is as much left of the order. -/
def Takes (om : OrderManager PriceT) (id filledQty : Int32) : Prop :=
  ∀ order, om.orders.lookup id = some order →
    0 ≤ filledQty ∧ order.filled.toInt + filledQty.toInt ≤ order.quantity.toInt

theorem handle_fill_within {overflow : Int → Int32} {om : OrderManager PriceT}
    (bounded : om.Bounded) {id filledQty : Int32} (takes : om.Takes id filledQty) :
    StaysWithin om (om.handleFill overflow id filledQty).1
      [(om.handleFill overflow id filledQty).2] := by
  unfold handleFill
  cases found : om.orders.lookup id with
  | none => exact unknown_within bounded id
  | some ord =>
      obtain ⟨positive, room⟩ := takes ord found
      obtain ⟨started, below⟩ := bounded id ord found
      rw [Int32.le_iff_toInt_le] at positive started
      have zero : (0 : Int32).toInt = 0 := rfl
      have upper := ord.quantity.toInt_lt
      have sum : (signed overflow (ord.filled.toInt + filledQty.toInt)).toInt =
          ord.filled.toInt + filledQty.toInt := signed_to_int (by omega) (by omega)
      dsimp only
      split_ifs with full
      · have exactly : signed overflow (ord.filled.toInt + filledQty.toInt) = ord.quantity := by
          rw [Int32.le_iff_toInt_le] at full
          apply Int32.toInt_inj.mp
          omega
        rw [exactly]
        exact erase_within bounded found (.inl rfl)
      · have grown : ord.filled ≤ signed overflow (ord.filled.toInt + filledQty.toInt) := by
          rw [Int32.le_iff_toInt_le, sum]
          omega
        exact insert_within bounded found grown (Int32.not_le.mp full) rfl

/-- A fill that is negative or too large breaks the promise, at the latest with some result of
a sum that no `int` holds. -/
theorem takes_of_within {om : OrderManager PriceT} (bounded : om.Bounded) {id filledQty : Int32}
    (within : ∀ overflow, StaysWithin om (om.handleFill overflow id filledQty).1
      [(om.handleFill overflow id filledQty).2]) : om.Takes id filledQty := by
  intro ord found
  obtain ⟨started, below⟩ := bounded id ord found
  rw [Int32.le_iff_toInt_le] at started
  rw [Int32.lt_iff_toInt_lt] at below
  have zero : (0 : Int32).toInt = 0 := rfl
  have in_range : 0 ≤ (signed (fun _ => -1) (ord.filled.toInt + filledQty.toInt)).toInt →
      (signed (fun _ => -1) (ord.filled.toInt + filledQty.toInt)).toInt =
        ord.filled.toInt + filledQty.toInt := by
    intro positive
    by_cases fits : -2 ^ 31 ≤ ord.filled.toInt + filledQty.toInt ∧
        ord.filled.toInt + filledQty.toInt < 2 ^ 31
    · exact signed_to_int fits.1 fits.2
    · rw [signed, if_neg fits] at positive
      exact absurd positive (by decide)
  have own := within (fun _ => -1)
  unfold handleFill at own
  rw [found] at own
  dsimp only at own
  rw [Int32.le_iff_toInt_le, zero]
  split_ifs at own with full
  · obtain ⟨other, old, foundToo, gone, -, same⟩ := own.completes _ List.mem_cons_self
    have same_id : other = id := by
      rw [← AList.lookup_eq_none, lookup_erase_eq] at gone
      split_ifs at gone with same_id
      · exact same_id
      · rw [foundToo] at gone
        cases gone
    rw [same_id, found, Option.some.injEq] at foundToo
    rw [← foundToo] at same
    have sum := congrArg (fun order : MyOrder PriceT => order.filled.toInt) same
    dsimp only at sum
    have total := in_range (by omega)
    omega
  · have grown := (own.grows id ord _ found (AList.lookup_insert om.orders)).1
    have positive := (own.bounded id _ (AList.lookup_insert om.orders)).1
    rw [Int32.le_iff_toInt_le] at grown positive full
    dsimp only at grown positive
    have total := in_range positive
    omega

end OrderManager

namespace Trader

variable [LinearOrder PriceT] {overflow : Int → Int32} {thresholds : Thresholds PriceT}

theorem place_at_extends (side : Side) (wanted : PriceT → Bool)
    (best : Option (PriceLevel PriceT)) (om : OrderManager PriceT) :
    om.Extends (placeAt overflow side wanted best om).1
      (placeAt overflow side wanted best om).2 := by
  unfold placeAt
  cases best with
  | none => exact OrderManager.extends_refl om
  | some level =>
      dsimp only
      split_ifs
      · exact OrderManager.place_order_extends overflow side level.price (by decide) om
      · exact OrderManager.extends_refl om

theorem run_strategy_extends (snapshot : MarketSnapshot PriceT) (om : OrderManager PriceT) :
    om.Extends (runStrategy overflow thresholds snapshot om).1
      (runStrategy overflow thresholds snapshot om).2 := by
  rw [run_strategy_eq]
  exact (place_at_extends .sell _ snapshot.getBestBid om).trans
    (place_at_extends .buy _ snapshot.getBestAsk _)

/-- The fill that a step hands to the order manager. -/
def fillOf : TraderOp PriceT → Option (Int32 × Int32)
  | .event ev => if ev.type = .execution then some (ev.orderId, ev.quantity) else none
  | .fill id filledQty => some (id, filledQty)
  | _ => none

/-- Orders are placed with a positive quantity. -/
def PositiveQty : TraderOp PriceT → Prop
  | .place _ _ qty => 0 < qty
  | _ => True

/-- The step's fill, if it is one, is not negative and not larger than what is left. -/
def Measured (trader : Trader PriceT) (op : TraderOp PriceT) : Prop :=
  ∀ fill ∈ fillOf op, trader.om.Takes fill.1 fill.2

/-- The step keeps the promise. -/
def StepWithin (overflow : Int → Int32) (thresholds : Thresholds PriceT) (trader : Trader PriceT)
    (op : TraderOp PriceT) : Prop :=
  ∀ after reports, trader.step overflow thresholds op = some (after, reports) →
    trader.om.StaysWithin after.om reports

theorem step_fill {op : TraderOp PriceT} {fill : Int32 × Int32} (fills : fillOf op = some fill)
    (trader : Trader PriceT) :
    trader.step overflow thresholds op =
      some ({ trader with om := (trader.om.handleFill overflow fill.1 fill.2).1 },
        [(trader.om.handleFill overflow fill.1 fill.2).2]) := by
  cases op with
  | event ev =>
      rw [fillOf] at fills
      split_ifs at fills with execution
      cases fills
      exact congrArg some (dispatch_execution execution trader)
  | place side price qty => cases fills
  | cancel id => cases fills
  | fill id filledQty =>
      cases fills
      rfl

theorem within_of_no_fill {trader : Trader PriceT} (bounded : trader.om.Bounded)
    {op : TraderOp PriceT} (positive : PositiveQty op) (no_fill : fillOf op = none) :
    StepWithin overflow thresholds trader op := by
  intro after reports next
  cases op with
  | event ev =>
      have ran := Option.some.inj next
      cases kind : ev.type with
      | bid =>
          rw [dispatch_bid kind] at ran
          cases ran
          exact (run_strategy_extends _ trader.om).within bounded
      | ask =>
          rw [dispatch_ask kind] at ran
          cases ran
          exact (run_strategy_extends _ trader.om).within bounded
      | execution =>
          rw [fillOf, if_pos kind] at no_fill
          cases no_fill
      | unknown =>
          rw [dispatch_unknown kind] at ran
          cases ran
          exact (OrderManager.extends_refl trader.om).within bounded
  | place side price qty =>
      cases next
      exact (OrderManager.place_order_extends overflow side price positive trader.om).within bounded
  | cancel id =>
      cases next
      exact OrderManager.cancel_within bounded id
  | fill id filledQty => cases no_fill

theorem step_within {trader : Trader PriceT} (bounded : trader.om.Bounded) {op : TraderOp PriceT}
    (positive : PositiveQty op) (measured : Measured trader op) :
    StepWithin overflow thresholds trader op := by
  cases fills : fillOf op with
  | none => exact within_of_no_fill bounded positive fills
  | some fill =>
      intro after reports next
      rw [step_fill fills] at next
      cases next
      exact OrderManager.handle_fill_within bounded (measured fill fills)

theorem step_within_iff {trader : Trader PriceT} (bounded : trader.om.Bounded)
    {op : TraderOp PriceT} (positive : PositiveQty op) :
    (∀ overflow, StepWithin overflow thresholds trader op) ↔ Measured trader op := by
  constructor
  · intro within fill fills
    apply OrderManager.takes_of_within bounded
    exact fun overflow => within overflow _ _ (step_fill fills trader)
  · exact fun measured overflow => step_within bounded positive measured

def measuredSteps (config : TraderRun PriceT) (op : TraderOp PriceT) : Prop :=
  PositiveQty op ∧ Measured config.state op

theorem reachable_bounded {config : TraderRun PriceT}
    (reached : Reachable (step overflow thresholds) measuredSteps initial config) :
    config.state.om.Bounded := by
  refine reachable_invariant (fun config : TraderRun PriceT => config.state.om.Bounded)
    ?_ ?_ reached
  · intro id order contrary
    cases contrary
  · intro config op after reports bounded measured next
    exact (step_within bounded measured.1 measured.2 after reports next).bounded

/-- In a run whose fills are all measured every active order has something left to fill, and the
next step keeps the promise, whatever sums beyond an `int` give, exactly if it is measured too. -/
theorem fills_within_iff_measured {config : TraderRun PriceT}
    (reached : Reachable (step overflow thresholds) measuredSteps initial config) :
    config.state.om.Bounded ∧ ∀ op, PositiveQty op →
      ((∀ overflow, StepWithin overflow thresholds config.state op) ↔ Measured config.state op) := by
  have bounded := reachable_bounded reached
  exact ⟨bounded, fun _ positive => step_within_iff bounded positive⟩

instance (om : OrderManager PriceT) (id filledQty : Int32) : Decidable (om.Takes id filledQty) :=
  Option.decidableForallMem (om.orders.lookup id)

instance (trader : Trader PriceT) (op : TraderOp PriceT) : Decidable (Measured trader op) :=
  Option.decidableForallMem (fillOf op)

instance (op : TraderOp PriceT) : Decidable (PositiveQty op) :=
  match op with
  | .event _ | .cancel _ | .fill _ _ => .isTrue trivial
  | .place _ _ qty => inferInstanceAs (Decidable (0 < qty))

instance (config : TraderRun PriceT) (op : TraderOp PriceT) :
    Decidable (measuredSteps config op) :=
  inferInstanceAs (Decidable (PositiveQty op ∧ Measured config.state op))

/-- The thresholds as they are for prices that are whole numbers. -/
def wholeThresholds : Thresholds Int := ⟨101, 100⟩

/-- An order of the strategy that is filled in three parts, one that is cancelled and a fill
that comes too late. -/
def sampleOps : List (TraderOp Int) :=
  [.event ⟨.bid, 101, 300, -1⟩, .event ⟨.execution, 0, 10, 1⟩, .place .buy 99 7, .fill 2 3,
    .event ⟨.execution, 0, 20, 1⟩, .event ⟨.execution, 0, 20, 1⟩, .cancel 2, .fill 1 5]

theorem fills_within_iff_measured_sample :
    ∃ config : TraderRun Int,
      Reachable (step (fun _ => 0) wholeThresholds) measuredSteps initial config ∧
        .completed ⟨1, .sell, 101, 50, 50, .filled⟩ ∈ config.observations.flatten ∧
        config.state.om.Bounded := by
  have completes : (execute (step (fun _ => 0) wholeThresholds) measuredSteps
      (.start (initial : Trader Int)) sampleOps).any (fun config =>
        decide (.completed ⟨1, .sell, 101, 50, 50, .filled⟩ ∈ config.observations.flatten)) =
          true := by
    decide
  obtain ⟨config, reached, filled⟩ := reachable_of_execute_any completes
  exact ⟨config, reached, filled, (fills_within_iff_measured reached).1⟩

/-- A bid, and two executions of the order that is placed for it: of -10 and of 70. -/
def overfillText : List UInt8 :=
  bidText ++ [32, 49, 48, 49, 32, 49, 48, 10] ++
    executionText ++ [32, 49, 32, 45, 49, 48, 10] ++
    executionText ++ [32, 49, 32, 55, 48, 10]

def strongBid : FeedEvent Int := ⟨.bid, 101, 10, -1⟩

def negativeFill : FeedEvent Int := ⟨.execution, 0, -10, 1⟩

def largeFill : FeedEvent Int := ⟨.execution, 0, 70, 1⟩

/-- After a negative execution less than nothing is filled, and a large one completes the order
with more than its quantity. -/
theorem filled_beyond_quantity :
    loadFeed Hft2026.scanInt (some overfillText) = [strongBid, negativeFill, largeFill] ∧
      (∃ config : TraderRun Int, Reachable (step (fun _ => 0) wholeThresholds) fed initial config ∧
        config.ops = [.event strongBid] ∧
        ¬ StepWithin (fun _ => 0) wholeThresholds config.state (.event negativeFill)) ∧
      ∃ config : TraderRun Int, Reachable (step (fun _ => 0) wholeThresholds) fed initial config ∧
        config.ops = [.event strongBid, .event negativeFill] ∧
        ¬ StepWithin (fun _ => 0) wholeThresholds config.state (.event largeFill) := by
  refine ⟨by decide, ?_, ?_⟩
  · have completes : (execute (step (fun _ => 0) wholeThresholds) fed
        (.start (initial : Trader Int)) [.event strongBid]).any (fun config =>
          decide (config.ops = [.event strongBid] ∧
            (config.state.dispatch (fun _ => 0) wholeThresholds
              negativeFill).1.om.orders.lookup 1 =
                some ⟨1, .sell, 101, 50, -10, .partiallyFilled⟩)) = true := by
      decide
    obtain ⟨config, reached, ops, negative⟩ := reachable_of_execute_any completes
    refine ⟨config, reached, ops, ?_⟩
    intro within
    exact absurd ((within _ _ rfl).bounded 1 _ negative).1 (by decide)
  · have completes : (execute (step (fun _ => 0) wholeThresholds) fed
        (.start (initial : Trader Int)) [.event strongBid, .event negativeFill]).any
          (fun config => decide (config.ops = [.event strongBid, .event negativeFill] ∧
            (config.state.dispatch (fun _ => 0) wholeThresholds largeFill).2 =
              [.completed ⟨1, .sell, 101, 50, 60, .filled⟩])) = true := by
      decide
    obtain ⟨config, reached, ops, completed⟩ := reachable_of_execute_any completes
    refine ⟨config, reached, ops, ?_⟩
    intro within
    have kept : config.state.om.StaysWithin
        (config.state.dispatch (fun _ => 0) wholeThresholds largeFill).1.om
        (config.state.dispatch (fun _ => 0) wholeThresholds largeFill).2 := within _ _ rfl
    rw [completed] at kept
    obtain ⟨-, old, -, -, -, same⟩ := kept.completes _ List.mem_cons_self
    have quantity := congrArg MyOrder.quantity same
    have filled := congrArg MyOrder.filled same
    exact absurd (filled.trans quantity.symm) (by decide)

end Trader

end Finm327.Phase3
