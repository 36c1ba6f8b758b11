import Mathlib.Order.Bounds.Basic
import Finm327.Library.Maps
import Finm327.Library.Scans

/-!
# The local view of the market

Transcribes `phase3/market_snapshot.cpp`: a level for each price of each side, the best of them
at the front of its map. Prices are any linear order, which the doubles without NaN are.
A level is there exactly as long as the last update of its price has a positive quantity.
-/

namespace Finm327.Phase3

open Finm327.Library.Maps
open Finm327.Library.Scans

universe u

structure PriceLevel (PriceT : Type u) where
  price : PriceT
  quantity : Int32
deriving DecidableEq

abbrev Levels (PriceT : Type u) := KeyMap PriceT (PriceLevel PriceT)

structure MarketSnapshot (PriceT : Type u) where
  bids : Levels PriceT
  asks : Levels PriceT

namespace MarketSnapshot

variable {PriceT : Type u} [LinearOrder PriceT]

/-- The body that `update_bid` and `update_ask` share. -/
def updateLevels (price : PriceT) (qty : Int32) (levels : Levels PriceT) : Levels PriceT :=
  if qty ≤ 0 then
    match levels.lookup price with
    | none => levels
    | some _ => levels.erase price
  else
    match levels.lookup price with
    | none => emplace price ⟨price, qty⟩ levels
    | some level => levels.insert price { level with quantity := qty }

def updateBid (price : PriceT) (qty : Int32) (snapshot : MarketSnapshot PriceT) :
    MarketSnapshot PriceT :=
  { snapshot with bids := updateLevels price qty snapshot.bids }

def updateAsk (price : PriceT) (qty : Int32) (snapshot : MarketSnapshot PriceT) :
    MarketSnapshot PriceT :=
  { snapshot with asks := updateLevels price qty snapshot.asks }

/-- `bids_` is sorted from high to low: `begin()` has the greatest key. -/
def getBestBid (snapshot : MarketSnapshot PriceT) : Option (PriceLevel PriceT) :=
  (@scan _ PriceT (descending PriceT) (fun entry => some entry.1) snapshot.bids.entries).map
    fun found => found.1.2

def getBestAsk (snapshot : MarketSnapshot PriceT) : Option (PriceLevel PriceT) :=
  (scan (fun entry => some entry.1) snapshot.asks.entries).map fun found => found.1.2

/-! ## What the levels show -/

/-- The quantity that the last update of a price left there. -/
def quoted (updates : List (PriceT × Int32)) (price : PriceT) : Option Int32 :=
  updates.foldl (fun standing update =>
    if update.1 = price then if update.2 ≤ 0 then none else some update.2 else standing) none

theorem quoted_append_singleton (updates : List (PriceT × Int32)) (update : PriceT × Int32)
    (price : PriceT) :
    quoted (updates ++ [update]) price =
      if update.1 = price then if update.2 ≤ 0 then none else some update.2
      else quoted updates price := by
  rw [quoted, List.foldl_append]
  rfl

def Shows (levels : Levels PriceT) (updates : List (PriceT × Int32)) : Prop :=
  ∀ price, levels.lookup price = (quoted updates price).map fun qty => ⟨price, qty⟩

theorem shows_empty : Shows (∅ : Levels PriceT) [] := fun _ => rfl

theorem update_levels_other {price other : PriceT} (different : other ≠ price) (qty : Int32)
    (levels : Levels PriceT) : (updateLevels price qty levels).lookup other = levels.lookup other := by
  unfold updateLevels
  split_ifs
  · cases levels.lookup price with
    | none => rfl
    | some level => exact AList.lookup_erase_ne different
  · cases levels.lookup price with
    | none => exact lookup_emplace_ne different _ levels
    | some level => exact AList.lookup_insert_ne different

/-- At its own price an update leaves its quantity or nothing, as levels keep their price. -/
theorem update_levels_own {price : PriceT} {levels : Levels PriceT}
    (keyed : ∀ level, levels.lookup price = some level → level.price = price) (qty : Int32) :
    (updateLevels price qty levels).lookup price = if qty ≤ 0 then none else some ⟨price, qty⟩ := by
  unfold updateLevels
  split_ifs with gone
  · cases found : levels.lookup price with
    | none => exact found
    | some level => exact AList.lookup_erase price levels
  · cases found : levels.lookup price with
    | none =>
        dsimp only
        rw [lookup_emplace_of_notMem (AList.lookup_eq_none.mp found), if_pos rfl]
    | some level =>
        dsimp only
        rw [AList.lookup_insert, keyed level found]

theorem Shows.keyed {levels : Levels PriceT} {updates : List (PriceT × Int32)}
    (shows : Shows levels updates) {price : PriceT} {level : PriceLevel PriceT}
    (found : levels.lookup price = some level) : level.price = price := by
  rw [shows] at found
  obtain ⟨qty, -, own⟩ := Option.map_eq_some_iff.mp found
  rw [← own]

theorem update_levels_shows {levels : Levels PriceT} {updates : List (PriceT × Int32)}
    (shows : Shows levels updates) (price : PriceT) (qty : Int32) :
    Shows (updateLevels price qty levels) (updates ++ [(price, qty)]) := by
  intro other
  rw [quoted_append_singleton]
  dsimp only
  by_cases same : price = other
  · subst same
    rw [if_pos rfl, update_levels_own fun _ found => shows.keyed found]
    split_ifs <;> rfl
  · rw [if_neg same, update_levels_other (Ne.symm same)]
    exact shows other

/-- The prices that stand. -/
def standing (updates : List (PriceT × Int32)) : Set PriceT :=
  {price | (quoted updates price).isSome}

theorem Shows.level {levels : Levels PriceT} {updates : List (PriceT × Int32)}
    (shows : Shows levels updates) {entry : (_ : PriceT) × PriceLevel PriceT}
    (member : entry ∈ levels.entries) :
    entry.1 ∈ standing updates ∧ entry.2.price = entry.1 := by
  have found : levels.lookup entry.1 = some entry.2 := AList.mem_lookup_iff.mpr member
  refine ⟨?_, shows.keyed found⟩
  rw [shows] at found
  obtain ⟨qty, quote, _⟩ := Option.map_eq_some_iff.mp found
  exact Option.isSome_iff_exists.mpr ⟨qty, quote⟩

theorem Shows.entry {levels : Levels PriceT} {updates : List (PriceT × Int32)}
    (shows : Shows levels updates) {price : PriceT} (stands : price ∈ standing updates) :
    ∃ level, ⟨price, level⟩ ∈ levels.entries := by
  obtain ⟨qty, quote⟩ := Option.isSome_iff_exists.mp stands
  have found := shows price
  rw [quote, Option.map_some] at found
  exact ⟨_, AList.mem_lookup_iff.mp found⟩

theorem best_bid_greatest {snapshot : MarketSnapshot PriceT} {updates : List (PriceT × Int32)}
    (shows : Shows snapshot.bids updates) {level : PriceLevel PriceT}
    (best : snapshot.getBestBid = some level) : IsGreatest (standing updates) level.price := by
  obtain ⟨⟨entry, price⟩, found, own⟩ := Option.map_eq_some_iff.mp best
  obtain ⟨member, weighs, bound⟩ := descending_scan_greatest found
  obtain ⟨stands, keyed⟩ := shows.level member
  rw [← own, keyed]
  refine ⟨stands, ?_⟩
  intro other standsToo
  obtain ⟨otherLevel, memberToo⟩ := shows.entry standsToo
  rw [Option.some.inj weighs]
  exact bound _ memberToo other rfl

theorem best_ask_least {snapshot : MarketSnapshot PriceT} {updates : List (PriceT × Int32)}
    (shows : Shows snapshot.asks updates) {level : PriceLevel PriceT}
    (best : snapshot.getBestAsk = some level) : IsLeast (standing updates) level.price := by
  obtain ⟨⟨entry, price⟩, found, own⟩ := Option.map_eq_some_iff.mp best
  have least := scan_least found
  obtain ⟨stands, keyed⟩ := shows.level least.member
  rw [← own, keyed]
  refine ⟨stands, ?_⟩
  intro other standsToo
  obtain ⟨otherLevel, memberToo⟩ := shows.entry standsToo
  rw [Option.some.inj least.weighs]
  exact least.bound _ memberToo other rfl

end MarketSnapshot

end Finm327.Phase3
