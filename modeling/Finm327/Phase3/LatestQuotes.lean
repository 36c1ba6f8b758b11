import Finm327.Phase3.MarketSnapshot

/-!
# The snapshot shows the latest quotes

Any run of updates from the empty snapshot: a side shows a price exactly as long as the
last update of that price on that side has a positive quantity, and `get_best_bid` and
`get_best_ask` return the outermost of these.
-/

namespace Finm327.Phase3

open Finm327.Library.Maps
open Finm327.Library.Scans

universe u

inductive QuoteSide where
  | bid | ask
deriving DecidableEq, Repr

/-- A call of `update_bid` or `update_ask`. -/
structure MarketUpdate (PriceT : Type u) where
  side : QuoteSide
  price : PriceT
  qty : Int32

namespace MarketSnapshot

variable {PriceT : Type u}

def levels (snapshot : MarketSnapshot PriceT) : QuoteSide → Levels PriceT
  | .bid => snapshot.bids
  | .ask => snapshot.asks

section Latest

def Concerns (side : QuoteSide) (price : PriceT) (update : MarketUpdate PriceT) : Prop :=
  update.side = side ∧ update.price = price

/-- The last update of the price on the side has this quantity. -/
def Latest (updates : List (MarketUpdate PriceT)) (side : QuoteSide) (price : PriceT)
    (qty : Int32) : Prop :=
  IsLast (Concerns side price) updates ⟨side, price, qty⟩

/-- And it is positive. -/
def Standing (updates : List (MarketUpdate PriceT)) (side : QuoteSide) (price : PriceT)
    (qty : Int32) : Prop :=
  Latest updates side price qty ∧ 0 < qty

def quoteOf (side : QuoteSide) (update : MarketUpdate PriceT) : Option (PriceT × Int32) :=
  if update.side = side then some (update.price, update.qty) else none

def sideUpdates (side : QuoteSide) (updates : List (MarketUpdate PriceT)) : List (PriceT × Int32) :=
  updates.filterMap (quoteOf side)

theorem side_updates_append (side : QuoteSide) (updates : List (MarketUpdate PriceT))
    (update : MarketUpdate PriceT) :
    sideUpdates side (updates ++ [update]) =
      if update.side = side then sideUpdates side updates ++ [(update.price, update.qty)]
      else sideUpdates side updates := by
  rw [sideUpdates, List.filterMap_append]
  by_cases own : update.side = side
  · have quote : quoteOf side update = some (update.price, update.qty) := if_pos own
    rw [if_pos own, List.filterMap_cons_some quote]
    rfl
  · have quote : quoteOf side update = none := if_neg own
    rw [if_neg own, List.filterMap_cons_none quote, List.filterMap_nil, List.append_nil]
    rfl

variable [LinearOrder PriceT]

def apply (snapshot : MarketSnapshot PriceT) (update : MarketUpdate PriceT) :
    MarketSnapshot PriceT :=
  match update.side with
  | .bid => snapshot.updateBid update.price update.qty
  | .ask => snapshot.updateAsk update.price update.qty

def afterUpdates (updates : List (MarketUpdate PriceT)) : MarketSnapshot PriceT :=
  updates.foldl apply ⟨∅, ∅⟩

theorem apply_levels (snapshot : MarketSnapshot PriceT) (update : MarketUpdate PriceT)
    (side : QuoteSide) :
    (snapshot.apply update).levels side =
      if update.side = side then updateLevels update.price update.qty (snapshot.levels side)
      else snapshot.levels side := by
  obtain ⟨own, price, qty⟩ := update
  cases own <;> cases side <;> rfl

theorem after_updates_shows (updates : List (MarketUpdate PriceT)) (side : QuoteSide) :
    Shows ((afterUpdates updates).levels side) (sideUpdates side updates) := by
  induction updates using List.reverseRecOn with
  | nil =>
      cases side <;> exact shows_empty
  | append_singleton updates update ih =>
      have next : afterUpdates (updates ++ [update]) = (afterUpdates updates).apply update := by
        rw [afterUpdates, List.foldl_append]
        rfl
      rw [next, apply_levels, side_updates_append]
      by_cases own : update.side = side
      · rw [if_pos own, if_pos own]
        exact update_levels_shows ih update.price update.qty
      · rw [if_neg own, if_neg own]
        exact ih

theorem quoted_iff_standing (updates : List (MarketUpdate PriceT)) (side : QuoteSide)
    (price : PriceT) (qty : Int32) :
    quoted (sideUpdates side updates) price = some qty ↔ Standing updates side price qty := by
  induction updates using List.reverseRecOn with
  | nil =>
      constructor
      · intro shown
        cases shown
      · exact fun stands => absurd stands.1 (not_is_last_nil _)
  | append_singleton updates update ih =>
      by_cases concerns : Concerns side price update
      · have last : Latest (updates ++ [update]) side price qty ↔ ⟨side, price, qty⟩ = update :=
          is_last_append_of_concerns concerns _
        obtain ⟨own, same⟩ := concerns
        rw [side_updates_append, if_pos own, quoted_append_singleton, if_pos same, Standing, last]
        obtain ⟨_, _, newest⟩ := update
        subst own same
        dsimp only
        constructor
        · intro shown
          split_ifs at shown with gone
          cases shown
          exact ⟨rfl, Int32.not_le.mp gone⟩
        · rintro ⟨equal, positive⟩
          cases equal
          rw [if_neg (Int32.not_le.mpr positive)]
      · have same : Standing (updates ++ [update]) side price qty ↔
            Standing updates side price qty :=
          and_congr_left' (is_last_append_of_other concerns _)
        rw [same, ← ih, side_updates_append]
        by_cases own : update.side = side
        · have elsewhere : ¬ update.price = price := fun here => concerns ⟨own, here⟩
          rw [if_pos own, quoted_append_singleton, if_neg elsewhere]
        · rw [if_neg own]

/-- What a side holds: for each price whose last update is positive a level with its quantity. -/
theorem lookup_iff_standing (updates : List (MarketUpdate PriceT)) (side : QuoteSide)
    (price : PriceT) (level : PriceLevel PriceT) :
    ((afterUpdates updates).levels side).lookup price = some level ↔
      level.price = price ∧ Standing updates side price level.quantity := by
  rw [after_updates_shows updates side price, Option.map_eq_some_iff]
  constructor
  · rintro ⟨qty, shown, own⟩
    subst own
    exact ⟨rfl, (quoted_iff_standing updates side price qty).mp shown⟩
  · rintro ⟨own, stands⟩
    refine ⟨level.quantity, (quoted_iff_standing updates side price level.quantity).mpr stands, ?_⟩
    rw [← own]

/-- The level is a standing one that no standing one is before, or none stands. -/
def IsBest (updates : List (MarketUpdate PriceT)) (side : QuoteSide)
    (before : PriceT → PriceT → Prop) : Option (PriceLevel PriceT) → Prop
  | none => ∀ price qty, ¬ Standing updates side price qty
  | some level => Standing updates side level.price level.quantity ∧
      ∀ price qty, Standing updates side price qty → before level.price price

theorem is_best {updates : List (MarketUpdate PriceT)} {side : QuoteSide}
    {before : PriceT → PriceT → Prop} {best : Option (PriceLevel PriceT)}
    (absent : best = none → ∀ price, price ∉ (afterUpdates updates).levels side)
    (outermost : ∀ level, best = some level →
      (∃ price, ((afterUpdates updates).levels side).lookup price = some level) ∧
        ∀ price ∈ standing (sideUpdates side updates), before level.price price) :
    IsBest updates side before best := by
  cases best with
  | none =>
      intro price qty stands
      have held := (lookup_iff_standing updates side price ⟨price, qty⟩).mpr ⟨rfl, stands⟩
      exact absent rfl price (mem_iff_lookup.mpr ⟨_, held⟩)
  | some level =>
      obtain ⟨⟨price, held⟩, first⟩ := outermost level rfl
      obtain ⟨own, stands⟩ := (lookup_iff_standing updates side price level).mp held
      rw [← own] at stands
      refine ⟨stands, fun other qty standsToo => first other ?_⟩
      rw [← quoted_iff_standing] at standsToo
      exact Option.isSome_iff_exists.mpr ⟨qty, standsToo⟩

theorem best_bid_is_best (updates : List (MarketUpdate PriceT)) :
    IsBest updates .bid (fun best price => price ≤ best) (afterUpdates updates).getBestBid := by
  apply is_best
  · intro empty price member
    obtain ⟨level, held⟩ := mem_iff_lookup.mp member
    have weightless := (@scan_eq_none_iff _ _ (descending PriceT) _ _).mp
      (Option.map_eq_none_iff.mp empty) ⟨price, level⟩ (AList.mem_lookup_iff.mp held)
    cases weightless
  · intro level best
    obtain ⟨⟨entry, _⟩, found, own⟩ := Option.map_eq_some_iff.mp best
    refine ⟨⟨entry.1, ?_⟩, (best_bid_greatest (after_updates_shows updates .bid) best).2⟩
    rw [← own]
    exact AList.mem_lookup_iff.mpr (descending_scan_greatest found).1

theorem best_ask_is_best (updates : List (MarketUpdate PriceT)) :
    IsBest updates .ask (fun best price => best ≤ price) (afterUpdates updates).getBestAsk := by
  apply is_best
  · intro empty price member
    obtain ⟨level, held⟩ := mem_iff_lookup.mp member
    have weightless := scan_eq_none_iff.mp (Option.map_eq_none_iff.mp empty) ⟨price, level⟩
      (AList.mem_lookup_iff.mp held)
    cases weightless
  · intro level best
    obtain ⟨⟨entry, _⟩, found, own⟩ := Option.map_eq_some_iff.mp best
    refine ⟨⟨entry.1, ?_⟩, (best_ask_least (after_updates_shows updates .ask) best).2⟩
    rw [← own]
    exact AList.mem_lookup_iff.mpr (scan_least found).member

/-- The snapshot is exactly the latest quotes. -/
theorem snapshot_latest (updates : List (MarketUpdate PriceT)) :
    (∀ side price level, ((afterUpdates updates).levels side).lookup price = some level ↔
      level.price = price ∧ Standing updates side price level.quantity) ∧
    (∀ update side, update.side ≠ side →
      ((afterUpdates updates).apply update).levels side = (afterUpdates updates).levels side) ∧
    IsBest updates .bid (fun best price => price ≤ best) (afterUpdates updates).getBestBid ∧
    IsBest updates .ask (fun best price => best ≤ price) (afterUpdates updates).getBestAsk := by
  refine ⟨lookup_iff_standing updates, ?_, best_bid_is_best updates, best_ask_is_best updates⟩
  intro update side other
  rw [apply_levels, if_neg other]

/-- A bid that is replaced, one that is taken back and an ask. -/
example : (afterUpdates [⟨.bid, 99, 5⟩, ⟨.bid, 100, 3⟩, ⟨.ask, 102, 4⟩, ⟨.bid, 99, 7⟩,
    ⟨.bid, 100, 0⟩] : MarketSnapshot Int).getBestBid = some ⟨99, 7⟩ := by decide

end Latest

end MarketSnapshot

end Finm327.Phase3
