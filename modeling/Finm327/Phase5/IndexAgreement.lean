import Mathlib.Data.Int.Order.Basic
import Mathlib.Data.List.Dedup
import Finm327.Library.Runs
import Finm327.Phase5.LiveOrders

/-!
# The two indexes of the baseline

The lookup map and the price levels each hold every order by value, and removal trusts the
price that the lookup map has. When prices are linearly ordered the two agree in every run in
which an id that is already in the book is only added again at the price it has there; an add
at another price stores the id in a second level. A price that compares with none is filed
under a level that is not its own.
-/

namespace Finm327.Phase5

open Finm327.Library
open Finm327.Library.Comparisons
open Finm327.Library.Maps
open Finm327.Library.Runs

variable {PriceT : Type}

namespace OrderBook

def prices (book : OrderBook PriceT) : List PriceT :=
  book.orderLookup.entries.map fun live => live.2.price

variable [LinearOrder PriceT]

structure IndexesAgree (book : OrderBook PriceT) : Prop where
  indexed : ∀ id o, book.orderLookup.lookup id = some o ↔ book.entry o.price id = some o
  onePlace : ∀ id price other, (book.entry price id).isSome = true →
    (book.entry other id).isSome = true → price = other
  nonempty : ∀ price level, book.orderLevels.lookup price = some level → ∃ id, id ∈ level
  counted : book.levels = book.prices.dedup.length
  gone : ∀ id, id ∉ (deleteOrder id book).orderLookup ∧
    ∀ price, (deleteOrder id book).entry price id = none

variable {book : OrderBook PriceT} {live : Live PriceT}

theorem mem_prices_iff (shows : Shows book live) (price : PriceT) :
    price ∈ book.prices ↔ live.At price := by
  unfold prices Live.At
  rw [List.mem_map]
  constructor
  · rintro ⟨⟨id, o⟩, member, priced⟩
    refine ⟨id, o, ?_, priced⟩
    rw [← shows.lookup]
    exact AList.mem_lookup_iff.mpr member
  · rintro ⟨id, o, alive, priced⟩
    rw [← shows.lookup] at alive
    exact ⟨⟨id, o⟩, AList.mem_lookup_iff.mp alive, priced⟩

theorem levels_eq (shows : Shows book live) : book.levels = book.prices.dedup.length := by
  unfold levels Maps.size
  apply List.Perm.length_eq
  apply (List.perm_ext_iff_of_nodup book.orderLevels.keys_nodup (List.nodup_dedup _)).mpr
  intro price
  rw [← AList.mem_keys, List.mem_dedup, mem_levels_iff shows, mem_prices_iff shows]

theorem entry_eq_some (shows : Shows book live) {price : PriceT} {id : String} {o : Order PriceT} :
    book.entry price id = some o ↔ live id = some o ∧ o.price = price := by
  rw [shows.entry, Option.filter_eq_some_iff, decide_eq_true_iff]

theorem indexes_agree_of_shows (shows : Shows book live) : IndexesAgree book where
  indexed := by
    intro id o
    rw [shows.lookup, entry_eq_some shows]
    simp
  onePlace := by
    intro id price other here there
    obtain ⟨o, found⟩ := Option.isSome_iff_exists.mp here
    obtain ⟨p, foundToo⟩ := Option.isSome_iff_exists.mp there
    obtain ⟨alive, priced⟩ := (entry_eq_some shows).mp found
    obtain ⟨aliveToo, pricedToo⟩ := (entry_eq_some shows).mp foundToo
    rw [alive, Option.some.injEq] at aliveToo
    rw [← priced, ← pricedToo, aliveToo]
  nonempty := shows.nonempty
  counted := levels_eq shows
  gone := by
    intro id
    have deleted : Shows (deleteOrder id book) (live.step (.deleteOrder id)) :=
      step_shows shows (fun _ _ _ _ contrary => nomatch contrary) rfl
    have dead : live.step (.deleteOrder id) id = none := Function.update_self _ _ _
    constructor
    · rw [← AList.lookup_eq_none, deleted.lookup, dead]
    · intro price
      rw [deleted.entry, dead]
      rfl

theorem add_same_shows (shows : Shows book live) {id : String} {o : Order PriceT}
    (alive : live id = some o) (quantity : Int) (isBuy : Bool) :
    Shows (addOrder id o.price quantity isBuy book) live := by
  have known : id ∈ book.orderLookup := by
    rw [mem_iff_lookup]
    exact ⟨o, (shows.lookup id).trans alive⟩
  have queued : id ∈ (book.orderLevels.lookup o.price).getD ∅ := by
    rw [mem_iff_lookup]
    exact ⟨o, (level_lookup book o.price id).trans ((entry_eq_some shows).mpr ⟨alive, rfl⟩)⟩
  rw [add_order_eq]
  unfold emplace
  rw [if_pos known, if_pos queued]
  constructor
  · exact shows.lookup
  · intro price other
    rw [entry_insert, ← shows.entry]
    split_ifs with same
    · rw [level_lookup, same]
    · rfl
  · intro price level found
    rw [lookup_insert_eq] at found
    split_ifs at found
    · rw [← Option.some.inj found]
      exact ⟨id, queued⟩
    · exact shows.nonempty price level found

theorem add_elsewhere_disagrees (shows : Shows book live) {id : String} {o : Order PriceT}
    (alive : live id = some o) {price : PriceT} (elsewhere : o.price ≠ price) (quantity : Int)
    (isBuy : Bool) : ¬ IndexesAgree (addOrder id price quantity isBuy book) := by
  intro agree
  apply elsewhere
  have notIn : id ∉ (book.orderLevels.lookup price).getD ∅ := by
    rw [← AList.lookup_eq_none, level_lookup, shows.entry, alive, Option.filter_some,
      if_neg fun same => elsewhere (of_decide_eq_true same)]
  have old : (OrderBook.mk book.orderLevels (emplace id ⟨id, price, quantity, isBuy⟩
      book.orderLookup)).entry o.price id = some o := (entry_eq_some shows).mpr ⟨alive, rfl⟩
  apply agree.onePlace id
  · rw [add_order_eq, entry_insert, if_neg elsewhere, old]
    rfl
  · rw [add_order_eq, entry_insert, if_pos rfl, lookup_emplace_of_notMem notIn, if_pos rfl]
    rfl

/-- An id that is in the book is added only at the price that the book has for it. -/
def addsAtPrice (config : Config (OrderBook PriceT) (Op PriceT) Unit) : Op PriceT → Prop
  | .addOrder id price _ _ => config.state.contains id = false ∨
      (config.state.orderLookup.lookup id).map Order.price = some price
  | _ => True

instance (config : Config (OrderBook PriceT) (Op PriceT) Unit) :
    ∀ op : Op PriceT, Decidable (addsAtPrice config op)
  | .addOrder id price _ _ => inferInstanceAs (Decidable (config.state.contains id = false ∨
      (config.state.orderLookup.lookup id).map Order.price = some price))
  | .modifyOrder .. => .isTrue trivial
  | .deleteOrder _ => .isTrue trivial

theorem dead_iff_not_contains (shows : Shows book live) (id : String) :
    live id = none ↔ book.contains id = false := by
  rw [← shows.lookup, AList.lookup_eq_none, contains, decide_eq_false_iff_not]

/-- What a permitted operation keeps and what any other one breaks. -/
theorem step_agrees_iff {config : Config (OrderBook PriceT) (Op PriceT) Unit}
    (shows : Shows config.state live) {op : Op PriceT} {next : OrderBook PriceT}
    (ran : config.state.step op = some (next, ())) :
    (addsAtPrice config op → ∃ live, Shows next live) ∧
      (¬ addsAtPrice config op → ¬ IndexesAgree next) := by
  cases op with
  | addOrder id price quantity isBuy =>
      have result := (Prod.mk.inj (Option.some.inj ran)).1
      cases alive : live id with
      | none =>
          constructor
          · intro _
            refine ⟨_, step_shows shows ?_ ran⟩
            rintro _ _ _ _ same
            cases same
            exact alive
          · exact fun broken => absurd (.inl ((dead_iff_not_contains shows id).mp alive)) broken
      | some o =>
          have present : ¬ config.state.contains id = false := by
            rw [← dead_iff_not_contains shows, alive]
            exact Option.some_ne_none o
          have held : (config.state.orderLookup.lookup id).map Order.price = some o.price := by
            rw [shows.lookup, alive, Option.map_some]
          rw [← result]
          constructor
          · rintro (absent | same)
            · exact absurd absent present
            · rw [held, Option.some.injEq] at same
              exact ⟨live, same ▸ add_same_shows shows alive quantity isBuy⟩
          · intro broken
            apply add_elsewhere_disagrees shows alive
            intro same
            exact broken (.inr (same ▸ held))
  | modifyOrder id newPrice newQuantity =>
      refine ⟨fun _ => ⟨_, step_shows shows ?_ ran⟩, fun broken => absurd trivial broken⟩
      exact fun _ _ _ _ contrary => nomatch contrary
  | deleteOrder id =>
      refine ⟨fun _ => ⟨_, step_shows shows ?_ ran⟩, fun broken => absurd trivial broken⟩
      exact fun _ _ _ _ contrary => nomatch contrary

/-- When prices are linearly ordered, the indexes agree after every operation of a run in
which ids are only added again at the price they have, and stop agreeing with the first
other add. -/
theorem indexes_agree {config : Config (OrderBook PriceT) (Op PriceT) Unit}
    (reached : Reachable step addsAtPrice initial config) :
    IndexesAgree config.state ∧ ∀ op next, config.state.step op = some (next, ()) →
      (IndexesAgree next ↔ addsAtPrice config op) := by
  have shown : ∃ live, Shows config.state live := by
    refine reachable_invariant (fun config => ∃ live, Shows config.state live)
      ⟨_, initial_shows⟩ ?_ reached
    rintro config op next _ ⟨live, shows⟩ permitted ran
    exact (step_agrees_iff shows ran).1 permitted
  obtain ⟨live, shows⟩ := shown
  refine ⟨indexes_agree_of_shows shows, ?_⟩
  intro op next ran
  obtain ⟨keeps, breaks⟩ := step_agrees_iff shows ran
  constructor
  · exact fun agree => Decidable.byContradiction fun broken => breaks broken agree
  · intro permitted
    obtain ⟨_, shown⟩ := keeps permitted
    exact indexes_agree_of_shows shown

/-- Two ids at one price, one of them added again at that price, then moved, modified in
place and deleted. -/
def repeatedOps : List (Op Int) :=
  [.addOrder "A" 10 5 true, .addOrder "B" 10 6 true, .addOrder "A" 10 7 false,
    .modifyOrder "A" 11 8, .modifyOrder "B" 10 9, .deleteOrder "A"]

theorem indexes_agree_sample :
    ∃ config : Config (OrderBook Int) (Op Int) Unit,
      Reachable step addsAtPrice initial config ∧ config.state.levels = 1 ∧
        IndexesAgree config.state ∧ ∀ op next, config.state.step op = some (next, ()) →
          (IndexesAgree next ↔ addsAtPrice config op) := by
  have completes : (execute step addsAtPrice (.start (initial : OrderBook Int)) repeatedOps).any
      (fun config => decide (config.state.levels = 1)) = true := by
    decide
  obtain ⟨config, reached, found⟩ := reachable_of_execute_any completes
  exact ⟨config, reached, found, indexes_agree reached⟩

/-- An id is added at 10 and again at 11: it is in both levels, and deleting it leaves the
copy at 11 behind. -/
theorem second_copy_stays :
    ∃ config : Config (OrderBook Int) (Op Int) Unit,
      Reachable step (fun _ _ => True) initial config ∧ ¬ IndexesAgree config.state ∧
        (deleteOrder "A" config.state).levels = 1 ∧
        (deleteOrder "A" config.state).entry 11 "A" = some ⟨"A", 11, 6, true⟩ := by
  have completes : (execute step (fun _ _ => True) (.start (initial : OrderBook Int))
      [.addOrder "A" 10 5 true, .addOrder "A" 11 6 true]).any (fun config =>
        decide ((deleteOrder "A" config.state).levels = 1 ∧
          (deleteOrder "A" config.state).entry 11 "A" = some ⟨"A", 11, 6, true⟩)) = true := by
    decide
  obtain ⟨config, reached, levels, trace⟩ := reachable_of_execute_any completes
  refine ⟨config, reached, ?_, levels, trace⟩
  intro agree
  have gone := (agree.gone "A").2 11
  rw [trace] at gone
  cases gone

/-- A price that compares with none is filed under the lowest level, and deleting the order
looks there again: the level that has become the lowest in between does not hold it. -/
example :
    let book := deleteOrder "B" (addOrder "C" (.number 5) 1 true
      (addOrder "B" .nan 1 true (addOrder "A" (.number 10) 1 true
        (initial : OrderBook (WithNaN Int)))))
    book.contains "B" = false ∧
      ((book.orderLevels.lookup (.number 10)).bind fun level => level.lookup "B") =
        some ⟨"B", .nan, 1, true⟩ := by
  decide

end OrderBook

end Finm327.Phase5
