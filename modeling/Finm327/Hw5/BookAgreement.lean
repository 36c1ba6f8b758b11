import Mathlib.Order.Bounds.Basic
import Finm327.Hw5.FlatBook

/-!
# When the indexed book and the scan agree

Both books are driven by the same calls. Their orders by id stay equal whatever is called. An
`add` under a live id leaves those orders alone, but the indexed book queues the id once more.
That surplus entry is never taken back: cancelling every order leaves it behind, and it then
stands for a best price that no order has.
-/

namespace Finm327.Hw5.Books

open Finm327.Library.LevelQueues
open Finm327.Library.Maps
open Finm327.Library.Runs
open Finm327.Library.Scans

universe u

section Surplus

variable {PriceT : Type u} [LinearOrder PriceT] {ahead same : PriceT → PriceT → Bool}
  {onSide : Char → Prop} {byId : KeyMap UInt32 (Order PriceT)}
  {levels : List (Level PriceT UInt32)} {id other : UInt32} {place : PriceT} {order : Order PriceT}

open Classical in
/-- The entries of an id at a price beyond the one its live order accounts for. -/
noncomputable def surplus (onSide : Char → Prop) (byId : KeyMap UInt32 (Order PriceT))
    (levels : List (Level PriceT UInt32)) (id : UInt32) (price : PriceT) : Int :=
  countAt price id levels - if Rests onSide byId id price then 1 else 0

theorem surplus_congr {after : KeyMap UInt32 (Order PriceT)}
    (unchanged : Rests onSide after other place ↔ Rests onSide byId other place) :
    surplus onSide after levels other place = surplus onSide byId levels other place := by
  classical
  unfold surplus
  rw [if_congr unchanged rfl rfl]

/-- An entry under a new id is accounted for, and one under a live id is not. -/
theorem surplus_push_back (keyOrder : KeyOrder ahead same) (sorted : Sorted ahead levels)
    (order : Order PriceT) (on : onSide order.side) :
    surplus onSide (emplace id order byId) (pushBack ahead same order.price id levels) other place =
      surplus onSide byId levels other place +
        if id ∈ byId ∧ other = id ∧ place = order.price then 1 else 0 := by
  classical
  unfold surplus
  rw [count_push_back keyOrder sorted]
  by_cases live : id ∈ byId
  · rw [emplace, if_pos live, if_congr (and_iff_right live) rfl rfl]
    split_ifs <;> omega
  · have first : ¬ (id ∈ byId ∧ other = id ∧ place = order.price) := fun all => live all.1
    rw [if_congr (rests_emplace_on_side live on) rfl rfl, if_neg first]
    by_cases here : other = id ∧ place = order.price
    · have absent : ¬ Rests onSide byId other place := by
        rw [here.1]
        exact not_rests_of_fresh live
      rw [if_pos here, if_pos (.inl here), if_neg absent]
      omega
    · rw [if_neg here, if_congr (or_iff_right here) rfl rfl]
      omega

theorem surplus_change (keyOrder : KeyOrder ahead same) (sorted : Sorted ahead levels)
    (live : byId.lookup id = some order) (on : onSide order.side)
    (covered : 0 ≤ surplus onSide byId levels id order.price) :
    surplus onSide (byId.erase id) (change order.price (swapRemove id) levels) other place =
      surplus onSide byId levels other place := by
  have rests : Rests onSide byId id order.price := ⟨order, live, on, rfl⟩
  have present : 0 < countAt order.price id levels := by
    unfold surplus at covered
    rw [if_pos rests] at covered
    omega
  have count := @count_change _ _ _ _ _ place _ (swapRemove id) _ _ other keyOrder.irrefl sorted
    (fun _ => swap_remove_perm) present
  classical
  unfold surplus
  rw [if_congr (rests_erase_on_side live) rfl rfl]
  by_cases here : other = id ∧ place = order.price
  · rw [if_pos here] at count
    rw [if_neg (fun both => both.2 here), here.1, here.2, if_pos rests]
    rw [here.1, here.2] at count
    omega
  · rw [if_neg here] at count
    rw [if_congr (and_iff_left here) rfl rfl]
    omega

/-- A side's levels as any calls leave them: no live order is without its entry. -/
structure Kept [Zero PriceT] (ahead : PriceT → PriceT → Bool) (onSide : Char → Prop)
    (byId : KeyMap UInt32 (Order PriceT)) (levels : List (Level PriceT UInt32)) : Prop where
  sorted : Sorted ahead levels
  queued : AllQueued levels
  positive : ∀ price ∈ keys levels, 0 < price
  covered : ∀ id price, 0 ≤ surplus onSide byId levels id price

variable [Zero PriceT]

theorem Kept.congr (kept : Kept ahead onSide byId levels) {after : KeyMap UInt32 (Order PriceT)}
    (unchanged : ∀ id price, Rests onSide after id price ↔ Rests onSide byId id price) :
    Kept ahead onSide after levels := by
  refine ⟨kept.sorted, kept.queued, kept.positive, ?_⟩
  intro id price
  rw [surplus_congr (unchanged id price)]
  exact kept.covered id price

theorem Kept.push_back (keyOrder : KeyOrder ahead same) (kept : Kept ahead onSide byId levels)
    (on : onSide order.side) (positive : 0 < order.price) :
    Kept ahead onSide (emplace id order byId) (pushBack ahead same order.price id levels) := by
  refine ⟨sorted_push_back keyOrder kept.sorted, all_queued_push_back kept.queued, ?_, ?_⟩
  · intro price member
    cases mem_keys_push_back member with
    | inl new => exact new ▸ positive
    | inr old => exact kept.positive price old
  · intro other place
    have before := kept.covered other place
    rw [surplus_push_back keyOrder kept.sorted order on]
    split_ifs <;> omega

theorem Kept.change_remove (keyOrder : KeyOrder ahead same) (kept : Kept ahead onSide byId levels)
    (live : byId.lookup id = some order) (on : onSide order.side) :
    Kept ahead onSide (byId.erase id) (change order.price (swapRemove id) levels) := by
  refine ⟨sorted_change kept.sorted, all_queued_change kept.queued, ?_, ?_⟩
  · intro price member
    exact kept.positive price ((keys_change_sublist levels).mem member)
  · intro other place
    rw [surplus_change keyOrder kept.sorted live on (kept.covered id order.price)]
    exact kept.covered other place

/-- A surplus entry without any live order is a level in front of nothing. -/
theorem Kept.ghost_level (kept : Kept ahead onSide byId levels) (empty : size byId = 0)
    (ghost : 0 < surplus onSide byId levels id place) :
    ∃ level rest, levels = level :: rest ∧ 0 < level.key := by
  cases split : levels with
  | nil =>
      unfold surplus countAt at ghost
      rw [split] at ghost
      have absent : ¬ Rests onSide byId id place := by
        rintro ⟨order, live, -⟩
        rw [lookup_of_size_eq_zero empty] at live
        cases live
      rw [if_neg absent] at ghost
      exact absurd ghost (Int.lt_irrefl 0)
  | cons level rest =>
      refine ⟨level, rest, rfl, kept.positive level.key ?_⟩
      rw [split]
      exact List.mem_cons_self

end Surplus

section Book

variable {PriceT : Type u} [LinearOrder PriceT] [Zero PriceT] {book after : OrderBook PriceT}
  {id : UInt32} {op : BookOp PriceT} {answer : Option Bool}

/-- What is added is a bid or an ask at a positive price. -/
def BookOp.Priced (op : BookOp PriceT) : Prop :=
  op.Adds (fun side price => (side = 'B' ∨ side = 'S') ∧ 0 < price)

instance : ∀ op : BookOp PriceT, Decidable op.Priced
  | .add _ price _ side => inferInstanceAs (Decidable ((side = 'B' ∨ side = 'S') ∧ 0 < price))
  | .modify _ _ => .isTrue trivial
  | .cancel _ => .isTrue trivial

structure KeptBook (book : OrderBook PriceT) : Prop where
  bids : Kept bidAhead (· = 'B') book.byId book.bids
  asks : Kept askAhead (· ≠ 'B') book.byId book.asks

/-- The surplus of both sides at an id and a price. -/
noncomputable def surplusOf (book : OrderBook PriceT) (id : UInt32) (price : PriceT) : Int × Int :=
  (surplus (· = 'B') book.byId book.bids id price, surplus (· ≠ 'B') book.byId book.asks id price)

def Ghost (book : OrderBook PriceT) : Prop :=
  ∃ id price, 0 < (surplusOf book id price).1 ∨ 0 < (surplusOf book id price).2

theorem initial_kept : KeptBook (OrderBook.initial : OrderBook PriceT) := by
  have nothing : ∀ (ahead : PriceT → PriceT → Bool) (onSide : Char → Prop),
      Kept ahead onSide ∅ [] := by
    intro ahead onSide
    refine ⟨List.Pairwise.nil, fun _ contrary => absurd contrary List.not_mem_nil,
      fun _ contrary => absurd contrary List.not_mem_nil, ?_⟩
    intro id price
    unfold surplus
    rw [if_neg rests_nil]
    exact Int.le_refl 0
  exact ⟨nothing _ _, nothing _ _⟩

theorem add_kept (kept : KeptBook book) {price : PriceT} {qty : UInt32} {side : Char}
    (positive : 0 < price) : KeptBook (book.add id price qty side) := by
  unfold OrderBook.add
  by_cases buys : side = 'B'
  · rw [if_pos buys]
    exact ⟨kept.bids.push_back OrderBook.bid_key_order buys positive,
      kept.asks.congr (fun _ _ => rests_emplace_off_side (fun off => off buys))⟩
  · rw [if_neg buys]
    exact ⟨kept.bids.congr (fun _ _ => rests_emplace_off_side buys),
      kept.asks.push_back OrderBook.ask_key_order buys positive⟩

/-- The order of a live id, if added again, gets one more entry. -/
theorem add_surplus (kept : KeptBook book) {price place : PriceT} {qty : UInt32} {side : Char}
    {other : UInt32} :
    surplusOf (book.add id price qty side) other place =
      let again := if id ∈ book.byId ∧ other = id ∧ place = price then 1 else 0
      if side = 'B' then ((surplusOf book other place).1 + again, (surplusOf book other place).2)
      else ((surplusOf book other place).1, (surplusOf book other place).2 + again) := by
  unfold OrderBook.add
  dsimp only
  by_cases buys : side = 'B'
  · have off : ¬ side ≠ 'B' := fun sells => sells buys
    rw [if_pos buys, if_pos buys]
    exact Prod.ext (@surplus_push_back _ _ _ _ (· = 'B') _ _ _ _ _ OrderBook.bid_key_order
      kept.bids.sorted ⟨id, price, qty, side⟩ buys)
      (surplus_congr (rests_emplace_off_side off))
  · rw [if_neg buys, if_neg buys]
    exact Prod.ext (surplus_congr (rests_emplace_off_side buys))
      (@surplus_push_back _ _ _ _ (· ≠ 'B') _ _ _ _ _ OrderBook.ask_key_order kept.asks.sorted
        ⟨id, price, qty, side⟩ buys)

/-- What changes no price, side or entry of the orders keeps their surplus. -/
theorem modify_kept (kept : KeptBook book) {newQty : UInt32} :
    KeptBook (book.modify id newQty).1 ∧
      ∀ other place, surplusOf (book.modify id newQty).1 other place =
        surplusOf book other place := by
  unfold OrderBook.modify
  cases live : book.byId.lookup id with
  | none => exact ⟨kept, fun _ _ => rfl⟩
  | some order =>
      constructor
      · exact ⟨kept.bids.congr (fun _ _ => rests_insert live rfl rfl),
          kept.asks.congr (fun _ _ => rests_insert live rfl rfl)⟩
      · intro other place
        exact Prod.ext (surplus_congr (rests_insert live rfl rfl))
          (surplus_congr (rests_insert live rfl rfl))

theorem cancel_kept (kept : KeptBook book) :
    KeptBook (book.cancel id).1 ∧
      ∀ other place, surplusOf (book.cancel id).1 other place = surplusOf book other place := by
  unfold OrderBook.cancel
  cases live : book.byId.lookup id with
  | none => exact ⟨kept, fun _ _ => rfl⟩
  | some order =>
      dsimp only
      by_cases buys : order.side = 'B'
      · have off : ¬ order.side ≠ 'B' := fun other => other buys
        rw [if_pos buys]
        constructor
        · exact ⟨kept.bids.change_remove OrderBook.bid_key_order live buys,
            kept.asks.congr (fun _ _ => rests_erase_off_side live off)⟩
        · intro other place
          exact Prod.ext
            (surplus_change OrderBook.bid_key_order kept.bids.sorted live buys
              (kept.bids.covered id order.price))
            (surplus_congr (rests_erase_off_side live off))
      · rw [if_neg buys]
        constructor
        · exact ⟨kept.bids.congr (fun _ _ => rests_erase_off_side live buys),
            kept.asks.change_remove OrderBook.ask_key_order live buys⟩
        · intro other place
          exact Prod.ext (surplus_congr (rests_erase_off_side live buys))
            (surplus_change OrderBook.ask_key_order kept.asks.sorted live buys
              (kept.asks.covered id order.price))

omit [Zero PriceT] in
theorem ghost_congr (same : ∀ id price, surplusOf after id price = surplusOf book id price)
    (ghost : Ghost book) : Ghost after := by
  obtain ⟨id, price, surplus⟩ := ghost
  refine ⟨id, price, ?_⟩
  rw [same id price]
  exact surplus

theorem add_ghost (kept : KeptBook book) {price : PriceT} {qty : UInt32} {side : Char}
    (cause : Ghost book ∨ id ∈ book.byId) : Ghost (book.add id price qty side) := by
  have bound : ∀ other place, 0 ≤ (surplusOf book other place).1 ∧
      0 ≤ (surplusOf book other place).2 := by
    intro other place
    exact ⟨kept.bids.covered other place, kept.asks.covered other place⟩
  cases cause with
  | inl ghost =>
      obtain ⟨other, place, surplus⟩ := ghost
      refine ⟨other, place, ?_⟩
      rw [add_surplus kept]
      dsimp only
      split_ifs <;> omega
  | inr live =>
      have before := bound id price
      refine ⟨id, price, ?_⟩
      have again : id ∈ book.byId ∧ id = id ∧ price = price := ⟨live, rfl, rfl⟩
      rw [add_surplus kept]
      dsimp only
      rw [if_pos again]
      split_ifs <;> omega

/-- No call takes a surplus entry back, and adding a live id leaves one. -/
theorem step_kept (kept : KeptBook book) (priced : op.Priced)
    (next : book.step op = some (after, answer)) :
    KeptBook after ∧ (Ghost book ∨ ¬ op.Fresh book.byId → Ghost after) := by
  cases op with
  | add id price qty side =>
      cases next
      refine ⟨add_kept kept priced.2, ?_⟩
      intro cause
      exact add_ghost kept (cause.imp_right Classical.not_not.mp)
  | modify id newQty =>
      cases next
      refine ⟨(modify_kept kept).1, ?_⟩
      intro cause
      exact ghost_congr (modify_kept kept).2 (cause.resolve_right (fun stale => stale trivial))
  | cancel id =>
      cases next
      refine ⟨(cancel_kept kept).1, ?_⟩
      intro cause
      exact ghost_congr (cancel_kept kept).2 (cause.resolve_right (fun stale => stale trivial))

end Book

/-- Both books under the same calls. -/
structure BookPair (PriceT : Type u) where
  indexed : OrderBook PriceT
  flat : FlatBook PriceT

namespace BookPair

variable {PriceT : Type u} [LinearOrder PriceT]

abbrev Run (PriceT : Type u) :=
  Config (BookPair PriceT) (BookOp PriceT) (Option Bool × Option Bool)

def initial : BookPair PriceT := ⟨OrderBook.initial, ⟨∅⟩⟩

def step (books : BookPair PriceT) (op : BookOp PriceT) :
    Option (BookPair PriceT × (Option Bool × Option Bool)) :=
  match books.indexed.step op, books.flat.step op with
  | some (indexed, answer), some (flat, flatAnswer) =>
      some (⟨indexed, flat⟩, (answer, flatAnswer))
  | _, _ => none

theorem step_parts {books after : BookPair PriceT} {op : BookOp PriceT}
    {answers : Option Bool × Option Bool} (next : books.step op = some (after, answers)) :
    books.indexed.step op = some (after.indexed, answers.1) ∧
      books.flat.step op = some (after.flat, answers.2) := by
  unfold step at next
  cases first : books.indexed.step op with
  | none =>
      rw [first] at next
      cases next
  | some indexed =>
      cases second : books.flat.step op with
      | none =>
          rw [first, second] at next
          cases next
      | some flat =>
          rw [first, second] at next
          cases next
          exact ⟨rfl, rfl⟩

variable [Zero PriceT]

/-- The calls were answered alike, and the best prices are the same in whatever order the hash
map is iterated. -/
structure Agree (config : Run PriceT) : Prop where
  answers : ∀ answers ∈ config.observations, answers.1 = answers.2
  bestBid : ∀ met, met.Perm config.state.flat.orders →
    config.state.indexed.bestBid = FlatBook.bestBid met
  bestAsk : ∀ met, met.Perm config.state.flat.orders →
    config.state.indexed.bestAsk = FlatBook.bestAsk met

def Priced (_ : Run PriceT) (op : BookOp PriceT) : Prop := op.Priced

/-- No order is added under a live id. -/
def Careful (config : Run PriceT) (op : BookOp PriceT) : Prop :=
  op.Priced ∧ op.Fresh config.state.indexed.byId

instance (config : Run PriceT) (op : BookOp PriceT) : Decidable (Priced config op) :=
  inferInstanceAs (Decidable op.Priced)

instance (config : Run PriceT) (op : BookOp PriceT) : Decidable (Careful config op) :=
  inferInstanceAs (Decidable (op.Priced ∧ op.Fresh config.state.indexed.byId))

/-- What holds after any calls, whether or not the books agree. -/
structure Together (config : Run PriceT) : Prop where
  kept : KeptBook config.state.indexed
  every : Every (fun side price => (side = 'B' ∨ side = 'S') ∧ 0 < price)
    config.state.indexed.byId
  same : config.state.flat.byId = config.state.indexed.byId
  answers : ∀ answers ∈ config.observations, answers.1 = answers.2

theorem start_together : Together (.start (initial : BookPair PriceT)) := by
  refine ⟨initial_kept, ?_, rfl, fun _ contrary => absurd contrary List.not_mem_nil⟩
  intro id order live
  cases live

theorem step_together {config : Run PriceT} {op : BookOp PriceT} {after : BookPair PriceT}
    {answers : Option Bool × Option Bool} (together : Together config) (priced : op.Priced)
    (next : config.state.step op = some (after, answers)) :
    Together (config.push op after answers) := by
  obtain ⟨first, second⟩ := step_parts next
  have indexed := OrderBook.step_by_id first
  have flat := FlatBook.step_by_id second
  rw [together.same] at flat
  refine ⟨(step_kept together.kept priced first).1, ?_, ?_, ?_⟩
  · rw [Config.push_state, indexed.1]
    exact every_edit together.every priced
  · rw [Config.push_state, flat.1, indexed.1]
  · intro pair member
    rw [Config.push_observations, List.mem_append, List.mem_singleton] at member
    cases member with
    | inl earlier => exact together.answers pair earlier
    | inr last => rw [last, indexed.2, flat.2]

theorem reachable_together {config : Run PriceT}
    (reached : Reachable step Priced initial config) : Together config :=
  reachable_invariant Together start_together
    (fun _ _ _ _ together priced next => step_together together priced next) reached

/-- The scanned orders are the live ones. -/
theorem prices_eq {config : Run PriceT} (together : Together config) {met : List (Order PriceT)}
    (same : met.Perm config.state.flat.orders) (side : Char) :
    {price | ∃ order ∈ met, order.side = side ∧ order.price = price} =
      config.state.indexed.prices side := by
  apply Set.ext
  intro price
  have stored : ∀ order, order ∈ met ↔
      ∃ id, config.state.indexed.byId.lookup id = some order := by
    intro order
    rw [same.mem_iff, FlatBook.orders, List.mem_map, together.same]
    constructor
    · rintro ⟨⟨id, found⟩, member, rfl⟩
      exact ⟨id, AList.mem_lookup_iff.mpr member⟩
    · rintro ⟨id, live⟩
      exact ⟨⟨id, order⟩, AList.mem_lookup_iff.mp live, rfl⟩
  constructor
  · rintro ⟨order, member, own⟩
    obtain ⟨id, live⟩ := (stored order).mp member
    exact ⟨id, order, live, own⟩
  · rintro ⟨id, order, live, own⟩
    exact ⟨order, (stored order).mpr ⟨id, live⟩, own⟩

theorem positive_met {config : Run PriceT} (together : Together config)
    {met : List (Order PriceT)} (same : met.Perm config.state.flat.orders) :
    ∀ order ∈ met, 0 < order.price := by
  intro order member
  rw [same.mem_iff, FlatBook.orders, List.mem_map, together.same] at member
  obtain ⟨⟨id, found⟩, stored, rfl⟩ := member
  exact (together.every id found (AList.mem_lookup_iff.mpr stored)).2

omit [LinearOrder PriceT] in
/-- A set has one extreme, or is empty. -/
theorem extreme_unique (Extreme : Set PriceT → PriceT → Prop)
    (member : ∀ prices best, Extreme prices best → best ∈ prices)
    (unique : ∀ prices first second, Extreme prices first → Extreme prices second → first = second)
    {prices : Set PriceT} {first second : PriceT}
    (firstBest : OrderBook.ExtremeOrZero Extreme prices first)
    (secondBest : OrderBook.ExtremeOrZero Extreme prices second) : first = second := by
  rcases firstBest with ⟨empty, zero⟩ | best
  · rcases secondBest with ⟨-, zeroToo⟩ | other
    · rw [zero, zeroToo]
    · have contrary := member prices second other
      rw [empty] at contrary
      exact absurd contrary (Set.notMem_empty second)
  · rcases secondBest with ⟨empty, -⟩ | other
    · have contrary := member prices first best
      rw [empty] at contrary
      exact absurd contrary (Set.notMem_empty first)
    · exact unique prices first second best other

theorem agree_of_indexed {config : Run PriceT} (together : Together config)
    (indexed : config.state.indexed.Indexed) : Agree config := by
  have sided : Every (fun side _ => side = 'B' ∨ side = 'S') config.state.indexed.byId :=
    fun id order live => (together.every id order live).1
  have agree := indexed.agree sided
  refine ⟨together.answers, ?_, ?_⟩
  · intro met same
    have scanned := FlatBook.best_bid_extreme (positive_met together same)
    rw [prices_eq together same] at scanned
    exact extreme_unique IsGreatest (fun _ _ best => best.1) (fun _ _ _ => IsGreatest.unique)
      agree.bestBid scanned
  · intro met same
    have scanned := FlatBook.best_ask_extreme (positive_met together same)
    rw [prices_eq together same] at scanned
    exact extreme_unique IsLeast (fun _ _ best => best.1) (fun _ _ _ => IsLeast.unique)
      agree.bestAsk scanned

theorem careful_agree {config : Run PriceT} (reached : Reachable step Careful initial config) :
    Agree config := by
  have together := reachable_together (reachable_mono (fun _ _ careful => careful.1) reached)
  have indexed := reachable_invariant (fun config => config.state.indexed.Indexed)
    OrderBook.initial_indexed (fun _ _ _ _ indexed careful next =>
      OrderBook.step_indexed indexed careful.2 (step_parts next).1) reached
  exact agree_of_indexed together indexed

/-- A run either never adds a live id, or has left a surplus entry. -/
theorem careful_or_ghost {config : Run PriceT} (reached : Reachable step Priced initial config) :
    Reachable step Careful initial config ∨ Ghost config.state.indexed := by
  induction reached with
  | refl => exact .inl reachable_start
  | @tail before _ earlier last ih =>
      cases last with
      | @run op after answers priced next =>
          have kept := (reachable_together earlier).kept
          have grown := (step_kept kept priced (step_parts next).1).2
          cases ih with
          | inr ghost => exact .inr (grown (.inl ghost))
          | inl careful =>
              by_cases fresh : op.Fresh before.state.indexed.byId
              · exact .inl (careful.tail (.run ⟨priced, fresh⟩ next))
              · exact .inr (grown (.inr fresh))

/-- Cancelling one order after the other brings a surplus entry to light. -/
theorem ghost_shows {config : Run PriceT} (together : Together config)
    (ghost : Ghost config.state.indexed) :
    ∃ later, Leads step Careful config later ∧ ¬ Agree later := by
  induction left : size config.state.indexed.byId generalizing config with
  | zero =>
      refine ⟨config, Relation.ReflTransGen.refl, ?_⟩
      intro agree
      have nothing : config.state.flat.orders = [] := by
        rw [FlatBook.orders, together.same, List.map_eq_nil_iff]
        exact List.length_eq_zero_iff.mp ((List.length_map _).symm.trans left)
      obtain ⟨id, price, bid | ask⟩ := ghost
      · obtain ⟨level, rest, front, positive⟩ := together.kept.bids.ghost_level left bid
        have same := agree.bestBid [] (nothing ▸ List.Perm.refl [])
        unfold OrderBook.bestBid at same
        rw [front] at same
        exact absurd same (ne_of_gt positive)
      · obtain ⟨level, rest, front, positive⟩ := together.kept.asks.ghost_level left ask
        have same := agree.bestAsk [] (nothing ▸ List.Perm.refl [])
        unfold OrderBook.bestAsk at same
        rw [front] at same
        exact absurd same (ne_of_gt positive)
  | succ count ih =>
      obtain ⟨id, live⟩ := exists_mem_of_size_ne_zero (by
        rw [left]
        exact Nat.succ_ne_zero count)
      have calm : (BookOp.cancel id : BookOp PriceT).Priced := trivial
      have next : config.state.step (.cancel id) = some (_, _) := rfl
      have grown := step_kept together.kept calm (step_parts next).1
      have shrunk := size_erase live
      rw [left] at shrunk
      obtain ⟨later, leads, differ⟩ := ih (step_together together calm next)
        (grown.2 (.inl ghost)) (by
          rw [Config.push_state, (OrderBook.step_by_id (step_parts next).1).1]
          exact Nat.succ.inj shrunk)
      exact ⟨later, leads.head (.run ⟨calm, trivial⟩ next), differ⟩

/-- The books agree in every state that careful calls lead to, exactly after a run in which no
order was added under a live id. Every other run leaves an entry behind that cancels alone
bring to light. -/
theorem books_agree_iff_careful {config : Run PriceT}
    (reached : Reachable step Priced initial config) :
    (∀ later, Leads step Careful config later → Agree later) ↔
      Reachable step Careful initial config := by
  constructor
  · intro agree
    cases careful_or_ghost reached with
    | inl careful => exact careful
    | inr ghost =>
        obtain ⟨later, leads, differ⟩ := ghost_shows (reachable_together reached) ghost
        exact absurd (agree later leads) differ
  · intro careful later leads
    exact careful_agree (careful.trans leads)

/-- An id is used again once its order is cancelled. -/
theorem books_agree_iff_careful_sample :
    ∃ config : Run Int, config.state.indexed.bestAsk = 101 ∧
      ∀ later, Leads step Careful config later → Agree later := by
  have completes : (execute step Careful (.start (initial : BookPair Int))
      [.add 1 100 10 'B', .modify 1 5, .cancel 1, .add 1 101 10 'S']).any (fun config =>
        decide (config.state.indexed.bestAsk = 101)) = true := by
    decide
  obtain ⟨config, careful, best⟩ := reachable_of_execute_any completes
  have reached := reachable_mono (fun _ _ own => own.1) careful
  exact ⟨config, best, (books_agree_iff_careful reached).mpr careful⟩

/-- The id 7 is added twice while live, at two prices, and then cancelled: the indexed book
still bids 99 with no order left. -/
theorem second_entry_left_behind :
    ∃ config : Run Int, Reachable step Priced initial config ∧
      config.ops = [.add 7 100 10 'B', .add 7 99 10 'B', .cancel 7] ∧ ¬ Agree config := by
  have completes : (execute step Priced (.start (initial : BookPair Int))
      [.add 7 100 10 'B', .add 7 99 10 'B', .cancel 7]).any (fun config =>
        decide (config.ops = [.add 7 100 10 'B', .add 7 99 10 'B', .cancel 7] ∧
          config.state.indexed.bestBid = 99 ∧ config.state.flat.orders = [])) = true := by
    decide
  obtain ⟨config, reached, own, best, empty⟩ := reachable_of_execute_any completes
  refine ⟨config, reached, own, ?_⟩
  intro agree
  have same := agree.bestBid [] (empty ▸ List.Perm.refl [])
  rw [best] at same
  exact absurd same (by decide)

end BookPair

end Finm327.Hw5.Books
