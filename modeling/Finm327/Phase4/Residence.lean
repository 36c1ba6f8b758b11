import Finm327.Library.Comparisons
import Finm327.Phase4.PriceTime

/-!
# Who is resting

The book changes by `add`, `pop_best` and pruning, liveness by the matcher and by `cancel`,
and tracking by `reap`, and none of them tells the others. On runs that place positive
quantities at linearly ordered prices and submit each order once, before any cancel of it,
they still agree: every submitted live order is queued once, at its place, and tracked, and
no filled order is left in the book.
-/

namespace Finm327.Phase4

open Finm327.Library
open Finm327.Library.Comparisons
open Finm327.Library.LevelQueues
open Finm327.Library.Runs
open MatchingEngine

universe u v

variable {PriceT : Type u} {Book : Type v} [LinearOrder PriceT] [BookT Book PriceT]
  [LawfulBook Book]

/-- No filled order is queued. -/
def NoneFilled (heap : Heap PriceT) (book : Book) : Prop :=
  ∀ s, ∀ o ∈ queuedOn book s, (heap o).state ≠ .filled

/-- Only orders for something are placed. -/
def PositiveOrders (desk : Desk Book PriceT) : Prop :=
  ∀ o < desk.allocated, 0 < (desk.heap o).quantity

theorem queue_nodup {heap : Heap PriceT} {sent : List OrderPtr} {book : Book}
    (follows : BookFollows heap sent book) (s : Side) : (queuedOn book s).Nodup := by
  apply (follows.priority s).imp
  intro first second priority same
  have notBetter := priority_not_better priority
  subst same
  rcases priority with better | ⟨_, earlier⟩
  · rw [better] at notBetter
    cases notBetter
  · exact absurd earlier (Nat.lt_irrefl _)

omit [LinearOrder PriceT] in
theorem not_filled_of_unfilled {order : Order PriceT} (sound : OrderSound order)
    (unfilled : 0 < order.remaining) : order.state ≠ .filled := by
  intro filled
  have full := sound.whenFilled filled
  unfold Order.remaining at unfilled
  omega

omit [LinearOrder PriceT] in
/-- A live order for something has something left. -/
theorem unfilled_of_live {order : Order PriceT} (sound : OrderSound order)
    (positive : 0 < order.quantity) (alive : order.live = true) : 0 < order.remaining := by
  unfold Order.remaining
  cases state : order.state with
  | new =>
      rw [sound.whenNew state]
      omega
  | partiallyFilled =>
      have less := (sound.whenPartial state).2
      omega
  | filled => simp [Order.live, state] at alive
  | cancelled => simp [Order.live, state] at alive

namespace MatchingEngine

variable {clock : Nat → Int} {tickSeq : UInt64} {tRecvNs : Int} {allocated incoming : OrderPtr}
  {sent : List OrderPtr}

theorem trade_none_filled {resting : OrderPtr} {m : Matching Book PriceT}
    (none : NoneFilled m.heap m.book) (sound : LoopSound allocated m)
    (follows : BookFollows m.heap sent m.book) (incomingUnsent : incoming ∉ sent)
    (foremost : Foremost m (m.heap incoming).side.opp resting) :
    NoneFilled (trade clock incoming resting tickSeq tRecvNs m).heap
      (trade clock incoming resting tickSeq tRecvNs m).book := by
  intro t o member
  have before := (queued_on_trade_sublist sound foremost t).subset member
  have notIncoming : o ≠ incoming := fun same =>
    incomingUnsent (same ▸ follows.wasSent t o before)
  rw [trade_heap _ _ _ _ _ _ (foremost_ne_incoming sound foremost)]
  split_ifs with party
  · -- an order that is used up is popped, so the queued ones are not
    rw [fill_by_state]
    have isResting := party.resolve_left notIncoming
    subst isResting
    have side : t = (m.heap incoming).side.opp := by
      rw [← sound.book.sided t o before, sound.book.sided _ o foremost.queued]
    obtain ⟨rest, queue⟩ := foremost_queue sound foremost
    have nodup := queue_nodup follows (m.heap incoming).side.opp
    rw [queue] at nodup
    rw [queued_on_trade sound foremost] at member
    by_cases used : (m.heap o).remaining = tradeQty m incoming o
    · rw [if_pos ⟨side, used⟩, side, queue] at member
      exact absurd member (List.nodup_cons.mp nodup).1
    · rw [if_neg used]
      exact fun contrary => nomatch contrary
  · exact none t o before

/-- What the loop keeps of the queues. -/
structure LoopResident (sent : List OrderPtr) (allocated : OrderPtr) (m : Matching Book PriceT) :
    Prop where
  sound : LoopSound allocated m
  follows : BookFollows m.heap sent m.book
  none : NoneFilled m.heap m.book

theorem match_loop_resident {fuel : Nat} {m last : Matching Book PriceT}
    (ran : matchLoop clock incoming tickSeq tRecvNs fuel m = some last)
    (incomingUnsent : incoming ∉ sent) (resident : LoopResident sent allocated m) :
    LoopResident sent allocated last := by
  refine (match_loop_rule (LoopResident sent allocated) ?_ ?_ ran resident).1
  · intro m current
    exact ⟨pruned_sound current.sound _, pruned_follows current.follows _,
      fun s o member => current.none s o (mem_queued_on_pruned member)⟩
  · intro m resting current unfilled foremost _
    exact ⟨trade_sound current.sound unfilled foremost,
      trade_follows current.sound current.follows incomingUnsent foremost,
      trade_none_filled current.none current.sound current.follows incomingUnsent foremost⟩

end MatchingEngine

namespace Desk

section Steps

variable {desk next : Desk Book PriceT} {clock : Nat → Int} {op : Op PriceT} {reply : Reply PriceT}

theorem step_none_filled {sent : List OrderPtr} {reference : Reference PriceT}
    (refines : Refines desk sent reference) (none : NoneFilled desk.heap desk.book)
    (allowed : ∀ incoming tickSeq tRecvNs, op = .submit incoming tickSeq tRecvNs →
      incoming < desk.allocated ∧ incoming ∉ sent)
    (ran : desk.step clock op = some (next, reply)) : NoneFilled next.heap next.book := by
  cases step_effect ran with
  | place symbol price qty s state =>
      rw [state]
      intro t o member
      rw [desk.place_heap_old symbol price qty s (refines.sound.book.placed t o member)]
      exact none t o member
  | submit incoming tickSeq tRecvNs trades submits =>
      obtain ⟨placed, unsent⟩ := allowed incoming tickSeq tRecvNs rfl
      obtain ⟨m, looped, _, rfl⟩ := submit_cases submits
      have resident := match_loop_resident looped unsent
        ⟨submit_enters refines.sound, refines.book, none⟩
      intro t o member
      dsimp only at member ⊢
      split_ifs at member with unfilled
      · rcases (mem_queued_on_add incoming o t).mp member with ⟨_, same⟩ | old
        · rw [same]
          exact not_filled_of_unfilled (resident.sound.orders incoming placed) unfilled
        · exact resident.none t o old
      · exact resident.none t o member
  | cancel id state =>
      rw [state]
      rcases desk.cancel_cases id with same | ⟨closed, _, _, changed⟩
      · rw [same]
        exact none
      · rw [changed]
        intro t o member
        dsimp only
        by_cases own : o = closed
        · rw [own, Heap.modify_self]
          exact fun contrary => nomatch contrary
        · rw [Heap.modify_of_ne _ _ own]
          exact none t o member
  | reap state =>
      rw [state]
      exact none

theorem step_positive (positive : PositiveOrders desk)
    (placed : ∀ symbol price qty s, op = .place symbol price qty s → 0 < qty)
    (ran : desk.step clock op = some (next, reply)) : PositiveOrders next := by
  cases step_effect ran with
  | place symbol price qty s state =>
      rw [state]
      intro o inHeap
      rcases Nat.lt_succ_iff_lt_or_eq.mp inHeap with before | new
      · rw [desk.place_heap_old symbol price qty s before]
        exact positive o before
      · rw [new, desk.place_heap_new symbol price qty s]
        exact placed symbol price qty s rfl
  | submit incoming tickSeq tRecvNs trades submits =>
      obtain ⟨m, looped, _, rfl⟩ := submit_cases submits
      intro o inHeap
      dsimp only
      rw [(match_loop_terms looped o).quantity]
      exact positive o inHeap
  | cancel id state =>
      rw [state]
      rcases desk.cancel_cases id with same | ⟨closed, _, _, changed⟩
      · rw [same]
        exact positive
      · rw [changed]
        intro o inHeap
        dsimp only
        rw [(Heap.modify_terms _ _ _ _ mark_cancelled_terms).quantity]
        exact positive o inHeap
  | reap state =>
      rw [state]
      exact positive

omit [LinearOrder PriceT] in
/-- The order manager finds a registered order by its id. -/
theorem get_eq (sound : DeskSound desk) {o : OrderPtr} (placed : o < desk.allocated)
    (registered : ((desk.heap o).id, o) ∈ desk.oms.active) :
    desk.get (desk.heap o).id = some o := by
  unfold get
  cases found : desk.oms.find (desk.heap o).id with
  | none => exact absurd rfl (OrderManager.find_eq_none_iff.mp found _ registered)
  | some other =>
      have numbered := (sound.active _ (OrderManager.mem_of_find found)).2
      rw [sound.ids o placed, Int.add_left_inj, Int.ofNat_inj] at numbered
      rw [numbered]

end Steps

/-- Places positive quantities, and submits each order once and before any cancel of it. -/
def placePositive (config : Config (Desk Book PriceT) (Op PriceT) (Reply PriceT)) :
    Op PriceT → Prop
  | .place _ _ qty _ => 0 < qty
  | op => submitOnceUncancelled config op

instance (config : Config (Desk Book PriceT) (Op PriceT) (Reply PriceT)) :
    ∀ op : Op PriceT, Decidable (placePositive config op)
  | .place _ _ qty _ => inferInstanceAs (Decidable (0 < qty))
  | .submit incoming tickSeq tRecvNs => inferInstanceAs
      (Decidable (submitOnceUncancelled config (.submit incoming tickSeq tRecvNs)))
  | .cancel _ => .isTrue trivial
  | .reap => .isTrue trivial

omit [LinearOrder PriceT] [BookT Book PriceT] [LawfulBook Book] in
theorem uncancelled_of_place_positive
    {config : Config (Desk Book PriceT) (Op PriceT) (Reply PriceT)} {op : Op PriceT}
    (permitted : placePositive config op) : submitOnceUncancelled config op := by
  cases op with
  | place symbol price qty s => trivial
  | submit incoming tickSeq tRecvNs => exact permitted
  | cancel id => trivial
  | reap => trivial

/-- Every order in the book, bids first. -/
def restingOrders (book : OrderBook PriceT) : List OrderPtr := items book.bids ++ items book.asks

/-- The book and the order manager agree on the orders `sent` so far. -/
structure Resident (desk : Desk (OrderBook PriceT) PriceT) (sent : List OrderPtr) : Prop where
  once : ∀ o ∈ sent, desk.heap.live o = true → (restingOrders desk.book).count o = 1
  level : ∀ o ∈ sent, desk.heap.live o = true →
    ∃ level ∈ (if (desk.heap o).side = .buy then desk.book.bids else desk.book.asks),
      level.key = (desk.heap o).price ∧ o ∈ level.queue
  unfilled : ∀ o ∈ sent, desk.heap.live o = true → 0 < (desk.heap o).remaining
  tracked : ∀ o ∈ sent, desk.heap.live o = true → desk.get (desk.heap o).id = some o
  nodup : (restingOrders desk.book).Nodup
  noneFilled : ∀ o ∈ restingOrders desk.book, (desk.heap o).state ≠ .filled
  queued : ∀ level ∈ desk.book.bids ++ desk.book.asks, level.queue ≠ []
  best : ∀ s, desk.book.empty s = false → ∃ o, desk.book.best s = some o

section Resident

variable {desk : Desk (OrderBook PriceT) PriceT} {sent : List OrderPtr}
  {reference : Reference PriceT}

theorem mem_resting_iff {book : OrderBook PriceT} {o : OrderPtr} :
    o ∈ restingOrders book ↔ ∃ s, o ∈ queuedOn book s := by
  unfold restingOrders
  rw [List.mem_append]
  constructor
  · rintro (bid | ask)
    · exact ⟨.buy, bid⟩
    · exact ⟨.sell, ask⟩
  · rintro ⟨s, member⟩
    cases s with
    | buy => exact .inl member
    | sell => exact .inr member

theorem resting_nodup (refines : Refines desk sent reference) :
    (restingOrders desk.book).Nodup := by
  apply List.nodup_append.mpr
  refine ⟨queue_nodup refines.book .buy, queue_nodup refines.book .sell, ?_⟩
  intro bid bids ask asks same
  have buys := refines.sound.book.sided .buy bid bids
  have sells := refines.sound.book.sided .sell ask asks
  rw [same, sells] at buys
  cases buys

theorem resident_of_refines (refines : Refines desk sent reference)
    (none : NoneFilled desk.heap desk.book) (positive : PositiveOrders desk) :
    Resident desk sent := by
  have sound := refines.sound
  have unfilled : ∀ o ∈ sent, desk.heap.live o = true → 0 < (desk.heap o).remaining := by
    intro o inSent alive
    have placed := refines.sentPlaced o inSent
    exact unfilled_of_live (sound.orders o placed) (positive o placed) alive
  have queued : ∀ o ∈ sent, desk.heap.live o = true →
      o ∈ queuedOn desk.book (desk.heap o).side :=
    fun o inSent alive => refines.book.queued o inSent alive (unfilled o inSent alive)
  constructor
  · intro o inSent alive
    exact List.count_eq_one_of_mem (resting_nodup refines)
      (mem_resting_iff.mpr ⟨_, queued o inSent alive⟩)
  · intro o inSent alive
    obtain ⟨level, member, inLevel⟩ := List.mem_flatMap.mp (queued o inSent alive)
    exact ⟨level, member, (refines.ordered.keyed _ level member o inLevel).symm, inLevel⟩
  · exact unfilled
  · intro o inSent alive
    have placed := refines.sentPlaced o inSent
    exact get_eq sound placed (refines.registered o placed alive)
  · exact resting_nodup refines
  · intro o member
    obtain ⟨s, inQueue⟩ := mem_resting_iff.mp member
    exact none s o inQueue
  · intro level member
    rcases List.mem_append.mp member with bid | ask
    · exact sound.book.allQueued .buy level bid
    · exact sound.book.allQueued .sell level ask
  · intro s nonempty
    have best : desk.book.best s = (items (LawfulBook.levels desk.book s)).head? := by
      rw [← front_eq_head (sound.book.allQueued s)]
      exact LawfulBook.best_eq desk.book s
    have levels : LawfulBook.levels desk.book s ≠ [] := by
      intro empty
      have isEmpty : desk.book.empty s = (LawfulBook.levels desk.book s).isEmpty :=
        LawfulBook.empty_eq desk.book s
      rw [isEmpty, empty] at nonempty
      cases nonempty
    obtain ⟨level, rest, shape⟩ := List.exists_cons_of_ne_nil levels
    have head := sound.book.allQueued s level (shape ▸ List.mem_cons_self)
    obtain ⟨o, queue, split⟩ := List.exists_cons_of_ne_nil head
    refine ⟨o, ?_⟩
    rw [best, shape, items_cons, split]
    rfl

/-- When prices are linearly ordered, in every run the book and the order manager agree on
who is resting, and no operation reads the front of an empty queue. -/
theorem residence_agrees [Inhabited PriceT] {clock : Nat → Int}
    {config : Config (Desk (OrderBook PriceT) PriceT) (Op PriceT) (Reply PriceT)}
    (reached : Reachable (step clock) placePositive initial config) :
    Resident config.state (submitted config) ∧
      ∀ op, ∃ next reply, config.state.step clock op = some (next, reply) := by
  have both : NoneFilled config.state.heap config.state.book ∧ PositiveOrders config.state := by
    refine reachable_invariant_of_reachable (fun config =>
      NoneFilled config.state.heap config.state.book ∧ PositiveOrders config.state) ?_ ?_ reached
    · constructor
      · intro s o member
        cases s <;> exact absurd member List.not_mem_nil
      · exact fun o inHeap => absurd inHeap (Nat.not_lt_zero o)
    · rintro config op next reply earlier ⟨none, positive⟩ permitted ran
      obtain ⟨mirror, _, _, _, refines⟩ := reachable_refines
        (reachable_mono (fun _ _ => uncancelled_of_place_positive) earlier)
      constructor
      · apply step_none_filled refines none ?_ ran
        rintro incoming tickSeq tRecvNs rfl
        exact ⟨permitted.1, permitted.2.1⟩
      · apply step_positive positive ?_ ran
        rintro symbol price qty s rfl
        exact permitted
  obtain ⟨mirror, _, _, _, refines⟩ := reachable_refines
    (reachable_mono (fun _ _ => uncancelled_of_place_positive) reached)
  exact ⟨resident_of_refines refines both.1 both.2, step_completes refines.sound⟩

end Resident

theorem residence_agrees_sample :
    ∃ config : Config (Desk (OrderBook Int) Int) (Op Int) (Reply Int),
      execute (step fun n => n) placePositive (.start initial) sampleOps = some config ∧
        restingOrders config.state.book = [4] ∧
        Resident config.state (submitted config) ∧
        ∀ op, ∃ next reply, config.state.step (fun n => n) op = some (next, reply) := by
  have completes : (execute (step fun n => n) placePositive
      (.start (initial : Desk (OrderBook Int) Int)) sampleOps).any (fun config =>
        decide (restingOrders config.state.book = [4])) = true := by
    decide
  obtain ⟨config, ran, found⟩ := (Option.any_eq_true _ _).mp completes
  exact ⟨config, ran, of_decide_eq_true found, residence_agrees (reachable_of_execute ran)⟩

/-- A buy at 10 and one at a price that compares with none. -/
def nanOps : List (Op (WithNaN Int)) :=
  [.place "AAPL" (.number 10) 1 .buy, .place "AAPL" .nan 1 .buy, .submit 0 0 0, .submit 1 0 0]

/-- The second order joins the level at 10. -/
theorem nan_joins_best_level :
    ∃ config : Config (Desk (OrderBook (WithNaN Int)) (WithNaN Int)) (Op (WithNaN Int))
        (Reply (WithNaN Int)),
      Reachable (step fun n => n) placePositive initial config ∧
        config.state.book.bids = [⟨.number 10, [0, 1]⟩] ∧
        (config.state.heap 1).price = .nan ∧ ¬ Resident config.state (submitted config) := by
  have completes : (execute (step fun n => n) placePositive
      (.start (initial : Desk (OrderBook (WithNaN Int)) (WithNaN Int))) nanOps).any (fun config =>
        decide (config.state.book.bids = [⟨.number 10, [0, 1]⟩] ∧
          (config.state.heap 1).price = .nan ∧ (config.state.heap 1).side = .buy ∧
          config.state.heap.live 1 = true ∧ 1 ∈ submitted config)) = true := by
    decide
  obtain ⟨config, reached, bids, price, side, alive, sent⟩ := reachable_of_execute_any completes
  refine ⟨config, reached, bids, price, ?_⟩
  intro resident
  obtain ⟨level, member, keyed, _⟩ := resident.level 1 sent alive
  rw [if_pos side, bids, List.mem_singleton] at member
  rw [member, price] at keyed
  cases keyed

end Desk

end Finm327.Phase4
