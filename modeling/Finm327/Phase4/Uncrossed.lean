import Finm327.Phase4.PriceOrder

/-!
# The book is never crossed

Cancelled orders may stay queued anywhere, so the statement is about live
orders only. Inside `submit` it holds of every pair without the incoming order,
and each exit of the loop makes sure that the remainder may be queued.
-/

namespace Finm327.Phase4

open Finm327.Library.LevelQueues
open Finm327.Library.Runs
open MatchingEngine

universe u v

variable {PriceT : Type u} {Book : Type v} [LinearOrder PriceT] [BookT Book PriceT]
  [LawfulBook Book]

/-- A pair of live queued orders that `apart` does not exclude has its bid
below its ask. -/
def UncrossedApart (apart : OrderPtr → Prop) (heap : Heap PriceT) (book : Book) : Prop :=
  ∀ bid ∈ queuedOn book .buy, ∀ ask ∈ queuedOn book .sell, ¬ apart bid → ¬ apart ask →
    heap.live bid = true → heap.live ask = true → (heap bid).price < (heap ask).price

/-- Every live bid is below every live ask. -/
def Uncrossed (heap : Heap PriceT) (book : Book) : Prop :=
  ∀ bid ∈ queuedOn book .buy, ∀ ask ∈ queuedOn book .sell,
    heap.live bid = true → heap.live ask = true → (heap bid).price < (heap ask).price

section Book

variable {apart : OrderPtr → Prop} {heap later : Heap PriceT} {book after : Book}

/-- Fewer queued orders, fewer live ones and the same prices cross no more. -/
theorem uncrossed_apart_mono (uncrossed : UncrossedApart apart heap book)
    (keeps : ∀ s, ∀ o ∈ queuedOn after s, o ∈ queuedOn book s ∧
      (later o).price = (heap o).price ∧
      (¬ apart o → later.live o = true → heap.live o = true)) :
    UncrossedApart apart later after := by
  intro bid bidQueued ask askQueued bidApart askApart bidLive askLive
  obtain ⟨bidMember, bidPrice, bidWas⟩ := keeps _ bid bidQueued
  obtain ⟨askMember, askPrice, askWas⟩ := keeps _ ask askQueued
  rw [bidPrice, askPrice]
  exact uncrossed bid bidMember ask askMember bidApart askApart (bidWas bidApart bidLive)
    (askWas askApart askLive)

theorem uncrossed_iff_apart_none :
    Uncrossed heap book ↔ UncrossedApart (fun _ => False) heap book := by
  simp [Uncrossed, UncrossedApart]

theorem uncrossed_apart_of_uncrossed (uncrossed : Uncrossed heap book) :
    UncrossedApart apart heap book :=
  fun bid bidQueued ask askQueued _ _ => uncrossed bid bidQueued ask askQueued

end Book

namespace MatchingEngine

theorem crosses_eq_false_iff (taker maker : Order PriceT) :
    crosses taker maker = false ↔
      if taker.side = .buy then taker.price < maker.price else maker.price < taker.price := by
  cases side : taker.side <;> simp [crosses, side]

/-- When the loop stops with units left, no live order of the other side
crosses, at whatever depth it is queued. -/
theorem stopped_clear {incoming o : OrderPtr} {m : Matching Book PriceT}
    (ordered : BookOrdered m.heap m.book) (stopped : Stopped incoming m)
    (unfilled : (m.heap incoming).remaining > 0)
    (member : o ∈ queuedOn m.book (m.heap incoming).side.opp) :
    crosses (m.heap incoming) (m.heap o) = false := by
  rcases stopped with filled | drained | ⟨resting, foremost, apart⟩
  · omega
  · rw [queuedOn, drained] at member
    contradiction
  · have first := best_first ordered foremost.best member
    by_contra crossing
    rw [Bool.not_eq_false] at crossing
    rw [crosses_mono crossing first] at apart
    contradiction

/-- The invariant of the loop: nothing but the incoming order may cross. -/
structure LoopUncrossed (allocated incoming : OrderPtr) (m : Matching Book PriceT) : Prop where
  sound : LoopSound allocated m
  uncrossed : UncrossedApart (· = incoming) m.heap m.book

theorem match_loop_uncrossed {clock : Nat → Int} {tickSeq : UInt64} {tRecvNs : Int}
    {allocated incoming : OrderPtr} {fuel : Nat} {m last : Matching Book PriceT}
    (ran : matchLoop clock incoming tickSeq tRecvNs fuel m = some last)
    (holds : LoopUncrossed allocated incoming m) : LoopUncrossed allocated incoming last := by
  refine (match_loop_rule (LoopUncrossed allocated incoming) ?_ ?_ ran holds).1
  · intro m current
    refine ⟨pruned_sound current.sound _, ?_⟩
    apply uncrossed_apart_mono current.uncrossed
    exact fun s o member => ⟨mem_queued_on_pruned member, rfl, fun _ alive => alive⟩
  · intro m resting current unfilled foremost _
    refine ⟨trade_sound current.sound unfilled foremost, ?_⟩
    have distinct := foremost_ne_incoming current.sound foremost
    apply uncrossed_apart_mono current.uncrossed
    intro s o member
    refine ⟨?_, (trade_terms _ _ _ _ _ _ o).price, ?_⟩
    · exact (queued_on_trade_sublist current.sound foremost s).subset member
    · intro other alive
      rw [Heap.live, trade_heap _ _ _ _ _ _ distinct] at alive
      split_ifs at alive with party
      · rcases party with own | same
        · exact absurd own other
        · rw [same]
          exact foremost.live
      · exact alive

end MatchingEngine

namespace Desk

theorem submit_uncrossed {clock : Nat → Int} {desk next : Desk Book PriceT} {incoming : OrderPtr}
    {tickSeq : UInt64} {tRecvNs trades : Int} (sound : DeskSound desk)
    (ordered : BookOrdered desk.heap desk.book) (uncrossed : Uncrossed desk.heap desk.book)
    (placed : incoming < desk.allocated)
    (ran : submit clock desk incoming tickSeq tRecvNs = some (next, trades)) :
    Uncrossed next.heap next.book := by
  have nextSound := (submit_sound sound placed ran).book
  obtain ⟨m, looped, _, rfl⟩ := submit_cases ran
  have loopOrdered := match_loop_ordered looped (submit_enters sound) ordered
  have loop := match_loop_uncrossed looped
    ⟨submit_enters sound, uncrossed_apart_of_uncrossed uncrossed⟩
  have stopped := (match_loop_sound looped (submit_enters sound)).2
  dsimp only at nextSound ⊢
  have grown : ∀ s, ∀ o ∈ queuedOn (if (m.heap incoming).remaining > 0 then
      BookT.add m.heap incoming m.book else m.book) s, o = incoming ∨ o ∈ queuedOn m.book s := by
    intro s o queued
    split_ifs at queued
    · exact ((mem_queued_on_add incoming o s).mp queued).imp_left And.right
    · exact .inr queued
  intro bid bidQueued ask askQueued bidLive askLive
  have buys := nextSound.sided _ bid bidQueued
  have sells := nextSound.sided _ ask askQueued
  have different : bid ≠ ask := by
    intro same
    rw [same, sells] at buys
    contradiction
  by_cases bidOwn : bid = incoming
  · subst bidOwn
    have member := (grown _ ask askQueued).resolve_left different.symm
    have unfilled := nextSound.unfilled _ bid bidQueued bidLive
    have apart := stopped_clear loopOrdered stopped unfilled (by rwa [buys])
    rwa [crosses_eq_false_iff, if_pos buys] at apart
  · have bidMember := (grown _ bid bidQueued).resolve_left bidOwn
    by_cases askOwn : ask = incoming
    · subst askOwn
      have unfilled := nextSound.unfilled _ ask askQueued askLive
      have apart := stopped_clear loopOrdered stopped unfilled (by rwa [sells])
      rwa [crosses_eq_false_iff, if_neg (by rw [sells]; decide)] at apart
    · have askMember := (grown _ ask askQueued).resolve_left askOwn
      exact loop.uncrossed bid bidMember ask askMember bidOwn askOwn bidLive askLive

theorem step_uncrossed {clock : Nat → Int} {desk next : Desk Book PriceT} {op : Op PriceT}
    {reply : Reply PriceT} (sound : DeskSound desk) (ordered : BookOrdered desk.heap desk.book)
    (uncrossed : Uncrossed desk.heap desk.book)
    (allowed : ∀ incoming tickSeq tRecvNs, op = .submit incoming tickSeq tRecvNs →
      incoming < desk.allocated)
    (ran : desk.step clock op = some (next, reply)) : Uncrossed next.heap next.book := by
  cases step_effect ran with
  | place symbol price qty s state =>
      rw [state, uncrossed_iff_apart_none]
      apply uncrossed_apart_mono (uncrossed_iff_apart_none.mp uncrossed)
      intro t o queued
      have old := desk.place_heap_old symbol price qty s (sound.book.placed t o queued)
      rw [Heap.live, old]
      exact ⟨queued, rfl, fun _ alive => alive⟩
  | submit incoming tickSeq tRecvNs trades submits =>
      exact submit_uncrossed sound ordered uncrossed (allowed incoming tickSeq tRecvNs rfl) submits
  | cancel id state =>
      rw [state]
      rcases desk.cancel_cases id with same | ⟨target, _, _, changed⟩
      · rw [same]
        exact uncrossed
      · rw [changed, uncrossed_iff_apart_none]
        apply uncrossed_apart_mono (uncrossed_iff_apart_none.mp uncrossed)
        intro t o queued
        refine ⟨queued, (Heap.modify_terms _ _ _ _ mark_cancelled_terms).price, ?_⟩
        intro _ alive
        by_cases hit : o = target
        · subst hit
          simp [Heap.live, Order.live, Order.markCancelled] at alive
        · simpa only [Heap.live, Heap.modify_of_ne _ _ hit] using alive
  | reap state =>
      rw [state]
      exact uncrossed

theorem reachable_uncrossed [PriceOrdered Book] [Inhabited PriceT] {clock : Nat → Int}
    {config : Config (Desk Book PriceT) (Op PriceT) (Reply PriceT)}
    (reached : Reachable (step clock) submitPlaced initial config) :
    Uncrossed config.state.heap config.state.book := by
  refine reachable_invariant_of_reachable
    (fun config => Uncrossed config.state.heap config.state.book) ?_ ?_ reached
  · intro bid queued
    simp [initial, queuedOn, LawfulBook.levels_empty_book] at queued
  · intro config op next reply earlier uncrossed permitted ran
    apply step_uncrossed (reachable_sound earlier) (reachable_ordered earlier) uncrossed ?_ ran
    rintro incoming tickSeq tRecvNs rfl
    exact permitted

/-- After every completed operation every live bid is strictly below every
live ask, wherever in the queues they are. -/
theorem never_crossed [Inhabited PriceT] {clock : Nat → Int}
    {config : Config (Desk (OrderBook PriceT) PriceT) (Op PriceT) (Reply PriceT)}
    (reached : Reachable (step clock) submitOnce initial config) :
    Uncrossed config.state.heap config.state.book :=
  reachable_uncrossed (reachable_mono submit_once_placed reached)

theorem never_crossed_sample :
    ∃ config : Config (Desk (OrderBook Int) Int) (Op Int) (Reply Int),
      execute (step fun n => n) submitOnce (.start initial) sampleOps = some config ∧
        Uncrossed config.state.heap config.state.book := by
  have completes : (execute (step fun n => n) submitOnce
      (.start (initial : Desk (OrderBook Int) Int)) sampleOps).isSome = true := by
    decide
  obtain ⟨config, ran⟩ := Option.isSome_iff_exists.mp completes
  exact ⟨config, ran, never_crossed (reachable_of_execute ran)⟩

end Desk

end Finm327.Phase4
