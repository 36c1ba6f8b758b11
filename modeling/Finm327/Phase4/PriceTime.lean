import Mathlib.Order.MinMax
import Finm327.Phase4.PriceOrder
import Finm327.Phase4.Reference

/-!
# Price-time priority

The engine refines the reference. `BookFollows` relates the queues, dead orders
included, to the orders submitted so far: a live order with units left is
queued, nothing else that is queued is live, and each side is in priority
order. The order in front of the pruned queue is then the one the reference
selects, and one trade of the loop is one round of the reference's sweep.
-/

namespace Finm327.Phase4

open Finm327.Library
open Finm327.Library.LevelQueues
open Finm327.Library.Runs
open MatchingEngine

universe u v

variable {PriceT : Type u} {Book : Type v}

def Trade.fill (tr : Trade PriceT) : Fill PriceT := ⟨tr.buyId, tr.sellId, tr.price, tr.quantity⟩

def Order.entry (order : Order PriceT) : Entry PriceT :=
  ⟨order.id, order.side, order.price, order.remaining⟩

/-- What the reference still sees of a submitted order. -/
def restingEntry (heap : Heap PriceT) (o : OrderPtr) : Option (Entry PriceT) :=
  if heap.live o = true ∧ 0 < (heap o).remaining then some (heap o).entry else none

def restingView (heap : Heap PriceT) (sent : List OrderPtr) : List (Entry PriceT) :=
  sent.filterMap (restingEntry heap)

theorem resting_entry_eq_some_iff {heap : Heap PriceT} {o : OrderPtr} {entry : Entry PriceT} :
    restingEntry heap o = some entry ↔
      heap.live o = true ∧ 0 < (heap o).remaining ∧ entry = (heap o).entry := by
  unfold restingEntry
  split_ifs with resting
  · simp [resting, eq_comm]
  · simp only [false_iff]
    exact fun contrary => resting ⟨contrary.1, contrary.2.1⟩

theorem resting_entry_congr {heap later : Heap PriceT} {o : OrderPtr} (same : later o = heap o) :
    restingEntry later o = restingEntry heap o := by
  unfold restingEntry
  rw [Heap.live, Heap.live, same]

/-- What the reference sees once one more order has been submitted. -/
theorem resting_view_append (heap : Heap PriceT) (sent : List OrderPtr) {o : OrderPtr}
    (alive : (heap o).remaining > 0 → heap.live o = true) :
    restingView heap (sent ++ [o]) =
      restingView heap sent ++ if (heap o).remaining > 0 then [(heap o).entry] else [] := by
  rw [restingView, restingView, List.filterMap_append]
  split_ifs with unfilled
  · have seen : restingEntry heap o = some (heap o).entry :=
      resting_entry_eq_some_iff.mpr ⟨alive unfilled, unfilled, rfl⟩
    rw [List.filterMap_cons_some seen, List.filterMap_nil]
  · have gone : restingEntry heap o = none := by
      unfold restingEntry
      rw [if_neg (fun contrary => unfilled contrary.2)]
    rw [List.filterMap_cons_none gone, List.filterMap_nil]

variable [LinearOrder PriceT]

/-- Better price first, and earlier submission first at one price. -/
def Priority (heap : Heap PriceT) (sent : List OrderPtr) (s : Side) (first second : OrderPtr) :
    Prop :=
  betterPrice s (heap first).price (heap second).price = true ∨
    (heap first).price = (heap second).price ∧ sent.idxOf first < sent.idxOf second

theorem priority_not_better {heap : Heap PriceT} {sent : List OrderPtr} {s : Side}
    {first second : OrderPtr} (priority : Priority heap sent s first second) :
    betterPrice s (heap second).price (heap first).price = false := by
  have order : KeyOrder (betterPrice s) _ := @map_key_order PriceT _ s
  rcases priority with better | ⟨same, _⟩
  · by_contra contrary
    have loop := order.trans _ _ _ better (by simpa using contrary)
    rw [order.irrefl] at loop
    contradiction
  · rw [same]
    exact order.irrefl _

variable [BookT Book PriceT] [LawfulBook Book]

/-- How the queues follow the orders `sent` so far. -/
structure BookFollows (heap : Heap PriceT) (sent : List OrderPtr) (book : Book) : Prop where
  wasSent : ∀ s, ∀ o ∈ queuedOn book s, o ∈ sent
  queued : ∀ o ∈ sent, heap.live o = true → 0 < (heap o).remaining →
    o ∈ queuedOn book (heap o).side
  priority : ∀ s, (queuedOn book s).Pairwise (Priority heap sent s)

namespace MatchingEngine

theorem pruned_follows {m : Matching Book PriceT} {sent : List OrderPtr}
    (follows : BookFollows m.heap sent m.book) (s : Side) :
    BookFollows m.heap sent (pruned m s).book where
  wasSent := fun t o member => follows.wasSent t o (mem_queued_on_pruned member)
  queued := fun o inSent alive unfilled =>
    mem_pruned_of_live (follows.queued o inSent alive unfilled) alive
  priority := fun t => (follows.priority t).sublist (queued_on_pruned_sublist m s t)

omit [LinearOrder PriceT] in
theorem foremost_queue {allocated resting : OrderPtr} {m : Matching Book PriceT} {s : Side}
    (sound : LoopSound allocated m) (foremost : Foremost m s resting) :
    ∃ rest, queuedOn m.book s = resting :: rest := by
  have best := foremost.best
  rw [LawfulBook.best_eq, front_eq_head (sound.book.allQueued s)] at best
  exact List.head?_eq_some_iff.mp best

/-- Every other order of the side comes after the foremost one. -/
theorem foremost_priority {allocated resting o : OrderPtr} {m : Matching Book PriceT}
    {sent : List OrderPtr} {s : Side} (sound : LoopSound allocated m)
    (follows : BookFollows m.heap sent m.book) (foremost : Foremost m s resting)
    (member : o ∈ queuedOn m.book s) : o = resting ∨ Priority m.heap sent s resting o := by
  obtain ⟨rest, queue⟩ := foremost_queue sound foremost
  have priority := follows.priority s
  rw [queue] at member priority
  rcases List.mem_cons.mp member with same | later
  · exact .inl same
  · exact .inr ((List.pairwise_cons.mp priority).1 o later)

omit [BookT Book PriceT] [LawfulBook Book] in
theorem mem_candidates_iff {heap : Heap PriceT} {sent : List OrderPtr} {incoming : OrderPtr}
    {entry : Entry PriceT} :
    entry ∈ (heap incoming).entry.candidates (restingView heap sent) ↔
      ∃ o ∈ sent, heap.live o = true ∧ 0 < (heap o).remaining ∧
        (heap o).side = (heap incoming).side.opp ∧
        crosses (heap incoming) (heap o) = true ∧ entry = (heap o).entry := by
  have sameCrosses : ∀ o, (heap incoming).entry.crosses (heap o).entry =
      crosses (heap incoming) (heap o) := fun _ => rfl
  simp only [Entry.candidates, restingView, List.mem_filter, List.mem_filterMap,
    resting_entry_eq_some_iff, Bool.and_eq_true, decide_eq_true_eq]
  constructor
  · rintro ⟨⟨o, inSent, alive, unfilled, rfl⟩, opposite, crossing⟩
    exact ⟨o, inSent, alive, unfilled, opposite, crossing, rfl⟩
  · rintro ⟨o, inSent, alive, unfilled, opposite, crossing, rfl⟩
    exact ⟨⟨o, inSent, alive, unfilled, rfl⟩, opposite, crossing⟩

omit [BookT Book PriceT] [LawfulBook Book] in
/-- A candidate among the orders submitted before and after it. -/
theorem candidates_append {heap : Heap PriceT} {incoming resting : OrderPtr}
    (seen : restingEntry heap resting = some (heap resting).entry)
    (opposite : (heap resting).side = (heap incoming).side.opp)
    (crossing : crosses (heap incoming) (heap resting) = true) (earlier later : List OrderPtr) :
    (heap incoming).entry.candidates (restingView heap (earlier ++ resting :: later)) =
      (heap incoming).entry.candidates (restingView heap earlier) ++ (heap resting).entry ::
        (heap incoming).entry.candidates (restingView heap later) := by
  have kept : (decide ((heap resting).entry.side = (heap incoming).entry.side.opp) &&
      (heap incoming).entry.crosses (heap resting).entry) = true := by
    rw [Bool.and_eq_true, decide_eq_true_eq]
    exact ⟨opposite, crossing⟩
  rw [restingView, List.filterMap_append, List.filterMap_cons_some seen]
  unfold Entry.candidates restingView
  rw [List.filter_append, List.filter_cons, if_pos kept]

/-- Any other order that could trade instead comes after the foremost one. -/
theorem foremost_first {allocated incoming resting : OrderPtr} {m : Matching Book PriceT}
    {sent : List OrderPtr} (sound : LoopSound allocated m)
    (follows : BookFollows m.heap sent m.book)
    (foremost : Foremost m (m.heap incoming).side.opp resting) {o : OrderPtr} (inSent : o ∈ sent)
    (alive : m.heap.live o = true) (unfilled : 0 < (m.heap o).remaining)
    (opposite : (m.heap o).side = (m.heap incoming).side.opp) :
    o = resting ∨ Priority m.heap sent (m.heap incoming).side.opp resting o := by
  have member := follows.queued o inSent alive unfilled
  rw [opposite] at member
  exact foremost_priority sound follows foremost member

theorem not_better_than_foremost {allocated incoming resting : OrderPtr}
    {m : Matching Book PriceT} {sent : List OrderPtr} (sound : LoopSound allocated m)
    (follows : BookFollows m.heap sent m.book)
    (foremost : Foremost m (m.heap incoming).side.opp resting) {o : OrderPtr} (inSent : o ∈ sent)
    (alive : m.heap.live o = true) (unfilled : 0 < (m.heap o).remaining)
    (opposite : (m.heap o).side = (m.heap incoming).side.opp) :
    betterPrice (m.heap incoming).side.opp (m.heap o).price (m.heap resting).price = false := by
  rcases foremost_first sound follows foremost inSent alive unfilled opposite with same | later
  · rw [same]
    exact (@map_key_order PriceT _ _).irrefl _
  · exact priority_not_better later

/-- The reference selects the foremost order when that one crosses, and finds
no candidate otherwise. -/
theorem select_foremost {allocated incoming resting : OrderPtr} {m : Matching Book PriceT}
    {sent : List OrderPtr} (sound : LoopSound allocated m)
    (follows : BookFollows m.heap sent m.book)
    (foremost : Foremost m (m.heap incoming).side.opp resting) :
    Entry.select ((m.heap incoming).entry.candidates (restingView m.heap sent)) =
      if crosses (m.heap incoming) (m.heap resting) then some (m.heap resting).entry else none := by
  have restingSide := sound.book.sided _ resting foremost.queued
  split_ifs with crossing
  · have restingSent := follows.wasSent _ resting foremost.queued
    have restingUnfilled := sound.book.unfilled _ resting foremost.queued foremost.live
    obtain ⟨earlier, later, split, notEarlier⟩ := List.eq_append_cons_of_mem restingSent
    have seen : restingEntry m.heap resting = some (m.heap resting).entry :=
      resting_entry_eq_some_iff.mpr ⟨foremost.live, restingUnfilled, rfl⟩
    have shape : (m.heap incoming).entry.candidates (restingView m.heap sent) =
        (m.heap incoming).entry.candidates (restingView m.heap earlier) ++
          (m.heap resting).entry ::
            (m.heap incoming).entry.candidates (restingView m.heap later) := by
      rw [split]
      exact candidates_append seen restingSide crossing earlier later
    apply Entry.select_eq_some shape
    · intro other member
      obtain ⟨o, inSent, alive, unfilled, opposite, _, same⟩ := mem_candidates_iff.mp member
      rw [same]
      simp only [Order.entry, restingSide]
      exact not_better_than_foremost sound follows foremost inSent alive unfilled opposite
    · intro entry member
      obtain ⟨o, inEarlier, alive, unfilled, opposite, _, same⟩ := mem_candidates_iff.mp member
      have inSent : o ∈ sent := by
        rw [split]
        exact List.mem_append_left _ inEarlier
      rcases foremost_first sound follows foremost inSent alive unfilled opposite with
        own | better | ⟨_, before⟩
      · rw [own] at inEarlier
        contradiction
      · refine ⟨(m.heap resting).entry, ?_, ?_⟩
        · rw [shape]
          simp
        · simpa only [same, Order.entry, opposite] using better
      · rw [split, List.idxOf_append_of_mem inEarlier, List.idxOf_append_of_notMem notEarlier,
          List.idxOf_cons_self] at before
        have bound := List.idxOf_lt_length_iff.mpr inEarlier
        omega
  · have none : (m.heap incoming).entry.candidates (restingView m.heap sent) = [] := by
      apply List.eq_nil_iff_forall_not_mem.mpr
      intro entry member
      obtain ⟨o, inSent, alive, unfilled, opposite, crosses, _⟩ := mem_candidates_iff.mp member
      exact crossing (crosses_mono crosses
        (not_better_than_foremost sound follows foremost inSent alive unfilled opposite))
    rw [none]
    rfl

/-- Nothing of the opposite side is queued: the reference finds no candidate. -/
theorem select_drained {incoming : OrderPtr} {m : Matching Book PriceT} {sent : List OrderPtr}
    (follows : BookFollows m.heap sent m.book)
    (drained : LawfulBook.levels m.book (m.heap incoming).side.opp = []) :
    Entry.select ((m.heap incoming).entry.candidates (restingView m.heap sent)) = none := by
  have nothing : (m.heap incoming).entry.candidates (restingView m.heap sent) = [] := by
    apply List.eq_nil_iff_forall_not_mem.mpr
    intro entry member
    obtain ⟨o, inSent, alive, unfilled, opposite, _⟩ := mem_candidates_iff.mp member
    have queued := follows.queued o inSent alive unfilled
    rw [opposite, queuedOn, drained] at queued
    contradiction
  rw [nothing]
  rfl

variable {clock : Nat → Int} {tickSeq : UInt64} {tRecvNs : Int}

theorem trade_follows {allocated incoming resting : OrderPtr} {m : Matching Book PriceT}
    {sent : List OrderPtr} (sound : LoopSound allocated m)
    (follows : BookFollows m.heap sent m.book) (incomingUnsent : incoming ∉ sent)
    (foremost : Foremost m (m.heap incoming).side.opp resting) :
    BookFollows (trade clock incoming resting tickSeq tRecvNs m).heap sent
      (trade clock incoming resting tickSeq tRecvNs m).book := by
  have distinct := foremost_ne_incoming sound foremost
  have shrinks := fun t =>
    @queued_on_trade_sublist _ _ _ _ clock tickSeq tRecvNs _ _ _ _ sound foremost t
  constructor
  · exact fun t o member => follows.wasSent t o ((shrinks t).subset member)
  · intro o inSent alive unfilled
    have notIncoming : o ≠ incoming := fun same => incomingUnsent (same ▸ inSent)
    rw [Heap.live] at alive
    rw [(trade_terms clock incoming resting tickSeq tRecvNs m o).side, queued_on_trade sound foremost]
    rw [trade_heap _ _ _ _ _ _ distinct] at alive unfilled
    simp only [notIncoming, false_or] at alive unfilled
    split_ifs at alive unfilled with isResting
    · subst isResting
      have rest := (fill_by_live_iff _ _).mp alive
      rw [if_neg (fun contrary => rest contrary.2), sound.book.sided _ o foremost.queued]
      exact foremost.queued
    · have member := follows.queued o inSent alive unfilled
      split_ifs with popped
      · obtain ⟨rest, queue⟩ := foremost_queue sound foremost
        rw [popped.1, queue] at member ⊢
        exact (List.mem_cons.mp member).resolve_left isResting
      · exact member
  · intro t
    apply ((follows.priority t).sublist (shrinks t)).imp
    intro first second priority
    simpa only [Priority, (trade_terms clock incoming resting tickSeq tRecvNs m _).price]
      using priority

omit [LinearOrder PriceT] in
/-- One trade strikes the foremost order in the reference's list. -/
theorem resting_view_trade {allocated incoming resting : OrderPtr} {m : Matching Book PriceT}
    {sent : List OrderPtr} (sound : LoopSound allocated m) (ids : IdsFollow m.heap allocated)
    (sentPlaced : ∀ o ∈ sent, o < allocated) (incomingUnsent : incoming ∉ sent)
    (foremost : Foremost m (m.heap incoming).side.opp resting) :
    restingView (trade clock incoming resting tickSeq tRecvNs m).heap sent =
      strike (m.heap resting).id (tradeQty m incoming resting) (restingView m.heap sent) := by
  have distinct := foremost_ne_incoming sound foremost
  have restingPlaced := sound.book.placed _ resting foremost.queued
  rw [strike, restingView, restingView, List.filterMap_filterMap]
  apply List.filterMap_congr
  intro o inSent
  have notIncoming : o ≠ incoming := fun same => incomingUnsent (same ▸ inSent)
  have heap := trade_heap clock incoming resting tickSeq tRecvNs m distinct o
  simp only [notIncoming, false_or] at heap
  by_cases isResting : o = resting
  · subst isResting
    have unfilled := sound.book.unfilled _ o foremost.queued foremost.live
    have fits := trade_qty_fits m (.inr rfl : o = incoming ∨ o = o)
    have seen : restingEntry m.heap o = some (m.heap o).entry :=
      resting_entry_eq_some_iff.mpr ⟨foremost.live, unfilled, rfl⟩
    have own : (m.heap o).entry.id = (m.heap o).id := rfl
    rw [seen, Option.bind_some, if_pos own]
    rw [if_pos rfl] at heap
    unfold restingEntry
    have alive := fill_by_live_iff (tradeQty m incoming o) (m.heap o)
    have remaining := fill_by_remaining (tradeQty m incoming o) (m.heap o)
    rw [Heap.live, heap]
    by_cases used : (m.heap o).remaining = tradeQty m incoming o
    · rw [if_neg (fun contrary => alive.mp contrary.1 used)]
      exact (if_pos used).symm
    · rw [if_pos ⟨alive.mpr used, by omega⟩]
      refine Eq.trans ?_ (if_neg used).symm
      simp only [Order.entry, Entry.fillBy, fill_by_remaining]
      rfl
  · rw [if_neg isResting] at heap
    rw [resting_entry_congr heap]
    cases seen : restingEntry m.heap o with
    | none => rfl
    | some entry =>
        obtain ⟨_, _, own⟩ := resting_entry_eq_some_iff.mp seen
        have other : entry.id ≠ (m.heap resting).id := by
          intro sameId
          rw [own] at sameId
          exact isResting ((id_eq_iff ids (sentPlaced o inSent) restingPlaced).mp sameId)
        rw [Option.bind_some, if_neg other]

omit [LinearOrder PriceT] [BookT Book PriceT] [LawfulBook Book] in
theorem trade_record_fill (incoming resting : OrderPtr) (m : Matching Book PriceT) :
    (tradeRecord clock incoming resting tickSeq tRecvNs m).fill =
      (m.heap incoming).entry.fill (m.heap resting).entry (tradeQty m incoming resting) := by
  cases side : (m.heap incoming).side <;>
    simp [Trade.fill, tradeRecord, Entry.fill, Order.entry, side]

/-- Where the loop stops the reference's sweep has nothing to do. -/
theorem sweep_stopped {allocated incoming : OrderPtr} {m : Matching Book PriceT}
    {sent : List OrderPtr} (sound : LoopSound allocated m)
    (follows : BookFollows m.heap sent m.book) (stopped : Stopped incoming m) (rounds : Nat) :
    Reference.sweep rounds (m.heap incoming).entry (restingView m.heap sent) =
      ([], (m.heap incoming).entry, restingView m.heap sent) := by
  cases rounds with
  | zero => rfl
  | succ rounds =>
      unfold Reference.sweep
      rcases stopped with filled | drained | ⟨resting, foremost, apart⟩
      · have done : ¬ (m.heap incoming).entry.remaining > 0 := Int.not_lt.mpr filled
        rw [if_neg done]
      · rw [select_drained follows drained]
        exact ite_self _
      · rw [select_foremost sound follows foremost, apart]
        exact ite_self _

/-- One trade of the loop is one round of the reference's sweep. -/
theorem sweep_trade {allocated incoming resting : OrderPtr} {m : Matching Book PriceT}
    {sent : List OrderPtr} (sound : LoopSound allocated m) (ids : IdsFollow m.heap allocated)
    (follows : BookFollows m.heap sent m.book) (sentPlaced : ∀ o ∈ sent, o < allocated)
    (incomingUnsent : incoming ∉ sent) (unfilled : (m.heap incoming).remaining > 0)
    (foremost : Foremost m (m.heap incoming).side.opp resting)
    (crossing : crosses (m.heap incoming) (m.heap resting) = true) (rounds : Nat) :
    Reference.sweep (rounds + 1) (m.heap incoming).entry (restingView m.heap sent) =
      ((tradeRecord clock incoming resting tickSeq tRecvNs m).fill ::
        (Reference.sweep rounds ((trade clock incoming resting tickSeq tRecvNs m).heap incoming).entry
          (restingView (trade clock incoming resting tickSeq tRecvNs m).heap sent)).1,
        (Reference.sweep rounds ((trade clock incoming resting tickSeq tRecvNs m).heap incoming).entry
          (restingView (trade clock incoming resting tickSeq tRecvNs m).heap sent)).2) := by
  have distinct := foremost_ne_incoming sound foremost
  have left : ((trade clock incoming resting tickSeq tRecvNs m).heap incoming).entry =
      (m.heap incoming).entry.fillBy (tradeQty m incoming resting) := by
    rw [trade_heap_incoming _ _ _ _ _ _ distinct]
    simp only [Order.entry, fill_by_remaining, Entry.fillBy]
    rfl
  have more : (m.heap incoming).entry.remaining > 0 := unfilled
  rw [trade_record_fill, left, resting_view_trade sound ids sentPlaced incomingUnsent foremost]
  conv_lhs => unfold Reference.sweep
  rw [if_pos more, select_foremost sound follows foremost, if_pos crossing]
  rfl

/-- The invariant of the loop: what the reference's sweep yields from the start
is what has been logged since, followed by what the sweep yields from here. -/
structure SweepFollows (sent : List OrderPtr) (allocated incoming : OrderPtr)
    (start : Matching Book PriceT)
    (outcome : List (Fill PriceT) × Entry PriceT × List (Entry PriceT))
    (m : Matching Book PriceT) : Prop where
  sound : LoopSound allocated m
  ids : IdsFollow m.heap allocated
  book : BookFollows m.heap sent m.book
  uncancelled : (m.heap incoming).state ≠ .cancelled
  frame : ∀ o, o ∉ sent → o ≠ incoming → m.heap o = start.heap o
  dies : ∀ o, o ≠ incoming → m.heap.live o = true → start.heap.live o = true
  progress : ∃ rounds added, m.log = start.log ++ added ∧
    ((restingView m.heap sent).length ≤ rounds ∨ (m.heap incoming).remaining ≤ 0) ∧
    outcome = (added.map Trade.fill ++
      (Reference.sweep rounds (m.heap incoming).entry (restingView m.heap sent)).1,
      (Reference.sweep rounds (m.heap incoming).entry (restingView m.heap sent)).2)

theorem trade_sweep_follows {allocated incoming resting : OrderPtr} {m : Matching Book PriceT}
    {sent : List OrderPtr} {start : Matching Book PriceT}
    {outcome : List (Fill PriceT) × Entry PriceT × List (Entry PriceT)}
    (follows : SweepFollows sent allocated incoming start outcome m)
    (sentPlaced : ∀ o ∈ sent, o < allocated) (incomingUnsent : incoming ∉ sent)
    (unfilled : (m.heap incoming).remaining > 0)
    (foremost : Foremost m (m.heap incoming).side.opp resting)
    (crossing : crosses (m.heap incoming) (m.heap resting) = true) :
    SweepFollows sent allocated incoming start outcome
      (trade clock incoming resting tickSeq tRecvNs m) := by
  have sound := follows.sound
  have distinct := foremost_ne_incoming sound foremost
  have view := @resting_view_trade _ _ _ _ clock tickSeq tRecvNs _ _ _ _ _ sound follows.ids
    sentPlaced incomingUnsent foremost
  have member : (m.heap resting).entry ∈ restingView m.heap sent := by
    apply List.mem_filterMap.mpr
    refine ⟨resting, follows.book.wasSent _ resting foremost.queued, ?_⟩
    exact resting_entry_eq_some_iff.mpr
      ⟨foremost.live, sound.book.unfilled _ resting foremost.queued foremost.live, rfl⟩
  have restingSent := follows.book.wasSent _ resting foremost.queued
  constructor
  · exact trade_sound sound unfilled foremost
  · intro o placed
    rw [(trade_terms clock incoming resting tickSeq tRecvNs m o).id]
    exact follows.ids o placed
  · exact trade_follows sound follows.book incomingUnsent foremost
  · rw [trade_heap_incoming _ _ _ _ _ _ distinct, fill_by_state]
    split_ifs <;> simp
  · intro o notSent other
    have apart : ¬ (o = incoming ∨ o = resting) := by
      rintro (own | same)
      · exact other own
      · exact notSent (same ▸ restingSent)
    rw [trade_heap _ _ _ _ _ _ distinct, if_neg apart]
    exact follows.frame o notSent other
  · intro o other alive
    apply follows.dies o other
    rw [Heap.live, trade_heap _ _ _ _ _ _ distinct] at alive
    split_ifs at alive with side
    · rw [side.resolve_left other]
      exact foremost.live
    · exact alive
  · obtain ⟨rounds, added, log, enough, outcomeEq⟩ := follows.progress
    have some := List.length_pos_of_mem member
    obtain ⟨rest, rfl⟩ : ∃ rest, rounds = rest + 1 := by
      apply Nat.exists_eq_succ_of_ne_zero
      rcases enough with enough | filled
      · omega
      · omega
    rw [sweep_trade sound follows.ids follows.book sentPlaced incomingUnsent unfilled foremost
      crossing] at outcomeEq
    refine ⟨rest, added ++ [tradeRecord clock incoming resting tickSeq tRecvNs m], ?_, ?_, ?_⟩
    · rw [trade_log _ _ _ _ _ _ distinct, log, List.append_assoc]
    · -- a round uses up the incoming order or takes an order off the list
      rw [trade_heap_incoming _ _ _ _ _ _ distinct, fill_by_remaining, view]
      rcases min_choice (m.heap incoming).remaining (m.heap resting).remaining with own | all
      · right
        rw [tradeQty, own]
        omega
      · left
        have shorter := strike_length_lt member
        rw [tradeQty, all]
        have enough := enough.resolve_right (by omega)
        exact Nat.le_of_lt_succ (shorter.trans_le enough)
    · rw [outcomeEq, List.map_append, List.map_singleton, List.append_assoc,
        List.singleton_append]

/-- The loop of `submit` does what the reference's sweep does. -/
theorem match_loop_sweeps {allocated incoming : OrderPtr} {fuel : Nat}
    {m last : Matching Book PriceT} {sent : List OrderPtr}
    (ran : matchLoop clock incoming tickSeq tRecvNs fuel m = some last)
    (sound : LoopSound allocated m) (ids : IdsFollow m.heap allocated)
    (follows : BookFollows m.heap sent m.book) (sentPlaced : ∀ o ∈ sent, o < allocated)
    (incomingUnsent : incoming ∉ sent) (uncancelled : (m.heap incoming).state ≠ .cancelled) :
    ∃ outcome, SweepFollows sent allocated incoming m outcome last ∧
      ∃ added, last.log = m.log ++ added ∧
        Reference.sweep (restingView m.heap sent).length (m.heap incoming).entry
            (restingView m.heap sent) =
          (added.map Trade.fill, (last.heap incoming).entry, restingView last.heap sent) := by
  have start : SweepFollows sent allocated incoming m
      (Reference.sweep (restingView m.heap sent).length (m.heap incoming).entry
        (restingView m.heap sent)) m :=
    ⟨sound, ids, follows, uncancelled, fun _ _ _ => rfl, fun _ _ alive => alive,
      _, [], by simp, .inl le_rfl, rfl⟩
  obtain ⟨done, stopped⟩ := match_loop_rule (SweepFollows sent allocated incoming m _)
    (fun m current => ⟨pruned_sound current.sound _, current.ids, pruned_follows current.book _,
      current.uncancelled, current.frame, current.dies, current.progress⟩)
    (fun m resting current unfilled foremost crossing =>
      trade_sweep_follows current sentPlaced incomingUnsent unfilled foremost crossing)
    ran start
  obtain ⟨rounds, added, log, _, outcome⟩ := done.progress
  refine ⟨_, done, added, log, ?_⟩
  rw [outcome, sweep_stopped done.sound done.book stopped, List.append_nil]

end MatchingEngine

omit [LinearOrder PriceT] in
theorem live_of_unfilled {order : Order PriceT} (sound : OrderSound order)
    (uncancelled : order.state ≠ .cancelled) (unfilled : order.remaining > 0) :
    order.live = true := by
  cases state : order.state with
  | new => simp [Order.live, state]
  | partiallyFilled => simp [Order.live, state]
  | filled =>
      have full := sound.whenFilled state
      simp only [Order.remaining] at unfilled
      omega
  | cancelled => contradiction

/-- A placed order as the reference knows it. -/
def Order.placedEntry (order : Order PriceT) : Entry PriceT :=
  ⟨order.id, order.side, order.price, order.quantity⟩

/-- The desk, with the orders `sent` so far, refines the reference. -/
structure Refines (desk : Desk Book PriceT) (sent : List OrderPtr)
    (reference : Reference PriceT) : Prop where
  sound : DeskSound desk
  ordered : BookOrdered desk.heap desk.book
  book : BookFollows desk.heap sent desk.book
  sentPlaced : ∀ o ∈ sent, o < desk.allocated
  unsent : ∀ o < desk.allocated, o ∉ sent →
    (desk.heap o).filled = 0 ∧ ((desk.heap o).state = .new ∨ (desk.heap o).state = .cancelled)
  registered : ∀ o < desk.allocated, desk.heap.live o = true →
    ((desk.heap o).id, o) ∈ desk.oms.active
  placed : reference.placed = (List.range desk.allocated).map fun o => (desk.heap o).placedEntry
  resting : reference.resting = restingView desk.heap sent

/-- Orders that keep their terms and only die follow on. -/
theorem book_follows_mono {heap later : Heap PriceT} {sent : List OrderPtr} {book : Book}
    (follows : BookFollows heap sent book) (terms : ∀ o ∈ sent, SameTerms (heap o) (later o))
    (keeps : ∀ o ∈ sent, later.live o = true →
      heap.live o = true ∧ (later o).remaining = (heap o).remaining) :
    BookFollows later sent book where
  wasSent := follows.wasSent
  queued := by
    intro o inSent alive unfilled
    obtain ⟨was, same⟩ := keeps o inSent alive
    rw [(terms o inSent).side]
    exact follows.queued o inSent was (same ▸ unfilled)
  priority := by
    intro s
    apply (follows.priority s).imp_of_mem
    intro first second firstQueued secondQueued priority
    have firstPrice := (terms first (follows.wasSent s first firstQueued)).price
    have secondPrice := (terms second (follows.wasSent s second secondQueued)).price
    simpa only [Priority, firstPrice, secondPrice] using priority

section Sent

variable {heap : Heap PriceT} {sent : List OrderPtr} {book : Book} {o : OrderPtr}

omit [BookT Book PriceT] [LawfulBook Book] in
theorem priority_append {s : Side} {first second : OrderPtr} (firstSent : first ∈ sent)
    (secondSent : second ∈ sent) (priority : Priority heap sent s first second) :
    Priority heap (sent ++ [o]) s first second := by
  rcases priority with better | ⟨same, before⟩
  · exact .inl better
  · right
    rw [List.idxOf_append_of_mem firstSent, List.idxOf_append_of_mem secondSent]
    exact ⟨same, before⟩

theorem append_priority (follows : BookFollows heap sent book) (s : Side) :
    (queuedOn book s).Pairwise (Priority heap (sent ++ [o]) s) :=
  (follows.priority s).imp_of_mem fun firstQueued secondQueued =>
    priority_append (follows.wasSent s _ firstQueued) (follows.wasSent s _ secondQueued)

/-- A submitted order with nothing left is not queued. -/
theorem skip_follows (follows : BookFollows heap sent book) (filled : ¬ 0 < (heap o).remaining) :
    BookFollows heap (sent ++ [o]) book where
  wasSent := fun s other member => List.mem_append_left _ (follows.wasSent s other member)
  queued := by
    intro other inSent alive unfilled
    rcases List.mem_append.mp inSent with old | new
    · exact follows.queued other old alive unfilled
    · rw [List.mem_singleton.mp new] at unfilled
      contradiction
  priority := append_priority follows

/-- A remainder is queued behind everything submitted earlier at its price. -/
theorem add_follows [PriceOrdered Book] (follows : BookFollows heap sent book)
    (ordered : BookOrdered heap book) (unsent : o ∉ sent) :
    BookFollows heap (sent ++ [o]) (BookT.add heap o book) where
  wasSent := by
    intro s other member
    rcases (mem_queued_on_add o other s).mp member with ⟨_, same⟩ | old
    · rw [same]
      simp
    · exact List.mem_append_left _ (follows.wasSent s other old)
  queued := by
    intro other inSent alive unfilled
    apply (mem_queued_on_add o other _).mpr
    rcases List.mem_append.mp inSent with old | new
    · exact .inr (follows.queued other old alive unfilled)
    · rw [List.mem_singleton.mp new]
      exact .inl ⟨rfl, rfl⟩
  priority := by
    intro s
    have priority := @append_priority _ _ _ _ _ _ _ _ o follows s
    rw [queuedOn, LawfulBook.levels_add, PriceOrdered.ahead_eq]
    split_ifs
    · refine pairwise_push_back (PriceOrdered.key_order s) ?_ rfl (ordered.sorted s)
        (ordered.keyed s) ?_ priority
      · exact fun first second better => .inl better
      · intro other member same
        have old := follows.wasSent s other member
        have bound := List.idxOf_lt_length_iff.mpr old
        right
        rw [List.idxOf_append_of_mem old, List.idxOf_append_of_notMem unsent]
        exact ⟨same, by omega⟩
    · exact priority

end Sent

namespace Desk

section Steps

variable [PriceOrdered Book] {desk : Desk Book PriceT} {sent : List OrderPtr} {reference : Reference PriceT}

omit [PriceOrdered Book] in
theorem initial_refines [Inhabited PriceT] :
    Refines (initial : Desk Book PriceT) [] Reference.initial where
  sound := initial_sound
  ordered := empty_book_ordered
  book := by
    constructor
    · intro s o member
      simp [initial, queuedOn, LawfulBook.levels_empty_book] at member
    · intro o inSent
      contradiction
    · intro s
      simp [initial, queuedOn, LawfulBook.levels_empty_book]
  sentPlaced := fun o inSent => absurd inSent List.not_mem_nil
  unsent := fun o inHeap => absurd inHeap (Nat.not_lt_zero o)
  registered := fun o inHeap => absurd inHeap (Nat.not_lt_zero o)
  placed := rfl
  resting := rfl

theorem place_refines (refines : Refines desk sent reference) (symbol : String) (price : PriceT)
    (qty : Int) (s : Side) :
    Refines (desk.place symbol price qty s).1 sent { reference with
      placed := reference.placed ++ [⟨reference.placed.length + 1, s, price, qty⟩] } := by
  have sound := refines.sound
  have old : ∀ o < desk.allocated, (desk.place symbol price qty s).1.heap o = desk.heap o :=
    fun o inHeap => desk.place_heap_old symbol price qty s inHeap
  have fresh := desk.place_heap_new symbol price qty s
  have cases : ∀ o < (desk.place symbol price qty s).1.allocated,
      o < desk.allocated ∨ o = desk.allocated :=
    fun o inHeap => Nat.lt_succ_iff_lt_or_eq.mp inHeap
  have ran : desk.step (fun _ => 0) (.place symbol price qty s) =
      some ((desk.place symbol price qty s).1, _) := rfl
  constructor
  · exact place_sound sound symbol price qty s
  · exact step_ordered sound refines.ordered ran
  · apply book_follows_mono refines.book
    · intro o inSent
      rw [old o (refines.sentPlaced o inSent)]
      exact same_terms_refl _
    · intro o inSent alive
      rw [Heap.live, old o (refines.sentPlaced o inSent)] at alive
      rw [old o (refines.sentPlaced o inSent)]
      exact ⟨alive, rfl⟩
  · exact fun o inSent => (refines.sentPlaced o inSent).trans (Nat.lt_succ_self _)
  · intro o inHeap notSent
    rcases cases o inHeap with before | new
    · rw [old o before]
      exact refines.unsent o before notSent
    · rw [new, fresh]
      exact ⟨rfl, .inl rfl⟩
  · intro o inHeap alive
    rcases cases o inHeap with before | new
    · rw [Heap.live, old o before] at alive
      rw [old o before]
      apply List.mem_cons_of_mem
      apply List.mem_filter.mpr
      refine ⟨refines.registered o before alive, ?_⟩
      have below := id_le_allocated sound.ids before
      have next := sound.nextId
      rw [bne_iff_ne]
      dsimp only
      omega
    · rw [new, fresh]
      exact List.mem_cons_self
  · have length : reference.placed.length = desk.allocated := by
      rw [refines.placed, List.length_map, List.length_range]
    have same : (List.range desk.allocated).map (fun o => (desk.heap o).placedEntry) =
        (List.range desk.allocated).map
          (fun o => ((desk.place symbol price qty s).1.heap o).placedEntry) := by
      apply List.map_congr_left
      intro o inRange
      rw [old o (List.mem_range.mp inRange)]
    have allocated : (desk.place symbol price qty s).1.allocated = desk.allocated + 1 := rfl
    rw [allocated, List.range_succ, List.map_append, List.map_singleton, fresh, ← same,
      ← refines.placed, length]
    simp only [Order.placedEntry, Order.make, sound.nextId]
  · rw [refines.resting]
    apply List.filterMap_congr
    intro o inSent
    exact (resting_entry_congr (old o (refines.sentPlaced o inSent))).symm

omit [PriceOrdered Book] in
/-- While it is live an order can be cancelled by its id, whether or not it is
queued. -/
theorem cancel_heap (refines : Refines desk sent reference) (id : Int) {o : OrderPtr}
    (inHeap : o < desk.allocated) :
    (desk.cancel id).1.heap o =
      if (desk.heap o).id = id ∧ desk.heap.live o = true then (desk.heap o).markCancelled
      else desk.heap o := by
  have sound := refines.sound
  unfold cancel
  cases found : desk.oms.find id with
  | none =>
      rw [if_neg]
      rintro ⟨same, alive⟩
      exact OrderManager.find_eq_none_iff.mp found _ (refines.registered o inHeap alive) same
  | some target =>
      obtain ⟨targetPlaced, own⟩ := sound.active _ (OrderManager.mem_of_find found)
      have hit : (desk.heap o).id = id ↔ o = target := by
        rw [← id_eq_iff sound.ids inHeap targetPlaced, sound.ids target targetPlaced]
        exact own ▸ Iff.rfl
      cases alive : desk.heap.live target with
      | false =>
          rw [if_neg]
          · simp [alive]
          · rintro ⟨same, live⟩
            rw [hit.mp same, alive] at live
            contradiction
      | true =>
          by_cases same : o = target
          · rw [if_pos ⟨hit.mpr same, same ▸ alive⟩]
            simp [alive, same]
          · rw [if_neg (fun contrary => same (hit.mp contrary.1))]
            simp [alive, Heap.modify_of_ne _ _ same]

omit [PriceOrdered Book] in
/-- Cancelling strikes the order's entry off the reference's list. -/
theorem resting_view_cancel (refines : Refines desk sent reference) (id : Int) :
    restingView (desk.cancel id).1.heap sent =
      (restingView desk.heap sent).filter fun entry => entry.id != id := by
  rw [restingView, restingView, List.filter_filterMap]
  apply List.filterMap_congr
  intro o inSent
  have heap := cancel_heap refines id (refines.sentPlaced o inSent)
  by_cases hit : (desk.heap o).id = id ∧ desk.heap.live o = true
  · have dead : restingEntry (desk.cancel id).1.heap o = none := by
      rw [if_pos hit] at heap
      unfold restingEntry
      rw [if_neg]
      simp [Heap.live, heap, Order.live, Order.markCancelled]
    rw [dead, eq_comm, Option.filter_eq_none_iff]
    intro entry seen
    obtain ⟨_, _, own⟩ := resting_entry_eq_some_iff.mp seen
    simp [own, Order.entry, hit.1]
  · rw [if_neg hit] at heap
    rw [resting_entry_congr heap]
    cases seen : restingEntry desk.heap o with
    | none => rfl
    | some entry =>
        obtain ⟨alive, _, own⟩ := resting_entry_eq_some_iff.mp seen
        have other : (entry.id != id) = true := by
          rw [own, bne_iff_ne]
          exact fun contrary => hit ⟨contrary, alive⟩
        rw [Option.filter_some, if_pos other]

theorem cancel_refines (refines : Refines desk sent reference) (id : Int) :
    Refines (desk.cancel id).1 sent { reference with
      resting := reference.resting.filter fun entry => entry.id != id } := by
  have sound := refines.sound
  have ran : desk.step (fun _ => 0) (.cancel id) = some ((desk.cancel id).1, _) := rfl
  have allocated : (desk.cancel id).1.allocated = desk.allocated := by rw [desk.cancel_frame id]
  have active : (desk.cancel id).1.oms = desk.oms := by rw [desk.cancel_frame id]
  have book : (desk.cancel id).1.book = desk.book := by rw [desk.cancel_frame id]
  have terms : ∀ o < desk.allocated, SameTerms (desk.heap o) ((desk.cancel id).1.heap o) := by
    intro o inHeap
    rw [cancel_heap refines id inHeap]
    split_ifs
    · exact mark_cancelled_terms _
    · exact same_terms_refl _
  have survives : ∀ o < desk.allocated, (desk.cancel id).1.heap.live o = true →
      (desk.heap o).id ≠ id ∧ desk.heap.live o = true ∧
        (desk.cancel id).1.heap o = desk.heap o := by
    intro o inHeap alive
    rw [Heap.live] at alive
    rw [cancel_heap refines id inHeap] at alive ⊢
    split_ifs at alive ⊢ with hit
    · simp [Order.live, Order.markCancelled] at alive
    · exact ⟨fun same => hit ⟨same, alive⟩, alive, rfl⟩
  constructor
  · exact cancel_desk_sound sound id
  · exact step_ordered sound refines.ordered ran
  · rw [book]
    apply book_follows_mono refines.book
    · exact fun o inSent => terms o (refines.sentPlaced o inSent)
    · intro o inSent alive
      obtain ⟨_, was, same⟩ := survives o (refines.sentPlaced o inSent) alive
      exact ⟨was, by rw [same]⟩
  · rw [allocated]
    exact refines.sentPlaced
  · rw [allocated]
    intro o inHeap notSent
    obtain ⟨filled, state⟩ := refines.unsent o inHeap notSent
    rw [cancel_heap refines id inHeap]
    split_ifs
    · exact ⟨filled, .inr rfl⟩
    · exact ⟨filled, state⟩
  · rw [allocated, active]
    intro o inHeap alive
    obtain ⟨_, was, same⟩ := survives o inHeap alive
    rw [same]
    exact refines.registered o inHeap was
  · rw [allocated, refines.placed]
    apply List.map_congr_left
    intro o inRange
    have kept := terms o (List.mem_range.mp inRange)
    simp only [Order.placedEntry, kept.id, kept.side, kept.price, kept.quantity]
  · rw [refines.resting]
    exact (resting_view_cancel refines id).symm

omit [PriceOrdered Book] in
theorem reap_refines (refines : Refines desk sent reference) :
    Refines desk.reap.1 sent reference where
  sound := reap_sound refines.sound
  ordered := refines.ordered
  book := refines.book
  sentPlaced := refines.sentPlaced
  unsent := refines.unsent
  registered := fun o inHeap alive =>
    List.mem_filter.mpr ⟨refines.registered o inHeap alive, alive⟩
  placed := refines.placed
  resting := refines.resting

/-- Submission of an order that has neither been submitted nor cancelled. -/
theorem submit_refines {clock : Nat → Int} {next : Desk Book PriceT} {incoming : OrderPtr}
    {tickSeq : UInt64} {tRecvNs trades : Int} (refines : Refines desk sent reference)
    (placed : incoming < desk.allocated) (unsent : incoming ∉ sent)
    (uncancelled : (desk.heap incoming).state ≠ .cancelled)
    (ran : submit clock desk incoming tickSeq tRecvNs = some (next, trades)) :
    ∃ order added, reference.placed[incoming]? = some order ∧ next.log = desk.log ++ added ∧
      (Reference.submit order reference.resting).1 = added.map Trade.fill ∧
      Refines next (sent ++ [incoming])
        { reference with resting := (Reference.submit order reference.resting).2 } := by
  have sound := refines.sound
  have nextSound := submit_sound sound placed ran
  have ranStep : desk.step clock (.submit incoming tickSeq tRecvNs) =
      some (next, ⟨.submitted trades, next.log.drop desk.log.length⟩) := by
    simp only [step, ran]
  have nextOrdered := step_ordered sound refines.ordered ranStep
  obtain ⟨filled, state⟩ := refines.unsent incoming placed unsent
  have fresh := state.resolve_right uncancelled
  obtain ⟨m, looped, _, rfl⟩ := submit_cases ran
  obtain ⟨_, follows, added, log, sweeps⟩ := match_loop_sweeps looped (submit_enters sound)
    sound.ids refines.book refines.sentPlaced unsent uncancelled
  have loopOrdered := match_loop_ordered looped (submit_enters sound) refines.ordered
  have terms := match_loop_terms looped
  have entry : (desk.heap incoming).placedEntry = (desk.heap incoming).entry := by
    simp [Order.placedEntry, Order.entry, Order.remaining, filled]
  refine ⟨(desk.heap incoming).entry, added, ?_, log, ?_, ?_⟩
  · rw [refines.placed, List.getElem?_map, List.getElem?_range placed, ← entry]
    rfl
  · rw [Reference.submit, refines.resting, sweeps]
  · constructor
    · exact nextSound
    · exact nextOrdered
    · dsimp only
      split_ifs with unfilled
      · exact add_follows follows.book loopOrdered unsent
      · exact skip_follows follows.book unfilled
    · intro o inSent
      rcases List.mem_append.mp inSent with old | new
      · exact refines.sentPlaced o old
      · exact List.mem_singleton.mp new ▸ placed
    · intro o inHeap notSent
      rw [List.mem_append, List.mem_singleton, not_or] at notSent
      dsimp only
      rw [follows.frame o notSent.1 notSent.2]
      exact refines.unsent o inHeap notSent.1
    · intro o inHeap alive
      dsimp only at alive ⊢
      rw [(terms o).id]
      apply refines.registered o inHeap
      by_cases own : o = incoming
      · rw [own]
        simp [Heap.live, Order.live, fresh]
      · exact follows.dies o own alive
    · rw [refines.placed]
      apply List.map_congr_left
      intro o _
      simp only [Order.placedEntry, (terms o).id, (terms o).side, (terms o).price,
        (terms o).quantity]
    · have alive : (m.heap incoming).remaining > 0 → m.heap.live incoming = true :=
        live_of_unfilled (follows.sound.orders incoming placed) follows.uncancelled
      have left : (m.heap incoming).entry.remaining = (m.heap incoming).remaining := rfl
      rw [resting_view_append _ _ alive]
      simp only [Reference.submit, refines.resting, sweeps, left]
      split_ifs
      · rfl
      · rw [List.append_nil]

end Steps

end Desk

namespace Desk

/-- The trades of one operation, as the reference describes them. -/
def fills (reply : Reply PriceT) : List (Fill PriceT) := reply.logged.map Trade.fill

variable [PriceOrdered Book]

theorem step_refines {clock : Nat → Int} {desk next : Desk Book PriceT} {sent : List OrderPtr}
    {reference : Reference PriceT} {op : Op PriceT} {reply : Reply PriceT}
    (refines : Refines desk sent reference)
    (allowed : ∀ incoming tickSeq tRecvNs, op = .submit incoming tickSeq tRecvNs →
      incoming < desk.allocated ∧ incoming ∉ sent ∧ (desk.heap incoming).state ≠ .cancelled)
    (ran : desk.step clock op = some (next, reply)) :
    ∃ image, reference.step op = some (image, fills reply) ∧
      Refines next (sent ++ op.submits.toList) image := by
  cases step_effect ran with
  | place symbol price qty s state shows =>
      rw [state, shows]
      refine ⟨_, rfl, ?_⟩
      simp only [Op.submits, Option.toList_none, List.append_nil]
      exact place_refines refines symbol price qty s
  | submit incoming tickSeq tRecvNs trades submits shows =>
      obtain ⟨placed, unsent, uncancelled⟩ := allowed incoming tickSeq tRecvNs rfl
      obtain ⟨order, added, found, log, matched, refinesNext⟩ :=
        submit_refines refines placed unsent uncancelled submits
      refine ⟨_, ?_, refinesNext⟩
      simp only [Reference.step, found, shows, fills, log, List.drop_left, ← matched]
  | cancel id state shows =>
      rw [state, shows]
      refine ⟨_, rfl, ?_⟩
      simp only [Op.submits, Option.toList_none, List.append_nil]
      exact cancel_refines refines id
  | reap state shows =>
      rw [state, shows]
      refine ⟨_, rfl, ?_⟩
      simp only [Op.submits, Option.toList_none, List.append_nil]
      exact reap_refines refines

/-- Every run refines a run of the reference on the same operations. -/
theorem reachable_refines [Inhabited PriceT] {clock : Nat → Int}
    {config : Config (Desk (OrderBook PriceT) PriceT) (Op PriceT) (Reply PriceT)}
    (reached : Reachable (step clock) submitOnceUncancelled initial config) :
    ∃ mirror, Reachable Reference.step (fun _ _ => True) Reference.initial mirror ∧
      mirror.ops = config.ops ∧ mirror.observations = config.observations.map fills ∧
        Refines config.state (submitted config) mirror.state := by
  refine reachable_simulation (fun config mirror => mirror.ops = config.ops ∧
    mirror.observations = config.observations.map fills ∧
    Refines config.state (submitted config) mirror.state) ?_ ?_ reached
  · exact ⟨rfl, rfl, initial_refines⟩
  · intro config mirror op next reply ⟨ops, shows, refines⟩ permitted ran
    have allowed : ∀ incoming tickSeq tRecvNs, op = .submit incoming tickSeq tRecvNs →
        incoming < config.state.allocated ∧ incoming ∉ submitted config ∧
          (config.state.heap incoming).state ≠ .cancelled := by
      rintro incoming tickSeq tRecvNs rfl
      exact permitted
    obtain ⟨image, ranReference, refinesNext⟩ := step_refines refines allowed ran
    refine ⟨image, _, trivial, ranReference, ?_, ?_, ?_⟩
    · rw [Config.push_ops, Config.push_ops, ops]
    · rw [Config.push_observations, Config.push_observations, List.map_append, shows,
        List.map_singleton]
    · rw [submitted_push]
      exact refinesNext

/-- Price-time priority: every run logs, submission by submission, the trades
of the reference engine on the same operations, and no operation gets stuck. -/
theorem price_time_priority [Inhabited PriceT] {clock : Nat → Int}
    {config : Config (Desk (OrderBook PriceT) PriceT) (Op PriceT) (Reply PriceT)}
    (reached : Reachable (step clock) submitOnceUncancelled initial config) :
    (∃ mirror, execute Reference.step (fun _ _ => True) (.start Reference.initial) config.ops =
        some mirror ∧ mirror.observations = config.observations.map fills) ∧
      ∀ op, ∃ next reply, config.state.step clock op = some (next, reply) := by
  obtain ⟨mirror, mirrorReached, ops, shows, refines⟩ := reachable_refines reached
  refine ⟨⟨mirror, ?_, shows⟩, step_completes refines.sound⟩
  rw [← ops]
  exact execute_of_reachable mirrorReached

theorem price_time_priority_sample :
    ∃ config : Config (Desk (OrderBook Int) Int) (Op Int) (Reply Int),
      execute (step fun n => n) submitOnceUncancelled (.start initial) sampleOps = some config ∧
        (∃ mirror, execute Reference.step (fun _ _ => True) (.start Reference.initial) sampleOps =
          some mirror ∧ mirror.observations = config.observations.map fills) ∧
        (config.observations.map fills).flatten = [⟨3, 2, 100, 3⟩, ⟨4, 2, 100, 1⟩, ⟨4, 5, 102, 5⟩] := by
  have runs : (execute (step fun n => n) submitOnceUncancelled
      (.start (initial : Desk (OrderBook Int) Int)) sampleOps).any (fun config =>
        decide (config.ops = sampleOps) &&
          decide ((config.observations.map fills).flatten =
            [⟨3, 2, 100, 3⟩, ⟨4, 2, 100, 1⟩, ⟨4, 5, 102, 5⟩])) = true := by
    decide
  obtain ⟨config, ran, checked⟩ := (Option.any_eq_true _ _).mp runs
  simp only [Bool.and_eq_true, decide_eq_true_eq] at checked
  have follows := (price_time_priority (reachable_of_execute ran)).1
  rw [checked.1] at follows
  exact ⟨config, ran, follows, checked.2⟩

end Desk

end Finm327.Phase4
