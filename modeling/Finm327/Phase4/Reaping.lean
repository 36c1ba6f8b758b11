import Finm327.Phase4.Terminal

/-!
# Reaping does not change the trading

`reap` takes dead orders out of the manager's map, while the book may still hold them. Two
desks on the same operations, one of which also reaps, keep the same orders, queues and trades;
their managers differ in dead orders alone. A cancel of such an order fails on both: one does
not find it and the other finds it dead, and an order that is submitted before it is cancelled
never comes back to life.
-/

namespace Finm327.Phase4

open Finm327.Library.Runs
open MatchingEngine

universe u v

variable {PriceT : Type u} {Book : Type v}

def Op.reaps : Op PriceT → Bool
  | .reap => true
  | _ => false

/-- The second run does what the first does, with reaps in between. -/
structure SameTrading (plain reaped : Config (Desk Book PriceT) (Op PriceT) (Reply PriceT)) :
    Prop where
  heap : reaped.state.heap = plain.state.heap
  allocated : reaped.state.allocated = plain.state.allocated
  book : reaped.state.book = plain.state.book
  log : reaped.state.log = plain.state.log
  replies : reaped.history.filter (fun entry => !entry.1.reaps) = plain.history

theorem push_replies {plain reaped : Config (Desk Book PriceT) (Op PriceT) (Reply PriceT)}
    (replies : reaped.history.filter (fun entry => !entry.1.reaps) = plain.history)
    (op : Op PriceT) (desk image : Desk Book PriceT) (reply : Reply PriceT) :
    (op.reaps = false → (reaped.push op image reply).history.filter (fun entry =>
      !entry.1.reaps) = (plain.push op desk reply).history) ∧
    (op.reaps = true → (reaped.push op image reply).history.filter (fun entry =>
      !entry.1.reaps) = plain.history) := by
  unfold Config.push
  dsimp only
  rw [List.filter_append, replies, List.filter_cons, List.filter_nil]
  constructor
  · intro loud
    dsimp only
    rw [loud]
    rfl
  · intro quiet
    dsimp only
    rw [quiet]
    exact List.append_nil _

section OrderManager

variable {entries : List (Int × OrderPtr)} {id other : Int} {o : OrderPtr}

theorem lookup_cons_eq (entry : Int × OrderPtr) :
    (entry :: entries).lookup id = if id = entry.1 then some entry.2 else entries.lookup id := by
  by_cases own : id = entry.1
  · rw [if_pos own, own]
    exact List.lookup_cons_self
  · rw [if_neg own, List.lookup_cons, beq_eq_false_iff_ne.mpr own]

theorem lookup_filter_ne :
    (entries.filter (fun entry => entry.1 != id)).lookup other =
      if other = id then none else entries.lookup other := by
  induction entries with
  | nil => exact (ite_self none).symm
  | cons entry rest ih =>
      rw [lookup_cons_eq]
      by_cases own : entry.1 = id
      · rw [List.filter_cons_of_neg (by simp [own]), ih, own]
        by_cases same : other = id
        · rw [if_pos same, if_pos same]
        · rw [if_neg same, if_neg same, if_neg same]
      · rw [List.filter_cons_of_pos (by simp [own]), lookup_cons_eq, ih]
        by_cases here : other = entry.1
        · rw [if_pos here, if_pos here, if_neg (here ▸ own)]
        · rw [if_neg here, if_neg here]

theorem find_assign (oms : OrderManager) (nextId : Int) :
    (⟨oms.assign id o, nextId⟩ : OrderManager).find other =
      if other = id then some o else oms.find other := by
  unfold OrderManager.find OrderManager.assign
  rw [lookup_cons_eq, lookup_filter_ne]
  by_cases same : other = id
  · rw [if_pos same, if_pos same]
  · rw [if_neg same, if_neg same, if_neg same]

/-- With one object for each id, a filter on the objects can be applied to the result. -/
theorem lookup_filter_value {keep : OrderPtr → Bool} {keyOf : OrderPtr → Int}
    (injective : ∀ first second, keyOf first = keyOf second → first = second)
    (keyed : ∀ entry ∈ entries, entry.1 = keyOf entry.2) :
    (entries.filter (fun entry => keep entry.2)).lookup id =
      (entries.lookup id).filter keep := by
  induction entries with
  | nil => rfl
  | cons entry rest ih =>
      have restKeyed := fun other member => keyed other (List.mem_cons_of_mem entry member)
      have before := ih restKeyed
      rw [lookup_cons_eq]
      by_cases kept : keep entry.2 = true
      · rw [List.filter_cons, if_pos kept, lookup_cons_eq]
        by_cases here : id = entry.1
        · rw [if_pos here, if_pos here, Option.filter_some, if_pos kept]
        · rw [if_neg here, if_neg here, before]
      · rw [List.filter_cons, if_neg kept, before]
        by_cases here : id = entry.1
        · rw [if_pos here, Option.filter_some, if_neg kept]
          cases found : rest.lookup id with
          | none => rfl
          | some later =>
              obtain ⟨_, _, split, _⟩ := List.lookup_eq_some_iff.mp found
              have laterKey := restKeyed (id, later) (by simp [split])
              have ownKey := keyed entry List.mem_cons_self
              have same := injective entry.2 later ((ownKey.symm.trans here.symm).trans laterKey)
              rw [Option.filter_some, ← same, if_neg kept]
        · rw [if_neg here]

end OrderManager

variable [BookT Book PriceT] [LawfulBook Book]

namespace Desk

/-- The second desk has lost dead orders from its manager, and nothing else. -/
structure ReapedFrom (plain reaped : Desk Book PriceT) : Prop where
  sound : DeskSound plain
  reapedSound : DeskSound reaped
  heap : reaped.heap = plain.heap
  allocated : reaped.allocated = plain.allocated
  book : reaped.book = plain.book
  log : reaped.log = plain.log
  found : ∀ id, reaped.oms.find id = plain.oms.find id ∨
    reaped.oms.find id = none ∧ ∃ o, plain.oms.find id = some o ∧ plain.heap.live o = false

variable {plain reaped : Desk Book PriceT}

theorem ReapedFrom.next_id (related : ReapedFrom plain reaped) :
    reaped.oms.nextId = plain.oms.nextId := by
  rw [related.reapedSound.nextId, related.sound.nextId, related.allocated]

theorem place_reaped (related : ReapedFrom plain reaped) (symbol : String) (price : PriceT)
    (qty : Int) (s : Side) :
    (reaped.place symbol price qty s).2 = (plain.place symbol price qty s).2 ∧
      ReapedFrom (plain.place symbol price qty s).1 (reaped.place symbol price qty s).1 := by
  refine ⟨related.allocated, place_sound related.sound symbol price qty s,
    place_sound related.reapedSound symbol price qty s, ?_, ?_, related.book, related.log, ?_⟩
  · unfold place
    dsimp only
    rw [related.heap, related.allocated, related.next_id]
  · unfold place
    dsimp only
    rw [related.allocated]
  · intro id
    unfold place
    dsimp only
    rw [find_assign, find_assign, related.next_id, related.allocated]
    by_cases new : id = plain.oms.nextId
    · rw [if_pos new, if_pos new]
      exact .inl rfl
    · rw [if_neg new, if_neg new]
      cases related.found id with
      | inl same => exact .inl same
      | inr lost =>
          obtain ⟨missing, o, found, dead⟩ := lost
          have older := (related.sound.active _ (OrderManager.mem_of_find found)).1
          refine .inr ⟨missing, o, found, ?_⟩
          have kept := plain.place_heap_old symbol price qty s older
          unfold place at kept
          dsimp only at kept
          rw [Heap.live, kept]
          exact dead

omit [BookT Book PriceT] [LawfulBook Book] in
theorem cancel_of_live {desk : Desk Book PriceT} {id : Int} {o : OrderPtr}
    (found : desk.oms.find id = some o) (alive : desk.heap.live o = true) :
    desk.cancel id = ({ desk with heap := desk.heap.modify o Order.markCancelled }, true) := by
  unfold cancel
  rw [found]
  dsimp only
  rw [alive]
  rfl

omit [BookT Book PriceT] [LawfulBook Book] in
theorem cancel_of_dead {desk : Desk Book PriceT} {id : Int}
    (dead : ∀ o, desk.oms.find id = some o → desk.heap.live o = false) :
    desk.cancel id = (desk, false) := by
  unfold cancel
  cases found : desk.oms.find id with
  | none => rfl
  | some o =>
      dsimp only
      rw [dead o found]
      rfl

theorem cancel_reaped (related : ReapedFrom plain reaped) (id : Int) :
    (reaped.cancel id).2 = (plain.cancel id).2 ∧
      ReapedFrom (plain.cancel id).1 (reaped.cancel id).1 := by
  by_cases target : ∃ o, plain.oms.find id = some o ∧ plain.heap.live o = true
  · obtain ⟨o, found, alive⟩ := target
    have foundToo : reaped.oms.find id = some o := by
      cases related.found id with
      | inl same => rw [same, found]
      | inr lost =>
          obtain ⟨-, other, foundOther, dead⟩ := lost
          rw [found, Option.some.injEq] at foundOther
          rw [← foundOther, alive] at dead
          cases dead
    have aliveToo : reaped.heap.live o = true := by
      rw [related.heap]
      exact alive
    have sound := cancel_desk_sound related.sound id
    have reapedSound := cancel_desk_sound related.reapedSound id
    rw [cancel_of_live found alive] at sound ⊢
    rw [cancel_of_live foundToo aliveToo] at reapedSound ⊢
    refine ⟨rfl, sound, reapedSound, ?_, related.allocated, related.book, related.log, ?_⟩
    · dsimp only
      rw [related.heap]
    · intro other
      cases related.found other with
      | inl same => exact .inl same
      | inr lost =>
          obtain ⟨missing, own, foundOwn, dead⟩ := lost
          refine .inr ⟨missing, own, foundOwn, ?_⟩
          have different : own ≠ o := by
            intro equal
            rw [equal, alive] at dead
            cases dead
          dsimp only
          rw [Heap.live, Heap.modify_of_ne _ _ different]
          exact dead
  · have dead : ∀ o, plain.oms.find id = some o → plain.heap.live o = false := by
      intro o found
      rw [← Bool.not_eq_true]
      exact fun alive => target ⟨o, found, alive⟩
    have deadToo : ∀ o, reaped.oms.find id = some o → reaped.heap.live o = false := by
      intro o found
      rw [related.heap]
      cases related.found id with
      | inl same => exact dead o (same ▸ found)
      | inr lost =>
          rw [lost.1] at found
          cases found
    rw [cancel_of_dead dead, cancel_of_dead deadToo]
    exact ⟨rfl, related⟩

theorem reap_reaped (related : ReapedFrom plain reaped) : ReapedFrom plain reaped.reap.1 := by
  refine ⟨related.sound, reap_sound related.reapedSound, related.heap, related.allocated,
    related.book, related.log, ?_⟩
  intro id
  have read : reaped.reap.1.oms.find id = (reaped.oms.find id).filter reaped.heap.live :=
    @lookup_filter_value _ id reaped.heap.live (fun o => o + 1)
      (fun first second equal => Int.ofNat_inj.mp ((Int.add_left_inj 1).mp equal))
      (fun entry member => (related.reapedSound.active entry member).2)
  rw [read, related.heap]
  cases related.found id with
  | inr lost =>
      rw [lost.1]
      exact .inr ⟨rfl, lost.2⟩
  | inl same =>
      rw [same]
      cases found : plain.oms.find id with
      | none => exact .inl rfl
      | some o =>
          cases alive : plain.heap.live o with
          | true =>
              rw [Option.filter_some, if_pos alive]
              exact .inl rfl
          | false =>
              rw [Option.filter_some, if_neg (by rw [alive]; decide)]
              exact .inr ⟨rfl, o, rfl, alive⟩

variable [LE PriceT] [DecidableLE PriceT]

omit [LawfulBook Book] in
/-- A submission does not look at the manager. -/
theorem submit_congr {clock : Nat → Int} {desk other next : Desk Book PriceT} {incoming : OrderPtr}
    {tickSeq : UInt64} {tRecvNs trades : Int} (heap : other.heap = desk.heap)
    (book : other.book = desk.book) (log : other.log = desk.log)
    (ran : submit clock desk incoming tickSeq tRecvNs = some (next, trades)) :
    submit clock other incoming tickSeq tRecvNs =
      some ({ other with heap := next.heap, book := next.book, log := next.log }, trades) := by
  obtain ⟨m, looped, rfl, rfl⟩ := submit_cases ran
  unfold submit
  rw [heap, book, log, looped]

theorem submit_reaped {clock : Nat → Int} {next : Desk Book PriceT} {incoming : OrderPtr}
    {tickSeq : UInt64} {tRecvNs trades : Int} (related : ReapedFrom plain reaped)
    (placed : incoming < plain.allocated) (uncancelled : (plain.heap incoming).state ≠ .cancelled)
    (ran : submit clock plain incoming tickSeq tRecvNs = some (next, trades)) :
    ∃ image, submit clock reaped incoming tickSeq tRecvNs = some (image, trades) ∧
      ReapedFrom next image := by
  have copied := submit_congr related.heap related.book related.log ran
  refine ⟨_, copied, submit_sound related.sound placed ran,
    submit_sound related.reapedSound (related.allocated.symm ▸ placed) copied, rfl, ?_, rfl, rfl, ?_⟩
  · obtain ⟨m, -, -, state⟩ := submit_cases ran
    rw [state]
    exact related.allocated
  · have manager : next.oms = plain.oms := by
      obtain ⟨m, -, -, state⟩ := submit_cases ran
      rw [state]
    intro id
    rw [manager]
    cases related.found id with
    | inl same => exact .inl same
    | inr lost =>
        obtain ⟨missing, o, found, dead⟩ := lost
        refine .inr ⟨missing, o, found, ?_⟩
        have older := (related.sound.active _ (OrderManager.mem_of_find found)).1
        have closed := (closed_iff_not_live _).mpr dead
        have kept := submit_keeps_closed related.sound placed older closed
          (fun revived => uncancelled revived.1) ran
        rw [Order.Closed, ← kept.state] at closed
        exact (closed_iff_not_live _).mp closed

theorem related_step {clock : Nat → Int}
    {plain reaped : Config (Desk Book PriceT) (Op PriceT) (Reply PriceT)} {op : Op PriceT}
    {next : Desk Book PriceT} {reply : Reply PriceT}
    (related : ReapedFrom plain.state reaped.state) (loud : op.reaps = false)
    (allowed : ∀ incoming tickSeq tRecvNs, op = .submit incoming tickSeq tRecvNs →
      incoming < plain.state.allocated ∧ (plain.state.heap incoming).state ≠ .cancelled)
    (ran : plain.state.step clock op = some (next, reply)) :
    ∃ image, reaped.state.step clock op = some (image, reply) ∧ ReapedFrom next image := by
  cases step_effect ran with
  | place symbol price qty s state shows =>
      have both := place_reaped related symbol price qty s
      rw [state, shows, ← both.1]
      exact ⟨_, rfl, both.2⟩
  | submit incoming tickSeq tRecvNs trades submits shows =>
      have may := allowed incoming tickSeq tRecvNs rfl
      obtain ⟨image, submitsToo, relatedNext⟩ := submit_reaped related may.1 may.2 submits
      refine ⟨image, ?_, relatedNext⟩
      unfold step
      dsimp only
      rw [submitsToo, shows]
      dsimp only
      rw [relatedNext.log, related.log]
  | cancel id state shows =>
      have both := cancel_reaped related id
      rw [state, shows, ← both.1]
      exact ⟨_, rfl, both.2⟩
  | reap => cases loud

/-- What two runs have in common as one of them reaps. -/
structure RunTogether (plain reaped : Config (Desk Book PriceT) (Op PriceT) (Reply PriceT)) :
    Prop where
  desks : ReapedFrom plain.state reaped.state
  sent : submitted reaped = submitted plain
  replies : reaped.history.filter (fun entry => !entry.1.reaps) = plain.history

section RunTogether

variable {plain reaped : Config (Desk Book PriceT) (Op PriceT) (Reply PriceT)}
  (together : RunTogether plain reaped)
include together

omit [LE PriceT] [DecidableLE PriceT] in
theorem RunTogether.same_trading : SameTrading plain reaped :=
  ⟨together.desks.heap, together.desks.allocated, together.desks.book, together.desks.log,
    together.replies⟩

theorem follow_together {clock : Nat → Int} {op : Op PriceT} {next : Desk Book PriceT}
    {reply : Reply PriceT} (loud : op.reaps = false) (permitted : submitOnceUncancelled plain op)
    (ran : plain.state.step clock op = some (next, reply)) :
    ∃ image out, submitOnceUncancelled reaped op ∧
      reaped.state.step clock op = some (image, out) ∧
      RunTogether (plain.push op next reply) (reaped.push op image out) := by
  have allowed : ∀ incoming tickSeq tRecvNs, op = .submit incoming tickSeq tRecvNs →
      incoming < plain.state.allocated ∧ (plain.state.heap incoming).state ≠ .cancelled := by
    rintro incoming tickSeq tRecvNs rfl
    exact ⟨permitted.1, permitted.2.2⟩
  obtain ⟨image, ranToo, desks⟩ := related_step together.desks loud allowed ran
  refine ⟨image, reply, ?_, ranToo, desks, ?_, (push_replies together.replies op _ _ _).1 loud⟩
  · cases op with
    | submit incoming tickSeq tRecvNs =>
        unfold submitOnceUncancelled at permitted ⊢
        dsimp only at permitted ⊢
        rw [together.desks.heap, together.desks.allocated, together.sent]
        exact permitted
    | place => trivial
    | cancel => trivial
    | reap => trivial
  · rw [submitted_push, submitted_push, together.sent]

theorem reap_together {clock : Nat → Int} :
    ∃ image out, submitOnceUncancelled reaped .reap ∧
      reaped.state.step clock .reap = some (image, out) ∧
      RunTogether plain (reaped.push .reap image out) := by
  refine ⟨_, _, trivial, rfl, reap_reaped together.desks, ?_,
    (push_replies together.replies .reap reaped.state _ _).2 rfl⟩
  rw [submitted_push, together.sent]
  exact List.append_nil _

end RunTogether

/-- Reaps put into a run at any points change no trade, no reply to another operation, no order
and no queue, and the run with them goes through as the one without them does. -/
theorem reap_invisible [Inhabited PriceT] {clock : Nat → Int}
    {plain : Config (Desk Book PriceT) (Op PriceT) (Reply PriceT)}
    (reached : Reachable (step clock) submitOnceUncancelled initial plain) {ops : List (Op PriceT)}
    (inserted : ops.filter (fun op => !op.reaps) = plain.ops) :
    (∃ reaped : Config (Desk Book PriceT) (Op PriceT) (Reply PriceT),
      Reachable (step clock) submitOnceUncancelled initial reaped ∧ reaped.ops = ops) ∧
      ∀ reaped : Config (Desk Book PriceT) (Op PriceT) (Reply PriceT),
        Reachable (step clock) submitOnceUncancelled initial reaped → reaped.ops = ops →
          SameTrading plain reaped := by
  have start : ReapedFrom (initial : Desk Book PriceT) initial :=
    ⟨initial_sound, initial_sound, rfl, rfl, rfl, rfl, fun _ => .inl rfl⟩
  obtain ⟨reaped, reapedReached, own, together⟩ := reachable_stutter Op.reaps RunTogether
    ⟨start, rfl, rfl⟩
    (fun _ _ _ _ _ together loud permitted ran => follow_together together loud permitted ran)
    (fun _ _ op together quiet => by
      cases op with
      | reap => exact reap_together together
      | place => cases quiet
      | submit => cases quiet
      | cancel => cases quiet)
    reached inserted
  exact reachable_forall_of_exists ⟨reaped, reapedReached, own, together.same_trading⟩

/-- Two reaps around the cancel of an order the first of them has dropped. -/
def reapedOps : List (Op Int) :=
  [.place "AAPL" 101 10 .sell, .submit 0 1 0, .cancel 1, .reap, .cancel 1,
    .place "AAPL" 102 6 .buy, .reap, .submit 1 2 0]

theorem reap_invisible_sample :
    ∃ plain reaped : Config (Desk (OrderBook Int) Int) (Op Int) (Reply Int),
      Reachable (step fun n => n) submitOnceUncancelled initial plain ∧
        Reachable (step fun n => n) submitOnceUncancelled initial reaped ∧
        reaped.ops = reapedOps ∧ plain.ops = reapedOps.filter (fun op => !op.reaps) ∧
        SameTrading plain reaped := by
  have completes : (execute (step fun n => n) submitOnceUncancelled
      (.start (initial : Desk (OrderBook Int) Int))
      (reapedOps.filter (fun op => !op.reaps))).any (fun config =>
        decide (config.ops = reapedOps.filter (fun op => !op.reaps))) = true := by
    decide
  obtain ⟨plain, reached, own⟩ := reachable_of_execute_any completes
  obtain ⟨⟨reaped, reapedReached, reapedOwn⟩, same⟩ := reap_invisible reached own.symm
  exact ⟨plain, reaped, reached, reapedReached, reapedOwn, own,
    same reaped reapedReached reapedOwn⟩

end Desk

end Finm327.Phase4
