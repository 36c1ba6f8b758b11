import Finm327.Phase4.DeskInvariant

/-!
# Interchangeable books

A map between two kinds of books that every template member respects carries a
run over one book to a run over the other, with the same replies up to the
clock readings of the log. `flatten` is such a map from `OrderBook` to
`FlatOrderBook`: when prices are linearly ordered, a `std::map` and a sorted
vector of levels differ in nothing the engine can see.
-/

namespace Finm327.Phase4

open Finm327.Library
open Finm327.Library.LevelQueues
open Finm327.Library.Runs
open MatchingEngine

universe u v

variable {PriceT : Type u} {Book Other : Type v}

/-- A trade without its clock reading. -/
def Trade.untimed (tr : Trade PriceT) : Trade PriceT := { tr with ns := 0 }

/-- A reply without clock readings: the result and (buy_id, sell_id, symbol,
price, quantity, seq) of every trade logged. -/
def Reply.untimed (reply : Reply PriceT) : Reply PriceT :=
  { reply with logged := reply.logged.map Trade.untimed }

/-- `image` commutes with everything the engine does to a book. -/
structure Renders [BookT Book PriceT] [BookT Other PriceT] (image : Book → Other) : Prop where
  emptyBook : image BookT.emptyBook = BookT.emptyBook
  add : ∀ (heap : Heap PriceT) (o : OrderPtr) (book : Book),
    image (BookT.add heap o book) = BookT.add heap o (image book)
  pruneFront : ∀ (heap : Heap PriceT) (s : Side) (book : Book),
    image (BookT.pruneFront heap s book) = BookT.pruneFront heap s (image book)
  popBest : ∀ (s : Side) (book : Book), image (BookT.popBest s book) = BookT.popBest s (image book)
  empty : ∀ (book : Book) (s : Side), BookT.empty (image book) s = BookT.empty book s
  best : ∀ (book : Book) (s : Side), BookT.best (image book) s = BookT.best book s
  depth : ∀ (book : Book) (s : Side), BookT.depth (image book) s = BookT.depth book s

/-- The two desks differ in the kind of book and in clock readings only. -/
structure Mirrors (image : Book → Other) (desk : Desk Book PriceT) (mirror : Desk Other PriceT) :
    Prop where
  heap : mirror.heap = desk.heap
  allocated : mirror.allocated = desk.allocated
  oms : mirror.oms = desk.oms
  book : mirror.book = image desk.book
  log : mirror.log.map Trade.untimed = desk.log.map Trade.untimed

namespace MatchingEngine

variable [BookT Book PriceT] [BookT Other PriceT]

/-- The loop state over the other book, with its own log. -/
def Matching.render (image : Book → Other) (log : List (Trade PriceT)) (m : Matching Book PriceT) :
    Matching Other PriceT :=
  ⟨m.heap, image m.book, log, m.trades⟩

theorem trade_render {image : Book → Other} (renders : Renders image) (clock other : Nat → Int)
    (incoming resting : OrderPtr) (tickSeq : UInt64) (tRecvNs : Int) {m : Matching Book PriceT}
    {log : List (Trade PriceT)} (same : log.map Trade.untimed = m.log.map Trade.untimed) :
    ∃ grown, grown.map Trade.untimed =
        (trade clock incoming resting tickSeq tRecvNs m).log.map Trade.untimed ∧
      trade other incoming resting tickSeq tRecvNs (m.render image log) =
        (trade clock incoming resting tickSeq tRecvNs m).render image grown := by
  have book : (trade other incoming resting tickSeq tRecvNs (m.render image log)).book =
      image (trade clock incoming resting tickSeq tRecvNs m).book := by
    unfold trade
    dsimp only
    rw [apply_ite image, renders.popBest]
    rfl
  refine ⟨(trade other incoming resting tickSeq tRecvNs (m.render image log)).log, ?_, ?_⟩
  · simp only [trade, Matching.render, List.map_append, same]
    rfl
  · simp only [Matching.render] at book ⊢
    rw [← book]
    rfl

variable [LE PriceT] [DecidableLE PriceT]

theorem match_loop_render {image : Book → Other} (renders : Renders image) (clock other : Nat → Int)
    (incoming : OrderPtr) (tickSeq : UInt64) (tRecvNs : Int) (fuel : Nat)
    {m last : Matching Book PriceT} {log : List (Trade PriceT)}
    (same : log.map Trade.untimed = m.log.map Trade.untimed)
    (ran : matchLoop clock incoming tickSeq tRecvNs fuel m = some last) :
    ∃ grown, grown.map Trade.untimed = last.log.map Trade.untimed ∧
      matchLoop other incoming tickSeq tRecvNs fuel (m.render image log) =
        some (last.render image grown) := by
  induction fuel generalizing m log with
  | zero => simp [matchLoop] at ran
  | succ fuel ih =>
      simp only [matchLoop] at ran
      simp only [matchLoop, Matching.render, renders.empty, ← renders.pruneFront, renders.best]
      split_ifs at ran with enter drained
      · rw [if_pos enter, if_pos drained]
        rw [Option.some.injEq] at ran
        subst ran
        exact ⟨log, same, rfl⟩
      · rw [if_pos enter, if_neg drained]
        split at ran
        · contradiction
        · rename_i resting _
          split_ifs at ran with crossing
          · rw [if_pos crossing]
            obtain ⟨grown, grownSame, traded⟩ := @trade_render _ _ _ _ _ _ renders clock other
              incoming resting tickSeq tRecvNs
              ⟨m.heap, BookT.pruneFront m.heap (m.heap incoming).side.opp m.book, m.log, m.trades⟩
              log same
            simp only [Matching.render] at traded
            rw [traded]
            exact ih grownSame ran
          · rw [if_neg crossing]
            rw [Option.some.injEq] at ran
            subst ran
            exact ⟨log, same, rfl⟩
      · rw [if_neg enter]
        rw [Option.some.injEq] at ran
        subst ran
        exact ⟨log, same, rfl⟩

end MatchingEngine

namespace Desk

variable [BookT Book PriceT] [BookT Other PriceT] [LE PriceT] [DecidableLE PriceT]

theorem submit_mirrors {image : Book → Other} (renders : Renders image) {clock : Nat → Int}
    (other : Nat → Int) {desk next : Desk Book PriceT} {mirror : Desk Other PriceT}
    (mirrors : Mirrors image desk mirror) {incoming : OrderPtr} {tickSeq : UInt64}
    {tRecvNs trades : Int}
    (ran : submit clock desk incoming tickSeq tRecvNs = some (next, trades)) :
    ∃ mirrored, submit other mirror incoming tickSeq tRecvNs = some (mirrored, trades) ∧
      Mirrors image next mirrored := by
  obtain ⟨m, looped, rfl, rfl⟩ := submit_cases ran
  obtain ⟨grown, same, rendered⟩ := match_loop_render renders clock other incoming tickSeq tRecvNs
    _ mirrors.log looped
  refine ⟨{ mirror with
    heap := m.heap
    book := image (if (m.heap incoming).remaining > 0 then BookT.add m.heap incoming m.book
      else m.book)
    log := grown }, ?_, ⟨rfl, mirrors.allocated, mirrors.oms, rfl, same⟩⟩
  simp only [Matching.render] at rendered
  simp only [submit, mirrors.heap, mirrors.book, rendered, apply_ite image, renders.add]

omit [BookT Book PriceT] [BookT Other PriceT] [LE PriceT] [DecidableLE PriceT] in
theorem cancel_mirrors {image : Book → Other} {desk : Desk Book PriceT} {mirror : Desk Other PriceT}
    (mirrors : Mirrors image desk mirror) (id : Int) :
    (mirror.cancel id).2 = (desk.cancel id).2 ∧
      Mirrors image (desk.cancel id).1 (mirror.cancel id).1 := by
  simp only [cancel, mirrors.oms, mirrors.heap]
  cases found : desk.oms.find id with
  | none => exact ⟨rfl, mirrors⟩
  | some o =>
      dsimp only
      split_ifs
      · exact ⟨rfl, mirrors⟩
      · exact ⟨rfl, rfl, mirrors.allocated, rfl, mirrors.book, mirrors.log⟩

theorem step_mirrors {image : Book → Other} (renders : Renders image) {clock : Nat → Int}
    (other : Nat → Int) {desk next : Desk Book PriceT} {mirror : Desk Other PriceT}
    (mirrors : Mirrors image desk mirror) {op : Op PriceT} {reply : Reply PriceT}
    (ran : desk.step clock op = some (next, reply)) :
    ∃ mirrored shown, mirror.step other op = some (mirrored, shown) ∧
      shown.untimed = reply.untimed ∧ Mirrors image next mirrored := by
  cases step_effect ran with
  | place symbol price qty s state shows =>
      rw [state, shows]
      refine ⟨_, _, rfl, ?_, ?_⟩
      · simp only [place, mirrors.allocated]
      · constructor <;> simp only [place, mirrors.heap, mirrors.allocated, mirrors.oms,
          mirrors.book, mirrors.log]
  | submit incoming tickSeq tRecvNs trades submits shows =>
      obtain ⟨mirrored, ranOther, mirrorsNext⟩ := submit_mirrors renders other mirrors submits
      refine ⟨mirrored, ⟨.submitted trades, mirrored.log.drop mirror.log.length⟩, ?_, ?_,
        mirrorsNext⟩
      · simp only [step, ranOther]
      · have length : mirror.log.length = desk.log.length := by
          have lengths := congrArg List.length mirrors.log
          rwa [List.length_map, List.length_map] at lengths
        simp only [shows, Reply.untimed, List.map_drop, mirrorsNext.log, length]
  | cancel id state shows =>
      rw [state, shows]
      obtain ⟨same, mirrorsNext⟩ := cancel_mirrors mirrors id
      refine ⟨(mirror.cancel id).1, ⟨.cancelled (mirror.cancel id).2, []⟩, rfl, ?_, mirrorsNext⟩
      rw [same]
  | reap state shows =>
      rw [state, shows]
      refine ⟨_, _, rfl, ?_, ?_⟩
      · simp only [reap, mirrors.oms, mirrors.heap]
      · constructor <;> simp only [reap, mirrors.heap, mirrors.allocated, mirrors.oms,
          mirrors.book, mirrors.log]

/-- Every run over one book is, operation by operation, a run over the other. -/
theorem reachable_mirrors [Inhabited PriceT] {image : Book → Other} (renders : Renders image)
    {clock : Nat → Int} (other : Nat → Int)
    {config : Config (Desk Book PriceT) (Op PriceT) (Reply PriceT)}
    (reached : Reachable (step clock) submitPlaced initial config) :
    ∃ mirror, Reachable (step other) submitPlaced initial mirror ∧ mirror.ops = config.ops ∧
      mirror.observations.map Reply.untimed = config.observations.map Reply.untimed ∧
      Mirrors image config.state mirror.state := by
  refine reachable_simulation (fun config mirror => mirror.ops = config.ops ∧
    mirror.observations.map Reply.untimed = config.observations.map Reply.untimed ∧
    Mirrors image config.state mirror.state) ?_ ?_ reached
  · exact ⟨rfl, rfl, rfl, rfl, rfl, renders.emptyBook.symm, rfl⟩
  · intro config mirror op next reply ⟨ops, replies, mirrors⟩ permitted ran
    obtain ⟨mirrored, shown, ranOther, same, mirrorsNext⟩ :=
      step_mirrors renders other mirrors ran
    refine ⟨mirrored, shown, ?_, ranOther, ?_, ?_, mirrorsNext⟩
    · cases op with
      | submit incoming => exact permitted.trans_eq mirrors.allocated.symm
      | place => trivial
      | cancel => trivial
      | reap => trivial
    · rw [Config.push_ops, Config.push_ops, ops]
    · rw [Config.push_observations, Config.push_observations, List.map_append, List.map_append,
        replies, List.map_singleton, List.map_singleton, same]

end Desk

section Flatten

/-- The vectors of levels that hold the entries of the two maps. -/
def flatten (book : OrderBook PriceT) : FlatOrderBook PriceT := ⟨book.bids, book.asks⟩

variable [LinearOrder PriceT]

theorem map_push_back_eq (s : Side) (price : PriceT) (o : OrderPtr)
    (levels : List (Level PriceT OrderPtr)) :
    mapPushBack (betterPrice s) price o levels =
      pushBack (betterPrice s) (· == ·) price o levels := by
  apply push_back_congr
  intro a b notAhead
  rw [Bool.eq_iff_iff, (map_key_order s).same_iff a b notAhead,
    (flat_key_order s).same_iff a b notAhead]

theorem flatten_renders : Renders (flatten : OrderBook PriceT → FlatOrderBook PriceT) where
  emptyBook := rfl
  add := by
    intro heap o book
    simp only [flatten, BookT.add, OrderBook.add, FlatOrderBook.add]
    split_ifs
    · exact congrArg (FlatOrderBook.mk · book.asks) (map_push_back_eq .buy _ o book.bids)
    · exact congrArg (FlatOrderBook.mk book.bids) (map_push_back_eq .sell _ o book.asks)
  pruneFront := fun heap s book => by cases s <;> rfl
  popBest := fun s book => by cases s <;> rfl
  empty := fun book s => by cases s <;> rfl
  best := fun book s => by cases s <;> rfl
  depth := fun book s => by cases s <;> rfl

end Flatten

namespace Desk

variable [LinearOrder PriceT]

/-- What a caller can ask the two books for agrees on both sides. -/
structure BooksAgree (book : OrderBook PriceT) (flat : FlatOrderBook PriceT) : Prop where
  empty : ∀ s, BookT.empty flat s = BookT.empty book s
  depth : ∀ s, BookT.depth flat s = BookT.depth book s
  best : ∀ s, BookT.best flat s = BookT.best book s

/-- The same operations run to completion over the flat book, every reply is
the same, trades included, and after them the two books agree. -/
theorem books_interchangeable [Inhabited PriceT] {clock other : Nat → Int}
    {config : Config (Desk (OrderBook PriceT) PriceT) (Op PriceT) (Reply PriceT)}
    (reached : Reachable (step clock) submitPlaced initial config) :
    (∃ mirror : Config (Desk (FlatOrderBook PriceT) PriceT) (Op PriceT) (Reply PriceT),
        Reachable (step other) submitPlaced initial mirror ∧ mirror.ops = config.ops) ∧
      ∀ mirror : Config (Desk (FlatOrderBook PriceT) PriceT) (Op PriceT) (Reply PriceT),
        Reachable (step other) submitPlaced initial mirror → mirror.ops = config.ops →
          mirror.observations.map Reply.untimed = config.observations.map Reply.untimed ∧
            BooksAgree config.state.book mirror.state.book := by
  apply reachable_forall_of_exists
  obtain ⟨mirror, mirrorReached, ops, replies, mirrors⟩ :=
    reachable_mirrors flatten_renders other reached
  refine ⟨mirror, mirrorReached, ops, replies, ?_⟩
  rw [mirrors.book]
  exact ⟨flatten_renders.empty _, flatten_renders.depth _, flatten_renders.best _⟩

theorem books_interchangeable_sample :
    ∃ (config : Config (Desk (OrderBook Int) Int) (Op Int) (Reply Int))
      (mirror : Config (Desk (FlatOrderBook Int) Int) (Op Int) (Reply Int)),
      execute (step fun n => n) submitPlaced (.start initial) sampleOps = some config ∧
        Reachable (step fun n => 2 * n) submitPlaced initial mirror ∧ mirror.ops = config.ops ∧
        mirror.observations.map Reply.untimed = config.observations.map Reply.untimed ∧
        BooksAgree config.state.book mirror.state.book := by
  have completes : (execute (step fun n => n) submitPlaced
      (.start (initial : Desk (OrderBook Int) Int)) sampleOps).isSome = true := by
    decide
  obtain ⟨config, ran⟩ := Option.isSome_iff_exists.mp completes
  obtain ⟨⟨mirror, mirrorReached, ops⟩, agree⟩ :=
    @books_interchangeable Int _ _ (fun n => n) (fun n => 2 * n) config (reachable_of_execute ran)
  exact ⟨config, mirror, ran, mirrorReached, ops, agree mirror mirrorReached ops⟩

end Desk

end Finm327.Phase4
