import Mathlib.Algebra.Order.Ring.Unbundled.Rat
import Finm327.Phase4.Interchangeable
import Finm327.Phase4.LogGrowth
import Finm327.Phase4.MarketData
import Finm327.Phase4.Termination
import Finm327.Phase4.Uncrossed

/-!
# The simulation

Transcribes `tick_to_order`, the loop of `run` and `main` of `phase4/src/main.cpp` with `flush` of
`TradeLogger.hpp`. Clock readings are an oracle; the latencies that `run` collects and prints
are left out. As in the feed, a `double` is a rational, and how a stream prints one is an
argument. The number of ticks and the count of trades are unbounded.
-/

namespace Finm327.Phase4

open Finm327.Library.Runs
open MatchingEngine

universe v

/-- The clock: of the trades, of the ticks, and `t_recv_ns`. -/
structure Readings where
  trade : Nat → Int
  stamp : Nat → Int
  recv : Nat → Int

/-- What the loop of `run` changes. -/
structure Simulation (Book : Type v) where
  feed : MarketDataFeed
  prng : UInt64
  desk : Desk Book ℚ
  trades : Int

variable {Book : Type v}

def tickToOrder (desk : Desk Book ℚ) (md : MarketData) (r : UInt64) : Desk Book ℚ × OrderPtr :=
  let aggressive := decide (r &&& 1 ≠ 0)
  let s : Side := if r &&& 2 ≠ 0 then .buy else .sell
  let qty : Int := 50 + ((r >>> 8) % 200).toNat
  let px := if aggressive then
      if s = .buy then md.askPrice + 2 / 100 else md.bidPrice - 2 / 100
    else
      if s = .buy then md.bidPrice - 1 / 100 else md.askPrice + 1 / 100
  desk.place md.symbol px qty s

/-- The three lines that advance `prng`. -/
def nextPrng (prng : UInt64) : UInt64 :=
  let prng := prng ^^^ (prng <<< 13)
  let prng := prng ^^^ (prng >>> 7)
  prng ^^^ (prng <<< 17)

/-- One row of the file. -/
def csvRow (priceText : ℚ → String) (t : Trade ℚ) : String :=
  toString t.seq ++ "," ++ t.symbol ++ "," ++ priceText t.price ++ "," ++ toString t.quantity ++
    "," ++ toString t.buyId ++ "," ++ toString t.sellId ++ "," ++ toString t.ns ++ "\n"

def flush (priceText : ℚ → String) (log : List (Trade ℚ)) : String :=
  String.join (log.map (csvRow priceText))

namespace Simulation

variable [BookT Book ℚ]

def initial : Simulation Book :=
  ⟨.make "AAPL" 150 (5 / 100) 0xCAFEBABE, 0x12345678, Desk.initial, 0⟩

def tick (readings : Readings) (i : Nat) (sim : Simulation Book) : Option (Simulation Book) :=
  let fed := MarketDataFeed.next (readings.stamp i) sim.feed
  let md := fed.1
  let prng := nextPrng sim.prng
  let placed := tickToOrder sim.desk md prng
  match submit readings.trade placed.1 placed.2 md.seq (readings.recv i) with
  | none => none
  | some (desk, trades) =>
      let desk := if i &&& 0x3FF = 0 then desk.reap.1 else desk
      some ⟨fed.2, prng, desk, sim.trades + trades⟩

/-- The loop of `run`. -/
def run (readings : Readings) : Nat → Option (Simulation Book)
  | 0 => some initial
  | numTicks + 1 => do tick readings numTicks (← run readings numTicks)

end Simulation

/-- The text that `main` leaves in `trades.csv`: the second run writes over the first. -/
def mainFile (priceText : ℚ → String) (first second : Readings) (N : Nat) : Option String := do
  let _mapBook ← (Simulation.run first N : Option (Simulation (OrderBook ℚ)))
  let flatBook ← (Simulation.run second N : Option (Simulation (FlatOrderBook ℚ)))
  return flush priceText flatBook.desk.log

/-! ## One submission -/

section Submission

variable {PriceT : Type} {Book : Type v} [BookT Book PriceT] [LawfulBook Book] [LE PriceT]
  [DecidableLE PriceT] {clock : Nat → Int} {tickSeq : UInt64} {tRecvNs : Int}

omit [LawfulBook Book] in
/-- Only the difference of a clock reading and `t_recv_ns` is logged. -/
theorem match_loop_shift (incoming : OrderPtr) (shift : Int) (fuel : Nat)
    (m : Matching Book PriceT) :
    matchLoop clock incoming tickSeq (tRecvNs + shift) fuel m =
      matchLoop (fun n => clock n - shift) incoming tickSeq tRecvNs fuel m := by
  have trades : ∀ resting (m : Matching Book PriceT),
      trade clock incoming resting tickSeq (tRecvNs + shift) m =
        trade (fun n => clock n - shift) incoming resting tickSeq tRecvNs m := by
    intro resting m
    have difference : clock m.log.length - (tRecvNs + shift) =
        clock m.log.length - shift - tRecvNs := by
      omega
    unfold trade
    dsimp only
    rw [difference]
  induction fuel generalizing m with
  | zero => rfl
  | succ fuel ih => simp only [matchLoop, trades, ih]

omit [LawfulBook Book] in
theorem submit_shift (desk : Desk Book PriceT) (incoming : OrderPtr) (other : Int) :
    submit clock desk incoming tickSeq other =
      submit (fun n => clock n - (other - tRecvNs)) desk incoming tickSeq tRecvNs := by
  have split : other = tRecvNs + (other - tRecvNs) := by omega
  unfold submit
  rw [← match_loop_shift, ← split]

/-- The record of a trade in which the newer order is the given one. -/
structure TakerRecord (id : Int) (tickSeq : UInt64) (tr : Trade PriceT) : Prop where
  taker : max tr.buyId tr.sellId = id
  seq : tr.seq = tickSeq

omit [LE PriceT] [DecidableLE PriceT] in
theorem trade_record_taker {allocated incoming resting : OrderPtr} {m : Matching Book PriceT}
    (sound : LoopSound allocated m) (ids : IdsFollow m.heap allocated)
    (newest : incoming + 1 = allocated)
    (foremost : Foremost m (m.heap incoming).side.opp resting) :
    TakerRecord allocated tickSeq (tradeRecord clock incoming resting tickSeq tRecvNs m) := by
  have own := ids incoming (newest ▸ Nat.lt_succ_self incoming)
  have other := ids resting (sound.book.placed _ resting foremost.queued)
  have last : (incoming : Int) + 1 = allocated := by exact_mod_cast newest
  have older : (resting : Int) + 1 ≤ allocated :=
    by exact_mod_cast sound.book.placed _ resting foremost.queued
  constructor
  · unfold tradeRecord
    cases side : (m.heap incoming).side with
    | buy =>
        simp only [own, other, if_true, reduceCtorEq, if_false]
        omega
    | sell =>
        simp only [own, other, if_true, reduceCtorEq, if_false]
        omega
  · rfl

/-- Every trade of a submission of the newest order has it as its newer party. -/
theorem submit_newest {desk next : Desk Book PriceT} {incoming : OrderPtr} {trades : Int}
    (sound : DeskSound desk) (newest : incoming + 1 = desk.allocated)
    (ran : submit clock desk incoming tickSeq tRecvNs = some (next, trades)) :
    ∃ tail, next.log = desk.log ++ tail ∧
      ∀ tr ∈ tail, TakerRecord desk.allocated tickSeq tr := by
  obtain ⟨m, looped, rfl, rfl⟩ := Desk.submit_cases ran
  refine (match_loop_rule (fun m => LoopSound desk.allocated m ∧
    IdsFollow m.heap desk.allocated ∧ ∃ tail, m.log = desk.log ++ tail ∧
      ∀ tr ∈ tail, TakerRecord desk.allocated tickSeq tr) ?_ ?_ looped
    ⟨Desk.submit_enters sound, sound.ids, [], (List.append_nil _).symm, nofun⟩).1.2.2
  · exact fun m holds => ⟨pruned_sound holds.1 _, holds.2⟩
  · intro m resting holds unfilled foremost _
    obtain ⟨loopSound, ids, tail, log, takers⟩ := holds
    refine ⟨trade_sound loopSound unfilled foremost, ?_,
      tail ++ [tradeRecord clock incoming resting tickSeq tRecvNs m], ?_, ?_⟩
    · intro o inHeap
      rw [(trade_terms _ _ _ _ _ _ o).id]
      exact ids o inHeap
    · rw [trade_log _ _ _ _ _ _ (foremost_ne_incoming loopSound foremost), log,
        List.append_assoc]
    · intro tr member
      rcases List.mem_append.mp member with earlier | last
      · exact takers tr earlier
      · rw [List.mem_singleton.mp last]
        exact trade_record_taker loopSound ids newest foremost

end Submission

/-! ## One tick -/

namespace Simulation

variable [BookT Book ℚ] {readings : Readings} {i : Nat} {sim next : Simulation Book}

/-- What a tick does to the desk: it places an order of a positive quantity, submits it, and
reaps now and then. -/
structure Ticked (readings : Readings) (i : Nat) (sim next : Simulation Book) (symbol : String)
    (px : ℚ) (qty : Int) (s : Side) (desk : Desk Book ℚ) (trades : Int) : Prop where
  positive : 0 < qty
  feed : next.feed.seq = sim.feed.seq + 1
  counted : next.trades = sim.trades + trades
  submits : submit readings.trade (sim.desk.place symbol px qty s).1 sim.desk.allocated
    (sim.feed.seq + 1) (readings.recv i) = some (desk, trades)
  reaps : next.desk = desk ∨ next.desk = desk.reap.1

theorem tick_cases (ran : tick readings i sim = some next) :
    ∃ symbol px qty s desk trades, Ticked readings i sim next symbol px qty s desk trades := by
  simp only [tick] at ran
  split at ran
  · cases ran
  · rename_i desk trades submits
    cases ran
    refine ⟨_, _, _, _, desk, trades, ?_, rfl, rfl, submits, ?_⟩
    · omega
    · dsimp only
      split_ifs
      · exact .inr rfl
      · exact .inl rfl

variable [LawfulBook Book]

/-- A tick goes through, and leaves the run of the desk within what its callers may do. -/
theorem tick_completes (readings : Readings) (i : Nat) {sim : Simulation Book}
    (sound : DeskSound sim.desk) : ∃ next, tick readings i sim = some next := by
  simp only [tick]
  split
  · rename_i stuck
    obtain ⟨next, trades, returns⟩ := (Desk.matching_ends (Desk.place_sound sound _ _ _ _)
      _ _ _).returns
    unfold tickToOrder at stuck
    dsimp only at stuck
    rw [returns] at stuck
    cases stuck
  · exact ⟨_, rfl⟩

abbrev DeskRun (Book : Type v) := Config (Desk Book ℚ) (Op ℚ) (Reply ℚ)

/-- The desk is in a run that keeps to every rule of the callers. -/
def Disciplined (readings : Readings) (desk : Desk Book ℚ) : Prop :=
  ∃ config : DeskRun Book,
    Reachable (Desk.step readings.trade) Desk.placePositive Desk.initial config ∧
      config.state = desk ∧ ∀ o ∈ submitted config, o < desk.allocated

variable {symbol : String} {px : ℚ} {qty : Int} {s : Side} {desk : Desk Book ℚ} {trades : Int}

omit [LawfulBook Book] in
theorem ticked_frame (ticked : Ticked readings i sim next symbol px qty s desk trades) :
    next.desk.allocated = sim.desk.allocated + 1 ∧ next.desk.log = desk.log := by
  obtain ⟨m, _, _, state⟩ := Desk.submit_cases ticked.submits
  rcases ticked.reaps with same | reaped
  · rw [same, state]
    exact ⟨rfl, rfl⟩
  · rw [reaped, state]
    exact ⟨rfl, rfl⟩

omit [LawfulBook Book] in
theorem reachable_push {config : DeskRun Book}
    (reached : Reachable (Desk.step readings.trade) Desk.placePositive Desk.initial config)
    (op : Op ℚ) (reply : Reply ℚ) (permitted : Desk.placePositive config op)
    (ran : config.state.step readings.trade op = some (desk, reply)) :
    Reachable (Desk.step readings.trade) Desk.placePositive Desk.initial
      (config.push op desk reply) :=
  reached.tail (.run permitted ran)

omit [LawfulBook Book] in
theorem ticked_disciplined (disciplined : Disciplined readings sim.desk)
    (ticked : Ticked readings i sim next symbol px qty s desk trades) :
    Disciplined readings next.desk := by
  obtain ⟨config, reached, state, sent⟩ := disciplined
  have fresh : (sim.desk.place symbol px qty s).1.heap sim.desk.allocated =
      Order.make sim.desk.oms.nextId symbol px qty s :=
    sim.desk.place_heap_new symbol px qty s
  let first : DeskRun Book := config.push (.place symbol px qty s)
    (sim.desk.place symbol px qty s).1 ⟨.placed sim.desk.allocated, []⟩
  have placed : Reachable (Desk.step readings.trade) Desk.placePositive Desk.initial first :=
    reachable_push reached (.place symbol px qty s) _ ticked.positive (by rw [state]; rfl)
  have sentBefore : ∀ o ∈ submitted first, o < sim.desk.allocated := by
    intro o member
    rw [submitted_push] at member
    exact sent o (by simpa [Op.submits] using member)
  let second : DeskRun Book := first.push
    (.submit sim.desk.allocated (sim.feed.seq + 1) (readings.recv i)) desk
    ⟨.submitted trades, desk.log.drop (sim.desk.place symbol px qty s).1.log.length⟩
  have submits : Reachable (Desk.step readings.trade) Desk.placePositive Desk.initial second := by
    refine reachable_push placed _ _ ?_ ?_
    · refine ⟨Nat.lt_succ_self _, fun again => Nat.lt_irrefl _ (sentBefore _ again), ?_⟩
      change ((sim.desk.place symbol px qty s).1.heap sim.desk.allocated).state ≠ _
      rw [fresh]
      simp [Order.make]
    · change Desk.step readings.trade (sim.desk.place symbol px qty s).1 _ = _
      simp only [Desk.step, ticked.submits]
  have sentAfter : ∀ o ∈ submitted second, o < next.desk.allocated := by
    intro o member
    rw [(ticked_frame ticked).1]
    rw [submitted_push, List.mem_append] at member
    rcases member with earlier | last
    · exact (sentBefore o earlier).trans (Nat.lt_succ_self _)
    · have same : o = sim.desk.allocated := by simpa [Op.submits] using last
      rw [same]
      exact Nat.lt_succ_self _
  rcases ticked.reaps with same | reaped
  · exact ⟨second, submits, same.symm, sentAfter⟩
  · refine ⟨second.push .reap desk.reap.1 ⟨.reaped desk.reap.2, []⟩,
      reachable_push submits _ _ trivial rfl, reaped.symm, ?_⟩
    intro o member
    rw [submitted_push] at member
    exact sentAfter o (by simpa [Op.submits] using member)

/-! ## The whole run -/

/-- The id of the newer order of a trade. -/
def takerId (tr : Trade ℚ) : Int := max tr.buyId tr.sellId

/-- What holds after some ticks. -/
structure Follows (readings : Readings) (numTicks : Nat) (sim : Simulation Book) : Prop where
  disciplined : Disciplined readings sim.desk
  placed : sim.desk.allocated = numTicks
  seq : sim.feed.seq = UInt64.ofNat numTicks
  counted : sim.trades = sim.desk.log.length
  takers : ∀ tr ∈ sim.desk.log,
    takerId tr ≤ numTicks ∧ tr.seq = UInt64.ofNat (takerId tr).toNat
  inOrder : sim.desk.log.Pairwise fun earlier later => takerId earlier ≤ takerId later

omit [LawfulBook Book] in
theorem initial_follows (readings : Readings) :
    Follows readings 0 (initial : Simulation Book) where
  disciplined := ⟨.start Desk.initial, reachable_start, rfl, nofun⟩
  placed := rfl
  seq := rfl
  counted := rfl
  takers := nofun
  inOrder := .nil

omit [BookT Book ℚ] [LawfulBook Book] in
theorem place_positive_placed (config : DeskRun Book) (op : Op ℚ)
    (permitted : Desk.placePositive config op) : submitPlaced config op := by
  cases op with
  | submit => exact permitted.1
  | place => trivial
  | cancel => trivial
  | reap => trivial

theorem disciplined_sound (disciplined : Disciplined readings desk) : DeskSound desk := by
  obtain ⟨config, reached, rfl, _⟩ := disciplined
  exact Desk.reachable_sound (reachable_mono place_positive_placed reached)

theorem disciplined_log_paid (disciplined : Disciplined readings desk) :
    LogPaid desk.heap desk.allocated desk.log := by
  obtain ⟨config, reached, rfl, _⟩ := disciplined
  exact Desk.reachable_log_paid (reachable_mono place_positive_placed reached)

theorem ticked_follows (follows : Follows readings i sim)
    (ticked : Ticked readings i sim next symbol px qty s desk trades) :
    Follows readings (i + 1) next := by
  have sound := Desk.place_sound (disciplined_sound follows.disciplined) symbol px qty s
  have paid := Desk.place_log_paid (disciplined_log_paid follows.disciplined) symbol px qty s
  obtain ⟨allocated, log⟩ := ticked_frame ticked
  obtain ⟨tail, grown, takers⟩ := submit_newest sound rfl ticked.submits
  have newest : ((sim.desk.place symbol px qty s).1.allocated : Int) = ((i + 1 : Nat) : Int) :=
    congrArg (fun n : Nat => ((n + 1 : Nat) : Int)) follows.placed
  have seq : sim.feed.seq + 1 = UInt64.ofNat (i + 1) := by
    rw [follows.seq]
    exact (UInt64.ofNat_add i 1).symm
  have ownTaker : ∀ tr ∈ tail, takerId tr = ((i + 1 : Nat) : Int) :=
    fun tr member => (takers tr member).taker.trans newest
  have whole : next.desk.log = sim.desk.log ++ tail := log.trans grown
  constructor
  case disciplined => exact ticked_disciplined follows.disciplined ticked
  case placed => rw [allocated, follows.placed]
  case seq => rw [ticked.feed, seq]
  case counted =>
    have logged := (Desk.submit_log_paid sound (Nat.lt_succ_self _) paid ticked.submits).2
    have before : (sim.desk.place symbol px qty s).1.log = sim.desk.log := rfl
    rw [ticked.counted, log, ← logged, before, follows.counted, Int.add_comm]
  case takers =>
    rw [whole]
    intro tr member
    rcases List.mem_append.mp member with earlier | last
    · obtain ⟨bound, own⟩ := follows.takers tr earlier
      exact ⟨by omega, own⟩
    · rw [ownTaker tr last]
      exact ⟨Int.le_refl _, (takers tr last).seq.trans seq⟩
  case inOrder =>
    rw [whole, List.pairwise_append]
    refine ⟨follows.inOrder, List.pairwise_of_forall_mem_list ?_, ?_⟩
    · intro earlier earlierLast later laterLast
      rw [ownTaker earlier earlierLast, ownTaker later laterLast]
    · intro earlier before later last
      have bound := (follows.takers earlier before).1
      rw [ownTaker later last]
      omega

/-- What a run reports and leaves behind. -/
structure Reported (readings : Readings) (numTicks : Nat) (sim : Simulation Book) : Prop where
  disciplined : Disciplined readings sim.desk
  placed : sim.desk.allocated = numTicks
  counted : sim.trades = sim.desk.log.length
  reserved : sim.desk.log.length ≤ numTicks
  uncrossed : Uncrossed sim.desk.heap sim.desk.book
  takers : ∀ tr ∈ sim.desk.log, tr.seq = UInt64.ofNat (takerId tr).toNat
  inOrder : sim.desk.log.Pairwise fun earlier later => takerId earlier ≤ takerId later

theorem run_follows (readings : Readings) (numTicks : Nat) :
    ∃ sim : Simulation Book, run readings numTicks = some sim ∧ Follows readings numTicks sim := by
  induction numTicks with
  | zero => exact ⟨initial, rfl, initial_follows readings⟩
  | succ numTicks ih =>
      obtain ⟨sim, ran, follows⟩ := ih
      have sound := disciplined_sound follows.disciplined
      obtain ⟨next, ticks⟩ := tick_completes readings numTicks sound
      obtain ⟨_, _, _, _, _, _, ticked⟩ := tick_cases ticks
      refine ⟨next, ?_, ticked_follows follows ticked⟩
      rw [run, ran]
      exact ticks

theorem follows_reported [PriceOrdered Book] (follows : Follows readings i sim) :
    Reported readings i sim where
  disciplined := follows.disciplined
  placed := follows.placed
  counted := follows.counted
  reserved := by
    apply (disciplined_log_paid follows.disciplined).fills.trans
    apply (Finset.card_filter_le _ _).trans
    rw [Finset.card_range, follows.placed]
  uncrossed := by
    obtain ⟨config, reached, state, _⟩ := follows.disciplined
    rw [← state]
    exact Desk.reachable_uncrossed (reachable_mono place_positive_placed reached)
  takers := fun tr member => (follows.takers tr member).2
  inOrder := follows.inOrder

/-- Both runs of `main` come to their end, for any number of ticks. The desk keeps to the rules of
its callers in each; what is printed for `trades` and `logged` agrees; the log needs at most half
of what was reserved for it, so it is never moved; no live bid is left at or above a live ask;
and the rows of the log are in the order of the ticks, each with the number of its newer order. -/
theorem runs_report (first second : Readings) (N : Nat) :
    (∃ mapBook : Simulation (OrderBook ℚ), run first N = some mapBook ∧
      Reported first N mapBook) ∧
    ∃ flatBook : Simulation (FlatOrderBook ℚ), run second N = some flatBook ∧
      Reported second N flatBook := by
  obtain ⟨mapBook, mapRan, mapFollows⟩ := @run_follows (OrderBook ℚ) _ _ first N
  obtain ⟨flatBook, flatRan, flatFollows⟩ := @run_follows (FlatOrderBook ℚ) _ _ second N
  exact ⟨⟨mapBook, mapRan, follows_reported mapFollows⟩, flatBook, flatRan,
    follows_reported flatFollows⟩

/-! ## The two books -/

section TwoBooks

variable {Other : Type v} [BookT Other ℚ] {image : Book → Other}

/-- Two simulations that differ in the kind of book and in clock readings only. -/
structure SameRun (image : Book → Other) (sim : Simulation Book) (other : Simulation Other) :
    Prop where
  feed : other.feed = sim.feed
  prng : other.prng = sim.prng
  trades : other.trades = sim.trades
  desk : Mirrors image sim.desk other.desk

omit [LawfulBook Book] in
theorem place_mirrors (renders : Renders image) {desk : Desk Book ℚ} {mirror : Desk Other ℚ}
    (mirrors : Mirrors image desk mirror) (symbol : String) (px : ℚ) (qty : Int) (s : Side) :
    Mirrors image (desk.place symbol px qty s).1 (mirror.place symbol px qty s).1 := by
  obtain ⟨_, _, ran, _, mirrorsNext⟩ := Desk.step_mirrors renders (fun n => n) mirrors
    (show desk.step (fun n => n) (.place symbol px qty s) = some (_, _) from rfl)
  cases ran
  exact mirrorsNext

omit [LawfulBook Book] in
theorem reap_mirrors (renders : Renders image) {desk : Desk Book ℚ} {mirror : Desk Other ℚ}
    (mirrors : Mirrors image desk mirror) : Mirrors image desk.reap.1 mirror.reap.1 := by
  obtain ⟨_, _, ran, _, mirrorsNext⟩ := Desk.step_mirrors renders (fun n => n) mirrors
    (show desk.step (fun n => n) .reap = some (_, _) from rfl)
  cases ran
  exact mirrorsNext

omit [LawfulBook Book] in
/-- The stamp of a tick is in no order. -/
theorem tick_to_order_mirrors (renders : Renders image) {desk : Desk Book ℚ}
    {mirror : Desk Other ℚ} (mirrors : Mirrors image desk mirror) (now later : Int)
    (feed : MarketDataFeed) (r : UInt64) :
    Mirrors image (tickToOrder desk (MarketDataFeed.next now feed).1 r).1
      (tickToOrder mirror (MarketDataFeed.next later feed).1 r).1 :=
  place_mirrors renders mirrors _ _ _ _

omit [LawfulBook Book] in
theorem tick_same (renders : Renders image) {other : Simulation Other} (second : Readings)
    (same : SameRun image sim other) (ran : tick readings i sim = some next) :
    ∃ later, tick second i other = some later ∧ SameRun image next later := by
  simp only [tick] at ran
  split at ran
  · cases ran
  · rename_i desk trades submits
    cases ran
    obtain ⟨mirrored, submitsToo, mirrors⟩ := Desk.submit_mirrors renders
      (fun n => second.trade n - (second.recv i - readings.recv i))
      (tick_to_order_mirrors renders same.desk (readings.stamp i) (second.stamp i) sim.feed
        (nextPrng sim.prng)) submits
    have pointer : (tickToOrder other.desk (MarketDataFeed.next (second.stamp i) sim.feed).1
        (nextPrng sim.prng)).2 = (tickToOrder sim.desk
          (MarketDataFeed.next (readings.stamp i) sim.feed).1 (nextPrng sim.prng)).2 :=
      same.desk.allocated
    have seq : (MarketDataFeed.next (second.stamp i) sim.feed).1.seq =
        (MarketDataFeed.next (readings.stamp i) sim.feed).1.seq := rfl
    rw [← submit_shift, ← pointer, ← seq] at submitsToo
    have goes : tick second i other = some ⟨(MarketDataFeed.next (second.stamp i) sim.feed).2,
        nextPrng sim.prng, if i &&& 0x3FF = 0 then mirrored.reap.1 else mirrored,
        other.trades + trades⟩ := by
      simp only [tick, same.feed, same.prng, submitsToo]
    refine ⟨_, goes, rfl, rfl, congrArg (· + trades) same.trades, ?_⟩
    dsimp only
    split_ifs
    · exact reap_mirrors renders mirrors
    · exact mirrors

omit [LawfulBook Book] in
/-- The two runs take the same course tick by tick. -/
theorem run_same (renders : Renders image) (first second : Readings) {numTicks : Nat}
    (ran : run first numTicks = some sim) :
    ∃ other : Simulation Other, run second numTicks = some other ∧ SameRun image sim other := by
  induction numTicks generalizing sim with
  | zero =>
      cases ran
      exact ⟨initial, rfl, rfl, rfl, rfl, rfl, rfl, rfl, renders.emptyBook.symm, rfl⟩
  | succ numTicks ih =>
      rw [run] at ran
      cases before : (run first numTicks : Option (Simulation Book)) with
      | none =>
          rw [before] at ran
          cases ran
      | some earlier =>
          rw [before] at ran
          obtain ⟨mirror, mirrorRan, same⟩ := ih before
          obtain ⟨later, ticks, sameNext⟩ := tick_same renders second same ran
          refine ⟨later, ?_, sameNext⟩
          rw [run, mirrorRan]
          exact ticks

end TwoBooks

/-- `main` runs the two books on the same orders, whatever the clock shows: they emit the same
number of trades, leave every order as the other does and agree on what can be asked of a book;
and the file that the second run leaves has the rows of the first, but for the last column. -/
theorem runs_agree (priceText : ℚ → String) (first second : Readings) (N : Nat) :
    ∃ (mapBook : Simulation (OrderBook ℚ)) (flatBook : Simulation (FlatOrderBook ℚ)),
      run first N = some mapBook ∧ run second N = some flatBook ∧
      flatBook.trades = mapBook.trades ∧ flatBook.desk.heap = mapBook.desk.heap ∧
      flatBook.desk.oms = mapBook.desk.oms ∧
      Desk.BooksAgree mapBook.desk.book flatBook.desk.book ∧
      mainFile priceText first second N = some (flush priceText flatBook.desk.log) ∧
      flatBook.desk.log.map Trade.untimed = mapBook.desk.log.map Trade.untimed := by
  obtain ⟨mapBook, mapRan, _⟩ := @run_follows (OrderBook ℚ) _ _ first N
  obtain ⟨flatBook, flatRan, same⟩ := run_same flatten_renders first second mapRan
  refine ⟨mapBook, flatBook, mapRan, flatRan, same.trades, same.desk.heap, same.desk.oms, ?_, ?_,
    same.desk.log⟩
  · rw [same.desk.book]
    exact ⟨flatten_renders.empty _, flatten_renders.depth _, flatten_renders.best _⟩
  · simp only [mainFile, mapRan, flatRan]
    rfl

end Simulation

end Finm327.Phase4
