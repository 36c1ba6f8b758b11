import Finm327.Library.Runs
import Finm327.Phase4.OrderBook

/-!
# The matching engine, the order manager and the trade log

Transcribes `MatchingEngine.hpp`, `OrderManager.hpp` and the in-memory part of
`TradeLogger.hpp`. A desk is what the drivers set up: one order manager, one
book, one log and the order objects all of them point to. Wall-clock readings
are an oracle: reading number `n` is taken for the `n`-th trade ever logged.
The loop of `submit` runs on fuel; `none` means that the fuel ran out or that
the code would read the front of an empty queue. Neither happens on a desk that
the program can reach, where the fuel handed out below always suffices.
-/

namespace Finm327.Phase4

open Finm327.Library.Runs

universe u v

variable {PriceT : Type u} {Book : Type v}

structure OrderManager where
  active : List (Int × OrderPtr)
  nextId : Int
deriving DecidableEq, Repr

namespace OrderManager

/-- `active_.find(id)`. -/
def find (oms : OrderManager) (id : Int) : Option OrderPtr := oms.active.lookup id

/-- `active_[id] = o`. -/
def assign (oms : OrderManager) (id : Int) (o : OrderPtr) : List (Int × OrderPtr) :=
  (id, o) :: oms.active.filter (fun entry => entry.1 != id)

def size (oms : OrderManager) : Nat := oms.active.length

end OrderManager

structure Desk (Book : Type v) (PriceT : Type u) where
  heap : Heap PriceT
  /-- Address the next `make_shared` returns; everything below it is an order. -/
  allocated : OrderPtr
  oms : OrderManager
  book : Book
  log : List (Trade PriceT)

namespace Desk

def place (desk : Desk Book PriceT) (symbol : String) (price : PriceT) (qty : Int) (s : Side) :
    Desk Book PriceT × OrderPtr :=
  let id := desk.oms.nextId
  let o := desk.allocated
  ({ desk with
      heap := Function.update desk.heap o (Order.make id symbol price qty s)
      allocated := o + 1
      oms := ⟨desk.oms.assign id o, id + 1⟩ }, o)

def cancel (desk : Desk Book PriceT) (id : Int) : Desk Book PriceT × Bool :=
  match desk.oms.find id with
  | none => (desk, false)
  | some o =>
      if !desk.heap.live o then (desk, false)
      else ({ desk with heap := desk.heap.modify o Order.markCancelled }, true)

def get (desk : Desk Book PriceT) (id : Int) : Option OrderPtr := desk.oms.find id

def reap (desk : Desk Book PriceT) : Desk Book PriceT × Nat :=
  let kept := desk.oms.active.filter fun entry => desk.heap.live entry.2
  ({ desk with oms := { desk.oms with active := kept } }, desk.oms.active.length - kept.length)

end Desk

namespace MatchingEngine

/-- What the loop of `submit` reads and writes. -/
structure Matching (Book : Type v) (PriceT : Type u) where
  heap : Heap PriceT
  book : Book
  log : List (Trade PriceT)
  trades : Int

section Crosses

variable [LE PriceT] [DecidableLE PriceT]

def crosses (taker maker : Order PriceT) : Bool :=
  if taker.side = .buy then decide (taker.price ≥ maker.price)
  else decide (taker.price ≤ maker.price)

end Crosses

variable [BookT Book PriceT]

/-- `state = (remaining() == 0) ? Filled : PartiallyFilled`. -/
def settle (order : Order PriceT) : Order PriceT :=
  { order with state := if order.remaining = 0 then .filled else .partiallyFilled }

/-- The loop body once `resting` is known to cross. -/
def trade (clock : Nat → Int) (incoming resting : OrderPtr) (tickSeq : UInt64) (tRecvNs : Int)
    (m : Matching Book PriceT) : Matching Book PriceT :=
  let opp := (m.heap incoming).side.opp
  let qty := min (m.heap incoming).remaining (m.heap resting).remaining
  let px := (m.heap resting).price
  let heap := m.heap.modify incoming fun order => { order with filled := order.filled + qty }
  let heap := heap.modify resting fun order => { order with filled := order.filled + qty }
  let heap := heap.modify incoming settle
  let heap := heap.modify resting settle
  let tNowNs := clock m.log.length
  let tr : Trade PriceT :=
    { buyId := if (heap incoming).side = .buy then (heap incoming).id else (heap resting).id
      sellId := if (heap incoming).side = .sell then (heap incoming).id else (heap resting).id
      symbol := (heap incoming).symbol
      price := px
      quantity := qty
      seq := tickSeq
      ns := tNowNs - tRecvNs }
  { heap := heap
    book := if (heap resting).remaining = 0 then BookT.popBest opp m.book else m.book
    log := m.log ++ [tr]
    trades := m.trades + 1 }

variable [LE PriceT] [DecidableLE PriceT]

def matchLoop (clock : Nat → Int) (incoming : OrderPtr) (tickSeq : UInt64) (tRecvNs : Int) :
    Nat → Matching Book PriceT → Option (Matching Book PriceT)
  | 0, _ => none
  | fuel + 1, m =>
      let opp := (m.heap incoming).side.opp
      if (m.heap incoming).remaining > 0 ∧ BookT.empty m.book opp = false then
        let m := { m with book := BookT.pruneFront m.heap opp m.book }
        if BookT.empty m.book opp then some m
        else
          match BookT.best m.book opp with
          | none => none
          | some resting =>
              if crosses (m.heap incoming) (m.heap resting) then
                matchLoop clock incoming tickSeq tRecvNs fuel
                  (trade clock incoming resting tickSeq tRecvNs m)
              else some m
      else some m

/-- Every iteration but the last trades at least one unit, so one more
iteration than there are units left always suffices. -/
def submitFuel (order : Order PriceT) : Nat := order.remaining.toNat + 1

def submit (clock : Nat → Int) (desk : Desk Book PriceT) (incoming : OrderPtr)
    (tickSeq : UInt64) (tRecvNs : Int) : Option (Desk Book PriceT × Int) :=
  match matchLoop clock incoming tickSeq tRecvNs (submitFuel (desk.heap incoming))
      ⟨desk.heap, desk.book, desk.log, 0⟩ with
  | none => none
  | some m =>
      let book := if (m.heap incoming).remaining > 0 then BookT.add m.heap incoming m.book
        else m.book
      some ({ desk with heap := m.heap, book := book, log := m.log }, m.trades)

end MatchingEngine

inductive Op (PriceT : Type u) where
  | place (symbol : String) (price : PriceT) (qty : Int) (s : Side)
  | submit (incoming : OrderPtr) (tickSeq : UInt64) (tRecvNs : Int)
  | cancel (id : Int)
  | reap
deriving DecidableEq, Repr

inductive Result where
  | placed (o : OrderPtr)
  | submitted (trades : Int)
  | cancelled (ok : Bool)
  | reaped (n : Nat)
deriving DecidableEq, Repr

/-- What one operation shows: its return value and the trades it logged. -/
structure Reply (PriceT : Type u) where
  result : Result
  logged : List (Trade PriceT)
deriving DecidableEq, Repr

namespace Desk

variable [BookT Book PriceT] [LE PriceT] [DecidableLE PriceT]

def step (clock : Nat → Int) (desk : Desk Book PriceT) :
    Op PriceT → Option (Desk Book PriceT × Reply PriceT)
  | .place symbol price qty s =>
      let (next, o) := desk.place symbol price qty s
      some (next, ⟨.placed o, []⟩)
  | .submit incoming tickSeq tRecvNs =>
      match MatchingEngine.submit clock desk incoming tickSeq tRecvNs with
      | none => none
      | some (next, trades) =>
          some (next, ⟨.submitted trades, next.log.drop desk.log.length⟩)
  | .cancel id =>
      let (next, ok) := desk.cancel id
      some (next, ⟨.cancelled ok, []⟩)
  | .reap =>
      let (next, n) := desk.reap
      some (next, ⟨.reaped n, []⟩)

omit [LE PriceT] [DecidableLE PriceT] in
/-- The state the drivers start from; no order exists yet. -/
def initial [Inhabited PriceT] : Desk Book PriceT :=
  ⟨fun _ => default, 0, ⟨[], 1⟩, BookT.emptyBook, []⟩

end Desk

theorem OrderManager.mem_of_find {oms : OrderManager} {id : Int} {o : OrderPtr}
    (found : oms.find id = some o) : (id, o) ∈ oms.active := by
  obtain ⟨before, after, split, _⟩ := List.lookup_eq_some_iff.mp found
  rw [split]
  simp

theorem OrderManager.find_eq_none_iff {oms : OrderManager} {id : Int} :
    oms.find id = none ↔ ∀ entry ∈ oms.active, entry.1 ≠ id := by
  rw [OrderManager.find, List.lookup_eq_none_iff]
  simp only [bne_iff_ne, ne_comm]

namespace Desk

theorem place_heap_old (desk : Desk Book PriceT) (symbol : String) (price : PriceT) (qty : Int)
    (s : Side) {o : OrderPtr} (inHeap : o < desk.allocated) :
    (desk.place symbol price qty s).1.heap o = desk.heap o :=
  Function.update_of_ne (Nat.ne_of_lt inHeap) _ _

theorem place_heap_new (desk : Desk Book PriceT) (symbol : String) (price : PriceT) (qty : Int)
    (s : Side) :
    (desk.place symbol price qty s).1.heap desk.allocated =
      Order.make desk.oms.nextId symbol price qty s :=
  Function.update_self _ _ _

/-- `cancel` either changes nothing or cancels one live order. -/
theorem cancel_cases (desk : Desk Book PriceT) (id : Int) :
    (desk.cancel id).1 = desk ∨
      ∃ o, desk.oms.find id = some o ∧ desk.heap.live o = true ∧
        (desk.cancel id).1 = { desk with heap := desk.heap.modify o Order.markCancelled } := by
  simp only [cancel]
  cases found : desk.oms.find id with
  | none => exact .inl rfl
  | some o =>
      cases alive : desk.heap.live o with
      | false => simp [alive]
      | true => exact .inr ⟨o, rfl, alive, by simp [alive]⟩

/-- A cancel flips one flag at most and leaves the order queued. -/
theorem cancel_frame (desk : Desk Book PriceT) (id : Int) :
    (desk.cancel id).1 = { desk with heap := (desk.cancel id).1.heap } := by
  rcases desk.cancel_cases id with same | ⟨_, _, _, changed⟩
  · rw [same]
  · rw [changed]

variable [BookT Book PriceT] [LE PriceT] [DecidableLE PriceT]

/-- What `submit` does: the loop runs until it stops, then an unfilled
remainder is queued on its own side. -/
theorem submit_cases {clock : Nat → Int} {desk next : Desk Book PriceT} {incoming : OrderPtr}
    {tickSeq : UInt64} {tRecvNs trades : Int}
    (ran : MatchingEngine.submit clock desk incoming tickSeq tRecvNs = some (next, trades)) :
    ∃ m, MatchingEngine.matchLoop clock incoming tickSeq tRecvNs (MatchingEngine.submitFuel (desk.heap incoming))
        ⟨desk.heap, desk.book, desk.log, 0⟩ = some m ∧
      trades = m.trades ∧ next = { desk with
        heap := m.heap
        book := if (m.heap incoming).remaining > 0 then BookT.add m.heap incoming m.book
          else m.book
        log := m.log } := by
  simp only [MatchingEngine.submit] at ran
  split at ran
  · contradiction
  · rename_i m looped
    simp only [Option.some.injEq, Prod.mk.injEq] at ran
    exact ⟨m, looped, ran.2.symm, ran.1.symm⟩

/-- Everything a step can do, operation by operation. -/
inductive Effect (clock : Nat → Int) (desk next : Desk Book PriceT) (reply : Reply PriceT) :
    Op PriceT → Prop
  | place (symbol : String) (price : PriceT) (qty : Int) (s : Side)
      (state : next = (desk.place symbol price qty s).1)
      (shows : reply = ⟨.placed (desk.place symbol price qty s).2, []⟩) :
      Effect clock desk next reply (.place symbol price qty s)
  | submit (incoming : OrderPtr) (tickSeq : UInt64) (tRecvNs trades : Int)
      (submits : MatchingEngine.submit clock desk incoming tickSeq tRecvNs = some (next, trades))
      (shows : reply = ⟨.submitted trades, next.log.drop desk.log.length⟩) :
      Effect clock desk next reply (.submit incoming tickSeq tRecvNs)
  | cancel (id : Int) (state : next = (desk.cancel id).1)
      (shows : reply = ⟨.cancelled (desk.cancel id).2, []⟩) :
      Effect clock desk next reply (.cancel id)
  | reap (state : next = desk.reap.1) (shows : reply = ⟨.reaped desk.reap.2, []⟩) :
      Effect clock desk next reply .reap

theorem step_effect {clock : Nat → Int} {desk next : Desk Book PriceT} {op : Op PriceT}
    {reply : Reply PriceT} (ran : desk.step clock op = some (next, reply)) :
    Effect clock desk next reply op := by
  cases op with
  | place symbol price qty s =>
      obtain ⟨state, shows⟩ := Prod.mk.inj (Option.some.inj ran)
      exact .place symbol price qty s state.symm shows.symm
  | submit incoming tickSeq tRecvNs =>
      simp only [step] at ran
      split at ran
      · contradiction
      · rename_i result submits
        simp only [Option.some.injEq, Prod.mk.injEq] at ran
        obtain ⟨rfl, rfl⟩ := ran
        exact .submit incoming tickSeq tRecvNs _ submits rfl
  | cancel id =>
      obtain ⟨state, shows⟩ := Prod.mk.inj (Option.some.inj ran)
      exact .cancel id state.symm shows.symm
  | reap =>
      obtain ⟨state, shows⟩ := Prod.mk.inj (Option.some.inj ran)
      exact .reap state.symm shows.symm

theorem step_allocated_le {clock : Nat → Int} {desk next : Desk Book PriceT} {op : Op PriceT}
    {reply : Reply PriceT} (ran : desk.step clock op = some (next, reply)) :
    desk.allocated ≤ next.allocated := by
  cases step_effect ran with
  | place symbol price qty s state =>
      rw [state]
      exact Nat.le_succ desk.allocated
  | submit incoming tickSeq tRecvNs trades submits =>
      obtain ⟨m, _, _, state⟩ := submit_cases submits
      rw [state]
  | cancel id state =>
      rw [state, desk.cancel_frame id]
  | reap state =>
      rw [state]
      rfl

end Desk

/-- The order an operation hands to `submit`. -/
def Op.submits : Op PriceT → Option OrderPtr
  | .submit incoming _ _ => some incoming
  | .place .. => none
  | .cancel _ => none
  | .reap => none

/-- Orders already handed to `submit`, in order of submission. -/
def submitted (config : Config (Desk Book PriceT) (Op PriceT) (Reply PriceT)) : List OrderPtr :=
  config.ops.filterMap Op.submits

theorem submitted_push (config : Config (Desk Book PriceT) (Op PriceT) (Reply PriceT))
    (op : Op PriceT) (desk : Desk Book PriceT) (reply : Reply PriceT) :
    submitted (config.push op desk reply) = submitted config ++ op.submits.toList := by
  rw [submitted, Config.push_ops, List.filterMap_append]
  cases op <;> rfl

/-- The caller only submits orders `place` returned. -/
def submitPlaced (config : Config (Desk Book PriceT) (Op PriceT) (Reply PriceT)) :
    Op PriceT → Prop
  | .submit incoming _ _ => incoming < config.state.allocated
  | _ => True

/-- Each order is submitted at most once. -/
def submitOnce (config : Config (Desk Book PriceT) (Op PriceT) (Reply PriceT)) :
    Op PriceT → Prop
  | .submit incoming _ _ => incoming < config.state.allocated ∧ incoming ∉ submitted config
  | _ => True

/-- Each order is submitted at most once, and before any cancel of it. -/
def submitOnceUncancelled (config : Config (Desk Book PriceT) (Op PriceT) (Reply PriceT)) :
    Op PriceT → Prop
  | .submit incoming _ _ =>
      incoming < config.state.allocated ∧ incoming ∉ submitted config ∧
        (config.state.heap incoming).state ≠ .cancelled
  | _ => True

section Decidable

variable (config : Config (Desk Book PriceT) (Op PriceT) (Reply PriceT))

instance : ∀ op : Op PriceT, Decidable (submitPlaced config op)
  | .submit incoming _ _ => inferInstanceAs (Decidable (incoming < config.state.allocated))
  | .place .. => .isTrue trivial
  | .cancel _ => .isTrue trivial
  | .reap => .isTrue trivial

instance : ∀ op : Op PriceT, Decidable (submitOnce config op)
  | .submit incoming _ _ => inferInstanceAs
      (Decidable (incoming < config.state.allocated ∧ incoming ∉ submitted config))
  | .place .. => .isTrue trivial
  | .cancel _ => .isTrue trivial
  | .reap => .isTrue trivial

instance : ∀ op : Op PriceT, Decidable (submitOnceUncancelled config op)
  | .submit incoming _ _ => inferInstanceAs
      (Decidable (incoming < config.state.allocated ∧ incoming ∉ submitted config ∧
        (config.state.heap incoming).state ≠ .cancelled))
  | .place .. => .isTrue trivial
  | .cancel _ => .isTrue trivial
  | .reap => .isTrue trivial

end Decidable

/-- Two resting asks at different prices, a cancel of the worse one, a bid that
sweeps the better one and rests, and a second bid that finds only a dead ask. -/
def sampleOps : List (Op Int) :=
  [.place "AAPL" 101 10 .sell, .submit 0 1 0, .place "AAPL" 100 4 .sell, .submit 1 2 0,
    .place "AAPL" 101 3 .buy, .submit 2 3 0, .cancel 1, .reap,
    .place "AAPL" 102 6 .buy, .submit 3 4 0, .place "AAPL" 101 8 .sell, .submit 4 5 0]

theorem submit_once_placed (config : Config (Desk Book PriceT) (Op PriceT) (Reply PriceT))
    (op : Op PriceT) (once : submitOnce config op) : submitPlaced config op := by
  cases op with
  | submit => exact once.1
  | place => trivial
  | cancel => trivial
  | reap => trivial

end Finm327.Phase4
