import Mathlib.Data.List.Nodup
import Mathlib.Order.Lattice
import Finm327.Library.Runs
import Finm327.Hw5.BinaryHeap

/-!
# The heap as a priority queue

What a priority queue promises, and that the heap keeps it over every sequence of pushes and
pops: nothing is lost, and the top is never less than a stored element. With `OrderLess`
distinct timestamps leave no ties, so everything that keeps the promise drains in the same
order: by descending price, and first come first served at one price.
-/

namespace Finm327.Hw5.PriorityQueue

open Finm327.Library.HeapOrder
open Finm327.Library.Runs

universe u v

/-- What a queue with the comparator may hand out until it is empty: each element when no
remaining one is greater. Which of several equivalent ones comes first is left open. -/
inductive Serves {T : Type u} (cmp : T → T → Bool) : List T → List T → Prop
  | done : Serves cmp [] []
  | serve {content rest out : List T} {x : T} (present : (x :: rest).Perm content)
      (greatest : ∀ y ∈ content, cmp x y = false) (later : Serves cmp rest out) :
      Serves cmp content (x :: out)

section Serves

variable {T : Type u} {cmp : T → T → Bool} {content out other : List T}

theorem Serves.perm (serves : Serves cmp content out) : out.Perm content := by
  induction serves with
  | done => exact List.Perm.refl _
  | serve present _ _ ih => exact (ih.cons _).trans present

theorem Serves.sorted (serves : Serves cmp content out) :
    out.Pairwise fun x y => cmp x y = false := by
  induction serves with
  | done => exact List.Pairwise.nil
  | serve present greatest later ih =>
      refine List.Pairwise.cons ?_ ih
      intro y member
      apply greatest
      exact present.mem_iff.mp (List.mem_cons_of_mem _ (later.perm.mem_iff.mp member))

/-- Without ties there is one order to serve in. -/
theorem Serves.unique (serves : Serves cmp content out) (also : Serves cmp content other)
    (noTies : ∀ x ∈ content, ∀ y ∈ content, cmp x y = false → cmp y x = false → x = y) :
    other = out := by
  apply List.Perm.eq_of_pairwise ?_ also.sorted serves.sorted (also.perm.trans serves.perm.symm)
  intro x y first second
  exact noTies x (also.perm.mem_iff.mp first) y (serves.perm.mem_iff.mp second)

end Serves

inductive HeapOp (T : Type u)
  | push (v : T)
  | pop

def pushed {T : Type u} : HeapOp T → Option T
  | .push v => some v
  | .pop => none

namespace BinaryHeap

section Runs

variable {T : Type u} [Inhabited T] (cmp : T → T → Bool)

/-- A pop shows the top that it removes. -/
def step (heap : BinaryHeap T) : HeapOp T → Option (BinaryHeap T × Option T)
  | .push v => some (heap.push cmp v, none)
  | .pop =>
      match heap.top, heap.pop cmp with
      | some x, some next => some (next, some x)
      | _, _ => none

/-- `while (!empty()) { top(); pop(); }`. -/
def drain : Nat → BinaryHeap T → List T
  | 0, _ => []
  | fuel + 1, heap =>
      match heap.top, heap.pop cmp with
      | some x, some next => x :: drain fuel next
      | _, _ => []

abbrev Run (T : Type u) := Config (BinaryHeap T) (HeapOp T) (Option T)

/-- The stored elements are the pushed ones without the popped ones, the top is one that none
of them exceeds, and there is something to pop as long as there are any. -/
structure Keeps (config : Run T) : Prop where
  content : (config.observations.filterMap id ++ config.state.data).Perm
    (config.ops.filterMap pushed)
  top : ∀ x, config.state.top = some x →
    x ∈ config.state.data ∧ ∀ y ∈ config.state.data, cmp x y = false
  pops : config.state.data ≠ [] → ∃ x next, config.state.step cmp .pop = some (next, some x)

variable {cmp}

theorem step_keeps (order : StrictWeakOrder cmp) {heap next : BinaryHeap T} {op : HeapOp T}
    {shown : Option T} (ordered : IsHeap cmp heap.data)
    (ran : heap.step cmp op = some (next, shown)) :
    IsHeap cmp next.data ∧
      (shown.toList ++ next.data).Perm ((pushed op).toList ++ heap.data) := by
  cases op with
  | push v =>
      cases ran
      exact push_spec order ordered v
  | pop =>
      unfold step at ran
      cases first : heap.top with
      | none =>
          rw [first] at ran
          cases ran
      | some x =>
          obtain ⟨left, popped, isHeap, same⟩ := pop_spec order ordered first
          rw [first, popped] at ran
          cases ran
          exact ⟨isHeap, same⟩

theorem reachable_heap (order : StrictWeakOrder cmp) {config : Run T}
    (reached : Reachable (step cmp) (fun _ _ => True) ⟨[]⟩ config) :
    IsHeap cmp config.state.data ∧
      (config.observations.filterMap id ++ config.state.data).Perm
        (config.ops.filterMap pushed) := by
  refine reachable_invariant (fun config => IsHeap cmp config.state.data ∧
    (config.observations.filterMap id ++ config.state.data).Perm (config.ops.filterMap pushed))
    ⟨empty_is_heap, List.Perm.refl _⟩ ?_ reached
  intro config op next shown ⟨ordered, content⟩ _ ran
  obtain ⟨isHeap, same⟩ := step_keeps order ordered ran
  refine ⟨isHeap, ?_⟩
  have last : ∀ {A B : Type u} (f : A → Option B) (x : A), [x].filterMap f = (f x).toList := by
    intro A B f x
    rw [List.filterMap_cons]
    cases f x <;> rfl
  rw [Config.push_observations, Config.push_ops, Config.push_state, List.filterMap_append,
    List.filterMap_append, last, last, id, List.append_assoc]
  have moved : ((pushed op).toList ++ config.state.data).Perm
      (config.state.data ++ (pushed op).toList) := List.perm_append_comm
  have rest := (same.trans moved).append_left (config.observations.filterMap id)
  have before := content.append_right (pushed op).toList
  rw [List.append_assoc] at before
  exact rest.trans before

theorem reachable_keeps (order : StrictWeakOrder cmp) {config : Run T}
    (reached : Reachable (step cmp) (fun _ _ => True) ⟨[]⟩ config) : Keeps cmp config := by
  obtain ⟨ordered, content⟩ := reachable_heap order reached
  refine ⟨content, fun x first => top_spec order ordered first, ?_⟩
  intro nonempty
  cases first : config.state.top with
  | none => exact absurd (List.head?_eq_none_iff.mp first) nonempty
  | some x =>
      obtain ⟨next, popped, _⟩ := pop_spec order ordered first
      refine ⟨x, next, ?_⟩
      unfold step
      rw [first, popped]

/-- Draining a heap serves its elements. -/
theorem drain_serves (order : StrictWeakOrder cmp) {fuel : Nat} {heap : BinaryHeap T}
    (ordered : IsHeap cmp heap.data) (enough : heap.data.length ≤ fuel) :
    Serves cmp heap.data (drain cmp fuel heap) := by
  induction fuel generalizing heap with
  | zero =>
      rw [List.length_eq_zero_iff.mp (Nat.le_zero.mp enough)]
      exact .done
  | succ fuel ih =>
      unfold drain
      cases first : heap.top with
      | none =>
          rw [List.head?_eq_none_iff.mp first]
          exact .done
      | some x =>
          obtain ⟨next, popped, isHeap, same⟩ := pop_spec order ordered first
          have shorter := same.length_eq
          rw [List.length_cons] at shorter
          have enoughLeft : next.data.length ≤ fuel := by omega
          rw [popped]
          exact .serve same (top_spec order ordered first).2 (ih isHeap enoughLeft)

end Runs

end BinaryHeap

/-! ## Orders -/

structure Order (PriceT : Type v) where
  price : PriceT
  timestamp : UInt64
  qty : UInt32
  id : UInt32
deriving DecidableEq, Inhabited

section Orders

variable {PriceT : Type v} [LinearOrder PriceT]

def OrderLess (a b : Order PriceT) : Bool :=
  if a.price ≠ b.price then decide (a.price < b.price) else decide (a.timestamp > b.timestamp)

/-- At a better price, or before it at the same one. -/
def Ahead (a b : Order PriceT) : Prop :=
  a.price > b.price ∨ a.price = b.price ∧ a.timestamp < b.timestamp

theorem order_less_iff {a b : Order PriceT} : OrderLess a b = true ↔ Ahead b a := by
  unfold OrderLess Ahead
  split_ifs with different
  · rw [decide_eq_true_iff]
    exact ⟨.inl, fun ahead => ahead.elim id fun same => absurd same.1.symm different⟩
  · have same := Classical.not_not.mp different
    rw [decide_eq_true_iff]
    constructor
    · exact fun later => .inr ⟨same.symm, later⟩
    · rintro (better | ⟨_, later⟩)
      · exact absurd same better.ne
      · exact later

theorem order_less_eq_false_iff {a b : Order PriceT} :
    OrderLess a b = false ↔ ¬ Ahead b a := by
  rw [← order_less_iff, Bool.not_eq_true]

theorem ahead_trans {a b c : Order PriceT} (first : Ahead a b) (second : Ahead b c) :
    Ahead a c := by
  rcases first with better | ⟨same, earlier⟩
  · rcases second with betterToo | ⟨sameToo, _⟩
    · exact .inl (betterToo.trans better)
    · exact .inl (sameToo ▸ better)
  · rcases second with betterToo | ⟨sameToo, earlierToo⟩
    · exact .inl (same ▸ betterToo)
    · exact .inr ⟨same.trans sameToo, UInt64.lt_trans earlier earlierToo⟩

/-- Orders neither of which is ahead tie in both fields. -/
theorem tie_of_not_ahead {a b : Order PriceT} (first : ¬ Ahead a b) (second : ¬ Ahead b a) :
    a.price = b.price ∧ a.timestamp = b.timestamp := by
  have same : a.price = b.price := by
    apply le_antisymm
    · exact not_lt.mp fun better => first (.inl better)
    · exact not_lt.mp fun better => second (.inl better)
  refine ⟨same, ?_⟩
  apply UInt64.le_antisymm
  · exact UInt64.not_lt.mp fun earlier => second (.inr ⟨same.symm, earlier⟩)
  · exact UInt64.not_lt.mp fun earlier => first (.inr ⟨same, earlier⟩)

theorem order_less_strict_weak : StrictWeakOrder (@OrderLess PriceT _) where
  irrefl := by
    intro a
    rw [order_less_eq_false_iff]
    rintro (better | ⟨_, earlier⟩)
    · exact lt_irrefl _ better
    · exact UInt64.lt_irrefl _ earlier
  trans := by
    intro a b c first second
    rw [order_less_iff] at first second ⊢
    exact ahead_trans second first
  equivalent := by
    intro a b c first back second forth
    rw [order_less_eq_false_iff] at first back second forth ⊢
    rw [order_less_eq_false_iff]
    obtain ⟨price, timestamp⟩ := tie_of_not_ahead back first
    obtain ⟨priceToo, timestampToo⟩ := tie_of_not_ahead forth second
    unfold Ahead
    rw [price, timestamp, priceToo, timestampToo]
    have equal : ¬ (c.price > c.price ∨ c.price = c.price ∧ c.timestamp < c.timestamp) := by
      rintro (better | ⟨_, earlier⟩)
      · exact lt_irrefl _ better
      · exact UInt64.lt_irrefl _ earlier
    exact ⟨equal, equal⟩

/-- The drained elements are those of the heap in the order of `Ahead`, and every priority queue
with them drains alike. -/
structure DrainsAhead [Inhabited PriceT] (heap : BinaryHeap (Order PriceT)) : Prop where
  all : (heap.drain OrderLess heap.size).Perm heap.data
  ahead : (heap.drain OrderLess heap.size).Pairwise Ahead
  same : ∀ out, Serves OrderLess heap.data out ↔ out = heap.drain OrderLess heap.size

/-- Distinct timestamps leave no ties. -/
theorem no_ties {content : List (Order PriceT)}
    (distinct : (content.map Order.timestamp).Nodup) :
    ∀ x ∈ content, ∀ y ∈ content, OrderLess x y = false → OrderLess y x = false → x = y := by
  intro x first y second notLess notGreater
  rw [order_less_eq_false_iff] at notLess notGreater
  exact List.inj_on_of_nodup_map distinct first second (tie_of_not_ahead notGreater notLess).2

theorem heap_drains_ahead [Inhabited PriceT] {heap : BinaryHeap (Order PriceT)}
    (ordered : BinaryHeap.IsHeap OrderLess heap.data)
    (distinct : (heap.data.map Order.timestamp).Nodup) : DrainsAhead heap := by
  have serves := BinaryHeap.drain_serves order_less_strict_weak ordered (Nat.le_refl _)
  have nodup : (heap.drain OrderLess heap.size).Nodup :=
    serves.perm.nodup_iff.mpr (List.Nodup.of_map _ distinct)
  refine ⟨serves.perm, ?_, ?_⟩
  · have sorted := List.Pairwise.and serves.sorted nodup
    refine sorted.imp_of_mem ?_
    intro x y first second both
    have notLess := both.1
    apply Classical.byContradiction
    intro behind
    rw [← order_less_iff, Bool.not_eq_true] at behind
    exact both.2 (no_ties distinct x (serves.perm.mem_iff.mp first) y
      (serves.perm.mem_iff.mp second) notLess behind)
  · intro out
    constructor
    · exact fun also => serves.unique also (no_ties distinct)
    · rintro rfl
      exact serves

end Orders

/-- After every sequence of pushes and pops the heap holds what was pushed and not popped,
with a greatest element on top, for every strict weak order. With `OrderLess` and distinct
timestamps it drains by descending price and ascending time, as every priority queue does. -/
theorem heap_priority_queue :
    (∀ (T : Type u) [Inhabited T] (cmp : T → T → Bool) (config : BinaryHeap.Run T),
      StrictWeakOrder cmp → Reachable (BinaryHeap.step cmp) (fun _ _ => True) ⟨[]⟩ config →
        BinaryHeap.Keeps cmp config) ∧
      ∀ (PriceT : Type v) [LinearOrder PriceT] [Inhabited PriceT]
        (config : BinaryHeap.Run (Order PriceT)),
        Reachable (BinaryHeap.step OrderLess) (fun _ _ => True) ⟨[]⟩ config →
          (config.state.data.map Order.timestamp).Nodup → DrainsAhead config.state := by
  constructor
  · intro T _ cmp config order reached
    exact BinaryHeap.reachable_keeps order reached
  · intro PriceT _ _ config reached distinct
    have ordered := (BinaryHeap.reachable_heap order_less_strict_weak reached).1
    exact heap_drains_ahead ordered distinct

/-- Orders at two prices, one of them twice, with a pop in between. -/
def sampleOps : List (HeapOp (Order Int)) :=
  [.push ⟨100, 1, 10, 1⟩, .push ⟨101, 2, 20, 2⟩, .push ⟨100, 0, 30, 3⟩, .pop,
    .push ⟨102, 3, 40, 4⟩]

theorem heap_priority_queue_sample :
    ∃ config : BinaryHeap.Run (Order Int),
      Reachable (BinaryHeap.step OrderLess) (fun _ _ => True) ⟨[]⟩ config ∧
        (config.state.drain OrderLess config.state.size).map Order.id = [4, 3, 1] ∧
        BinaryHeap.Keeps OrderLess config ∧ DrainsAhead config.state := by
  have completes : (execute (BinaryHeap.step OrderLess) (fun _ _ => True)
      (.start (⟨[]⟩ : BinaryHeap (Order Int))) sampleOps).any (fun config =>
        decide ((config.state.drain OrderLess config.state.size).map Order.id = [4, 3, 1] ∧
          (config.state.data.map Order.timestamp).Nodup)) = true := by
    decide
  obtain ⟨config, reached, drained, distinct⟩ := reachable_of_execute_any completes
  exact ⟨config, reached, drained,
    heap_priority_queue.{0, 0}.1 _ _ _ order_less_strict_weak reached,
    heap_priority_queue.{0, 0}.2 _ _ reached distinct⟩

end Finm327.Hw5.PriorityQueue
