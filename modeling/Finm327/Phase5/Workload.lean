import Mathlib.Algebra.Ring.Int.Defs
import Mathlib.Data.Fintype.Card
import Finm327.Phase5.Equivalence
import Finm327.Phase5.PoolUse

/-!
# The workload of the benchmark

Transcribes `build_ops`, `build_ids`, `run_workload` and the mixed part of `main` of
`phase5/src/benchmark.cpp`. What the generator draws is an argument: an index is one of the
added orders and the shuffle gives a permutation. The times are left out. The result is that the
two books are given work that both can do and that leaves both in the same state.
-/

namespace Finm327.Phase5

open Finm327.Library.Maps
open Finm327.Library.Runs

namespace Benchmark

inductive Kind
  | add
  | modify
  | delete
deriving DecidableEq, Repr

structure BenchOp (PriceT : Type) (n : Nat) where
  kind : Kind
  idx : Fin n
  price : PriceT
  qty : Int
  isBuy : Bool
deriving DecidableEq, Repr

/-- One round of the distributions. -/
structure Draw (PriceT : Type) (n : Nat) where
  price : PriceT
  qty : Int
  coin : Bool
  idx : Fin n

/-- What `build_ops` gets from `rng`. -/
structure Rng (PriceT : Type) (n : Nat) where
  adds : Fin n → Draw PriceT n
  mods : Nat → Draw PriceT n
  dels : Nat → Draw PriceT n
  shuffle : List (BenchOp PriceT n) → List (BenchOp PriceT n)
  shuffle_perm : ∀ ops, (shuffle ops).Perm ops

variable {PriceT : Type} {n : Nat}

def buildAdds (rng : Rng PriceT n) : List (BenchOp PriceT n) :=
  (List.finRange n).map fun i =>
    ⟨.add, i, (rng.adds i).price, (rng.adds i).qty, (rng.adds i).coin⟩

/-- The modifications and deletions before the shuffle. -/
def buildChanges [Zero PriceT] (nMod nDel : Nat) (rng : Rng PriceT n) : List (BenchOp PriceT n) :=
  (List.range nMod).map (fun i =>
    ⟨.modify, (rng.mods i).idx, (rng.mods i).price, (rng.mods i).qty, false⟩) ++
    (List.range nDel).map fun i => ⟨.delete, (rng.dels i).idx, 0, 0, false⟩

def buildOps [Zero PriceT] (nMod nDel : Nat) (rng : Rng PriceT n) : List (BenchOp PriceT n) :=
  buildAdds rng ++ rng.shuffle (buildChanges nMod nDel rng)

/-- `ids[i]`. -/
def orderId (i : Nat) : String := "ORD" ++ toString i

/-- What one turn of the loop of `run_workload` asks of a book. -/
def BenchOp.call (op : BenchOp PriceT n) : Op PriceT :=
  match op.kind with
  | .add => .addOrder (orderId op.idx) op.price op.qty op.isBuy
  | .modify => .modifyOrder (orderId op.idx) op.price op.qty
  | .delete => .deleteOrder (orderId op.idx)

def runWorkload {Book : Type} (step : Book → Op PriceT → Option (Book × Unit)) (book : Book)
    (ops : List (BenchOp PriceT n)) : Option Book :=
  ops.foldlM (fun book op => (step book op.call).map Prod.fst) book

theorem order_id_injective {i j : Nat} (same : orderId i = orderId j) : i = j := by
  have texts := congrArg String.toList same
  simp only [orderId, String.toList_append, List.append_cancel_left_eq] at texts
  have digits : Nat.toDigits 10 i = Nat.toDigits 10 j := by
    rw [← Nat.toList_repr, ← Nat.toList_repr]
    exact texts
  rw [← Nat.ofDigitChars_ten_toDigits (n := i), digits, Nat.ofDigitChars_ten_toDigits]

/-! ## The orders that are left -/

/-- The indices of the live orders after some operations. -/
def alive (ops : List (BenchOp PriceT n)) : Finset (Fin n) :=
  ops.foldl (fun left op =>
    match op.kind with
    | .add => insert op.idx left
    | .modify => left
    | .delete => left.erase op.idx) ∅

theorem alive_append (ops : List (BenchOp PriceT n)) (op : BenchOp PriceT n) :
    alive (ops ++ [op]) =
      match op.kind with
      | .add => insert op.idx (alive ops)
      | .modify => alive ops
      | .delete => (alive ops).erase op.idx := by
  rw [alive, List.foldl_append]
  rfl

/-- The indices of a kind of operations, in order. -/
def indices (kind : Kind) (ops : List (BenchOp PriceT n)) : List (Fin n) :=
  (ops.filter fun op => op.kind = kind).map BenchOp.idx

theorem indices_append (kind : Kind) (first second : List (BenchOp PriceT n)) :
    indices kind (first ++ second) = indices kind first ++ indices kind second := by
  simp [indices]

theorem indices_singleton (kind : Kind) (op : BenchOp PriceT n) :
    indices kind [op] = if op.kind = kind then [op.idx] else [] := by
  by_cases same : op.kind = kind
  · simp [indices, same]
  · simp [indices, same]

theorem alive_added {ops : List (BenchOp PriceT n)} {i : Fin n} (left : i ∈ alive ops) :
    i ∈ indices .add ops := by
  induction ops using List.reverseRecOn with
  | nil => exact absurd left (Finset.notMem_empty i)
  | append_singleton ops op ih =>
      rw [alive_append] at left
      rw [indices_append, List.mem_append, indices_singleton]
      cases kind : op.kind with
      | add =>
          rw [kind, Finset.mem_insert] at left
          rcases left with own | earlier
          · exact .inr (by simp [own])
          · exact .inl (ih earlier)
      | modify =>
          rw [kind] at left
          exact .inl (ih left)
      | delete =>
          rw [kind] at left
          exact .inl (ih (Finset.mem_of_mem_erase left))

/-- An operation adds an order that is not there. -/
theorem add_fresh {ops : List (BenchOp PriceT n)} {op : BenchOp PriceT n}
    (once : (indices .add (ops ++ [op])).Nodup) (adds : op.kind = .add) : op.idx ∉ alive ops := by
  rw [indices_append, indices_singleton, if_pos adds, List.nodup_append] at once
  exact fun left => once.2.2 op.idx (alive_added left) op.idx (List.mem_singleton_self _) rfl

/-! ## Both books at work -/

variable [LinearOrder PriceT]

/-- The two books hold the same live orders, those with the given indices. -/
structure InStep (capacity : Nat) (left : Finset (Fin n)) (book : OrderBook PriceT)
    (optimized : OptimizedOrderBook PriceT) (arrivals : Arrivals PriceT) : Prop where
  shows : book.Shows arrivals.live
  refines : optimized.Refines Eq capacity arrivals
  left : ∀ id, arrivals.live id ≠ none ↔ ∃ i ∈ left, id = orderId i

omit [LinearOrder PriceT] in
/-- The live ids follow the indices. -/
theorem live_step_iff {live : Live PriceT} {ops : List (BenchOp PriceT n)}
    (before : ∀ id, live id ≠ none ↔ ∃ i ∈ alive ops, id = orderId i) (op : BenchOp PriceT n)
    (id : String) :
    live.step op.call id ≠ none ↔ ∃ i ∈ alive (ops ++ [op]), id = orderId i := by
  rw [alive_append]
  cases kind : op.kind with
  | add =>
      simp only [BenchOp.call, kind, Live.step, Function.update_apply, Finset.mem_insert,
        or_and_right, exists_or, exists_eq_left]
      by_cases own : id = orderId op.idx
      · simp [own]
      · simp only [own, if_false, false_or]
        exact before id
  | modify =>
      simp only [BenchOp.call, kind]
      cases held : live (orderId op.idx) with
      | none =>
          rw [Live.step_modify_dead held]
          exact before id
      | some old =>
          rw [Live.step_modify_live held, Function.update_apply]
          by_cases own : id = orderId op.idx
          · rw [if_pos own, ← before, own, held]
            simp
          · rw [if_neg own]
            exact before id
  | delete =>
      simp only [BenchOp.call, kind, Live.step, Function.update_apply]
      by_cases own : id = orderId op.idx
      · rw [if_pos own]
        constructor
        · exact fun contrary => absurd rfl contrary
        · rintro ⟨i, left, named⟩
          have same : i = op.idx := Fin.ext (order_id_injective (named.symm.trans own))
          exact absurd same (Finset.ne_of_mem_erase left)
      · rw [if_neg own, before]
        constructor
        · rintro ⟨i, left, named⟩
          refine ⟨i, Finset.mem_erase.mpr ⟨?_, left⟩, named⟩
          intro same
          exact own (by rw [named, same])
        · rintro ⟨i, left, named⟩
          exact ⟨i, Finset.mem_of_mem_erase left, named⟩

/-- The size of a book is the number of indices. -/
theorem size_of_in_step {capacity : Nat} {left : Finset (Fin n)} {book : OrderBook PriceT}
    {optimized : OptimizedOrderBook PriceT} {arrivals : Arrivals PriceT}
    (inStep : InStep capacity left book optimized arrivals) : book.size = left.card := by
  have keys : book.orderLookup.keys.toFinset = left.image (fun i : Fin n => orderId i) := by
    ext id
    rw [List.mem_toFinset, ← AList.mem_keys, mem_iff_lookup, Finset.mem_image,
      ← Option.ne_none_iff_exists', inStep.shows.lookup, inStep.left]
    simp only [eq_comm]
  rw [OrderBook.size, Library.Maps.size, ← List.toFinset_card_of_nodup book.orderLookup.keys_nodup,
    keys, Finset.card_image_of_injective]
  exact fun i j same => Fin.ext (order_id_injective same)

/-- The ids in a book are those of the indices. -/
theorem contains_iff {capacity : Nat} {left : Finset (Fin n)} {book : OrderBook PriceT}
    {optimized : OptimizedOrderBook PriceT} {arrivals : Arrivals PriceT}
    (inStep : InStep capacity left book optimized arrivals) (id : String) :
    book.contains id = true ↔ ∃ i ∈ left, id = orderId i := by
  rw [OrderBook.contains, decide_eq_true_iff, mem_iff_lookup, ← Option.ne_none_iff_exists',
    inStep.shows.lookup, inStep.left]

omit [LinearOrder PriceT] in
theorem run_workload_append {Book : Type} (step : Book → Op PriceT → Option (Book × Unit))
    (book : Book) (ops : List (BenchOp PriceT n)) (op : BenchOp PriceT n) :
    runWorkload step book (ops ++ [op]) =
      (runWorkload step book ops).bind fun book => (step book op.call).map Prod.fst := by
  rw [runWorkload, List.foldlM_append]
  simp only [List.foldlM_cons, List.foldlM_nil, bind_pure]
  rfl

/-- Both books get through a workload that adds each order once, and stay inStep. -/
theorem workload_in_step {capacity : Nat} (room : n ≤ capacity) (ops : List (BenchOp PriceT n))
    (once : (indices .add ops).Nodup) :
    ∃ book optimized arrivals,
      runWorkload OrderBook.step OrderBook.initial ops = some book ∧
      runWorkload OptimizedOrderBook.step (OptimizedOrderBook.initial capacity) ops =
        some optimized ∧
      InStep capacity (alive ops) book optimized arrivals := by
  induction ops using List.reverseRecOn with
  | nil =>
      refine ⟨_, _, [], rfl, rfl, OrderBook.initial_shows,
        OptimizedOrderBook.initial_refines capacity, ?_⟩
      simp [alive, Arrivals.live]
  | append_singleton ops op ih =>
      have earlier : (indices .add ops).Nodup := by
        rw [indices_append] at once
        exact once.of_append_left
      obtain ⟨book, optimized, arrivals, ran, ranToo, inStep⟩ := ih earlier
      have agree := books_agree_of_shows inStep.shows
        (OptimizedOrderBook.shows_of_refines inStep.refines)
      have dead : op.kind = .add → arrivals.live (orderId op.idx) = none := by
        intro adds
        by_contra held
        obtain ⟨i, left, named⟩ := (inStep.left _).mp held
        have same : op.idx = i := Fin.ext (order_id_injective named)
        exact add_fresh once adds (same ▸ left)
      have fresh : ∀ id price quantity isBuy, op.call = .addOrder id price quantity isBuy →
          arrivals.live id = none := by
        intro id price quantity isBuy called
        unfold BenchOp.call at called
        split at called
        · rename_i adds
          cases called
          exact dead adds
        · cases called
        · cases called
      have permitted : OptimizedOrderBook.addsNew capacity (.start optimized) op.call := by
        unfold BenchOp.call
        split
        · rename_i adds
          constructor
          · rw [Config.start_state, agree.contains, OrderBook.contains, decide_eq_false_iff_not,
              mem_iff_lookup, inStep.shows.lookup, dead adds]
            exact nofun
          · rw [Config.start_state, agree.size, size_of_in_step inStep]
            exact (Finset.card_lt_univ_of_notMem (add_fresh once adds)).trans_le
              ((Fintype.card_fin n).trans_le room)
        · trivial
        · trivial
      obtain ⟨next, steps⟩ : ∃ next, book.step op.call = some (next, ()) := by
        cases op.call <;> exact ⟨_, rfl⟩
      obtain ⟨image, stepsToo, refines⟩ :=
        OptimizedOrderBook.step_refines OptimizedOrderBook.places_own_price inStep.refines permitted
      refine ⟨next, image, arrivals.step op.call, ?_, ?_, ?_, refines, ?_⟩
      · rw [run_workload_append, ran, Option.bind_some, steps]
        rfl
      · rw [run_workload_append, ranToo, Option.bind_some]
        rw [Config.start_state] at stepsToo
        rw [stepsToo]
        rfl
      · rw [Arrivals.live_step fresh]
        exact OrderBook.step_shows inStep.shows fresh steps
      · intro id
        rw [Arrivals.live_step fresh]
        exact live_step_iff inStep.left op id

/-! ## The benchmark -/

section Built

omit [LinearOrder PriceT]

theorem indices_of_kind {kind : Kind} {ops : List (BenchOp PriceT n)}
    (other : ∀ op ∈ ops, op.kind ≠ kind) : indices kind ops = [] := by
  rw [indices, List.filter_eq_nil_iff.mpr, List.map_nil]
  intro op member
  simp [other op member]

theorem indices_build_adds (rng : Rng PriceT n) :
    indices .add (buildAdds rng) = List.finRange n := by
  simp [indices, buildAdds, List.filter_map, Function.comp_def]

theorem changes_kind [Zero PriceT] (nMod nDel : Nat) (rng : Rng PriceT n) :
    ∀ op ∈ rng.shuffle (buildChanges nMod nDel rng), op.kind ≠ .add := by
  intro op member
  rw [(rng.shuffle_perm _).mem_iff, buildChanges, List.mem_append, List.mem_map,
    List.mem_map] at member
  rcases member with ⟨i, _, rfl⟩ | ⟨i, _, rfl⟩
  · exact nofun
  · exact nofun

theorem adds_once [Zero PriceT] (nMod nDel : Nat) (rng : Rng PriceT n) :
    (indices .add (buildOps nMod nDel rng)).Nodup := by
  rw [buildOps, indices_append, indices_build_adds, indices_of_kind (changes_kind nMod nDel rng),
    List.append_nil]
  exact List.nodup_finRange n

/-- Without adds, what is deleted is all that goes. -/
theorem alive_changes (adds : List (BenchOp PriceT n)) {changes : List (BenchOp PriceT n)}
    (other : ∀ op ∈ changes, op.kind ≠ .add) :
    alive (adds ++ changes) = alive adds \ (indices .delete changes).toFinset := by
  induction changes using List.reverseRecOn with
  | nil => simp [indices]
  | append_singleton changes op ih =>
      have before := ih fun op member => other op (List.mem_append_left _ member)
      rw [← List.append_assoc, alive_append, before, indices_append, indices_singleton]
      cases kind : op.kind with
      | add => exact absurd kind (other op (List.mem_append_right _ (List.mem_singleton_self _)))
      | modify => simp
      | delete =>
          ext i
          simp
          tauto

/-- Without deletes, everything that is added is there. -/
theorem alive_adds {adds : List (BenchOp PriceT n)} (same : ∀ op ∈ adds, op.kind = .add) :
    alive adds = (indices .add adds).toFinset := by
  induction adds using List.reverseRecOn with
  | nil => rfl
  | append_singleton adds op ih =>
      have before := ih fun op member => same op (List.mem_append_left _ member)
      have own := same op (List.mem_append_right _ (List.mem_singleton_self _))
      rw [alive_append, before, own, indices_append, indices_singleton, if_pos own]
      ext i
      simp

theorem alive_build_adds (rng : Rng PriceT n) : alive (buildAdds rng) = Finset.univ := by
  have same : ∀ op ∈ buildAdds rng, op.kind = .add := by
    intro op member
    obtain ⟨i, _, rfl⟩ := List.mem_map.mp member
    rfl
  rw [alive_adds same, indices_build_adds]
  ext i
  simp

/-- What is left of the benchmark's orders is what no operation deletes. -/
theorem alive_build_ops [Zero PriceT] (nMod nDel : Nat) (rng : Rng PriceT n) :
    alive (buildOps nMod nDel rng) =
      Finset.univ \ (indices .delete (buildOps nMod nDel rng)).toFinset := by
  have none : indices .delete (buildAdds rng) = [] := by
    apply indices_of_kind
    intro op member
    obtain ⟨i, _, rfl⟩ := List.mem_map.mp member
    exact nofun
  rw [buildOps, alive_changes _ (changes_kind nMod nDel rng), alive_build_adds, indices_append,
    none, List.nil_append]

end Built

/-- The mixed part of the benchmark is sound work for both books: at every moment neither book has
done anything undefined, the two agree, and the pool, made for 16 more orders than are added, has
one slot in use for each order; in the end exactly the orders are left that no operation deletes. -/
theorem benchmark_in_step [Zero PriceT] (nMod nDel : Nat) (rng : Rng PriceT n) :
    (∀ k, ∃ book optimized,
      runWorkload OrderBook.step OrderBook.initial ((buildOps nMod nDel rng).take k) =
        some book ∧
      runWorkload OptimizedOrderBook.step (OptimizedOrderBook.initial (n + 16))
        ((buildOps nMod nDel rng).take k) = some optimized ∧
      BooksAgree book optimized ∧ optimized.pool.inUse = book.size ∧ book.size ≤ n) ∧
    ∃ book optimized,
      runWorkload OrderBook.step OrderBook.initial (buildOps nMod nDel rng) = some book ∧
      runWorkload OptimizedOrderBook.step (OptimizedOrderBook.initial (n + 16))
        (buildOps nMod nDel rng) = some optimized ∧
      BooksAgree book optimized ∧
      (∀ id, book.contains id = true ↔
        ∃ i, i ∉ indices .delete (buildOps nMod nDel rng) ∧ id = orderId i) ∧
      book.size + (indices .delete (buildOps nMod nDel rng)).toFinset.card = n := by
  constructor
  · intro k
    have once : (indices .add ((buildOps nMod nDel rng).take k)).Nodup := by
      have whole := adds_once nMod nDel rng
      rw [← List.take_append_drop k (buildOps nMod nDel rng), indices_append] at whole
      exact whole.of_append_left
    obtain ⟨book, optimized, arrivals, ran, ranToo, inStep⟩ :=
      workload_in_step (Nat.le_add_right n 16) _ once
    have agree := books_agree_of_shows inStep.shows
      (OptimizedOrderBook.shows_of_refines inStep.refines)
    refine ⟨book, optimized, ran, ranToo, agree, ?_, ?_⟩
    · rw [OptimizedOrderBook.in_use_eq inStep.refines, agree.size]
    · rw [size_of_in_step inStep]
      exact (Finset.card_le_univ _).trans_eq (Fintype.card_fin n)
  · obtain ⟨book, optimized, arrivals, ran, ranToo, inStep⟩ :=
      workload_in_step (Nat.le_add_right n 16) _ (adds_once nMod nDel rng)
    refine ⟨book, optimized, ran, ranToo, books_agree_of_shows inStep.shows
      (OptimizedOrderBook.shows_of_refines inStep.refines), ?_, ?_⟩
    · intro id
      rw [contains_iff inStep, alive_build_ops]
      simp
    · rw [size_of_in_step inStep, alive_build_ops,
        Finset.card_sdiff_add_card_eq_card (Finset.subset_univ _), Finset.card_univ,
        Fintype.card_fin]

/-- A generator that modifies and deletes the middle one of three orders and moves the first
one, with a shuffle that reverses. -/
def sampleRng : Rng Int 3 where
  adds := fun i => ⟨50 + i, 1, true, i⟩
  mods := fun i => if i = 0 then ⟨60, 2, true, 0⟩ else ⟨61, 3, false, 1⟩
  dels := fun _ => ⟨0, 0, false, 1⟩
  shuffle := List.reverse
  shuffle_perm := List.reverse_perm

theorem benchmark_in_step_sample :
    indices .delete (buildOps 2 2 sampleRng) = [1, 1] ∧ ∃ book optimized,
      runWorkload OrderBook.step OrderBook.initial (buildOps 2 2 sampleRng) = some book ∧
      runWorkload OptimizedOrderBook.step (OptimizedOrderBook.initial 19)
        (buildOps 2 2 sampleRng) = some optimized ∧
      BooksAgree book optimized ∧
      (∀ id, book.contains id = true ↔
        ∃ i, i ∉ indices .delete (buildOps 2 2 sampleRng) ∧ id = orderId i) ∧
      book.size + (indices .delete (buildOps 2 2 sampleRng)).toFinset.card = 3 :=
  ⟨rfl, (benchmark_in_step 2 2 sampleRng).2⟩

end Benchmark

end Finm327.Phase5
