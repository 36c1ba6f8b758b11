import Mathlib.Data.List.Perm.Basic
import Finm327.Library.HeapOrder

/-!
# The binary heap

Transcribes `BinaryHeap` of `hw5/part2_priority_queue.cpp`. Both sifts carry a hole through
the array and write the value once, at the end. Their loops run on fuel: rising from place
`i` takes at most `i` turns, and sinking at most as many as the heap has places.
-/

namespace Finm327.Hw5.PriorityQueue

open Finm327.Library.HeapOrder
open Function (update)

universe u

structure BinaryHeap (T : Type u) where
  data : List T
deriving DecidableEq

namespace BinaryHeap

variable {T : Type u} [Inhabited T] (cmp : T → T → Bool)

def siftUpHole (value : T) : Nat → Nat → List T → List T
  | 0, hole, data => data.set hole value
  | fuel + 1, hole, data =>
      if hole > 0 then
        let p := (hole - 1) / 2
        if !cmp data[p]! value then data.set hole value
        else siftUpHole value fuel p (data.set hole data[p]!)
      else data.set hole value

def siftDownHole (value : T) : Nat → Nat → List T → List T
  | 0, hole, data => data.set hole value
  | fuel + 1, hole, data =>
      let n := data.length
      let child := 2 * hole + 1
      if child < n then
        let child :=
          if child + 1 < n ∧ cmp data[child]! data[child + 1]! then child + 1 else child
        if !cmp value data[child]! then data.set hole value
        else siftDownHole value fuel child (data.set hole data[child]!)
      else data.set hole value

omit [Inhabited T] in
def empty (heap : BinaryHeap T) : Bool := heap.data.isEmpty

def size (heap : BinaryHeap T) : Nat := heap.data.length

/-- Not defined on an empty heap. -/
def top (heap : BinaryHeap T) : Option T := heap.data.head?

def push (v : T) (heap : BinaryHeap T) : BinaryHeap T :=
  let data := heap.data ++ [default]
  ⟨siftUpHole cmp v (data.length - 1) (data.length - 1) data⟩

/-- Not defined on an empty heap. -/
def pop (heap : BinaryHeap T) : Option (BinaryHeap T) :=
  match heap.data.getLast? with
  | none => none
  | some tail =>
      let data := heap.data.dropLast
      some ⟨if data = [] then data else siftDownHole cmp tail data.length 0 data⟩

/-! ## The sifts -/

/-- The array as the tree sees it. -/
def entries (data : List T) (i : Nat) : T := data[i]!

theorem entries_set {data : List T} {hole : Nat} (inside : hole < data.length) (x : T) :
    entries (data.set hole x) = update (entries data) hole x := by
  funext i
  unfold entries
  rw [Function.update_apply, getElem!_def, getElem!_def, List.getElem?_set]
  by_cases same : hole = i
  · rw [if_pos same, if_pos (same ▸ inside), if_pos same.symm]
  · rw [if_neg same, if_neg (Ne.symm same)]

theorem entries_of_lt {data : List T} {i : Nat} (inside : i < data.length) :
    entries data i = data[i] := by
  unfold entries
  rw [getElem!_pos data i inside]

theorem entries_append {data more : List T} {i : Nat} (inside : i < data.length) :
    entries (data ++ more) i = entries data i := by
  unfold entries
  rw [getElem!_def, getElem!_def, List.getElem?_append_left inside]

def IsHeap (data : List T) : Prop := Ordered cmp data.length (entries data)

/-- The value that is carried and the entries off the hole are the same after the hole has
moved. -/
theorem hole_moves_perm {data : List T} {hole next : Nat} (inside : hole < data.length)
    (nextInside : next < data.length) (apart : next ≠ hole) (value : T) :
    ((data.set hole (entries data next)).set next value).Perm (data.set hole value) := by
  have first : hole < (data.set hole value).length := by rwa [List.length_set]
  have second : next < (data.set hole value).length := by rwa [List.length_set]
  have swapped := List.set_set_perm first second
  rw [List.getElem_set_self, List.getElem_set_ne (Ne.symm apart), List.set_set] at swapped
  rw [entries_of_lt nextInside]
  exact swapped

variable {cmp} {value : T}

/-- The value is written where it fits. -/
theorem heap_of_filled {data : List T} {hole : Nat}
    (holed : Holed cmp data.length (entries data) hole)
    (above : 0 < hole → cmp (entries data (parent hole)) value = false)
    (below : ∀ i, Below data.length hole i → cmp value (entries data i) = false) :
    IsHeap cmp (data.set hole value) := by
  unfold IsHeap
  rw [List.length_set, entries_set holed.inside]
  exact holed.fill above below

theorem sift_up_hole_spec (order : StrictWeakOrder cmp) {fuel hole : Nat} {data : List T}
    (rising : Rising cmp data.length (entries data) hole value) (enough : hole ≤ fuel) :
    IsHeap cmp (siftUpHole cmp value fuel hole data) ∧
      (siftUpHole cmp value fuel hole data).Perm (data.set hole value) := by
  have inside := rising.holed.inside
  induction fuel generalizing hole data with
  | zero =>
      have bottom : ¬ 0 < hole := Nat.not_lt.mpr enough
      refine ⟨heap_of_filled rising.holed ?_ rising.below, List.Perm.refl _⟩
      exact fun positive => absurd positive bottom
  | succ fuel ih =>
      unfold siftUpHole
      by_cases positive : hole > 0
      · rw [if_pos positive]
        dsimp only
        have upper : parent hole < hole := parent_lt positive
        cases less : cmp data[(hole - 1) / 2]! value with
        | false =>
            exact ⟨heap_of_filled rising.holed (fun _ => less) rising.below, List.Perm.refl _⟩
        | true =>
            have risen := rising.rise order positive less
            rw [← entries_set inside,
              ← @List.length_set _ data hole (entries data (parent hole))] at risen
            have enoughLeft : parent hole ≤ fuel := by omega
            obtain ⟨heap, same⟩ := ih risen enoughLeft risen.holed.inside
            refine ⟨heap, same.trans ?_⟩
            exact hole_moves_perm inside (Nat.lt_trans upper inside) (Nat.ne_of_lt upper) value
      · rw [if_neg positive]
        refine ⟨heap_of_filled rising.holed ?_ rising.below, List.Perm.refl _⟩
        exact fun contrary => absurd contrary positive

/-- The child that the loop goes on with: the greater one, if there are two. -/
theorem greater_child (order : StrictWeakOrder cmp) {data : List T} {hole : Nat}
    (inside : 2 * hole + 1 < data.length) {child : Nat}
    (chosen : child = if 2 * hole + 1 + 1 < data.length ∧
      cmp data[2 * hole + 1]! data[2 * hole + 1 + 1]! then 2 * hole + 1 + 1 else 2 * hole + 1) :
    Below data.length hole child ∧
      ∀ i, Below data.length hole i → cmp (entries data child) (entries data i) = false := by
  have left : Below data.length hole (2 * hole + 1) := by
    refine ⟨Nat.succ_pos _, inside, ?_⟩
    unfold parent
    omega
  by_cases right : 2 * hole + 1 + 1 < data.length ∧
      cmp data[2 * hole + 1]! data[2 * hole + 1 + 1]! = true
  · rw [if_pos right] at chosen
    rw [chosen]
    refine ⟨⟨Nat.succ_pos _, right.1, ?_⟩, ?_⟩
    · unfold parent
      omega
    · intro i below
      rcases below.eq_or with first | second
      · rw [first]
        exact order.asymm right.2
      · rw [second]
        exact order.irrefl _
  · rw [if_neg right] at chosen
    rw [chosen]
    refine ⟨left, ?_⟩
    intro i below
    rcases below.eq_or with first | second
    · rw [first]
      exact order.irrefl _
    · rw [second]
      have there : 2 * hole + 1 + 1 < data.length := second ▸ below.inside
      cases less : cmp (entries data (2 * hole + 1)) (entries data (2 * hole + 2)) with
      | false => rfl
      | true => exact absurd ⟨there, less⟩ right

theorem sift_down_hole_spec (order : StrictWeakOrder cmp) {fuel hole : Nat} {data : List T}
    (sinking : Sinking cmp data.length (entries data) hole value)
    (enough : data.length ≤ hole + fuel) :
    IsHeap cmp (siftDownHole cmp value fuel hole data) ∧
      (siftDownHole cmp value fuel hole data).Perm (data.set hole value) := by
  have inside := sinking.holed.inside
  induction fuel generalizing hole data with
  | zero => omega
  | succ fuel ih =>
      unfold siftDownHole
      dsimp only
      by_cases more : 2 * hole + 1 < data.length
      · rw [if_pos more]
        generalize chosen : (if 2 * hole + 1 + 1 < data.length ∧
          cmp data[2 * hole + 1]! data[2 * hole + 1 + 1]! then 2 * hole + 1 + 1
          else 2 * hole + 1) = child
        obtain ⟨hangs, greatest⟩ := greater_child order more chosen.symm
        cases less : cmp value data[child]! with
        | false =>
            refine ⟨heap_of_filled sinking.holed sinking.above ?_, List.Perm.refl _⟩
            exact fun i below => order.not_less_trans less (greatest i below)
        | true =>
            have sunk := sinking.sink order hangs less greatest
            rw [← entries_set inside,
              ← @List.length_set _ data hole (entries data child)] at sunk
            have lower := hangs.above_lt
            have enoughLeft : (data.set hole (entries data child)).length ≤ child + fuel := by
              rw [List.length_set]
              omega
            obtain ⟨heap, same⟩ := ih sunk enoughLeft sunk.holed.inside
            refine ⟨heap, same.trans ?_⟩
            exact hole_moves_perm inside hangs.inside (Nat.ne_of_gt lower) value
      · rw [if_neg more]
        refine ⟨heap_of_filled sinking.holed sinking.above ?_, List.Perm.refl _⟩
        intro i below
        have bound := below.inside
        rcases below.eq_or with first | second
        · omega
        · omega

/-! ## The operations -/

theorem heap_of_append {data more : List T} (ordered : IsHeap cmp (data ++ more)) :
    IsHeap cmp data := by
  intro above i below
  have further : Below (data ++ more).length above i := by
    refine ⟨below.positive, ?_, below.hangs⟩
    rw [List.length_append]
    exact Nat.lt_add_right _ below.inside
  have inside := below.inside
  have old := ordered above i further
  rw [entries_append inside, entries_append (Nat.lt_trans below.above_lt inside)] at old
  exact old

theorem empty_is_heap : IsHeap cmp ([] : List T) := fun _ _ below => nomatch below.inside

theorem push_spec (order : StrictWeakOrder cmp) {heap : BinaryHeap T}
    (ordered : IsHeap cmp heap.data) (v : T) :
    IsHeap cmp (push cmp v heap).data ∧ (push cmp v heap).data.Perm (v :: heap.data) := by
  have last : (heap.data ++ [default]).length - 1 = heap.data.length := by
    rw [List.length_append, List.length_singleton]
    rfl
  have nothing : ∀ i, ¬ Below (heap.data ++ [default]).length heap.data.length i := by
    intro i below
    have inside := below.inside
    have lower := below.above_lt
    rw [List.length_append, List.length_singleton] at inside
    omega
  have rising : Rising cmp (heap.data ++ [default]).length (entries (heap.data ++ [default]))
      heap.data.length v := by
    refine ⟨⟨?_, ?_, ?_⟩, ?_⟩
    · rw [List.length_append, List.length_singleton]
      exact Nat.lt_succ_self _
    · intro above i below notLast atLast
      have inside := below.inside
      have lower := below.above_lt
      rw [List.length_append, List.length_singleton] at inside
      have within : i < heap.data.length := by omega
      rw [entries_append within, entries_append (Nat.lt_trans lower within)]
      exact ordered above i ⟨below.positive, within, below.hangs⟩
    · exact fun i below => absurd below (nothing i)
    · exact fun i below => absurd below (nothing i)
  obtain ⟨isHeap, same⟩ := sift_up_hole_spec order rising (Nat.le_refl _)
  unfold push
  dsimp only
  rw [last]
  refine ⟨isHeap, same.trans ?_⟩
  rw [List.set_append_right _ _ (Nat.le_refl _), Nat.sub_self]
  exact List.perm_append_singleton v heap.data

theorem pop_spec (order : StrictWeakOrder cmp) {heap : BinaryHeap T}
    (ordered : IsHeap cmp heap.data) {x : T} (first : heap.top = some x) :
    ∃ next, pop cmp heap = some next ∧ IsHeap cmp next.data ∧ (x :: next.data).Perm heap.data := by
  obtain ⟨data⟩ := heap
  have head : data.head? = some x := first
  rcases List.eq_nil_or_concat data with rfl | ⟨init, tail, rfl⟩
  · cases head
  rw [List.concat_eq_append] at ordered head ⊢
  unfold pop
  dsimp only
  rw [List.getLast?_concat, List.dropLast_concat]
  cases init with
  | nil =>
      rw [List.nil_append, List.head?_cons, Option.some.injEq] at head
      exact ⟨⟨[]⟩, rfl, empty_is_heap, by rw [head, List.nil_append]⟩
  | cons y middle =>
      rw [List.cons_append, List.head?_cons, Option.some.injEq] at head
      dsimp only
      rw [if_neg (List.cons_ne_nil y middle)]
      have positive : 0 < (y :: middle).length := Nat.succ_pos _
      have sinking : Sinking cmp (y :: middle).length (entries (y :: middle)) 0 tail :=
        ⟨.of_ordered (heap_of_append ordered) order positive,
          fun contrary => absurd contrary (Nat.lt_irrefl 0)⟩
      obtain ⟨isHeap, same⟩ := sift_down_hole_spec order sinking (Nat.le_add_left _ 0)
      refine ⟨_, rfl, isHeap, ?_⟩
      rw [List.set_cons_zero] at same
      have back : (tail :: middle).Perm (middle ++ [tail]) :=
        (List.perm_append_singleton tail middle).symm
      rw [head] at same ⊢
      exact (same.trans back).cons x

/-- Nothing stored is greater than the top. -/
theorem top_spec (order : StrictWeakOrder cmp) {heap : BinaryHeap T}
    (ordered : IsHeap cmp heap.data) {x : T} (first : heap.top = some x) :
    x ∈ heap.data ∧ ∀ y ∈ heap.data, cmp x y = false := by
  refine ⟨List.mem_of_head? first, ?_⟩
  intro y member
  obtain ⟨i, inside, same⟩ := List.mem_iff_getElem.mp member
  have root : entries heap.data 0 = x := by
    have positive : 0 < heap.data.length := Nat.lt_of_le_of_lt (Nat.zero_le i) inside
    rw [entries_of_lt positive]
    apply Option.some.inj
    rw [← List.getElem?_eq_getElem positive, ← List.head?_eq_getElem?]
    exact first
  have least := ordered.top order inside
  rw [root, entries_of_lt inside, same] at least
  exact least

end BinaryHeap

end Finm327.Hw5.PriorityQueue
