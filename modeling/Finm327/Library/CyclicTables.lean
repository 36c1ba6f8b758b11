import Mathlib.Data.Finset.Card
import Mathlib.Data.Finset.Max
import Mathlib.Data.Nat.Bitwise
import Mathlib.Logic.Function.Basic

/-!
# Circular probe tables

Positions of a table with `capacity` cells, read as a ring, and the order that
linear probing with displacement keeps: a label of zero marks an empty cell, and
along the ring a label grows by at most one. Hence a cell with label `d` is
preceded by `d - 1` cells in use.
-/

namespace Finm327.Library.CyclicTables

open Function (update)

def next (capacity i : Nat) : Nat := if i + 1 = capacity then 0 else i + 1

/-- The number of steps from `i` forward to `j`. -/
def gap (capacity i j : Nat) : Nat := if i ≤ j then j - i else j + capacity - i

variable {capacity : Nat}

theorem next_lt {i : Nat} (inside : i < capacity) : next capacity i < capacity := by
  unfold next
  split <;> omega

theorem gap_lt {i j : Nat} (insideTo : j < capacity) :
    gap capacity i j < capacity := by
  unfold gap
  split <;> omega

@[simp] theorem gap_self (i : Nat) : gap capacity i i = 0 := by
  simp [gap]

theorem eq_of_gap_eq_zero {i j : Nat} (inside : i < capacity)
    (none : gap capacity i j = 0) : i = j := by
  unfold gap at none
  split at none <;> omega

theorem gap_next_left {i j : Nat} (inside : i < capacity) (insideTo : j < capacity)
    (apart : i ≠ j) : gap capacity (next capacity i) j + 1 = gap capacity i j := by
  unfold gap next
  split_ifs <;> omega

theorem gap_next_right {i j : Nat} (inside : i < capacity)
    (apart : next capacity j ≠ i) :
    gap capacity i (next capacity j) = gap capacity i j + 1 := by
  unfold gap next at *
  split_ifs at * <;> omega

theorem gap_next_right_of_lt {i j : Nat} (inside : i < capacity)
    (short : gap capacity i j + 1 < capacity) :
    gap capacity i (next capacity j) = gap capacity i j + 1 := by
  apply gap_next_right inside
  intro closes
  unfold gap next at *
  split_ifs at * <;> omega

/-- A cell that is met on the way splits the distance. -/
theorem gap_add_gap {i j k : Nat} (inside : i < capacity) (insideVia : j < capacity)
    (insideTo : k < capacity) (onWay : gap capacity i j ≤ gap capacity i k) :
    gap capacity i j + gap capacity j k = gap capacity i k := by
  unfold gap at *
  split_ifs at * <;> omega

/-- A mask of ones selects the same cells as the wrap-around step. -/
theorem add_one_and_mask {exponent i : Nat} (inside : i < 2 ^ exponent) :
    (i + 1) &&& (2 ^ exponent - 1) = next (2 ^ exponent) i := by
  rw [Nat.and_two_pow_sub_one_eq_mod]
  unfold next
  split
  case isTrue wraps => rw [wraps, Nat.mod_self]
  case isFalse stays => exact Nat.mod_eq_of_lt (by omega)

/-- Along the ring a label grows by at most one. -/
def Ordered (capacity : Nat) (label : Nat → Nat) : Prop :=
  ∀ i, i < capacity → label (next capacity i) ≤ label i + 1

def occupied (capacity : Nat) (label : Nat → Nat) : Finset Nat :=
  (Finset.range capacity).filter (fun i => label i ≠ 0)

section Order

variable {label : Nat → Nat}

theorem ordered_along (ordered : Ordered capacity label) {i j : Nat} (inside : i < capacity)
    (insideTo : j < capacity) : label j ≤ label i + gap capacity i j := by
  induction steps : gap capacity i j generalizing i with
  | zero =>
      rw [eq_of_gap_eq_zero inside steps]
      omega
  | succ n ih =>
      have apart : i ≠ j := by
        intro same
        rw [same, gap_self] at steps
        omega
      have shorter := gap_next_left inside insideTo apart
      have rest := ih (next_lt inside) (by omega)
      have here := ordered i inside
      omega

theorem ordered_update (ordered : Ordered capacity label) {i height : Nat}
    (before : ∀ j, j < capacity → next capacity j = i → height ≤ label j + 1)
    (after : label (next capacity i) ≤ height + 1) :
    Ordered capacity (update label i height) := by
  intro j inside
  by_cases here : j = i
  · rw [here, Function.update_self]
    by_cases loops : next capacity i = i
    · rw [loops, Function.update_self]
      omega
    · rw [Function.update_of_ne loops]
      exact after
  · rw [Function.update_of_ne here]
    by_cases reaches : next capacity j = i
    · rw [reaches, Function.update_self]
      exact before j inside reaches
    · rw [Function.update_of_ne reaches]
      exact ordered j inside

theorem mem_occupied {i : Nat} : i ∈ occupied capacity label ↔ i < capacity ∧ label i ≠ 0 := by
  simp [occupied]

theorem exists_empty (room : (occupied capacity label).card < capacity) :
    ∃ i, i < capacity ∧ label i = 0 := by
  by_contra full
  have all : occupied capacity label = Finset.range capacity := by
    apply Finset.filter_true_of_mem
    intro i inside empty
    exact full ⟨i, Finset.mem_range.mp inside, empty⟩
  rw [all, Finset.card_range] at room
  omega

/-- The cells that lead up to a cell are in use, as many as its label says. -/
theorem label_le_card (ordered : Ordered capacity label) {j : Nat} (inside : j < capacity)
    (short : label j ≤ capacity) : label j ≤ (occupied capacity label).card := by
  let back : Nat → Nat := fun n => if n ≤ j then j - n else j + capacity - n
  have steps : ∀ n, n < capacity → back n < capacity ∧ gap capacity (back n) j = n := by
    intro n small
    dsimp only [back]
    unfold gap
    split_ifs <;> omega
  have inUse : ∀ n ∈ Finset.range (label j), back n ∈ occupied capacity label := by
    intro n close
    rw [Finset.mem_range] at close
    obtain ⟨within, away⟩ := steps n (by omega)
    have along := ordered_along ordered within inside
    rw [mem_occupied]
    exact ⟨within, by omega⟩
  have apart : Set.InjOn back (Finset.range (label j)) := by
    intro n small m smallToo same
    rw [Finset.mem_coe, Finset.mem_range] at small smallToo
    rw [← (steps n (by omega)).2, ← (steps m (by omega)).2, same]
  calc label j = (Finset.range (label j)).card := (Finset.card_range _).symm
    _ ≤ (occupied capacity label).card := Finset.card_le_card_of_injOn back inUse apart

theorem occupied_update_of_ne_zero {i height : Nat} (inside : i < capacity) (used : height ≠ 0) :
    occupied capacity (update label i height) = insert i (occupied capacity label) := by
  ext j
  rw [Finset.mem_insert, mem_occupied, mem_occupied]
  by_cases here : j = i
  · subst here
    simp [inside, used]
  · simp [here]

theorem occupied_update_zero {i : Nat} :
    occupied capacity (update label i 0) = (occupied capacity label).erase i := by
  ext j
  rw [Finset.mem_erase, mem_occupied, mem_occupied]
  by_cases here : j = i
  · subst here
    simp
  · simp [here]

/-- An empty cell that is filled counts once. -/
theorem card_occupied_fill {i height : Nat} (inside : i < capacity) (empty : label i = 0)
    (used : height ≠ 0) :
    (occupied capacity (update label i height)).card = (occupied capacity label).card + 1 := by
  rw [occupied_update_of_ne_zero inside used, Finset.card_insert_of_notMem]
  intro member
  exact (mem_occupied.mp member).2 empty

theorem card_occupied_update_le (i height : Nat) :
    (occupied capacity (update label i height)).card ≤ (occupied capacity label).card + 1 := by
  refine (Finset.card_le_card ?_).trans (Finset.card_insert_le i _)
  intro j member
  rw [Finset.mem_insert, mem_occupied]
  rw [mem_occupied] at member
  by_cases here : j = i
  · exact .inl here
  · rw [Function.update_of_ne here] at member
    exact .inr member

theorem card_occupied_replace {i height : Nat} (inside : i < capacity) (full : label i ≠ 0)
    (used : height ≠ 0) :
    (occupied capacity (update label i height)).card = (occupied capacity label).card := by
  rw [occupied_update_of_ne_zero inside used, Finset.insert_eq_of_mem]
  exact mem_occupied.mpr ⟨inside, full⟩

theorem card_occupied_clear {i : Nat} (inside : i < capacity) (full : label i ≠ 0) :
    (occupied capacity (update label i 0)).card + 1 = (occupied capacity label).card := by
  rw [occupied_update_zero]
  exact Finset.card_erase_add_one (mem_occupied.mpr ⟨inside, full⟩)

theorem occupied_succ (count : Nat) :
    occupied (count + 1) label =
      if label count ≠ 0 then insert count (occupied count label) else occupied count label := by
  rw [occupied, Finset.range_add_one, Finset.filter_insert]
  rfl

theorem card_occupied_succ {count : Nat} (full : label count ≠ 0) :
    (occupied (count + 1) label).card = (occupied count label).card + 1 := by
  rw [occupied_succ, if_pos full, Finset.card_insert_of_notMem]
  intro member
  have below := (mem_occupied.mp member).1
  omega

theorem card_occupied_mono {few many : Nat} (fewer : few ≤ many) :
    (occupied few label).card ≤ (occupied many label).card := by
  apply Finset.card_le_card
  intro i member
  rw [mem_occupied] at member ⊢
  exact ⟨by omega, member.2⟩

end Order

/-! ## The homes determine the labels

When each cell in use stands as far from its home as its label says, the labels depend only on
how many cells in use have each home. A cell has a label above `k` exactly when some stretch of
the ring that ends at it has more cells with a home `k` or more before its end than it has cells
before its end.
-/

/-- The cell `n` steps after `b`. -/
def ahead (capacity b n : Nat) : Nat := if b + n < capacity then b + n else b + n - capacity

theorem ahead_lt {b n : Nat} (inside : b < capacity) (close : n < capacity) :
    ahead capacity b n < capacity := by
  unfold ahead
  split_ifs <;> omega

theorem gap_ahead {b n : Nat} (inside : b < capacity) (close : n < capacity) :
    gap capacity b (ahead capacity b n) = n := by
  unfold gap ahead
  split_ifs <;> omega

theorem gap_injective {b i j : Nat} (insideFrom : b < capacity) (inside : i < capacity)
    (insideToo : j < capacity) (same : gap capacity b i = gap capacity b j) : i = j := by
  unfold gap at same
  split_ifs at same <;> omega

theorem gap_next_of_ne {e i : Nat} (inside : e < capacity) (insideTo : i < capacity)
    (apart : e ≠ i) : gap capacity e i = gap capacity (next capacity e) i + 1 :=
  (gap_next_left inside insideTo apart).symm

/-- A start that is met on the way back splits the distance. -/
theorem gap_add_gap_of_le {b h i : Nat} (inside : b < capacity) (insideVia : h < capacity)
    (onWay : gap capacity h i ≤ gap capacity b i) :
    gap capacity b h + gap capacity h i = gap capacity b i := by
  unfold gap at *
  split_ifs at * <;> omega

structure Settled (capacity : Nat) (label home : Nat → Nat) : Prop where
  ordered : Ordered capacity label
  homed : ∀ i, i < capacity → label i ≠ 0 → home i < capacity
  settled : ∀ i, i < capacity → label i ≠ 0 → label i = gap capacity (home i) i + 1
  room : ∃ e, e < capacity ∧ label e = 0

section Settled

variable {label home : Nat → Nat}

/-- The cells in use whose home lies in the stretch from `b` to `i`, at least `k` before `i`. -/
def homedBefore (capacity : Nat) (label home : Nat → Nat) (b i k : Nat) : Finset Nat :=
  (occupied capacity label).filter (fun j => gap capacity b (home j) + k ≤ gap capacity b i)

/-- More cells than the stretch holds before `i`: one of them is pushed to `i` or past it. -/
theorem Settled.lt_label_of_card (arranged : Settled capacity label home) {b i k : Nat}
    (insideFrom : b < capacity) (inside : i < capacity)
    (crowded : gap capacity b i < (homedBefore capacity label home b i k).card) :
    k < label i := by
  have few : ((Finset.range capacity).filter fun p => gap capacity b p < gap capacity b i).card ≤
      gap capacity b i := by
    refine le_of_le_of_eq ?_ (Finset.card_range (gap capacity b i))
    apply Finset.card_le_card_of_injOn (gap capacity b)
    · intro p member
      exact Finset.mem_coe.mpr (Finset.mem_range.mpr (Finset.mem_filter.mp member).2)
    · intro p member q memberToo same
      exact gap_injective insideFrom (Finset.mem_range.mp (Finset.mem_filter.mp member).1)
        (Finset.mem_range.mp (Finset.mem_filter.mp memberToo).1) same
  obtain ⟨j, member, outside⟩ := Finset.exists_mem_notMem_of_card_lt_card (few.trans_lt crowded)
  obtain ⟨inUse, before⟩ := Finset.mem_filter.mp member
  obtain ⟨insideTo, full⟩ := mem_occupied.mp inUse
  have homed := arranged.homed j insideTo full
  have past : gap capacity b i ≤ gap capacity b j := by
    apply Nat.le_of_not_lt
    intro short
    exact outside (Finset.mem_filter.mpr ⟨Finset.mem_range.mpr insideTo, short⟩)
  have along := ordered_along arranged.ordered inside insideTo
  have settled := arranged.settled j insideTo full
  have whole := gap_add_gap insideFrom homed insideTo (by omega)
  have part := gap_add_gap insideFrom inside insideTo past
  omega

/-- From the last empty cell before `i` on, every cell up to `i` is in use and has its home in
that stretch, at least `k` before `i`. -/
theorem Settled.card_of_lt_label (arranged : Settled capacity label home) {i k : Nat}
    (inside : i < capacity) (above : k < label i) :
    ∃ b, b < capacity ∧ gap capacity b i < (homedBefore capacity label home b i k).card := by
  obtain ⟨some, someInside, someEmpty⟩ := arranged.room
  obtain ⟨e, member, nearest⟩ := Finset.exists_min_image
    ((Finset.range capacity).filter fun e => label e = 0) (fun e => gap capacity e i)
    ⟨some, Finset.mem_filter.mpr ⟨Finset.mem_range.mpr someInside, someEmpty⟩⟩
  obtain ⟨inRange, empty⟩ := Finset.mem_filter.mp member
  have insideEmpty := Finset.mem_range.mp inRange
  have apart : e ≠ i := by
    intro same
    rw [← same, empty] at above
    omega
  have stretch := gap_next_of_ne insideEmpty inside apart
  have insideFrom := next_lt insideEmpty
  refine ⟨next capacity e, insideFrom, ?_⟩
  have short : gap capacity (next capacity e) i < capacity := gap_lt inside
  rw [← Nat.succ_le_iff, ← Finset.card_range (gap capacity (next capacity e) i).succ]
  apply Finset.card_le_card_of_injOn (ahead capacity (next capacity e))
  · intro n close
    rw [Finset.mem_coe, Finset.mem_range] at close
    have insideTo := @ahead_lt capacity _ n insideFrom (by omega)
    have steps := @gap_ahead capacity _ n insideFrom (by omega)
    generalize ahead capacity (next capacity e) n = p at insideTo steps ⊢
    have rest := gap_add_gap insideFrom insideTo inside (by omega)
    have full : label p ≠ 0 := by
      intro alsoEmpty
      have nearer := nearest p
        (Finset.mem_filter.mpr ⟨Finset.mem_range.mpr insideTo, alsoEmpty⟩)
      omega
    have other : e ≠ p := fun same => full (same ▸ empty)
    have homed := arranged.homed p insideTo full
    have settled := arranged.settled p insideTo full
    have fromEmpty := ordered_along arranged.ordered insideEmpty insideTo
    rw [empty, gap_next_of_ne insideEmpty insideTo other] at fromEmpty
    have toEnd := ordered_along arranged.ordered insideTo inside
    have split := @gap_add_gap_of_le capacity _ _ p insideFrom homed (by omega)
    exact Finset.mem_coe.mpr
      (Finset.mem_filter.mpr ⟨mem_occupied.mpr ⟨insideTo, full⟩, by omega⟩)
  · intro n close m closeToo same
    rw [Finset.mem_coe, Finset.mem_range] at close closeToo
    rw [← @gap_ahead capacity _ n insideFrom (by omega), same, gap_ahead insideFrom (by omega)]

theorem Settled.lt_label_iff (arranged : Settled capacity label home) {i : Nat}
    (inside : i < capacity) (k : Nat) :
    k < label i ↔
      ∃ b, b < capacity ∧ gap capacity b i < (homedBefore capacity label home b i k).card := by
  constructor
  · exact arranged.card_of_lt_label inside
  · rintro ⟨b, insideFrom, crowded⟩
    exact arranged.lt_label_of_card insideFrom inside crowded

/-- The homes of the cells in use, each as often as it occurs. -/
def homes (capacity : Nat) (label home : Nat → Nat) : Multiset Nat :=
  (occupied capacity label).val.map home

theorem card_homed_before (b i k : Nat) :
    (homedBefore capacity label home b i k).card =
      (homes capacity label home).countP fun h => gap capacity b h + k ≤ gap capacity b i := by
  rw [homes, Multiset.countP_map]
  rfl

theorem Settled.labels_eq {label' home' : Nat → Nat} (arranged : Settled capacity label home)
    (arranged' : Settled capacity label' home')
    (same : homes capacity label home = homes capacity label' home') {i : Nat}
    (inside : i < capacity) : label i = label' i := by
  apply eq_of_forall_lt_iff
  intro k
  rw [arranged.lt_label_iff inside, arranged'.lt_label_iff inside]
  simp only [card_homed_before, same]

end Settled

end Finm327.Library.CyclicTables
