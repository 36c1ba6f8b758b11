import Finm327.Library.CyclicTables
import Finm327.Hw5.RobinHoodMap

/-!
# The layout of the table

What every table has between two calls: each slot stands as far from the
position its hash selects as its label says, labels grow by at most one along the
ring, and no key is stored twice. The layers below split this, because the loops
break the last part for a while.
-/

namespace Finm327.Hw5

open Finm327.Library.CyclicTables
open Function (update)

variable {V : Type}

namespace Slot

/-- The stored bytes and the stored hash belong together. -/
structure Intact (hasher : Key → UInt64) (s : Slot V) : Prop where
  hash : s.hash = hasher s.view
  length : s.view.length = s.keylen.toNat
  moved : s.movedKey = s.view

def Stores (s : Slot V) (key : Key) (value : V) : Prop :=
  s.dib ≠ 0 ∧ s.view = key ∧ s.value = value

theorem key_eq_iff {hasher : Key → UInt64} {s : Slot V} (intact : s.Intact hasher) (key : Key) :
    s.keyEq key = true ↔ s.view = key := by
  have length := intact.length
  unfold keyEq
  constructor
  · intro equal
    split at equal
    case isTrue => cases equal
    case isFalse same =>
      rw [beq_iff_eq] at equal
      rw [Decidable.not_not.mp same, List.take_length, ← Decidable.not_not.mp same] at equal
      exact equal
  · intro same
    rw [← same, length, if_neg (by simp), beq_iff_eq, ← length, List.take_length, length]
    rfl

/-- The hash comparison never hides a key. -/
theorem matches_iff {hasher : Key → UInt64} {s : Slot V} (intact : s.Intact hasher) (key : Key) :
    (s.hash = hasher key ∧ s.keyEq key = true) ↔ s.view = key := by
  rw [key_eq_iff intact]
  constructor
  · intro both
    exact both.2
  · intro same
    exact ⟨by rw [intact.hash, same], same⟩

end Slot

theorem UInt32.to_nat_ne_zero {d : UInt32} : d.toNat ≠ 0 ↔ d ≠ 0 := by
  rw [ne_eq, ne_eq, ← UInt32.toNat_inj]
  rfl

theorem UInt32.to_nat_add_one {d : UInt32} (small : d.toNat + 1 < 2 ^ 32) :
    (d + 1).toNat = d.toNat + 1 := by
  rw [UInt32.toNat_add]
  exact Nat.mod_eq_of_lt small

namespace RobinHoodMap

def labels (m : RobinHoodMap V) : Nat → Nat := fun i => (m.table i).dib.toNat

def Holds (m : RobinHoodMap V) (key : Key) (value : V) : Prop :=
  ∃ i, i < m.capacity ∧ (m.table i).Stores key value

/-- As `Holds`, away from one position. -/
def HoldsApart (m : RobinHoodMap V) (idx : Nat) (key : Key) (value : V) : Prop :=
  ∃ i, i < m.capacity ∧ i ≠ idx ∧ (m.table i).Stores key value

/-- The mask selects positions of the table. -/
structure Ring (m : RobinHoodMap V) : Prop where
  power : ∃ exponent, m.capacity = 2 ^ exponent
  masked : m.mask = m.capacity - 1

theorem Ring.positive {m : RobinHoodMap V} (ring : Ring m) : 0 < m.capacity := by
  obtain ⟨exponent, power⟩ := ring.power
  rw [power]
  exact Nat.two_pow_pos exponent

theorem Ring.mask_step {m : RobinHoodMap V} (ring : Ring m) {idx : Nat}
    (inside : idx < m.capacity) : (idx + 1) &&& m.mask = next m.capacity idx := by
  obtain ⟨exponent, power⟩ := ring.power
  rw [ring.masked, power]
  exact add_one_and_mask (power ▸ inside)

theorem Ring.home_lt {m : RobinHoodMap V} (ring : Ring m) (h : UInt64) :
    m.home h < m.capacity := by
  have below : m.home h ≤ m.mask := Nat.and_le_right
  have masked := ring.masked
  have positive := ring.positive
  omega

/-- The layout of one slot against the next; a key may still occur twice. -/
structure Arranged (hasher : Key → UInt64) (m : RobinHoodMap V) : Prop where
  power : ∃ exponent, m.capacity = 2 ^ exponent
  masked : m.mask = m.capacity - 1
  intact : ∀ i, i < m.capacity → (m.table i).dib ≠ 0 → (m.table i).Intact hasher
  settled : ∀ i, i < m.capacity → (m.table i).dib ≠ 0 →
    (m.table i).dib.toNat = gap m.capacity (m.home (m.table i).hash) i + 1
  ordered : Ordered m.capacity m.labels

/-- Any filled table, however full. -/
structure Filled (hasher : Key → UInt64) (m : RobinHoodMap V) : Prop extends
    Arranged hasher m where
  distinct : ∀ i j, i < m.capacity → j < m.capacity → (m.table i).dib ≠ 0 →
    (m.table j).dib ≠ 0 → (m.table i).view = (m.table j).view → i = j
  counted : m.size = (occupied m.capacity m.labels).card

/-- What holds between two calls. -/
structure Sound (hasher : Key → UInt64) (m : RobinHoodMap V) : Prop extends
    Filled hasher m where
  large : 8 ≤ m.capacity
  loaded : m.size ≤ m.loadLimit

theorem label_ne_zero {m : RobinHoodMap V} {i : Nat} :
    m.labels i ≠ 0 ↔ (m.table i).dib ≠ 0 :=
  UInt32.to_nat_ne_zero

theorem labels_update {m : RobinHoodMap V} (idx : Nat) (s : Slot V) (n : Nat) :
    labels { table := update m.table idx s, capacity := m.capacity, mask := m.mask, size := n } =
      update m.labels idx s.dib.toNat := by
  funext i
  unfold labels
  dsimp only
  by_cases here : i = idx
  · rw [here, Function.update_self, Function.update_self]
  · rw [Function.update_of_ne here, Function.update_of_ne here]

theorem holds_iff_apart {m : RobinHoodMap V} {idx : Nat} (inside : idx < m.capacity) {key : Key}
    {value : V} :
    m.Holds key value ↔ (m.table idx).Stores key value ∨ m.HoldsApart idx key value := by
  constructor
  · rintro ⟨i, within, stores⟩
    by_cases here : i = idx
    · exact .inl (here ▸ stores)
    · exact .inr ⟨i, within, here, stores⟩
  · intro either
    cases either with
    | inl stores => exact ⟨idx, inside, stores⟩
    | inr apart =>
        obtain ⟨i, within, _, stores⟩ := apart
        exact ⟨i, within, stores⟩

theorem holds_apart_update {m : RobinHoodMap V} {idx n : Nat} {s : Slot V} {key : Key} {value : V} :
    HoldsApart { table := update m.table idx s, capacity := m.capacity, mask := m.mask, size := n }
      idx key value ↔ m.HoldsApart idx key value := by
  unfold HoldsApart
  constructor
  · rintro ⟨i, within, away, stores⟩
    dsimp only at stores
    rw [Function.update_of_ne away] at stores
    exact ⟨i, within, away, stores⟩
  · rintro ⟨i, within, away, stores⟩
    refine ⟨i, within, away, ?_⟩
    dsimp only
    rw [Function.update_of_ne away]
    exact stores

theorem holds_update {m : RobinHoodMap V} {idx n : Nat} (inside : idx < m.capacity) {s : Slot V}
    {key : Key} {value : V} :
    Holds { table := update m.table idx s, capacity := m.capacity, mask := m.mask, size := n }
      key value ↔ s.Stores key value ∨ m.HoldsApart idx key value := by
  rw [holds_iff_apart (by exact inside), holds_apart_update]
  dsimp only
  rw [Function.update_self]

/-- A write keeps the keys of some places apart when its own key is none of theirs. -/
theorem distinct_update {table : Nat → Slot V} {s : Slot V} {idx : Nat} {counts : Nat → Prop}
    (fresh : ∀ j, counts j → j ≠ idx → (table j).dib ≠ 0 → (table j).view ≠ s.view)
    (distinct : ∀ i j, counts i → counts j → i ≠ idx → j ≠ idx → (table i).dib ≠ 0 →
      (table j).dib ≠ 0 → (table i).view = (table j).view → i = j) :
    ∀ i j, counts i → counts j → (update table idx s i).dib ≠ 0 →
      (update table idx s j).dib ≠ 0 →
      (update table idx s i).view = (update table idx s j).view → i = j := by
  intro i j within withinToo
  by_cases here : i = idx
  · by_cases hereToo : j = idx
    · intros
      rw [here, hereToo]
    · rw [here, Function.update_self, Function.update_of_ne hereToo]
      intro _ used same
      exact absurd same.symm (fresh j withinToo hereToo used)
  · rw [Function.update_of_ne here]
    by_cases hereToo : j = idx
    · rw [hereToo, Function.update_self]
      intro used _ same
      exact absurd same (fresh i within here used)
    · rw [Function.update_of_ne hereToo]
      exact distinct i j within withinToo here hereToo

section Arranged

variable {hasher : Key → UInt64} {m : RobinHoodMap V}

theorem Arranged.ring (arranged : Arranged hasher m) : Ring m :=
  ⟨arranged.power, arranged.masked⟩

theorem Arranged.positive (arranged : Arranged hasher m) : 0 < m.capacity :=
  arranged.ring.positive

theorem Arranged.mask_step (arranged : Arranged hasher m) {idx : Nat}
    (inside : idx < m.capacity) : (idx + 1) &&& m.mask = next m.capacity idx :=
  arranged.ring.mask_step inside

theorem Arranged.home_lt (arranged : Arranged hasher m) (h : UInt64) :
    m.home h < m.capacity :=
  arranged.ring.home_lt h

theorem Arranged.label_eq (arranged : Arranged hasher m) {i : Nat} (inside : i < m.capacity)
    (full : (m.table i).dib ≠ 0) :
    m.labels i = gap m.capacity (m.home (hasher (m.table i).view)) i + 1 := by
  rw [← (arranged.intact i inside full).hash]
  exact arranged.settled i inside full

theorem Arranged.label_le_card (arranged : Arranged hasher m) {i : Nat}
    (inside : i < m.capacity) :
    m.labels i ≤ (occupied m.capacity m.labels).card := by
  apply Library.CyclicTables.label_le_card arranged.ordered inside
  by_cases empty : (m.table i).dib = 0
  · unfold labels
    rw [empty]
    exact Nat.zero_le _
  · rw [arranged.label_eq inside empty]
    exact gap_lt inside

/-- A slot may take a position, also an empty slot, when its label fits the
position and both neighbours. -/
theorem Arranged.put (arranged : Arranged hasher m) {idx : Nat} (n : Nat) {s : Slot V}
    (intact : s.dib ≠ 0 → s.Intact hasher)
    (settled : s.dib ≠ 0 → s.dib.toNat = gap m.capacity (m.home s.hash) idx + 1)
    (before : ∀ j, j < m.capacity → next m.capacity j = idx → s.dib.toNat ≤ m.labels j + 1)
    (after : m.labels (next m.capacity idx) ≤ s.dib.toNat + 1) :
    Arranged hasher
      { table := update m.table idx s, capacity := m.capacity, mask := m.mask, size := n } where
  power := arranged.power
  masked := arranged.masked
  intact := by
    intro i inside
    dsimp only
    by_cases here : i = idx
    · rw [here, Function.update_self]
      exact intact
    · rw [Function.update_of_ne here]
      exact arranged.intact i inside
  settled := by
    intro i inside
    dsimp only
    by_cases here : i = idx
    · rw [here, Function.update_self]
      exact settled
    · rw [Function.update_of_ne here]
      exact arranged.settled i inside
  ordered := by
    rw [labels_update]
    exact ordered_update arranged.ordered before after

end Arranged

theorem Filled.label_le_size {hasher : Key → UInt64} {m : RobinHoodMap V}
    (filled : Filled hasher m) {i : Nat} (inside : i < m.capacity) : m.labels i ≤ m.size := by
  rw [filled.counted]
  exact filled.label_le_card inside

theorem Filled.holds_unique {hasher : Key → UInt64} {m : RobinHoodMap V}
    (filled : Filled hasher m) {key : Key} {value other : V} (holds : m.Holds key value)
    (holdsToo : m.Holds key other) : value = other := by
  obtain ⟨i, inside, full, view, stored⟩ := holds
  obtain ⟨j, insideToo, fullToo, viewToo, storedToo⟩ := holdsToo
  have same : i = j :=
    filled.distinct i j inside insideToo full fullToo (view.trans viewToo.symm)
  rw [← stored, ← storedToo, same]

/-- Away from the position of a key stand the other keys. -/
theorem Filled.holds_apart_iff {hasher : Key → UInt64} {m : RobinHoodMap V}
    (filled : Filled hasher m) {p : Nat} (inside : p < m.capacity) (full : (m.table p).dib ≠ 0)
    (other : Key) (value : V) :
    m.HoldsApart p other value ↔ other ≠ (m.table p).view ∧ m.Holds other value := by
  constructor
  · rintro ⟨i, within, away, stores⟩
    refine ⟨?_, i, within, stores⟩
    intro equal
    exact away (filled.distinct i p within inside stores.1 full (stores.2.1.trans equal))
  · rintro ⟨different, i, within, stores⟩
    refine ⟨i, within, ?_, stores⟩
    intro here
    exact different (stores.2.1.symm.trans (here ▸ rfl))

theorem Sound.room {hasher : Key → UInt64} {m : RobinHoodMap V} (sound : Sound hasher m) :
    m.size < m.capacity := by
  have large := sound.large
  have loaded := sound.loaded
  unfold loadLimit at loaded
  omega

/-- The load limit leaves an empty slot, at which every search stops. -/
theorem Filled.exists_blank {hasher : Key → UInt64} {m : RobinHoodMap V}
    (filled : Filled hasher m) (room : m.size < m.capacity) :
    ∃ e, e < m.capacity ∧ m.labels e = 0 :=
  exists_empty (by rw [← filled.counted]; exact room)

end RobinHoodMap

end Finm327.Hw5
