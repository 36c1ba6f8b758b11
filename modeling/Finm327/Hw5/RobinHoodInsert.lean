import Finm327.Hw5.RobinHoodErase

/-!
# Inserting

A slot that is carried along the ring keeps its label within one of the slot
behind it, so that it fits wherever it is put down. A new key displaces richer
slots until an empty one is reached; a key that is present is met before any slot
that is richer than its probe.
-/

namespace Finm327.Hw5.RobinHoodMap

open Finm327.Library.CyclicTables
open Function (update)

variable {V : Type} {hasher : Key → UInt64}

/-- The slot in hand, about to be compared with the one at `idx`. -/
structure Carried (hasher : Key → UInt64) (m : RobinHoodMap V) (idx : Nat) (probe : Slot V) :
    Prop where
  inside : idx < m.capacity
  intact : probe.Intact hasher
  settled : probe.dib.toNat = gap m.capacity (m.home probe.hash) idx + 1
  close : ∀ j, j < m.capacity → next m.capacity j = idx → probe.dib.toNat ≤ m.labels j + 1
  fresh : ∀ i, i < m.capacity → (m.table i).dib ≠ 0 → (m.table i).view ≠ probe.view

/-- The slot in hand after a step. -/
def carriedOn (s : Slot V) : Slot V := { s with dib := s.dib + 1 }

theorem Carried.positive {m : RobinHoodMap V} {idx : Nat} {probe : Slot V}
    (carried : Carried hasher m idx probe) : probe.dib ≠ 0 := by
  rw [← UInt32.to_nat_ne_zero, carried.settled]
  omega

/-- The carried key stays apart from all others wherever it is put. -/
theorem Carried.distinct {m : RobinHoodMap V} {idx : Nat} {probe : Slot V}
    (carried : Carried hasher m idx probe) (filled : Filled hasher m) (n : Nat) :
    let after : RobinHoodMap V := { m with table := update m.table idx probe, size := n }
    ∀ i j, i < after.capacity → j < after.capacity → (after.table i).dib ≠ 0 →
      (after.table j).dib ≠ 0 → (after.table i).view = (after.table j).view → i = j :=
  distinct_update (fun j within _ => carried.fresh j within)
    (fun i j within withinToo _ _ => filled.distinct i j within withinToo)

/-- Put down at an empty position. -/
theorem Carried.place {m : RobinHoodMap V} {idx : Nat} {probe : Slot V}
    (carried : Carried hasher m idx probe) (filled : Filled hasher m)
    (empty : (m.table idx).dib = 0) :
    Filled hasher { m with table := update m.table idx probe, size := m.size + 1 } ∧
      ∀ key value,
        Holds { m with table := update m.table idx probe, size := m.size + 1 } key value ↔
          (probe.view = key ∧ probe.value = value) ∨ m.Holds key value := by
  have blank : m.labels idx = 0 := by
    unfold labels
    rw [empty]
    rfl
  refine ⟨{ toArranged := filled.put _ ?_ ?_ carried.close ?_, distinct := ?_, counted := ?_ }, ?_⟩
  · exact fun _ => carried.intact
  · exact fun _ => carried.settled
  · have here := filled.ordered idx carried.inside
    omega
  · exact carried.distinct filled _
  · rw [labels_update, card_occupied_fill carried.inside blank
      (UInt32.to_nat_ne_zero.mpr carried.positive)]
    exact congrArg (· + 1) filled.counted
  · intro key value
    have unused : ¬ (m.table idx).Stores key value := fun stores => stores.1 empty
    rw [holds_update carried.inside, holds_iff_apart carried.inside]
    constructor
    · intro either
      cases either with
      | inl stores => exact .inl stores.2
      | inr apart => exact .inr (.inr apart)
    · intro either
      cases either with
      | inl own => exact .inl ⟨carried.positive, own⟩
      | inr kept =>
          cases kept with
          | inl stores => exact absurd stores unused
          | inr apart => exact .inr apart

/-- Carried past a slot that is at least as poor. -/
theorem Carried.advance {m : RobinHoodMap V} {idx : Nat} {probe : Slot V}
    (carried : Carried hasher m idx probe) (filled : Filled hasher m)
    (room : m.size < m.capacity) (small : m.size + 1 < 2 ^ 32) (poor : probe.dib.toNat ≤ m.labels idx) :
    Carried hasher m (next m.capacity idx) (carriedOn probe) := by
  have inside := carried.inside
  have label := filled.label_le_size inside
  have settled := carried.settled
  have step : (carriedOn probe).dib.toNat = probe.dib.toNat + 1 :=
    UInt32.to_nat_add_one (by omega)
  refine ⟨next_lt inside, ⟨carried.intact.hash, carried.intact.length, carried.intact.moved⟩,
    ?_, ?_, carried.fresh⟩
  · have farther := @gap_next_right_of_lt _ _ idx (filled.home_lt probe.hash) (by omega)
    have same : (carriedOn probe).hash = probe.hash := rfl
    rw [same, step, farther]
    omega
  · intro j within reaches
    have here : j = idx := by
      unfold next at reaches
      split_ifs at reaches <;> omega
    rw [here, step]
    omega

/-- A richer slot is taken up and the carried one left in its place. -/
theorem Carried.swap {m : RobinHoodMap V} {idx : Nat} {probe : Slot V}
    (carried : Carried hasher m idx probe) (filled : Filled hasher m)
    (room : m.size < m.capacity) (small : m.size + 1 < 2 ^ 32) (full : (m.table idx).dib ≠ 0)
    (rich : m.labels idx < probe.dib.toNat) :
    Filled hasher { m with table := update m.table idx probe } ∧
      Carried hasher { m with table := update m.table idx probe } (next m.capacity idx)
        (carriedOn (m.table idx)) ∧
      ∀ key value, ((carriedOn (m.table idx)).view = key ∧ (carriedOn (m.table idx)).value = value) ∨
          Holds { m with table := update m.table idx probe } key value ↔
        (probe.view = key ∧ probe.value = value) ∨ m.Holds key value := by
  have inside := carried.inside
  have intact := filled.intact idx inside full
  have label := filled.label_le_size inside
  have settled := filled.settled idx inside full
  have step : (carriedOn (m.table idx)).dib.toNat = m.labels idx + 1 := by
    apply UInt32.to_nat_add_one
    unfold labels at label
    omega
  refine ⟨{ toArranged := filled.put _ ?_ ?_ carried.close ?_, distinct := ?_, counted := ?_ },
    ⟨next_lt inside, ⟨intact.hash, intact.length, intact.moved⟩, ?_, ?_, ?_⟩, ?_⟩
  · exact fun _ => carried.intact
  · exact fun _ => carried.settled
  · have here := filled.ordered idx inside
    omega
  · exact carried.distinct filled _
  · rw [labels_update, card_occupied_replace inside (label_ne_zero.mpr full)
      (UInt32.to_nat_ne_zero.mpr carried.positive)]
    exact filled.counted
  · have farther := @gap_next_right_of_lt _ _ idx (filled.home_lt (m.table idx).hash) (by
      unfold labels at label
      omega)
    have same : (carriedOn (m.table idx)).hash = (m.table idx).hash := rfl
    change (carriedOn (m.table idx)).dib.toNat = gap m.capacity (m.home _) _ + 1
    rw [same, step, farther]
    unfold labels
    omega
  · intro j within reaches
    have here : j = idx := by
      dsimp only at within reaches
      unfold next at reaches
      split_ifs at reaches <;> omega
    rw [here, step, labels_update, Function.update_self]
    omega
  · intro i within
    dsimp only
    by_cases here : i = idx
    · rw [here, Function.update_self]
      intro _
      exact (carried.fresh idx inside full).symm
    · rw [Function.update_of_ne here]
      intro used same
      exact here (filled.distinct i idx within inside used full same)
  · intro key value
    rw [holds_update inside, holds_iff_apart inside]
    have own : probe.Stores key value ↔ probe.view = key ∧ probe.value = value :=
      ⟨fun stores => stores.2, fun both => ⟨carried.positive, both⟩⟩
    have taken : (m.table idx).Stores key value ↔
        (carriedOn (m.table idx)).view = key ∧ (carriedOn (m.table idx)).value = value :=
      ⟨fun stores => stores.2, fun both => ⟨full, both⟩⟩
    rw [own, taken]
    exact or_left_comm

theorem insert_loop_absent {e fuel : Nat} {m : RobinHoodMap V} {idx : Nat} {probe : Slot V}
    (carried : Carried hasher m idx probe) (filled : Filled hasher m)
    (room : m.size < m.capacity) (small : m.size + 1 < 2 ^ 32) (inside : e < m.capacity)
    (blank : m.labels e = 0) (enough : gap m.capacity idx e < fuel) :
    ∃ after, insertLoop fuel m idx probe = some after ∧ Filled hasher after ∧
      after.capacity = m.capacity ∧ after.size = m.size + 1 ∧
      ∀ key value, after.Holds key value ↔
        (probe.view = key ∧ probe.value = value) ∨ m.Holds key value := by
  induction fuel generalizing m idx probe with
  | zero => omega
  | succ fuel ih =>
      rw [insertLoop]
      by_cases empty : (m.table idx).dib = 0
      · rw [if_pos empty]
        obtain ⟨after, holds⟩ := carried.place filled empty
        exact ⟨_, rfl, after, rfl, rfl, holds⟩
      · have other : ¬ ((m.table idx).hash = probe.hash ∧
            (m.table idx).keyEq probe.view = true) := by
          rw [carried.intact.hash, Slot.matches_iff (filled.intact idx carried.inside empty)]
          exact carried.fresh idx carried.inside empty
        have away : idx ≠ e := by
          intro here
          exact label_ne_zero.mpr empty (here ▸ blank)
        have nearer := gap_next_left carried.inside inside away
        rw [if_neg empty, if_neg other, filled.mask_step carried.inside]
        by_cases rich : (m.table idx).dib < probe.dib
        · rw [if_pos rich]
          obtain ⟨swapped, onward, holds⟩ := carried.swap filled room small empty
            (UInt32.lt_iff_toNat_lt.mp rich)
          have still : labels { m with table := update m.table idx probe } e = 0 := by
            rw [labels_update, Function.update_of_ne (Ne.symm away)]
            exact blank
          obtain ⟨after, ran, result, capacity, size, kept⟩ :=
            ih onward swapped room small inside still (by dsimp only; omega)
          refine ⟨after, ran, result, capacity, size, ?_⟩
          intro key value
          rw [kept, holds]
        · rw [if_neg rich]
          have poor : probe.dib.toNat ≤ m.labels idx := by
            rw [UInt32.lt_iff_toNat_lt] at rich
            exact Nat.le_of_not_lt rich
          exact ih (carried.advance filled room small poor) filled room small inside blank
            (by omega)

theorem insert_loop_present {m : RobinHoodMap V} (filled : Filled hasher m) {p : Nat}
    (inside : p < m.capacity) (full : (m.table p).dib ≠ 0) {fuel idx : Nat} {probe : Slot V}
    (intact : probe.Intact hasher) (same : (m.table p).view = probe.view)
    (insideVia : idx < m.capacity)
    (settled : probe.dib.toNat = gap m.capacity (m.home probe.hash) idx + 1)
    (onWay : gap m.capacity (m.home probe.hash) idx ≤ gap m.capacity (m.home probe.hash) p)
    (enough : gap m.capacity idx p < fuel) :
    insertLoop fuel m idx probe =
      some { m with table := update m.table p { m.table p with value := probe.value } } := by
  induction fuel generalizing idx probe with
  | zero => omega
  | succ fuel ih =>
      have hash : probe.hash = hasher (m.table p).view := by rw [intact.hash, same]
      have label := filled.label_on_way inside full insideVia (hash ▸ onWay)
      have used : (m.table idx).dib ≠ 0 := label_ne_zero.mp (by omega)
      have here : ((m.table idx).hash = probe.hash ∧ (m.table idx).keyEq probe.view = true) ↔
          (m.table idx).view = probe.view := by
        rw [intact.hash]
        exact Slot.matches_iff (filled.intact idx insideVia used) probe.view
      rw [insertLoop, if_neg used]
      by_cases found : idx = p
      · rw [if_pos (here.mpr (by rw [found, same])), found]
      · have other : (m.table idx).view ≠ probe.view := by
          intro equal
          exact found (filled.distinct idx p insideVia inside used full (equal.trans same.symm))
        have poor : ¬ (m.table idx).dib < probe.dib := by
          rw [UInt32.lt_iff_toNat_lt, settled, hash]
          unfold labels at label
          omega
        have way := filled.way_next inside insideVia found onWay
        have nearer := gap_next_left insideVia inside found
        have target := filled.label_eq inside full
        have bounded : (m.table p).dib.toNat < 2 ^ 32 := UInt32.toNat_lt _
        unfold labels at target
        rw [← hash] at target
        have step : (carriedOn probe).dib.toNat = probe.dib.toNat + 1 :=
          UInt32.to_nat_add_one (by omega)
        rw [if_neg (fun both => other (here.mp both)), if_neg poor, filled.mask_step insideVia]
        have onward : insertLoop fuel m (next m.capacity idx) (carriedOn probe) = some { m with
            table := update m.table p { m.table p with value := (carriedOn probe).value } } := by
          apply ih
          · exact ⟨intact.hash, intact.length, intact.moved⟩
          · exact same
          · exact next_lt insideVia
          · have kept : (carriedOn probe).hash = probe.hash := rfl
            rw [kept, step, way.1, settled]
          · have kept : (carriedOn probe).hash = probe.hash := rfl
            rw [kept, way.1]
            exact way.2
          · omega
        exact onward

theorem make_probe_spec [Inhabited V] (hasher : Key → UInt64) {key : Key}
    (short : key.length < 2 ^ 32) (value : V) :
    (makeProbe hasher key value).Intact hasher ∧ (makeProbe hasher key value).view = key ∧
      (makeProbe hasher key value).dib = 1 ∧ (makeProbe hasher key value).value = value := by
  have keylen : (UInt32.ofNat key.length).toNat = key.length := UInt32.toNat_ofNat_of_lt' short
  unfold makeProbe Slot.storeKey
  dsimp only
  by_cases fits : key.length ≤ keySize
  · rw [if_pos fits]
    have view : Slot.view { (Slot.blank : Slot V) with
        dib := 1, keylen := UInt32.ofNat key.length, hash := hasher key,
        key := key ++ (Slot.blank : Slot V).key.drop key.length, value := value } = key := by
      unfold Slot.view Slot.data
      dsimp only
      rw [keylen, if_pos fits, List.take_left]
    refine ⟨⟨?_, ?_, ?_⟩, view, rfl, rfl⟩
    · exact congrArg hasher view.symm
    · exact (congrArg List.length view).trans keylen.symm
    · rw [view]
      unfold Slot.movedKey
      dsimp only
      rw [keylen, if_pos fits, List.take_left]
  · rw [if_neg fits]
    have view : Slot.view { (Slot.blank : Slot V) with
        dib := 1, keylen := UInt32.ofNat key.length, hash := hasher key,
        heapKey := key, value := value } = key := by
      unfold Slot.view Slot.data
      dsimp only
      rw [keylen, if_neg fits, List.take_length]
    refine ⟨⟨?_, ?_, ?_⟩, view, rfl, rfl⟩
    · exact congrArg hasher view.symm
    · exact (congrArg List.length view).trans keylen.symm
    · rw [view]
      unfold Slot.movedKey
      dsimp only
      rw [keylen, if_neg fits]

/-- The table once the key at `p` has a new value. -/
def revalued (m : RobinHoodMap V) (p : Nat) (value : V) : RobinHoodMap V :=
  { m with table := update m.table p { m.table p with value := value } }

theorem revalued_slot (m : RobinHoodMap V) (p i : Nat) (value : V) :
    ((m.revalued p value).table i).dib = (m.table i).dib ∧
      ((m.revalued p value).table i).view = (m.table i).view := by
  unfold revalued
  dsimp only
  by_cases here : i = p
  · rw [here, Function.update_self]
    exact ⟨rfl, rfl⟩
  · rw [Function.update_of_ne here]
    exact ⟨rfl, rfl⟩

theorem Filled.revalue {m : RobinHoodMap V} (filled : Filled hasher m) {p : Nat}
    (inside : p < m.capacity) (full : (m.table p).dib ≠ 0) (value : V) :
    Filled hasher (m.revalued p value) := by
  have intact := filled.intact p inside full
  have labels : (m.revalued p value).labels = m.labels := by
    funext i
    exact congrArg UInt32.toNat (revalued_slot m p i value).1
  refine { toArranged := filled.put _ ?_ ?_ ?_ ?_, distinct := ?_, counted := ?_ }
  · intro _
    exact ⟨intact.hash, intact.length, intact.moved⟩
  · intro _
    exact filled.settled p inside full
  · intro j within reaches
    have before := filled.ordered j within
    rw [reaches] at before
    exact before
  · exact filled.ordered p inside
  · intro i j within withinToo
    rw [(revalued_slot m p i value).1, (revalued_slot m p j value).1,
      (revalued_slot m p i value).2, (revalued_slot m p j value).2]
    exact filled.distinct i j within withinToo
  · rw [labels]
    exact filled.counted

/-- The content after an insert. -/
def Inserted (before after : RobinHoodMap V) (key : Key) (value : V) : Prop :=
  ∀ other stored, after.Holds other stored ↔
    (other = key ∧ stored = value) ∨ (other ≠ key ∧ before.Holds other stored)

theorem place_present [Inhabited V] {m : RobinHoodMap V} (filled : Filled hasher m) {p : Nat}
    (inside : p < m.capacity) (full : (m.table p).dib ≠ 0) (short : (m.table p).view.length < 2 ^ 32)
    (value : V) :
    insertLoop m.capacity m (m.home (hasher (m.table p).view))
        (makeProbe hasher (m.table p).view value) = some (m.revalued p value) ∧
      Inserted m (m.revalued p value) (m.table p).view value := by
  obtain ⟨intact, view, dib, stored⟩ := make_probe_spec hasher short value
  have hash : (makeProbe hasher (m.table p).view value).hash = hasher (m.table p).view := by
    rw [intact.hash, view]
  have one : (makeProbe hasher (m.table p).view value).dib.toNat = 1 := by
    rw [dib]
    rfl
  have ran := insert_loop_present filled inside full intact view.symm (filled.home_lt _)
    (by rw [one, hash, gap_self]) (by rw [hash, gap_self]; exact Nat.zero_le _) (gap_lt inside)
  rw [stored] at ran
  refine ⟨ran, ?_⟩
  intro other found
  rw [revalued, holds_update inside, filled.holds_apart_iff inside full]
  apply or_congr_left
  constructor
  · exact fun stores => ⟨stores.2.1.symm, stores.2.2.symm⟩
  · exact fun new => ⟨full, new.1.symm, new.2.symm⟩

theorem place_absent [Inhabited V] {m : RobinHoodMap V} (filled : Filled hasher m)
    (room : m.size < m.capacity) {key : Key} (short : key.length < 2 ^ 32)
    (missing : ∀ value, ¬ m.Holds key value) (small : m.size + 1 < 2 ^ 32) (value : V) :
    ∃ after, insertLoop m.capacity m (m.home (hasher key)) (makeProbe hasher key value) =
        some after ∧ Filled hasher after ∧ after.capacity = m.capacity ∧
      after.size = m.size + 1 ∧ Inserted m after key value := by
  obtain ⟨intact, view, dib, stored⟩ := make_probe_spec hasher short value
  have one : (makeProbe hasher key value).dib.toNat = 1 := by
    rw [dib]
    rfl
  have carried : Carried hasher m (m.home (hasher key)) (makeProbe hasher key value) := by
    refine ⟨filled.home_lt _, intact, ?_, ?_, ?_⟩
    · rw [one, intact.hash, view, gap_self]
    · intro j _ _
      rw [one]
      omega
    · rw [view]
      intro i within used equal
      exact missing _ ⟨i, within, used, equal, rfl⟩
  obtain ⟨e, inside, blank⟩ := filled.exists_blank room
  obtain ⟨after, ran, result, capacity, size, holds⟩ :=
    insert_loop_absent carried filled room small inside blank (gap_lt inside)
  refine ⟨after, ran, result, capacity, size, ?_⟩
  intro other found
  rw [holds, view, stored]
  constructor
  · intro either
    cases either with
    | inl new => exact .inl ⟨new.1.symm, new.2.symm⟩
    | inr old =>
        refine .inr ⟨?_, old⟩
        intro equal
        exact missing found (equal ▸ old)
  · intro either
    cases either with
    | inl new => exact .inl ⟨new.1.symm, new.2.symm⟩
    | inr old => exact .inr old.2

/-- The probe loop of `insert` on a table with an empty slot. -/
theorem place_spec [Inhabited V] {m : RobinHoodMap V} (filled : Filled hasher m)
    (room : m.size < m.capacity) {key : Key} (short : key.length < 2 ^ 32)
    (small : (∀ value, ¬ m.Holds key value) → m.size + 1 < 2 ^ 32) (value : V) :
    ∃ after, insertLoop m.capacity m (m.home (hasher key)) (makeProbe hasher key value) =
        some after ∧ Filled hasher after ∧ after.capacity = m.capacity ∧
      after.size ≤ m.size + 1 ∧ Inserted m after key value := by
  by_cases present : ∃ p, p < m.capacity ∧ (m.table p).dib ≠ 0 ∧ (m.table p).view = key
  · obtain ⟨p, inside, full, same⟩ := present
    subst same
    obtain ⟨ran, inserted⟩ := place_present filled inside full short value
    exact ⟨_, ran, filled.revalue inside full value, rfl, Nat.le_succ _, inserted⟩
  · have missing : ∀ value, ¬ m.Holds key value := by
      rintro _ ⟨i, within, used, equal, _⟩
      exact present ⟨i, within, used, equal⟩
    obtain ⟨after, ran, result, capacity, size, inserted⟩ :=
      place_absent filled room short missing (small missing) value
    exact ⟨after, ran, result, capacity, size.le, inserted⟩

end Finm327.Hw5.RobinHoodMap
