import Finm327.Hw5.RobinHoodInsert

/-!
# Allocating and growing

A rehash inserts the occupied slots of the old table into an empty one of twice
the capacity. Those inserts stay below the load limit, so the nesting ends there.
-/

namespace Finm327.Hw5.RobinHoodMap

open Finm327.Library.CyclicTables
open Function (update)

variable {V : Type} [Inhabited V] {hasher : Key → UInt64}

theorem allocate_filled (hasher : Key → UInt64) (exponent : Nat) :
    Filled hasher (allocate (2 ^ exponent) : RobinHoodMap V) where
  power := ⟨exponent, rfl⟩
  masked := rfl
  intact := fun _ _ full => absurd rfl full
  settled := fun _ _ full => absurd rfl full
  ordered := fun _ _ => Nat.zero_le _
  distinct := fun _ _ _ _ full => absurd rfl full
  counted := by
    refine (Finset.card_eq_zero.mpr ?_).symm
    rw [Finset.eq_empty_iff_forall_notMem]
    intro i member
    exact (mem_occupied.mp member).2 rfl

theorem allocate_holds (capacity : Nat) (key : Key) (value : V) :
    ¬ (allocate capacity : RobinHoodMap V).Holds key value := by
  rintro ⟨_, _, full, _⟩
  exact full rfl

theorem insert_nested_roomy {m : RobinHoodMap V} (roomy : m.size + 1 ≤ m.loadLimit) (depth : Nat)
    (key : Key) (value : V) :
    insertNested hasher (depth + 1) m key value =
      insertLoop m.capacity m (m.home (hasher key)) (makeProbe hasher key value) := by
  rw [insertNested, if_neg (Nat.not_lt.mpr roomy)]
  rfl

/-- A slot of the old table goes into the new one, which has room below its load limit. -/
theorem move_slot_spec {m fresh : RobinHoodMap V} (sound : Sound hasher m)
    (small : m.size < 2 ^ 32) (depth : Nat) {i : Nat} (inside : i < m.capacity)
    (full : (m.table i).dib ≠ 0) (filled : Filled hasher fresh)
    (capacity : fresh.capacity = m.capacity * 2) (fewer : fresh.size < m.size) :
    ∃ after, moveSlot (insertNested hasher (depth + 1)) m.table fresh i = some after ∧
      Filled hasher after ∧ after.capacity = m.capacity * 2 ∧ after.size ≤ fresh.size + 1 ∧
      Inserted fresh after (m.table i).view (m.table i).value := by
  have intact := sound.intact i inside full
  have short : (m.table i).view.length < 2 ^ 32 := by
    rw [intact.length]
    exact UInt32.toNat_lt _
  have loaded := sound.loaded
  have roomy : fresh.size + 1 ≤ fresh.loadLimit := by
    unfold loadLimit at loaded ⊢
    rw [capacity]
    omega
  have room : fresh.size < fresh.capacity := by
    unfold loadLimit at roomy
    omega
  obtain ⟨after, placed, result, same, grown, inserted⟩ :=
    place_spec filled room short (fun _ => by omega) (m.table i).value
  refine ⟨after, ?_, result, same.trans capacity, grown, inserted⟩
  rw [moveSlot, if_pos full, intact.moved, insert_nested_roomy roomy, placed]

/-- The new table when the first `count` positions of the old one have been
moved. -/
theorem rehash_loop {m : RobinHoodMap V} (sound : Sound hasher m) (small : m.size < 2 ^ 32)
    (depth : Nat) {count : Nat} (within : count ≤ m.capacity) :
    ∃ fresh, (List.range count).foldlM (moveSlot (insertNested hasher (depth + 1)) m.table)
        (allocate (m.capacity * 2)) = some fresh ∧
      Filled hasher fresh ∧ fresh.capacity = m.capacity * 2 ∧
      fresh.size ≤ (occupied count m.labels).card ∧
      ∀ key value, fresh.Holds key value ↔ ∃ i, i < count ∧ (m.table i).Stores key value := by
  induction count with
  | zero =>
      obtain ⟨exponent, power⟩ := sound.power
      have doubled : m.capacity * 2 = 2 ^ (exponent + 1) := by rw [power, Nat.pow_succ]
      refine ⟨allocate (m.capacity * 2), rfl, ?_, rfl, Nat.zero_le _, ?_⟩
      · rw [doubled]
        exact allocate_filled hasher _
      · intro key value
        constructor
        · intro holds
          exact absurd holds (allocate_holds _ key value)
        · rintro ⟨i, below, _⟩
          omega
  | succ count ih =>
      obtain ⟨fresh, ran, filled, capacity, size, holds⟩ := ih (by omega)
      rw [List.range_succ, List.foldlM_append, ran, Option.bind_eq_bind, Option.bind_some,
        List.foldlM_cons]
      by_cases full : (m.table count).dib = 0
      · refine ⟨fresh, ?_, filled, capacity, ?_, ?_⟩
        · rw [moveSlot, if_neg (not_not.mpr full)]
          rfl
        · exact size.trans (card_occupied_mono (Nat.le_succ count))
        · intro key value
          rw [holds]
          constructor
          · rintro ⟨i, below, stores⟩
            exact ⟨i, by omega, stores⟩
          · rintro ⟨i, below, stores⟩
            have other : i ≠ count := by
              intro here
              exact stores.1 (here ▸ full)
            exact ⟨i, by omega, stores⟩
      · have inside : count < m.capacity := by omega
        have more := card_occupied_succ (label_ne_zero.mpr full)
        have bound := @card_occupied_mono m.labels _ _ (show count + 1 ≤ m.capacity from inside)
        have counted := sound.counted
        obtain ⟨after, moved, result, same, grown, inserted⟩ := move_slot_spec sound small depth
          inside full filled capacity (by omega)
        refine ⟨after, ?_, result, same, by omega, ?_⟩
        · rw [moved]
          rfl
        · intro key value
          rw [inserted, holds]
          constructor
          · intro either
            cases either with
            | inl new => exact ⟨count, Nat.lt_succ_self _, full, new.1.symm, new.2.symm⟩
            | inr old =>
                obtain ⟨_, i, below, stores⟩ := old
                exact ⟨i, by omega, stores⟩
          · rintro ⟨i, below, stores⟩
            by_cases here : i = count
            · rw [here] at stores
              exact .inl ⟨stores.2.1.symm, stores.2.2.symm⟩
            · refine .inr ⟨?_, i, by omega, stores⟩
              intro equal
              exact here (sound.distinct i count (by omega) inside stores.1 full
                (stores.2.1.trans equal))

theorem rehash_spec {m : RobinHoodMap V} (sound : Sound hasher m) (small : m.size < 2 ^ 32)
    (depth : Nat) :
    ∃ fresh, rehash (insertNested hasher (depth + 1)) m (m.capacity * 2) = some fresh ∧
      Filled hasher fresh ∧ fresh.capacity = m.capacity * 2 ∧ fresh.size ≤ m.size ∧
      ∀ key value, fresh.Holds key value ↔ m.Holds key value := by
  obtain ⟨fresh, ran, filled, capacity, size, holds⟩ :=
    rehash_loop sound small depth (Nat.le_refl m.capacity)
  exact ⟨fresh, ran, filled, capacity, sound.counted ▸ size, holds⟩

/-- A growing table forgets no key, and a new key or value is the only change. -/
theorem insert_spec {m : RobinHoodMap V} (sound : Sound hasher m) {key : Key}
    (short : key.length < 2 ^ 32)
    (small : (∀ value, ¬ m.Holds key value) → m.size + 1 < 2 ^ 32)
    (fits : m.size < 2 ^ 32) (value : V) :
    ∃ after, m.insert hasher key value = some after ∧ Sound hasher after ∧
      Inserted m after key value := by
  have large := sound.large
  have loaded := sound.loaded
  by_cases roomy : m.size + 1 ≤ m.loadLimit
  · obtain ⟨after, ran, filled, capacity, size, inserted⟩ :=
      place_spec sound.toFilled sound.room short small value
    refine ⟨after, ?_, ⟨filled, by omega, ?_⟩, inserted⟩
    · rw [insert, insert_nested_roomy roomy, ran]
    · have same : after.loadLimit = m.loadLimit := by rw [loadLimit, loadLimit, capacity]
      omega
  · obtain ⟨fresh, grown, filled, capacity, size, holds⟩ := rehash_spec sound fits 0
    have limit : m.size + 1 ≤ fresh.loadLimit := by
      unfold loadLimit at loaded ⊢
      rw [capacity]
      omega
    have room : fresh.size < fresh.capacity := by
      unfold loadLimit at limit
      omega
    have smallFresh : (∀ value, ¬ fresh.Holds key value) → fresh.size + 1 < 2 ^ 32 := by
      intro absent
      have stays := small (fun value stored => absent value ((holds key value).mpr stored))
      omega
    obtain ⟨after, ran, result, same, more, inserted⟩ :=
      place_spec filled room short smallFresh value
    refine ⟨after, ?_, ⟨result, by omega, ?_⟩, ?_⟩
    · rw [insert, insertNested, if_pos (by omega), grown]
      exact ran
    · have equal : after.loadLimit = fresh.loadLimit := by rw [loadLimit, loadLimit, same]
      omega
    · intro other stored
      rw [inserted, holds]

/-! ## The constructor -/

theorem shift_power (exponent : Nat) :
    2 ^ exponent <<< 1 % 2 ^ 64 = 0 ∨ 2 ^ exponent <<< 1 % 2 ^ 64 = 2 ^ (exponent + 1) := by
  rw [Nat.shiftLeft_eq, Nat.pow_one, ← Nat.pow_succ]
  by_cases fits : exponent + 1 < 64
  · exact .inr (Nat.mod_eq_of_lt (Nat.pow_lt_pow_right (by omega) fits))
  · exact .inl (Nat.mod_eq_zero_of_dvd (Nat.pow_dvd_pow 2 (by omega)))

/-- A result is a power of two that is large enough; an overflow has no result. -/
theorem round_pow2_loop_power {n fuel p result : Nat} (positive : 0 < n)
    (power : p = 0 ∨ ∃ exponent, p = 2 ^ exponent) (ran : roundPow2Loop n fuel p = some result) :
    n ≤ result ∧ ∃ exponent, result = 2 ^ exponent := by
  induction fuel generalizing p with
  | zero => cases ran
  | succ fuel ih =>
      rw [roundPow2Loop] at ran
      split at ran
      case isTrue below =>
        apply ih _ ran
        cases power with
        | inl zero =>
            rw [zero]
            exact .inl rfl
        | inr some =>
            obtain ⟨exponent, same⟩ := some
            rw [same]
            exact (shift_power exponent).imp id (fun next => ⟨_, next⟩)
      case isFalse enough =>
        have same := Option.some.inj ran
        subst same
        refine ⟨Nat.le_of_not_lt enough, ?_⟩
        cases power with
        | inl zero => omega
        | inr some => exact some

/-- A table as it is constructed. -/
theorem make_sound {cap : Nat} {m : RobinHoodMap V} (made : make cap = some m) :
    Sound hasher m ∧ (∀ key value, ¬ m.Holds key value) ∧ m.size = 0 := by
  unfold make at made
  obtain ⟨capacity, rounded, same⟩ := Option.map_eq_some_iff.mp made
  subst same
  obtain ⟨large, exponent, power⟩ :=
    round_pow2_loop_power (by omega) (.inr ⟨0, rfl⟩) rounded
  refine ⟨⟨?_, ?_, Nat.zero_le _⟩, allocate_holds capacity, rfl⟩
  · rw [power]
    exact allocate_filled hasher exponent
  · exact (Nat.le_max_right cap 8).trans large

end Finm327.Hw5.RobinHoodMap
