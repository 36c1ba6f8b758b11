import Finm327.Hw5.RobinHoodLayout

/-!
# Finding and erasing

A search never stops before the slot of a key that is present: every slot on the
way from the key's home is at least as far from its own. Erasing shifts the
following slots back until one is empty or at home.
-/

namespace Finm327.Hw5.RobinHoodMap

open Finm327.Library.CyclicTables
open Function (update)

variable {V : Type} {hasher : Key → UInt64}

/-- On the way from the home of a stored key, every slot carries a label at least
as large as a search for that key has got. -/
theorem Arranged.label_on_way {m : RobinHoodMap V} (arranged : Arranged hasher m) {p idx : Nat}
    (inside : p < m.capacity) (full : (m.table p).dib ≠ 0) (insideVia : idx < m.capacity)
    (onWay : gap m.capacity (m.home (hasher (m.table p).view)) idx ≤
      gap m.capacity (m.home (hasher (m.table p).view)) p) :
    gap m.capacity (m.home (hasher (m.table p).view)) idx + 1 ≤ m.labels idx := by
  have along := ordered_along arranged.ordered insideVia inside
  have split := gap_add_gap (arranged.home_lt _) insideVia inside onWay
  have label := arranged.label_eq inside full
  omega

/-- One step of a search toward a stored key stays on the way. -/
theorem Arranged.way_next {m : RobinHoodMap V} (arranged : Arranged hasher m) {p idx : Nat}
    {h : UInt64} (inside : p < m.capacity) (insideVia : idx < m.capacity) (away : idx ≠ p)
    (onWay : gap m.capacity (m.home h) idx ≤ gap m.capacity (m.home h) p) :
    gap m.capacity (m.home h) (next m.capacity idx) = gap m.capacity (m.home h) idx + 1 ∧
      gap m.capacity (m.home h) idx + 1 ≤ gap m.capacity (m.home h) p := by
  have split := gap_add_gap (arranged.home_lt h) insideVia inside onWay
  have apart : gap m.capacity idx p ≠ 0 := by
    intro none
    exact away (eq_of_gap_eq_zero insideVia none)
  have short : gap m.capacity (m.home h) p < m.capacity := gap_lt inside
  refine ⟨gap_next_right_of_lt (arranged.home_lt h) (by omega), by omega⟩

theorem probe_loop_present {m : RobinHoodMap V} (filled : Filled hasher m) {p : Nat} {key : Key}
    (inside : p < m.capacity) (full : (m.table p).dib ≠ 0) (same : (m.table p).view = key)
    {fuel idx : Nat} {dist : UInt32} (insideVia : idx < m.capacity)
    (walked : dist.toNat = gap m.capacity (m.home (hasher key)) idx + 1)
    (onWay : gap m.capacity (m.home (hasher key)) idx ≤ gap m.capacity (m.home (hasher key)) p)
    (enough : gap m.capacity idx p < fuel) :
    probeLoop m (hasher key) key fuel idx dist = some (some p) := by
  induction fuel generalizing idx dist with
  | zero => omega
  | succ fuel ih =>
      subst same
      have label := filled.label_on_way inside full insideVia onWay
      have used : (m.table idx).dib ≠ 0 := label_ne_zero.mp (by omega)
      have rich : ¬ ((m.table idx).dib = 0 ∨ (m.table idx).dib < dist) := by
        intro either
        cases either with
        | inl empty => exact used empty
        | inr poor =>
            rw [UInt32.lt_iff_toNat_lt] at poor
            unfold labels at label
            omega
      have here := Slot.matches_iff (filled.intact idx insideVia used) (m.table p).view
      rw [probeLoop, if_neg rich]
      by_cases found : idx = p
      · rw [if_pos (here.mpr (by rw [found])), found]
      · have other : (m.table idx).view ≠ (m.table p).view := by
          intro equal
          exact found (filled.distinct idx p insideVia inside used full equal)
        rw [if_neg (fun both => other (here.mp both)), filled.mask_step insideVia]
        have way := filled.way_next inside insideVia found onWay
        have nearer := gap_next_left insideVia inside found
        have bounded : (m.table p).dib.toNat < 2 ^ 32 := UInt32.toNat_lt _
        have target := filled.label_eq inside full
        unfold labels at target
        apply ih (next_lt insideVia)
        · rw [UInt32.to_nat_add_one (by omega), walked, way.1]
        · rw [way.1]
          exact way.2
        · omega

theorem probe_loop_absent {m : RobinHoodMap V} (arranged : Arranged hasher m) {e : Nat} {key : Key}
    (inside : e < m.capacity) (empty : m.labels e = 0)
    (absent : ∀ i, i < m.capacity → (m.table i).dib ≠ 0 → (m.table i).view ≠ key)
    {fuel idx : Nat} {dist : UInt32} (insideVia : idx < m.capacity)
    (enough : gap m.capacity idx e < fuel) :
    probeLoop m (hasher key) key fuel idx dist = some none := by
  induction fuel generalizing idx dist with
  | zero => omega
  | succ fuel ih =>
      rw [probeLoop]
      by_cases stops : (m.table idx).dib = 0 ∨ (m.table idx).dib < dist
      · rw [if_pos stops]
      · have used : (m.table idx).dib ≠ 0 := fun zero => stops (.inl zero)
        have away : idx ≠ e := by
          intro here
          exact label_ne_zero.mpr used (here ▸ empty)
        have here := Slot.matches_iff (arranged.intact idx insideVia used) key
        have nearer := gap_next_left insideVia inside away
        rw [if_neg stops, if_neg (fun both => absent idx insideVia used (here.mp both)),
          arranged.mask_step insideVia]
        exact ih (next_lt insideVia) (by omega)

/-- The search answers where the key is, after at most one round. -/
theorem probe_loop_spec {m : RobinHoodMap V} (filled : Filled hasher m)
    (room : m.size < m.capacity) (key : Key) :
    (∃ p, probeLoop m (hasher key) key m.capacity (m.home (hasher key)) 1 = some (some p) ∧
        p < m.capacity ∧ (m.table p).dib ≠ 0 ∧ (m.table p).view = key) ∨
      (probeLoop m (hasher key) key m.capacity (m.home (hasher key)) 1 = some none ∧
        ∀ value, ¬ m.Holds key value) := by
  have start := filled.home_lt (hasher key)
  by_cases present : ∃ p, p < m.capacity ∧ (m.table p).dib ≠ 0 ∧ (m.table p).view = key
  · obtain ⟨p, inside, full, same⟩ := present
    refine .inl ⟨p, ?_, inside, full, same⟩
    apply probe_loop_present filled inside full same start
    · rw [gap_self]
      rfl
    · rw [gap_self]
      exact Nat.zero_le _
    · exact gap_lt inside
  · obtain ⟨e, inside, empty⟩ := filled.exists_blank room
    refine .inr ⟨?_, ?_⟩
    · apply probe_loop_absent filled.toArranged inside empty _ start (gap_lt inside)
      intro i within full same
      exact present ⟨i, within, full, same⟩
    · rintro value ⟨i, within, full, same, _⟩
      exact present ⟨i, within, full, same⟩

theorem find_spec {m : RobinHoodMap V} (filled : Filled hasher m) (room : m.size < m.capacity)
    (key : Key) :
    ∃ found, m.find hasher key = some found ∧ ∀ value, found = some value ↔ m.Holds key value := by
  unfold find
  cases probe_loop_spec filled room key with
  | inl present =>
      obtain ⟨p, ran, inside, full, same⟩ := present
      refine ⟨some (m.table p).value, by rw [ran]; rfl, ?_⟩
      intro value
      have holds : m.Holds key (m.table p).value := ⟨p, inside, full, same, rfl⟩
      constructor
      · intro equal
        rw [← Option.some.inj equal]
        exact holds
      · intro holdsToo
        rw [filled.holds_unique holds holdsToo]
  | inr absent =>
      refine ⟨none, by rw [absent.1]; rfl, ?_⟩
      intro value
      constructor
      · intro equal
        cases equal
      · intro holds
        exact absurd holds (absent.2 value)

/-! ## Backshift -/

/-- The table while the slot at `idx` is on its way out: it may be a stale copy of
a slot that has already moved. -/
structure Holed (hasher : Key → UInt64) (m : RobinHoodMap V) (idx : Nat) : Prop extends
    Arranged hasher m where
  inside : idx < m.capacity
  full : (m.table idx).dib ≠ 0
  distinct : ∀ i j, i < m.capacity → j < m.capacity → i ≠ idx → j ≠ idx →
    (m.table i).dib ≠ 0 → (m.table j).dib ≠ 0 → (m.table i).view = (m.table j).view → i = j
  counted : m.size = (occupied m.capacity m.labels).card

theorem Filled.holed {m : RobinHoodMap V} (filled : Filled hasher m) {idx : Nat}
    (inside : idx < m.capacity) (full : (m.table idx).dib ≠ 0) : Holed hasher m idx where
  toArranged := filled.toArranged
  inside := inside
  full := full
  distinct := by
    intro i j within withinToo _ _
    exact filled.distinct i j within withinToo
  counted := filled.counted

/-- The slot after the hole as the shift writes it. -/
def pulled (s : Slot V) : Slot V := { s with dib := s.dib - 1 }

theorem pulled_label {s : Slot V} (far : ¬ s.dib ≤ 1) : (pulled s).dib.toNat + 1 = s.dib.toNat := by
  rw [UInt32.le_iff_toNat_le] at far
  have one : (1 : UInt32).toNat = 1 := rfl
  unfold pulled
  rw [UInt32.toNat_sub_of_le _ _ (by rw [UInt32.le_iff_toNat_le]; omega), one]
  omega

theorem Holed.next_ne {m : RobinHoodMap V} {idx : Nat} (holed : Holed hasher m idx)
    (far : ¬ (m.table (next m.capacity idx)).dib ≤ 1) : next m.capacity idx ≠ idx := by
  intro loops
  have inside := holed.inside
  have short : gap m.capacity (m.home (m.table idx).hash) idx < m.capacity := gap_lt inside
  have settled := holed.settled idx inside holed.full
  rw [loops, UInt32.le_iff_toNat_le, UInt32.toNat_one] at far
  unfold next at loops
  split at loops <;> omega

theorem Holed.shift {m : RobinHoodMap V} {idx : Nat} (holed : Holed hasher m idx)
    (far : ¬ (m.table (next m.capacity idx)).dib ≤ 1) :
    Holed hasher { m with table := update m.table idx (pulled (m.table (next m.capacity idx))) }
      (next m.capacity idx) := by
  have inside := next_lt holed.inside
  have apart := holed.next_ne far
  have label := pulled_label far
  have positive : (pulled (m.table (next m.capacity idx))).dib ≠ 0 := by
    rw [← UInt32.to_nat_ne_zero]
    rw [UInt32.le_iff_toNat_le, UInt32.toNat_one] at far
    omega
  have full : (m.table (next m.capacity idx)).dib ≠ 0 := by
    rw [← UInt32.to_nat_ne_zero]
    omega
  have intact := holed.intact _ inside full
  have settled := holed.settled _ inside full
  refine { toArranged := holed.put m.size ?_ ?_ ?_ ?_, inside := inside, full := ?_,
           distinct := ?_, counted := ?_ }
  · intro _
    exact ⟨intact.hash, intact.length, intact.moved⟩
  · intro _
    have away : next m.capacity idx ≠ m.home (m.table (next m.capacity idx)).hash := by
      intro home
      rw [← home, gap_self] at settled
      rw [UInt32.le_iff_toNat_le, UInt32.toNat_one] at far
      omega
    have step := gap_next_right (holed.home_lt _) away
    have same : (pulled (m.table (next m.capacity idx))).hash =
      (m.table (next m.capacity idx)).hash := rfl
    rw [same]
    omega
  · intro j within reaches
    have here := holed.ordered idx holed.inside
    have before := holed.ordered j within
    rw [reaches] at before
    unfold labels at here before ⊢
    omega
  · unfold labels
    omega
  · dsimp only
    rw [Function.update_of_ne apart]
    exact full
  · intro i j within withinToo away awayToo
    refine @distinct_update _ _ _ _ (fun i => i < m.capacity ∧ i ≠ next m.capacity idx) ?_ ?_ i j
      ⟨within, away⟩ ⟨withinToo, awayToo⟩
    · intro j otherwise elsewhere used same
      exact otherwise.2 (holed.distinct j _ otherwise.1 inside elsewhere apart used full same)
    · exact fun i j first second elsewhere elsewhereToo =>
        holed.distinct i j first.1 second.1 elsewhere elsewhereToo
  · rw [labels_update, card_occupied_replace holed.inside (label_ne_zero.mpr holed.full)
      (UInt32.to_nat_ne_zero.mpr positive)]
    exact holed.counted

/-- A shift moves the slot after the hole and loses no other one. -/
theorem Holed.shift_holds {m : RobinHoodMap V} {idx : Nat} (holed : Holed hasher m idx)
    (far : ¬ (m.table (next m.capacity idx)).dib ≤ 1) (key : Key) (value : V) :
    HoldsApart { m with table := update m.table idx (pulled (m.table (next m.capacity idx))) }
        (next m.capacity idx) key value ↔ m.HoldsApart idx key value := by
  have inside := next_lt holed.inside
  have apart := holed.next_ne far
  have moved : (pulled (m.table (next m.capacity idx))).Stores key value ↔
      (m.table (next m.capacity idx)).Stores key value := by
    have label := pulled_label far
    rw [UInt32.le_iff_toNat_le, UInt32.toNat_one] at far
    unfold Slot.Stores
    rw [← UInt32.to_nat_ne_zero, ← UInt32.to_nat_ne_zero]
    constructor
    · intro stores
      exact ⟨by omega, stores.2⟩
    · intro stores
      exact ⟨by omega, stores.2⟩
  unfold HoldsApart
  dsimp only
  constructor
  · rintro ⟨i, within, away, stores⟩
    by_cases here : i = idx
    · rw [here, Function.update_self, moved] at stores
      exact ⟨_, inside, apart, stores⟩
    · rw [Function.update_of_ne here] at stores
      exact ⟨i, within, here, stores⟩
  · rintro ⟨i, within, away, stores⟩
    by_cases here : i = next m.capacity idx
    · refine ⟨idx, holed.inside, Ne.symm apart, ?_⟩
      rw [Function.update_self, moved, ← here]
      exact stores
    · refine ⟨i, within, here, ?_⟩
      rw [Function.update_of_ne away]
      exact stores

/-- The last step of the shift empties the hole. -/
theorem Holed.close {m : RobinHoodMap V} {idx : Nat} (holed : Holed hasher m idx)
    (near : (m.table (next m.capacity idx)).dib ≤ 1) {s : Slot V} (empty : s.dib = 0) :
    Filled hasher { m with table := update m.table idx s, size := m.size - 1 } ∧
      ∀ key value, Holds { m with table := update m.table idx s } key value ↔
        m.HoldsApart idx key value := by
  rw [UInt32.le_iff_toNat_le, UInt32.toNat_one] at near
  refine ⟨{ toArranged := holed.put _ ?_ ?_ ?_ ?_, distinct := ?_, counted := ?_ }, ?_⟩
  · exact fun full => absurd empty full
  · exact fun full => absurd empty full
  · intro j _ _
    rw [empty]
    exact Nat.zero_le _
  · unfold labels
    omega
  · intro i j within withinToo
    dsimp only
    by_cases here : i = idx
    · rw [here, Function.update_self]
      intro full
      exact absurd empty full
    · rw [Function.update_of_ne here]
      by_cases hereToo : j = idx
      · rw [hereToo, Function.update_self]
        intro _ full
        exact absurd empty full
      · rw [Function.update_of_ne hereToo]
        exact holed.distinct i j within withinToo here hereToo
  · have cleared := card_occupied_clear holed.inside (label_ne_zero.mpr holed.full)
    have counted := holed.counted
    rw [labels_update, empty, UInt32.toNat_zero]
    dsimp only
    omega
  · intro key value
    rw [holds_update holed.inside]
    constructor
    · intro either
      cases either with
      | inl stores => exact absurd empty stores.1
      | inr apart => exact apart
    · exact .inr

theorem backshift_spec [Inhabited V] {e fuel : Nat} {m : RobinHoodMap V} {idx : Nat}
    (holed : Holed hasher m idx) (inside : e < m.capacity) (blank : m.labels e = 0)
    (enough : gap m.capacity idx e < fuel) :
    ∃ next, backshift fuel m idx = some next ∧ next.capacity = m.capacity ∧
      next.size = m.size ∧ Filled hasher { next with size := next.size - 1 } ∧
      ∀ key value, next.Holds key value ↔ m.HoldsApart idx key value := by
  induction fuel generalizing m idx with
  | zero => omega
  | succ fuel ih =>
      have away : idx ≠ e := by
        intro here
        exact label_ne_zero.mpr holed.full (here ▸ blank)
      rw [backshift, holed.mask_step holed.inside]
      by_cases near : (m.table (next m.capacity idx)).dib ≤ 1
      · rw [if_pos near]
        have closed := holed.close near (show (Slot.blank : Slot V).dib = 0 from rfl)
        exact ⟨_, rfl, rfl, rfl, closed.1, closed.2⟩
      · rw [if_neg near]
        have nearer := gap_next_left holed.inside inside away
        have still : labels { m with
            table := update m.table idx (pulled (m.table (next m.capacity idx))) } e = 0 := by
          rw [labels_update, Function.update_of_ne (Ne.symm away)]
          exact blank
        obtain ⟨after, ran, capacity, size, filled, holds⟩ :=
          ih (holed.shift near) inside still (by dsimp only; omega)
        refine ⟨after, ran, capacity, size, filled, ?_⟩
        intro key value
        rw [holds, holed.shift_holds near]

theorem sound_of_filled {m next : RobinHoodMap V} (sound : Sound hasher m)
    (filled : Filled hasher next) (capacity : next.capacity = m.capacity)
    (size : next.size ≤ m.size) : Sound hasher next where
  toFilled := filled
  large := by
    rw [capacity]
    exact sound.large
  loaded := by
    have loaded := sound.loaded
    unfold loadLimit at loaded ⊢
    rw [capacity]
    omega

theorem erase_spec [Inhabited V] {m : RobinHoodMap V} (sound : Sound hasher m) (key : Key) :
    ∃ next present, m.erase hasher key = some (next, present) ∧ Sound hasher next ∧
      (present = true ↔ ∃ value, m.Holds key value) ∧
      ∀ other value, next.Holds other value ↔ other ≠ key ∧ m.Holds other value := by
  unfold erase
  cases probe_loop_spec sound.toFilled sound.room key with
  | inl found =>
      obtain ⟨p, ran, inside, full, same⟩ := found
      obtain ⟨e, within, blank⟩ := sound.exists_blank sound.room
      obtain ⟨after, shifted, capacity, size, filled, holds⟩ :=
        backshift_spec (sound.holed inside full) within blank (gap_lt within)
      refine ⟨{ after with size := after.size - 1 }, true, ?_, ?_, ?_, ?_⟩
      · rw [ran, Option.bind_eq_bind, Option.bind_some]
        dsimp only
        rw [shifted]
        rfl
      · apply sound_of_filled sound filled capacity
        dsimp only
        omega
      · have stored : ∃ value, m.Holds key value := ⟨_, p, inside, full, same, rfl⟩
        exact ⟨fun _ => stored, fun _ => rfl⟩
      · intro other value
        have split : Holds { after with size := after.size - 1 } other value ↔
          m.HoldsApart p other value := holds other value
        rw [split, sound.holds_apart_iff inside full, same]
  | inr absent =>
      refine ⟨m, false, by rw [absent.1]; rfl, sound, ?_, ?_⟩
      · constructor
        · intro yes
          cases yes
        · rintro ⟨value, holds⟩
          exact absurd holds (absent.2 value)
      · intro other value
        constructor
        · intro holds
          refine ⟨?_, holds⟩
          intro equal
          exact absent.2 value (equal ▸ holds)
        · intro both
          exact both.2

end Finm327.Hw5.RobinHoodMap
