import Finm327.Hw5.FiniteMap

/-!
# What every reachable table looks like

The loops end in every reachable table: the load limit leaves an empty slot, and
no loop fills it before it gets there. This needs nothing of the keys or of the
labels. What the labels say is known as long as none of them overflows.
-/

namespace Finm327.Hw5

open Finm327.Library.CyclicTables
open Finm327.Library.Runs
open Function (update)

variable {V : Type}

namespace RobinHoodMap

/-! ## The loops end -/

/-- What the loops need: a slot that is empty. The labels need not be right. -/
structure Roomy (m : RobinHoodMap V) : Prop extends Ring m where
  large : 8 ≤ m.capacity
  counted : (occupied m.capacity m.labels).card ≤ m.size
  loaded : m.size ≤ m.loadLimit

/-- What an insert below the load limit does to the number of slots in use. -/
structure Grown (before after : RobinHoodMap V) : Prop where
  capacity : after.capacity = before.capacity
  mask : after.mask = before.mask
  size : after.size ≤ before.size + 1
  counted : (occupied after.capacity after.labels).card + before.size ≤
    (occupied before.capacity before.labels).card + after.size

theorem Roomy.exists_blank {m : RobinHoodMap V} (roomy : Roomy m) :
    ∃ e, e < m.capacity ∧ m.labels e = 0 := by
  have large := roomy.large
  have counted := roomy.counted
  have loaded := roomy.loaded
  unfold loadLimit at loaded
  exact exists_empty (by omega)

theorem Grown.ring {before after : RobinHoodMap V} (grown : Grown before after)
    (ring : Ring before) : Ring after where
  power := by
    rw [grown.capacity]
    exact ring.power
  masked := by
    rw [grown.mask, grown.capacity]
    exact ring.masked

theorem insert_loop_ends {e fuel : Nat} {m : RobinHoodMap V} {idx : Nat} {probe : Slot V}
    (ring : Ring m) (inside : idx < m.capacity) (within : e < m.capacity)
    (blank : m.labels e = 0) (enough : gap m.capacity idx e < fuel) :
    ∃ after, insertLoop fuel m idx probe = some after ∧ Grown m after := by
  induction fuel generalizing m idx probe with
  | zero => omega
  | succ fuel ih =>
      rw [insertLoop]
      by_cases empty : (m.table idx).dib = 0
      · rw [if_pos empty]
        refine ⟨_, rfl, rfl, rfl, Nat.le_refl _, ?_⟩
        have more := @card_occupied_update_le m.capacity m.labels idx probe.dib.toNat
        rw [labels_update]
        dsimp only
        omega
      · rw [if_neg empty]
        by_cases same : (m.table idx).hash = probe.hash ∧ (m.table idx).keyEq probe.view = true
        · rw [if_pos same]
          refine ⟨_, rfl, rfl, rfl, Nat.le_succ _, ?_⟩
          have kept : update m.labels idx (m.table idx).dib.toNat = m.labels :=
            Function.update_eq_self idx m.labels
          rw [labels_update, kept]
        · have away : idx ≠ e := by
            intro here
            exact label_ne_zero.mpr empty (here ▸ blank)
          have nearer := gap_next_left inside within away
          rw [if_neg same, ring.mask_step inside]
          by_cases rich : (m.table idx).dib < probe.dib
          · -- The swap fills no slot, so the empty one is still there.
            rw [if_pos rich]
            have used : probe.dib.toNat ≠ 0 := by
              rw [UInt32.lt_iff_toNat_lt] at rich
              omega
            have still : labels { m with table := update m.table idx probe } e = 0 := by
              rw [labels_update, Function.update_of_ne (Ne.symm away)]
              exact blank
            obtain ⟨after, ran, grown⟩ := @ih { m with table := update m.table idx probe }
              (next m.capacity idx) { m.table idx with dib := (m.table idx).dib + 1 }
              ⟨ring.power, ring.masked⟩ (next_lt inside) within still (by dsimp only; omega)
            refine ⟨after, ran, grown.capacity, grown.mask, grown.size, ?_⟩
            have counted := grown.counted
            rw [labels_update, card_occupied_replace inside (label_ne_zero.mpr empty) used]
              at counted
            exact counted
          · rw [if_neg rich]
            exact ih ring (next_lt inside) within blank (by omega)

theorem probe_loop_ends {e fuel : Nat} {m : RobinHoodMap V} {h : UInt64} {key : Key} {idx : Nat}
    {dist : UInt32} (ring : Ring m) (inside : idx < m.capacity) (within : e < m.capacity)
    (blank : m.labels e = 0) (enough : gap m.capacity idx e < fuel) :
    ∃ found, probeLoop m h key fuel idx dist = some found ∧
      ∀ p, found = some p → p < m.capacity ∧ m.labels p ≠ 0 := by
  induction fuel generalizing idx dist with
  | zero => omega
  | succ fuel ih =>
      rw [probeLoop]
      by_cases stops : (m.table idx).dib = 0 ∨ (m.table idx).dib < dist
      · rw [if_pos stops]
        refine ⟨none, rfl, ?_⟩
        intro p some
        cases some
      · have full : (m.table idx).dib ≠ 0 := fun zero => stops (.inl zero)
        rw [if_neg stops]
        by_cases same : (m.table idx).hash = h ∧ (m.table idx).keyEq key = true
        · rw [if_pos same]
          refine ⟨some idx, rfl, ?_⟩
          intro p here
          rw [← Option.some.inj here]
          exact ⟨inside, label_ne_zero.mpr full⟩
        · have away : idx ≠ e := by
            intro here
            exact label_ne_zero.mpr full (here ▸ blank)
          have nearer := gap_next_left inside within away
          rw [if_neg same, ring.mask_step inside]
          exact ih (next_lt inside) (by omega)

/-- The shift stops at the empty slot at the latest, and leaves one slot less in use. -/
theorem backshift_ends [Inhabited V] {e fuel : Nat} {m : RobinHoodMap V} {idx : Nat}
    (ring : Ring m) (inside : idx < m.capacity) (full : m.labels idx ≠ 0)
    (within : e < m.capacity) (blank : m.labels e = 0) (enough : gap m.capacity idx e < fuel) :
    ∃ after, backshift fuel m idx = some after ∧ after.capacity = m.capacity ∧
      after.mask = m.mask ∧ after.size = m.size ∧
      (occupied after.capacity after.labels).card + 1 = (occupied m.capacity m.labels).card := by
  induction fuel generalizing m idx with
  | zero => omega
  | succ fuel ih =>
      have away : idx ≠ e := by
        intro here
        exact full (here ▸ blank)
      have nearer := gap_next_left inside within away
      rw [backshift, ring.mask_step inside]
      by_cases near : (m.table (next m.capacity idx)).dib ≤ 1
      · rw [if_pos near]
        refine ⟨_, rfl, rfl, rfl, rfl, ?_⟩
        rw [labels_update]
        exact card_occupied_clear inside full
      · rw [if_neg near]
        have label := pulled_label near
        rw [UInt32.le_iff_toNat_le, UInt32.toNat_one] at near
        have used : (pulled (m.table (next m.capacity idx))).dib.toNat ≠ 0 := by omega
        have still : labels { m with
            table := update m.table idx (pulled (m.table (next m.capacity idx))) } e = 0 := by
          rw [labels_update, Function.update_of_ne (Ne.symm away)]
          exact blank
        have onward : labels { m with
            table := update m.table idx (pulled (m.table (next m.capacity idx))) }
              (next m.capacity idx) ≠ 0 := by
          rw [labels_update]
          by_cases loops : next m.capacity idx = idx
          · rw [loops, Function.update_self, ← loops]
            exact used
          · rw [Function.update_of_ne loops]
            unfold labels
            omega
        obtain ⟨after, ran, capacity, mask, size, counted⟩ :=
          @ih { m with table := update m.table idx (pulled (m.table (next m.capacity idx))) }
            (next m.capacity idx) ⟨ring.power, ring.masked⟩ (next_lt inside) onward within still
            (by dsimp only; omega)
        refine ⟨after, ran, capacity, mask, size, ?_⟩
        rw [labels_update, card_occupied_replace inside full used] at counted
        exact counted

theorem search_ends (hasher : Key → UInt64) {m : RobinHoodMap V} (roomy : Roomy m) (key : Key) :
    ∃ found, probeLoop m (hasher key) key m.capacity (m.home (hasher key)) 1 = some found ∧
      ∀ p, found = some p → p < m.capacity ∧ m.labels p ≠ 0 := by
  obtain ⟨e, within, blank⟩ := roomy.exists_blank
  exact probe_loop_ends roomy.toRing (roomy.home_lt _) within blank (gap_lt within)

/-- What bounds the loops as long as the labels are right. -/
structure WellShaped (hasher : Key → UInt64) (m : RobinHoodMap V) : Prop where
  power : ∃ exponent, m.capacity = 2 ^ exponent
  counted : m.size = (occupied m.capacity m.labels).card
  loaded : m.size ≤ m.loadLimit
  distinct : ∀ i j, i < m.capacity → j < m.capacity → (m.table i).dib ≠ 0 →
    (m.table j).dib ≠ 0 → (m.table i).view = (m.table j).view → i = j
  homed : ∀ i, i < m.capacity → (m.table i).dib ≠ 0 →
    (m.table i).dib.toNat = gap m.capacity (m.home (hasher (m.table i).view)) i + 1
  preceded : ∀ i, i < m.capacity → 1 < (m.table (next m.capacity i)).dib.toNat →
    (m.table (next m.capacity i)).dib.toNat - 1 ≤ (m.table i).dib.toNat

theorem Sound.well_shaped {hasher : Key → UInt64} {m : RobinHoodMap V} (sound : Sound hasher m) :
    WellShaped hasher m where
  power := sound.power
  counted := sound.counted
  loaded := sound.loaded
  distinct := sound.distinct
  homed _ inside full := sound.label_eq inside full
  preceded i inside _ := Nat.sub_le_of_le_add (sound.ordered i inside)

section Hashed

variable [Inhabited V] {hasher : Key → UInt64}

theorem place_ends {m : RobinHoodMap V} (ring : Ring m)
    (blank : ∃ e, e < m.capacity ∧ m.labels e = 0) (key : Key) (value : V) :
    ∃ after, insertLoop m.capacity m (m.home (hasher key)) (makeProbe hasher key value) =
      some after ∧ Grown m after := by
  obtain ⟨e, within, empty⟩ := blank
  exact insert_loop_ends ring (ring.home_lt _) within empty (gap_lt within)

/-- The inserts of a rehash stay below the load limit of the new table. -/
theorem rehash_loop_ends {m : RobinHoodMap V} (roomy : Roomy m) (depth : Nat) {count : Nat}
    (part : count ≤ m.capacity) :
    ∃ fresh, (List.range count).foldlM (moveSlot (insertNested hasher (depth + 1)) m.table)
        (allocate (m.capacity * 2)) = some fresh ∧
      Ring fresh ∧ fresh.capacity = m.capacity * 2 ∧
      fresh.size ≤ (occupied count m.labels).card ∧
      (occupied fresh.capacity fresh.labels).card ≤ fresh.size := by
  induction count with
  | zero =>
      obtain ⟨exponent, power⟩ := roomy.power
      refine ⟨allocate (m.capacity * 2), rfl, ⟨⟨exponent + 1, ?_⟩, rfl⟩, rfl, Nat.zero_le _, ?_⟩
      · rw [Nat.pow_succ, ← power]
        rfl
      · refine (Finset.card_eq_zero.mpr ?_).le
        rw [Finset.eq_empty_iff_forall_notMem]
        intro i member
        exact (mem_occupied.mp member).2 rfl
  | succ count ih =>
      obtain ⟨fresh, ran, ring, capacity, size, counted⟩ := ih (by omega)
      rw [List.range_succ, List.foldlM_append, ran, Option.bind_eq_bind, Option.bind_some,
        List.foldlM_cons, moveSlot]
      by_cases full : (m.table count).dib = 0
      · rw [if_neg (not_not.mpr full)]
        exact ⟨fresh, rfl, ring, capacity,
          size.trans (card_occupied_mono (Nat.le_succ count)), counted⟩
      · have more := card_occupied_succ (label_ne_zero.mpr full)
        have bound := @card_occupied_mono m.labels _ _ part
        have held := roomy.counted
        have loaded := roomy.loaded
        have limit : fresh.size + 1 ≤ fresh.loadLimit := by
          unfold loadLimit at loaded ⊢
          rw [capacity]
          omega
        have blank := exists_empty (lt_of_le_of_lt counted (by
          unfold loadLimit at limit
          omega))
        obtain ⟨after, placed, grown⟩ :=
          @place_ends _ _ hasher _ ring blank (m.table count).movedKey (m.table count).value
        rw [if_pos full, insert_nested_roomy limit, placed]
        have bigger := grown.size
        have growth := grown.counted
        exact ⟨after, rfl, grown.ring ring, grown.capacity.trans capacity, by omega, by omega⟩

theorem insert_ends {m : RobinHoodMap V} (roomy : Roomy m) (key : Key) (value : V) :
    ∃ after, m.insert hasher key value = some after ∧ Roomy after := by
  have large := roomy.large
  have counted := roomy.counted
  have loaded := roomy.loaded
  by_cases below : m.size + 1 ≤ m.loadLimit
  · obtain ⟨after, ran, grown⟩ := @place_ends _ _ hasher _ roomy.toRing roomy.exists_blank key value
    have size := grown.size
    have growth := grown.counted
    have capacity := grown.capacity
    refine ⟨after, ?_, grown.ring roomy.toRing, by omega, by omega, ?_⟩
    · rw [insert, insert_nested_roomy below, ran]
    · have same : after.loadLimit = m.loadLimit := by rw [loadLimit, loadLimit, capacity]
      omega
  · obtain ⟨fresh, ran, ring, doubled, fewer, held⟩ :=
      @rehash_loop_ends _ _ hasher _ roomy 0 _ (Nat.le_refl m.capacity)
    have limit : m.size + 1 ≤ fresh.loadLimit := by
      unfold loadLimit at loaded ⊢
      rw [doubled]
      omega
    have blank := exists_empty (lt_of_le_of_lt held (by
      unfold loadLimit at limit
      omega))
    obtain ⟨after, placed, grown⟩ := @place_ends _ _ hasher _ ring blank key value
    have size := grown.size
    have growth := grown.counted
    have capacity := grown.capacity
    refine ⟨after, ?_, grown.ring ring, by omega, by omega, ?_⟩
    · have rehashed : rehash (insertNested hasher 1) m (m.capacity * 2) = some fresh := ran
      rw [insert, insertNested, if_pos (by omega), rehashed]
      exact placed
    · have same : after.loadLimit = fresh.loadLimit := by rw [loadLimit, loadLimit, capacity]
      omega

theorem erase_ends {m : RobinHoodMap V} (roomy : Roomy m) (key : Key) :
    ∃ after present, m.erase hasher key = some (after, present) ∧ Roomy after := by
  obtain ⟨found, searched, place⟩ := search_ends hasher roomy key
  rw [erase, searched, Option.bind_eq_bind, Option.bind_some]
  cases found with
  | none => exact ⟨m, false, rfl, roomy⟩
  | some p =>
      obtain ⟨inside, full⟩ := place p rfl
      obtain ⟨e, within, blank⟩ := roomy.exists_blank
      obtain ⟨after, ran, capacity, mask, size, fewer⟩ :=
        backshift_ends roomy.toRing inside full within blank (gap_lt within)
      refine ⟨{ after with size := after.size - 1 }, true, ?_, ⟨⟨?_, ?_⟩, ?_, ?_, ?_⟩⟩
      · dsimp only
        rw [ran]
        rfl
      · exact capacity.symm ▸ roomy.power
      · exact mask.trans (roomy.masked.trans (congrArg (· - 1) capacity.symm))
      · exact capacity.symm ▸ roomy.large
      · have counted := roomy.counted
        have same : labels { after with size := after.size - 1 } = after.labels := rfl
        rw [same]
        dsimp only
        omega
      · have loaded := roomy.loaded
        unfold loadLimit at loaded ⊢
        dsimp only
        rw [capacity]
        omega

theorem roomy_step {m next : RobinHoodMap V} {op : Op V} {answer : Answer V} (roomy : Roomy m)
    (ran : step hasher m op = some (next, answer)) : Roomy next := by
  cases op with
  | insert key value =>
      obtain ⟨after, inserted, result⟩ := @insert_ends _ _ hasher _ roomy key value
      rw [step, inserted] at ran
      cases ran
      exact result
  | find key =>
      obtain ⟨found, _, same⟩ := Option.bind_eq_some_iff.mp ran
      cases same
      exact roomy
  | erase key =>
      obtain ⟨after, present, erased, result⟩ := @erase_ends _ _ hasher _ roomy key
      rw [step, erased] at ran
      cases ran
      exact result

theorem reachable_roomy {cap : Nat} {m : RobinHoodMap V} (made : make cap = some m)
    {allowed : Config (RobinHoodMap V) (Op V) (Answer V) → Op V → Prop}
    {config : Config (RobinHoodMap V) (Op V) (Answer V)}
    (reached : Reachable (step hasher) allowed m config) : Roomy config.state := by
  apply reachable_invariant (fun config => Roomy config.state) ?_ ?_ reached
  · obtain ⟨sound, _, _⟩ := @make_sound _ _ hasher _ _ made
    exact ⟨sound.ring, sound.large, sound.counted.symm.le, sound.loaded⟩
  · intro config op next answer roomy _ ran
    exact roomy_step roomy ran

/-- Every call returns; each of its loops has the capacity of its table as fuel. -/
structure LoopsEnd (hasher : Key → UInt64) (m : RobinHoodMap V) : Prop where
  searching : ∀ key, ∃ found,
    probeLoop m (hasher key) key m.capacity (m.home (hasher key)) 1 = some found
  inserting : ∀ key value, ∃ next, m.insert hasher key value = some next
  finding : ∀ key, ∃ found, m.find hasher key = some found
  erasing : ∀ key, ∃ next present, m.erase hasher key = some (next, present)

theorem Roomy.loops_end {m : RobinHoodMap V} (roomy : Roomy m) : LoopsEnd hasher m where
  searching key := by
    obtain ⟨found, ran, _⟩ := search_ends hasher roomy key
    exact ⟨found, ran⟩
  inserting key value := by
    obtain ⟨next, ran, _⟩ := @insert_ends _ _ hasher _ roomy key value
    exact ⟨next, ran⟩
  finding key := by
    obtain ⟨found, ran, _⟩ := search_ends hasher roomy key
    rw [find, ran]
    exact ⟨_, rfl⟩
  erasing key := by
    obtain ⟨next, present, ran, _⟩ := @erase_ends _ _ hasher _ roomy key
    exact ⟨next, present, ran⟩

/-- The loops end after any calls with any keys, and the table has its shape as long as the
labels have room. -/
theorem probe_loops_end (hasher : Key → UInt64) {cap : Nat} {m : RobinHoodMap V}
    (made : make cap = some m) {config : Config (RobinHoodMap V) (Op V) (Answer V)}
    (reached : Reachable (step hasher) (fun _ _ => True) m config) :
    LoopsEnd hasher config.state ∧
      (Reachable (step hasher) fewKeys m config → WellShaped hasher config.state) := by
  constructor
  · exact (reachable_roomy made reached).loops_end
  · intro few
    exact (reachable_shows made few).sound.well_shaped

end Hashed

end RobinHoodMap

theorem probe_loops_end_sample :
    ∃ (m : RobinHoodMap Nat) (config : Config (RobinHoodMap Nat) (Op Nat) (Answer Nat)),
      RobinHoodMap.make 3 = some m ∧
        execute (RobinHoodMap.step symbolHash) fewKeys (.start m) sampleOps = some config ∧
        RobinHoodMap.LoopsEnd symbolHash config.state ∧
        RobinHoodMap.WellShaped symbolHash config.state := by
  have completes : (execute (RobinHoodMap.step symbolHash) fewKeys
      (.start (RobinHoodMap.allocate 8 : RobinHoodMap Nat)) sampleOps).isSome = true := by
    decide +kernel
  obtain ⟨config, ran⟩ := Option.isSome_iff_exists.mp completes
  have made : RobinHoodMap.make 3 = some (RobinHoodMap.allocate 8 : RobinHoodMap Nat) := rfl
  have reached := reachable_of_execute ran
  have whole := RobinHoodMap.probe_loops_end symbolHash made
    (reachable_mono (fun _ _ _ => trivial) reached)
  exact ⟨_, config, made, ran, whole.1, whole.2 reached⟩

namespace RobinHoodMap

theorem crowd_lost {n : Nat} (last : n + 1 = 2 ^ 32) :
    ¬ WellShaped (fun _ => 0) (crowd (n + 1)) := by
  intro shaped
  have visible : occupied (2 ^ 33) (crowd (n + 1)).labels ⊆ Finset.range n := by
    intro i member
    obtain ⟨_, full⟩ := mem_occupied.mp member
    rw [Finset.mem_range]
    by_contra beyond
    apply full
    unfold labels crowd
    dsimp only
    by_cases here : i < n + 1
    · have same : i = n := by omega
      rw [if_pos here, same, crowdSlot, last]
      rfl
    · rw [if_neg here]
      rfl
  have few := Finset.card_le_card visible
  have counted : n + 1 = (occupied (2 ^ 33) (crowd (n + 1)).labels).card := shaped.counted
  rw [Finset.card_range] at few
  omega

/-- The empty key stands at `0` and all others at `1`. -/
def longHash (key : Key) : UInt64 := if key = [] then 0 else 1

/-- The length of such a key is `0` as a 32-bit number. -/
theorem long_probe (hasher : Key → UInt64) {long : Key} (length : long.length = 2 ^ 32)
    (value : Nat) :
    makeProbe hasher long value =
      { (Slot.blank : Slot Nat) with
        dib := 1, hash := hasher long, heapKey := long, value := value } := by
  have wraps : UInt32.ofNat (2 ^ 32) = 0 := rfl
  unfold makeProbe Slot.storeKey
  rw [length, if_neg (by decide), wraps]
  rfl

theorem long_hash {long : Key} (length : long.length = 2 ^ 32) : longHash long = 1 := by
  apply if_neg
  intro empty
  rw [empty] at length
  exact absurd length (by decide)

def alone (long : Key) : RobinHoodMap Nat :=
  { (allocate 8 : RobinHoodMap Nat) with
    table := update (fun _ => Slot.blank) 1 (makeProbe longHash long 0), size := 1 }

/-- The long key and the empty one side by side. -/
def twins (long : Key) : RobinHoodMap Nat :=
  { alone long with
    table := update (alone long).table 0 (makeProbe longHash [] 1), size := 2 }

theorem twins_reached {long : Key} (length : long.length = 2 ^ 32) :
    ∃ config : Config (RobinHoodMap Nat) (Op Nat) (Answer Nat),
      Reachable (step longHash) (fun _ _ => True) (allocate 8) config ∧
        config.ops = [.insert long 0, .insert [] 1] ∧ config.state = twins long := by
  have first : step longHash (allocate 8 : RobinHoodMap Nat) (.insert long 0) =
      some (alone long, .inserted) := by
    have start : (allocate 8 : RobinHoodMap Nat).home 1 = 1 := rfl
    have roomy : (allocate 8 : RobinHoodMap Nat).size + 1 ≤
        (allocate 8 : RobinHoodMap Nat).loadLimit := by
      decide
    rw [step, insert, insert_nested_roomy roomy, long_hash length, start]
    rfl
  have second : step longHash (alone long) (.insert [] 1) = some (twins long, .inserted) := by
    have roomy : (alone long).size + 1 ≤ (alone long).loadLimit := by
      change 1 + 1 ≤ (allocate 8 : RobinHoodMap Nat).loadLimit
      decide
    have empty : longHash [] = 0 := if_pos rfl
    have start : (alone long).home 0 = 0 := Nat.zero_and _
    rw [step, insert, insert_nested_roomy roomy, empty, start]
    rfl
  refine ⟨_, (reachable_start.tail (.run trivial first)).tail (.run trivial second), ?_, rfl⟩
  rw [Config.push_ops, Config.push_ops]
  rfl

theorem twins_alike {long : Key} (length : long.length = 2 ^ 32) :
    ¬ WellShaped longHash (twins long) := by
  intro shaped
  have one : (twins long).table 1 = makeProbe longHash long 0 := rfl
  have same : ((twins long).table 0).view = ((twins long).table 1).view := by
    rw [one, long_probe longHash length]
    rfl
  have used : ((twins long).table 1).dib ≠ 0 := by
    rw [one, long_probe longHash length]
    exact Nat.one_ne_zero ∘ congrArg UInt32.toNat
  have usedToo : ((twins long).table 0).dib ≠ 0 := by
    change (1 : UInt32) ≠ 0
    decide
  have inside : 1 < (twins long).capacity := by
    change 1 < 8
    omega
  have equal := shaped.distinct 0 1 (by omega) inside usedToo used same
  cases equal

/-- Too many keys, or a key that is too long, and the table has lost its shape. -/
theorem shape_lost :
    (∃ (m : RobinHoodMap Nat) (config : Config (RobinHoodMap Nat) (Op Nat) (Answer Nat)),
      make (2 ^ 33) = some m ∧ Reachable (step fun _ => 0) shortKey m config ∧
        config.ops = crowdOps (2 ^ 32) ∧ ¬ WellShaped (fun _ => 0) config.state) ∧
      ∃ (m : RobinHoodMap Nat) (config : Config (RobinHoodMap Nat) (Op Nat) (Answer Nat)),
        make 8 = some m ∧ Reachable (step longHash) (fun _ _ => True) m config ∧
          config.ops = [.insert (List.replicate (2 ^ 32) 0) 0, .insert [] 1] ∧
          ¬ WellShaped longHash config.state := by
  constructor
  · obtain ⟨config, reached, ops, state⟩ := crowd_reached (Nat.le_refl (2 ^ 32))
    have last : (2 ^ 32 - 1) + 1 = 2 ^ 32 := by omega
    refine ⟨_, config, rfl, reached, ops, ?_⟩
    have lost := crowd_lost last
    rw [last] at lost
    rw [state]
    exact lost
  · have length : (List.replicate (2 ^ 32) (0 : UInt8)).length = 2 ^ 32 := List.length_replicate
    obtain ⟨config, reached, ops, state⟩ := twins_reached length
    refine ⟨_, config, rfl, reached, ops, ?_⟩
    rw [state]
    exact twins_alike length

end RobinHoodMap

end Finm327.Hw5
