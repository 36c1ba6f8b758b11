import Finm327.Hw5.ReachableTables

/-!
# The labels depend on what is stored

The home positions of the keys that are stored determine the label of every slot,
so the table keeps nothing of the order of the calls. Past the width of a label a
key can stand behind its place for good.
-/

namespace Finm327.Hw5.RobinHoodMap

open Finm327.Library.CyclicTables
open Finm327.Library.Runs
open Function (update)

variable {V : Type}

/-- The positions that the hashes of the keys select, each as often as it is selected. -/
def homeBuckets (hasher : Key → UInt64) (m : RobinHoodMap V) (keys : Finset Key) : Multiset Nat :=
  keys.val.map fun key => m.home (hasher key)

theorem Sound.settles {hasher : Key → UInt64} {m : RobinHoodMap V} (sound : Sound hasher m) :
    Settled m.capacity m.labels fun i => m.home (hasher (m.table i).view) where
  ordered := sound.ordered
  homed _ _ _ := sound.home_lt _
  settled _ inside full := sound.label_eq inside (label_ne_zero.mp full)
  room := sound.exists_blank sound.room

theorem Shows.homes_eq {hasher : Key → UInt64} {m : RobinHoodMap V} {ops : List (Op V)}
    (shows : Shows hasher m ops) :
    homeBuckets hasher m (keysPresent ops) =
      homes m.capacity m.labels fun i => m.home (hasher (m.table i).view) := by
  rw [homeBuckets, shows.keys_eq, slotKeys, Finset.image_val_of_injOn shows.views_injective,
    Multiset.map_map, homes]
  rfl

/-- Nothing of the order of the inserts, or of keys that came and went, is left in the labels. -/
theorem no_residue [Inhabited V] (hasher : Key → UInt64) {cap capToo : Nat}
    {m mToo : RobinHoodMap V} (made : make cap = some m) (madeToo : make capToo = some mToo)
    {first second : Config (RobinHoodMap V) (Op V) (Answer V)}
    (reached : Reachable (step hasher) fewKeys m first)
    (reachedToo : Reachable (step hasher) fewKeys mToo second)
    (sameCapacity : first.state.capacity = second.state.capacity)
    (sameHomes : homeBuckets hasher first.state (keysPresent first.ops) =
      homeBuckets hasher second.state (keysPresent second.ops)) :
    ∀ i, i < first.state.capacity → (first.state.table i).dib = (second.state.table i).dib := by
  have shows := reachable_shows made reached
  have showsToo := reachable_shows madeToo reachedToo
  intro i inside
  rw [shows.homes_eq, showsToo.homes_eq, ← sameCapacity] at sameHomes
  have settlesToo := showsToo.sound.settles
  rw [← sameCapacity] at settlesToo
  exact UInt32.toNat_inj.mp (shows.sound.settles.labels_eq settlesToo sameHomes inside)

/-- The same keys in another order, one of them replaced meanwhile, and a key that came and
went. -/
theorem no_residue_sample :
    ∃ first second : Config (RobinHoodMap Nat) (Op Nat) (Answer Nat),
      execute (step symbolHash) fewKeys (.start (allocate 8))
          [.insert [65] 1, .insert [66] 2, .insert [67] 3, .erase [66], .insert [68] 4] =
        some first ∧
      execute (step symbolHash) fewKeys (.start (allocate 8))
          [.insert [68] 5, .insert [67] 6, .insert [65] 7, .insert [67] 8] = some second ∧
      ∀ i, i < 8 → (first.state.table i).dib = (second.state.table i).dib := by
  have completes : (execute (step symbolHash) fewKeys
      (.start (allocate 8 : RobinHoodMap Nat))
      [.insert [65] 1, .insert [66] 2, .insert [67] 3, .erase [66], .insert [68] 4]).any
        (fun first => (execute (step symbolHash) fewKeys (.start (allocate 8 : RobinHoodMap Nat))
          [.insert [68] 5, .insert [67] 6, .insert [65] 7, .insert [67] 8]).any fun second =>
            decide (first.state.capacity = 8 ∧ second.state.capacity = 8 ∧
              homeBuckets symbolHash first.state (keysPresent first.ops) =
                homeBuckets symbolHash second.state (keysPresent second.ops))) = true := by
    decide +kernel
  obtain ⟨first, ran, rest⟩ := (Option.any_eq_true _ _).mp completes
  obtain ⟨second, ranToo, found⟩ := (Option.any_eq_true _ _).mp rest
  obtain ⟨capacity, capacityToo, homes⟩ := of_decide_eq_true found
  have made : make 3 = some (allocate 8 : RobinHoodMap Nat) := rfl
  have madeToo : make 8 = some (allocate 8 : RobinHoodMap Nat) := rfl
  have equal := no_residue symbolHash made madeToo (reachable_of_execute ran)
    (reachable_of_execute ranToo) (capacity.trans capacityToo.symm) homes
  rw [capacity] at equal
  exact ⟨first, second, ran, ranToo, equal⟩

/-- The empty key belongs where the label of the crowd overflows. -/
def guardHash (key : Key) : UInt64 := if key = [] then 4294967295 else 0

def guardSlot : Slot Nat := makeProbe guardHash [] 0

/-- The empty key at its home, and the crowd in the slots before it. -/
def guarded (n : Nat) : RobinHoodMap Nat :=
  { table := fun i =>
      if i < n then crowdSlot i i else if i = 2 ^ 32 - 1 then guardSlot else Slot.blank,
    capacity := 2 ^ 33, mask := 2 ^ 33 - 1, size := n + 1 }

/-- The next key passes the empty one, with a label that starts again at one. -/
def spilled (n : Nat) : RobinHoodMap Nat :=
  { guarded n with
    table := update (guarded n).table (n + 1) (crowdSlot n (n + 1)), size := n + 2 }

/-- The crowd with a slot missing before the empty key. -/
def thinned (n k : Nat) : RobinHoodMap Nat :=
  { spilled n with table := update (spilled n).table k Slot.blank, size := n + 1 }

theorem guard_hash_crowd (n : Nat) : guardHash (crowdKey n) = 0 := if_neg (List.cons_ne_nil _ _)

theorem guarded_crowded {n count : Nat} (part : count ≤ n) : Crowded (guarded n) count where
  mask := rfl
  slots := fun _ below => if_pos (by omega)

theorem guarded_insert {n : Nat} (small : n < 2 ^ 32 - 1) :
    (guarded n).insert guardHash (crowdKey n) n = some (guarded (n + 1)) := by
  have roomy : (guarded n).size + 1 ≤ (guarded n).loadLimit := by
    unfold guarded loadLimit
    dsimp only
    omega
  have empty : (guarded n).table n = Slot.blank :=
    (if_neg (Nat.lt_irrefl n)).trans (if_neg (by omega))
  have table : update (guarded n).table n (crowdSlot n n) = (guarded (n + 1)).table := by
    funext j
    by_cases here : j = n
    · rw [here, Function.update_self]
      exact (if_pos (Nat.lt_succ_self n)).symm
    · rw [Function.update_of_ne here]
      unfold guarded
      dsimp only
      by_cases below : j < n
      · rw [if_pos below, if_pos (by omega)]
      · have still : ¬ j < n + 1 := by omega
        rw [if_neg below, if_neg still]
  rw [(guarded_crowded (Nat.le_refl n)).insert_next (by omega) rfl (guard_hash_crowd n) roomy empty,
    table]
  rfl

theorem guarded_guard {n : Nat} (last : n + 1 = 2 ^ 32) : (guarded n).table n = guardSlot :=
  (if_neg (Nat.lt_irrefl n)).trans (if_pos (by omega))

/-- The label of the last key of the crowd is zero when it meets the empty key. -/
theorem guarded_spill {n : Nat} (last : n + 1 = 2 ^ 32) :
    (guarded n).insert guardHash (crowdKey n) n = some (spilled n) := by
  have start : (guarded n).home 0 = 0 := Nat.zero_and _
  have roomy : (guarded n).size + 1 ≤ (guarded n).loadLimit := by
    unfold guarded loadLimit
    dsimp only
    omega
  have probe : makeProbe guardHash (crowdKey n) n = crowdSlot n 0 := by
    rw [makeProbe, guard_hash_crowd]
    rfl
  have capacity : (guarded n).capacity = 2 ^ 33 := rfl
  have fuel : (guarded n).capacity = (2 ^ 33 - 2 - n) + 2 + n := by omega
  have walk : insertLoop (guarded n).capacity (guarded n) 0 (crowdSlot n 0) =
      insertLoop ((2 ^ 33 - 2 - n) + 2) (guarded n) n (crowdSlot n n) := by
    rw [fuel]
    exact (guarded_crowded (Nat.le_refl n)).insert_walk (by omega) (Nat.le_refl n) (by omega)
      (Nat.zero_add n)
  have guard := guarded_guard last
  have behind : (guarded n).table (n + 1) = Slot.blank :=
    (if_neg (by omega)).trans (if_neg (by omega))
  have other : ¬ (guardSlot.hash = (crowdSlot n n).hash ∧
      guardSlot.keyEq (crowdSlot n n).view = true) := by
    intro both
    have equal : (4294967295 : UInt64) = 0 := both.1
    exact absurd equal (by decide)
  have zero : (crowdSlot n n).dib = 0 := by
    rw [crowdSlot, last]
    rfl
  have restart : { crowdSlot n n with dib := 0 + 1 } = crowdSlot n (n + 1) := by
    rw [crowdSlot, crowdSlot, last]
    rfl
  have mask : (n + 1) &&& (guarded n).mask = n + 1 := crowd_mask (by omega)
  rw [insert, insert_nested_roomy roomy, guard_hash_crowd, start, probe, walk, insertLoop, guard,
    if_neg (by decide), if_neg other, zero, if_neg (by decide), mask,
    restart, insertLoop, behind]
  rfl

theorem spilled_slot {n i : Nat} (below : i ≤ n) :
    (spilled n).table i = (guarded n).table i :=
  Function.update_of_ne (by omega) _ _

theorem spilled_crowded (n : Nat) {count : Nat} (part : count ≤ n) :
    Crowded (spilled n) count where
  mask := rfl
  slots i below := (spilled_slot (by omega)).trans ((guarded_crowded part).slots i below)

/-- The shift stops at the empty key, which is at home. -/
theorem spilled_erase {k : Nat} (last : k + 2 = 2 ^ 32) :
    (spilled (k + 1)).erase guardHash (crowdKey k) = some (thinned (k + 1) k, true) := by
  have start : (spilled (k + 1)).home 0 = 0 := Nat.zero_and _
  have capacity : (spilled (k + 1)).capacity = 2 ^ 33 := rfl
  have slot : (spilled (k + 1)).table k = crowdSlot k k :=
    (spilled_crowded (k + 1) (Nat.le_refl _)).slots k (Nat.lt_succ_self k)
  have label := @crowd_label k (by omega) k
  have full : ¬ ((crowdSlot k k).dib = 0 ∨ (crowdSlot k k).dib < UInt32.ofNat (k + 1)) := by
    intro either
    cases either with
    | inl empty =>
        rw [← UInt32.toNat_inj, label] at empty
        exact absurd empty (Nat.succ_ne_zero k)
    | inr poor =>
        have same : (crowdSlot k k).dib = UInt32.ofNat (k + 1) := rfl
        rw [same, UInt32.lt_iff_toNat_lt] at poor
        exact Nat.lt_irrefl _ poor
  have own : (crowdSlot k k).hash = 0 ∧ (crowdSlot k k).keyEq (crowdKey k) = true := by
    obtain ⟨intact, view⟩ := crowd_slot_spec k k
    exact ⟨rfl, (Slot.key_eq_iff intact _).mpr view⟩
  have found : probeLoop (spilled (k + 1)) 0 (crowdKey k) (2 ^ 33) 0 1 = some (some k) := by
    have fuel : 2 ^ 33 = (2 ^ 33 - 1 - k) + 1 + k := by omega
    rw [fuel]
    refine ((spilled_crowded (k + 1) (Nat.le_succ k)).probe_walk (by omega) (Nat.le_refl k)
      (by omega) (Nat.zero_add k)).trans ?_
    rw [probeLoop, slot, if_neg full, if_pos own]
  have mask : (k + 1) &&& (spilled (k + 1)).mask = k + 1 := crowd_mask (by omega)
  have guard : (spilled (k + 1)).table (k + 1) = guardSlot :=
    (spilled_slot (Nat.le_refl _)).trans (guarded_guard last)
  have shifted : backshift (2 ^ 33) (spilled (k + 1)) k =
      some { spilled (k + 1) with table := update (spilled (k + 1)).table k Slot.blank } := by
    have fuel : 2 ^ 33 = (2 ^ 33 - 1) + 1 := by omega
    rw [fuel, backshift, mask, guard, if_pos (by decide)]
  rw [erase, guard_hash_crowd, start, capacity, found, Option.bind_eq_bind, Option.bind_some]
  dsimp only
  rw [shifted]
  rfl

def guardedOps (n : Nat) : List (Op Nat) := .insert [] 0 :: crowdOps n

theorem guarded_reached {n : Nat} (small : n < 2 ^ 32) :
    ∃ config : Config (RobinHoodMap Nat) (Op Nat) (Answer Nat),
      Reachable (step guardHash) shortKey (allocate (2 ^ 33)) config ∧
        config.ops = guardedOps n ∧ config.state = guarded n := by
  induction n with
  | zero =>
      have roomy : (allocate (2 ^ 33) : RobinHoodMap Nat).size + 1 ≤
          (allocate (2 ^ 33) : RobinHoodMap Nat).loadLimit := by
        unfold allocate loadLimit
        dsimp only
        omega
      have start : (allocate (2 ^ 33) : RobinHoodMap Nat).home (guardHash []) = 2 ^ 32 - 1 := rfl
      have capacity : (allocate (2 ^ 33) : RobinHoodMap Nat).capacity = (2 ^ 33 - 1) + 1 := rfl
      have blank : (allocate (2 ^ 33) : RobinHoodMap Nat).table (2 ^ 32 - 1) = Slot.blank := rfl
      have table : update (allocate (2 ^ 33) : RobinHoodMap Nat).table (2 ^ 32 - 1) guardSlot =
          (guarded 0).table := by
        funext j
        unfold guarded
        dsimp only
        rw [if_neg (Nat.not_lt_zero j)]
        by_cases here : j = 2 ^ 32 - 1
        · rw [here, Function.update_self, if_pos rfl]
        · rw [Function.update_of_ne here, if_neg here]
          rfl
      have ran : step guardHash (allocate (2 ^ 33) : RobinHoodMap Nat) (.insert [] 0) =
          some (guarded 0, .inserted) := by
        have probe : makeProbe guardHash [] 0 = guardSlot := rfl
        rw [step, insert, insert_nested_roomy roomy, start, capacity, insertLoop, blank, probe,
          table]
        rfl
      have permitted : shortKey (Config.start (allocate (2 ^ 33) : RobinHoodMap Nat) :
          Config (RobinHoodMap Nat) (Op Nat) (Answer Nat)) (.insert [] 0) := Nat.two_pow_pos 32
      exact ⟨_, reachable_start.tail (.run permitted ran), rfl, rfl⟩
  | succ n ih =>
      obtain ⟨config, reached, ops, state⟩ := ih (by omega)
      have ran : step guardHash config.state (.insert (crowdKey n) n) =
          some (guarded (n + 1), .inserted) := by
        rw [state, step, guarded_insert (by omega)]
        rfl
      have permitted : shortKey config (.insert (crowdKey n) n) := crowd_key_short n
      refine ⟨_, reached.tail (.run permitted ran), ?_, rfl⟩
      rw [Config.push_ops, ops, guardedOps, guardedOps, crowd_ops_succ]
      rfl

theorem guarded_keys_present (n : Nat) :
    keysPresent (guardedOps n) = Insert.insert [] ((Finset.range n).image crowdKey) := by
  induction n with
  | zero => rfl
  | succ n ih =>
      have ops : guardedOps (n + 1) = guardedOps n ++ [.insert (crowdKey n) n] := by
        rw [guardedOps, crowd_ops_succ]
        rfl
      rw [ops, keys_present_insert, ih, Finset.range_add_one, Finset.image_insert,
        Finset.insert_comm]

theorem guarded_keys_card {n : Nat} (small : n ≤ 2 ^ 32) :
    (keysPresent (guardedOps n)).card = n + 1 := by
  rw [guarded_keys_present, Finset.card_insert_of_notMem, Finset.card_image_of_injOn,
    Finset.card_range]
  · intro i member j memberToo same
    rw [Finset.mem_coe, Finset.mem_range] at member memberToo
    exact crowd_key_injective (by omega) (by omega) same
  · intro member
    obtain ⟨i, _, empty⟩ := Finset.mem_image.mp member
    cases empty

/-- Keys that include the empty one, under a mask that keeps all hashes apart. -/
theorem guard_homes {m : RobinHoodMap Nat} (mask : m.mask = 2 ^ 33 - 1) {keys : Finset Key}
    (member : [] ∈ keys) :
    homeBuckets guardHash m keys = (2 ^ 32 - 1) ::ₘ Multiset.replicate (keys.card - 1) 0 := by
  have first : m.home (guardHash []) = 2 ^ 32 - 1 := by
    rw [home, mask]
    rfl
  have rest : ∀ key ∈ (keys.erase []).val, m.home (guardHash key) = 0 := by
    intro key among
    have hash : guardHash key = 0 := if_neg (Finset.mem_erase.mp among).1
    rw [hash]
    exact Nat.zero_and _
  have split : keys.val = [] ::ₘ (keys.erase []).val := by
    rw [Finset.erase_val, Multiset.cons_erase member]
  have count : (keys.erase []).val.card = keys.card - 1 := Finset.card_erase_of_mem member
  rw [homeBuckets, split, Multiset.map_cons, first, Multiset.map_congr rfl rest,
    Multiset.map_const', count]

theorem mem_slot_keys {m : RobinHoodMap V} {key : Key} :
    key ∈ m.slotKeys ↔ ∃ i, i < m.capacity ∧ (m.table i).dib ≠ 0 ∧ (m.table i).view = key := by
  rw [slotKeys, Finset.mem_image]
  constructor
  · rintro ⟨i, member, view⟩
    obtain ⟨inside, full⟩ := mem_occupied.mp member
    exact ⟨i, inside, label_ne_zero.mp full, view⟩
  · rintro ⟨i, inside, full, view⟩
    exact ⟨i, mem_occupied.mpr ⟨inside, label_ne_zero.mpr full⟩, view⟩

theorem crowd_slot_used {i : Nat} (small : i + 1 < 2 ^ 32) (n : Nat) : (crowdSlot n i).dib ≠ 0 := by
  rw [← UInt32.to_nat_ne_zero, crowd_label small]
  omega

theorem guarded_slot_keys {n : Nat} (last : n + 1 = 2 ^ 32) :
    (guarded n).slotKeys = keysPresent (guardedOps n) := by
  rw [guarded_keys_present]
  ext key
  rw [mem_slot_keys, Finset.mem_insert, Finset.mem_image]
  constructor
  · rintro ⟨i, _, full, view⟩
    by_cases below : i < n
    · rw [(guarded_crowded (Nat.le_refl n)).slots i below, (crowd_slot_spec i i).2] at view
      exact .inr ⟨i, Finset.mem_range.mpr below, view⟩
    · have table : (guarded n).table i = if i = 2 ^ 32 - 1 then guardSlot else Slot.blank :=
        if_neg below
      rw [table] at full view
      split at view
      case isTrue => exact .inl view.symm
      case isFalse away =>
        rw [if_neg away] at full
        exact absurd rfl full
  · intro either
    cases either with
    | inl empty => exact ⟨n, show n < 2 ^ 33 by omega, by
        rw [guarded_guard last, empty]
        decide⟩
    | inr crowd =>
        obtain ⟨i, member, view⟩ := crowd
        have below := Finset.mem_range.mp member
        refine ⟨i, show i < 2 ^ 33 by omega, ?_⟩
        rw [(guarded_crowded (Nat.le_refl n)).slots i below, (crowd_slot_spec i i).2]
        exact ⟨crowd_slot_used (by omega) i, view⟩

theorem crowd_key_nonempty (n : Nat) : crowdKey n ≠ [] := List.cons_ne_nil _ _

/-- The slots in use: the crowd before `k`, the empty key, and the key that passed it. -/
theorem thinned_slot {k i : Nat} (last : k + 2 = 2 ^ 32) :
    (thinned (k + 1) k).table i =
      if i < k then crowdSlot i i else if i = k + 1 then guardSlot
        else if i = k + 2 then crowdSlot (k + 1) (k + 2) else Slot.blank := by
  have cleared : (thinned (k + 1) k).table k = Slot.blank := Function.update_self _ _ _
  have passed : (spilled (k + 1)).table (k + 2) = crowdSlot (k + 1) (k + 2) :=
    Function.update_self _ _ _
  by_cases here : i = k
  · rw [here, cleared, if_neg (by omega), if_neg (by omega), if_neg (by omega)]
  · have kept : (thinned (k + 1) k).table i = (spilled (k + 1)).table i :=
      Function.update_of_ne here _ _
    rw [kept]
    by_cases beyond : i = k + 2
    · rw [beyond, passed, if_neg (by omega), if_neg (by omega), if_pos rfl]
    · have same : (spilled (k + 1)).table i = (guarded (k + 1)).table i :=
        Function.update_of_ne beyond _ _
      rw [same, if_neg beyond]
      unfold guarded
      dsimp only
      by_cases below : i < k
      · rw [if_pos below, if_pos (by omega)]
      · rw [if_neg below, if_neg (show ¬ i < k + 1 by omega)]
        by_cases guard : i = k + 1
        · rw [if_pos guard, if_pos (by omega)]
        · rw [if_neg guard, if_neg (by omega)]

theorem thinned_slot_keys {k : Nat} (last : k + 2 = 2 ^ 32) :
    (thinned (k + 1) k).slotKeys = keysPresent (guardedOps (k + 2) ++ [.erase (crowdKey k)]) := by
  have passed := (crowd_slot_spec (k + 1) (k + 2)).2
  have restarted : (crowdSlot (k + 1) (k + 2)).dib = 1 := by
    rw [crowdSlot, last]
    rfl
  have capacity : (thinned (k + 1) k).capacity = 2 ^ 33 := rfl
  rw [keys_present_erase, guarded_keys_present]
  ext key
  rw [mem_slot_keys, Finset.mem_erase, Finset.mem_insert, Finset.mem_image, capacity]
  constructor
  · rintro ⟨i, _, full, view⟩
    rw [thinned_slot last] at full view
    split_ifs at full view
    case pos below =>
      rw [(crowd_slot_spec i i).2] at view
      subst view
      refine ⟨?_, .inr ⟨i, Finset.mem_range.mpr (by omega), rfl⟩⟩
      intro same
      exact absurd (crowd_key_injective (by omega) (by omega) same) (by omega)
    case pos _ =>
      rw [← view]
      exact ⟨(crowd_key_nonempty k).symm, .inl rfl⟩
    case pos _ _ =>
      rw [passed] at view
      subst view
      refine ⟨?_, .inr ⟨k + 1, Finset.mem_range.mpr (by omega), rfl⟩⟩
      intro same
      exact absurd (crowd_key_injective (by omega) (by omega) same) (by omega)
    case neg => exact absurd rfl full
  · rintro ⟨other, either⟩
    cases either with
    | inl empty =>
        refine ⟨k + 1, by omega, ?_⟩
        rw [thinned_slot last, if_neg (by omega), if_pos rfl, empty]
        decide
    | inr crowd =>
        obtain ⟨i, member, view⟩ := crowd
        have inside := Finset.mem_range.mp member
        by_cases top : i = k + 1
        · refine ⟨k + 2, by omega, ?_⟩
          rw [thinned_slot last, if_neg (by omega), if_neg (by omega), if_pos rfl, passed,
            restarted, ← view, top]
          exact ⟨by decide, rfl⟩
        · have away : i ≠ k := by
            intro same
            exact other (same ▸ view.symm)
          refine ⟨i, by omega, ?_⟩
          rw [thinned_slot last, if_pos (by omega), (crowd_slot_spec i i).2]
          exact ⟨crowd_slot_used (by omega) i, view⟩

/-- Two tables with the same keys at the same homes; past `2 ^ 32` keys one of them has a slot
missing. -/
theorem residue_left :
    ∃ (m : RobinHoodMap Nat) (first second : Config (RobinHoodMap Nat) (Op Nat) (Answer Nat)),
      make (2 ^ 33) = some m ∧ Reachable (step guardHash) shortKey m first ∧
        Reachable (step guardHash) shortKey m second ∧
        first.state.capacity = second.state.capacity ∧
        first.state.slotKeys = keysPresent first.ops ∧
        second.state.slotKeys = keysPresent second.ops ∧
        homeBuckets guardHash first.state (keysPresent first.ops) =
          homeBuckets guardHash second.state (keysPresent second.ops) ∧
        (first.state.table (2 ^ 32 - 2)).dib = 0 ∧
        (second.state.table (2 ^ 32 - 2)).dib = 4294967295 := by
  obtain ⟨k, last⟩ : ∃ k, k + 2 = 2 ^ 32 := ⟨2 ^ 32 - 2, by omega⟩
  obtain ⟨second, reachedToo, opsToo, stateToo⟩ := @guarded_reached (k + 1) (by omega)
  have spill : step guardHash second.state (.insert (crowdKey (k + 1)) (k + 1)) =
      some (spilled (k + 1), .inserted) := by
    rw [stateToo, step, guarded_spill last]
    rfl
  have erased : step guardHash (spilled (k + 1)) (.erase (crowdKey k)) =
      some (thinned (k + 1) k, .erased true) := by
    rw [step, spilled_erase last]
    rfl
  have permitted : shortKey second (.insert (crowdKey (k + 1)) (k + 1)) :=
    crowd_key_short (k + 1)
  have permittedToo : shortKey (second.push (.insert (crowdKey (k + 1)) (k + 1))
      (spilled (k + 1)) .inserted) (.erase (crowdKey k)) := crowd_key_short k
  have reached := (reachedToo.tail (.run permitted spill)).tail (.run permittedToo erased)
  have position : 2 ^ 32 - 2 = k := by omega
  have ops : ((second.push (.insert (crowdKey (k + 1)) (k + 1)) (spilled (k + 1)) .inserted).push
      (.erase (crowdKey k)) (thinned (k + 1) k) (.erased true)).ops =
        guardedOps (k + 2) ++ [.erase (crowdKey k)] := by
    rw [Config.push_ops, Config.push_ops, opsToo, guardedOps, guardedOps, crowd_ops_succ (k + 1)]
    rfl
  have present : crowdKey k ∈ keysPresent (guardedOps (k + 2)) := by
    rw [guarded_keys_present, Finset.mem_insert, Finset.mem_image]
    exact .inr ⟨k, Finset.mem_range.mpr (by omega), rfl⟩
  have empty : [] ∈ keysPresent (guardedOps (k + 1)) := by
    rw [guarded_keys_present]
    exact Finset.mem_insert_self _ _
  have emptyToo : [] ∈ keysPresent (guardedOps (k + 2) ++ [.erase (crowdKey k)]) := by
    rw [keys_present_erase, Finset.mem_erase, guarded_keys_present]
    exact ⟨(crowd_key_nonempty k).symm, Finset.mem_insert_self _ _⟩
  have cards : (keysPresent (guardedOps (k + 2) ++ [.erase (crowdKey k)])).card =
      (keysPresent (guardedOps (k + 1))).card := by
    rw [keys_present_erase, Finset.card_erase_of_mem present, guarded_keys_card (by omega),
      guarded_keys_card (by omega)]
    rfl
  have label : (crowdSlot k k).dib = 4294967295 := by
    have counted : k + 1 = 4294967295 := by omega
    rw [crowdSlot, counted]
    rfl
  refine ⟨_, _, second, rfl, reached, reachedToo, ?_, ?_, ?_, ?_, ?_, ?_⟩
  · rw [stateToo]
    rfl
  · rw [ops]
    exact thinned_slot_keys last
  · rw [stateToo, opsToo]
    exact guarded_slot_keys last
  · rw [ops, opsToo, stateToo, guard_homes rfl empty, ← cards]
    exact guard_homes rfl emptyToo
  · rw [position]
    exact congrArg Slot.dib (Function.update_self k Slot.blank (spilled (k + 1)).table)
  · rw [position, stateToo, (guarded_crowded (Nat.le_refl (k + 1))).slots k (Nat.lt_succ_self k)]
    exact label

end Finm327.Hw5.RobinHoodMap
