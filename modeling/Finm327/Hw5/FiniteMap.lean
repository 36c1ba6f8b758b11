import Mathlib.Data.Finset.Card
import Finm327.Library.Runs
import Finm327.Hw5.RobinHoodGrowth

/-!
# The table is a finite map

What a sequence of calls has left in the table, and that every answer is read off
it. The label of a slot has 32 bits, so this holds as long as fewer than `2 ^ 32`
keys are present at a time; the last section gives a run past that point.
-/

namespace Finm327.Hw5

open Finm327.Library.CyclicTables
open Finm327.Library.Runs
open Function (update)

variable {V : Type}

def settle (key : Key) (found : Option V) : Op V → Option V
  | .insert other value => if other = key then some value else found
  | .find _ => found
  | .erase other => if other = key then none else found

/-- The value of the last insert of the key that no erase of it follows. -/
def stored (ops : List (Op V)) (key : Key) : Option V := ops.foldl (settle key) none

def keysPresent (ops : List (Op V)) : Finset Key :=
  (ops.map Op.key).toFinset.filter (fun key => (stored ops key).isSome)

theorem stored_append (ops : List (Op V)) (op : Op V) (key : Key) :
    stored (ops ++ [op]) key = settle key (stored ops key) op := by
  rw [stored, List.foldl_append]
  rfl

theorem named_of_stored {ops : List (Op V)} {key : Key} (present : (stored ops key).isSome) :
    key ∈ ops.map Op.key := by
  induction ops using List.reverseRecOn with
  | nil => cases present
  | append_singleton ops op ih =>
      rw [List.map_append, List.mem_append, List.map_singleton, List.mem_singleton]
      by_cases same : op.key = key
      · exact .inr same.symm
      · apply Or.inl
        apply ih
        rw [stored_append] at present
        cases op with
        | insert other value =>
            have different : ¬ other = key := same
            rwa [settle, if_neg different] at present
        | find other => exact present
        | erase other =>
            have different : ¬ other = key := same
            rwa [settle, if_neg different] at present

theorem mem_keys_present {ops : List (Op V)} {key : Key} :
    key ∈ keysPresent ops ↔ (stored ops key).isSome := by
  rw [keysPresent, Finset.mem_filter, List.mem_toFinset]
  constructor
  · intro both
    exact both.2
  · intro present
    exact ⟨named_of_stored present, present⟩

theorem keys_present_insert (ops : List (Op V)) (key : Key) (value : V) :
    keysPresent (ops ++ [.insert key value]) = Insert.insert key (keysPresent ops) := by
  ext other
  rw [Finset.mem_insert, mem_keys_present, mem_keys_present, stored_append, settle]
  by_cases same : key = other
  · simp [same]
  · rw [if_neg same]
    simp [Ne.symm same]

theorem keys_present_erase (ops : List (Op V)) (key : Key) :
    keysPresent (ops ++ [.erase key]) = (keysPresent ops).erase key := by
  ext other
  rw [Finset.mem_erase, mem_keys_present, mem_keys_present, stored_append, settle]
  by_cases same : key = other
  · simp [same]
  · rw [if_neg same]
    simp [Ne.symm same]

/-- The caller keeps keys shorter than `2 ^ 32` bytes. -/
def shortKey {State : Type} (_ : Config State (Op V) (Answer V)) (op : Op V) : Prop :=
  op.key.length < 2 ^ 32

/-- And never has `2 ^ 32` keys in the table. -/
def fewKeys {State : Type} (config : Config State (Op V) (Answer V)) (op : Op V) : Prop :=
  op.key.length < 2 ^ 32 ∧ (keysPresent (config.ops ++ [op])).card < 2 ^ 32

instance {State : Type} (config : Config State (Op V) (Answer V)) (op : Op V) :
    Decidable (fewKeys config op) :=
  inferInstanceAs (Decidable (_ ∧ _))

namespace RobinHoodMap

variable {hasher : Key → UInt64}

structure Shows (hasher : Key → UInt64) (m : RobinHoodMap V) (ops : List (Op V)) : Prop where
  sound : Sound hasher m
  content : ∀ key value, stored ops key = some value ↔ m.Holds key value
  few : (keysPresent ops).card < 2 ^ 32

/-- The keys that the slots in use hold. -/
def slotKeys (m : RobinHoodMap V) : Finset Key :=
  (occupied m.capacity m.labels).image fun i => (m.table i).view

theorem Shows.keys_eq {m : RobinHoodMap V} {ops : List (Op V)} (shows : Shows hasher m ops) :
    keysPresent ops = m.slotKeys := by
  ext key
  rw [mem_keys_present, Option.isSome_iff_exists, slotKeys, Finset.mem_image]
  constructor
  · rintro ⟨value, found⟩
    obtain ⟨i, inside, full, view, _⟩ := (shows.content key value).mp found
    exact ⟨i, mem_occupied.mpr ⟨inside, label_ne_zero.mpr full⟩, view⟩
  · rintro ⟨i, member, view⟩
    obtain ⟨inside, full⟩ := mem_occupied.mp member
    exact ⟨_, (shows.content key _).mpr ⟨i, inside, label_ne_zero.mp full, view, rfl⟩⟩

/-- Every key present has one slot. -/
theorem Shows.views_injective {m : RobinHoodMap V} {ops : List (Op V)}
    (shows : Shows hasher m ops) :
    Set.InjOn (fun i => (m.table i).view) (occupied m.capacity m.labels) := by
  intro i member j memberToo same
  obtain ⟨inside, full⟩ := mem_occupied.mp member
  obtain ⟨insideToo, fullToo⟩ := mem_occupied.mp memberToo
  exact shows.sound.distinct i j inside insideToo (label_ne_zero.mp full)
    (label_ne_zero.mp fullToo) same

theorem Shows.size_eq {m : RobinHoodMap V} {ops : List (Op V)} (shows : Shows hasher m ops) :
    m.size = (keysPresent ops).card := by
  rw [shows.keys_eq, slotKeys, Finset.card_image_of_injOn shows.views_injective,
    shows.sound.counted]

theorem Shows.find_eq {m : RobinHoodMap V} {ops : List (Op V)} (shows : Shows hasher m ops)
    (key : Key) : m.find hasher key = some (stored ops key) := by
  obtain ⟨found, ran, holds⟩ := find_spec shows.sound.toFilled shows.sound.room key
  rw [ran]
  congr 1
  ext value
  rw [holds, shows.content]

variable [Inhabited V]

theorem Shows.after_insert {m : RobinHoodMap V} {ops : List (Op V)} (shows : Shows hasher m ops)
    {key : Key} {value : V} (short : key.length < 2 ^ 32)
    (few : (keysPresent (ops ++ [.insert key value])).card < 2 ^ 32) :
    ∃ next, m.insert hasher key value = some next ∧
      Shows hasher next (ops ++ [.insert key value]) := by
  have size := shows.size_eq
  have fits := shows.few
  have small : (∀ value, ¬ m.Holds key value) → m.size + 1 < 2 ^ 32 := by
    intro absent
    have missing : key ∉ keysPresent ops := by
      rw [mem_keys_present, Option.isSome_iff_exists]
      rintro ⟨value, found⟩
      exact absent value ((shows.content key value).mp found)
    rw [keys_present_insert, Finset.card_insert_of_notMem missing] at few
    omega
  obtain ⟨next, ran, sound, inserted⟩ :=
    insert_spec shows.sound short small (by omega) value
  refine ⟨next, ran, sound, ?_, few⟩
  intro other found
  rw [stored_append, settle, inserted, ← shows.content]
  by_cases same : key = other
  · rw [if_pos same, Option.some.injEq]
    constructor
    · intro equal
      exact .inl ⟨same.symm, equal.symm⟩
    · intro either
      cases either with
      | inl new => exact new.2.symm
      | inr old => exact absurd same.symm old.1
  · rw [if_neg same]
    constructor
    · intro old
      exact .inr ⟨Ne.symm same, old⟩
    · intro either
      cases either with
      | inl new => exact absurd new.1.symm same
      | inr old => exact old.2

theorem Shows.after_erase {m : RobinHoodMap V} {ops : List (Op V)} (shows : Shows hasher m ops)
    (key : Key) :
    ∃ next, m.erase hasher key = some (next, (stored ops key).isSome) ∧
      Shows hasher next (ops ++ [.erase key]) := by
  obtain ⟨next, present, ran, sound, told, holds⟩ := erase_spec shows.sound key
  have answer : present = (stored ops key).isSome := by
    rw [Bool.eq_iff_iff, told, Option.isSome_iff_exists]
    exact exists_congr fun value => (shows.content key value).symm
  refine ⟨next, answer ▸ ran, sound, ?_, ?_⟩
  · intro other found
    rw [stored_append, settle, holds, ← shows.content]
    by_cases same : key = other
    · rw [if_pos same]
      constructor
      · intro none
        cases none
      · intro both
        exact absurd same.symm both.1
    · rw [if_neg same]
      constructor
      · intro old
        exact ⟨Ne.symm same, old⟩
      · intro both
        exact both.2
  · rw [keys_present_erase]
    exact lt_of_le_of_lt (Finset.card_le_card (Finset.erase_subset _ _)) shows.few

/-- One call, with the answer it gives. -/
theorem Shows.after_step {config : Config (RobinHoodMap V) (Op V) (Answer V)}
    (shows : Shows hasher config.state config.ops) {op : Op V} (few : fewKeys config op) :
    ∃ next answer, step hasher config.state op = some (next, answer) ∧
      Shows hasher next (config.ops ++ [op]) := by
  cases op with
  | insert key value =>
      have short : key.length < 2 ^ 32 := few.1
      obtain ⟨next, ran, after⟩ := shows.after_insert short few.2
      exact ⟨next, .inserted, by rw [RobinHoodMap.step, ran]; rfl, after⟩
  | find key =>
      refine ⟨config.state, .found (stored config.ops key), ?_, shows.sound, ?_, few.2⟩
      · rw [RobinHoodMap.step, shows.find_eq key]
        rfl
      · intro other value
        rw [stored_append]
        exact shows.content other value
  | erase key =>
      obtain ⟨next, ran, after⟩ := shows.after_erase key
      exact ⟨next, .erased _, by rw [RobinHoodMap.step, ran]; rfl, after⟩

theorem reachable_shows {cap : Nat} {m : RobinHoodMap V} (made : make cap = some m)
    {config : Config (RobinHoodMap V) (Op V) (Answer V)}
    (reached : Reachable (step hasher) fewKeys m config) :
    Shows hasher config.state config.ops := by
  apply reachable_invariant (fun config => Shows hasher config.state config.ops) ?_ ?_ reached
  · obtain ⟨sound, empty, _⟩ := @make_sound _ _ hasher _ _ made
    refine ⟨sound, ?_, Nat.two_pow_pos 32⟩
    intro key value
    constructor
    · intro found
      cases found
    · intro holds
      exact absurd holds (empty key value)
  · intro config op next answer shows few ran
    obtain ⟨after, told, ranToo, result⟩ := shows.after_step few
    rw [ran] at ranToo
    cases ranToo
    rw [Config.push_ops]
    exact result

theorem finite_map (hasher : Key → UInt64) {cap : Nat} {m : RobinHoodMap V}
    (made : make cap = some m) {config : Config (RobinHoodMap V) (Op V) (Answer V)}
    (reached : Reachable (step hasher) fewKeys m config) :
    (∀ op, fewKeys config op → ∃ next answer, step hasher config.state op = some (next, answer)) ∧
      (∀ key, config.state.find hasher key = some (stored config.ops key)) ∧
      (∀ key, ∃ next, config.state.erase hasher key =
        some (next, (stored config.ops key).isSome)) ∧
      config.state.size = (keysPresent config.ops).card := by
  have shows := reachable_shows made reached
  refine ⟨?_, shows.find_eq, ?_, shows.size_eq⟩
  · intro op few
    obtain ⟨next, answer, ran, _⟩ := shows.after_step few
    exact ⟨next, answer, ran⟩
  · intro key
    obtain ⟨next, ran, _⟩ := shows.after_erase key
    exact ⟨next, ran⟩

end RobinHoodMap

/-- Growth, a key that spills, a second insert of one key and erases of a key that
is there and of one that is not. -/
def sampleOps : List (Op Nat) :=
  [.insert [] 0, .insert [65] 1, .insert [66] 2, .insert (List.replicate 30 67) 3, .insert [68] 4,
    .insert [69] 5, .insert [65] 6, .erase [66], .erase [66], .find [65], .insert [70] 7,
    .insert [71] 8]

theorem finite_map_sample :
    ∃ (m : RobinHoodMap Nat) (config : Config (RobinHoodMap Nat) (Op Nat) (Answer Nat)),
      RobinHoodMap.make 3 = some m ∧
        execute (RobinHoodMap.step symbolHash) fewKeys (.start m) sampleOps = some config ∧
        config.state.find symbolHash (List.replicate 30 67) = some (some 3) ∧
        config.state.find symbolHash [66] = some none ∧ config.state.size = 7 := by
  have completes : (execute (RobinHoodMap.step symbolHash) fewKeys
      (.start (RobinHoodMap.allocate 8 : RobinHoodMap Nat)) sampleOps).any (fun config =>
        decide (stored config.ops (List.replicate 30 67) = some 3 ∧
          stored config.ops [66] = none ∧ (keysPresent config.ops).card = 7)) = true := by
    decide +kernel
  obtain ⟨config, ran, found⟩ := (Option.any_eq_true _ _).mp completes
  obtain ⟨long, gone, size⟩ := of_decide_eq_true found
  have made : RobinHoodMap.make 3 = some (RobinHoodMap.allocate 8 : RobinHoodMap Nat) := rfl
  have answers := RobinHoodMap.finite_map symbolHash made (reachable_of_execute ran)
  refine ⟨_, config, made, ran, ?_, ?_, ?_⟩
  · rw [answers.2.1, long]
  · rw [answers.2.1, gone]
  · rw [answers.2.2.2, size]

/-! ## Past the width of a label

Under one hash for all keys the key number `i` stands at position `i` with label
`i + 1`. Key number `2 ^ 32 - 1` gets the label of an empty slot.
-/

namespace RobinHoodMap

def crowdKey (n : Nat) : Key :=
  [UInt8.ofNat n, UInt8.ofNat (n / 2 ^ 8), UInt8.ofNat (n / 2 ^ 16), UInt8.ofNat (n / 2 ^ 24)]

theorem crowd_key_injective {i n : Nat} (small : i < 2 ^ 32) (smallToo : n < 2 ^ 32)
    (same : crowdKey i = crowdKey n) : i = n := by
  unfold crowdKey at same
  simp only [List.cons.injEq, and_true, ← UInt8.toNat_inj, UInt8.toNat_ofNat'] at same
  omega

/-- The slot of key number `i` at distance `walked` from its home. -/
def crowdSlot (i walked : Nat) : Slot Nat :=
  { makeProbe (fun _ => 0) (crowdKey i) i with dib := UInt32.ofNat (walked + 1) }

def crowd (n : Nat) : RobinHoodMap Nat :=
  { table := fun i => if i < n then crowdSlot i i else Slot.blank, capacity := 2 ^ 33,
    mask := 2 ^ 33 - 1, size := n }

theorem crowd_key_short (n : Nat) : (crowdKey n).length < 2 ^ 32 := by
  have four : (crowdKey n).length = 4 := rfl
  omega

theorem crowd_slot_spec (i walked : Nat) :
    (crowdSlot i walked).Intact (fun _ => 0) ∧ (crowdSlot i walked).view = crowdKey i := by
  obtain ⟨intact, view, _, _⟩ := make_probe_spec (fun _ => 0) (crowd_key_short i) i
  exact ⟨⟨intact.hash, intact.length, intact.moved⟩, view⟩

theorem crowd_slot_other {i n : Nat} (walked : Nat) (small : i < 2 ^ 32) (smallToo : n < 2 ^ 32)
    (apart : i ≠ n) : ¬ ((crowdSlot i walked).keyEq (crowdKey n) = true) := by
  obtain ⟨intact, view⟩ := crowd_slot_spec i walked
  rw [Slot.key_eq_iff intact, view]
  intro equal
  exact apart (crowd_key_injective small smallToo equal)

theorem crowd_label {i : Nat} (small : i + 1 < 2 ^ 32) (n : Nat) :
    (crowdSlot n i).dib.toNat = i + 1 :=
  UInt32.toNat_ofNat_of_lt' small

theorem crowd_mask {i : Nat} (small : i < 2 ^ 32) : (i + 1) &&& (2 ^ 33 - 1) = i + 1 := by
  rw [add_one_and_mask (by omega)]
  exact if_neg (by omega)

/-- The crowd stands in the first slots; anything may stand behind it. -/
structure Crowded (m : RobinHoodMap Nat) (count : Nat) : Prop where
  mask : m.mask = 2 ^ 33 - 1
  slots : ∀ i, i < count → m.table i = crowdSlot i i

/-- The probe of a later key passes the whole crowd. -/
theorem Crowded.insert_walk {m : RobinHoodMap Nat} {count n i steps fuel : Nat}
    (crowded : Crowded m count) (few : count < 2 ^ 32) (later : count ≤ n) (small : n < 2 ^ 32)
    (way : i + steps = count) :
    insertLoop (fuel + steps) m i (crowdSlot n i) =
      insertLoop fuel m count (crowdSlot n count) := by
  induction steps generalizing i with
  | zero =>
      rw [Nat.add_zero] at way
      rw [way, Nat.add_zero]
  | succ steps ih =>
      have label := @crowd_label i (by omega)
      have used : (crowdSlot i i).dib ≠ 0 := by
        rw [← UInt32.to_nat_ne_zero, label]
        omega
      have other := crowd_slot_other i (by omega : i < 2 ^ 32) small (by omega : i ≠ n)
      have level : ¬ (crowdSlot i i).dib < (crowdSlot n i).dib := by
        rw [UInt32.lt_iff_toNat_lt, label, label]
        omega
      have step : (crowdSlot n i).dib + 1 = UInt32.ofNat (i + 1 + 1) := by
        rw [UInt32.ofNat_add]
        rfl
      rw [← Nat.add_assoc, insertLoop, crowded.slots i (by omega), if_neg used,
        (crowd_slot_spec n i).2, if_neg (fun both => other both.2), if_neg level, step,
        crowded.mask, crowd_mask (by omega)]
      exact ih (by omega)

/-- So does the search for a later key. -/
theorem Crowded.probe_walk {m : RobinHoodMap Nat} {count n i steps fuel : Nat}
    (crowded : Crowded m count) (few : count < 2 ^ 32) (later : count ≤ n) (small : n < 2 ^ 32)
    (way : i + steps = count) :
    probeLoop m 0 (crowdKey n) (fuel + steps) i (UInt32.ofNat (i + 1)) =
      probeLoop m 0 (crowdKey n) fuel count (UInt32.ofNat (count + 1)) := by
  induction steps generalizing i with
  | zero =>
      rw [Nat.add_zero] at way
      rw [way, Nat.add_zero]
  | succ steps ih =>
      have label := @crowd_label i (by omega) i
      have counted := UInt32.toNat_ofNat_of_lt' (by omega : i + 1 < 2 ^ 32)
      have passes : ¬ ((crowdSlot i i).dib = 0 ∨
          (crowdSlot i i).dib < UInt32.ofNat (i + 1)) := by
        intro either
        cases either with
        | inl empty =>
            rw [← UInt32.toNat_inj, label] at empty
            exact absurd empty (Nat.succ_ne_zero i)
        | inr poor =>
            rw [UInt32.lt_iff_toNat_lt, label, counted] at poor
            exact Nat.lt_irrefl _ poor
      have other := crowd_slot_other i (by omega : i < 2 ^ 32) small (by omega : i ≠ n)
      have step : UInt32.ofNat (i + 1) + 1 = UInt32.ofNat (i + 1 + 1) := by
        rw [UInt32.ofNat_add (i + 1) 1]
        rfl
      rw [← Nat.add_assoc, probeLoop, crowded.slots i (by omega), if_neg passes,
        if_neg (fun both => other both.2), crowded.mask, crowd_mask (by omega), step]
      exact ih (by omega)

theorem crowd_crowded (n : Nat) {count : Nat} (part : count ≤ n) : Crowded (crowd n) count where
  mask := rfl
  slots := fun _ below => if_pos (by omega)

/-- The next key of the crowd takes the slot behind it. -/
theorem Crowded.insert_next {m : RobinHoodMap Nat} {n : Nat} {hasher : Key → UInt64}
    (crowded : Crowded m n) (small : n < 2 ^ 32) (capacity : m.capacity = 2 ^ 33)
    (hash : hasher (crowdKey n) = 0) (loaded : m.size + 1 ≤ m.loadLimit)
    (empty : m.table n = Slot.blank) :
    m.insert hasher (crowdKey n) n =
      some { m with table := update m.table n (crowdSlot n n), size := m.size + 1 } := by
  have start : m.home 0 = 0 := Nat.zero_and _
  have probe : makeProbe hasher (crowdKey n) n = crowdSlot n 0 := by
    rw [makeProbe, hash]
    rfl
  have fuel : m.capacity = (2 ^ 33 - 1 - n) + 1 + n := by omega
  have walk : insertLoop m.capacity m 0 (crowdSlot n 0) =
      insertLoop ((2 ^ 33 - 1 - n) + 1) m n (crowdSlot n n) := by
    rw [fuel]
    exact crowded.insert_walk small (Nat.le_refl n) small (Nat.zero_add n)
  rw [insert, insert_nested_roomy loaded, hash, start, probe, walk, insertLoop, empty]
  rfl

theorem crowd_insert {n : Nat} (small : n < 2 ^ 32) :
    (crowd n).insert (fun _ => 0) (crowdKey n) n = some (crowd (n + 1)) := by
  have roomy : (crowd n).size + 1 ≤ (crowd n).loadLimit := by
    unfold crowd loadLimit
    dsimp only
    omega
  have table : update (crowd n).table n (crowdSlot n n) = (crowd (n + 1)).table := by
    funext j
    by_cases here : j = n
    · rw [here, Function.update_self]
      exact (if_pos (Nat.lt_succ_self n)).symm
    · rw [Function.update_of_ne here]
      unfold crowd
      dsimp only
      by_cases below : j < n
      · rw [if_pos below, if_pos (by omega)]
      · rw [if_neg below, if_neg (by omega)]
  rw [(crowd_crowded n (Nat.le_refl n)).insert_next small rfl rfl roomy
    (if_neg (Nat.lt_irrefl n)), table]
  rfl

/-- The search for the last key passes all others and stops at its slot, which
looks empty. -/
theorem crowd_probe {n : Nat} (last : n + 1 = 2 ^ 32) :
    probeLoop (crowd (n + 1)) 0 (crowdKey n) (2 ^ 33) 0 1 = some none := by
  have fuel : 2 ^ 33 = (2 ^ 33 - 1 - n) + 1 + n := by omega
  have slot : (crowd (n + 1)).table n = crowdSlot n n := if_pos (Nat.lt_succ_self n)
  have zero : (crowdSlot n n).dib = 0 := by
    rw [crowdSlot, last]
    rfl
  rw [fuel]
  refine ((crowd_crowded (n + 1) (Nat.le_succ n)).probe_walk (by omega) (Nat.le_refl n) (by omega)
    (Nat.zero_add n)).trans ?_
  rw [probeLoop, slot, if_pos (.inl zero)]

def crowdOps (n : Nat) : List (Op Nat) := (List.range n).map (fun i => .insert (crowdKey i) i)

theorem crowd_ops_succ (n : Nat) :
    crowdOps (n + 1) = crowdOps n ++ [.insert (crowdKey n) n] := by
  rw [crowdOps, List.range_succ, List.map_append]
  rfl

theorem crowd_reached {n : Nat} (small : n ≤ 2 ^ 32) :
    ∃ config : Config (RobinHoodMap Nat) (Op Nat) (Answer Nat),
      Reachable (step fun _ => 0) shortKey (allocate (2 ^ 33)) config ∧
        config.ops = crowdOps n ∧ config.state = crowd n := by
  induction n with
  | zero => exact ⟨_, reachable_start, rfl, rfl⟩
  | succ n ih =>
      obtain ⟨config, reached, ops, state⟩ := ih (by omega)
      have ran : step (fun _ => 0) config.state (.insert (crowdKey n) n) =
          some (crowd (n + 1), .inserted) := by
        rw [state, step, crowd_insert (by omega)]
        rfl
      have permitted : shortKey config (.insert (crowdKey n) n) := crowd_key_short n
      refine ⟨_, reached.tail (.run permitted ran), ?_, rfl⟩
      rw [Config.push_ops, ops, crowd_ops_succ]

theorem crowd_stored (n : Nat) : stored (crowdOps (n + 1)) (crowdKey n) = some n := by
  rw [crowd_ops_succ, stored_append, settle, if_pos rfl]

theorem crowd_find {n : Nat} (last : n + 1 = 2 ^ 32) :
    (crowd (n + 1)).find (fun _ => 0) (crowdKey n) = some none := by
  have start : (crowd (n + 1)).home 0 = 0 := Nat.zero_and _
  rw [find, start]
  exact congrArg (fun found => found.bind fun place =>
    some (place.map fun idx => ((crowd (n + 1)).table idx).value)) (crowd_probe last)

/-- After `2 ^ 32` inserts of different keys the last one is not found. -/
theorem label_overflow :
    ∃ (m : RobinHoodMap Nat) (config : Config (RobinHoodMap Nat) (Op Nat) (Answer Nat)),
      make (2 ^ 33) = some m ∧ Reachable (step fun _ => 0) shortKey m config ∧
        config.ops = crowdOps (2 ^ 32) ∧
        stored config.ops (crowdKey (2 ^ 32 - 1)) = some (2 ^ 32 - 1) ∧
        config.state.find (fun _ => 0) (crowdKey (2 ^ 32 - 1)) = some none := by
  obtain ⟨config, reached, ops, state⟩ := crowd_reached (Nat.le_refl (2 ^ 32))
  have last : (2 ^ 32 - 1) + 1 = 2 ^ 32 := by omega
  refine ⟨_, config, rfl, reached, ops, ?_, ?_⟩
  · have found := crowd_stored (2 ^ 32 - 1)
    rw [last] at found
    rw [ops]
    exact found
  · have lost := crowd_find last
    rw [last] at lost
    rw [state]
    exact lost

end RobinHoodMap

end Finm327.Hw5
