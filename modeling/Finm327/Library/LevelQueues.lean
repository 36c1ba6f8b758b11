import Mathlib.Data.List.Basic
import Mathlib.Data.List.Perm.Basic
import Mathlib.Data.List.TakeWhile
import Mathlib.Order.Lattice

/-!
# Keyed levels of FIFO queues

A sequence of levels, each a key with a queue of items. `ahead a b` says that
the level keyed `a` stands in front of the level keyed `b`; `same` decides
whether an item joins an existing level. Dead items stay queued until they
reach the front of the foremost level and are dropped there.
-/

namespace Finm327.Library.LevelQueues

universe u v

structure Level (Key : Type u) (Item : Type v) where
  key : Key
  queue : List Item
deriving DecidableEq, Repr

variable {Key : Type u} {Item : Type v}

/-- Every queued item, foremost level first and oldest first inside a level. -/
def items (levels : List (Level Key Item)) : List Item := levels.flatMap Level.queue

def keys (levels : List (Level Key Item)) : List Key := levels.map Level.key

/-- Appends an item to the level of its key. Without such a level one is
opened in front of the first level that `key` does not follow. -/
def pushBack (ahead same : Key → Key → Bool) (key : Key) (item : Item) :
    List (Level Key Item) → List (Level Key Item)
  | [] => [⟨key, [item]⟩]
  | level :: rest =>
      if ahead level.key key then level :: pushBack ahead same key item rest
      else if same level.key key then ⟨level.key, level.queue ++ [item]⟩ :: rest
      else ⟨key, [item]⟩ :: level :: rest

/-- Drops dead items from the front, and with them every level they empty,
until the foremost item is live. -/
def pruneFront (live : Item → Bool) : List (Level Key Item) → List (Level Key Item)
  | [] => []
  | level :: rest =>
      match level.queue.dropWhile (fun item => !live item) with
      | [] => pruneFront live rest
      | item :: queue => ⟨level.key, item :: queue⟩ :: rest

/-- Drops the foremost item, and its level when that was the last one. -/
def popFront : List (Level Key Item) → List (Level Key Item)
  | [] => []
  | level :: rest =>
      match level.queue.tail with
      | [] => rest
      | item :: queue => ⟨level.key, item :: queue⟩ :: rest

def front : List (Level Key Item) → Option Item
  | [] => none
  | level :: _ => level.queue.head?

/-- Only the answers of `same` where `ahead` fails matter. -/
theorem push_back_congr {ahead same other : Key → Key → Bool}
    (agree : ∀ a b, ahead a b = false → same a b = other a b) (key : Key) (item : Item)
    (levels : List (Level Key Item)) :
    pushBack ahead same key item levels = pushBack ahead other key item levels := by
  induction levels with
  | nil => rfl
  | cons level rest ih =>
      by_cases isAhead : ahead level.key key = true
      · simp only [pushBack, if_pos isAhead, ih]
      · simp only [pushBack, if_neg isAhead, agree level.key key (by simpa using isAhead)]

@[simp] theorem items_nil : items ([] : List (Level Key Item)) = [] := rfl

@[simp] theorem items_cons (level : Level Key Item) (rest : List (Level Key Item)) :
    items (level :: rest) = level.queue ++ items rest := rfl

@[simp] theorem keys_nil : keys ([] : List (Level Key Item)) = [] := rfl

@[simp] theorem keys_cons (level : Level Key Item) (rest : List (Level Key Item)) :
    keys (level :: rest) = level.key :: keys rest := rfl

section Items

variable {ahead same : Key → Key → Bool} {key : Key} {item : Item} {live : Item → Bool}

theorem items_push_back (levels : List (Level Key Item)) :
    (items (pushBack ahead same key item levels)).Perm (item :: items levels) := by
  induction levels with
  | nil => simp [pushBack]
  | cons level rest ih =>
      simp only [pushBack]
      split_ifs
      · exact (ih.append_left level.queue).trans List.perm_middle
      · simp only [items_cons, List.append_assoc]
        exact List.perm_middle
      · simp

theorem mem_items_push_back (levels : List (Level Key Item)) (other : Item) :
    other ∈ items (pushBack ahead same key item levels) ↔ other = item ∨ other ∈ items levels := by
  rw [(items_push_back levels).mem_iff, List.mem_cons]

theorem items_prune_front (levels : List (Level Key Item)) :
    items (pruneFront live levels) = (items levels).dropWhile (fun item => !live item) := by
  induction levels with
  | nil => rfl
  | cons level rest ih =>
      simp only [pruneFront, items_cons, List.dropWhile_append]
      cases dropped : level.queue.dropWhile (fun item => !live item) with
      | nil => simpa using ih
      | cons item queue => simp

/-- Pruning drops dead items only. -/
theorem mem_prune_front_of_live {levels : List (Level Key Item)} {other : Item}
    (member : other ∈ items levels) (alive : live other = true) :
    other ∈ items (pruneFront live levels) := by
  rw [items_prune_front]
  have split : (items levels).takeWhile (fun item => !live item) ++
      (items levels).dropWhile (fun item => !live item) = items levels :=
    List.takeWhile_append_dropWhile
  rw [← split, List.mem_append] at member
  rcases member with dropped | kept
  · have dead := List.mem_takeWhile_imp dropped
    simp [alive] at dead
  · exact kept

end Items

/-- No level is kept without an item. -/
def AllQueued (levels : List (Level Key Item)) : Prop := ∀ level ∈ levels, level.queue ≠ []

section AllQueued

variable {ahead same : Key → Key → Bool} {key : Key} {item : Item} {live : Item → Bool}

theorem all_queued_push_back {levels : List (Level Key Item)} (queued : AllQueued levels) :
    AllQueued (pushBack ahead same key item levels) := by
  induction levels with
  | nil => simp [AllQueued, pushBack]
  | cons level rest ih =>
      have restQueued : AllQueued rest := fun other member =>
        queued other (List.mem_cons_of_mem _ member)
      have headQueued := queued level List.mem_cons_self
      simp only [pushBack]
      split_ifs <;> intro other member <;> simp only [List.mem_cons] at member
      · rcases member with rfl | member
        · exact headQueued
        · exact ih restQueued other member
      · rcases member with rfl | member
        · simp
        · exact restQueued other member
      · rcases member with rfl | rfl | member
        · simp
        · exact headQueued
        · exact restQueued other member

theorem all_queued_prune_front {levels : List (Level Key Item)} (queued : AllQueued levels) :
    AllQueued (pruneFront live levels) := by
  induction levels with
  | nil => simp [AllQueued, pruneFront]
  | cons level rest ih =>
      have restQueued : AllQueued rest := fun other member =>
        queued other (List.mem_cons_of_mem _ member)
      simp only [pruneFront]
      split
      · exact ih restQueued
      · intro other member
        rcases List.mem_cons.mp member with rfl | member
        · simp
        · exact restQueued other member

theorem all_queued_pop_front {levels : List (Level Key Item)} (queued : AllQueued levels) :
    AllQueued (popFront levels) := by
  cases levels with
  | nil => simp [AllQueued, popFront]
  | cons level rest =>
      have restQueued : AllQueued rest := fun other member =>
        queued other (List.mem_cons_of_mem _ member)
      simp only [popFront]
      split
      · exact restQueued
      · intro other member
        rcases List.mem_cons.mp member with rfl | member
        · simp
        · exact restQueued other member

theorem items_pop_front {levels : List (Level Key Item)} (queued : AllQueued levels) :
    items (popFront levels) = (items levels).tail := by
  cases levels with
  | nil => rfl
  | cons level rest =>
      obtain ⟨key, queue⟩ := level
      cases queue with
      | nil => exact absurd rfl (queued ⟨key, []⟩ List.mem_cons_self)
      | cons item queue => cases queue <;> simp [popFront]

theorem front_eq_head {levels : List (Level Key Item)} (queued : AllQueued levels) :
    front levels = (items levels).head? := by
  cases levels with
  | nil => rfl
  | cons level rest =>
      obtain ⟨key, queue⟩ := level
      cases queue with
      | nil => exact absurd rfl (queued ⟨key, []⟩ List.mem_cons_self)
      | cons item queue => simp [front]

end AllQueued

/-- What the front of a pruned sequence of levels is. -/
theorem prune_front_cases (live : Item → Bool) (levels : List (Level Key Item)) :
    (pruneFront live levels = [] ∧ ∀ item ∈ items levels, live item = false) ∨
      ∃ key item queue rest, pruneFront live levels = ⟨key, item :: queue⟩ :: rest ∧
        live item = true := by
  induction levels with
  | nil => simp [pruneFront]
  | cons level rest ih =>
      simp only [pruneFront]
      cases dropped : level.queue.dropWhile (fun item => !live item) with
      | nil =>
          have dead : ∀ item ∈ level.queue, live item = false := by
            simpa [List.dropWhile_eq_nil_iff] using dropped
          rcases ih with ⟨empty, restDead⟩ | found
          · left
            refine ⟨empty, ?_⟩
            intro item member
            rcases List.mem_append.mp member with member | member
            · exact dead item member
            · exact restDead item member
          · exact .inr found
      | cons item queue =>
          right
          refine ⟨level.key, item, queue, rest, rfl, ?_⟩
          have first := List.head?_dropWhile_not (fun item => !live item) level.queue
          simpa [dropped] using first

/-! ## Pruning round by round -/

/-- One round: the foremost item goes when it is dead, the foremost level when it is empty. -/
def pruneStep (live : Item → Bool) : List (Level Key Item) → Option (List (Level Key Item))
  | [] => none
  | ⟨_, []⟩ :: rest => some rest
  | ⟨key, item :: queue⟩ :: rest => if live item then none else some (⟨key, queue⟩ :: rest)

def pruneLoop (live : Item → Bool) : Nat → List (Level Key Item) →
    Option (List (Level Key Item))
  | 0, _ => none
  | fuel + 1, levels =>
      match pruneStep live levels with
      | none => some levels
      | some next => pruneLoop live fuel next

/-- Each item and each level takes one round at most. -/
def roundBound (levels : List (Level Key Item)) : Nat := (items levels).length + levels.length

section Rounds

variable {live : Item → Bool} {levels next : List (Level Key Item)}

theorem prune_step_removes (stepped : pruneStep live levels = some next) :
    (items next).Sublist (items levels) ∧ roundBound next < roundBound levels := by
  cases levels with
  | nil => cases stepped
  | cons level rest =>
      obtain ⟨key, queue⟩ := level
      cases queue with
      | nil =>
          rw [pruneStep, Option.some.injEq] at stepped
          subst stepped
          exact ⟨List.Sublist.refl _, Nat.lt_succ_self _⟩
      | cons item queue =>
          rw [pruneStep] at stepped
          split at stepped
          case isTrue => cases stepped
          case isFalse dead =>
            rw [Option.some.injEq] at stepped
            subst stepped
            refine ⟨List.sublist_cons_self _ _, ?_⟩
            simp only [roundBound, items_cons, List.cons_append, List.length_cons]
            omega

theorem prune_front_step (stepped : pruneStep live levels = some next) :
    pruneFront live next = pruneFront live levels := by
  cases levels with
  | nil => cases stepped
  | cons level rest =>
      obtain ⟨key, queue⟩ := level
      cases queue with
      | nil =>
          rw [pruneStep, Option.some.injEq] at stepped
          rw [stepped]
          rfl
      | cons item queue =>
          rw [pruneStep] at stepped
          split at stepped
          case isTrue => cases stepped
          case isFalse dead =>
            rw [Option.some.injEq] at stepped
            subst stepped
            simp only [pruneFront, List.dropWhile_cons, dead, Bool.not_false, if_true]

theorem prune_front_stop (stopped : pruneStep live levels = none) :
    pruneFront live levels = levels := by
  cases levels with
  | nil => rfl
  | cons level rest =>
      obtain ⟨key, queue⟩ := level
      cases queue with
      | nil => cases stopped
      | cons item queue =>
          rw [pruneStep] at stopped
          split at stopped
          case isTrue alive =>
            simp only [pruneFront, List.dropWhile_cons, alive, Bool.not_true, Bool.false_eq_true,
              if_false]
          case isFalse => cases stopped

/-- Every round removes something, so the loop ends, and it ends pruned. -/
theorem prune_loop_eq {fuel : Nat} (enough : roundBound levels < fuel) :
    pruneLoop live fuel levels = some (pruneFront live levels) := by
  induction fuel generalizing levels with
  | zero => omega
  | succ fuel ih =>
      rw [pruneLoop]
      cases stepped : pruneStep live levels with
      | none => exact congrArg some (prune_front_stop stepped).symm
      | some next =>
          have smaller := (prune_step_removes stepped).2
          rw [← prune_front_step stepped]
          exact ih (by omega)

end Rounds

/-- The laws under which the levels form an ordered map from keys to queues. -/
structure KeyOrder (ahead same : Key → Key → Bool) : Prop where
  irrefl : ∀ a, ahead a a = false
  trans : ∀ a b c, ahead a b = true → ahead b c = true → ahead a c = true
  total : ∀ a b, ahead a b = true ∨ a = b ∨ ahead b a = true
  same_iff : ∀ a b, ahead a b = false → (same a b = true ↔ a = b)

namespace KeyOrder

variable {ahead same : Key → Key → Bool} {a b : Key}

theorem eq_of_same (order : KeyOrder ahead same) (notAhead : ¬ ahead a b = true)
    (isSame : same a b = true) : a = b :=
  (order.same_iff a b ((Bool.not_eq_true _).mp notAhead)).mp isSame

theorem ahead_of_neither (order : KeyOrder ahead same) (notAhead : ¬ ahead a b = true)
    (notSame : ¬ same a b = true) : ahead b a = true := by
  rcases order.total a b with before | equal | after
  · exact absurd before notAhead
  · exact absurd ((order.same_iff a b ((Bool.not_eq_true _).mp notAhead)).mpr equal) notSame
  · exact after

end KeyOrder

def Sorted (ahead : Key → Key → Bool) (levels : List (Level Key Item)) : Prop :=
  (keys levels).Pairwise (fun a b => ahead a b = true)

section Sorted

variable {ahead same : Key → Key → Bool} {key : Key} {item : Item} {live : Item → Bool}

theorem mem_keys_push_back {levels : List (Level Key Item)} {other : Key}
    (member : other ∈ keys (pushBack ahead same key item levels)) :
    other = key ∨ other ∈ keys levels := by
  induction levels with
  | nil => simpa [pushBack] using member
  | cons level rest ih =>
      simp only [pushBack] at member
      split_ifs at member <;> simp only [keys_cons, List.mem_cons] at member ⊢
      · rcases member with rfl | member
        · simp
        · rcases ih member with found | found <;> simp [found]
      · exact .inr member
      · exact member

theorem sorted_push_back (order : KeyOrder ahead same) {levels : List (Level Key Item)}
    (sorted : Sorted ahead levels) : Sorted ahead (pushBack ahead same key item levels) := by
  induction levels with
  | nil => simp [Sorted, pushBack]
  | cons level rest ih =>
      obtain ⟨headAhead, restSorted⟩ := List.pairwise_cons.mp sorted
      simp only [pushBack]
      split_ifs with isAhead isSame
      · refine List.pairwise_cons.mpr ⟨?_, ih restSorted⟩
        intro other member
        rcases mem_keys_push_back member with rfl | member
        · exact isAhead
        · exact headAhead other member
      · exact List.pairwise_cons.mpr ⟨headAhead, restSorted⟩
      · have behind := order.ahead_of_neither isAhead isSame
        refine List.pairwise_cons.mpr ⟨?_, sorted⟩
        intro other member
        rcases List.mem_cons.mp member with rfl | member
        · exact behind
        · exact order.trans _ _ _ behind (headAhead other member)

theorem keys_prune_front_suffix (levels : List (Level Key Item)) :
    keys (pruneFront live levels) <:+ keys levels := by
  induction levels with
  | nil => exact List.suffix_refl _
  | cons level rest ih =>
      simp only [pruneFront]
      split
      · exact ih.trans (List.suffix_cons _ _)
      · exact List.suffix_refl _

theorem keys_pop_front_suffix (levels : List (Level Key Item)) :
    keys (popFront levels) <:+ keys levels := by
  cases levels with
  | nil => exact List.suffix_refl _
  | cons level rest =>
      simp only [popFront]
      split
      · exact List.suffix_cons _ _
      · exact List.suffix_refl _

theorem sorted_prune_front {levels : List (Level Key Item)} (sorted : Sorted ahead levels) :
    Sorted ahead (pruneFront live levels) :=
  List.Pairwise.sublist (keys_prune_front_suffix levels).sublist sorted

theorem sorted_pop_front {levels : List (Level Key Item)} (sorted : Sorted ahead levels) :
    Sorted ahead (popFront levels) :=
  List.Pairwise.sublist (keys_pop_front_suffix levels).sublist sorted

end Sorted

section Keyed

variable {ahead same : Key → Key → Bool} {key : Key} {item : Item} {live : Item → Bool}

/-- Every item is queued at the level of its own key. -/
def Keyed (keyOf : Item → Key) (levels : List (Level Key Item)) : Prop :=
  ∀ level ∈ levels, ∀ item ∈ level.queue, keyOf item = level.key

theorem keyed_congr {keyOf other : Item → Key} {levels : List (Level Key Item)}
    (keyed : Keyed keyOf levels) (agree : ∀ item ∈ items levels, other item = keyOf item) :
    Keyed other levels := by
  intro level member item queued
  rw [agree item (List.mem_flatMap.mpr ⟨level, member, queued⟩)]
  exact keyed level member item queued

theorem keyed_push_back (order : KeyOrder ahead same) {keyOf : Item → Key}
    {levels : List (Level Key Item)} (keyed : Keyed keyOf levels) (own : keyOf item = key) :
    Keyed keyOf (pushBack ahead same key item levels) := by
  induction levels with
  | nil => simpa [Keyed, pushBack] using own
  | cons level rest ih =>
      have restKeyed : Keyed keyOf rest := fun other member =>
        keyed other (List.mem_cons_of_mem _ member)
      have headKeyed := keyed level List.mem_cons_self
      simp only [pushBack]
      split_ifs with isAhead isSame <;> intro other member <;>
        simp only [List.mem_cons] at member
      · rcases member with rfl | member
        · exact headKeyed
        · exact ih restKeyed other member
      · rcases member with rfl | member
        · have equal := order.eq_of_same isAhead isSame
          intro queued inQueue
          rcases List.mem_append.mp inQueue with old | new
          · exact headKeyed queued old
          · rw [List.mem_singleton.mp new, own, equal]
        · exact restKeyed other member
      · rcases member with rfl | rfl | member
        · simpa using own
        · exact headKeyed
        · exact restKeyed other member

theorem keyed_prune_front {keyOf : Item → Key} {levels : List (Level Key Item)}
    (keyed : Keyed keyOf levels) : Keyed keyOf (pruneFront live levels) := by
  induction levels with
  | nil => exact keyed
  | cons level rest ih =>
      have restKeyed : Keyed keyOf rest := fun other member =>
        keyed other (List.mem_cons_of_mem _ member)
      simp only [pruneFront]
      cases dropped : level.queue.dropWhile (fun item => !live item) with
      | nil => exact ih restKeyed
      | cons head queue =>
          intro other member
          rcases List.mem_cons.mp member with rfl | member
          · intro queued inQueue
            have old : queued ∈ level.queue := by
              rw [← dropped] at inQueue
              exact (List.dropWhile_suffix _).subset inQueue
            exact keyed level List.mem_cons_self queued old
          · exact restKeyed other member

theorem keyed_pop_front {keyOf : Item → Key} {levels : List (Level Key Item)}
    (keyed : Keyed keyOf levels) : Keyed keyOf (popFront levels) := by
  cases levels with
  | nil => exact keyed
  | cons level rest =>
      have restKeyed : Keyed keyOf rest := fun other member =>
        keyed other (List.mem_cons_of_mem _ member)
      simp only [popFront]
      cases rests : level.queue.tail with
      | nil => exact restKeyed
      | cons head queue =>
          intro other member
          rcases List.mem_cons.mp member with rfl | member
          · intro queued inQueue
            exact keyed level List.mem_cons_self queued
              (List.mem_of_mem_tail (by rw [rests]; exact inQueue))
          · exact restKeyed other member

/-- In sorted, keyed levels the foremost key stands ahead of every item behind
its level. -/
theorem ahead_of_mem_rest {keyOf : Item → Key} {level : Level Key Item}
    {rest : List (Level Key Item)} (sorted : Sorted ahead (level :: rest))
    (keyed : Keyed keyOf (level :: rest)) {other : Item} (member : other ∈ items rest) :
    ahead level.key (keyOf other) = true := by
  obtain ⟨holder, holds, queued⟩ := List.mem_flatMap.mp member
  rw [keyed holder (List.mem_cons_of_mem _ holds) other queued]
  exact (List.pairwise_cons.mp sorted).1 holder.key (List.mem_map_of_mem holds)

/-- A relation that follows the keys, and inside a level the order of arrival,
holds along the queued items. -/
theorem pairwise_push_back (order : KeyOrder ahead same) {keyOf : Item → Key}
    {Before : Item → Item → Prop} (byKey : ∀ a b, ahead (keyOf a) (keyOf b) = true → Before a b)
    (own : keyOf item = key) {levels : List (Level Key Item)} (sorted : Sorted ahead levels)
    (keyed : Keyed keyOf levels)
    (arrives : ∀ other ∈ items levels, keyOf other = key → Before other item)
    (pairwise : (items levels).Pairwise Before) :
    (items (pushBack ahead same key item levels)).Pairwise Before := by
  induction levels with
  | nil => simp [pushBack]
  | cons level rest ih =>
      have restSorted : Sorted ahead rest := (List.pairwise_cons.mp sorted).2
      have restKeyed : Keyed keyOf rest := fun other member =>
        keyed other (List.mem_cons_of_mem _ member)
      have headKeyed := keyed level List.mem_cons_self
      obtain ⟨headPairwise, restPairwise, across⟩ := List.pairwise_append.mp pairwise
      simp only [pushBack]
      split_ifs with isAhead isSame
      · refine List.pairwise_append.mpr ⟨headPairwise, ?_, ?_⟩
        · apply ih restSorted restKeyed ?_ restPairwise
          exact fun other member => arrives other (List.mem_append_right _ member)
        · intro first inHead second inRest
          rcases (mem_items_push_back rest second).mp inRest with new | old
          · apply byKey
            rw [new, own, headKeyed first inHead]
            exact isAhead
          · exact across first inHead second old
      · have equal := order.eq_of_same isAhead isSame
        simp only [items_cons, List.append_assoc, List.singleton_append]
        refine List.pairwise_append.mpr ⟨headPairwise, ?_, ?_⟩
        · refine List.pairwise_cons.mpr ⟨?_, restPairwise⟩
          intro other member
          apply byKey
          rw [own, ← equal]
          exact ahead_of_mem_rest sorted keyed member
        · intro first inHead second inRest
          rcases List.mem_cons.mp inRest with new | old
          · rw [new]
            exact arrives first (List.mem_append_left _ inHead)
              ((headKeyed first inHead).trans equal)
          · exact across first inHead second old
      · have behind := order.ahead_of_neither isAhead isSame
        simp only [items_cons, List.singleton_append]
        refine List.pairwise_cons.mpr ⟨?_, pairwise⟩
        intro other member
        apply byKey
        rw [own]
        rcases List.mem_append.mp member with inHead | inRest
        · rw [headKeyed other inHead]
          exact behind
        · exact order.trans _ _ _ behind (ahead_of_mem_rest sorted keyed inRest)

/-- In sorted, keyed levels nothing queued stands ahead of the foremost key. -/
theorem foremost_key {keyOf : Item → Key} (order : KeyOrder ahead same)
    {level : Level Key Item} {rest : List (Level Key Item)}
    (sorted : Sorted ahead (level :: rest)) (keyed : Keyed keyOf (level :: rest))
    {other : Item} (member : other ∈ items (level :: rest)) :
    ahead (keyOf other) level.key = false := by
  rcases List.mem_append.mp member with inHead | inRest
  · rw [keyed level List.mem_cons_self other inHead]
    exact order.irrefl _
  · by_contra contrary
    have before := ahead_of_mem_rest sorted keyed inRest
    have loop := order.trans _ _ _ before (by simpa using contrary)
    rw [order.irrefl] at loop
    contradiction

end Keyed

end Finm327.Library.LevelQueues
