import Mathlib.Data.List.Nodup
import Finm327.Library.LevelQueues

/-!
# Levels as an index by key

Keyed levels read and edited through one key. The queue of a key may be changed in place, and
a level goes with its last item. Levels index a relation when every item lies once in the
queue of each key it belongs to, and nowhere else.
-/

namespace Finm327.Library.LevelQueues

universe u v

/-- Levels in ascending order of their keys. -/
theorem key_order_lt (Key : Type u) [LinearOrder Key] :
    KeyOrder (fun a b : Key => decide (a < b)) (fun a b => decide (a = b)) where
  irrefl a := decide_eq_false (lt_irrefl a)
  trans a b c first second :=
    decide_eq_true (lt_trans (of_decide_eq_true first) (of_decide_eq_true second))
  total a b := by
    rcases lt_trichotomy a b with below | equal | above
    · exact .inl (decide_eq_true below)
    · exact .inr (.inl equal)
    · exact .inr (.inr (decide_eq_true above))
  same_iff a b _ := decide_eq_true_iff

variable {Key : Type u} {Item : Type v} [DecidableEq Key]

/-- The queue of the level with the key. -/
def find (key : Key) : List (Level Key Item) → Option (List Item)
  | [] => none
  | level :: rest => if level.key = key then some level.queue else find key rest

/-- Changes the queue of the level with the key, and drops the level if that empties it. -/
def change (key : Key) (edit : List Item → List Item) :
    List (Level Key Item) → List (Level Key Item)
  | [] => []
  | level :: rest =>
      if level.key = key then
        match edit level.queue with
        | [] => rest
        | item :: queue => ⟨level.key, item :: queue⟩ :: rest
      else level :: change key edit rest

section Find

variable {ahead same : Key → Key → Bool} {key other : Key} {item : Item}
  {edit : List Item → List Item} {levels : List (Level Key Item)}

theorem find_cons (level : Level Key Item) (rest : List (Level Key Item)) :
    find key (level :: rest) = if level.key = key then some level.queue else find key rest := rfl

theorem find_eq_none_iff : find key levels = none ↔ key ∉ keys levels := by
  induction levels with
  | nil => exact ⟨fun _ => List.not_mem_nil, fun _ => rfl⟩
  | cons level rest ih =>
      rw [find_cons, keys_cons, List.mem_cons]
      by_cases own : level.key = key
      · rw [if_pos own]
        constructor
        · intro missing
          cases missing
        · exact fun absent => absurd (Or.inl own.symm) absent
      · rw [if_neg own, ih]
        constructor
        · intro absent found
          cases found with
          | inl here => exact own here.symm
          | inr later => exact absent later
        · exact fun absent later => absent (.inr later)

theorem mem_of_find {queue : List Item} (found : find key levels = some queue) :
    ⟨key, queue⟩ ∈ levels := by
  induction levels with
  | nil => cases found
  | cons level rest ih =>
      rw [find_cons] at found
      by_cases own : level.key = key
      · rw [if_pos own, Option.some.injEq] at found
        rw [← own, ← found]
        exact List.mem_cons_self
      · rw [if_neg own] at found
        exact List.mem_cons_of_mem level (ih found)

theorem find_of_mem (irrefl : ∀ a, ahead a a = false) (sorted : Sorted ahead levels)
    {level : Level Key Item} (member : level ∈ levels) :
    find level.key levels = some level.queue := by
  induction levels with
  | nil => cases member
  | cons first rest ih =>
      have apart := List.pairwise_cons.mp sorted
      rw [find_cons]
      cases member with
      | head => rw [if_pos rfl]
      | tail _ later =>
          have different : first.key ≠ level.key := by
            intro equal
            have before := apart.1 level.key (List.mem_map_of_mem later)
            rw [equal, irrefl] at before
            cases before
          rw [if_neg different, ih apart.2 later]

theorem find_push_back (order : KeyOrder ahead same) (sorted : Sorted ahead levels) :
    find other (pushBack ahead same key item levels) =
      if other = key then some ((find key levels).getD [] ++ [item]) else find other levels := by
  induction levels with
  | nil =>
      by_cases own : other = key
      · rw [if_pos own, pushBack, find_cons, if_pos own.symm]
        rfl
      · rw [if_neg own, pushBack, find_cons, if_neg (Ne.symm own)]
  | cons level rest ih =>
      have apart := List.pairwise_cons.mp sorted
      rw [pushBack]
      by_cases before : ahead level.key key = true
      · have different : level.key ≠ key := by
          intro equal
          rw [equal, order.irrefl] at before
          cases before
        rw [if_pos before, find_cons, ih apart.2, find_cons, if_neg different, find_cons]
        by_cases here : level.key = other
        · rw [if_pos here, if_pos here, if_neg (here ▸ different)]
        · rw [if_neg here, if_neg here]
      · rw [if_neg before]
        by_cases joins : same level.key key = true
        · have equal := order.eq_of_same before joins
          rw [if_pos joins, find_cons, find_cons, if_pos equal, find_cons, Option.getD_some]
          by_cases own : other = key
          · rw [if_pos own, if_pos (equal.trans own.symm)]
          · rw [if_neg own]
            by_cases here : level.key = other
            · exact absurd (here.symm.trans equal) own
            · rw [if_neg here, if_neg here]
        · have behind := order.ahead_of_neither before joins
          have missing : find key (level :: rest) = none := by
            rw [find_eq_none_iff, keys_cons, List.mem_cons]
            intro found
            cases found with
            | inl here =>
                rw [← here, order.irrefl] at behind
                cases behind
            | inr later =>
                have around := order.trans _ _ _ behind (apart.1 key later)
                rw [order.irrefl] at around
                cases around
          rw [if_neg joins, find_cons, missing, Option.getD_none, List.nil_append]
          by_cases own : other = key
          · rw [if_pos own, if_pos own.symm]
          · rw [if_neg own, if_neg (Ne.symm own)]

theorem find_change (irrefl : ∀ a, ahead a a = false) (sorted : Sorted ahead levels) :
    find other (change key edit levels) =
      if other = key then ((find key levels).map edit).filter (fun queue => !queue.isEmpty)
      else find other levels := by
  induction levels with
  | nil => exact (ite_self none).symm
  | cons level rest ih =>
      have apart := List.pairwise_cons.mp sorted
      rw [change]
      by_cases here : level.key = key
      · have missing : find key rest = none := by
          rw [find_eq_none_iff]
          intro later
          have before := apart.1 key later
          rw [here, irrefl] at before
          cases before
        rw [if_pos here, find_cons, if_pos here, Option.map_some]
        cases left : edit level.queue with
        | nil =>
            dsimp only
            rw [find_cons]
            by_cases own : other = key
            · rw [if_pos own, own, missing]
              rfl
            · rw [if_neg own, if_neg (fun equal => own (equal.symm.trans here))]
        | cons first queue =>
            dsimp only
            rw [find_cons, find_cons]
            by_cases own : other = key
            · rw [if_pos own, if_pos (here.trans own.symm)]
              rfl
            · have different : level.key ≠ other := fun equal => own (equal.symm.trans here)
              rw [if_neg own, if_neg different, if_neg different]
      · rw [if_neg here, find_cons, ih apart.2, find_cons, if_neg here, find_cons]
        by_cases own : other = key
        · rw [if_pos own, if_pos own, if_neg (own ▸ here)]
        · rw [if_neg own, if_neg own]

theorem keys_change_sublist (levels : List (Level Key Item)) :
    (keys (change key edit levels)).Sublist (keys levels) := by
  induction levels with
  | nil => exact List.Sublist.refl _
  | cons level rest ih =>
      rw [change]
      by_cases here : level.key = key
      · rw [if_pos here]
        cases edit level.queue with
        | nil => exact List.sublist_cons_self _ _
        | cons first queue => exact List.Sublist.refl _
      · rw [if_neg here]
        exact ih.cons_cons level.key

theorem sorted_change (sorted : Sorted ahead levels) : Sorted ahead (change key edit levels) :=
  List.Pairwise.sublist (keys_change_sublist levels) sorted

theorem all_queued_change (queued : AllQueued levels) : AllQueued (change key edit levels) := by
  induction levels with
  | nil => exact queued
  | cons level rest ih =>
      have restQueued : AllQueued rest := fun one member =>
        queued one (List.mem_cons_of_mem level member)
      rw [change]
      by_cases here : level.key = key
      · rw [if_pos here]
        cases edit level.queue with
        | nil => exact restQueued
        | cons first queue =>
            intro one member
            cases member with
            | head => exact List.cons_ne_nil first queue
            | tail _ later => exact restQueued one later
      · rw [if_neg here]
        intro one member
        cases member with
        | head => exact queued level List.mem_cons_self
        | tail _ later => exact ih restQueued one later

/-- How often the item lies in the queue of the key. -/
def countAt [DecidableEq Item] (key : Key) (item : Item) (levels : List (Level Key Item)) : Nat :=
  ((find key levels).getD []).count item

theorem count_push_back [DecidableEq Item] {x : Item} (order : KeyOrder ahead same)
    (sorted : Sorted ahead levels) :
    countAt other x (pushBack ahead same key item levels) =
      countAt other x levels + if x = item ∧ other = key then 1 else 0 := by
  unfold countAt
  rw [find_push_back order sorted]
  by_cases own : other = key
  · rw [if_pos own, own, Option.getD_some, List.count_append, List.count_singleton]
    by_cases same : x = item
    · rw [same, beq_self_eq_true, if_pos rfl, if_pos ⟨rfl, rfl⟩]
    · have apart : ¬ (item == x) = true := fun equal => same (beq_iff_eq.mp equal).symm
      rw [if_neg apart, if_neg (fun both => same both.1)]
  · rw [if_neg own, if_neg (fun both => own both.2), Nat.add_zero]

/-- Taking one item out of its queue, however the rest of the queue is rearranged. -/
theorem count_change [DecidableEq Item] {x : Item} (irrefl : ∀ a, ahead a a = false)
    (sorted : Sorted ahead levels)
    (removes : ∀ queue, item ∈ queue → (item :: edit queue).Perm queue)
    (present : 0 < countAt key item levels) :
    countAt other x (change key edit levels) + (if x = item ∧ other = key then 1 else 0) =
      countAt other x levels := by
  unfold countAt at present ⊢
  rw [find_change irrefl sorted]
  by_cases own : other = key
  · rw [if_pos own, own]
    cases found : find key levels with
    | none =>
        rw [found] at present
        cases present
    | some queue =>
        rw [found, Option.getD_some] at present
        have left : ((some (edit queue)).filter (fun queue => !queue.isEmpty)).getD [] =
            edit queue := by
          cases edit queue with
          | nil => rfl
          | cons first rest => rfl
        rw [Option.map_some, left, Option.getD_some,
          ← (removes queue (List.count_pos_iff.mp present)).count_eq, List.count_cons]
        by_cases same : x = item
        · rw [same, beq_self_eq_true, if_pos rfl, if_pos ⟨rfl, rfl⟩]
        · have apart : ¬ (item == x) = true := fun equal => same (beq_iff_eq.mp equal).symm
          rw [if_neg apart, if_neg (fun both => same both.1)]
  · rw [if_neg own, if_neg (fun both => own both.2), Nat.add_zero]

end Find

/-- Every item lies once in the queue of each key it belongs to, and nothing else is kept. -/
structure Indexes (ahead : Key → Key → Bool) (belongs : Item → Key → Prop)
    (levels : List (Level Key Item)) : Prop where
  sorted : Sorted ahead levels
  queued : AllQueued levels
  nodup : ∀ key queue, find key levels = some queue → queue.Nodup
  mem : ∀ key item, (∃ queue, find key levels = some queue ∧ item ∈ queue) ↔ belongs item key

namespace Indexes

variable {ahead same : Key → Key → Bool} {belongs after : Item → Key → Prop} {key : Key}
  {item : Item} {levels : List (Level Key Item)}

theorem nil_index (nothing : ∀ item key, ¬ belongs item key) :
    Indexes ahead belongs ([] : List (Level Key Item)) where
  sorted := List.Pairwise.nil
  queued := fun _ contrary => absurd contrary List.not_mem_nil
  nodup := by
    intro key queue found
    cases found
  mem := by
    intro key item
    constructor
    · rintro ⟨queue, found, -⟩
      cases found
    · exact fun own => absurd own (nothing item key)

theorem push_back (order : KeyOrder ahead same) (indexed : Indexes ahead belongs levels)
    (fresh : ¬ belongs item key)
    (joins : ∀ other place, after other place ↔ other = item ∧ place = key ∨ belongs other place) :
    Indexes ahead after (pushBack ahead same key item levels) := by
  have notQueued : item ∉ (find key levels).getD [] := by
    intro queued
    cases found : find key levels with
    | none =>
        rw [found] at queued
        cases queued
    | some queue =>
        rw [found] at queued
        exact fresh ((indexed.mem key item).mp ⟨queue, found, queued⟩)
  have nodupBefore : ((find key levels).getD []).Nodup := by
    cases found : find key levels with
    | none => exact List.nodup_nil
    | some queue => exact indexed.nodup key queue found
  refine ⟨sorted_push_back order indexed.sorted, all_queued_push_back indexed.queued, ?_, ?_⟩
  · intro other queue found
    rw [find_push_back order indexed.sorted] at found
    split_ifs at found with own
    · rw [← Option.some.inj found, List.nodup_append_comm]
      exact List.nodup_cons.mpr ⟨notQueued, nodupBefore⟩
    · exact indexed.nodup other queue found
  · intro place other
    rw [find_push_back order indexed.sorted, joins, ← indexed.mem]
    by_cases own : place = key
    · rw [if_pos own, own]
      constructor
      · rintro ⟨queue, found, queued⟩
        rw [← Option.some.inj found, List.mem_append, List.mem_singleton] at queued
        cases queued with
        | inr last => exact .inl ⟨last, rfl⟩
        | inl before =>
            cases already : find key levels with
            | none =>
                rw [already] at before
                cases before
            | some queue =>
                rw [already] at before
                exact .inr ⟨queue, rfl, before⟩
      · intro joined
        refine ⟨_, rfl, ?_⟩
        rw [List.mem_append, List.mem_singleton]
        cases joined with
        | inl new => exact .inr new.1
        | inr old =>
            obtain ⟨queue, found, queued⟩ := old
            rw [found]
            exact .inl queued
    · rw [if_neg own]
      constructor
      · exact .inr
      · intro joined
        cases joined with
        | inl new => exact absurd new.2 own
        | inr old => exact old

/-- Taking one item out of its queue, however the rest of the queue is rearranged. -/
theorem change_remove {edit : List Item → List Item} (irrefl : ∀ a, ahead a a = false)
    (indexed : Indexes ahead belongs levels)
    (removes : ∀ queue, item ∈ queue → (item :: edit queue).Perm queue)
    (owns : belongs item key)
    (leaves : ∀ other place,
      after other place ↔ belongs other place ∧ ¬ (other = item ∧ place = key)) :
    Indexes ahead after (change key edit levels) := by
  obtain ⟨queue, found, queued⟩ := (indexed.mem key item).mpr owns
  have same := removes queue queued
  have nodup := same.nodup_iff.mpr (indexed.nodup key queue found)
  have content : ∀ other, other ∈ edit queue ↔ other ∈ queue ∧ other ≠ item := by
    intro other
    rw [← same.mem_iff, List.mem_cons]
    constructor
    · intro left
      refine ⟨.inr left, ?_⟩
      rintro rfl
      exact (List.nodup_cons.mp nodup).1 left
    · rintro ⟨rfl | left, different⟩
      · exact absurd rfl different
      · exact left
  have own : find key (change key edit levels) =
      (some (edit queue)).filter (fun queue => !queue.isEmpty) := by
    rw [find_change irrefl indexed.sorted, if_pos rfl, found, Option.map_some]
  refine ⟨sorted_change indexed.sorted, all_queued_change indexed.queued, ?_, ?_⟩
  · intro place kept foundKept
    by_cases here : place = key
    · rw [here, own, Option.filter_eq_some_iff] at foundKept
      rw [← Option.some.inj foundKept.1]
      exact (List.nodup_cons.mp nodup).2
    · rw [find_change irrefl indexed.sorted, if_neg here] at foundKept
      exact indexed.nodup place kept foundKept
  · intro place other
    rw [leaves, ← indexed.mem]
    by_cases here : place = key
    · rw [here, own, found]
      constructor
      · rintro ⟨kept, foundKept, member⟩
        rw [Option.filter_eq_some_iff] at foundKept
        rw [← Option.some.inj foundKept.1, content] at member
        exact ⟨⟨queue, rfl, member.1⟩, fun both => member.2 both.1⟩
      · rintro ⟨⟨before, foundBefore, member⟩, notItem⟩
        rw [Option.some.inj foundBefore.symm] at member
        have stays := (content other).mpr ⟨member, fun equal => notItem ⟨equal, rfl⟩⟩
        refine ⟨edit queue, ?_, stays⟩
        rw [Option.filter_eq_some_iff]
        refine ⟨rfl, ?_⟩
        cases left : edit queue with
        | nil =>
            rw [left] at stays
            cases stays
        | cons first rest => rfl
    · rw [find_change irrefl indexed.sorted, if_neg here]
      exact ⟨fun kept => ⟨kept, fun both => here both.2⟩, fun kept => kept.1⟩

theorem congr (indexed : Indexes ahead belongs levels)
    (same : ∀ item key, after item key ↔ belongs item key) : Indexes ahead after levels :=
  ⟨indexed.sorted, indexed.queued, indexed.nodup,
    fun key item => (indexed.mem key item).trans (same item key).symm⟩

section Items

variable (irrefl : ∀ a, ahead a a = false) (indexed : Indexes ahead belongs levels)
include irrefl indexed

theorem mem_items : item ∈ items levels ↔ ∃ key, belongs item key := by
  rw [items, List.mem_flatMap]
  constructor
  · rintro ⟨level, member, queued⟩
    have found := find_of_mem irrefl indexed.sorted member
    exact ⟨level.key, (indexed.mem level.key item).mp ⟨level.queue, found, queued⟩⟩
  · rintro ⟨key, own⟩
    obtain ⟨queue, found, queued⟩ := (indexed.mem key item).mpr own
    exact ⟨⟨key, queue⟩, mem_of_find found, queued⟩

/-- Where an item belongs to one key only, it lies in one queue only. -/
theorem nodup_items (single : ∀ item first second,
    belongs item first → belongs item second → first = second) : (items levels).Nodup := by
  rw [items, List.nodup_flatMap]
  constructor
  · intro level member
    exact indexed.nodup level.key level.queue (find_of_mem irrefl indexed.sorted member)
  · have apart := List.pairwise_map.mp indexed.sorted
    refine apart.imp_of_mem ?_
    intro first second firstMember secondMember before item firstQueued secondQueued
    have firstFound := find_of_mem irrefl indexed.sorted firstMember
    have secondFound := find_of_mem irrefl indexed.sorted secondMember
    have same := single item first.key second.key
      ((indexed.mem _ _).mp ⟨_, firstFound, firstQueued⟩)
      ((indexed.mem _ _).mp ⟨_, secondFound, secondQueued⟩)
    rw [same, irrefl] at before
    cases before

theorem count_eq_one [DecidableEq Item] (single : ∀ item first second,
    belongs item first → belongs item second → first = second) (own : belongs item key) :
    (items levels).count item = 1 :=
  List.count_eq_one_of_mem (indexed.nodup_items irrefl single)
    ((indexed.mem_items irrefl).mpr ⟨key, own⟩)

theorem count_eq_zero [DecidableEq Item] (nowhere : ∀ key, ¬ belongs item key) :
    (items levels).count item = 0 := by
  rw [List.count_eq_zero, indexed.mem_items irrefl]
  exact fun own => own.elim nowhere

end Items

/-- The key of the foremost level is an extreme one of all keys with an item. -/
theorem foremost {level : Level Key Item} {rest : List (Level Key Item)}
    (indexed : Indexes ahead belongs (level :: rest)) :
    (∃ item, belongs item level.key) ∧
      ∀ item key, belongs item key → key = level.key ∨ ahead level.key key = true := by
  have found : find level.key (level :: rest) = some level.queue := by
    rw [find_cons, if_pos rfl]
  constructor
  · obtain ⟨item, queued⟩ := List.exists_mem_of_ne_nil level.queue
      (indexed.queued level List.mem_cons_self)
    exact ⟨item, (indexed.mem level.key item).mp ⟨level.queue, found, queued⟩⟩
  · intro item key own
    obtain ⟨queue, foundOwn, -⟩ := (indexed.mem key item).mpr own
    have member : key ∈ keys (level :: rest) := List.mem_map_of_mem (mem_of_find foundOwn)
    cases List.mem_cons.mp member with
    | inl here => exact .inl here
    | inr later => exact .inr ((List.pairwise_cons.mp indexed.sorted).1 key later)

end Indexes

end Finm327.Library.LevelQueues
