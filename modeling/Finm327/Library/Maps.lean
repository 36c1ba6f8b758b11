import Mathlib.Data.List.AList

/-!
# Maps with unique keys

`std::map` and `std::unordered_map` as far as a program uses them by key: an
association list without duplicate keys. `emplace` keeps an existing entry, as
both `emplace` and `try_emplace` do. An iterator is the key it points at, valid
as long as the key is present. What a map shows at a key after a history of writes
is what the last event about the key left there.
-/

namespace Finm327.Library.Maps

universe u v w

abbrev KeyMap (Key : Type u) (Value : Type v) := AList fun _ : Key => Value

variable {Key : Type u} {Value : Type v} {Other : Type w} [DecidableEq Key]

def emplace (key : Key) (value : Value) (m : KeyMap Key Value) : KeyMap Key Value :=
  if key ∈ m then m else m.insert key value

omit [DecidableEq Key] in
def size (m : KeyMap Key Value) : Nat := m.keys.length

theorem lookup_insert_eq (key other : Key) (value : Value) (m : KeyMap Key Value) :
    (m.insert key value).lookup other = if other = key then some value else m.lookup other := by
  by_cases same : other = key
  · rw [if_pos same, same, AList.lookup_insert]
  · rw [if_neg same, AList.lookup_insert_ne same]

theorem lookup_erase_eq (key other : Key) (m : KeyMap Key Value) :
    (m.erase key).lookup other = if other = key then none else m.lookup other := by
  by_cases same : other = key
  · rw [if_pos same, same, AList.lookup_erase]
  · rw [if_neg same, AList.lookup_erase_ne same]

theorem lookup_emplace_of_notMem {key : Key} {m : KeyMap Key Value} (fresh : key ∉ m)
    (other : Key) (value : Value) :
    (emplace key value m).lookup other = if other = key then some value else m.lookup other := by
  rw [emplace, if_neg fresh, lookup_insert_eq]

theorem lookup_emplace_ne {key other : Key} (different : other ≠ key) (value : Value)
    (m : KeyMap Key Value) : (emplace key value m).lookup other = m.lookup other := by
  unfold emplace
  split_ifs
  · rfl
  · exact AList.lookup_insert_ne different

theorem erase_of_notMem {key : Key} {m : KeyMap Key Value} (absent : key ∉ m) : m.erase key = m :=
  AList.ext (List.kerase_of_notMem_keys absent)

theorem mem_iff_lookup {key : Key} {m : KeyMap Key Value} :
    key ∈ m ↔ ∃ value, m.lookup key = some value := by
  rw [← AList.lookup_isSome, Option.isSome_iff_exists]

theorem lookup_of_size_eq_zero {m : KeyMap Key Value} (empty : size m = 0) (key : Key) :
    m.lookup key = none := by
  rw [AList.lookup_eq_none, AList.mem_keys, List.length_eq_zero_iff.mp empty]
  exact List.not_mem_nil

omit [DecidableEq Key] in
theorem exists_mem_of_size_ne_zero {m : KeyMap Key Value} (nonempty : size m ≠ 0) :
    ∃ key, key ∈ m := by
  obtain ⟨key, member⟩ := List.exists_mem_of_length_pos (Nat.pos_of_ne_zero nonempty)
  exact ⟨key, member⟩

omit [DecidableEq Key] in
theorem size_of_forall_notMem {m : KeyMap Key Value} (none : ∀ key, key ∉ m) : size m = 0 := by
  have empty : m.keys = [] := List.eq_nil_iff_forall_not_mem.mpr none
  rw [size, empty, List.length_nil]

theorem size_emplace_of_mem {key : Key} {m : KeyMap Key Value} (present : key ∈ m)
    (value : Value) : size (emplace key value m) = size m := by
  rw [emplace, if_pos present]

theorem size_emplace {key : Key} {m : KeyMap Key Value} (fresh : key ∉ m) (value : Value) :
    size (emplace key value m) = size m + 1 := by
  rw [size, emplace, if_neg fresh, AList.keys_insert, List.length_cons,
    List.erase_of_not_mem fresh, size]

theorem size_erase {key : Key} {m : KeyMap Key Value} (member : key ∈ m) :
    size (m.erase key) + 1 = size m := by
  have positive : 0 < m.keys.length := List.length_pos_of_mem member
  rw [size, AList.keys_erase, List.length_erase_of_mem member, size]
  omega

omit [DecidableEq Key] in
/-- Maps with the same keys have the same number of entries. -/
theorem size_eq_of_mem_iff {first : KeyMap Key Value} {second : KeyMap Key Other}
    (same : ∀ key, key ∈ first ↔ key ∈ second) : size first = size second := by
  apply List.Perm.length_eq
  apply (List.perm_ext_iff_of_nodup first.keys_nodup second.keys_nodup).mpr
  intro key
  rw [← AList.mem_keys, ← AList.mem_keys]
  exact same key

section CountValues

variable {holds : Value → Bool} {key : Key} {value : Value} {m : KeyMap Key Value}

omit [DecidableEq Key] in
/-- The number of keys whose value passes the test. -/
def countValues (holds : Value → Bool) (m : KeyMap Key Value) : Nat :=
  m.entries.countP (fun entry => holds entry.2)

theorem count_values_insert (key : Key) (value : Value) (m : KeyMap Key Value) :
    countValues holds (m.insert key value) =
      countValues holds (m.erase key) + if holds value then 1 else 0 := by
  rw [countValues, AList.entries_insert, List.countP_cons]
  rfl

theorem count_values_erase (found : m.lookup key = some value) :
    countValues holds m = countValues holds (m.erase key) + if holds value then 1 else 0 := by
  have member := AList.mem_lookup_iff.mp found
  obtain ⟨own, front, back, absent, split, erased⟩ :=
    List.exists_of_kerase (List.mem_keys_of_mem member)
  have same : own = value := by
    have alsoMember : (⟨key, own⟩ : Sigma fun _ : Key => Value) ∈ m.entries := by
      rw [split]
      exact List.mem_append_right front List.mem_cons_self
    exact m.nodupKeys.eq_of_mk_mem alsoMember member
  have left : (m.erase key).entries = front ++ back := erased
  rw [countValues, countValues, left, split, List.countP_append, List.countP_append,
    List.countP_cons, same, Nat.add_assoc]

/-- Maps with the same values at every key count alike. -/
theorem count_values_congr {other : KeyMap Key Value} (same : ∀ key, other.lookup key = m.lookup key) :
    countValues holds other = countValues holds m := by
  have entries : other.entries.Perm m.entries :=
    List.lookup_ext other.nodupKeys m.nodupKeys (fun key value => by
      have at_key := same key
      unfold AList.lookup at at_key
      rw [at_key])
  exact entries.countP_eq _

theorem count_values_pos (found : m.lookup key = some value) (passes : holds value = true) :
    0 < countValues holds m := by
  rw [count_values_erase found, if_pos passes]
  exact Nat.succ_pos _

theorem exists_of_count_values_pos (positive : 0 < countValues holds m) :
    ∃ key value, m.lookup key = some value ∧ holds value = true := by
  obtain ⟨⟨key, value⟩, member, passes⟩ := List.countP_pos_iff.mp positive
  exact ⟨key, value, AList.mem_lookup_iff.mpr member, passes⟩

end CountValues

section History

variable {Event : Type w} {concerns : Event → Prop} {events : List Event}

/-- The event is the last one of those that matter. -/
def IsLast (concerns : Event → Prop) (events : List Event) (event : Event) : Prop :=
  ∃ before after, events = before ++ event :: after ∧ concerns event ∧
    ∀ later ∈ after, ¬ concerns later

theorem not_is_last_nil (event : Event) : ¬ IsLast concerns [] event := by
  rintro ⟨before, after, split, _⟩
  cases before <;> cases split

theorem is_last_append_of_concerns {next : Event} (matters : concerns next) (event : Event) :
    IsLast concerns (events ++ [next]) event ↔ event = next := by
  constructor
  · rintro ⟨before, after, split, _, rest⟩
    rcases List.eq_nil_or_concat after with empty | ⟨init, final, concat⟩
    · subst empty
      exact (List.append_singleton_inj.mp split).2.symm
    · subst concat
      rw [List.concat_eq_append] at split rest
      rw [← List.cons_append, ← List.append_assoc] at split
      have last := (List.append_singleton_inj.mp split).2
      subst last
      exact absurd matters (rest next (List.mem_append_right _ (List.mem_singleton_self next)))
  · intro same
    subst same
    exact ⟨events, [], rfl, matters, fun _ member => (by cases member)⟩

theorem is_last_append_of_other {next : Event} (other : ¬ concerns next) (event : Event) :
    IsLast concerns (events ++ [next]) event ↔ IsLast concerns events event := by
  constructor
  · rintro ⟨before, after, split, matters, rest⟩
    rcases List.eq_nil_or_concat after with empty | ⟨init, final, concat⟩
    · subst empty
      have last := (List.append_singleton_inj.mp split).2
      subst last
      exact absurd matters other
    · subst concat
      rw [List.concat_eq_append] at split rest
      rw [← List.cons_append, ← List.append_assoc] at split
      have front := (List.append_singleton_inj.mp split).1
      exact ⟨before, init, front, matters,
        fun later member => rest later (List.mem_append_left _ member)⟩
  · rintro ⟨before, after, split, matters, rest⟩
    refine ⟨before, after ++ [next], ?_, matters, ?_⟩
    · rw [split, List.append_assoc, List.cons_append]
    · intro later member
      rcases List.mem_append.mp member with earlier | last
      · exact rest later earlier
      · rw [List.mem_singleton.mp last]
        exact other

end History

end Finm327.Library.Maps
