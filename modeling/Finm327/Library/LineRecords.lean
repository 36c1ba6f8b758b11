import Mathlib.Data.List.Infix

/-!
# Records of a fixed number of lines

A record is a text with a given number of line ends, the last of them at its end.
Records can be sent one after the other: a prefix of the stream with enough line
ends holds the whole first record, one that starts inside a record does not start
with that record.
-/

namespace Finm327.Library.LineRecords

variable {Byte : Type} [DecidableEq Byte] {stop : Byte} {lines : Nat}

structure IsRecord (stop : Byte) (lines : Nat) (text : List Byte) : Prop where
  count_stop : text.count stop = lines
  ends : ∃ body, text = body ++ [stop]

theorem IsRecord.count_lt {start left : List Byte} (record : IsRecord stop lines (start ++ left))
    (proper : left ≠ []) : start.count stop < lines := by
  obtain ⟨body, same⟩ := record.ends
  cases List.eq_nil_or_concat left with
  | inl none => exact absurd none proper
  | inr some =>
      obtain ⟨before, last, equal⟩ := some
      rw [List.concat_eq_append] at equal
      rw [equal, ← List.append_assoc] at same
      obtain ⟨_, final⟩ := List.append_inj' same rfl
      rw [← record.count_stop, equal, final, List.count_append, List.count_append,
        List.count_singleton_self]
      omega

theorem IsRecord.ne_nil {text : List Byte} (record : IsRecord stop lines text) : text ≠ [] := by
  obtain ⟨body, same⟩ := record.ends
  rw [same]
  exact List.append_ne_nil_of_right_ne_nil body (List.cons_ne_nil stop [])

theorem IsRecord.count_lt_of_initial {start text : List Byte} (record : IsRecord stop lines text)
    (initial : start <+: text) (proper : start ≠ text) : start.count stop < lines := by
  obtain ⟨left, same⟩ := initial
  apply IsRecord.count_lt (same ▸ record)
  intro none
  rw [none, List.append_nil] at same
  exact proper same

/-- Whatever starts the same stream and has the line ends of a record holds the record. -/
theorem IsRecord.prefix_of_count {text start whole : List Byte}
    (record : IsRecord stop lines text) (first : text <+: whole) (initial : start <+: whole)
    (enough : lines ≤ start.count stop) : text <+: start := by
  cases List.prefix_or_prefix_of_prefix initial first with
  | inr held => exact held
  | inl short =>
      by_cases whole : start = text
      · rw [whole]
      · have fewer := record.count_lt_of_initial short whole
        omega

/-- What follows the head of a record does not start with the record. -/
theorem IsRecord.not_prefix_shifted {head rest more : List Byte}
    (record : IsRecord stop lines (head ++ rest)) (inside : head.count stop = 0)
    (cut : head ≠ []) : ¬ head ++ rest <+: rest ++ more := by
  intro again
  have all : lines ≤ rest.count stop := by
    have total := record.count_stop
    rw [List.count_append, inside] at total
    omega
  have held := record.prefix_of_count again (List.prefix_append rest more) all
  have longer := held.length_le
  rw [List.length_append] at longer
  exact cut (List.eq_nil_of_length_eq_zero (by omega))

/-- The first byte of a record is its only one or leaves a record of the lines after it. -/
theorem IsRecord.tail {c : Byte} {rest : List Byte} (record : IsRecord stop lines (c :: rest)) :
    (rest = [] ∧ c = stop ∧ lines = 1) ∨
      ([c].count stop < lines ∧ IsRecord stop (lines - [c].count stop) rest) := by
  by_cases last : rest = []
  · subst last
    obtain ⟨body, same⟩ := record.ends
    have single : c = stop := by
      cases body with
      | nil => exact (List.cons.inj same).1
      | cons d body => exact absurd (List.cons.inj same).2.symm (List.concat_ne_nil stop body)
    have total := record.count_stop
    rw [single, List.count_singleton_self] at total
    exact .inl ⟨rfl, single, total.symm⟩
  · have fewer := IsRecord.count_lt (show IsRecord stop lines ([c] ++ rest) from record) last
    refine .inr ⟨fewer, ?_, ?_⟩
    · have total := record.count_stop
      rw [← List.singleton_append, List.count_append] at total
      omega
    · obtain ⟨body, same⟩ := record.ends
      cases body with
      | nil => exact absurd (List.cons.inj same).2 last
      | cons d body => exact ⟨body, (List.cons.inj same).2⟩

end Finm327.Library.LineRecords
