import Mathlib.Data.List.Basic
import Mathlib.Data.List.Induction

/-!
# The names that can be logged

Transcribes `decode` and the loop of `dump_escaped` of `hft/src/json.hpp`, through which `dump`
writes every string, with the default error handler. The code point that `decode` also keeps only
decides how a byte is written.
-/

namespace Finm327.Hft2026

def UTF8_ACCEPT : UInt8 := 0

def UTF8_REJECT : UInt8 := 1

/-- The kind of each byte, and then for each state and kind the next state. -/
def utf8d : List UInt8 := [
  0, 0, 0, 0, 0, 0, 0, 0, 0, 0, 0, 0, 0, 0, 0, 0, 0, 0, 0, 0, 0, 0, 0, 0, 0, 0, 0, 0, 0, 0, 0, 0,
  0, 0, 0, 0, 0, 0, 0, 0, 0, 0, 0, 0, 0, 0, 0, 0, 0, 0, 0, 0, 0, 0, 0, 0, 0, 0, 0, 0, 0, 0, 0, 0,
  0, 0, 0, 0, 0, 0, 0, 0, 0, 0, 0, 0, 0, 0, 0, 0, 0, 0, 0, 0, 0, 0, 0, 0, 0, 0, 0, 0, 0, 0, 0, 0,
  0, 0, 0, 0, 0, 0, 0, 0, 0, 0, 0, 0, 0, 0, 0, 0, 0, 0, 0, 0, 0, 0, 0, 0, 0, 0, 0, 0, 0, 0, 0, 0,
  1, 1, 1, 1, 1, 1, 1, 1, 1, 1, 1, 1, 1, 1, 1, 1, 9, 9, 9, 9, 9, 9, 9, 9, 9, 9, 9, 9, 9, 9, 9, 9,
  7, 7, 7, 7, 7, 7, 7, 7, 7, 7, 7, 7, 7, 7, 7, 7, 7, 7, 7, 7, 7, 7, 7, 7, 7, 7, 7, 7, 7, 7, 7, 7,
  8, 8, 2, 2, 2, 2, 2, 2, 2, 2, 2, 2, 2, 2, 2, 2, 2, 2, 2, 2, 2, 2, 2, 2, 2, 2, 2, 2, 2, 2, 2, 2,
  0xA, 0x3, 0x3, 0x3, 0x3, 0x3, 0x3, 0x3, 0x3, 0x3, 0x3, 0x3, 0x3, 0x4, 0x3, 0x3,
  0xB, 0x6, 0x6, 0x6, 0x5, 0x8, 0x8, 0x8, 0x8, 0x8, 0x8, 0x8, 0x8, 0x8, 0x8, 0x8,
  0x0, 0x1, 0x2, 0x3, 0x5, 0x8, 0x7, 0x1, 0x1, 0x1, 0x4, 0x6, 0x1, 0x1, 0x1, 0x1,
  1, 1, 1, 1, 1, 1, 1, 1, 1, 1, 1, 1, 1, 1, 1, 1, 1, 0, 1, 1, 1, 1, 1, 0, 1, 0, 1, 1, 1, 1, 1, 1,
  1, 2, 1, 1, 1, 1, 1, 2, 1, 2, 1, 1, 1, 1, 1, 1, 1, 1, 1, 1, 1, 1, 1, 2, 1, 1, 1, 1, 1, 1, 1, 1,
  1, 2, 1, 1, 1, 1, 1, 1, 1, 2, 1, 1, 1, 1, 1, 1, 1, 1, 1, 1, 1, 1, 1, 3, 1, 3, 1, 1, 1, 1, 1, 1,
  1, 3, 1, 1, 1, 1, 1, 3, 1, 3, 1, 1, 1, 1, 1, 1, 1, 3, 1, 1, 1, 1, 1, 1, 1, 1, 1, 1, 1, 1, 1, 1]

def decode (state byte : UInt8) : UInt8 :=
  let type := utf8d.getD byte.toNat 0
  utf8d.getD (256 + state.toNat * 16 + type.toNat) 0

/-- Whether the loop and the test after it come to their end: `type_error` 316 is thrown at the
first byte that cannot follow, or at the end of a string that stops within a character. -/
def dumpLoop : UInt8 → List UInt8 → Bool
  | state, [] => state = UTF8_ACCEPT
  | state, byte :: s =>
      let state := decode state byte
      if state = UTF8_REJECT then false else dumpLoop state s

def dumpEscaped (s : List UInt8) : Bool := dumpLoop UTF8_ACCEPT s

/-! ## The states -/

/-- The state after the first byte of a character, by the number of bytes that follow and the
range the next one must be in. -/
def firstState (byte : Nat) : UInt8 :=
  if byte < 0x80 then 0
  else if byte < 0xC2 then 1
  else if byte < 0xE0 then 2
  else if byte = 0xE0 then 4
  else if byte = 0xED then 5
  else if byte < 0xF0 then 3
  else if byte = 0xF0 then 6
  else if byte < 0xF4 then 7
  else if byte = 0xF4 then 8
  else 1

/-- In this state a byte from `low` to `high` must follow, and leads to `next`. -/
def Awaits (state : UInt8) (low high : Nat) (next : UInt8) : Prop :=
  ∀ byte : UInt8, decode state byte = if low ≤ byte.toNat ∧ byte.toNat ≤ high then next else 1

/-- The first part of the table. -/
def kindOf (byte : Nat) : Nat :=
  if byte < 0x80 then 0
  else if byte < 0x90 then 1
  else if byte < 0xA0 then 9
  else if byte < 0xC0 then 7
  else if byte < 0xC2 then 8
  else if byte < 0xE0 then 2
  else if byte = 0xE0 then 0xA
  else if byte = 0xED then 4
  else if byte < 0xF0 then 3
  else if byte = 0xF0 then 0xB
  else if byte < 0xF4 then 6
  else if byte = 0xF4 then 5
  else 8

/-- The cells of a state in the second part of the table. -/
def tableRow (state : UInt8) : List UInt8 :=
  (List.range 12).map fun kind => utf8d.getD (256 + state.toNat * 16 + kind) 0

/-- Cells with which a state awaits a byte from `low` to `high`. -/
def CellsAwait (cells : List UInt8) (low high : Nat) (next : UInt8) : Prop :=
  ∀ n < 256, cells.getD (kindOf n) 0 = if low ≤ n ∧ n ≤ high then next else 1

instance (cells : List UInt8) (low high : Nat) (next : UInt8) :
    Decidable (CellsAwait cells low high next) :=
  Nat.decidableBallLT 256 fun n _ =>
    cells.getD (kindOf n) 0 = if low ≤ n ∧ n ≤ high then next else 1

/-- What the table says, in one pass. -/
theorem table_entries :
    (∀ n < 256, kindOf n < 12 ∧ utf8d.getD n 0 = UInt8.ofNat (kindOf n)) ∧
    (tableRow 0 = [0, 1, 2, 3, 5, 8, 7, 1, 1, 1, 4, 6] ∧
      ∀ n < 256, [0, 1, 2, 3, 5, 8, 7, 1, 1, 1, 4, 6].getD (kindOf n) 0 = firstState n) ∧
    (tableRow 2 = [1, 0, 1, 1, 1, 1, 1, 0, 1, 0, 1, 1] ∧
      CellsAwait [1, 0, 1, 1, 1, 1, 1, 0, 1, 0, 1, 1] 0x80 0xBF 0) ∧
    (tableRow 3 = [1, 2, 1, 1, 1, 1, 1, 2, 1, 2, 1, 1] ∧
      CellsAwait [1, 2, 1, 1, 1, 1, 1, 2, 1, 2, 1, 1] 0x80 0xBF 2) ∧
    (tableRow 4 = [1, 1, 1, 1, 1, 1, 1, 2, 1, 1, 1, 1] ∧
      CellsAwait [1, 1, 1, 1, 1, 1, 1, 2, 1, 1, 1, 1] 0xA0 0xBF 2) ∧
    (tableRow 5 = [1, 2, 1, 1, 1, 1, 1, 1, 1, 2, 1, 1] ∧
      CellsAwait [1, 2, 1, 1, 1, 1, 1, 1, 1, 2, 1, 1] 0x80 0x9F 2) ∧
    (tableRow 6 = [1, 1, 1, 1, 1, 1, 1, 3, 1, 3, 1, 1] ∧
      CellsAwait [1, 1, 1, 1, 1, 1, 1, 3, 1, 3, 1, 1] 0x90 0xBF 3) ∧
    (tableRow 7 = [1, 3, 1, 1, 1, 1, 1, 3, 1, 3, 1, 1] ∧
      CellsAwait [1, 3, 1, 1, 1, 1, 1, 3, 1, 3, 1, 1] 0x80 0xBF 3) ∧
    (tableRow 8 = [1, 3, 1, 1, 1, 1, 1, 1, 1, 1, 1, 1] ∧
      CellsAwait [1, 3, 1, 1, 1, 1, 1, 1, 1, 1, 1, 1] 0x80 0x8F 3) := by
  decide +kernel

theorem decode_eq (state byte : UInt8) :
    decode state byte = (tableRow state).getD (kindOf byte.toNat) 0 := by
  obtain ⟨small, entry⟩ := table_entries.1 byte.toNat byte.toNat_lt
  have type : (UInt8.ofNat (kindOf byte.toNat)).toNat = kindOf byte.toNat :=
    UInt8.toNat_ofNat_of_lt' (Nat.lt_trans small (by decide))
  unfold decode tableRow
  dsimp only
  rw [entry, type, List.getD_eq_getElem?_getD (l := List.map _ _), List.getElem?_map,
    List.getElem?_range small]
  rfl

theorem decode_accept (byte : UInt8) : decode 0 byte = firstState byte.toNat := by
  obtain ⟨own, all⟩ := table_entries.2.1
  rw [decode_eq, own, all byte.toNat byte.toNat_lt]

theorem awaits_of_cells {state next : UInt8} {low high : Nat} {cells : List UInt8}
    (entries : tableRow state = cells ∧ CellsAwait cells low high next) :
    Awaits state low high next := by
  intro byte
  rw [decode_eq, entries.1, entries.2 byte.toNat byte.toNat_lt]

theorem awaits_last : Awaits 2 0x80 0xBF 0 :=
  awaits_of_cells table_entries.2.2.1

theorem awaits_two : Awaits 3 0x80 0xBF 2 :=
  awaits_of_cells table_entries.2.2.2.1

theorem awaits_after_E0 : Awaits 4 0xA0 0xBF 2 :=
  awaits_of_cells table_entries.2.2.2.2.1

theorem awaits_after_ED : Awaits 5 0x80 0x9F 2 :=
  awaits_of_cells table_entries.2.2.2.2.2.1

theorem awaits_after_F0 : Awaits 6 0x90 0xBF 3 :=
  awaits_of_cells table_entries.2.2.2.2.2.2.1

theorem awaits_three : Awaits 7 0x80 0xBF 3 :=
  awaits_of_cells table_entries.2.2.2.2.2.2.2.1

theorem awaits_after_F4 : Awaits 8 0x80 0x8F 3 :=
  awaits_of_cells table_entries.2.2.2.2.2.2.2.2

theorem dump_loop_cons (state byte : UInt8) (s : List UInt8) :
    dumpLoop state (byte :: s) =
      if decode state byte = UTF8_REJECT then false else dumpLoop (decode state byte) s := rfl

section Awaiting

variable {state next : UInt8} {low high : Nat}

theorem Awaits.feed (awaits : Awaits state low high next) (goes : next ≠ UTF8_REJECT)
    {byte : Nat} (s : List UInt8) (above : low ≤ byte) (below : byte ≤ high)
    (small : byte < 256) : dumpLoop state (UInt8.ofNat byte :: s) = dumpLoop next s := by
  have leads := awaits (UInt8.ofNat byte)
  rw [UInt8.toNat_ofNat_of_lt' small, if_pos ⟨above, below⟩] at leads
  rw [dump_loop_cons, leads, if_neg goes]

/-- A string that is written goes on with such a byte. -/
theorem Awaits.next_byte (awaits : Awaits state low high next) (owed : state ≠ UTF8_ACCEPT)
    {s : List UInt8} (written : dumpLoop state s = true) :
    ∃ byte rest, s = byte :: rest ∧ low ≤ byte.toNat ∧ byte.toNat ≤ high ∧
      dumpLoop next rest = true := by
  cases s with
  | nil => exact absurd (of_decide_eq_true written) owed
  | cons byte rest =>
      have leads := awaits byte
      rw [dump_loop_cons] at written
      by_cases inside : low ≤ byte.toNat ∧ byte.toNat ≤ high
      · rw [if_pos inside] at leads
        rw [leads] at written
        split_ifs at written
        exact ⟨byte, rest, rfl, inside.1, inside.2, written⟩
      · rw [if_neg inside] at leads
        rw [leads] at written
        cases written

end Awaiting

/-! ## The characters -/

theorem first_state_two {byte : Nat} (above : 0xC2 ≤ byte) (below : byte < 0xE0) :
    firstState byte = 2 := by
  rw [firstState, if_neg (by omega), if_neg (by omega), if_pos below]

theorem first_state_three {byte : Nat} (above : 0xE0 < byte) (below : byte < 0xF0)
    (plain : byte ≠ 0xED) : firstState byte = 3 := by
  rw [firstState, if_neg (by omega), if_neg (by omega), if_neg (by omega), if_neg (by omega),
    if_neg plain, if_pos below]

theorem first_state_four {byte : Nat} (above : 0xF0 < byte) (below : byte < 0xF4) :
    firstState byte = 7 := by
  rw [firstState, if_neg (by omega), if_neg (by omega), if_neg (by omega), if_neg (by omega),
    if_neg (by omega), if_neg (by omega), if_neg (by omega), if_pos below]

theorem dump_loop_first {byte : Nat} (state : UInt8) (s : List UInt8) (small : byte < 256)
    (leads : firstState byte = state) (goes : state ≠ UTF8_REJECT) :
    dumpLoop UTF8_ACCEPT (UInt8.ofNat byte :: s) = dumpLoop state s := by
  have reads := decode_accept (UInt8.ofNat byte)
  rw [UInt8.toNat_ofNat_of_lt' small, leads] at reads
  rw [dump_loop_cons, UTF8_ACCEPT, reads, if_neg goes]

/-- A character is written, whatever follows it. -/
theorem dump_loop_char (c : Char) (s : List UInt8) :
    dumpLoop UTF8_ACCEPT (String.utf8EncodeChar c ++ s) = dumpLoop UTF8_ACCEPT s := by
  have scalar : c.val.toNat < 0xD800 ∨ 0xDFFF < c.val.toNat ∧ c.val.toNat < 0x110000 := c.valid
  unfold String.utf8EncodeChar
  dsimp only
  generalize c.val.toNat = v at scalar ⊢
  split_ifs with one two three
  · exact dump_loop_first _ s (by omega) (if_pos (by omega)) (by decide)
  · rw [List.cons_append, List.cons_append, List.nil_append,
      dump_loop_first _ _ (by omega) (first_state_two (by omega) (by omega)) (by decide),
      awaits_last.feed (by decide) s (by omega) (by omega) (by omega), UTF8_ACCEPT]
  · -- The first byte decides which second bytes are allowed.
    have ends : dumpLoop 2 (UInt8.ofNat (v % 64 + 0x80) :: s) = dumpLoop UTF8_ACCEPT s :=
      awaits_last.feed (by decide) s (by omega) (by omega) (by omega)
    rw [List.cons_append, List.cons_append, List.cons_append, List.nil_append]
    by_cases low : v / 4096 % 16 = 0
    · rw [low, dump_loop_first 4 _ (by omega) rfl (by decide),
        awaits_after_E0.feed (by decide) _ (by omega) (by omega) (by omega), ends]
    · by_cases surrogate : v / 4096 % 16 = 13
      · rw [surrogate, dump_loop_first 5 _ (by omega) rfl (by decide),
          awaits_after_ED.feed (by decide) _ (by omega) (by omega) (by omega), ends]
      · rw [dump_loop_first _ _ (by omega) (first_state_three (by omega) (by omega) (by omega))
            (by decide),
          awaits_two.feed (by decide) _ (by omega) (by omega) (by omega), ends]
  · have ends : dumpLoop 3 (UInt8.ofNat (v / 64 % 64 + 0x80) :: UInt8.ofNat (v % 64 + 0x80) :: s) =
        dumpLoop UTF8_ACCEPT s := by
      rw [awaits_two.feed (by decide) _ (by omega) (by omega) (by omega)]
      exact awaits_last.feed (by decide) s (by omega) (by omega) (by omega)
    rw [List.cons_append, List.cons_append, List.cons_append, List.cons_append, List.nil_append]
    by_cases low : v / 262144 % 8 = 0
    · rw [low, dump_loop_first 6 _ (by omega) rfl (by decide),
        awaits_after_F0.feed (by decide) _ (by omega) (by omega) (by omega), ends]
    · by_cases high : v / 262144 % 8 = 4
      · rw [high, dump_loop_first 8 _ (by omega) rfl (by decide),
          awaits_after_F4.feed (by decide) _ (by omega) (by omega) (by omega), ends]
      · rw [dump_loop_first _ _ (by omega) (first_state_four (by omega) (by omega)) (by decide),
          awaits_three.feed (by decide) _ (by omega) (by omega) (by omega), ends]

theorem exists_char {v : Nat} (scalar : v < 0xD800 ∨ 0xDFFF < v ∧ v < 0x110000) :
    ∃ c : Char, c.val.toNat = v := by
  have code : (UInt32.ofNat v).toNat = v := UInt32.toNat_ofNat_of_lt' (by change v < 4294967296; omega)
  refine ⟨⟨UInt32.ofNat v, ?_⟩, code⟩
  change (UInt32.ofNat v).toNat < 0xD800 ∨ _
  rw [code]
  exact scalar

theorem byte_eq (byte : UInt8) {n : Nat} (same : n = byte.toNat) : UInt8.ofNat n = byte := by
  rw [same]
  exact UInt8.ofNat_toNat

theorem exists_char_one {a : UInt8} (below : a.toNat < 0x80) :
    ∃ c : Char, String.utf8EncodeChar c = [a] := by
  obtain ⟨c, code⟩ := exists_char (v := a.toNat) (.inl (by omega))
  refine ⟨c, ?_⟩
  unfold String.utf8EncodeChar
  rw [code]
  dsimp only
  rw [if_pos (by omega), byte_eq a rfl]

theorem exists_char_two {a b : UInt8} (above : 0xC2 ≤ a.toNat) (below : a.toNat < 0xE0)
    (low : 0x80 ≤ b.toNat) (high : b.toNat ≤ 0xBF) :
    ∃ c : Char, String.utf8EncodeChar c = [a, b] := by
  obtain ⟨c, code⟩ := exists_char (v := (a.toNat - 0xC0) * 64 + (b.toNat - 0x80)) (.inl (by omega))
  refine ⟨c, ?_⟩
  unfold String.utf8EncodeChar
  rw [code]
  dsimp only
  rw [if_neg (by omega), if_pos (by omega), byte_eq a (by omega),
    byte_eq b (by omega)]

theorem exists_char_three {a b c : UInt8} (above : 0xE0 ≤ a.toNat) (below : a.toNat < 0xF0)
    (low : 0x80 ≤ b.toNat) (high : b.toNat ≤ 0xBF) (plain : a.toNat = 0xE0 → 0xA0 ≤ b.toNat)
    (scalar : a.toNat = 0xED → b.toNat ≤ 0x9F) (lowToo : 0x80 ≤ c.toNat)
    (highToo : c.toNat ≤ 0xBF) : ∃ char : Char, String.utf8EncodeChar char = [a, b, c] := by
  obtain ⟨char, code⟩ := exists_char
    (v := (a.toNat - 0xE0) * 4096 + (b.toNat - 0x80) * 64 + (c.toNat - 0x80)) (by omega)
  refine ⟨char, ?_⟩
  unfold String.utf8EncodeChar
  rw [code]
  dsimp only
  rw [if_neg (by omega), if_neg (by omega), if_pos (by omega), byte_eq a (by omega),
    byte_eq b (by omega), byte_eq c (by omega)]

theorem exists_char_four {a b c d : UInt8} (above : 0xF0 ≤ a.toNat) (below : a.toNat ≤ 0xF4)
    (low : 0x80 ≤ b.toNat) (high : b.toNat ≤ 0xBF) (plain : a.toNat = 0xF0 → 0x90 ≤ b.toNat)
    (bounded : a.toNat = 0xF4 → b.toNat ≤ 0x8F) (lowThird : 0x80 ≤ c.toNat)
    (highThird : c.toNat ≤ 0xBF) (lowFourth : 0x80 ≤ d.toNat) (highFourth : d.toNat ≤ 0xBF) :
    ∃ char : Char, String.utf8EncodeChar char = [a, b, c, d] := by
  obtain ⟨char, code⟩ := exists_char
    (v := (a.toNat - 0xF0) * 262144 + (b.toNat - 0x80) * 4096 + (c.toNat - 0x80) * 64 +
      (d.toNat - 0x80)) (by omega)
  refine ⟨char, ?_⟩
  unfold String.utf8EncodeChar
  rw [code]
  dsimp only
  rw [if_neg (by omega), if_neg (by omega), if_neg (by omega), byte_eq a (by omega),
    byte_eq b (by omega), byte_eq c (by omega), byte_eq d (by omega)]

theorem Awaits.two_bytes {state : UInt8} {low high : Nat} (awaits : Awaits state low high 2)
    (owed : state ≠ UTF8_ACCEPT) {s : List UInt8} (written : dumpLoop state s = true) :
    ∃ b c rest, s = b :: c :: rest ∧ (low ≤ b.toNat ∧ b.toNat ≤ high) ∧
      (0x80 ≤ c.toNat ∧ c.toNat ≤ 0xBF) ∧ dumpLoop UTF8_ACCEPT rest = true := by
  obtain ⟨b, more, rfl, above, below, goes⟩ := awaits.next_byte owed written
  obtain ⟨c, rest, rfl, aboveToo, belowToo, ends⟩ := awaits_last.next_byte (by decide) goes
  exact ⟨b, c, rest, rfl, ⟨above, below⟩, ⟨aboveToo, belowToo⟩, ends⟩

theorem Awaits.three_bytes {state : UInt8} {low high : Nat} (awaits : Awaits state low high 3)
    (owed : state ≠ UTF8_ACCEPT) {s : List UInt8} (written : dumpLoop state s = true) :
    ∃ b c d rest, s = b :: c :: d :: rest ∧ (low ≤ b.toNat ∧ b.toNat ≤ high) ∧
      (0x80 ≤ c.toNat ∧ c.toNat ≤ 0xBF) ∧ (0x80 ≤ d.toNat ∧ d.toNat ≤ 0xBF) ∧
      dumpLoop UTF8_ACCEPT rest = true := by
  obtain ⟨b, more, rfl, above, below, goes⟩ := awaits.next_byte owed written
  obtain ⟨c, d, rest, rfl, third, fourth, ends⟩ := awaits_two.two_bytes (by decide) goes
  exact ⟨b, c, d, rest, rfl, ⟨above, below⟩, third, fourth, ends⟩

/-- After the first byte of a character of three bytes. -/
theorem written_three {first : Nat} {s : List UInt8} (above : 0xE0 ≤ first) (below : first < 0xF0)
    (written : dumpLoop (firstState first) s = true) :
    ∃ b c rest, s = b :: c :: rest ∧ (0x80 ≤ b.toNat ∧ b.toNat ≤ 0xBF) ∧
      (first = 0xE0 → 0xA0 ≤ b.toNat) ∧ (first = 0xED → b.toNat ≤ 0x9F) ∧
      (0x80 ≤ c.toNat ∧ c.toNat ≤ 0xBF) ∧ dumpLoop UTF8_ACCEPT rest = true := by
  by_cases low : first = 0xE0
  · rw [low] at written
    obtain ⟨b, c, rest, rfl, range, third, ends⟩ := awaits_after_E0.two_bytes (by decide) written
    exact ⟨b, c, rest, rfl, by omega, by omega, by omega, third, ends⟩
  · by_cases surrogate : first = 0xED
    · rw [surrogate] at written
      obtain ⟨b, c, rest, rfl, range, third, ends⟩ := awaits_after_ED.two_bytes (by decide) written
      exact ⟨b, c, rest, rfl, by omega, by omega, by omega, third, ends⟩
    · rw [first_state_three (by omega) below surrogate] at written
      obtain ⟨b, c, rest, rfl, range, third, ends⟩ := awaits_two.two_bytes (by decide) written
      exact ⟨b, c, rest, rfl, range, by omega, by omega, third, ends⟩

/-- After the first byte of a character of four bytes. -/
theorem written_four {first : Nat} {s : List UInt8} (above : 0xF0 ≤ first)
    (goes : firstState first ≠ UTF8_REJECT) (written : dumpLoop (firstState first) s = true) :
    ∃ b c d rest, s = b :: c :: d :: rest ∧ first ≤ 0xF4 ∧ (0x80 ≤ b.toNat ∧ b.toNat ≤ 0xBF) ∧
      (first = 0xF0 → 0x90 ≤ b.toNat) ∧ (first = 0xF4 → b.toNat ≤ 0x8F) ∧
      (0x80 ≤ c.toNat ∧ c.toNat ≤ 0xBF) ∧ (0x80 ≤ d.toNat ∧ d.toNat ≤ 0xBF) ∧
      dumpLoop UTF8_ACCEPT rest = true := by
  by_cases low : first = 0xF0
  · rw [low] at written
    obtain ⟨b, c, d, rest, rfl, range, third, fourth, ends⟩ :=
      awaits_after_F0.three_bytes (by decide) written
    exact ⟨b, c, d, rest, rfl, by omega, by omega, by omega, by omega, third, fourth, ends⟩
  · by_cases high : first = 0xF4
    · rw [high] at written
      obtain ⟨b, c, d, rest, rfl, range, third, fourth, ends⟩ :=
        awaits_after_F4.three_bytes (by decide) written
      exact ⟨b, c, d, rest, rfl, by omega, by omega, by omega, by omega, third, fourth, ends⟩
    · by_cases four : first < 0xF4
      · rw [first_state_four (by omega) four] at written
        obtain ⟨b, c, d, rest, rfl, range, third, fourth, ends⟩ :=
          awaits_three.three_bytes (by decide) written
        exact ⟨b, c, d, rest, rfl, by omega, range, by omega, by omega, third, fourth, ends⟩
      · rw [firstState, if_neg (by omega), if_neg (by omega), if_neg (by omega), if_neg (by omega),
          if_neg (by omega), if_neg (by omega), if_neg low, if_neg four, if_neg high] at goes
        exact absurd rfl goes

/-- What is written starts with a character. -/
theorem written_char {byte : UInt8} {s : List UInt8}
    (written : dumpLoop UTF8_ACCEPT (byte :: s) = true) :
    ∃ (char : Char) (rest : List UInt8), byte :: s = String.utf8EncodeChar char ++ rest ∧
      dumpLoop UTF8_ACCEPT rest = true := by
  rw [dump_loop_cons, UTF8_ACCEPT, decode_accept] at written
  split_ifs at written with refused
  by_cases one : byte.toNat < 0x80
  · obtain ⟨char, same⟩ := exists_char_one one
    rw [firstState, if_pos one] at written
    exact ⟨char, s, by rw [same]; rfl, written⟩
  · by_cases above : byte.toNat < 0xC2
    · rw [firstState, if_neg one, if_pos above] at refused
      exact absurd rfl refused
    · by_cases two : byte.toNat < 0xE0
      · rw [first_state_two (by omega) two] at written
        obtain ⟨b, rest, rfl, low, high, ends⟩ := awaits_last.next_byte (by decide) written
        obtain ⟨char, same⟩ := exists_char_two (by omega) two low high
        exact ⟨char, rest, by rw [same]; rfl, ends⟩
      · by_cases three : byte.toNat < 0xF0
        · obtain ⟨b, c, rest, rfl, range, plain, scalar, third, ends⟩ :=
            written_three (by omega) three written
          obtain ⟨char, same⟩ := exists_char_three (by omega) three range.1 range.2 plain scalar
            third.1 third.2
          exact ⟨char, rest, by rw [same]; rfl, ends⟩
        · obtain ⟨b, c, d, rest, rfl, bounded, range, plain, last, third, fourth, ends⟩ :=
            written_four (by omega) refused written
          obtain ⟨char, same⟩ := exists_char_four (by omega) bounded range.1 range.2 plain last
            third.1 third.2 fourth.1 fourth.2
          exact ⟨char, rest, by rw [same]; rfl, ends⟩

/-- The encoding of some characters. -/
def ValidUtf8 (s : List UInt8) : Prop :=
  ∃ chars : List Char, s = chars.flatMap String.utf8EncodeChar

/-- A string is written if and only if it is valid. -/
theorem dump_escaped_iff (s : List UInt8) : dumpEscaped s = true ↔ ValidUtf8 s := by
  constructor
  · intro written
    induction length : s.length using Nat.strongRecOn generalizing s with
    | ind n ih =>
        cases s with
        | nil => exact ⟨[], rfl⟩
        | cons byte s =>
            obtain ⟨char, rest, same, ends⟩ := written_char written
            have shorter : rest.length < n := by
              have sizes := congrArg List.length same
              have some : 0 < (String.utf8EncodeChar char).length :=
                List.length_pos_iff.mpr String.utf8EncodeChar_ne_nil
              rw [List.length_append] at sizes
              omega
            obtain ⟨chars, others⟩ := ih rest.length shorter rest ends rfl
            exact ⟨char :: chars, by rw [same, others, List.flatMap_cons]⟩
  · rintro ⟨chars, rfl⟩
    induction chars with
    | nil => rfl
    | cons char chars ih =>
        rw [dumpEscaped, List.flatMap_cons, dump_loop_char]
        exact ih

/-! ## Valid strings -/

theorem ValidUtf8.append {s t : List UInt8} (valid : ValidUtf8 s) (validToo : ValidUtf8 t) :
    ValidUtf8 (s ++ t) := by
  obtain ⟨chars, rfl⟩ := valid
  obtain ⟨more, rfl⟩ := validToo
  exact ⟨chars ++ more, List.flatMap_append.symm⟩

theorem valid_of_ascii {s : List UInt8} (ascii : ∀ byte ∈ s, byte.toNat < 0x80) : ValidUtf8 s := by
  induction s with
  | nil => exact ⟨[], rfl⟩
  | cons byte s ih =>
      obtain ⟨first, rest⟩ := List.forall_mem_cons.mp ascii
      obtain ⟨char, same⟩ := exists_char_one first
      exact ValidUtf8.append ⟨[char], by rw [List.flatMap_singleton, same]⟩ (ih rest)

/-- A character that ends in such a byte has no other. -/
theorem char_of_ascii_last {c : Char} {s : List UInt8} {byte : UInt8}
    (last : String.utf8EncodeChar c = s ++ [byte]) (ascii : byte.toNat < 0x80) : s = [] := by
  have ends : (String.utf8EncodeChar c).getLast? = some byte := by
    rw [last, List.getLast?_concat]
  have follows (n : Nat) : (UInt8.ofNat (n % 64 + 0x80)).toNat = n % 64 + 0x80 :=
    UInt8.toNat_ofNat_of_lt' (by change n % 64 + 0x80 < 256; omega)
  unfold String.utf8EncodeChar at ends last
  dsimp only at ends last
  generalize c.val.toNat = v at ends last
  have later := follows v
  split_ifs at ends last
  · exact (List.append_eq_singleton_iff.mp last.symm).elim (fun first => first.1)
      fun second => nomatch second.2
  all_goals
    simp only [List.getLast?_cons_cons, List.getLast?_singleton, Option.some.injEq] at ends
    rw [ends] at later
    omega

theorem ValidUtf8.of_append {s blanks : List UInt8} (valid : ValidUtf8 (s ++ blanks))
    (ascii : ∀ byte ∈ blanks, byte.toNat < 0x80) : ValidUtf8 s := by
  induction blanks using List.reverseRecOn with
  | nil => rwa [List.append_nil] at valid
  | append_singleton blanks byte ih =>
      obtain ⟨chars, same⟩ := valid
      refine ih ?_ fun other member => ascii other (List.mem_append_left _ member)
      rw [← List.append_assoc] at same
      induction chars using List.reverseRecOn with
      | nil => simp at same
      | append_singleton chars char _ =>
          refine ⟨chars, ?_⟩
          rw [List.flatMap_append, List.flatMap_singleton] at same
          obtain ⟨front, last, whole⟩ := (List.eq_nil_or_concat' _).resolve_left
            (String.utf8EncodeChar_ne_nil (c := char))
          rw [whole, ← List.append_assoc] at same
          obtain ⟨before, own⟩ := List.append_inj' same rfl
          have alone := char_of_ascii_last whole
            (List.singleton_injective own ▸ ascii byte (List.mem_append_right _ (by simp)))
          rw [before, alone, List.append_nil]

end Finm327.Hft2026
