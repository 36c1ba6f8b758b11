import Finm327.Hft.ClientNaive
import Finm327.Hft.Server

/-!
# Reading back the server's text

A matrix is sent as its entries in decimal, one space after each. Both parsers take
a number and leave the position after it; a whole matrix follows by induction over
the entries.
-/

namespace Finm327.Hft

open Finm327.Library.DecimalText
open Finm327.Library.ReadLoops

/-- Numbers as they stand in the text of a matrix. -/
def valuesText (values : List Nat) : List UInt8 := values.flatMap fun v => decimal v ++ [space]

theorem values_text_cons (v : Nat) (values : List Nat) (rest : List UInt8) :
    valuesText (v :: values) ++ rest = decimal v ++ space :: (valuesText values ++ rest) := by
  unfold valuesText
  simp only [List.flatMap_cons, List.append_assoc, List.cons_append, List.nil_append]

/-- The entries of a matrix in the order in which they are sent. -/
def values (M : Mat) : List Nat :=
  (List.finRange MATRIX_SIZE).flatMap fun i => (List.finRange MATRIX_SIZE).map fun j => (M i j : Nat)

/-- The entry with a given place in that order. -/
def entry (M : Mat) (t : Nat) : Nat :=
  if inside : t / MATRIX_SIZE < MATRIX_SIZE then
    M ⟨t / MATRIX_SIZE, inside⟩ ⟨t % MATRIX_SIZE, Nat.mod_lt t (by decide)⟩
  else 0

theorem mat_text_eq (M : Mat) : matText M = valuesText (values M) := by
  unfold matText valuesText values
  rw [List.flatMap_assoc]
  simp only [List.flatMap_map]

theorem entry_eq (M : Mat) (i j : Fin MATRIX_SIZE) : entry M (i * MATRIX_SIZE + j) = M i j := by
  have row : (i * MATRIX_SIZE + j : Nat) / MATRIX_SIZE = i := by
    rw [Nat.mul_comm, Nat.mul_add_div (by decide), Nat.div_eq_of_lt j.isLt, Nat.add_zero]
  have column : (i * MATRIX_SIZE + j : Nat) % MATRIX_SIZE = j := by
    rw [Nat.mul_comm, Nat.mul_add_mod, Nat.mod_eq_of_lt j.isLt]
  have inside : (i * MATRIX_SIZE + j : Nat) / MATRIX_SIZE < MATRIX_SIZE := by
    rw [row]
    exact i.isLt
  unfold entry
  rw [dif_pos inside]
  congr 2
  · exact Fin.ext row
  · exact Fin.ext column

theorem values_eq (M : Mat) : values M = (List.range (N * N)).map (entry M) :=
  fin_rows (entry_eq M)

theorem entry_lt (M : Mat) (t : Nat) : entry M t < MODULO := by
  unfold entry
  split
  · exact Fin.isLt _
  · decide

theorem values_short (M : Mat) : ∀ v ∈ values M, v < 1000 := by
  intro v member
  rw [values_eq, List.mem_map] at member
  obtain ⟨t, _, same⟩ := member
  have below := entry_lt M t
  unfold MODULO at below
  omega

/-! ## One number -/

theorem digit_of_digit_byte {d : Nat} (small : d < 10) : digitOf (digitByte d) = UInt32.ofNat d := by
  have all : ∀ d : Fin 10, digitOf (digitByte d) = UInt32.ofNat d := by decide
  exact all ⟨d, small⟩

theorem not_separator {d : Nat} (small : d < 10) : ¬ UInt32.ofNat d ≥ 10 := by
  have all : ∀ d : Fin 10, ¬ UInt32.ofNat d ≥ 10 := by decide
  exact all ⟨d, small⟩

theorem two_digits (a b : Nat) :
    UInt32.ofNat a * 10 + UInt32.ofNat b = UInt32.ofNat (a * 10 + b) := by
  rw [UInt32.ofNat_add, UInt32.ofNat_mul]
  rfl

theorem three_digits (a b c : Nat) :
    UInt32.ofNat a * 100 + UInt32.ofNat b * 10 + UInt32.ofNat c =
      UInt32.ofNat (a * 100 + b * 10 + c) := by
  rw [UInt32.ofNat_add, UInt32.ofNat_add, UInt32.ofNat_mul, UInt32.ofNat_mul]
  rfl

/-- A run of one to three digits, which may start with zeros, and what ends it: one
separator, of which the parser looks at none after three digits. -/
theorem parse_int_s1_digits {a : Nat} {digits : List Nat} (first : a < 10)
    (small : ∀ d ∈ digits, d < 10) (short : digits.length ≤ 2) {sep : UInt8}
    (separator : digits.length < 2 → digitOf sep ≥ 10) {rest : List UInt8}
    (more : digits = [] → rest ≠ []) :
    parseIntS1 ((a :: digits).map digitByte ++ sep :: rest) =
      some (Int32.ofNat (digits.foldl (fun v d => v * 10 + d) a), rest) := by
  cases digits with
  | nil =>
      obtain ⟨r, rest, same⟩ := List.exists_cons_of_ne_nil (more rfl)
      rw [same, List.map_singleton, List.singleton_append, parseIntS1,
        digit_of_digit_byte first, if_pos (separator (by decide))]
      rfl
  | cons b digits =>
      have second := small b List.mem_cons_self
      cases digits with
      | nil =>
          rw [List.map_cons, List.map_singleton, List.cons_append, List.singleton_append,
            parseIntS1, digit_of_digit_byte first, digit_of_digit_byte second,
            if_neg (not_separator second), if_pos (separator (Nat.lt_succ_self 1)), two_digits]
          rfl
      | cons c digits =>
          have third := small c (List.mem_cons_of_mem b List.mem_cons_self)
          have none : digits = [] := by
            rw [List.length_cons, List.length_cons] at short
            exact List.eq_nil_of_length_eq_zero (by omega)
          have value : (a * 10 + b) * 10 + c = a * 100 + b * 10 + c := by omega
          rw [none, List.map_cons, List.map_cons, List.map_singleton, List.cons_append,
            List.cons_append, List.singleton_append, parseIntS1, digit_of_digit_byte first,
            digit_of_digit_byte second, digit_of_digit_byte third,
            if_neg (not_separator second), if_neg (not_separator third), three_digits,
            List.foldl_cons, List.foldl_cons, List.foldl_nil, value]
          rfl

/-- After three digits the next byte is skipped, whatever it is. -/
theorem parse_int_s1_three {v : Nat} (long : 100 ≤ v) (short : v < 1000) (c : UInt8)
    (rest : List UInt8) : parseIntS1 (decimal v ++ c :: rest) = some (Int32.ofNat v, rest) := by
  rcases decimal_cases short with ⟨one, _⟩ | ⟨_, two, _⟩ | ⟨_, text⟩
  · omega
  · omega
  · have value : (v / 100 * 10 + v / 10 % 10) * 10 + v % 10 = v := by omega
    have small : ∀ d ∈ [v / 10 % 10, v % 10], d < 10 := by simp; omega
    have read := @parse_int_s1_digits (v / 100) [v / 10 % 10, v % 10] (by omega) small le_rfl c
      (by simp) rest (by simp)
    rw [List.foldl_cons, List.foldl_cons, List.foldl_nil, value] at read
    rw [text]
    exact read

/-- Only a single digit is read with the byte after its separator. -/
theorem parse_int_s1_decimal {v : Nat} (short : v < 1000) {sep : UInt8}
    (separator : digitOf sep ≥ 10) {rest : List UInt8} (more : v < 10 → rest ≠ []) :
    parseIntS1 (decimal v ++ sep :: rest) = some (Int32.ofNat v, rest) := by
  rcases decimal_cases short with ⟨one, text⟩ | ⟨two, twoToo, text⟩ | ⟨three, _⟩
  · rw [text]
    exact @parse_int_s1_digits v [] one (by simp) (by simp) sep (fun _ => separator) rest
      (fun _ => more one)
  · have value : v / 10 * 10 + v % 10 = v := by omega
    have small : ∀ d ∈ [v % 10], d < 10 := by simp; omega
    have read := @parse_int_s1_digits (v / 10) [v % 10] (by omega) small (by simp) sep
      (fun _ => separator) rest (by simp)
    rw [List.foldl_cons, List.foldl_nil, value] at read
    rw [text]
    exact read
  · exact parse_int_s1_three three short sep rest

theorem parse_int_s1_number {v : Nat} (short : v < 1000) {sep : UInt8}
    (separator : digitOf sep ≥ 10) {rest : List UInt8} (more : rest ≠ []) :
    parseIntS1 (decimal v ++ sep :: rest) = some (Int32.ofNat v, rest) :=
  parse_int_s1_decimal short separator fun _ => more

theorem space_separates : digitOf space ≥ 10 := by decide

theorem newline_separates : digitOf newline ≥ 10 := by decide

theorem values_text_ne_nil {values : List Nat} (some : values ≠ []) : valuesText values ≠ [] := by
  obtain ⟨v, values, rfl⟩ := List.exists_cons_of_ne_nil some
  simp [valuesText]

/-- A last number of one digit is read with the byte after its separator. -/
def lastReadable (values : List Nat) (rest : List UInt8) : Prop :=
  ∀ v ∈ values.getLast?, v < 10 → rest ≠ []

theorem last_readable_tail {v : Nat} {values : List Nat} {rest : List UInt8}
    (readable : lastReadable (v :: values) rest) :
    (v < 10 → valuesText values ++ rest ≠ []) ∧ lastReadable values rest := by
  cases values with
  | nil => exact ⟨readable v rfl, by simp [lastReadable]⟩
  | cons w values =>
      refine ⟨fun _ => List.append_ne_nil_of_left_ne_nil (values_text_ne_nil (by simp)) _, ?_⟩
      intro last member
      exact readable last (by rwa [List.getLast?_cons_cons])

theorem reads_values_last {values : List Nat} (short : ∀ v ∈ values, v < 1000) {rest : List UInt8}
    (readable : lastReadable values rest) :
    Reads parseIntS1 (valuesText values ++ rest) (values.map Int32.ofNat) rest := by
  induction values with
  | nil => exact .done rest
  | cons v values ih =>
      obtain ⟨more, readableTail⟩ := last_readable_tail readable
      rw [values_text_cons]
      apply Reads.one
      · exact parse_int_s1_decimal (short v List.mem_cons_self) space_separates more
      · exact ih (fun w member => short w (List.mem_cons_of_mem v member)) readableTail

theorem reads_values {values : List Nat} (short : ∀ v ∈ values, v < 1000) {rest : List UInt8}
    (more : rest ≠ []) :
    Reads parseIntS1 (valuesText values ++ rest) (values.map Int32.ofNat) rest :=
  reads_values_last short fun _ _ _ => more

/-! ## The same text through the stream operator -/

theorem digit_byte_is_digit {d : Nat} (small : d < 10) :
    isDigit (digitByte d) = true ∧ isSpace (digitByte d) = false ∧
      digitByte d ≠ 45 ∧ digitByte d ≠ 43 := by
  have all : ∀ d : Fin 10, isDigit (digitByte d) = true ∧ isSpace (digitByte d) = false ∧
    digitByte d ≠ 45 ∧ digitByte d ≠ 43 := by decide
  exact all ⟨d, small⟩

theorem decimal_is_digit (v : Nat) : ∀ c ∈ decimal v, isDigit c = true := by
  intro c member
  obtain ⟨d, small, same⟩ := decimal_digits v c member
  rw [same]
  exact (digit_byte_is_digit small).1

theorem read_magnitude_number (v : Nat) {sep : UInt8} (separator : isDigit sep = false)
    (rest : List UInt8) :
    readMagnitude (decimal v ++ sep :: rest) = some (v, sep :: rest) := by
  have digits := decimal_is_digit v
  have stop : ¬ isDigit sep = true := by rw [separator]; simp
  have taken : (decimal v ++ sep :: rest).takeWhile isDigit = decimal v := by
    rw [List.takeWhile_append_of_pos digits, List.takeWhile_cons_of_neg stop, List.append_nil]
  have left : (decimal v ++ sep :: rest).dropWhile isDigit = sep :: rest := by
    rw [List.dropWhile_append_of_pos digits, List.dropWhile_cons_of_neg stop]
  rw [readMagnitude, taken, left, if_neg (decimal_ne_nil v), digits_value_decimal]

/-- Blanks before the number are skipped and the separator after it stays. -/
theorem read_int_number {v : Nat} (fits : v ≤ 2147483647) {blanks : List UInt8}
    (skipped : ∀ c ∈ blanks, isSpace c = true) {sep : UInt8} (separator : isDigit sep = false)
    (rest : List UInt8) :
    readInt (blanks ++ (decimal v ++ sep :: rest)) = some ((v : Int), sep :: rest) := by
  obtain ⟨c, text, same⟩ := List.exists_cons_of_ne_nil (decimal_ne_nil v)
  have member : c ∈ decimal v := same ▸ List.mem_cons_self
  obtain ⟨d, small, equal⟩ := decimal_digits v c member
  have first := digit_byte_is_digit small
  rw [← equal] at first
  have read := read_magnitude_number v separator rest
  rw [same, List.cons_append] at read
  have stop : ¬ isSpace c = true := by rw [first.2.1]; simp
  have signed : readSigned (c :: (text ++ sep :: rest)) = some ((v : Int), sep :: rest) := by
    rw [readSigned, if_neg first.2.2.1, if_neg first.2.2.2, read]
    rfl
  rw [readInt, List.dropWhile_append_of_pos skipped, same, List.cons_append,
    List.dropWhile_cons_of_neg stop, signed]
  exact if_pos ⟨by omega, by omega⟩

end Finm327.Hft
