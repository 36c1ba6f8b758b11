import Finm327.Hft.Stream
import Finm327.Hft2026.Client

/-!
# The answer of the client of 2026

Column sums of the first matrix times row sums of the second give the sum of all
entries of the product. The machine words take sums and products of numbers to sums
and products of words, so the sizes matter only where a word is widened or read.
-/

namespace Finm327.Hft2026

open Finm327.Library.DecimalText
open Finm327.Library.ReadLoops
open Finm327.Library.Sums
open Finm327.Hft
open Function (update)

/-- The sum of all entries of the product. -/
def productSum (A B : Mat) : Nat := ∑ i, ∑ j, ∑ k, (A i k : Nat) * (B k j : Nat)

def column (M : Mat) (k : Nat) : Nat := ∑ i ∈ Finset.range N, entry M (i * N + k)

def row (M : Mat) (k : Nat) : Nat := ∑ j ∈ Finset.range N, entry M (k * N + j)

theorem product_sum_eq (A B : Mat) :
    productSum A B = ∑ k ∈ Finset.range N, column A k * row B k := by
  have columns : ∀ k : Fin N, column A k = ∑ i, (A i k : Nat) := by
    intro k
    rw [column, Finset.sum_range]
    exact Finset.sum_congr rfl fun i _ => entry_eq A i k
  have rows : ∀ k : Fin N, row B k = ∑ j, (B k j : Nat) := by
    intro k
    rw [row, Finset.sum_range]
    exact Finset.sum_congr rfl fun j _ => entry_eq B k j
  calc productSum A B = ∑ i, ∑ k, ∑ j, (A i k : Nat) * (B k j : Nat) :=
        Finset.sum_congr rfl fun i _ => Finset.sum_comm
    _ = ∑ k, ∑ i, ∑ j, (A i k : Nat) * (B k j : Nat) := Finset.sum_comm
    _ = ∑ k : Fin N, column A k * row B k := by
        apply Finset.sum_congr rfl
        intro k _
        rw [columns k, rows k, Finset.sum_mul_sum]
    _ = ∑ k ∈ Finset.range N, column A k * row B k :=
        (Finset.sum_range fun k => column A k * row B k).symm

theorem sum_entries_le {f : Nat → Nat} (small : ∀ t, f t < MODULO) :
    ∑ i ∈ Finset.range N, f i ≤ 128 * 996 := by
  have most : ∀ i ∈ Finset.range N, f i ≤ 996 := fun i _ => Nat.le_of_lt_succ (small i)
  have total := Finset.sum_le_card_nsmul _ _ _ most
  rw [Finset.card_range, smul_eq_mul] at total
  exact total

theorem column_le (M : Mat) (k : Nat) : column M k ≤ 128 * 996 :=
  sum_entries_le fun i => entry_lt M (i * N + k)

theorem row_le (M : Mat) (k : Nat) : row M k ≤ 128 * 996 :=
  sum_entries_le fun j => entry_lt M (k * N + j)

theorem sum_products_le (A B : Mat) :
    ∑ k ∈ Finset.range N, column A k * row B k ≤ 128 * (128 * 996 * (128 * 996)) := by
  have most : ∀ k ∈ Finset.range N, column A k * row B k ≤ 128 * 996 * (128 * 996) :=
    fun k _ => Nat.mul_le_mul (column_le A k) (row_le B k)
  have total := Finset.sum_le_card_nsmul _ _ _ most
  rw [Finset.card_range, smul_eq_mul] at total
  exact total

/-! ## Reading the matrices -/

/-- What is left of a matrix, and the text after it. -/
def textFrom (M : Mat) (rest : List UInt8) (t : Nat) : List UInt8 :=
  valuesText ((values M).drop t) ++ rest

theorem text_from_end (M : Mat) (rest : List UInt8) : textFrom M rest (N * N) = rest := by
  rw [textFrom, List.drop_of_length_le (length_values M).le]
  rfl

theorem parse_entry (M : Mat) {rest : List UInt8} (more : rest ≠ []) {t : Nat}
    (inside : t < N * N) :
    parseVal (textFrom M rest t) = some (Int32.ofNat (entry M t), textFrom M rest (t + 1)) := by
  have there : t < (values M).length := by
    rw [length_values]
    exact inside
  have value : (values M)[t] = entry M t := by
    have get := @values_get M t inside
    rw [List.getElem?_eq_getElem there] at get
    exact Option.some.inj get
  have short : entry M t < 1000 := (entry_lt M t).trans (by decide)
  rw [textFrom, List.drop_eq_getElem_cons there, value, values_text_cons, parseVal]
  exact parse_int_s1_number short space_separates (List.append_ne_nil_of_right_ne_nil _ more)

/-- The column sums over the first places. -/
def partialColumns (M : Mat) (t : Nat) : Array32 := fun k =>
  Int32.ofNat (∑ s ∈ Finset.range t, if s % N = k then entry M s else 0)

theorem partial_columns_step (M : Mat) (t : Nat) :
    update (partialColumns M t) (t % N) (partialColumns M t (t % N) + Int32.ofNat (entry M t)) =
      partialColumns M (t + 1) := by
  funext k
  by_cases here : k = t % N
  · rw [here, Function.update_self, partialColumns, partialColumns, Finset.sum_range_succ,
      if_pos rfl, Int32.ofNat_add]
  · rw [Function.update_of_ne here, partialColumns, partialColumns, Finset.sum_range_succ,
      if_neg (Ne.symm here), Nat.add_zero]

theorem partial_columns_all (M : Mat) {k : Nat} (below : k < N) :
    partialColumns M (N * N) k = Int32.ofNat (column M k) := by
  rw [partialColumns, sum_column _ _ below]
  rfl

theorem parse_columns_spec (M : Mat) {rest : List UInt8} (more : rest ≠ []) :
    parseColumns (valuesText (values M) ++ rest) = some (partialColumns M (N * N), rest) := by
  have flat : parseColumns (valuesText (values M) ++ rest) =
      (List.range (N * N)).foldlM (fun state t => addColumn state (t % N))
        (partialColumns M 0, textFrom M rest 0) := by
    unfold parseColumns
    apply foldlM_rows
    intro state i k below
    rw [Nat.mul_comm, Nat.mul_add_mod, Nat.mod_eq_of_lt below]
  have run := @foldlM_range _ (fun state t => addColumn state (t % N)) (N * N)
    (fun t => (partialColumns M t, textFrom M rest t)) (by
      intro t inside
      rw [addColumn, parse_entry M more inside, Option.bind_eq_bind, Option.bind_some]
      dsimp only
      rw [partial_columns_step]
      rfl)
  rw [flat, run, text_from_end]

theorem add_rows_spec (M : Mat) {rest : List UInt8} (more : rest ≠ []) {k : Nat} (below : k < N) :
    (List.range N).foldlM addRow (0, textFrom M rest (k * N)) =
      some (Int32.ofNat (row M k), textFrom M rest ((k + 1) * N)) := by
  have run := @foldlM_range _ addRow N
    (fun j => (Int32.ofNat (∑ i ∈ Finset.range j, entry M (k * N + i)), textFrom M rest (k * N + j)))
    (by
      intro j inside
      have place : k * N + j < N * N := by
        unfold N at *
        omega
      rw [addRow, parse_entry M more place, Option.bind_eq_bind, Option.bind_some]
      dsimp only
      rw [Finset.sum_range_succ, Int32.ofNat_add]
      rfl)
  rw [Nat.succ_mul]
  exact run

theorem widen_of_nat {n : Nat} (small : n < 2 ^ 31) : (Int32.ofNat n).toInt64 = Int64.ofNat n := by
  rw [← Int64.toInt_inj, Int32.toInt_toInt64, Int32.toInt_ofNat_of_lt small,
    Int64.toInt_ofNat_of_lt (by omega)]

theorem parse_checksum_spec (A B : Mat) {rest : List UInt8} (more : rest ≠ []) :
    parseChecksum (partialColumns A (N * N)) (valuesText (values B) ++ rest) =
      some (Int64.ofNat (productSum A B), rest) := by
  have run := @foldlM_range _ (addProduct (partialColumns A (N * N))) N
    (fun k => (Int64.ofNat (∑ i ∈ Finset.range k, column A i * row B i), textFrom B rest (k * N)))
    (by
      intro k below
      have left := (column_le A k).trans_lt (by decide : 128 * 996 < 2 ^ 31)
      have right := (row_le B k).trans_lt (by decide : 128 * 996 < 2 ^ 31)
      rw [addProduct, add_rows_spec B more below, Option.bind_eq_bind, Option.bind_some]
      dsimp only
      rw [partial_columns_all A below, widen_of_nat left, widen_of_nat right,
        Finset.sum_range_succ, Int64.ofNat_add, Int64.ofNat_mul]
      rfl)
  rw [text_from_end, ← product_sum_eq, Nat.zero_mul] at run
  exact run

/-! ## The header -/

theorem parse_cid_digits {text : List UInt8} (digits : ∀ c ∈ text, ∃ d, d < 10 ∧ c = digitByte d)
    {sep : UInt8} (separator : isDigit sep = false) (v : Nat) (rest : List UInt8) :
    parseCid (Int64.ofNat v) (text ++ sep :: rest) =
      some (Int64.ofNat (text.foldl (fun value c => value * 10 + (c.toNat - 48)) v),
        sep :: rest) := by
  induction text generalizing v with
  | nil =>
      rw [List.nil_append, parseCid, if_neg (by rw [separator]; simp)]
      rfl
  | cons c text ih =>
      obtain ⟨d, small, same⟩ := digits c List.mem_cons_self
      have byte : c.toNat = 48 + d := by rw [same, digit_byte_to_nat small]
      have digit : Int64.ofNat (48 + d) - 48 = Int64.ofNat d := by
        rw [Int64.ofNat_add, Int64.add_comm]
        exact Int64.add_sub_cancel _ _
      have value : Int64.ofNat v * 10 + (Int64.ofNat (48 + d) - 48) =
          Int64.ofNat (v * 10 + (48 + d - 48)) := by
        rw [digit, Nat.add_sub_cancel_left, Int64.ofNat_add, Int64.ofNat_mul]
        rfl
      rw [List.cons_append, parseCid, if_pos (same ▸ (digit_byte_is_digit small).1), byte, value,
        ih fun e member => digits e (List.mem_cons_of_mem c member), List.foldl_cons, byte]

theorem parse_cid_decimal (n : Nat) {sep : UInt8} (separator : isDigit sep = false)
    (rest : List UInt8) :
    parseCid 0 (decimal n ++ sep :: rest) = some (Int64.ofNat n, sep :: rest) := by
  have read := parse_cid_digits (decimal_digits n) separator 0 rest
  have value : (decimal n).foldl (fun value c => value * 10 + (c.toNat - 48)) 0 = n :=
    digits_value_decimal n
  rw [value] at read
  exact read

theorem skip_digits_text {text : List UInt8} (digits : ∀ c ∈ text, ∃ d, d < 10 ∧ c = digitByte d)
    {sep : UInt8} (separator : isDigit sep = false) (rest : List UInt8) :
    skipDigits (text ++ sep :: rest) = some (sep :: rest) := by
  induction text with
  | nil =>
      rw [List.nil_append, skipDigits, if_neg (by rw [separator]; simp)]
  | cons c text ih =>
      obtain ⟨d, small, same⟩ := digits c List.mem_cons_self
      rw [List.cons_append, skipDigits, if_pos (same ▸ (digit_byte_is_digit small).1)]
      exact ih fun e member => digits e (List.mem_cons_of_mem c member)

/-! ## The line that is sent -/

/-- The answer to a challenge. -/
def reply (challenge : Challenge) : List UInt8 :=
  decimal challenge.cid ++ [space] ++ decimal (productSum challenge.A challenge.B % MODULO) ++
    [newline]

theorem format_cid {n : Nat} (fits : n < 2 ^ 63) :
    formatInt (Int64.ofNat n).toInt = decimal n := by
  rw [Int64.toInt_ofNat_of_lt fits]
  rfl

theorem format_checksum {n : Nat} (fits : n < 2 ^ 63) :
    formatInt (Int64.ofNat n % MOD).toInt32.toInt = decimal (n % MODULO) := by
  have value : (Int64.ofNat n % MOD).toInt = ((n % MODULO : Nat) : Int) := by
    rw [Int64.toInt_mod, Int64.toInt_ofNat_of_lt fits]
    rfl
  have small : n % MODULO < 997 := Nat.mod_lt n (by decide)
  have narrow : (Int64.ofNat n % MOD).toInt32.toInt = ((n % MODULO : Nat) : Int) := by
    rw [Int64.toInt_toInt32, value]
    exact Int.bmod_eq_of_le_mul_two (by omega) (by omega)
  rw [narrow]
  rfl

/-- What is read is the challenge alone: the bytes after it play no part, and there may
be none. -/
theorem answer_line_spec (challenge : Challenge) (rest : List UInt8) :
    answerLine (challenge.text ++ rest) = some (reply challenge) := by
  have blank : isDigit newline = false := by decide
  have sum := (product_sum_eq challenge.A challenge.B).le.trans
    (sum_products_le challenge.A challenge.B)
  have text := payload_eq challenge.cid challenge.A challenge.B rest
  have cid := parse_cid_decimal challenge.cid blank
  have size := skip_digits_text (decimal_digits MATRIX_SIZE) blank
  have columns := parse_columns_spec challenge.A
    (List.cons_ne_nil newline (valuesText (values challenge.B) ++ newline :: rest))
  have checksum := parse_checksum_spec challenge.A challenge.B (List.cons_ne_nil newline rest)
  rw [answerLine, Challenge.text, text, cid, Option.bind_eq_bind, Option.bind_some]
  dsimp only
  rw [List.drop_succ_cons, List.drop_zero, size, Option.bind_eq_bind,
    Option.bind_some, List.drop_succ_cons, List.drop_zero, columns, Option.bind_eq_bind, Option.bind_some]
  dsimp only
  rw [List.drop_succ_cons, List.drop_zero, checksum, Option.bind_some]
  dsimp only
  rw [format_cid challenge.fits, format_checksum (sum.trans_lt (by decide))]
  rfl

end Finm327.Hft2026
