import Mathlib.Algebra.BigOperators.Fin
import Finm327.Hft.Decode

/-!
# The answer to a challenge

Both clients against the trace the challenge asks for. The naive client is right on
every payload. The fast client reads the challenge id with the parser for matrix
entries, which takes at most three digits, so it is right exactly for ids of at
most three digits.
-/

namespace Finm327.Hft

open Finm327.Library.DecimalText
open Finm327.Library.ReadLoops
open Finm327.Library.Sums

/-- The trace of the product. -/
def traceProduct (A B : Mat) : Nat := ∑ i, ∑ k, (A i k : Nat) * (B k i : Nat)

theorem reduce_mod_eq (tr : Int) : reduceMod tr = tr % 997 := by
  have first := @Int.tmod_eq_emod tr 997
  unfold reduceMod MOD
  rw [first, Int.tmod_eq_emod_of_nonneg]
  · split <;> omega
  · split <;> omega

theorem format_reduce_nat (tr : Nat) :
    formatInt (reduceMod (tr : Int)) = decimal (tr % MODULO) := by
  have same : reduceMod (tr : Int) = ((tr % MODULO : Nat) : Int) := by
    rw [reduce_mod_eq]
    rfl
  rw [same]
  rfl

/-- The trace over the places of the two texts. -/
theorem trace_product_eq (A B : Mat) :
    (traceProduct A B : Int) =
      ∑ j ∈ Finset.range (N * N), (entry A j : Int) * (entry B (slotB j) : Int) := by
  rw [← sum_rows, Finset.sum_range, traceProduct, Nat.cast_sum]
  apply Finset.sum_congr rfl
  intro i _
  rw [Finset.sum_range, Nat.cast_sum]
  apply Finset.sum_congr rfl
  intro k _
  have left : entry A (i * N + k) = A i k := entry_eq A i k
  have right : entry B (k * N + i) = B k i := entry_eq B k i
  rw [slot_B_eq k.isLt, left, right, Nat.cast_mul]

theorem payload_eq (cid : Nat) (A B : Mat) (stale : List UInt8) :
    payload cid A B ++ stale =
      decimal cid ++ newline :: (decimal MATRIX_SIZE ++ newline ::
        (valuesText (values A) ++ newline :: (valuesText (values B) ++ newline :: stale))) := by
  unfold payload
  rw [mat_text_eq, mat_text_eq]
  simp only [List.append_assoc, List.cons_append, List.nil_append]

/-! ## The naive client -/

/-- Each number is read from the separator before it. -/
theorem reads_int_values (values : List Nat) (short : ∀ v ∈ values, v < 1000)
    {blanks : List UInt8} (skipped : ∀ c ∈ blanks, isSpace c = true) (rest : List UInt8) :
    ∃ left, (∀ c ∈ left, isSpace c = true) ∧
      Reads readInt (blanks ++ (valuesText values ++ rest)) (values.map Int.ofNat)
        (left ++ rest) := by
  induction values generalizing blanks with
  | nil => exact ⟨blanks, skipped, .done _⟩
  | cons v values ih =>
      have small := short v List.mem_cons_self
      obtain ⟨left, spaces, reads⟩ := ih (fun w member => short w (List.mem_cons_of_mem v member))
        (List.forall_mem_singleton.mpr (by decide : isSpace space = true))
      refine ⟨left, spaces, ?_⟩
      rw [values_text_cons]
      apply Reads.one
      · exact read_int_number (by omega) skipped (by decide) _
      · exact reads

theorem read_matrix_spec {p q : List UInt8} {vs : List Int} (reads : Reads readInt p vs q)
    (many : vs.length = N * N) :
    ∃ filled, readMatrix p = some (filled, q) ∧ ∀ t v, vs[t]? = some v → filled t = v := by
  have flat : readMatrix p = (List.range (N * N)).foldlM (readAt readInt) (fun _ => 0, p) :=
    foldlM_rows (fun _ _ _ _ => rfl) _
  refine ⟨store (List.range (N * N)) vs fun _ => 0, ?_, ?_⟩
  · rw [flat]
    exact read_loop reads (by rw [List.length_range, many]) _
  · intro t v place
    obtain ⟨inside, _⟩ := List.getElem?_eq_some_iff.mp place
    exact store_get List.nodup_range (by rw [List.getElem?_range (by omega)]) place _

/-- The naive product, diagonal only, is the sum over the places of the two texts. -/
theorem naive_trace_eq (A B : Nat → Int) :
    (List.range N).foldl (fun tr i => tr + matrixProduct A B i i) 0 =
      ∑ j ∈ Finset.range (N * N), A j * B (slotB j) := by
  rw [foldl_add, ← sum_rows]
  apply Finset.sum_congr rfl
  intro i _
  rw [matrixProduct, foldl_add]
  apply Finset.sum_congr rfl
  intro k member
  rw [slot_B_eq (Finset.mem_range.mp member)]

theorem naive_answer_eq {cid : Nat} (fits : cid ≤ 2147483647) (A B : Mat) :
    naiveAnswer (payload cid A B) = some (decimal (traceProduct A B % MODULO)) := by
  have text := payload_eq cid A B []
  rw [List.append_nil] at text
  have header := read_int_number fits (show ∀ c ∈ ([] : List UInt8), isSpace c = true by simp)
    (show isDigit newline = false by decide)
    (decimal MATRIX_SIZE ++ newline :: (valuesText (values A) ++ newline ::
      (valuesText (values B) ++ newline :: [])))
  have size := read_int_number (show MATRIX_SIZE ≤ 2147483647 by decide)
    (List.forall_mem_singleton.mpr (by decide : isSpace newline = true))
    (show isDigit newline = false by decide)
    (valuesText (values A) ++ newline :: (valuesText (values B) ++ newline :: []))
  obtain ⟨left, spaces, readsA⟩ := reads_int_values (values A) (values_short A)
    (List.forall_mem_singleton.mpr (by decide : isSpace newline = true))
    (newline :: (valuesText (values B) ++ newline :: []))
  have spacesToo : ∀ c ∈ left ++ [newline], isSpace c = true := by
    intro c member
    rw [List.mem_append, List.mem_singleton] at member
    cases member with
    | inl before => exact spaces c before
    | inr last =>
        rw [last]
        decide
  obtain ⟨rest, _, readsB⟩ := reads_int_values (values B) (values_short B) spacesToo (newline :: [])
  have many := length_map_values Int.ofNat
  obtain ⟨filledA, ranA, entriesA⟩ := read_matrix_spec readsA (many A)
  rw [List.append_assoc, List.singleton_append] at readsB
  obtain ⟨filledB, ranB, entriesB⟩ := read_matrix_spec readsB (many B)
  have place : ∀ (M : Mat) t, t < N * N →
      ((values M).map Int.ofNat)[t]? = some (entry M t : Int) := by
    intro M t inside
    exact map_values_get Int.ofNat inside
  have trace : (List.range N).foldl (fun tr i => tr + matrixProduct filledA filledB i i) 0 =
      (traceProduct A B : Int) := by
    rw [naive_trace_eq, trace_product_eq]
    apply Finset.sum_congr rfl
    intro j member
    have inside := Finset.mem_range.mp member
    rw [entriesA j _ (place A j inside),
      entriesB (slotB j) _ (place B (slotB j) (slot_B_lt inside))]
  rw [List.nil_append] at header
  rw [List.singleton_append] at size ranA
  rw [naiveAnswer, text, header, Option.bind_eq_bind, Option.bind_some]
  dsimp only
  rw [size, Option.bind_eq_bind, Option.bind_some]
  dsimp only
  rw [ranA, Option.bind_some]
  dsimp only
  rw [ranB, Option.bind_some]
  dsimp only
  rw [trace, format_reduce_nat]
  rfl

/-! ## The fast client -/

theorem operand_of_nat (tier : Tier) {v : Nat} (small : v < MODULO) :
    (Int32.ofNat v).toInt = v ∧ tier.operand (Int32.ofNat v) = v := by
  have below : v < 997 := small
  have value : (Int32.ofNat v).toInt = v := by
    have size : Int32.size = 2 ^ 32 := rfl
    rw [Int32.toInt_ofNat', size]
    exact Int.bmod_eq_of_le_mul_two (by omega) (by omega)
  refine ⟨value, ?_⟩
  cases tier with
  | avx512 => rw [Tier.operand, value, max_eq_left (by omega)]
  | avx2 => rw [Tier.operand, value, max_eq_left (by omega)]
  | scalar => exact value

/-- What the fast client sends once the matrices are as the challenge has them. -/
theorem trace_of_entries (tier : Tier) {A B : Mat} {filledA filledB : Array32}
    (entriesA : ∀ j, j < N * N → filledA j = Int32.ofNat (entry A j))
    (entriesB : ∀ j, j < N * N → filledB j = Int32.ofNat (entry B (slotB j))) :
    (traceABT tier filledA filledB).toInt = traceProduct A B := by
  have bounded : ∀ (filled : Array32) (source : Nat → Nat) (M : Mat),
      (∀ j, j < N * N → filled j = Int32.ofNat (entry M (source j))) → Bounded filled := by
    intro filled source M entries j inside
    have below : entry M (source j) < 997 := entry_lt M (source j)
    rw [entries j inside, (operand_of_nat tier below).1]
    omega
  rw [trace_AB_T_eq tier (bounded filledA id A entriesA) (bounded filledB slotB B entriesB),
    trace_product_eq]
  apply Finset.sum_congr rfl
  intro j member
  have inside := Finset.mem_range.mp member
  rw [entriesA j inside, entriesB j inside, (operand_of_nat tier (entry_lt A j)).2,
    (operand_of_nat tier (entry_lt B (slotB j))).2]

theorem client_answer_of_header {tier : Tier} {useWorker : Bool} {oldA oldB filledA filledB : Array32}
    {recvbuf p q : List UInt8} {c n : Int32} (header : parseIntS1 recvbuf = some (c, p))
    (size : parseIntS1 p = some (n, q))
    (matrices : parseMatrices tier useWorker oldA oldB q = some (filledA, filledB)) :
    clientAnswer tier useWorker oldA oldB recvbuf =
      some (formatInt (reduceMod (traceABT tier filledA filledB).toInt)) := by
  rw [clientAnswer, header, Option.bind_eq_bind, Option.bind_some]
  dsimp only
  rw [size, Option.bind_eq_bind, Option.bind_some]
  dsimp only
  rw [matrices]
  rfl

theorem client_answer_eq (tier : Tier) (useWorker : Bool) {cid : Nat} (short : cid < 1000)
    (A B : Mat) (stale : List UInt8) (oldA oldB : Array32) :
    clientAnswer tier useWorker oldA oldB (payload cid A B ++ stale) =
      some (decimal (traceProduct A B % MODULO)) := by
  have header := parse_int_s1_number short newline_separates
    (show decimal MATRIX_SIZE ++ newline :: (valuesText (values A) ++ newline ::
      (valuesText (values B) ++ newline :: stale)) ≠ [] from
      List.append_ne_nil_of_right_ne_nil _ (List.cons_ne_nil _ _))
  have size := parse_int_s1_number (show MATRIX_SIZE < 1000 by decide) newline_separates
    (show valuesText (values A) ++ newline :: (valuesText (values B) ++ newline :: stale) ≠ [] from
      List.append_ne_nil_of_right_ne_nil _ (List.cons_ne_nil _ _))
  have ran := parse_matrices_text tier useWorker A B stale oldA oldB
  rw [payload_eq, client_answer_of_header header size ran, trace_of_entries tier, format_reduce_nat]
  · exact fun j inside => stored_A_entry A oldA inside
  · exact fun j inside => stored_B_entry B oldB inside

end Finm327.Hft
