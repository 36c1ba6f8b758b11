import Finm327.Hft.Answer
import Finm327.Hft.Correctness
import Finm327.Hft.TraceKernels

/-!
# The correctness bench checks itself

Transcribes the tests and the result of `main` of `hft/bench/correctness.cpp`: each payload is
read and answered twice, with the bench's own parser and `trace_AB`, and with a string stream
and sums in the order of the definition. What the generator draws is a parameter.
-/

namespace Finm327.Hft

open Finm327.Library.DecimalText
open Finm327.Library.ReadLoops
open Finm327.Library.Sums

/-- What a test prints. -/
structure TestLine where
  t : Nat
  cid : Int
  n : Int
  fastAns : Int
  refAns : Int
  parseMismatches : Nat
  ok : Bool
deriving DecidableEq

/-- `A_fast` and `B_fast`, which keep their values from one test to the next. -/
structure FastArrays where
  A : Array32
  B : Array32

def fillFast (array : Array32) (p : List UInt8) : Option (Array32 × List UInt8) :=
  (List.range (N * N)).foldlM (readAt parseInt) (array, p)

/-- Both ids, both sizes, both pairs of matrices. -/
def fastPass (arrays : FastArrays) (payload : List UInt8) :
    Option (Int32 × Int32 × FastArrays) := do
  let (cid, p) ← parseInt payload
  let (n, p) ← parseInt p
  let (A, p) ← fillFast arrays.A p
  let (B, _) ← fillFast arrays.B p
  return (cid, n, ⟨A, B⟩)

def referencePass (payload : List UInt8) : Option (Int × Int × (Nat → Int) × (Nat → Int)) := do
  let (cid, p) ← readInt payload
  let (n, p) ← readInt p
  let (A, p) ← readMatrix p
  let (B, _) ← readMatrix p
  return (cid, n, A, B)

def referenceTrace (A B : Nat → Int) : Int :=
  (List.range N).foldl (fun tr i =>
    (List.range N).foldl (fun tr k => tr + A (i * N + k) * B (k * N + i)) tr) 0

def mismatches (fast : Array32) (reference : Nat → Int) : Nat :=
  (List.range (N * N)).countP fun i => (fast i).toInt ≠ reference i

def selfTest (arrays : FastArrays) (t : Nat) (A B : Mat) : Option (FastArrays × TestLine) := do
  let payload := makePayload t A B
  let (cidF, nF, filled) ← fastPass arrays payload
  let ansFast := reduceMod (traceAB filled.A filled.B).toInt
  let (cidR, nR, refA, refB) ← referencePass payload
  let ansRef := reduceMod (referenceTrace refA refB)
  let parseMismatches := mismatches filled.A refA + mismatches filled.B refB
  let ok := cidF.toInt = cidR ∧ nF.toInt = nR ∧ ansFast = ansRef ∧ parseMismatches = 0
  return (filled, ⟨t, cidF.toInt, nF.toInt, ansFast, ansRef, parseMismatches, ok⟩)

/-- The loop of `main` from a test on: the lines that it prints. -/
def selfTests (draw : Nat → Mat × Mat) (arrays : FastArrays) (t : Nat) :
    Nat → Option (List TestLine)
  | 0 => some []
  | more + 1 => do
      let (arrays, line) ← selfTest arrays t (draw t).1 (draw t).2
      let lines ← selfTests draw arrays (t + 1) more
      return line :: lines

/-- The lines and the exit status. -/
def correctnessMain (draw : Nat → Mat × Mat) : Option (List TestLine × Int) := do
  let lines ← selfTests draw ⟨fun _ => 0, fun _ => 0⟩ 0 25
  let fails := lines.countP fun line => !line.ok
  return (lines, if fails = 0 then 0 else 1)

/-! ## The bench's own parser -/

theorem fill_fast_matrix {p q : List UInt8} {M : Mat}
    (reads : Reads parseInt p ((values M).map Int32.ofNat) q) (array : Array32) :
    ∃ filled, fillFast array p = some (filled, q) ∧
      ∀ j, j < N * N → filled j = Int32.ofNat (entry M j) := by
  use storedA ((values M).map Int32.ofNat) array
  constructor
  · unfold fillFast
    exact read_loop reads (by rw [List.length_range, length_map_values]) array
  · intro j inside
    exact stored_A_entry M array inside

theorem fast_pass_spec (arrays : FastArrays) {cid : Nat} (short : cid < 1000) (A B : Mat) :
    ∃ filled, fastPass arrays (makePayload cid A B) =
        some (Int32.ofNat cid, Int32.ofNat N, filled) ∧
      ∀ j, j < N * N → filled.A j = Int32.ofNat (entry A j) ∧
        filled.B j = Int32.ofNat (entry B j) := by
  obtain ⟨atB, readsHead, readsB⟩ := (bench_reads_payload short A B).split
  obtain ⟨atA, readsHeader, readsA⟩ := readsHead.split
  obtain ⟨atSize, header, readsSize⟩ := readsHeader.head
  obtain ⟨_, size, none⟩ := readsSize.head
  rw [none.stop] at size
  obtain ⟨filledA, ranA, entriesA⟩ := fill_fast_matrix readsA arrays.A
  obtain ⟨filledB, ranB, entriesB⟩ := fill_fast_matrix readsB arrays.B
  refine ⟨⟨filledA, filledB⟩, ?_, ?_⟩
  · rw [fastPass, header, Option.bind_eq_bind, Option.bind_some]
    dsimp only
    rw [size, Option.bind_eq_bind, Option.bind_some]
    dsimp only
    rw [ranA, Option.bind_some]
    dsimp only
    rw [ranB]
    rfl
  · intro j inside
    exact ⟨entriesA j inside, entriesB j inside⟩

theorem fast_answer (A B : Mat) {filled : FastArrays}
    (entries : ∀ j, j < N * N → filled.A j = Int32.ofNat (entry A j) ∧
      filled.B j = Int32.ofNat (entry B j)) :
    (traceAB filled.A filled.B).toInt = traceProduct A B := by
  rw [trace_AB_eq]
  apply trace_of_entries .scalar
  · intro j inside
    exact (entries j inside).1
  · intro j inside
    exact (entries (slotB j) (slot_B_lt inside)).2

/-! ## The stream and the definition -/

theorem reference_pass_spec {cid : Nat} (short : cid < 1000) (A B : Mat) :
    ∃ refA refB, referencePass (makePayload cid A B) = some ((cid : Int), (N : Int), refA, refB) ∧
      ∀ j, j < N * N → refA j = entry A j ∧ refB j = entry B j := by
  have spaces : ∀ c ∈ [newline], isSpace c = true :=
    List.forall_mem_singleton.mpr (by decide : isSpace newline = true)
  have header := read_int_number (show cid ≤ 2147483647 by omega) (List.forall_mem_nil _)
    (show isDigit newline = false by decide) (decimal N ++ newline ::
      (valuesText (values A) ++ newline :: (valuesText (values B) ++ [newline])))
  have size := read_int_number (show N ≤ 2147483647 by decide) spaces
    (show isDigit newline = false by decide)
    (valuesText (values A) ++ newline :: (valuesText (values B) ++ [newline]))
  obtain ⟨left, blank, readsA⟩ := reads_int_values (values A) (values_short A) spaces
    (newline :: (valuesText (values B) ++ [newline]))
  have blankToo : ∀ c ∈ left ++ [newline], isSpace c = true := by
    intro c member
    rcases List.mem_append.mp member with before | last
    · exact blank c before
    · exact spaces c last
  obtain ⟨rest, _, readsB⟩ := reads_int_values (values B) (values_short B) blankToo [newline]
  rw [List.append_assoc, List.singleton_append] at readsB
  have many := length_map_values Int.ofNat
  obtain ⟨refA, ranA, entriesA⟩ := read_matrix_spec readsA (many A)
  obtain ⟨refB, ranB, entriesB⟩ := read_matrix_spec readsB (many B)
  rw [List.nil_append] at header
  rw [List.singleton_append] at size ranA
  refine ⟨refA, refB, ?_, ?_⟩
  · rw [make_payload_text, referencePass, header, Option.bind_eq_bind, Option.bind_some]
    dsimp only
    rw [size, Option.bind_eq_bind, Option.bind_some]
    dsimp only
    rw [ranA, Option.bind_some]
    dsimp only
    rw [ranB]
    rfl
  · intro j inside
    exact ⟨entriesA j _ (map_values_get Int.ofNat inside),
      entriesB j _ (map_values_get Int.ofNat inside)⟩

theorem reference_answer (A B : Mat) {refA refB : Nat → Int}
    (entries : ∀ j, j < N * N → refA j = entry A j ∧ refB j = entry B j) :
    referenceTrace refA refB = traceProduct A B := by
  have flat : referenceTrace refA refB =
      (List.range (N * N)).foldl (fun tr j => tr + refA j * refB (slotB j)) 0 := by
    rw [← foldl_rows]
    apply List.foldl_ext
    intro tr i _
    apply List.foldl_ext
    intro tr k column
    rw [slot_B_eq (List.mem_range.mp column)]
  rw [flat, foldl_add, trace_product_eq]
  apply Finset.sum_congr rfl
  intro j member
  have inside := Finset.mem_range.mp member
  rw [(entries j inside).1, (entries (slotB j) (slot_B_lt inside)).2]

/-! ## Every test passes -/

theorem mismatches_none {fast : Array32} {reference : Nat → Int} (M : Mat)
    (entriesFast : ∀ j, j < N * N → fast j = Int32.ofNat (entry M j))
    (entries : ∀ j, j < N * N → reference j = entry M j) : mismatches fast reference = 0 := by
  unfold mismatches
  rw [List.countP_eq_zero]
  intro j member
  have inside := List.mem_range.mp member
  have value := (operand_of_nat .scalar (entry_lt M j)).1
  simp [entriesFast j inside, entries j inside, value]

/-- What a test prints when the two ways agree on everything. -/
def passingLine (t : Nat) (A B : Mat) : TestLine :=
  ⟨t, t, N, (traceProduct A B % MODULO : Nat), (traceProduct A B % MODULO : Nat), 0, true⟩

theorem self_test_spec (arrays : FastArrays) {t : Nat} (short : t < 1000) (A B : Mat) :
    ∃ filled, selfTest arrays t A B = some (filled, passingLine t A B) := by
  obtain ⟨filled, ranFast, entriesFast⟩ := fast_pass_spec arrays short A B
  obtain ⟨refA, refB, ranReference, entries⟩ := reference_pass_spec short A B
  use filled
  have answer : reduceMod (traceProduct A B : Int) = (traceProduct A B % MODULO : Nat) := by
    rw [reduce_mod_eq]
    rfl
  have idValue : (Int32.ofNat t).toInt = t := by
    have size : Int32.size = 2 ^ 32 := rfl
    rw [Int32.toInt_ofNat', size]
    exact Int.bmod_eq_of_le_mul_two (by omega) (by omega)
  have sizeValue : (Int32.ofNat N).toInt = N := by decide
  have sameA := mismatches_none A (fun j inside => (entriesFast j inside).1)
    (fun j inside => (entries j inside).1)
  have sameB := mismatches_none B (fun j inside => (entriesFast j inside).2)
    (fun j inside => (entries j inside).2)
  simp only [selfTest, ranFast, ranReference, fast_answer A B entriesFast,
    reference_answer A B entries, answer, idValue, sizeValue, sameA, sameB, passingLine,
    Option.bind_eq_bind, Option.bind_some, Option.pure_def, and_self, decide_true, Nat.add_zero]

theorem self_tests_spec (draw : Nat → Mat × Mat) (arrays : FastArrays) {t more : Nat}
    (short : t + more ≤ 1000) :
    selfTests draw arrays t more =
      some ((List.range more).map fun i => passingLine (t + i) (draw (t + i)).1 (draw (t + i)).2) := by
  induction more generalizing arrays t with
  | zero => rfl
  | succ more ih =>
      obtain ⟨filled, ran⟩ := self_test_spec arrays (show t < 1000 by omega) (draw t).1 (draw t).2
      have rest := ih filled (show t + 1 + more ≤ 1000 by omega)
      rw [selfTests, ran, Option.bind_eq_bind, Option.bind_some]
      dsimp only
      rw [rest, List.range_succ_eq_map]
      simp [Nat.add_right_comm t 1, Nat.add_assoc]

/-- Whatever the generator draws, the bench prints 25 lines that pass and exits with 0. -/
theorem correctness_main_passes (draw : Nat → Mat × Mat) :
    correctnessMain draw = some
      ((List.range 25).map fun t => passingLine t (draw t).1 (draw t).2, 0) := by
  have lines := self_tests_spec draw ⟨fun _ => 0, fun _ => 0⟩ (show 0 + 25 ≤ 1000 by decide)
  simp only [Nat.zero_add] at lines
  have passed : ((List.range 25).map fun t => passingLine t (draw t).1 (draw t).2).countP
      (fun line => !line.ok) = 0 := by
    rw [List.countP_map]
    exact List.countP_eq_zero.mpr fun t _ contrary => Bool.false_ne_true contrary
  simp only [correctnessMain, lines, passed, Option.bind_eq_bind, Option.bind_some, Option.pure_def,
    if_true]

end Finm327.Hft
