import Finm327.Hft2026.Checksum
import Finm327.Library.CheckedLoops

/-!
# The checksum in every dimension

The sums of the client of 2026 and `computeChecksum` of `hftserver2026/main.cpp` and of
`tools/blast_server.cpp`, for matrices of any size. An `int` has to stay below `2 ^ 31` and a
`long long` below `2 ^ 63`, else there is no result; no number here is negative. The client adds
up columns and rows and reduces once, the servers reduce after every step.
-/

namespace Finm327.Hft2026

open Finm327.Library.CheckedLoops
open Finm327.Library.DecimalText
open Finm327.Hft
open Function (update)

abbrev SquareMat (n : Nat) := Fin n → Fin n → Fin MODULO

def int (x : Nat) : Option Nat := checked (2 ^ 31) x

def longLong (x : Nat) : Option Nat := checked (2 ^ 63) x

section Definitions

variable {n : Nat}

/-- `colA` after the loop over `A`. -/
def clientColumns (A : SquareMat n) : Option (Fin n → Nat) :=
  (List.finRange n).foldlM (fun colA i =>
    (List.finRange n).foldlM (fun colA k => (int (colA k + A i k)).map (update colA k)) colA)
    (fun _ => 0)

/-- The sum `s` of one row of `B`. -/
def clientRow (B : SquareMat n) (k : Fin n) : Option Nat :=
  (List.finRange n).foldlM (fun s j => int (s + B k j)) 0

def clientProduct (colA : Fin n → Nat) (B : SquareMat n) (checksum : Nat) (k : Fin n) :
    Option Nat := do
  let s ← clientRow B k
  let product ← longLong (colA k * s)
  longLong (checksum + product)

def clientChecksum (A B : SquareMat n) : Option Nat := do
  let _N ← int n
  let colA ← clientColumns A
  let checksum ← (List.finRange n).foldlM (clientProduct colA B) 0
  int (checksum % MODULO)

/-- `(rowC[j] + (int)((1LL * a * B[k][j]) % MODULO)) % MODULO`. -/
def reducedEntry (a b entry : Nat) : Option Nat := do
  let product ← longLong (1 * a * b)
  let reduced ← int (product % MODULO)
  let sum ← int (entry + reduced)
  return sum % MODULO

/-- The loop over `k`, which adds to a row of the product. -/
def addProducts (A B : SquareMat n) (i : Fin n) (rowC : Fin n → Nat) : Option (Fin n → Nat) :=
  (List.finRange n).foldlM (fun rowC k =>
    (List.finRange n).foldlM (fun rowC j =>
      (reducedEntry (A i k) (B k j) (rowC j)).map (update rowC j)) rowC) rowC

def addEntry (rowC : Fin n → Nat) (checksum : Nat) (j : Fin n) : Option Nat := do
  let sum ← int (checksum + rowC j)
  return sum % MODULO

/-- One pass over `i` in `hftserver2026/main.cpp`: the row starts as a new vector of zeros. -/
def serverRow (A B : SquareMat n) (checksum : Nat) (i : Fin n) : Option Nat := do
  let rowC ← addProducts A B i (fun _ => 0)
  (List.finRange n).foldlM (addEntry rowC) checksum

def computeChecksum (A B : SquareMat n) : Option Nat := do
  let _N ← int n
  (List.finRange n).foldlM (serverRow A B) 0

/-- One pass in `tools/blast_server.cpp`: the vector of the pass before is filled with zeros. -/
def blastRow (A B : SquareMat n) (state : Nat × (Fin n → Nat)) (i : Fin n) :
    Option (Nat × (Fin n → Nat)) := do
  let rowC ← addProducts A B i (fun _ => 0)
  let checksum ← (List.finRange n).foldlM (addEntry rowC) state.1
  return (checksum, rowC)

def blastComputeChecksum (A B : SquareMat n) : Option Nat := do
  let _N ← int n
  let state ← (List.finRange n).foldlM (blastRow A B) (0, fun _ => 0)
  return state.1

end Definitions

section Sums

variable {n : Nat}

/-- The sum of all entries of the product. -/
def entriesSum (A B : SquareMat n) : Nat := ∑ i, ∑ j, ∑ k, (A i k : Nat) * (B k j : Nat)

def columnSum (A : SquareMat n) (k : Fin n) : Nat := ∑ i, (A i k : Nat)

def rowSum (B : SquareMat n) (k : Fin n) : Nat := ∑ j, (B k j : Nat)

/-- The column sums, the row sums and the sum of their products fit their types. -/
structure StaysInRange (A B : SquareMat n) : Prop where
  size : n < 2 ^ 31
  columns : ∀ k, columnSum A k < 2 ^ 31
  rows : ∀ k, rowSum B k < 2 ^ 31
  checksum : ∑ k, columnSum A k * rowSum B k < 2 ^ 63

theorem sum_products_eq (A B : SquareMat n) :
    ∑ k, columnSum A k * rowSum B k = entriesSum A B := by
  calc ∑ k, columnSum A k * rowSum B k
      = ∑ k, ∑ i, ∑ j, (A i k : Nat) * (B k j : Nat) :=
        Finset.sum_congr rfl fun k _ => Finset.sum_mul_sum _ _ _ _
    _ = ∑ i, ∑ k, ∑ j, (A i k : Nat) * (B k j : Nat) := Finset.sum_comm
    _ = entriesSum A B := Finset.sum_congr rfl fun i _ => Finset.sum_comm

theorem sum_fin_range (f : Fin n → Nat) : ((List.finRange n).map f).sum = ∑ i, f i :=
  (Fin.sum_univ_def f).symm

theorem entry_sum_le (f : Fin n → Fin MODULO) : ∑ i, (f i : Nat) ≤ 996 * n := by
  have most : ∀ i ∈ Finset.univ, (f i : Nat) ≤ 996 := fun i _ => Nat.le_of_lt_succ (f i).isLt
  have total := Finset.sum_le_card_nsmul _ _ _ most
  rwa [Finset.card_univ, Fintype.card_fin, smul_eq_mul, Nat.mul_comm] at total

/-- Dimensions in which the accumulators cannot overflow. -/
theorem stays_in_range (sums : 996 * n < 2 ^ 31) (products : n * (996 * n * (996 * n)) < 2 ^ 63)
    (A B : SquareMat n) : StaysInRange A B where
  size := by omega
  columns := fun k => (entry_sum_le fun i => A i k).trans_lt sums
  rows := fun k => (entry_sum_le fun j => B k j).trans_lt sums
  checksum := by
    have most : ∀ k ∈ Finset.univ, columnSum A k * rowSum B k ≤ 996 * n * (996 * n) :=
      fun k _ => Nat.mul_le_mul (entry_sum_le fun i => A i k) (entry_sum_le fun j => B k j)
    have total := Finset.sum_le_card_nsmul _ _ _ most
    rw [Finset.card_univ, Fintype.card_fin, smul_eq_mul] at total
    exact total.trans_lt products

end Sums

/-! ## The client -/

section Client

variable {n : Nat}

theorem client_row_eq {B : SquareMat n} {k : Fin n} (fits : rowSum B k < 2 ^ 31) :
    clientRow B k = some (rowSum B k) := by
  have total : 0 + ((List.finRange n).map fun j => (B k j : Nat)).sum = rowSum B k := by
    rw [Nat.zero_add, sum_fin_range, rowSum]
  have run := foldlM_checked_add (fun j => (B k j : Nat)) (List.finRange n) (total ▸ fits)
  rw [total] at run
  exact run

/-- The loop over the rows of `A` adds to every column. -/
theorem columns_loop (A : SquareMat n) (rows : List (Fin n)) {start : Fin n → Nat}
    (fits : ∀ k, start k + (rows.map fun i => (A i k : Nat)).sum < 2 ^ 31) :
    rows.foldlM (fun colA i => (List.finRange n).foldlM (fun colA k =>
        (int (colA k + A i k)).map (update colA k)) colA) start =
      some (fun k => start k + (rows.map fun i => (A i k : Nat)).sum) := by
  induction rows generalizing start with
  | nil => rfl
  | cons i rows ih =>
      simp only [List.map_cons, List.sum_cons, ← Nat.add_assoc] at fits ⊢
      have row := @foldlM_update _ _ _ (fun k sum => int (sum + A i k)) (fun k => start k + A i k)
        (List.finRange n) (List.nodup_finRange n) start (by
          intro k _
          have room := fits k
          exact checked_of_lt (by omega))
      simp only [List.mem_finRange, if_true] at row
      rw [List.foldlM_cons, row, Option.bind_eq_bind, Option.bind_some]
      exact ih fits

theorem client_columns_eq {A : SquareMat n} (fits : ∀ k, columnSum A k < 2 ^ 31) :
    clientColumns A = some (columnSum A) := by
  have total : ∀ k, 0 + ((List.finRange n).map fun i => (A i k : Nat)).sum = columnSum A k := by
    intro k
    rw [Nat.zero_add, sum_fin_range, columnSum]
  have run := @columns_loop n A (List.finRange n) (fun _ => 0) (fun k => total k ▸ fits k)
  simp only [total] at run
  exact run

theorem client_product_eq {A B : SquareMat n} {k : Fin n} (fits : rowSum B k < 2 ^ 31)
    {checksum : Nat} (room : checksum + columnSum A k * rowSum B k < 2 ^ 63) :
    clientProduct (columnSum A) B checksum k = some (checksum + columnSum A k * rowSum B k) := by
  have product : longLong (columnSum A k * rowSum B k) = some (columnSum A k * rowSum B k) :=
    checked_of_lt (by omega)
  have sum : longLong (checksum + columnSum A k * rowSum B k) =
      some (checksum + columnSum A k * rowSum B k) := checked_of_lt room
  simp only [clientProduct, client_row_eq fits, product, sum, Option.bind_eq_bind,
    Option.bind_some]

theorem checksum_loop {A B : SquareMat n} (fits : ∀ k, rowSum B k < 2 ^ 31)
    (places : List (Fin n)) {start : Nat}
    (room : start + (places.map fun k => columnSum A k * rowSum B k).sum < 2 ^ 63) :
    places.foldlM (clientProduct (columnSum A) B) start =
      some (start + (places.map fun k => columnSum A k * rowSum B k).sum) := by
  induction places generalizing start with
  | nil => rfl
  | cons k places ih =>
      rw [List.map_cons, List.sum_cons, ← Nat.add_assoc] at room ⊢
      rw [List.foldlM_cons, client_product_eq (fits k) (by omega), Option.bind_eq_bind,
        Option.bind_some]
      exact ih room

theorem client_checksum_eq {A B : SquareMat n} (inRange : StaysInRange A B) :
    clientChecksum A B = some (entriesSum A B % MODULO) := by
  have total : 0 + ((List.finRange n).map fun k => columnSum A k * rowSum B k).sum =
      entriesSum A B := by
    rw [Nat.zero_add, sum_fin_range, sum_products_eq]
  have fits := inRange.checksum
  rw [sum_products_eq, ← total] at fits
  have run := checksum_loop inRange.rows (List.finRange n) fits
  have reduced : entriesSum A B % MODULO < 2 ^ 31 :=
    (Nat.mod_lt _ modulo_positive).trans (by decide)
  have size : int n = some n := checked_of_lt inRange.size
  have answer : int (entriesSum A B % MODULO) = some (entriesSum A B % MODULO) :=
    checked_of_lt reduced
  rw [total] at run
  simp only [clientChecksum, size, client_columns_eq inRange.columns, run, answer,
    Option.bind_eq_bind, Option.bind_some]

end Client

/-! ## The servers -/

section Servers

variable {n : Nat}

/-- One step of a row: the reductions on the way do not change the remainder. -/
theorem reduced_entry_eq (a b : Fin MODULO) (x : Nat) :
    reducedEntry a b (x % MODULO) = some ((x + a * b) % MODULO) := by
  have product : (1 * a * b : Nat) ≤ 996 * 996 := by
    rw [Nat.one_mul]
    exact Nat.mul_le_mul (Nat.le_of_lt_succ a.isLt) (Nat.le_of_lt_succ b.isLt)
  have small := Nat.mod_lt (1 * a * b : Nat) modulo_positive
  have entry := Nat.mod_lt x modulo_positive
  have size : MODULO = 997 := rfl
  have first : longLong (1 * a * b) = some (1 * a * b : Nat) := checked_of_lt (by omega)
  have second : int ((1 * a * b : Nat) % MODULO) = some ((1 * a * b : Nat) % MODULO) :=
    checked_of_lt (by omega)
  have third : int (x % MODULO + (1 * a * b : Nat) % MODULO) =
      some (x % MODULO + (1 * a * b : Nat) % MODULO) := checked_of_lt (by omega)
  simp only [reducedEntry, first, second, third, Option.bind_eq_bind, Option.bind_some]
  rw [← Nat.add_mod, Nat.one_mul]
  rfl

theorem add_products_loop (A B : SquareMat n) (i : Fin n) (places : List (Fin n))
    (x : Fin n → Nat) :
    places.foldlM (fun rowC k => (List.finRange n).foldlM (fun rowC j =>
        (reducedEntry (A i k) (B k j) (rowC j)).map (update rowC j)) rowC)
        (fun j => x j % MODULO) =
      some (fun j => (x j + (places.map fun k => (A i k : Nat) * B k j).sum) % MODULO) := by
  induction places generalizing x with
  | nil => rfl
  | cons k places ih =>
      have row := @foldlM_update _ _ _ (fun j entry => reducedEntry (A i k) (B k j) entry)
        (fun j => (x j + A i k * B k j) % MODULO) (List.finRange n) (List.nodup_finRange n)
        (fun j => x j % MODULO) (fun j _ => reduced_entry_eq (A i k) (B k j) (x j))
      simp only [List.mem_finRange, if_true] at row
      simp only [List.map_cons, List.sum_cons, ← Nat.add_assoc]
      rw [List.foldlM_cons, row, Option.bind_eq_bind, Option.bind_some]
      exact ih fun j => x j + A i k * B k j

/-- A row of the product, reduced. -/
theorem add_products_eq (A B : SquareMat n) (i : Fin n) :
    addProducts A B i (fun _ => 0) =
      some (fun j => (∑ k, (A i k : Nat) * B k j) % MODULO) := by
  have run := add_products_loop A B i (List.finRange n) (fun _ => 0)
  simp only [Nat.zero_add, sum_fin_range] at run
  exact run

theorem add_entry_eq (x : Fin n → Nat) (checksum : Nat) (j : Fin n) :
    addEntry (fun j => x j % MODULO) (checksum % MODULO) j =
      some ((checksum + x j) % MODULO) := by
  have first := Nat.mod_lt checksum modulo_positive
  have second := Nat.mod_lt (x j) modulo_positive
  have size : MODULO = 997 := rfl
  have sum : int (checksum % MODULO + x j % MODULO) =
      some (checksum % MODULO + x j % MODULO) := checked_of_lt (by omega)
  rw [addEntry, sum, Option.bind_eq_bind, Option.bind_some, ← Nat.add_mod]
  rfl

theorem add_entries_loop (x : Fin n → Nat) (places : List (Fin n)) (start : Nat) :
    places.foldlM (addEntry fun j => x j % MODULO) (start % MODULO) =
      some ((start + (places.map x).sum) % MODULO) := by
  induction places generalizing start with
  | nil => rfl
  | cons j places ih =>
      rw [List.map_cons, List.sum_cons, ← Nat.add_assoc, List.foldlM_cons, add_entry_eq,
        Option.bind_eq_bind, Option.bind_some]
      exact ih (start + x j)

theorem server_row_eq (A B : SquareMat n) (start : Nat) (i : Fin n) :
    serverRow A B (start % MODULO) i =
      some ((start + ∑ j, ∑ k, (A i k : Nat) * B k j) % MODULO) := by
  rw [serverRow, add_products_eq, Option.bind_eq_bind, Option.bind_some, add_entries_loop,
    sum_fin_range]

theorem compute_loop (A B : SquareMat n) (places : List (Fin n)) (start : Nat) :
    places.foldlM (serverRow A B) (start % MODULO) =
      some ((start + (places.map fun i => ∑ j, ∑ k, (A i k : Nat) * B k j).sum) % MODULO) := by
  induction places generalizing start with
  | nil => rfl
  | cons i places ih =>
      rw [List.map_cons, List.sum_cons, ← Nat.add_assoc, List.foldlM_cons, server_row_eq,
        Option.bind_eq_bind, Option.bind_some]
      exact ih _

theorem compute_checksum_eq (A B : SquareMat n) (size : n < 2 ^ 31) :
    computeChecksum A B = some (entriesSum A B % MODULO) := by
  have run := compute_loop A B (List.finRange n) 0
  rw [Nat.zero_add, sum_fin_range] at run
  have allocated : int n = some n := checked_of_lt size
  rw [computeChecksum, allocated, Option.bind_eq_bind, Option.bind_some]
  exact run

/-- Filling one vector again is as good as a new one. -/
theorem blast_row_eq (A B : SquareMat n) (state : Nat × (Fin n → Nat)) (i : Fin n) :
    (blastRow A B state i).map Prod.fst = serverRow A B state.1 i := by
  unfold blastRow serverRow
  cases addProducts A B i (fun _ => 0) with
  | none => rfl
  | some rowC =>
      simp only [Option.bind_eq_bind, Option.bind_some]
      cases (List.finRange n).foldlM (addEntry rowC) state.1 with
      | none => rfl
      | some checksum => rfl

theorem blast_loop (A B : SquareMat n) (places : List (Fin n)) (state : Nat × (Fin n → Nat)) :
    (places.foldlM (blastRow A B) state).map Prod.fst =
      places.foldlM (serverRow A B) state.1 := by
  induction places generalizing state with
  | nil => rfl
  | cons i places ih =>
      rw [List.foldlM_cons, List.foldlM_cons, ← blast_row_eq]
      cases blastRow A B state i with
      | none => rfl
      | some next => exact ih next

theorem blast_compute_checksum_eq (A B : SquareMat n) :
    blastComputeChecksum A B = computeChecksum A B := by
  unfold blastComputeChecksum computeChecksum
  cases int n with
  | none => rfl
  | some size =>
      simp only [Option.bind_eq_bind, Option.bind_some]
      rw [← blast_loop A B (List.finRange n) (0, fun _ => 0)]
      cases (List.finRange n).foldlM (blastRow A B) (0, fun _ => 0) with
      | none => rfl
      | some state => rfl

end Servers

/-- The three ways to compute it have the same result, the remainder of the sum of all entries,
wherever the client's accumulators stay in range; in dimension 128 they always do, and the client
sends that result. -/
theorem checksum_shortcut :
    (∀ {n : Nat} (A B : SquareMat n), StaysInRange A B →
      clientChecksum A B = some (entriesSum A B % MODULO) ∧
        computeChecksum A B = some (entriesSum A B % MODULO) ∧
        blastComputeChecksum A B = some (entriesSum A B % MODULO)) ∧
      (∀ A B : SquareMat MATRIX_SIZE, StaysInRange A B) ∧
      ∀ (challenge : Challenge) (rest : List UInt8), ∃ answer,
        clientChecksum challenge.A challenge.B = some answer ∧
          answerLine (challenge.text ++ rest) =
            some (decimal challenge.cid ++ [space] ++ decimal answer ++ [newline]) := by
  have fits : ∀ A B : SquareMat MATRIX_SIZE, StaysInRange A B :=
    stays_in_range (by decide) (by decide)
  refine ⟨?_, fits, ?_⟩
  · intro n A B inRange
    have server := compute_checksum_eq A B inRange.size
    exact ⟨client_checksum_eq inRange, server, (blast_compute_checksum_eq A B).trans server⟩
  · intro challenge rest
    exact ⟨_, client_checksum_eq (fits challenge.A challenge.B), answer_line_spec challenge rest⟩

/-- The largest entries everywhere. -/
def largest : SquareMat MATRIX_SIZE := fun _ _ => ⟨996, by decide⟩

theorem entries_sum_largest : entriesSum largest largest = 128 * (128 * (128 * (996 * 996))) := by
  have entry : ∀ i k, (largest i k : Nat) = 996 := fun _ _ => rfl
  have size : MATRIX_SIZE = 128 := rfl
  simp only [entriesSum, entry, Finset.sum_const, Finset.card_univ, Fintype.card_fin, smul_eq_mul,
    size]

theorem checksum_shortcut_sample :
    clientChecksum largest largest = some 461 ∧ computeChecksum largest largest = some 461 := by
  obtain ⟨client, server, -⟩ :=
    checksum_shortcut.1 largest largest (checksum_shortcut.2.1 largest largest)
  rw [entries_sum_largest] at client server
  exact ⟨client, server⟩

end Finm327.Hft2026
