import Finm327.Library.Buffers

/-!
# The matrix products

Transcribes the matrix products of `hw2/linalg.cpp`. `double` is any commutative
ring. Dimensions and indexes are `int`: they are not negative, and a sum or product
that no `int` can hold has no result, like an access outside an array. A null pointer
is none.
-/

namespace Finm327.Hw2

open Finm327.Library.CheckedLoops
open Finm327.Library.Buffers

variable {R : Type} [CommRing R]

/-- `i * width + k`. -/
def index (i width k : Nat) : Option Nat := do
  let start ← checked (2 ^ 31) (i * width)
  checked (2 ^ 31) (start + k)

def entry (m : Buffer R) (i width k : Nat) : Option R := do
  let t ← index i width k
  m.load t

/-- `memset(result, 0, rows * cols * sizeof(double))`. -/
def clear (rows cols : Nat) (result : Buffer R) : Option (Buffer R) := do
  let count ← checked (2 ^ 31) (rows * cols)
  result.fill count 0

/-- The loop over `k` of the products that compute one cell at a time. -/
def accumulate (n : Nat) (left right : Nat → Option R) : Option R :=
  (List.range n).foldlM (fun sum k => do
    let x ← left k
    let y ← right k
    return sum + x * y) 0

/-- The loops of the products that compute one cell at a time. -/
def multiplyCells (rowsA colsA colsB : Nat) (left right : Nat → Nat → Option R)
    (result : Buffer R) : Option (Buffer R) :=
  (List.range rowsA).foldlM (fun result i =>
    (List.range colsB).foldlM (fun result j => do
      let sum ← accumulate colsA (left i) (right j)
      let t ← index i colsB j
      result.store t sum) result) result

def multiplyMmNaive (matrixA : Option (Buffer R)) (rowsA colsA : Nat)
    (matrixB : Option (Buffer R)) (rowsB colsB : Nat) (result : Option (Buffer R)) :
    Option (Option (Buffer R)) :=
  match matrixA, matrixB, result with
  | some a, some b, some r =>
    if colsA ≠ rowsB then some result
    else do
      let r ← clear rowsA colsB r
      let r ← multiplyCells rowsA colsA colsB (fun i k => entry a i colsA k)
        (fun j k => entry b k colsB j) r
      return some r
  | _, _, _ => some result

def multiplyMmTransposedB (matrixA : Option (Buffer R)) (rowsA colsA : Nat)
    (matrixBTransposed : Option (Buffer R)) (rowsB colsB : Nat) (result : Option (Buffer R)) :
    Option (Option (Buffer R)) :=
  match matrixA, matrixBTransposed, result with
  | some a, some b, some r =>
    if colsA ≠ rowsB then some result
    else do
      let r ← multiplyCells rowsA colsA colsB (fun i k => entry a i colsA k)
        (fun j k => entry b j rowsB k) r
      return some r
  | _, _, _ => some result

def blockSize : Nat := 32

/-- The three inner loops of the tiled product. -/
def multiplyBlock (a b : Buffer R) (colsA colsB ii iEnd kk kEnd jj jEnd : Nat)
    (result : Buffer R) : Option (Buffer R) :=
  (List.range' ii (iEnd - ii)).foldlM (fun result i =>
    (List.range' kk (kEnd - kk)).foldlM (fun result k => do
      let aik ← entry a i colsA k
      (List.range' jj (jEnd - jj)).foldlM (fun result j => do
        let y ← entry b k colsB j
        let t ← index i colsB j
        let old ← result.load t
        result.store t (old + aik * y)) result) result) result

/-- `min(first + BLOCK_SIZE, stop)`. -/
def blockEnd (first stop : Nat) : Option Nat := do
  let last ← checked (2 ^ 31) (first + blockSize)
  return min last stop

/-- `for (int first = 0; first < stop; first += BLOCK_SIZE)`. -/
def overBlocks (stop : Nat) (body : Nat → Buffer R → Option (Buffer R)) (result : Buffer R) :
    Option (Buffer R) :=
  countedLoop (2 ^ 31) stop blockSize body (blocks stop blockSize + 1) 0 result

def multiplyMmTiled (matrixA : Option (Buffer R)) (rowsA colsA : Nat)
    (matrixB : Option (Buffer R)) (rowsB colsB : Nat) (result : Option (Buffer R)) :
    Option (Option (Buffer R)) :=
  match matrixA, matrixB, result with
  | some a, some b, some r =>
    if colsA ≠ rowsB then some result
    else do
      let r ← clear rowsA colsB r
      let r ← overBlocks rowsA (fun ii r =>
        overBlocks colsA (fun kk r =>
          overBlocks colsB (fun jj r => do
            let iEnd ← blockEnd ii rowsA
            let kEnd ← blockEnd kk colsA
            let jEnd ← blockEnd jj colsB
            multiplyBlock a b colsA colsB ii iEnd kk kEnd jj jEnd r) r) r) r
      return some r
  | _, _, _ => some result

def transpose (src : Buffer R) (rows cols : Nat) (dst : Buffer R) : Option (Buffer R) :=
  (List.range rows).foldlM (fun dst i =>
    (List.range cols).foldlM (fun dst j => do
      let value ← entry src i cols j
      let t ← index j rows i
      dst.store t value) dst) dst

/-! ## Row-major places -/

theorem place_lt {rows width i k : Nat} (row : i < rows) (column : k < width) :
    i * width + k < rows * width := by
  have next : (i + 1) * width ≤ rows * width := Nat.mul_le_mul_right width row
  rw [Nat.succ_mul] at next
  omega

theorem place_injective {width i k row column : Nat} (inside : k < width) (insideToo : column < width)
    (same : i * width + k = row * width + column) : i = row ∧ k = column := by
  have columns : k = column := by
    have remainder := congrArg (· % width) same
    simp only [Nat.mul_comm _ width, Nat.mul_add_mod] at remainder
    rwa [Nat.mod_eq_of_lt inside, Nat.mod_eq_of_lt insideToo] at remainder
  rw [columns, Nat.add_right_cancel_iff] at same
  exact ⟨Nat.eq_of_mul_eq_mul_right (by omega) same, columns⟩

theorem index_eq {rows width i k : Nat} (fits : rows * width < 2 ^ 31) (row : i < rows)
    (column : k < width) : index i width k = some (i * width + k) := by
  have inside := place_lt row column
  rw [index, checked_of_lt (by omega), Option.bind_eq_bind, Option.bind_some,
    checked_of_lt (by omega)]

omit [CommRing R] in
theorem entry_eq {m : Buffer R} {rows width i k : Nat} (size : m.size = rows * width)
    (fits : rows * width < 2 ^ 31) (row : i < rows) (column : k < width) :
    entry m i width k = some (m.cells (i * width + k)) := by
  rw [entry, index_eq fits row column, Option.bind_eq_bind, Option.bind_some,
    Buffer.load_of_lt (size ▸ place_lt row column)]

theorem clear_eq {rows cols : Nat} {result : Buffer R} (size : result.size = rows * cols)
    (fits : rows * cols < 2 ^ 31) :
    ∃ r, clear rows cols result = some r ∧ r.size = result.size ∧
      ∀ t, t < rows * cols → r.cells t = 0 := by
  refine ⟨{ result with cells := fun t => if t < rows * cols then 0 else result.cells t }, ?_, rfl,
    fun t inside => if_pos inside⟩
  rw [clear, checked_of_lt fits, Option.bind_eq_bind, Option.bind_some]
  exact if_pos size.ge

/-! ## One cell at a time -/

theorem accumulate_eq {n : Nat} {left right : Nat → Option R} {x y : Nat → R}
    (lefts : ∀ k, k < n → left k = some (x k)) (rights : ∀ k, k < n → right k = some (y k)) :
    accumulate n left right = some (∑ k ∈ Finset.range n, x k * y k) := by
  unfold accumulate
  induction n with
  | zero => rfl
  | succ n ih =>
      rw [List.range_succ, List.foldlM_append, ih (fun k below => lefts k (by omega))
        (fun k below => rights k (by omega)), Finset.sum_range_succ]
      simp only [List.foldlM_cons, List.foldlM_nil, lefts n (Nat.lt_succ_self n),
        rights n (Nat.lt_succ_self n), Option.bind_eq_bind, Option.bind_some]
      rfl

/-- The sum over `k` of `A[i][k] * B[k][j]`. -/
def cell (a b : Buffer R) (n colsB i j : Nat) : R :=
  ∑ k ∈ Finset.range n, a.cells (i * n + k) * b.cells (k * colsB + j)

/-- `A` is `rowsA` by `n` and `B` is `n` by `colsB`, and the products of the dimensions are
`int`s. -/
structure Operands (a b : Buffer R) (rowsA n colsB : Nat) : Prop where
  sizeA : a.size = rowsA * n
  sizeB : b.size = n * colsB
  fitsA : rowsA * n < 2 ^ 31
  fitsB : n * colsB < 2 ^ 31
  fitsC : rowsA * colsB < 2 ^ 31

/-- The buffer holds the product. -/
def IsProduct (a b : Buffer R) (rowsA n colsB : Nat) (c : Buffer R) : Prop :=
  ∀ i j, i < rowsA → j < colsB → c.cells (i * colsB + j) = cell a b n colsB i j

section Operands

variable {a b r : Buffer R} {rowsA n colsB : Nat}

theorem multiply_cells_spec (operands : Operands a b rowsA n colsB)
    (size : r.size = rowsA * colsB) {right : Nat → Nat → Option R}
    (rights : ∀ j k, j < colsB → k < n → right j k = some (b.cells (k * colsB + j))) :
    ∃ c, multiplyCells rowsA n colsB (fun i k => entry a i n k) right r = some c ∧
      c.size = r.size ∧ IsProduct a b rowsA n colsB c := by
  apply loops_store
  · intro i j row column
    rw [size]
    exact place_lt row column
  · intro i j row column _ inside _ insideToo same
    exact place_injective inside insideToo same
  · intro i j row column c _
    have sum := @accumulate_eq R _ n (fun k => entry a i n k) (right j)
      (fun k => a.cells (i * n + k)) (fun k => b.cells (k * colsB + j))
      (fun k below => entry_eq operands.sizeA operands.fitsA row below)
      (fun k below => rights j k column below)
    rw [sum, Option.bind_eq_bind, Option.bind_some, index_eq operands.fitsC row column,
      Option.bind_eq_bind, Option.bind_some]
    rfl

theorem naive_spec (operands : Operands a b rowsA n colsB) (size : r.size = rowsA * colsB) :
    ∃ c, multiplyMmNaive (some a) rowsA n (some b) n colsB (some r) = some (some c) ∧
      c.size = r.size ∧ IsProduct a b rowsA n colsB c := by
  obtain ⟨zeros, cleared, sizeZeros, _⟩ := clear_eq size operands.fitsC
  obtain ⟨c, ran, sizeC, product⟩ := multiply_cells_spec operands (sizeZeros.trans size)
    (fun j k column below => entry_eq operands.sizeB operands.fitsB below column)
  refine ⟨c, ?_, sizeC.trans sizeZeros, product⟩
  rw [multiplyMmNaive, if_neg (not_not.mpr rfl), cleared, Option.bind_eq_bind, Option.bind_some, ran]
  rfl

omit [CommRing R] in
theorem transpose_spec {src dst : Buffer R} {rows cols : Nat} (sizeSrc : src.size = rows * cols)
    (sizeDst : dst.size = cols * rows) (fits : rows * cols < 2 ^ 31) :
    ∃ t, transpose src rows cols dst = some t ∧ t.size = dst.size ∧
      ∀ i j, i < rows → j < cols → t.cells (j * rows + i) = src.cells (i * cols + j) := by
  apply loops_store
  · intro i j row column
    rw [sizeDst]
    exact place_lt column row
  · intro i j _ _ row column rowToo columnToo same
    exact (place_injective row rowToo same).symm
  · intro i j row column c _
    rw [entry_eq sizeSrc fits row column, Option.bind_eq_bind, Option.bind_some,
      index_eq (Nat.mul_comm rows cols ▸ fits) column row, Option.bind_eq_bind, Option.bind_some]

theorem transposed_spec (operands : Operands a b rowsA n colsB) (size : r.size = rowsA * colsB)
    {t : Buffer R} (sizeT : t.size = colsB * n)
    (transposed : ∀ k j, k < n → j < colsB → t.cells (j * n + k) = b.cells (k * colsB + j)) :
    ∃ c, multiplyMmTransposedB (some a) rowsA n (some t) n colsB (some r) = some (some c) ∧
      c.size = r.size ∧ IsProduct a b rowsA n colsB c := by
  have rights : ∀ j k, j < colsB → k < n →
      entry t j n k = some (b.cells (k * colsB + j)) := by
    intro j k column below
    rw [← transposed k j below column]
    exact entry_eq sizeT (Nat.mul_comm n colsB ▸ operands.fitsB) column below
  obtain ⟨c, ran, sizeC, product⟩ := multiply_cells_spec operands size rights
  refine ⟨c, ?_, sizeC, product⟩
  rw [multiplyMmTransposedB, if_neg (not_not.mpr rfl), ran]
  rfl

end Operands

end Finm327.Hw2
