import Finm327.Hw2.Linalg

/-!
# The tiled product

It adds up each cell in pieces. What a block adds is a sum over its places, so the
blocks together add a sum over all places, in whatever order and wherever the last
block ends. The counters are the limit: a dimension within one block of the end of
`int` has a last block that no counter can leave.
-/

namespace Finm327.Hw2

open Finm327.Library.CheckedLoops
open Finm327.Library.Buffers
open Finm327.Library.Sums

section Blocks

variable {V : Type}

/-- The last counter of a blocked loop, plus a block, is an `int`. -/
def LastBlockFits (stop : Nat) : Prop := stop + blockSize ≤ 2 ^ 31

theorem block_end_eq {stop first : Nat} (fits : LastBlockFits stop) (below : first < stop) :
    blockEnd first stop = some (min (first + blockSize) stop) := by
  unfold LastBlockFits at fits
  rw [blockEnd, checked_of_lt (by omega)]
  rfl

theorem over_blocks_overflows {stop : Nat} (high : ¬ LastBlockFits stop)
    (body : Nat → Buffer V → Option (Buffer V)) (r : Buffer V) : overBlocks stop body r = none := by
  rw [LastBlockFits, Nat.not_le] at high
  have divides : blockSize ∣ 2 ^ 31 := ⟨2 ^ 26, by decide⟩
  exact counted_loop_overflows divides high (Nat.two_pow_pos 31) (Nat.dvd_zero _) r

theorem over_blocks_fails {stop : Nat} (enters : stop ≠ 0)
    {body : Nat → Buffer V → Option (Buffer V)} {r : Buffer V} (fails : body 0 r = none) :
    overBlocks stop body r = none := by
  rw [overBlocks, countedLoop, if_pos (Nat.pos_of_ne_zero enters), fails]
  rfl

theorem over_blocks_adds [AddCommMonoid V] {size stop : Nat} (fits : LastBlockFits stop)
    {body : Nat → Buffer V → Option (Buffer V)} {amount : Nat → Nat → V}
    (each : ∀ first, first < stop →
      Adds size (body first) (∑ i ∈ Finset.Ico first (min (first + blockSize) stop), amount i)) :
    Adds size (overBlocks stop body) (∑ i ∈ Finset.range stop, amount i) := by
  have advances : 0 < blockSize := by decide
  have visits : ∀ m, m * blockSize < stop → m * blockSize + blockSize < 2 ^ 31 := by
    unfold LastBlockFits at fits
    intro m below
    omega
  have covered : stop ≤ blocks stop blockSize * blockSize := by
    rw [← Nat.not_lt, ← lt_blocks_iff advances]
    exact Nat.lt_irrefl _
  have total : ∑ i ∈ Finset.range stop, amount i = ∑ m ∈ Finset.Ico 0 (blocks stop blockSize),
      ∑ i ∈ Finset.Ico (m * blockSize) (min (m * blockSize + blockSize) stop), amount i := by
    rw [← Finset.range_eq_Ico, sum_clipped, Nat.min_eq_right covered]
  intro b same
  rw [overBlocks, counted_loop_visits advances visits, total, List.range_eq_range']
  exact adds_range (fun m _ below => each _ ((lt_blocks_iff advances).mp below)) b same

end Blocks

variable {R : Type} [CommRing R] {a b r : Buffer R} {rowsA n colsB : Nat}

/-- What the step at `i`, `k`, `j` adds. -/
def contribution (a b : Buffer R) (n colsB i k j : Nat) : Nat → R :=
  Pi.single (i * colsB + j) (a.cells (i * n + k) * b.cells (k * colsB + j))

/-- What the product adds. -/
def contributions (a b : Buffer R) (rowsA n colsB : Nat) : Nat → R :=
  ∑ i ∈ Finset.range rowsA, ∑ k ∈ Finset.range n, ∑ j ∈ Finset.range colsB,
    contribution a b n colsB i k j

theorem multiply_block_adds (operands : Operands a b rowsA n colsB) {ii iEnd kk kEnd jj jEnd : Nat}
    (rows : iEnd ≤ rowsA) (inner : kEnd ≤ n) (columns : jEnd ≤ colsB) :
    Adds (rowsA * colsB) (multiplyBlock a b n colsB ii iEnd kk kEnd jj jEnd)
      (∑ i ∈ Finset.Ico ii iEnd, ∑ k ∈ Finset.Ico kk kEnd, ∑ j ∈ Finset.Ico jj jEnd,
        contribution a b n colsB i k j) := by
  apply adds_range
  intro i _ row
  apply adds_range
  intro k _ below c size
  dsimp only
  rw [entry_eq operands.sizeA operands.fitsA (by omega) (by omega), Option.bind_eq_bind,
    Option.bind_some]
  refine adds_range ?_ c size
  intro j _ column c size
  dsimp only
  rw [entry_eq operands.sizeB operands.fitsB (by omega) (by omega), Option.bind_eq_bind,
    Option.bind_some, index_eq operands.fitsC (by omega) (by omega), Option.bind_some]
  exact adds_at (place_lt (by omega) (by omega)) _ c size

/-- The blocked loops of the product. -/
def tiles (a b : Buffer R) (rowsA n colsB : Nat) : Buffer R → Option (Buffer R) :=
  overBlocks rowsA fun ii => overBlocks n fun kk => overBlocks colsB fun jj r => do
    let iEnd ← blockEnd ii rowsA
    let kEnd ← blockEnd kk n
    let jEnd ← blockEnd jj colsB
    multiplyBlock a b n colsB ii iEnd kk kEnd jj jEnd r

/-- The counters of the loops that are entered leave their last block. -/
def CountersFit (rowsA n colsB : Nat) : Prop :=
  LastBlockFits rowsA ∧ (rowsA = 0 ∨ LastBlockFits n) ∧ (rowsA = 0 ∨ n = 0 ∨ LastBlockFits colsB)

theorem tiles_adds (operands : Operands a b rowsA n colsB) (fit : CountersFit rowsA n colsB) :
    Adds (rowsA * colsB) (tiles a b rowsA n colsB) (contributions a b rowsA n colsB) := by
  obtain ⟨rows, inner, columns⟩ := fit
  apply over_blocks_adds rows
  intro ii row
  have inner := inner.resolve_left (by omega)
  rw [Finset.sum_comm]
  apply over_blocks_adds inner
  intro kk below
  have columns := (columns.resolve_left (by omega)).resolve_left (by omega)
  rw [Finset.sum_comm, sum_turn]
  apply over_blocks_adds columns
  intro jj column r size
  dsimp only
  rw [block_end_eq rows row, block_end_eq inner below, block_end_eq columns column, ← sum_turn]
  exact multiply_block_adds operands (Nat.min_le_right _ _) (Nat.min_le_right _ _)
    (Nat.min_le_right _ _) r size

theorem contributions_at {i j : Nat} (row : i < rowsA) (column : j < colsB) :
    contributions a b rowsA n colsB (i * colsB + j) = cell a b n colsB i j := by
  have elsewhere : ∀ row k column, column < colsB → (row ≠ i ∨ column ≠ j) →
      contribution a b n colsB row k column (i * colsB + j) = 0 := by
    intro row k other inside apart
    apply Pi.single_eq_of_ne
    intro same
    have both := place_injective column inside same
    exact apart.elim (fun differs => differs both.1.symm) (fun differs => differs both.2.symm)
  simp only [contributions, Finset.sum_apply]
  rw [Finset.sum_eq_single_of_mem i (Finset.mem_range.mpr row)]
  · apply Finset.sum_congr rfl
    intro k _
    rw [Finset.sum_eq_single_of_mem j (Finset.mem_range.mpr column)]
    · exact Pi.single_eq_same _ _
    · intro other inside apart
      exact elsewhere i k other (Finset.mem_range.mp inside) (Or.inr apart)
  · intro other _ apart
    apply Finset.sum_eq_zero
    intro k _
    apply Finset.sum_eq_zero
    intro column inside
    exact elsewhere other k column (Finset.mem_range.mp inside) (Or.inl apart)

theorem tiled_eq (operands : Operands a b rowsA n colsB) (size : r.size = rowsA * colsB) :
    ∃ zeros : Buffer R, zeros.size = rowsA * colsB ∧
      (∀ t, t < rowsA * colsB → zeros.cells t = 0) ∧
      multiplyMmTiled (some a) rowsA n (some b) n colsB (some r) =
        (tiles a b rowsA n colsB zeros).map some := by
  obtain ⟨zeros, cleared, sizeZeros, clean⟩ := clear_eq size operands.fitsC
  refine ⟨zeros, sizeZeros.trans size, clean, ?_⟩
  rw [multiplyMmTiled, if_neg (not_not.mpr rfl), cleared, Option.bind_eq_bind, Option.bind_some,
    Option.map_eq_bind]
  rfl

theorem tiled_spec (operands : Operands a b rowsA n colsB) (size : r.size = rowsA * colsB)
    (fit : CountersFit rowsA n colsB) :
    ∃ c, multiplyMmTiled (some a) rowsA n (some b) n colsB (some r) = some (some c) ∧
      c.size = r.size ∧ IsProduct a b rowsA n colsB c := by
  obtain ⟨zeros, sizeZeros, clean, runs⟩ := tiled_eq operands size
  have added := tiles_adds operands fit zeros sizeZeros
  refine ⟨zeros.plus (contributions a b rowsA n colsB), ?_, sizeZeros.trans size.symm, ?_⟩
  · rw [runs, added, Option.map_some]
  · intro i j row column
    calc (zeros.plus (contributions a b rowsA n colsB)).cells (i * colsB + j)
        = zeros.cells (i * colsB + j) + contributions a b rowsA n colsB (i * colsB + j) := rfl
      _ = cell a b n colsB i j := by
          rw [clean _ (place_lt row column), zero_add, contributions_at row column]

theorem tiles_overflow (overflows : ¬ CountersFit rowsA n colsB) (r : Buffer R) :
    tiles a b rowsA n colsB r = none := by
  unfold tiles
  by_cases rows : LastBlockFits rowsA
  · have some : rowsA ≠ 0 := by
      intro none
      exact overflows ⟨rows, Or.inl none, Or.inl none⟩
    apply over_blocks_fails some
    by_cases inner : LastBlockFits n
    · have deep : n ≠ 0 := by
        intro none
        exact overflows ⟨rows, Or.inr inner, Or.inr (Or.inl none)⟩
      apply over_blocks_fails deep
      apply over_blocks_overflows
      intro columns
      exact overflows ⟨rows, Or.inr inner, Or.inr (Or.inr columns)⟩
    · exact over_blocks_overflows inner _ r
  · exact over_blocks_overflows rows _ r

theorem tiled_overflows (operands : Operands a b rowsA n colsB) (size : r.size = rowsA * colsB)
    (overflows : ¬ CountersFit rowsA n colsB) :
    multiplyMmTiled (some a) rowsA n (some b) n colsB (some r) = none := by
  obtain ⟨zeros, _, _, runs⟩ := tiled_eq operands size
  rw [runs, tiles_overflow overflows, Option.map_none]

/-- The three products of `A` and `B` return, and each leaves the product in its result. -/
def ProductsAgree (a b dst : Buffer R) (rowsA n colsB : Nat) (first second third : Buffer R) :
    Prop :=
  ∃ transposed tiled naive byRows,
    transpose b n colsB dst = some transposed ∧
    multiplyMmTiled (some a) rowsA n (some b) n colsB (some first) = some (some tiled) ∧
    multiplyMmNaive (some a) rowsA n (some b) n colsB (some second) = some (some naive) ∧
    multiplyMmTransposedB (some a) rowsA n (some transposed) n colsB (some third) =
      some (some byRows) ∧
    IsProduct a b rowsA n colsB tiled ∧ IsProduct a b rowsA n colsB naive ∧
    IsProduct a b rowsA n colsB byRows

/-- The products agree unless a counter of the tiled one has to leave a last block at the end
of `int`. -/
theorem products_agree_iff {dst first second third : Buffer R}
    (operands : Operands a b rowsA n colsB) (sizeDst : dst.size = colsB * n)
    (sizeFirst : first.size = rowsA * colsB) (sizeSecond : second.size = rowsA * colsB)
    (sizeThird : third.size = rowsA * colsB) :
    ProductsAgree a b dst rowsA n colsB first second third ↔ CountersFit rowsA n colsB := by
  constructor
  · rintro ⟨_, tiled, _, _, _, ran, _⟩
    by_contra overflows
    rw [tiled_overflows operands sizeFirst overflows] at ran
    cases ran
  · intro fit
    obtain ⟨transposed, wrote, sizeT, turned⟩ := transpose_spec operands.sizeB sizeDst operands.fitsB
    obtain ⟨tiled, ranTiled, _, productTiled⟩ := tiled_spec operands sizeFirst fit
    obtain ⟨naive, ranNaive, _, productNaive⟩ := naive_spec operands sizeSecond
    obtain ⟨byRows, ranRows, _, productRows⟩ :=
      transposed_spec operands sizeThird (sizeT.trans sizeDst) turned
    exact ⟨transposed, tiled, naive, byRows, wrote, ranTiled, ranNaive, ranRows, productTiled,
      productNaive, productRows⟩

theorem products_agree_sample :
    ProductsAgree (⟨6, fun t => t⟩ : Buffer Int) ⟨6, fun t => t + 1⟩ ⟨6, fun _ => 7⟩ 2 3 2
        ⟨4, fun _ => 7⟩ ⟨4, fun t => t⟩ ⟨4, fun _ => -1⟩ ↔
      CountersFit 2 3 2 :=
  products_agree_iff ⟨rfl, rfl, by decide, by decide, by decide⟩ rfl rfl rfl rfl

/-- A column of ones of the greatest length, times a single one. -/
theorem tiled_counter_overflows :
    let a : Buffer Int := ⟨2147483647, fun _ => 1⟩
    let b : Buffer Int := ⟨1, fun _ => 1⟩
    Operands a b 2147483647 1 1 ∧
      ¬ ProductsAgree a b ⟨1, fun _ => 0⟩ 2147483647 1 1 ⟨2147483647, fun _ => 0⟩
        ⟨2147483647, fun _ => 0⟩ ⟨2147483647, fun _ => 0⟩ := by
  intro a b
  have operands : Operands a b 2147483647 1 1 :=
    ⟨(Nat.mul_one _).symm, rfl, by decide, by decide, by decide⟩
  refine ⟨operands, ?_⟩
  rintro ⟨_, tiled, _, _, _, ran, _⟩
  have overflows : ¬ CountersFit 2147483647 1 1 := by
    rintro ⟨rows, _⟩
    unfold LastBlockFits at rows
    exact absurd rows (by decide)
  rw [tiled_overflows operands (Nat.mul_one _).symm overflows] at ran
  cases ran

end Finm327.Hw2
