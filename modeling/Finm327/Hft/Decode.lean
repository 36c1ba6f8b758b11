import Finm327.Hft.Parsing

/-!
# Filling the matrices

What the loops of the client leave in `A` and `B`, given the numbers the text
holds, and where the newline scan stops.
-/

namespace Finm327.Hft

open Finm327.Library.DecimalText
open Finm327.Library.ReadLoops

/-! ## The two loops -/

/-- What the loop for `A` leaves in the array. -/
def storedA (vs : List Int32) (A : Array32) : Array32 := store (List.range (N * N)) vs A

theorem parse_A_eq {p q : List UInt8} {vs : List Int32} (reads : Reads parseIntS1 p vs q)
    (many : vs.length = N * N) (A : Array32) : parseA A p = some (storedA vs A, q) := by
  unfold parseA
  exact read_loop reads (by rw [List.length_range, many]) A

theorem stored_A_get {vs : List Int32} (many : vs.length = N * N) (A : Array32) {t : Nat}
    {v : Int32} (place : vs[t]? = some v) : storedA vs A t = v := by
  obtain ⟨inside, _⟩ := List.getElem?_eq_some_iff.mp place
  exact store_get List.nodup_range (by rw [List.getElem?_range (by omega)]) place A

/-- Where the number with a given place in the text of `B` is stored. -/
def slotB (t : Nat) : Nat := t % N * N + t / N

theorem slot_B_slot_B {t : Nat} (inside : t < N * N) : slotB (slotB t) = t := by
  unfold slotB
  unfold N at *
  omega

theorem slot_B_lt {t : Nat} (inside : t < N * N) : slotB t < N * N := by
  unfold slotB
  unfold N at *
  omega

theorem slot_B_eq {k i : Nat} (below : i < N) : slotB (k * N + i) = i * N + k := by
  unfold slotB
  unfold N at *
  omega

/-- What the loop for `B` leaves in the array. -/
def storedB (vs : List Int32) (B : Array32) : Array32 :=
  store ((List.range (N * N)).map slotB) vs B

theorem parse_B_eq {p q : List UInt8} {vs : List Int32} (reads : Reads parseIntS1 p vs q)
    (many : vs.length = N * N) (B : Array32) : parseB B p = some (storedB vs B, q) := by
  have flat : parseB B p =
      ((List.range (N * N)).map slotB).foldlM (readAt parseIntS1) (B, p) := by
    unfold parseB
    rw [List.foldlM_map]
    apply foldlM_rows
    intro state k i below
    rw [slot_B_eq below]
  rw [flat]
  exact read_loop reads (by rw [List.length_map, List.length_range, many]) B

theorem stored_B_get (vs : List Int32) (B : Array32) {j : Nat} {v : Int32}
    (place : vs[slotB j]? = some v) (inside : j < N * N) : storedB vs B j = v := by
  apply store_get _ _ place
  · apply List.Nodup.map_on _ List.nodup_range
    intro s member t memberToo same
    rw [← slot_B_slot_B (List.mem_range.mp member), same,
      slot_B_slot_B (List.mem_range.mp memberToo)]
  · rw [List.getElem?_map, List.getElem?_range (slot_B_lt inside), Option.map_some,
      slot_B_slot_B inside]

theorem parse_matrices_worker {tier : Tier} {p pB qA qB : List UInt8} {va vb : List Int32}
    (scan : findNewline tier p = some (newline :: pB)) (readsA : Reads parseIntS1 p va qA)
    (manyA : va.length = N * N) (readsB : Reads parseIntS1 pB vb qB) (manyB : vb.length = N * N)
    (A B : Array32) : parseMatrices tier true A B p = some (storedA va A, storedB vb B) := by
  have ranA := parse_A_eq readsA manyA A
  have ranB := parse_B_eq readsB manyB B
  have rest : (newline :: pB).drop 1 = pB := rfl
  generalize storedA va A = filledA at ranA ⊢
  generalize storedB vb B = filledB at ranB ⊢
  rw [parseMatrices, if_pos rfl, scan, Option.bind_eq_bind, Option.bind_some, ranA]
  dsimp only
  rw [rest, Option.bind_eq_bind, Option.bind_some, ranB]
  rfl

theorem parse_matrices_serial {tier : Tier} {p pB qB : List UInt8} {c : UInt8}
    {va vb : List Int32} (readsA : Reads parseIntS1 p va (c :: pB)) (manyA : va.length = N * N)
    (readsB : Reads parseIntS1 pB vb qB) (manyB : vb.length = N * N) (A B : Array32) :
    parseMatrices tier false A B p = some (storedA va A, storedB vb B) := by
  have ranA := parse_A_eq readsA manyA A
  have ranB := parse_B_eq readsB manyB B
  have rest : (c :: pB).drop 1 = pB := rfl
  generalize storedA va A = filledA at ranA ⊢
  generalize storedB vb B = filledB at ranB ⊢
  rw [parseMatrices, if_neg (by simp), ranA, Option.bind_eq_bind, Option.bind_some]
  dsimp only
  rw [rest, ranB]
  rfl

/-! ## The newline scan -/

theorem newline_mask_none {chunk : List UInt8} (without : ∀ c ∈ chunk, c ≠ newline) :
    newlineMask chunk = 0 := by
  induction chunk with
  | nil => rfl
  | cons c rest ih =>
      have other : ¬ c = 10 := without c List.mem_cons_self
      rw [newlineMask, if_neg other, ih fun d member => without d (List.mem_cons_of_mem c member)]

theorem newline_mask_first {before : List UInt8} (without : ∀ c ∈ before, c ≠ newline)
    (after : List UInt8) {bits : Nat} (fits : before.length < bits) :
    newlineMask (before ++ newline :: after) ≠ 0 ∧
      ctz bits (newlineMask (before ++ newline :: after)) = before.length := by
  induction before generalizing bits with
  | nil =>
      obtain ⟨bits, same⟩ := Nat.exists_eq_succ_of_ne_zero (Nat.ne_of_gt fits)
      have mask : newlineMask ([] ++ newline :: after) = 1 + 2 * newlineMask after := rfl
      rw [mask, same, ctz, if_pos (by omega)]
      exact ⟨by omega, rfl⟩
  | cons c before ih =>
      rw [List.length_cons] at fits
      obtain ⟨bits, same⟩ := Nat.exists_eq_succ_of_ne_zero (Nat.ne_of_gt (Nat.zero_lt_of_lt fits))
      subst same
      have other : ¬ c = 10 := without c List.mem_cons_self
      obtain ⟨some, place⟩ := ih (fun d member => without d (List.mem_cons_of_mem c member))
        (Nat.lt_of_succ_lt_succ fits)
      have mask : newlineMask (c :: before ++ newline :: after) =
          2 * newlineMask (before ++ newline :: after) := by
        rw [List.cons_append, newlineMask, if_neg other, Nat.zero_add]
      have half : 2 * newlineMask (before ++ newline :: after) / 2 =
          newlineMask (before ++ newline :: after) := by omega
      rw [mask, ctz, if_neg (by omega), half, place]
      exact ⟨by omega, rfl⟩

/-- A scan by chunks stops at the first newline when the chunk that holds it can be
read. -/
theorem find_newline_wide {width fuel : Nat} (positive : 0 < width) {before after : List UInt8}
    (without : ∀ c ∈ before, c ≠ newline)
    (readable : (before.length / width + 1) * width ≤ (before ++ newline :: after).length)
    (enough : before.length / width < fuel) :
    findNewlineWide width fuel (before ++ newline :: after) = some (newline :: after) := by
  induction fuel generalizing before with
  | zero => exact absurd enough (Nat.not_lt_zero _)
  | succ fuel ih =>
      have chunk : ¬ (before ++ newline :: after).length < width := by
        have whole : width ≤ (before.length / width + 1) * width :=
          Nat.le_mul_of_pos_left width (Nat.succ_pos _)
        exact Nat.not_lt.mpr (whole.trans readable)
      rw [findNewlineWide, if_neg chunk]
      by_cases here : before.length < width
      · obtain ⟨room, rest⟩ := Nat.exists_eq_add_of_lt here
        have taken : (before ++ newline :: after).take width = before ++ newline :: after.take room := by
          rw [List.take_append, List.take_of_length_le (by omega)]
          have left : width - before.length = room + 1 := by omega
          rw [left, List.take_succ_cons]
        obtain ⟨some, place⟩ := newline_mask_first without (after.take room) here
        dsimp only
        rw [taken, if_pos some, place, List.drop_left]
      · have long : width ≤ before.length := Nat.le_of_not_lt here
        have taken : (before ++ newline :: after).take width = before.take width :=
          List.take_append_of_le_length long
        have dropped : (before ++ newline :: after).drop width =
            before.drop width ++ newline :: after := List.drop_append_of_le_length long
        have none : newlineMask (before.take width) = 0 :=
          newline_mask_none fun c member => without c (List.mem_of_mem_take member)
        have shorter : before.length / width = (before.drop width).length / width + 1 := by
          rw [List.length_drop, ← Nat.add_div_right _ positive, Nat.sub_add_cancel long]
        dsimp only
        rw [taken, none, if_neg (by simp), dropped]
        apply ih
        · exact fun c member => without c (List.mem_of_mem_drop member)
        · have total : (before ++ newline :: after).length =
              (before.drop width ++ newline :: after).length + width := by
            rw [List.length_append, List.length_append, List.length_drop]
            omega
          rw [shorter, total, Nat.succ_mul] at readable
          omega
        · omega

theorem find_newline_scalar {before : List UInt8} (without : ∀ c ∈ before, c ≠ newline)
    (after : List UInt8) :
    findNewlineScalar (before ++ newline :: after) = some (newline :: after) := by
  induction before with
  | nil => rfl
  | cons c before ih =>
      have other : c ≠ 10 := without c List.mem_cons_self
      rw [List.cons_append, findNewlineScalar, if_pos other]
      exact ih fun d member => without d (List.mem_cons_of_mem c member)

/-- The bytes that a step of the scan reads. -/
def chunkWidth : Tier → Nat
  | .avx512 => 64
  | .avx2 => 32
  | .scalar => 1

theorem find_newline_first (tier : Tier) {before after : List UInt8}
    (without : ∀ c ∈ before, c ≠ newline)
    (readable : (before.length / chunkWidth tier + 1) * chunkWidth tier ≤
      (before ++ newline :: after).length) :
    findNewline tier (before ++ newline :: after) = some (newline :: after) := by
  have total : (before ++ newline :: after).length = before.length + (after.length + 1) := by
    rw [List.length_append, List.length_cons]
  cases tier with
  | avx512 => exact find_newline_wide (by decide) without readable (by omega)
  | avx2 => exact find_newline_wide (by decide) without readable (by omega)
  | scalar => exact find_newline_scalar without after

/-- All three versions stop at the first newline when 64 bytes from it can be read. -/
theorem find_newline_spec (tier : Tier) {before after : List UInt8}
    (without : ∀ c ∈ before, c ≠ newline) (room : 64 ≤ after.length) :
    findNewline tier (before ++ newline :: after) = some (newline :: after) := by
  apply find_newline_first tier without
  have narrow : chunkWidth tier ≤ 64 := by cases tier <;> decide
  have before_le := Nat.div_mul_le_self before.length (chunkWidth tier)
  rw [Nat.succ_mul, List.length_append, List.length_cons]
  omega

/-- The end of the chunk, counted from `p`, that holds the byte at `q`. -/
def chunkEnd (tier : Tier) (p q : Nat) : Nat :=
  p + ((q - p) / chunkWidth tier + 1) * chunkWidth tier

theorem chunk_end_mono (tier : Tier) (p : Nat) {first q : Nat} (le : first ≤ q) :
    chunkEnd tier p first ≤ chunkEnd tier p q := by
  unfold chunkEnd
  gcongr

/-- Where there is a newline at or after a position there is a first one. -/
theorem first_newline {buffer : List UInt8} {p q : Nat} (start : p ≤ q)
    (here : buffer[q]? = some newline) :
    ∃ before after, buffer.drop p = before ++ newline :: after ∧
      (∀ c ∈ before, c ≠ newline) ∧ p + before.length ≤ q := by
  have place : (buffer.drop p)[q - p]? = some newline := by
    rw [List.getElem?_drop, Nat.add_sub_cancel' start, here]
  obtain ⟨before, after, split, without⟩ :=
    List.eq_append_cons_of_mem (List.mem_of_getElem? place)
  refine ⟨before, after, split, fun c member same => without (same ▸ member), ?_⟩
  by_contra beyond
  rw [split, List.getElem?_append_left (by omega)] at place
  exact without (List.mem_of_getElem? place)

/-- Where a newline's chunk can be read, a version of the scan ends at the first newline; so those
for which it can be read agree. The chunk of the scalar version is the byte itself. -/
theorem newline_tiers_agree {buffer : List UInt8} {p q : Nat} (start : p ≤ q)
    (here : buffer[q]? = some newline) :
    ∃ first, p ≤ first ∧ first ≤ q ∧ buffer[first]? = some newline ∧
      (∀ i, p ≤ i → i < first → buffer[i]? ≠ some newline) ∧
      ∀ tier, chunkEnd tier p q ≤ buffer.length →
        findNewline tier (buffer.drop p) = some (buffer.drop first) := by
  obtain ⟨before, after, split, without, le⟩ := first_newline start here
  have inside : p + (before ++ newline :: after).length = buffer.length := by
    obtain ⟨place, _⟩ := List.getElem?_eq_some_iff.mp here
    rw [← split, List.length_drop]
    omega
  have rest : buffer.drop (p + before.length) = newline :: after := by
    rw [← List.drop_drop, split, List.drop_left]
  refine ⟨p + before.length, Nat.le_add_right _ _, le, ?_, ?_, ?_⟩
  · rw [← List.head?_drop, rest]
    rfl
  · intro i lower upper found
    have place : (buffer.drop p)[i - p]? = some newline := by
      rw [List.getElem?_drop, Nat.add_sub_cancel' lower, found]
    rw [split, List.getElem?_append_left (by omega)] at place
    exact without newline (List.mem_of_getElem? place) rfl
  · intro tier readable
    rw [rest, split]
    apply find_newline_first tier without
    have whole := (chunk_end_mono tier p le).trans readable
    rw [chunkEnd, Nat.add_sub_cancel_left] at whole
    omega

/-- Two newlines in the first chunk from position 2, and a third one before it. -/
theorem newline_tiers_agree_sample :
    let buffer : List UInt8 :=
      [65, newline, 66, 67, newline, 68, 69, 70, 71, newline] ++ List.replicate 60 0
    ∀ tier, findNewline tier (buffer.drop 2) = some (buffer.drop 4) := by
  intro buffer
  obtain ⟨first, lower, _, here, least, agree⟩ :=
    @newline_tiers_agree buffer 2 9 (by decide) (by decide)
  have upper : first ≤ 4 := by
    by_contra beyond
    exact least 4 (by decide) (Nat.lt_of_not_le beyond) rfl
  have place : first = 4 := by
    have near : first = 2 ∨ first = 3 ∨ first = 4 := by omega
    rcases near with rfl | rfl | rfl
    · cases here
    · cases here
    · rfl
  subst place
  intro tier
  apply agree
  cases tier <;> decide

theorem digit_byte_ne_newline {d : Nat} (small : d < 10) : digitByte d ≠ newline := by
  intro equal
  have value := digit_byte_to_nat small
  rw [equal] at value
  have ten : newline.toNat = 10 := rfl
  omega

theorem decimal_without (n : Nat) : ∀ c ∈ decimal n, c ≠ newline := by
  intro c member
  obtain ⟨d, small, same⟩ := decimal_digits n c member
  rw [same]
  exact digit_byte_ne_newline small

theorem values_text_without (values : List Nat) : ∀ c ∈ valuesText values, c ≠ newline := by
  intro c member
  obtain ⟨v, _, inside⟩ := List.mem_flatMap.mp member
  rw [List.mem_append, List.mem_singleton] at inside
  cases inside with
  | inl digit => exact decimal_without v c digit
  | inr blank =>
      rw [blank]
      decide

theorem values_text_length (values : List Nat) : 2 * values.length ≤ (valuesText values).length := by
  induction values with
  | nil => exact Nat.zero_le _
  | cons v values ih =>
      have text := values_text_cons v values []
      rw [List.append_nil, List.append_nil] at text
      have digits := List.length_pos_of_ne_nil (decimal_ne_nil v)
      rw [text, List.length_append, List.length_cons, List.length_cons]
      omega

/-! ## The text of the server -/

theorem length_values (M : Mat) : (values M).length = N * N := by
  rw [values_eq, List.length_map, List.length_range]

theorem values_get {M : Mat} {t : Nat} (inside : t < N * N) : (values M)[t]? = some (entry M t) := by
  rw [values_eq, List.getElem?_map, List.getElem?_range inside]
  rfl

/-- The entries as a reader stores them. -/
theorem length_map_values {Item : Type} (f : Nat → Item) (M : Mat) :
    ((values M).map f).length = N * N := by
  rw [List.length_map, length_values]

theorem map_values_get {Item : Type} (f : Nat → Item) {M : Mat} {t : Nat} (inside : t < N * N) :
    ((values M).map f)[t]? = some (f (entry M t)) := by
  rw [List.getElem?_map, values_get inside]
  rfl

/-- The text of both matrices, as the server sends it. -/
theorem matrices_text (A B : Mat) (after : List UInt8) :
    matText A ++ [newline] ++ matText B ++ [newline] ++ after =
      valuesText (values A) ++ newline :: (valuesText (values B) ++ newline :: after) := by
  rw [mat_text_eq, mat_text_eq]
  simp only [List.append_assoc, List.cons_append, List.nil_append]

/-- Both ways through the text store the same, whatever the arrays held. -/
theorem parse_matrices_text (tier : Tier) (useWorker : Bool) (A B : Mat) (after : List UInt8)
    (oldA oldB : Array32) :
    parseMatrices tier useWorker oldA oldB
        (valuesText (values A) ++ newline :: (valuesText (values B) ++ newline :: after)) =
      some (storedA ((values A).map Int32.ofNat) oldA,
        storedB ((values B).map Int32.ofNat) oldB) := by
  have readsA := reads_values (values_short A)
    (List.cons_ne_nil newline (valuesText (values B) ++ newline :: after))
  have readsB := reads_values (values_short B) (List.cons_ne_nil newline after)
  have many := length_map_values Int32.ofNat
  cases useWorker with
  | true =>
      have room : 64 ≤ (valuesText (values B) ++ newline :: after).length := by
        have long := values_text_length (values B)
        rw [length_values] at long
        unfold N at long
        rw [List.length_append]
        omega
      exact parse_matrices_worker (find_newline_spec tier (values_text_without (values A)) room)
        readsA (many A) readsB (many B) oldA oldB
  | false => exact parse_matrices_serial readsA (many A) readsB (many B) oldA oldB

theorem stored_A_entry (M : Mat) (A : Array32) {j : Nat} (inside : j < N * N) :
    storedA ((values M).map Int32.ofNat) A j = Int32.ofNat (entry M j) :=
  stored_A_get (length_map_values Int32.ofNat M) A (map_values_get _ inside)

theorem stored_B_entry (M : Mat) (B : Array32) {j : Nat} (inside : j < N * N) :
    storedB ((values M).map Int32.ofNat) B j = Int32.ofNat (entry M (slotB j)) :=
  stored_B_get _ B (map_values_get _ (slot_B_lt inside)) inside

/-- The run needs no byte after the text: it has the same result whatever follows, also when the
buffer ends there and a further read has none. -/
def ReadsOnly {Result : Type} (parse : List UInt8 → Option Result) (text : List UInt8)
    (result : Result) : Prop :=
  ∀ after, parse (text ++ after) = some result

/-- The worker, which starts behind the first newline, and the serial parser, which has counted
its way to it, leave the same matrices, the second one transposed. -/
theorem parse_paths_agree (A B : Mat) (oldA oldB : Array32) :
    ∃ filledA filledB,
      (∀ tier useWorker, ReadsOnly (parseMatrices tier useWorker oldA oldB)
        (matText A ++ [newline] ++ matText B ++ [newline]) (filledA, filledB)) ∧
      ∀ i k : Fin MATRIX_SIZE, filledA (i * N + k) = Int32.ofNat (A i k) ∧
        filledB (i * N + k) = Int32.ofNat (B k i) := by
  refine ⟨storedA ((values A).map Int32.ofNat) oldA, storedB ((values B).map Int32.ofNat) oldB,
    ?_, ?_⟩
  · intro tier useWorker after
    rw [matrices_text]
    exact parse_matrices_text tier useWorker A B after oldA oldB
  · intro i k
    have inside : (i * N + k : Nat) < N * N := by
      have row := i.isLt
      have column := k.isLt
      unfold MATRIX_SIZE at row column
      unfold N
      omega
    constructor
    · rw [stored_A_entry A oldA inside]
      exact congrArg Int32.ofNat (entry_eq A i k)
    · rw [stored_B_entry B oldB inside, slot_B_eq k.isLt]
      exact congrArg Int32.ofNat (entry_eq B k i)

end Finm327.Hft
