import Finm327.Hft.Answer

/-!
# Challenge ids of more than three digits

From id 1000 on the parser stops inside the header: the fourth digit is taken for
the separator, the size is read from what is left of the id, and the entries of
`A` start in the header. The worker looks for the newline after `A` from there and
finds one that ends a header line, so it parses `B` from the text of `A`. With a
single one in both matrices the sum that is left has one term.
-/

namespace Finm327.Hft

open Finm327.Library.DecimalText
open Finm327.Library.ReadLoops

/-- The matrix with a one in its first place and zeros elsewhere. -/
def unitMat : Mat := fun i k =>
  if i.val = 0 ∧ k.val = 0 then ⟨1, by decide⟩ else ⟨0, modulo_positive⟩

theorem entry_unit {t : Nat} (inside : t < N * N) : entry unitMat t = if t = 0 then 1 else 0 := by
  have row : t / MATRIX_SIZE < MATRIX_SIZE := by
    unfold MATRIX_SIZE N at *
    omega
  rw [entry, dif_pos row, unitMat]
  by_cases first : t = 0
  · subst first
    rfl
  · have other : ¬ (t / MATRIX_SIZE = 0 ∧ t % MATRIX_SIZE = 0) := by
      unfold MATRIX_SIZE
      omega
    rw [if_neg first, if_neg other]

theorem values_unit : values unitMat = 1 :: List.replicate (N * N - 1) 0 := by
  have size : N * N = 16384 := rfl
  apply List.ext_getElem?
  intro t
  by_cases inside : t < N * N
  · rw [values_get inside, entry_unit inside]
    cases t with
    | zero => rfl
    | succ t =>
        rw [List.getElem?_cons_succ, List.getElem?_replicate, if_neg (by omega), if_pos (by omega)]
  · rw [List.getElem?_eq_none (by rw [length_values]; omega),
      List.getElem?_eq_none (by rw [List.length_cons, List.length_replicate]; omega)]

theorem trace_product_unit : traceProduct unitMat unitMat = 1 := by
  have sum := trace_product_eq unitMat unitMat
  rw [Finset.sum_eq_single 0] at sum
  · have first : entry unitMat 0 = 1 := rfl
    have place : slotB 0 = 0 := rfl
    rw [place, first] at sum
    omega
  · intro j member other
    rw [entry_unit (Finset.mem_range.mp member), if_neg other]
    simp
  · intro absent
    exact absurd (Finset.mem_range.mpr (by decide : 0 < N * N)) absent

/-- The text of the unit matrix and what follows it. -/
def unitText (rest : List UInt8) : List UInt8 :=
  49 :: 32 :: (valuesText (List.replicate (N * N - 1) 0) ++ rest)

theorem unit_text_eq (rest : List UInt8) : valuesText (values unitMat) ++ rest = unitText rest := by
  rw [values_unit, values_text_cons]
  rfl

theorem unit_text_length (rest : List UInt8) : 64 ≤ (unitText rest).length := by
  have long := values_text_length (List.replicate (N * N - 1) 0)
  rw [List.length_replicate] at long
  unfold N at long
  rw [unitText, List.length_cons, List.length_cons, List.length_append]
  unfold N
  omega

theorem reads_zeros {count left : Nat} (split : N * N - 1 = count + left) {rest : List UInt8}
    (more : rest ≠ []) :
    ∃ q, Reads parseIntS1 (valuesText (List.replicate (N * N - 1) 0) ++ rest)
      (List.replicate count 0) q := by
  have text : valuesText (List.replicate (N * N - 1) 0) ++ rest =
      valuesText (List.replicate count 0) ++ (valuesText (List.replicate left 0) ++ rest) := by
    rw [split, ← List.replicate_append_replicate, valuesText, List.flatMap_append,
      List.append_assoc]
    rfl
  have short : ∀ v ∈ List.replicate count 0, v < 1000 := by
    intro v member
    rw [List.eq_of_mem_replicate member]
    omega
  have reads := reads_values short
    (List.append_ne_nil_of_right_ne_nil (valuesText (List.replicate left 0)) more)
  rw [List.map_replicate] at reads
  exact ⟨_, text ▸ reads⟩

theorem reads_unit {count left : Nat} (split : N * N - 1 = count + left) {rest : List UInt8}
    (more : rest ≠ []) :
    ∃ q, Reads parseIntS1 (unitText rest) (1 :: List.replicate count 0) q := by
  obtain ⟨q, zeros⟩ := reads_zeros split more
  have length : valuesText (List.replicate (N * N - 1) 0) ++ rest ≠ [] :=
    List.append_ne_nil_of_right_ne_nil _ more
  have one := parse_int_s1_number (show 1 < 1000 by omega) space_separates length
  exact ⟨q, .one one zeros⟩

/-! ## One term is left -/

def InBounds (v : Int32) : Prop := -30000 ≤ v.toInt ∧ v.toInt ≤ 996

theorem bounded_of_list {vs : List Int32} (many : vs.length = N * N)
    (small : ∀ v ∈ vs, InBounds v) {filled : Array32} {source : Nat → Nat}
    (within : ∀ j, j < N * N → source j < N * N)
    (entries : ∀ j v, vs[source j]? = some v → j < N * N → filled j = v) : Bounded filled := by
  intro j inside
  have place := @List.getElem?_eq_getElem _ vs (source j) (by rw [many]; exact within j inside)
  rw [entries j _ place inside]
  exact small _ (List.getElem_mem _)

theorem operand_zero (tier : Tier) : tier.operand 0 = 0 := by
  cases tier <;> rfl

theorem far_slot {j : Nat} (inside : j < N * N) (other : j ≠ 0) (otherToo : j ≠ N) :
    2 ≤ slotB j := by
  unfold slotB
  unfold N at *
  omega

/-- All but the first product are with a zero. -/
theorem single_product (tier : Tier) {filledA filledB : Array32} {x a1 a2 y b1 : Int32}
    (entriesA : ∀ j v, (x :: a1 :: a2 :: List.replicate (N * N - 3) 0)[j]? = some v → filledA j = v)
    (entriesB : ∀ j v, (y :: b1 :: List.replicate (N * N - 2) 0)[slotB j]? = some v →
      j < N * N → filledB j = v)
    (boundsA : InBounds x ∧ InBounds a1 ∧ InBounds a2) (boundsB : InBounds y ∧ InBounds b1) :
    (traceABT tier filledA filledB).toInt = tier.operand x * tier.operand y := by
  have size : N * N = 16384 := rfl
  have zero : InBounds 0 := ⟨by decide, by decide⟩
  have boundedA : Bounded filledA := by
    apply @bounded_of_list _ _ _ _ id _ (fun j v place _ => entriesA j v place)
    · rw [List.length_cons, List.length_cons, List.length_cons, List.length_replicate]
      omega
    · intro v member
      rw [List.mem_cons, List.mem_cons, List.mem_cons, List.mem_replicate] at member
      rcases member with rfl | rfl | rfl | ⟨_, rfl⟩
      · exact boundsA.1
      · exact boundsA.2.1
      · exact boundsA.2.2
      · exact zero
    · exact fun j inside => inside
  have boundedB : Bounded filledB := by
    apply @bounded_of_list _ _ _ _ slotB _ entriesB
    · rw [List.length_cons, List.length_cons, List.length_replicate]
      omega
    · intro v member
      rw [List.mem_cons, List.mem_cons, List.mem_replicate] at member
      rcases member with rfl | rfl | ⟨_, rfl⟩
      · exact boundsB.1
      · exact boundsB.2
      · exact zero
    · exact fun j inside => slot_B_lt inside
  rw [trace_AB_T_eq tier boundedA boundedB, Finset.sum_eq_single 0]
  · rw [entriesA 0 x rfl, entriesB 0 y rfl (by omega)]
  · intro j member other
    have inside := Finset.mem_range.mp member
    by_cases column : j = N
    · have none : filledA j = 0 := by
        apply entriesA
        rw [column]
        rfl
      rw [none, operand_zero, zero_mul]
    · have far := far_slot inside other column
      have none : filledB j = 0 := by
        apply entriesB j 0 _ inside
        obtain ⟨t, place⟩ := Nat.exists_eq_add_of_le' far
        have below := slot_B_lt inside
        rw [place, List.getElem?_cons_succ, List.getElem?_cons_succ, List.getElem?_replicate,
          if_pos (by omega)]
      rw [none, operand_zero, mul_zero]
  · intro absent
    exact absurd (Finset.mem_range.mpr (by omega)) absent

/-- What the client makes of a payload of unit matrices whose header leaves `p`. -/
structure Misread (tier : Tier) (p : List UInt8) (x y : Int32) : Prop where
  header : ∃ n q, parseIntS1 p = some (n, q) ∧
    (∃ pB, findNewline tier q = some (newline :: pB) ∧
      ∃ b1 r, InBounds b1 ∧
        Reads parseIntS1 pB (y :: b1 :: List.replicate (N * N - 2) 0) r) ∧
    ∃ a1 a2 r, InBounds a1 ∧ InBounds a2 ∧
      Reads parseIntS1 q (x :: a1 :: a2 :: List.replicate (N * N - 3) 0) r
  first : InBounds x
  firstToo : InBounds y

theorem misread_answer {tier : Tier} {recvbuf p : List UInt8} {c x y : Int32}
    (header : parseIntS1 recvbuf = some (c, p)) (misread : Misread tier p x y)
    (oldA oldB : Array32) :
    clientAnswer tier true oldA oldB recvbuf =
      some (formatInt (reduceMod (tier.operand x * tier.operand y))) := by
  have size : N * N = 16384 := rfl
  obtain ⟨n, q, sizeRead, ⟨pB, scan, b1, rB, boundB, readsB⟩, a1, a2, rA, bound1, bound2, readsA⟩ :=
    misread.header
  have manyA : (x :: a1 :: a2 :: List.replicate (N * N - 3) (0 : Int32)).length = N * N := by
    rw [List.length_cons, List.length_cons, List.length_cons, List.length_replicate]
    omega
  have manyB : (y :: b1 :: List.replicate (N * N - 2) (0 : Int32)).length = N * N := by
    rw [List.length_cons, List.length_cons, List.length_replicate]
    omega
  have ran := parse_matrices_worker scan readsA manyA readsB manyB oldA oldB
  rw [client_answer_of_header header sizeRead ran, single_product tier
    (fun _ _ => stored_A_get manyA oldA) (fun _ _ => stored_B_get _ oldB)
    ⟨misread.first, bound1, bound2⟩ ⟨misread.firstToo, boundB⟩]

/-! ## The four ways the header is read -/

theorem two_digit_value {e : Nat} {digits : List Nat} (first : e < 10)
    (small : ∀ d ∈ digits, d < 10) (short : digits.length ≤ 1) :
    digits.foldl (fun v d => v * 10 + d) e < 100 := by
  cases digits with
  | nil =>
      rw [List.foldl_nil]
      omega
  | cons f digits =>
      have below := small f List.mem_cons_self
      rw [List.length_cons] at short
      rw [List.eq_nil_of_length_eq_zero (by omega : digits.length = 0), List.foldl_cons,
        List.foldl_nil]
      omega

section Headers

variable {rest : List UInt8} (more : rest ≠ [])

/-- The size line and the text of both matrices. -/
def afterId (rest : List UInt8) : List UInt8 := 49 :: 50 :: 56 :: newline :: unitText rest

include more

theorem reads_unit_row {count : Nat} (fewer : count ≤ N * N - 1) :
    ∃ q, Reads parseIntS1 (unitText rest) (1 :: List.replicate count 0) q :=
  reads_unit (Nat.add_sub_cancel' fewer).symm more

/-- A newline taken for a digit, and the first entry with it. -/
theorem reads_newline_unit {count : Nat} (fewer : count ≤ N * N - 1) :
    ∃ q, Reads parseIntS1 (newline :: unitText rest) (-379 :: List.replicate count 0) q := by
  obtain ⟨q, zeros⟩ := reads_zeros (Nat.add_sub_cancel' fewer).symm more
  exact ⟨q, .one rfl zeros⟩

theorem reads_size_unit {count : Nat} (fewer : count ≤ N * N - 1) :
    ∃ q, Reads parseIntS1 (afterId rest) (128 :: 1 :: List.replicate count 0) q := by
  obtain ⟨q, unit⟩ := reads_unit_row more fewer
  exact ⟨q, .one rfl unit⟩

/-- Four digits. -/
theorem misread_four (tier : Tier) : Misread tier (newline :: afterId rest) (-379) 1 := by
  obtain ⟨rA, readsA⟩ := reads_newline_unit more (show N * N - 1 ≤ N * N - 1 from le_rfl)
  obtain ⟨rB, readsB⟩ := reads_unit_row more (show N * N - 1 ≤ N * N - 1 from le_rfl)
  refine ⟨⟨-3788, newline :: unitText rest, rfl, ⟨unitText rest, ?_, 0, rB, ?_, readsB⟩,
    0, 0, rA, ?_, ?_, readsA⟩, ?_, ?_⟩
  · exact @find_newline_spec tier [] _ (by simp) (unit_text_length rest)
  all_goals exact ⟨by decide, by decide⟩

/-- Eight digits: the size is read from the second four, and both header lines count
as entries of `A`. -/
theorem misread_eight (tier : Tier) {a b c d : Nat} (first : a < 10)
    (small : ∀ d ∈ [b, c], d < 10) :
    Misread tier ([a, b, c, d].map digitByte ++ newline :: afterId rest) (-3788) 128 := by
  obtain ⟨rA, readsA⟩ := reads_newline_unit more (show N * N - 2 ≤ N * N - 1 by decide)
  obtain ⟨rB, readsB⟩ := reads_size_unit more (show N * N - 2 ≤ N * N - 1 by decide)
  have size := @parse_int_s1_digits a [b, c] first small le_rfl (digitByte d) (by simp)
    (newline :: afterId rest) (by simp)
  refine ⟨⟨_, newline :: afterId rest, size, ⟨afterId rest, ?_, 1, rB, ?_, readsB⟩,
    -379, 0, rA, ?_, ?_, .one rfl readsA⟩, ?_, ?_⟩
  · exact @find_newline_spec tier [] _ (by simp) ((unit_text_length rest).trans (by simp [afterId]; omega))
  all_goals exact ⟨by decide, by decide⟩

/-- Nine or ten digits: what is left of the id is the first entry of `A`. -/
theorem misread_nine (tier : Tier) {a b c d e : Nat} {digits : List Nat} (first : a < 10)
    (small : ∀ d ∈ [b, c], d < 10) (fifth : e < 10) (smallToo : ∀ d ∈ digits, d < 10)
    (short : digits.length ≤ 1) :
    Misread tier ((a :: b :: c :: d :: e :: digits).map digitByte ++ newline :: afterId rest)
      (Int32.ofNat (digits.foldl (fun v d => v * 10 + d) e)) 128 := by
  obtain ⟨rA, readsA⟩ := reads_size_unit more (show N * N - 3 ≤ N * N - 1 by decide)
  obtain ⟨rB, readsB⟩ := reads_size_unit more (show N * N - 2 ≤ N * N - 1 by decide)
  have size := @parse_int_s1_digits a [b, c] first small le_rfl (digitByte d) (by simp)
    ((e :: digits).map digitByte ++ newline :: afterId rest) (by simp)
  have entry := @parse_int_s1_digits e digits fifth smallToo (by omega) newline
    (fun _ => newline_separates) (afterId rest) (by simp [afterId])
  have without : ∀ c ∈ (e :: digits).map digitByte, c ≠ newline := by
    intro c member
    obtain ⟨d, inside, same⟩ := List.mem_map.mp member
    have below : d < 10 := by
      rw [List.mem_cons] at inside
      cases inside with
      | inl head => omega
      | inr later => exact smallToo d later
    rw [← same]
    exact digit_byte_ne_newline below
  have below := two_digit_value fifth smallToo short
  have bounds := (operand_of_nat tier (below.trans (by decide))).1
  refine ⟨⟨_, (e :: digits).map digitByte ++ newline :: afterId rest, size, ⟨afterId rest, ?_,
    1, rB, ?_, readsB⟩, 128, 1, rA, ?_, ?_, .one entry readsA⟩, ?_, ?_⟩
  · exact find_newline_spec tier without ((unit_text_length rest).trans (by simp [afterId]; omega))
  · exact ⟨by decide, by decide⟩
  · exact ⟨by decide, by decide⟩
  · exact ⟨by decide, by decide⟩
  · unfold InBounds
    rw [bounds]
    omega
  · exact ⟨by decide, by decide⟩

/-- Five to seven digits: the size is read from what is left of the id. -/
theorem misread_five (tier : Tier) {a : Nat} {digits : List Nat} (first : a < 10)
    (small : ∀ d ∈ digits, d < 10) (short : digits.length ≤ 2) :
    Misread tier ((a :: digits).map digitByte ++ newline :: afterId rest) 128 1 := by
  obtain ⟨rA, readsA⟩ := reads_size_unit more (show N * N - 2 ≤ N * N - 1 by decide)
  obtain ⟨rB, readsB⟩ := reads_unit_row more (show N * N - 1 ≤ N * N - 1 from le_rfl)
  have size := @parse_int_s1_digits a digits first small short newline (fun _ => newline_separates)
    (afterId rest) (by simp [afterId])
  refine ⟨⟨_, afterId rest, size, ⟨unitText rest, ?_, 0, rB, ?_, readsB⟩,
    1, 0, rA, ?_, ?_, readsA⟩, ?_, ?_⟩
  · exact @find_newline_spec tier [49, 50, 56] _ (by simp [newline]) (unit_text_length rest)
  all_goals exact ⟨by decide, by decide⟩

end Headers

/-! ## No long id is answered -/

theorem exists_digit_count {cid : Nat} (long : 1000 ≤ cid) (fits : cid ≤ 2147483647) :
    ∃ j, 1 ≤ j ∧ j ≤ 7 ∧ 100 * 10 ^ j ≤ cid ∧ cid < 1000 * 10 ^ j := by
  by_cases four : cid < 10000
  · exact ⟨1, by omega⟩
  by_cases five : cid < 100000
  · exact ⟨2, by omega⟩
  by_cases six : cid < 1000000
  · exact ⟨3, by omega⟩
  by_cases seven : cid < 10000000
  · exact ⟨4, by omega⟩
  by_cases eight : cid < 100000000
  · exact ⟨5, by omega⟩
  by_cases nine : cid < 1000000000
  · exact ⟨6, by omega⟩
  · exact ⟨7, by omega⟩

/-- Whatever is left of a long id, the one product has the wrong remainder. -/
theorem misread_tail (tier : Tier) {rest : List UInt8} (more : rest ≠ []) {digits : List Nat}
    (small : ∀ d ∈ digits, d < 10) (short : digits.length ≤ 6) :
    ∃ x y, Misread tier (digits.map digitByte ++ newline :: afterId rest) x y ∧
      tier.operand x * tier.operand y % 997 ≠ 1 := by
  match digits with
  | [] => exact ⟨_, _, misread_four more tier, by cases tier <;> decide⟩
  | [a] =>
      exact ⟨_, _, misread_five more tier (small a (by simp)) (by simp) (by simp),
        by cases tier <;> decide⟩
  | [a, b] =>
      exact ⟨_, _, misread_five more tier (small a (by simp)) (by simp_all) (by simp),
        by cases tier <;> decide⟩
  | [a, b, c] =>
      exact ⟨_, _, misread_five more tier (small a (by simp)) (by simp_all) (by simp),
        by cases tier <;> decide⟩
  | [a, b, c, d] =>
      exact ⟨_, _, misread_eight more tier (small a (by simp)) (by simp_all),
        by cases tier <;> decide⟩
  | a :: b :: c :: d :: e :: last =>
      have fewer : last.length ≤ 1 := by
        simp only [List.length_cons] at short
        omega
      have lastSmall : ∀ d ∈ last, d < 10 := fun d member => small d (by simp [member])
      have below := two_digit_value (small e (by simp)) lastSmall fewer
      refine ⟨_, _, misread_nine more tier (small a (by simp)) (by simp_all) (small e (by simp))
        lastSmall fewer, ?_⟩
      have factor : tier.operand 128 = 128 := by cases tier <;> rfl
      rw [factor, (operand_of_nat tier (below.trans (by decide))).2]
      omega

theorem misread_payload (tier : Tier) {cid : Nat} (long : 1000 ≤ cid) (fits : cid ≤ 2147483647)
    (stale : List UInt8) :
    ∃ c p x y, parseIntS1 (payload cid unitMat unitMat ++ stale) = some (c, p) ∧
      Misread tier p x y ∧ tier.operand x * tier.operand y % 997 ≠ 1 := by
  obtain ⟨j, positive, bound, large, small⟩ := exists_digit_count long fits
  obtain ⟨tail, length, digits, text⟩ := decimal_leading large small
  obtain ⟨t, tail, same⟩ : ∃ t rest, tail = t :: rest :=
    List.exists_cons_of_length_pos (by omega)
  subst same
  obtain ⟨x, y, misread, wrong⟩ := @misread_tail tier
    (newline :: (valuesText (values unitMat) ++ newline :: stale)) (by simp) tail
    (fun d member => digits d (List.mem_cons_of_mem t member))
    (by rw [List.length_cons] at length; omega)
  refine ⟨Int32.ofNat (cid / 10 ^ j), _, x, y, ?_, misread, wrong⟩
  have leading : 100 ≤ cid / 10 ^ j ∧ cid / 10 ^ j < 1000 := by
    have positive : 0 < 10 ^ j := Nat.pow_pos (by omega)
    exact ⟨(Nat.le_div_iff_mul_le positive).mpr large, Nat.div_lt_of_lt_mul (by rwa [Nat.mul_comm])⟩
  rw [payload_eq, text, unit_text_eq]
  simp only [List.map_cons, List.append_assoc, List.cons_append]
  exact parse_int_s1_three leading.1 leading.2 _ _

/-- Both clients answer every challenge with this id by the trace it asks for. -/
def AnswersTrace (tier : Tier) (cid : Nat) : Prop :=
  ∀ (A B : Mat) (stale : List UInt8) (useWorker : Bool) (oldA oldB : Array32),
    clientAnswer tier useWorker oldA oldB (payload cid A B ++ stale) =
        some (decimal (traceProduct A B % MODULO)) ∧
      naiveAnswer (payload cid A B) = some (decimal (traceProduct A B % MODULO))

theorem answers_trace_iff (tier : Tier) {cid : Nat} (positive : 1 ≤ cid)
    (fits : cid ≤ 2147483647) : AnswersTrace tier cid ↔ cid ≤ 999 := by
  constructor
  · intro answers
    by_contra long
    obtain ⟨c, p, x, y, header, misread, wrong⟩ :=
      misread_payload tier (by omega) fits []
    have sent := (answers unitMat unitMat [] true (fun _ => 0) (fun _ => 0)).1
    rw [misread_answer header misread, reduce_mod_eq, trace_product_unit] at sent
    have remainder : ((tier.operand x * tier.operand y % 997).toNat : Int) =
        tier.operand x * tier.operand y % 997 := Int.toNat_of_nonneg (by omega)
    rw [← remainder] at sent
    have same := decimal_injective (Option.some.inj sent)
    have one : 1 % MODULO = 1 := rfl
    omega
  · intro short A B stale useWorker oldA oldB
    exact ⟨client_answer_eq tier useWorker (by omega) A B stale oldA oldB,
      naive_answer_eq fits A B⟩

theorem answers_trace_sample : AnswersTrace .avx2 24 :=
  (answers_trace_iff .avx2 (by decide) (by decide)).mpr (by decide)

/-- The first id with four digits, on the matrices whose trace is one. -/
theorem id_1000_misread :
    clientAnswer .avx2 true (fun _ => 0) (fun _ => 0) (payload 1000 unitMat unitMat) =
        some (decimal 0) ∧
      traceProduct unitMat unitMat % MODULO = 1 := by
  refine ⟨?_, by rw [trace_product_unit]; rfl⟩
  have text := payload_eq 1000 unitMat unitMat []
  rw [List.append_nil, unit_text_eq] at text
  have header : parseIntS1 (payload 1000 unitMat unitMat) = some (100, newline ::
      afterId (newline :: (valuesText (values unitMat) ++ newline :: []))) := by
    rw [text]
    exact parse_int_s1_three (show 100 ≤ 100 from le_rfl) (by omega) 48 _
  rw [misread_answer header (misread_four (List.cons_ne_nil _ _) .avx2)]
  rfl

end Finm327.Hft
