import Finm327.Hft.Decode
import Finm327.Hft2026.Client

/-!
# The parser of the correctness bench

Transcribes `parse_int` and `make_payload` of `hft/bench/correctness.cpp`. The bench checks its
own parser against the stream operator; the client runs another one, which skips the
separator after a number where this one skips what stands before it.
-/

namespace Finm327.Hft

open Finm327.Library.DecimalText
open Finm327.Library.ReadLoops

/-- `while (*p < '0') ++p;`, where `char` is signed. -/
def skipSeparators (p : List UInt8) : List UInt8 := p.dropWhile fun c => c.toInt8 < 48

def parseInt (p : List UInt8) : Option (Int32 × List UInt8) :=
  match skipSeparators p with
  | c0 :: c1 :: rest =>
    let d0 := digitOf c0
    let d1 := digitOf c1
    if d1 ≥ 10 then some (d0.toInt32, c1 :: rest)
    else
      match rest with
      | c2 :: rest =>
        let d2 := digitOf c2
        if d2 ≥ 10 then some ((d0 * 10 + d1).toInt32, c2 :: rest)
        else some ((d0 * 100 + d1 * 10 + d2).toInt32, rest)
      | [] => none
  | _ => none

/-- The numbers that `rng` gives are parameters. -/
def makePayload (cid : Nat) (A B : Mat) : List UInt8 :=
  decimal cid ++ [newline] ++ decimal N ++ [newline] ++ matText A ++ [newline] ++ matText B ++
    [newline]

/-! ## One number -/

theorem digit_byte_kept {d : Nat} (small : d < 10) : ¬ (digitByte d).toInt8 < 48 := by
  have all : ∀ d : Fin 10, ¬ (digitByte d).toInt8 < 48 := by decide
  exact all ⟨d, small⟩

theorem skip_separators_digit {blanks : List UInt8} (skipped : ∀ c ∈ blanks, c.toInt8 < 48)
    {d : Nat} (small : d < 10) (rest : List UInt8) :
    skipSeparators (blanks ++ digitByte d :: rest) = digitByte d :: rest := by
  unfold skipSeparators
  rw [List.dropWhile_append_of_pos (by simpa using skipped),
    List.dropWhile_cons_of_neg (by simpa using digit_byte_kept small)]

/-- What stands before the number is skipped; the separator after it stays. -/
theorem parse_int_number {v : Nat} (short : v < 1000) {blanks : List UInt8}
    (skipped : ∀ c ∈ blanks, c.toInt8 < 48) {sep : UInt8} (separator : digitOf sep ≥ 10)
    (rest : List UInt8) :
    parseInt (blanks ++ (decimal v ++ sep :: rest)) = some (Int32.ofNat v, sep :: rest) := by
  rcases decimal_cases short with ⟨one, text⟩ | ⟨_, two, text⟩ | ⟨_, text⟩
  · rw [text, List.singleton_append, parseInt, skip_separators_digit skipped one]
    simp only [digit_of_digit_byte one, if_pos separator]
    rfl
  · have first : v / 10 < 10 := by omega
    have second : v % 10 < 10 := by omega
    have value : v / 10 * 10 + v % 10 = v := by omega
    rw [text, List.cons_append, List.singleton_append, parseInt,
      skip_separators_digit skipped first]
    simp only [digit_of_digit_byte first, digit_of_digit_byte second,
      if_neg (not_separator second), if_pos separator, two_digits, value]
    rfl
  · have first : v / 100 < 10 := by omega
    have second : v / 10 % 10 < 10 := by omega
    have third : v % 10 < 10 := by omega
    have value : v / 100 * 100 + v / 10 % 10 * 10 + v % 10 = v := by omega
    rw [text, List.cons_append, List.cons_append, List.singleton_append, parseInt,
      skip_separators_digit skipped first]
    simp only [digit_of_digit_byte first, digit_of_digit_byte second, digit_of_digit_byte third,
      if_neg (not_separator second), if_neg (not_separator third), three_digits, value]
    rfl

/-! ## A list of numbers -/

/-- Where a parser that leaves the separators to its next call stands after the last one. -/
def lastSeparator (blanks : List UInt8) (values : List Nat) (after : List UInt8) : List UInt8 :=
  if values = [] then blanks ++ after else space :: after

theorem space_skipped : ∀ c ∈ [space], c.toInt8 < 48 :=
  List.forall_mem_singleton.mpr (by decide)

theorem newline_skipped : ∀ c ∈ [newline], c.toInt8 < 48 :=
  List.forall_mem_singleton.mpr (by decide)

theorem reads_int_list {values : List Nat} (short : ∀ v ∈ values, v < 1000) {blanks : List UInt8}
    (skipped : ∀ c ∈ blanks, c.toInt8 < 48) (after : List UInt8) :
    Reads parseInt (blanks ++ (valuesText values ++ after)) (values.map Int32.ofNat)
      (lastSeparator blanks values after) := by
  induction values generalizing blanks with
  | nil => exact .done _
  | cons v values ih =>
      have reads := ih (fun w member => short w (List.mem_cons_of_mem v member)) space_skipped
      have same : lastSeparator [space] values after =
          lastSeparator blanks (v :: values) after := by
        simp [lastSeparator]
      rw [values_text_cons]
      apply Reads.one
      · exact parse_int_number (short v List.mem_cons_self) skipped space_separates _
      · rw [← same]
        exact reads

theorem make_payload_text (cid : Nat) (A B : Mat) :
    makePayload cid A B = decimal cid ++ newline :: (decimal N ++ newline ::
      (valuesText (values A) ++ newline :: (valuesText (values B) ++ [newline]))) := by
  unfold makePayload
  rw [mat_text_eq, mat_text_eq]
  simp only [List.append_assoc, List.cons_append, List.nil_append]

/-- The header and both matrices of a payload, one number after the other. -/
theorem bench_reads_payload {cid : Nat} (short : cid < 1000) (A B : Mat) :
    Reads parseInt (makePayload cid A B)
      ([Int32.ofNat cid, Int32.ofNat N] ++ (values A).map Int32.ofNat ++
        (values B).map Int32.ofNat) [space, newline] := by
  have stops (M : Mat) (blanks after : List UInt8) :
      lastSeparator blanks (values M) after = space :: after := by
    have some : values M ≠ [] := by
      rw [← List.length_pos_iff, length_values]
      decide
    rw [lastSeparator, if_neg some]
  have blanks : ∀ c ∈ [space, newline], c.toInt8 < 48 :=
    List.forall_mem_cons.mpr ⟨by decide, newline_skipped⟩
  have readsB := reads_int_list (values_short B) blanks [newline]
  have readsA := reads_int_list (values_short A) newline_skipped
    (newline :: (valuesText (values B) ++ [newline]))
  rw [stops] at readsA readsB
  have size := parse_int_number (show N < 1000 by decide) newline_skipped newline_separates
    (valuesText (values A) ++ newline :: (valuesText (values B) ++ [newline]))
  have header := parse_int_number short (List.forall_mem_nil _) newline_separates
    (decimal N ++ newline :: (valuesText (values A) ++
      newline :: (valuesText (values B) ++ [newline])))
  rw [make_payload_text, List.append_assoc]
  exact .one header (.one size (readsA.append readsB))

/-! ## The parsers agree -/

/-- All three parsers get a list of entries back from its text. The two that skip the separator
after a number stop at its end, the one of the bench on the last separator. -/
theorem parsers_agree {values : List Nat} (small : ∀ v ∈ values, v ≤ 996) (after : List UInt8) :
    readMany parseInt values.length (valuesText values ++ after) =
        some (values.map Int32.ofNat, lastSeparator [] values after) ∧
      (lastReadable values after →
        readMany parseIntS1 values.length (valuesText values ++ after) =
            some (values.map Int32.ofNat, after) ∧
          readMany Hft2026.parseVal values.length (valuesText values ++ after) =
            some (values.map Int32.ofNat, after)) := by
  have short : ∀ v ∈ values, v < 1000 := by
    intro v member
    have bound := small v member
    omega
  have many : (values.map Int32.ofNat).length = values.length := List.length_map _
  constructor
  · have bench := (reads_int_list short (List.forall_mem_nil _) after).read_many
    rw [many] at bench
    exact bench
  · intro readable
    have client := (reads_values_last short readable).read_many
    rw [many] at client
    exact ⟨client, client⟩

/-- Entries of one, two and three digits, the last one of a single digit. -/
theorem parsers_agree_sample :
    readMany parseInt 4 (valuesText [7, 42, 996, 0] ++ [newline]) =
        some (([7, 42, 996, 0] : List Nat).map Int32.ofNat, [space, newline]) ∧
      readMany parseIntS1 4 (valuesText [7, 42, 996, 0] ++ [newline]) =
        some (([7, 42, 996, 0] : List Nat).map Int32.ofNat, [newline]) ∧
      readMany Hft2026.parseVal 4 (valuesText [7, 42, 996, 0] ++ [newline]) =
        some (([7, 42, 996, 0] : List Nat).map Int32.ofNat, [newline]) := by
  obtain ⟨bench, clients⟩ := @parsers_agree [7, 42, 996, 0] (by decide) [newline]
  exact ⟨bench, clients (by simp [lastReadable])⟩

/-- Nothing follows the separator of a single digit: the clients' parsers load a byte past the
end, and the parser of the bench has its number without. -/
theorem last_byte_missing :
    readMany parseIntS1 1 (valuesText [5] ++ []) = none ∧
      readMany Hft2026.parseVal 1 (valuesText [5] ++ []) = none ∧
      readMany parseInt 1 (valuesText [5] ++ []) = some ([5], [space]) := by
  have text : valuesText [5] ++ [] = [digitByte 5, space] := by
    simp [valuesText, decimal_of_lt (show 5 < 10 by decide)]
  rw [text]
  decide

end Finm327.Hft
