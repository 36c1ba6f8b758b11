import Mathlib.Algebra.Group.Nat.Defs
import Mathlib.Data.List.Basic
import Mathlib.Data.Nat.Init

/-!
# Numbers as decimal text

The ASCII text of a natural number, one digit at a time, and what a reader of
digits gets back from it.
-/

namespace Finm327.Library.DecimalText

def digitByte (d : Nat) : UInt8 := UInt8.ofNat (48 + d)

def decimal (n : Nat) : List UInt8 := (Nat.toDigits 10 n).map fun c => UInt8.ofNat c.toNat

theorem digit_byte_to_nat {d : Nat} (small : d < 10) : (digitByte d).toNat = 48 + d :=
  UInt8.toNat_ofNat_of_lt' (by
    have room : 48 + d < 256 := by omega
    exact room)

theorem digit_char_byte {d : Nat} (small : d < 10) :
    UInt8.ofNat d.digitChar.toNat = digitByte d := by
  rw [Nat.toNat_digitChar_of_lt_ten small]
  rfl

theorem decimal_of_lt {n : Nat} (small : n < 10) : decimal n = [digitByte n] := by
  rw [decimal, Nat.toDigits_of_lt_base small, List.map_singleton, digit_char_byte small]

theorem decimal_step {n : Nat} (large : 10 ≤ n) :
    decimal n = decimal (n / 10) ++ [digitByte (n % 10)] := by
  rw [decimal, Nat.toDigits_of_base_le (by omega) large, List.map_append, List.map_singleton,
    digit_char_byte (Nat.mod_lt n (by omega))]
  rfl

theorem length_decimal_le_iff {n k : Nat} (positive : 0 < k) :
    (decimal n).length ≤ k ↔ n < 10 ^ k := by
  rw [decimal, List.length_map]
  exact Nat.length_toDigits_le_iff (by omega) positive

theorem decimal_ne_nil (n : Nat) : decimal n ≠ [] := by
  rw [decimal, ne_eq, List.map_eq_nil_iff]
  exact Nat.toDigits_ne_nil

/-- Induction on the text: a last digit after the text of the rest. -/
theorem decimal_induction {motive : Nat → Prop} (small : ∀ n, n < 10 → motive n)
    (step : ∀ n, 10 ≤ n → motive (n / 10) → motive n) (n : Nat) : motive n := by
  induction n using Nat.strongRecOn with
  | ind n ih =>
      by_cases short : n < 10
      · exact small n short
      · exact step n (by omega) (ih (n / 10) (by omega))

theorem decimal_digits (n : Nat) : ∀ c ∈ decimal n, ∃ d, d < 10 ∧ c = digitByte d := by
  induction n using decimal_induction with
  | small n small =>
      intro c member
      rw [decimal_of_lt small, List.mem_singleton] at member
      exact ⟨n, small, member⟩
  | step n large ih =>
      intro c member
      rw [decimal_step large, List.mem_append, List.mem_singleton] at member
      cases member with
      | inl before => exact ih c before
      | inr last => exact ⟨n % 10, Nat.mod_lt n (by omega), last⟩

/-- The value of a run of digit bytes, read from the left. -/
def digitsValue (text : List UInt8) : Nat :=
  text.foldl (fun value c => value * 10 + (c.toNat - 48)) 0

theorem digits_value_decimal (n : Nat) : digitsValue (decimal n) = n := by
  induction n using decimal_induction with
  | small n small =>
      rw [decimal_of_lt small, digitsValue, List.foldl_cons, List.foldl_nil,
        digit_byte_to_nat small]
      omega
  | step n large ih =>
      rw [digitsValue] at ih
      rw [decimal_step large, digitsValue, List.foldl_append, ih, List.foldl_cons,
        List.foldl_nil, digit_byte_to_nat (Nat.mod_lt n (by omega))]
      omega

/-- The texts of one, two and three digits. -/
theorem decimal_cases {n : Nat} (short : n < 1000) :
    (n < 10 ∧ decimal n = [digitByte n]) ∨
      (10 ≤ n ∧ n < 100 ∧ decimal n = [digitByte (n / 10), digitByte (n % 10)]) ∨
      (100 ≤ n ∧ decimal n =
        [digitByte (n / 100), digitByte (n / 10 % 10), digitByte (n % 10)]) := by
  by_cases one : n < 10
  · exact .inl ⟨one, decimal_of_lt one⟩
  · have tens : decimal n = decimal (n / 10) ++ [digitByte (n % 10)] := decimal_step (by omega)
    by_cases two : n < 100
    · rw [decimal_of_lt (by omega : n / 10 < 10)] at tens
      exact .inr (.inl ⟨by omega, two, tens⟩)
    · rw [decimal_step (by omega : 10 ≤ n / 10), decimal_of_lt (by omega : n / 10 / 10 < 10),
        Nat.div_div_eq_div_mul] at tens
      exact .inr (.inr ⟨by omega, tens⟩)

/-- The text of a longer number starts with the text of its leading digits. -/
theorem decimal_leading {n j : Nat} (large : 100 * 10 ^ j ≤ n) (small : n < 1000 * 10 ^ j) :
    ∃ tail : List Nat, tail.length = j ∧ (∀ d ∈ tail, d < 10) ∧
      decimal n = decimal (n / 10 ^ j) ++ tail.map digitByte := by
  induction j generalizing n with
  | zero => exact ⟨[], rfl, by simp, by simp⟩
  | succ j ih =>
      rw [Nat.pow_succ] at large small
      obtain ⟨tail, length, digits, text⟩ := @ih (n / 10) (by omega) (by omega)
      refine ⟨tail ++ [n % 10], ?_, ?_, ?_⟩
      · rw [List.length_append, length, List.length_singleton]
      · intro d member
        rw [List.mem_append, List.mem_singleton] at member
        cases member with
        | inl before => exact digits d before
        | inr last => omega
      · rw [decimal_step (by omega), text, Nat.div_div_eq_div_mul, Nat.pow_succ,
          Nat.mul_comm 10, List.map_append, List.append_assoc]
        rfl

theorem decimal_injective {m n : Nat} (same : decimal m = decimal n) : m = n := by
  rw [← digits_value_decimal m, ← digits_value_decimal n, same]

end Finm327.Library.DecimalText
