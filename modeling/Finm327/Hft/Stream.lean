import Finm327.Library.LineRecords
import Finm327.Hft.Answer

/-!
# The stream of challenges

The server sends its challenges one after the other on each connection. A challenge
is a record of four lines, and far shorter than the buffers of the clients.
-/

namespace Finm327.Hft

open Finm327.Library.DecimalText
open Finm327.Library.LineRecords

/-- The ids are those that a `long` can hold. -/
structure Challenge where
  cid : Nat
  fits : cid < 2 ^ 63
  A : Mat
  B : Mat

def Challenge.text (challenge : Challenge) : List UInt8 :=
  payload challenge.cid challenge.A challenge.B

def stream (challenges : List Challenge) : List UInt8 := challenges.flatMap Challenge.text

@[simp] theorem stream_nil : stream [] = [] := rfl

@[simp] theorem stream_cons (challenge : Challenge) (challenges : List Challenge) :
    stream (challenge :: challenges) = challenge.text ++ stream challenges := rfl

theorem text_eq (challenge : Challenge) :
    challenge.text = decimal challenge.cid ++ newline :: (decimal MATRIX_SIZE ++ newline ::
      (valuesText (values challenge.A) ++ newline ::
        (valuesText (values challenge.B) ++ [newline]))) := by
  have whole := payload_eq challenge.cid challenge.A challenge.B []
  rw [List.append_nil] at whole
  exact whole

theorem count_newline_eq_zero {text : List UInt8} (without : ∀ c ∈ text, c ≠ newline) :
    text.count newline = 0 :=
  List.count_eq_zero_of_not_mem fun member => without newline member rfl

theorem text_is_record (challenge : Challenge) : IsRecord newline 4 challenge.text := by
  constructor
  · rw [text_eq]
    simp only [List.count_append, List.count_cons_self, List.count_nil,
      count_newline_eq_zero (decimal_without _), count_newline_eq_zero (values_text_without _)]
  · exact ⟨_, rfl⟩

theorem length_values_text_le {values : List Nat} (short : ∀ v ∈ values, v < 1000) :
    (valuesText values).length ≤ 4 * values.length := by
  induction values with
  | nil => exact Nat.zero_le _
  | cons v values ih =>
      have text := values_text_cons v values []
      rw [List.append_nil, List.append_nil] at text
      have digits := (@length_decimal_le_iff v 3 (by decide)).mpr (short v List.mem_cons_self)
      have rest := ih fun w member => short w (List.mem_cons_of_mem v member)
      rw [text, List.length_append, List.length_cons, List.length_cons]
      omega

theorem length_text_le (challenge : Challenge) : challenge.text.length ≤ 131098 := by
  have id := (@length_decimal_le_iff challenge.cid 19 (by decide)).mpr
    (challenge.fits.trans (by decide))
  have size := (@length_decimal_le_iff MATRIX_SIZE 3 (by decide)).mpr (by decide)
  have entries : ∀ M : Mat, (valuesText (values M)).length ≤ 4 * (128 * 128) := by
    intro M
    have most := length_values_text_le (values_short M)
    rw [length_values] at most
    exact most
  have A := entries challenge.A
  have B := entries challenge.B
  rw [text_eq]
  simp only [List.length_append, List.length_cons, List.length_nil]
  omega

/-- The challenge with the given id and two zero matrices. -/
def blankChallenge (cid : Fin 1000) : Challenge where
  cid := cid
  fits := cid.isLt.trans (by decide)
  A := fun _ _ => ⟨0, modulo_positive⟩
  B := fun _ _ => ⟨0, modulo_positive⟩

end Finm327.Hft
