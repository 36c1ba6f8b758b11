import Finm327.Library.DecimalText

/-!
# The challenge server

Transcribes the serialisation in `broadcastChallengeLoop` of `hft/src/server.cpp`.
`generateMatrix` takes every entry modulo `MODULO`, so a matrix is a function into
the numbers below it.
-/

namespace Finm327.Hft

open Finm327.Library.DecimalText

def MATRIX_SIZE : Nat := 128

def MODULO : Nat := 997

theorem modulo_positive : 0 < MODULO := by decide

abbrev Mat := Fin MATRIX_SIZE → Fin MATRIX_SIZE → Fin MODULO

def newline : UInt8 := 10

def space : UInt8 := 32

def matText (M : Mat) : List UInt8 :=
  (List.finRange MATRIX_SIZE).flatMap fun i =>
    (List.finRange MATRIX_SIZE).flatMap fun j => decimal (M i j) ++ [space]

def payload (cid : Nat) (A B : Mat) : List UInt8 :=
  decimal cid ++ [newline] ++ decimal MATRIX_SIZE ++ [newline] ++ matText A ++ [newline] ++
    matText B ++ [newline]

end Finm327.Hft
