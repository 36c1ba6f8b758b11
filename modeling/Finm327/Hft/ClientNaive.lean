import Finm327.Hft.Client

/-!
# The naive client

Transcribes `hft/src/client_naive.cpp`. Numbers are read with `operator>>`: white
space is skipped, then a sign and digits are taken; a number that is missing or
does not fit an `int` fails. A matrix of rows is kept as one array.
-/

namespace Finm327.Hft

open Finm327.Library.DecimalText
open Finm327.Library.ReadLoops

def isSpace (c : UInt8) : Bool := c = 32 || (9 ≤ c && c ≤ 13)

def isDigit (c : UInt8) : Bool := 48 ≤ c && c ≤ 57

/-- The magnitude after the sign. -/
def readMagnitude (p : List UInt8) : Option (Nat × List UInt8) :=
  if p.takeWhile isDigit = [] then none
  else some (digitsValue (p.takeWhile isDigit), p.dropWhile isDigit)

def readSigned : List UInt8 → Option (Int × List UInt8)
  | [] => none
  | c :: rest =>
    if c = 45 then (readMagnitude rest).map fun (n, q) => (-(n : Int), q)
    else if c = 43 then (readMagnitude rest).map fun (n, q) => ((n : Int), q)
    else (readMagnitude (c :: rest)).map fun (n, q) => ((n : Int), q)

def readInt (p : List UInt8) : Option (Int × List UInt8) :=
  match readSigned (p.dropWhile isSpace) with
  | none => none
  | some (value, p) =>
    if -2147483648 ≤ value ∧ value ≤ 2147483647 then some (value, p) else none

def readMatrix (p : List UInt8) : Option ((Nat → Int) × List UInt8) :=
  (List.range N).foldlM (fun state i =>
    (List.range N).foldlM (fun state j => readAt readInt state (i * N + j)) state) (fun _ => 0, p)

def matrixProduct (A B : Nat → Int) (i j : Nat) : Int :=
  (List.range N).foldl (fun c k => c + A (i * N + k) * B (k * N + j)) 0

def naiveAnswer (buf : List UInt8) : Option (List UInt8) := do
  let (_cid, p) ← readInt buf
  let (_n, p) ← readInt p
  let (A, p) ← readMatrix p
  let (B, _) ← readMatrix p
  let tr := (List.range N).foldl (fun tr i => tr + matrixProduct A B i i) 0
  return formatInt (reduceMod tr)

end Finm327.Hft
