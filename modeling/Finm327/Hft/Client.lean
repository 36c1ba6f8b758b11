import Finm327.Library.DecimalText
import Finm327.Library.ReadLoops
import Finm327.Hft.Trace

/-!
# The fast client

Transcribes the parsing and the answer of `hft/src/client.cpp`. A pointer into the
receive buffer is the list of the bytes from there to the end of the buffer, and a
read past the end has no result. Digits are unsigned 32-bit differences, which wrap
for bytes below `'0'`. The worker thread writes `B` while the main thread writes
`A`, so their loops are run one after the other.
-/

namespace Finm327.Hft

open Finm327.Library.DecimalText
open Finm327.Library.ReadLoops
open Function (update)

def digitOf (c : UInt8) : UInt32 := c.toUInt32 - 48

def parseIntS1 : List UInt8 → Option (Int32 × List UInt8)
  | c0 :: c1 :: c2 :: rest =>
    let d0 := digitOf c0
    let d1 := digitOf c1
    let d2 := digitOf c2
    if d1 ≥ 10 then some (d0.toInt32, c2 :: rest)
    else if d2 ≥ 10 then some ((d0 * 10 + d1).toInt32, rest)
    else some ((d0 * 100 + d1 * 10 + d2).toInt32, rest.drop 1)
  | _ => none

/-- The comparison mask of a chunk, lowest bit first. -/
def newlineMask : List UInt8 → Nat
  | [] => 0
  | c :: rest => (if c = 10 then 1 else 0) + 2 * newlineMask rest

/-- `__builtin_ctz` of a mask with the given number of bits. -/
def ctz : Nat → Nat → Nat
  | 0, _ => 0
  | bits + 1, m => if m % 2 = 1 then 0 else ctz bits (m / 2) + 1

def findNewlineWide (width : Nat) : Nat → List UInt8 → Option (List UInt8)
  | 0, _ => none
  | fuel + 1, p =>
    if p.length < width then none
    else
      let m := newlineMask (p.take width)
      if m ≠ 0 then some (p.drop (ctz width m)) else findNewlineWide width fuel (p.drop width)

def findNewlineScalar : List UInt8 → Option (List UInt8)
  | [] => none
  | c :: rest => if c ≠ 10 then findNewlineScalar rest else some (c :: rest)

def findNewline : Tier → List UInt8 → Option (List UInt8)
  | .avx512, p => findNewlineWide 64 p.length p
  | .avx2, p => findNewlineWide 32 p.length p
  | .scalar, p => findNewlineScalar p

abbrev Array32 := Nat → Int32

/-- Fills `A` in the order of the text. -/
def parseA (A : Array32) (p : List UInt8) : Option (Array32 × List UInt8) :=
  (List.range (N * N)).foldlM (readAt parseIntS1) (A, p)

/-- Fills `B` transposed. -/
def parseB (B : Array32) (p : List UInt8) : Option (Array32 × List UInt8) :=
  (List.range N).foldlM (fun state k =>
    (List.range N).foldlM (fun state i => readAt parseIntS1 state (i * N + k)) state) (B, p)

/-- Both ways to fill the matrices from the text after the header. -/
def parseMatrices (tier : Tier) (useWorker : Bool) (A B : Array32) (p : List UInt8) :
    Option (Array32 × Array32) :=
  if useWorker then do
    let aEnd ← findNewline tier p
    let workerP := aEnd.drop 1
    let (A, _) ← parseA A p
    let (B, _) ← parseB B workerP
    return (A, B)
  else do
    let (A, p) ← parseA A p
    let (B, _) ← parseB B (p.drop 1)
    return (A, B)

/-- `snprintf` with `%d`. -/
def formatInt : Int → List UInt8
  | .ofNat n => decimal n
  | .negSucc n => 45 :: decimal (n + 1)

def reduceMod (tr : Int) : Int := (tr.tmod MOD + MOD).tmod MOD

/-- What the main loop sends for the challenge in `recvbuf`. -/
def clientAnswer (tier : Tier) (useWorker : Bool) (A B : Array32) (recvbuf : List UInt8) :
    Option (List UInt8) := do
  let (_cid, p) ← parseIntS1 recvbuf
  let (_n, p) ← parseIntS1 p
  let (A, B) ← parseMatrices tier useWorker A B p
  return formatInt (reduceMod (traceABT tier A B).toInt)

end Finm327.Hft
