import Finm327.Hft.ClientNaive
import Finm327.Hft.Server
import Finm327.Hft.Socket

/-!
# The client of 2026

Transcribes `hftprojectstudent/hftclient2026/main.cpp`. It answers with the sum of
all entries of the product, and keeps in its buffer what arrives with a challenge.
-/

namespace Finm327.Hft2026

open Finm327.Library.DecimalText
open Finm327.Hft
open Function (update)

def MOD : Int64 := 997

def BUFCAP : Nat := 2 ^ 22

/-- `parse_val` has the body of `parse_int_s1`. -/
def parseVal (p : List UInt8) : Option (Int32 × List UInt8) := parseIntS1 p

/-- The polls of `recv_some`, then its blocking call, which waits through the events on
which a poll finds nothing. -/
def recvSome (cap : Nat) : Nat → List Event → Option (Int × List UInt8 × List Event)
  | _, [] => none
  | _, .received bytes :: events =>
    let got := bytes.take cap
    some (got.length, got,
      if bytes.length ≤ cap then events else .received (bytes.drop cap) :: events)
  | _, .failed :: events => some (-1, [], events)
  | 0, .wouldBlock :: events => recvSome cap 0 events
  | spin + 1, .wouldBlock :: events => recvSome cap spin events

/-- The newlines counted, and the position after the fourth. -/
def scan : Nat → Nat → List UInt8 → Nat × Nat
  | nl, _, [] => (nl, 0)
  | nl, i, c :: rest =>
    if c = newline then
      if nl + 1 = 4 then (nl + 1, i + 1) else scan (nl + 1) (i + 1) rest
    else scan nl (i + 1) rest

def parseCid : Int64 → List UInt8 → Option (Int64 × List UInt8)
  | _, [] => none
  | cid, c :: rest =>
    if isDigit c then parseCid (cid * 10 + (Int64.ofNat c.toNat - 48)) rest
    else some (cid, c :: rest)

def skipDigits : List UInt8 → Option (List UInt8)
  | [] => none
  | c :: rest => if isDigit c then skipDigits rest else some (c :: rest)

def addColumn (state : Array32 × List UInt8) (k : Nat) : Option (Array32 × List UInt8) := do
  let (v, p) ← parseVal state.2
  return (update state.1 k (state.1 k + v), p)

/-- The column sums of `A`. -/
def parseColumns (p : List UInt8) : Option (Array32 × List UInt8) :=
  (List.range N).foldlM (fun state _ => (List.range N).foldlM addColumn state) (fun _ => 0, p)

def addRow (state : Int32 × List UInt8) (_ : Nat) : Option (Int32 × List UInt8) := do
  let (v, p) ← parseVal state.2
  return (state.1 + v, p)

def addProduct (colA : Array32) (state : Int64 × List UInt8) (k : Nat) :
    Option (Int64 × List UInt8) := do
  let (s, p) ← (List.range N).foldlM addRow (0, state.2)
  return (state.1 + (colA k).toInt64 * s.toInt64, p)

def parseChecksum (colA : Array32) (p : List UInt8) : Option (Int64 × List UInt8) :=
  (List.range N).foldlM (addProduct colA) (0, p)

/-- The line that answers the challenge at the front of the buffer. -/
def answerLine (p : List UInt8) : Option (List UInt8) := do
  let (cid, p) ← parseCid 0 p
  let p ← skipDigits (p.drop 1)
  let (colA, p) ← parseColumns (p.drop 1)
  let (checksum, _) ← parseChecksum colA (p.drop 1)
  let ans := (checksum % MOD).toInt32
  return formatInt cid.toInt ++ [space] ++ formatInt ans.toInt ++ [newline]

/-- `held` is `have` in the source. -/
structure Client where
  buf : List UInt8
  held : Nat
  sent : List (List UInt8)
  solved : Nat

/-- How a pass through the main loop ends. `outside` is a read past the buffer. -/
inductive Turn
  | running (client : Client) (events : List Event)
  | waiting (client : Client)
  | overflow (client : Client)
  | disconnected (client : Client)
  | outside (client : Client)

def turn (client : Client) (events : List Event) : Turn :=
  let (nl, stop) := scan 0 0 (client.buf.take client.held)
  if nl < 4 then
    if client.held = BUFCAP then .overflow client
    else
      match recvSome (BUFCAP - client.held) (2 ^ 20) events with
      | none => .waiting client
      | some (r, bytes, events) =>
        if r ≤ 0 then .disconnected client
        else
          .running { client with
            buf := client.buf.take client.held ++ bytes ++
              client.buf.drop (client.held + bytes.length)
            held := client.held + bytes.length } events
  else
    match answerLine client.buf with
    | none => .outside client
    | some line =>
      let queued := (client.buf.drop stop).take (client.held - stop)
      .running
        { buf := queued ++ client.buf.drop (client.held - stop)
          held := client.held - stop
          sent := client.sent ++ [line]
          solved := client.solved + 1 } events

def serve : Nat → Client → List Event → Turn
  | 0, client, events => .running client events
  | turns + 1, client, events =>
    match turn client events with
    | .running client events => serve turns client events
    | stopped => stopped

def start (buf : List UInt8) : Client := ⟨buf, 0, [], 0⟩

end Finm327.Hft2026
