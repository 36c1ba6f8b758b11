import Mathlib.Algebra.Group.Nat.Defs
import Finm327.Hft.Server
import Finm327.Hft.Socket

/-!
# Receiving a challenge

Transcribes `recv_payload_busy` and the loop around it of `hft/src/client.cpp`.
-/

namespace Finm327.Hft

def PAYLOAD_MAX : Nat := 2 ^ 19

def BUSY_SPIN_BUDGET : Nat := 2 ^ 22

/-- The locals of `recv_payload_busy`. Once the budget is spent the call blocks until
something arrives. -/
structure Receiving where
  buf : List UInt8
  total : Nat
  seen : Nat
  idle : Nat
  blocked : Bool

/-- What both calls of `recv` do with bytes. -/
def Receiving.accept (call : Receiving) (bytes : List UInt8) : Receiving where
  buf := call.buf.take call.total ++ bytes ++ call.buf.drop (call.total + bytes.length)
  total := call.total + bytes.length
  seen := call.seen + bytes.count newline
  idle := 0
  blocked := false

/-- The result, the buffer and what is left on the socket. -/
def recvLoop (cap : Nat) : List Event → Receiving → Option (Int × List UInt8 × List Event)
  | [], call => if call.seen < 4 then none else some (call.total, call.buf, [])
  | event :: events, call =>
    if call.seen < 4 then
      match event with
      | .received bytes =>
        if bytes = [] then some (0, call.buf, events)
        else
          let room := cap - call.total
          let next := call.accept (bytes.take room)
          if next.total ≥ cap then
            some (-1, next.buf, .received (bytes.drop room) :: events)
          else recvLoop cap events next
      | .failed => some (-1, call.buf, events)
      | .wouldBlock =>
        if call.blocked then recvLoop cap events call
        else
          recvLoop cap events
            { call with idle := call.idle + 1, blocked := call.idle + 1 > BUSY_SPIN_BUDGET }
    else some (call.total, call.buf, event :: events)

def recvPayloadBusy (buf : List UInt8) (cap : Nat) (events : List Event) :
    Option (Int × List UInt8 × List Event) :=
  recvLoop cap events ⟨buf, 0, 0, 0, false⟩

/-- The main loop: what each call that succeeds returns and leaves in `recvbuf`. -/
def mainLoop : Nat → List UInt8 → List Event → List (Int × List UInt8)
  | 0, _, _ => []
  | turns + 1, recvbuf, events =>
    match recvPayloadBusy recvbuf PAYLOAD_MAX events with
    | none => []
    | some (got, recvbuf, events) =>
      if got ≤ 0 then [] else (got, recvbuf) :: mainLoop turns recvbuf events

end Finm327.Hft
