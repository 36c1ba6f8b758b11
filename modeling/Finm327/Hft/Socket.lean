import Mathlib.Data.List.Basic

/-!
# What a socket returns

A client sees its connection as the sequence of results of `recv`. A list of events
stands for what the calls of one session return, in order, when the buffer that is
offered has room; the end of the list is a connection on which nothing more happens.
-/

namespace Finm327.Hft

/-- Nothing received is an orderly close by the server. -/
inductive Event
  | received (bytes : List UInt8)
  | wouldBlock
  | failed
deriving DecidableEq

def Event.bytes : Event → List UInt8
  | .received bytes => bytes
  | .wouldBlock => []
  | .failed => []

def bytesOf (events : List Event) : List UInt8 := events.flatMap Event.bytes

/-- The connection stays open: a poll finds some bytes or nothing yet. -/
def Event.Open : Event → Prop
  | .received bytes => bytes ≠ []
  | .wouldBlock => True
  | .failed => False

def Open (events : List Event) : Prop := ∀ event ∈ events, event.Open

@[simp] theorem bytes_of_nil : bytesOf [] = [] := rfl

@[simp] theorem bytes_of_cons (event : Event) (events : List Event) :
    bytesOf (event :: events) = event.bytes ++ bytesOf events := rfl

theorem bytes_of_append (before after : List Event) :
    bytesOf (before ++ after) = bytesOf before ++ bytesOf after := List.flatMap_append

theorem bytes_of_take_drop (events : List Event) (m : Nat) :
    bytesOf (events.take m) ++ bytesOf (events.drop m) = bytesOf events := by
  rw [← bytes_of_append, List.take_append_drop]

theorem bytes_of_take_split (events : List Event) {m n : Nat} (before : m ≤ n) :
    bytesOf (events.take n) = bytesOf (events.take m) ++ bytesOf ((events.drop m).take (n - m)) := by
  have whole : n = m + (n - m) := by omega
  rw [whole, List.take_add, bytes_of_append, Nat.add_sub_cancel_left]

theorem open_tail {event : Event} {events : List Event} (live : Open (event :: events)) :
    Open events := fun other member => live other (List.mem_cons_of_mem event member)

theorem open_drop {events : List Event} (live : Open events) (m : Nat) : Open (events.drop m) :=
  fun event member => live event (List.mem_of_mem_drop member)

end Finm327.Hft
