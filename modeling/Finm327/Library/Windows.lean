import Mathlib.Data.List.Basic

/-!
# Windows of a stream

Rounds open one after the other while messages come in. What is copied at some moment is
the round open then, with the messages that have come in since it opened; more can come in
afterwards, and are in no copy.
-/

namespace Finm327.Library.Windows

universe u v

/-- What one event of a stream is to its windows. -/
inductive Mark (Round : Type u) (Message : Type v) where
  | opened (round : Round)
  | took (message : Message)
  | copied
  | other

structure Window (Round : Type u) (Message : Type v) where
  round : Round
  messages : List Message

/-- The round that is open, and the windows copied so far. -/
structure Ledger (Round : Type u) (Message : Type v) where
  current : Window Round Message
  copies : List (Window Round Message)

variable {Round : Type u} {Message : Type v}

namespace Ledger

def follow (ledger : Ledger Round Message) : Mark Round Message → Ledger Round Message
  | .opened round => { ledger with current := ⟨round, []⟩ }
  | .took message =>
      { ledger with current := ⟨ledger.current.round, ledger.current.messages ++ [message]⟩ }
  | .copied => { ledger with copies := ledger.copies ++ [ledger.current] }
  | .other => ledger

/-- What a stream that starts in the given round comes to. -/
def after (first : Round) (marks : List (Mark Round Message)) : Ledger Round Message :=
  marks.foldl follow ⟨⟨first, []⟩, []⟩

theorem after_append_singleton (first : Round) (marks : List (Mark Round Message))
    (mark : Mark Round Message) :
    after first (marks ++ [mark]) = (after first marks).follow mark := by
  rw [after, List.foldl_append]
  rfl

end Ledger

/-- The windows that were copied, in order. -/
def windows (first : Round) (marks : List (Mark Round Message)) : List (Window Round Message) :=
  (Ledger.after first marks).copies

end Finm327.Library.Windows
