import Mathlib.Data.List.Basic

/-!
# Mailboxes behind a monitor

A producer puts messages into a queue and notifies; one thread takes them out and passes
each on. The queue is guarded by a mutex and a condition variable, but a flag that stops the
thread is not. A put is one critical section. The thread holds the mutex from a successful
test of its flag to the point where it parks, and gives it up while it passes a message on,
so a put or a stop can come between any two of its steps.
-/

namespace Finm327.Library.Mailboxes

universe u

/-- Where the thread is; it holds the mutex while it is evaluating, parking or draining. -/
inductive Phase (Message : Type u) where
  | unstarted
  | checking
  | locking
  | evaluating
  | parking
  | parked (notified : Bool)
  | draining
  | passing (message : Message)
  | relocking
  | finished
deriving DecidableEq

structure Mailbox (Message : Type u) where
  outbox : List Message
  running : Bool
  phase : Phase Message
  /-- The messages passed on so far. -/
  sent : List Message
deriving DecidableEq

variable {Message : Type u}

namespace Phase

def holdsMutex : Phase Message → Bool
  | .evaluating => true
  | .parking => true
  | .draining => true
  | _ => false

/-- A notification reaches the thread only where it is parked. -/
def notify : Phase Message → Phase Message
  | .parked _ => .parked true
  | phase => phase

/-- The message that is out of the queue and not passed on. -/
def inHand : Phase Message → List Message
  | .passing message => [message]
  | _ => []

@[simp] theorem in_hand_notify (phase : Phase Message) : phase.notify.inHand = phase.inHand := by
  cases phase <;> rfl

end Phase

namespace Mailbox

def empty : Mailbox Message := ⟨[], true, .unstarted, []⟩

def start (box : Mailbox Message) : Option (Mailbox Message) :=
  match box.phase with
  | .unstarted => some { box with phase := .checking }
  | _ => none

def put (message : Message) (box : Mailbox Message) : Option (Mailbox Message) :=
  if box.phase.holdsMutex then none
  else some { box with outbox := box.outbox ++ [message], phase := box.phase.notify }

/-- The flag is cleared and everyone notified, without the mutex. -/
def stop (box : Mailbox Message) : Mailbox Message :=
  { box with running := false, phase := box.phase.notify }

/-- A thread may wake although it was not notified. -/
def wake (box : Mailbox Message) : Option (Mailbox Message) :=
  match box.phase with
  | .parked _ => some { box with phase := .evaluating }
  | _ => none

/-- The next step of the thread; without a notification it stays parked. -/
def advance (box : Mailbox Message) : Option (Mailbox Message) :=
  match box.phase with
  | .unstarted => none
  | .checking => some { box with phase := if box.running then .locking else .finished }
  | .locking => some { box with phase := .evaluating }
  | .evaluating => some { box with
      phase := if !box.outbox.isEmpty || !box.running then .draining else .parking }
  | .parking => some { box with phase := .parked false }
  | .parked notified => if notified then some { box with phase := .evaluating } else none
  | .draining =>
      match box.outbox with
      | [] => some { box with phase := .checking }
      | message :: rest => some { box with outbox := rest, phase := .passing message }
  | .passing message => some { box with phase := .relocking, sent := box.sent ++ [message] }
  | .relocking => some { box with phase := .draining }
  | .finished => none

/-! ## Nothing is lost, repeated or reordered -/

/-- Everything ever put into the box, in order. -/
def content (box : Mailbox Message) : List Message := box.sent ++ box.phase.inHand ++ box.outbox

variable {box next : Mailbox Message}

theorem content_start (started : box.start = some next) : next.content = box.content := by
  unfold start at started
  split at started
  · rename_i unstarted
    cases started
    simp [content, unstarted, Phase.inHand]
  · cases started

theorem content_put {message : Message} (accepted : box.put message = some next) :
    next.content = box.content ++ [message] := by
  unfold put at accepted
  split_ifs at accepted
  cases accepted
  simp [content]

theorem content_stop (box : Mailbox Message) : box.stop.content = box.content := by
  simp [content, stop]

theorem content_wake (woken : box.wake = some next) : next.content = box.content := by
  unfold wake at woken
  split at woken
  · rename_i parked
    cases woken
    simp [content, parked, Phase.inHand]
  · cases woken

theorem content_advance (moved : box.advance = some next) : next.content = box.content := by
  unfold advance at moved
  unfold content
  split at moved <;> rename_i phase
  · cases moved
  · cases moved
    rw [phase]
    cases box.running <;> rfl
  · cases moved
    rw [phase]
    rfl
  · cases moved
    rw [phase]
    split_ifs <;> rfl
  · cases moved
    rw [phase]
    rfl
  · split_ifs at moved
    cases moved
    rw [phase]
    rfl
  · split at moved <;> rename_i waiting
    · cases moved
      rw [phase, waiting]
      rfl
    · cases moved
      simp [phase, waiting, Phase.inHand]
  · cases moved
    simp [phase, Phase.inHand]
  · cases moved
    rw [phase]
    rfl
  · cases moved

/-! ## What a step passes on -/

theorem sent_start (started : box.start = some next) :
    next.sent = box.sent ∧ next.running = box.running := by
  unfold start at started
  split at started
  · cases started
    simp
  · cases started

theorem sent_put {message : Message} (accepted : box.put message = some next) :
    next.sent = box.sent ∧ next.running = box.running := by
  unfold put at accepted
  split_ifs at accepted
  cases accepted
  simp

theorem sent_wake (woken : box.wake = some next) :
    next.sent = box.sent ∧ next.running = box.running := by
  unfold wake at woken
  split at woken
  · cases woken
    simp
  · cases woken

/-- The thread passes on what it has in its hand. -/
theorem sent_advance (moved : box.advance = some next) :
    next.sent = box.sent ++ box.phase.inHand ∧ next.running = box.running := by
  unfold advance at moved
  split at moved <;> rename_i phase
  · cases moved
  · cases moved
    simp [phase, Phase.inHand]
  · cases moved
    simp [phase, Phase.inHand]
  · cases moved
    simp [phase, Phase.inHand]
  · cases moved
    simp [phase, Phase.inHand]
  · split_ifs at moved
    cases moved
    simp [phase, Phase.inHand]
  · split at moved <;> cases moved <;> simp [phase, Phase.inHand]
  · cases moved
    simp [phase, Phase.inHand]
  · cases moved
    simp [phase, Phase.inHand]
  · cases moved

/-! ## No wake-up is lost -/

/-- A thread that is about to park, or is parked without a notification, has nothing to do,
and one that has finished was stopped. -/
structure Alert (box : Mailbox Message) : Prop where
  idle : box.phase = .parking ∨ box.phase = .parked false → box.outbox = []
  stopped : box.phase = .finished → box.running = false

theorem alert_empty : (empty : Mailbox Message).Alert := by
  constructor <;> simp [empty]

theorem alert_start (started : box.start = some next) : next.Alert := by
  unfold start at started
  split at started
  · cases started
    constructor <;> simp
  · cases started

/-- A put finds the mutex free, so it does not fall between the test and the parking. -/
theorem alert_put {message : Message} (alert : box.Alert)
    (accepted : box.put message = some next) : next.Alert := by
  unfold put at accepted
  split_ifs at accepted with held
  cases accepted
  have stopped := alert.stopped
  cases phase : box.phase <;> rw [phase] at held stopped
  all_goals constructor <;> simp_all [Phase.notify, Phase.holdsMutex]

theorem alert_stop (alert : box.Alert) : box.stop.Alert := by
  have idle := alert.idle
  unfold stop
  cases phase : box.phase <;> rw [phase] at idle
  all_goals constructor <;> simp_all [Phase.notify]

theorem alert_wake (woken : box.wake = some next) : next.Alert := by
  unfold wake at woken
  split at woken
  · cases woken
    constructor <;> simp
  · cases woken

theorem alert_advance (alert : box.Alert) (moved : box.advance = some next) : next.Alert := by
  unfold advance at moved
  split at moved <;> rename_i phase
  · cases moved
  · cases moved
    cases running : box.running <;> constructor <;> simp
  · cases moved
    constructor <;> simp
  · cases moved
    constructor
    · intro idle
      dsimp only at idle ⊢
      split_ifs at idle with busy
      · simp at idle
      · cases waiting : box.outbox with
        | nil => rfl
        | cons message rest => simp [waiting] at busy
    · intro contrary
      dsimp only at contrary
      split_ifs at contrary
  · cases moved
    exact ⟨fun _ => alert.idle (.inl phase), nofun⟩
  · split_ifs at moved
    cases moved
    constructor <;> simp
  · split at moved
    · cases moved
      constructor <;> simp
    · cases moved
      constructor <;> simp
  · cases moved
    constructor <;> simp
  · cases moved
    constructor <;> simp
  · cases moved

/-! ## The thread empties its box -/

/-- Some steps of the thread alone. -/
inductive Advances : Mailbox Message → Mailbox Message → Prop
  | done (box : Mailbox Message) : Advances box box
  | step {box next last : Mailbox Message} (moved : box.advance = some next)
      (rest : Advances next last) : Advances box last

theorem Advances.trans {last : Mailbox Message} (first : Advances box next)
    (second : Advances next last) : Advances box last := by
  induction first with
  | done => exact second
  | step moved _ ih => exact .step moved (ih second)

theorem Advances.one (moved : box.advance = some next) : Advances box next := .step moved (.done _)

/-- From where it drains, the thread passes on all that waits. -/
theorem drains (waiting sent : List Message) (running : Bool) :
    Advances ⟨waiting, running, .draining, sent⟩ ⟨[], running, .checking, sent ++ waiting⟩ := by
  induction waiting generalizing sent with
  | nil =>
      rw [List.append_nil]
      exact .one rfl
  | cons message waiting ih =>
      have passed : Advances ⟨message :: waiting, running, .draining, sent⟩
          ⟨waiting, running, .draining, sent ++ [message]⟩ :=
        .step rfl (.step rfl (.one rfl))
      have rest := ih (sent ++ [message])
      rw [List.append_assoc, List.singleton_append] at rest
      exact passed.trans rest

/-- Where the thread is on its way to park with nothing to do. -/
theorem parks (sent : List Message) :
    Advances ⟨[], true, .checking, sent⟩ ⟨[], true, .parked false, sent⟩ :=
  .step rfl (.step rfl (.step rfl (.one rfl)))

theorem parks_of_draining (waiting sent : List Message) :
    Advances ⟨waiting, true, .draining, sent⟩ ⟨[], true, .parked false, sent ++ waiting⟩ :=
  (drains waiting sent true).trans (parks (sent ++ waiting))

theorem parks_of_evaluating (waiting sent : List Message) :
    Advances ⟨waiting, true, .evaluating, sent⟩ ⟨[], true, .parked false, sent ++ waiting⟩ := by
  cases waiting with
  | nil =>
      rw [List.append_nil]
      exact .step rfl (.one rfl)
  | cons message waiting => exact .step rfl (parks_of_draining _ _)

/-- A thread that was started and not stopped passes on everything by itself, and parks. -/
theorem advances_all (alert : box.Alert) (running : box.running = true)
    (started : box.phase ≠ .unstarted) :
    Advances box ⟨[], true, .parked false, box.content⟩ := by
  obtain ⟨outbox, flag, phase, sent⟩ := box
  dsimp only at running started
  subst running
  cases phase with
  | unstarted => exact absurd rfl started
  | finished => exact Bool.noConfusion (alert.stopped rfl : true = false)
  | checking =>
      have rest := parks_of_evaluating outbox sent
      exact .step rfl (.step rfl (by simpa [content, Phase.inHand] using rest))
  | locking =>
      have rest := parks_of_evaluating outbox sent
      exact .step rfl (by simpa [content, Phase.inHand] using rest)
  | evaluating => simpa [content, Phase.inHand] using parks_of_evaluating outbox sent
  | parking =>
      have nothing : outbox = [] := alert.idle (.inl rfl)
      subst nothing
      exact .one (by simp [advance, content, Phase.inHand])
  | parked notified =>
      cases notified with
      | false =>
          have nothing : outbox = [] := alert.idle (.inr rfl)
          subst nothing
          simpa [content, Phase.inHand] using Advances.done _
      | true =>
          have rest := parks_of_evaluating outbox sent
          exact .step rfl (by simpa [content, Phase.inHand] using rest)
  | draining => simpa [content, Phase.inHand] using parks_of_draining outbox sent
  | passing message =>
      have rest := parks_of_draining outbox (sent ++ [message])
      exact .step rfl (.step rfl (by simpa [content, Phase.inHand] using rest))
  | relocking =>
      have rest := parks_of_draining outbox sent
      exact .step rfl (by simpa [content, Phase.inHand] using rest)

end Mailbox

end Finm327.Library.Mailboxes
