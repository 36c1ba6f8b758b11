import Finm327.Library.Mailboxes
import Finm327.Library.Runs

/-!
# The outboxes of the blast server

Transcribes the accept loop, the pushes of `broadcastChallengeLoop` and `senderThread` of
`hftprojectstudent/tools/blast_server.cpp`. The acceptor, the broadcaster, and a handler and
a sender for each client take turns in any order; a step is one system call, one critical
section or one test. `running` is a plain `bool` that two threads use, and is read as if it
were atomic. A handler that receives no name never starts its sender.
-/

namespace Finm327.Blast

open Finm327.Library.Mailboxes
open Finm327.Library.Runs

variable {Payload : Type}

structure ClientInfo (Payload : Type) where
  socket : Nat
  /-- `outbox`, `running` and where `senderThread` is. -/
  box : Mailbox Payload
deriving DecidableEq

/-- Where `startServer` is in its loop. -/
inductive Acceptor
  | accepting
  | accepted (socket : Nat)
deriving DecidableEq

/-- Where `broadcastChallengeLoop` is. It holds `clientsMutex` while it is pushing. -/
inductive Broadcaster (Payload : Type) where
  | computing
  | pushing (payload : Payload) (next : Nat)
deriving DecidableEq

structure Outboxes (Payload : Type) where
  clients : List (ClientInfo Payload)
  acceptor : Acceptor
  broadcaster : Broadcaster Payload
deriving DecidableEq

inductive Action (Payload : Type) where
  | accept (socket : Nat)
  | pushClient
  | lockClients (payload : Payload)
  | push
  | unlockClients
  | register (k : Nat)
  | sender (k : Nat)
  | wakeSender (k : Nat)
  | hangUp (k : Nat)
deriving DecidableEq

/-- What a step shows: that a client was added, or that a payload is broadcast. -/
inductive Event (Payload : Type) where
  | silent
  | joined
  | broadcast (payload : Payload)
deriving DecidableEq

/-- `client->running = false; client->cv.notify_all();`, at the end of a handler. -/
def hangUp (box : Mailbox Payload) : Option (Mailbox Payload) :=
  match box.phase with
  | .unstarted => none
  | _ => if box.running then some box.stop else none

namespace Outboxes

def initial : Outboxes Payload := ⟨[], .accepting, .computing⟩

/-- One thread changes the box of one client. -/
def withBox (server : Outboxes Payload) (k : Nat)
    (change : Mailbox Payload → Option (Mailbox Payload)) : Option (Outboxes Payload) :=
  match server.clients[k]? with
  | none => none
  | some client =>
      match change client.box with
      | none => none
      | some box => some { server with clients := server.clients.set k { client with box := box } }

def step (server : Outboxes Payload) :
    Action Payload → Option (Outboxes Payload × Event Payload)
  | .accept socket =>
      match server.acceptor with
      | .accepting => some ({ server with acceptor := .accepted socket }, .silent)
      | _ => none
  | .pushClient =>
      match server.acceptor, server.broadcaster with
      | .accepted _, .pushing _ _ => none
      | .accepted socket, _ =>
          some ({ server with
            clients := server.clients ++ [⟨socket, .empty⟩], acceptor := .accepting }, .joined)
      | _, _ => none
  | .lockClients payload =>
      match server.broadcaster with
      | .computing =>
          some ({ server with broadcaster := .pushing payload 0 }, .broadcast payload)
      | _ => none
  | .push =>
      match server.broadcaster with
      | .pushing payload next =>
          (server.withBox next (Mailbox.put payload)).map fun server =>
            ({ server with broadcaster := .pushing payload (next + 1) }, .silent)
      | _ => none
  | .unlockClients =>
      match server.broadcaster with
      | .pushing _ next =>
          if next = server.clients.length then
            some ({ server with broadcaster := .computing }, .silent)
          else none
      | _ => none
  | .register k => (server.withBox k Mailbox.start).map (·, .silent)
  | .sender k => (server.withBox k Mailbox.advance).map (·, .silent)
  | .wakeSender k => (server.withBox k Mailbox.wake).map (·, .silent)
  | .hangUp k => (server.withBox k hangUp).map (·, .silent)

/-- The payload that is being pushed and has not reached the client. -/
def pendingFor (server : Outboxes Payload) (k : Nat) : List Payload :=
  match server.broadcaster with
  | .pushing payload next => if next ≤ k then [payload] else []
  | .computing => []

end Outboxes

/-! ## What was broadcast since a client joined -/

namespace Event

def joins : List (Event Payload) → Nat
  | [] => 0
  | .joined :: rest => joins rest + 1
  | _ :: rest => joins rest

def payload : Event Payload → List Payload
  | .broadcast payload => [payload]
  | _ => []

/-- The payloads broadcast after the client number `k` was added. -/
def broadcastsSince : Nat → List (Event Payload) → List Payload
  | _, [] => []
  | 0, .joined :: rest => rest.flatMap payload
  | k + 1, .joined :: rest => broadcastsSince k rest
  | k, .silent :: rest => broadcastsSince k rest
  | k, .broadcast _ :: rest => broadcastsSince k rest

theorem joins_append (events : List (Event Payload)) (event : Event Payload) :
    joins (events ++ [event]) = joins events + joins [event] := by
  induction events with
  | nil => simp [joins]
  | cons first events ih =>
      cases first with
      | silent => exact ih
      | broadcast => exact ih
      | joined =>
          rw [List.cons_append, joins, ih, joins]
          omega

theorem broadcasts_since_append {k : Nat} {events : List (Event Payload)} (event : Event Payload)
    (before : k < joins events) :
    broadcastsSince k (events ++ [event]) = broadcastsSince k events ++ event.payload := by
  induction events generalizing k with
  | nil => exact absurd before (Nat.not_lt_zero k)
  | cons first events ih =>
      cases first with
      | silent => exact ih before
      | broadcast => exact ih before
      | joined =>
          cases k with
          | zero => simp [broadcastsSince]
          | succ k => exact ih (Nat.lt_of_succ_lt_succ before)

theorem broadcasts_since_joined (events : List (Event Payload)) :
    broadcastsSince (joins events) (events ++ [.joined]) = [] := by
  induction events with
  | nil => rfl
  | cons first events ih => cases first <;> exact ih

end Event

namespace Outboxes

/-! ## What a step does to the boxes -/

/-- Some changes of a box neither put anything in nor take anything away. -/
def Quiet (change : Mailbox Payload → Option (Mailbox Payload)) : Prop :=
  ∀ box next, change box = some next →
    next.content = box.content ∧ (box.Alert → next.Alert)

theorem quiet_start : Quiet (Mailbox.start : Mailbox Payload → _) :=
  fun _ _ changed => ⟨Mailbox.content_start changed, fun _ => Mailbox.alert_start changed⟩

theorem quiet_advance : Quiet (Mailbox.advance : Mailbox Payload → _) :=
  fun _ _ changed =>
    ⟨Mailbox.content_advance changed, fun alert => Mailbox.alert_advance alert changed⟩

theorem quiet_wake : Quiet (Mailbox.wake : Mailbox Payload → _) :=
  fun _ _ changed => ⟨Mailbox.content_wake changed, fun _ => Mailbox.alert_wake changed⟩

theorem quiet_hang_up : Quiet (hangUp : Mailbox Payload → _) := by
  intro box next changed
  unfold hangUp at changed
  split at changed
  · cases changed
  · split_ifs at changed
    cases changed
    exact ⟨Mailbox.content_stop box, Mailbox.alert_stop⟩

theorem with_box_eq_some {server next : Outboxes Payload} {k : Nat}
    {change : Mailbox Payload → Option (Mailbox Payload)}
    (changed : server.withBox k change = some next) :
    ∃ client box, server.clients[k]? = some client ∧ change client.box = some box ∧
      next = { server with clients := server.clients.set k { client with box := box } } := by
  unfold withBox at changed
  split at changed
  · cases changed
  · rename_i client listed
    split at changed
    · cases changed
    · rename_i box made
      cases changed
      exact ⟨client, box, listed, made, rfl⟩

/-- What an action can do, and when. -/
inductive Effect (server : Outboxes Payload) : Outboxes Payload → Event Payload → Prop
  | accept (socket : Nat) : Effect server { server with acceptor := .accepted socket } .silent
  | pushClient (socket : Nat)
      (unlocked : ∀ payload next, server.broadcaster ≠ .pushing payload next) :
      Effect server { server with
        clients := server.clients ++ [⟨socket, .empty⟩], acceptor := .accepting } .joined
  | lockClients (payload : Payload) (idle : server.broadcaster = .computing) :
      Effect server { server with broadcaster := .pushing payload 0 } (.broadcast payload)
  | push {payload : Payload} {place : Nat} {client : ClientInfo Payload} {box : Mailbox Payload}
      (pushing : server.broadcaster = .pushing payload place)
      (listed : server.clients[place]? = some client)
      (accepted : client.box.put payload = some box) :
      Effect server { server with
        clients := server.clients.set place { client with box := box }
        broadcaster := .pushing payload (place + 1) } .silent
  | unlockClients {payload : Payload}
      (pushing : server.broadcaster = .pushing payload server.clients.length) :
      Effect server { server with broadcaster := .computing } .silent
  | quiet {k : Nat} {client : ClientInfo Payload} {box : Mailbox Payload}
      (listed : server.clients[k]? = some client) (same : box.content = client.box.content)
      (alert : client.box.Alert → box.Alert) :
      Effect server { server with
        clients := server.clients.set k { client with box := box } } .silent

theorem quiet_effect {server next : Outboxes Payload} {event : Event Payload} {k : Nat}
    {change : Mailbox Payload → Option (Mailbox Payload)} (quiet : Quiet change)
    (ran : (server.withBox k change).map (·, .silent) = some (next, event)) :
    Effect server next event := by
  obtain ⟨_, changed, ⟨⟩⟩ := Option.map_eq_some_iff.mp ran
  obtain ⟨client, box, listed, made, rfl⟩ := with_box_eq_some changed
  obtain ⟨same, alert⟩ := quiet _ _ made
  exact .quiet listed same alert

theorem step_effect {server next : Outboxes Payload} {action : Action Payload}
    {event : Event Payload} (ran : server.step action = some (next, event)) :
    Effect server next event := by
  cases action with
  | accept socket =>
      simp only [step] at ran
      split at ran
      · cases ran
        exact .accept socket
      · cases ran
  | pushClient =>
      simp only [step] at ran
      split at ran
      · cases ran
      · rename_i socket _ unlocked
        cases ran
        exact .pushClient socket unlocked
      · cases ran
  | lockClients payload =>
      simp only [step] at ran
      split at ran
      · rename_i idle
        cases ran
        exact .lockClients payload idle
      · cases ran
  | push =>
      simp only [step] at ran
      split at ran
      · rename_i payload place pushing
        obtain ⟨_, changed, ⟨⟩⟩ := Option.map_eq_some_iff.mp ran
        obtain ⟨client, box, listed, accepted, rfl⟩ := with_box_eq_some changed
        exact .push pushing listed accepted
      · cases ran
  | unlockClients =>
      simp only [step] at ran
      split at ran
      · rename_i payload place pushing
        split_ifs at ran with last
        cases ran
        exact .unlockClients (last ▸ pushing)
      · cases ran
  | register k => exact quiet_effect quiet_start ran
  | sender k => exact quiet_effect quiet_advance ran
  | wakeSender k => exact quiet_effect quiet_wake ran
  | hangUp k => exact quiet_effect quiet_hang_up ran

/-! ## What every run keeps -/

/-- Each client was handed, is being handed or will be handed exactly what was broadcast since
it joined. -/
structure Sound (server : Outboxes Payload) (events : List (Event Payload)) : Prop where
  joins : Event.joins events = server.clients.length
  handed : ∀ (k : Nat) (client : ClientInfo Payload), server.clients[k]? = some client →
    client.box.content ++ server.pendingFor k = Event.broadcastsSince k events
  alert : ∀ (k : Nat) (client : ClientInfo Payload), server.clients[k]? = some client →
    client.box.Alert

variable {server next : Outboxes Payload} {events : List (Event Payload)} {event : Event Payload}

theorem initial_sound : Sound (initial : Outboxes Payload) [] := by
  constructor <;> simp [initial, Event.joins]

theorem Sound.length_of_listed (sound : Sound server events) {k : Nat} {client : ClientInfo Payload}
    (listed : server.clients[k]? = some client) : k < Event.joins events := by
  rw [sound.joins]
  exact (List.getElem?_eq_some_iff.mp listed).1

/-- Clients that are listed after one of them changed. -/
theorem listed_set {k other : Nat} {changed found : ClientInfo Payload}
    (foundAfter : (server.clients.set k changed)[other]? = some found) :
    (other = k ∧ found = changed) ∨ (other ≠ k ∧ server.clients[other]? = some found) := by
  rw [List.getElem?_set] at foundAfter
  split_ifs at foundAfter with same inside
  · exact .inl ⟨same.symm, (Option.some.inj foundAfter).symm⟩
  · exact .inr ⟨Ne.symm same, foundAfter⟩

theorem step_sound (sound : Sound server events) (effect : Effect server next event) :
    Sound next (events ++ [event]) := by
  cases effect with
  | accept socket =>
      constructor
      · rw [Event.joins_append]
        exact sound.joins
      · intro k client listed
        rw [Event.broadcasts_since_append _ (sound.length_of_listed listed),
          ← sound.handed k client listed]
        exact (List.append_nil _).symm
      · exact sound.alert
  | pushClient socket unlocked =>
      have idle : server.broadcaster = .computing := by
        cases phase : server.broadcaster with
        | computing => rfl
        | pushing payload place => exact absurd phase (unlocked payload place)
      constructor
      · rw [Event.joins_append, sound.joins, List.length_append]
        rfl
      · intro k client listed
        rw [List.getElem?_append] at listed
        split_ifs at listed with old
        · rw [Event.broadcasts_since_append _ (sound.length_of_listed listed),
            ← sound.handed k client listed]
          exact (List.append_nil _).symm
        · obtain ⟨last, same⟩ := List.getElem?_eq_some_iff.mp listed
          have place : k = Event.joins events := by
            rw [List.length_singleton] at last
            rw [sound.joins]
            omega
          rw [List.getElem_singleton] at same
          rw [place, Event.broadcasts_since_joined, ← same, pendingFor, idle]
          rfl
      · intro k client listed
        rw [List.getElem?_append] at listed
        split_ifs at listed with old
        · exact sound.alert k client listed
        · have same := List.mem_singleton.mp (List.mem_of_getElem? listed)
          rw [same]
          exact Mailbox.alert_empty
  | lockClients payload idle =>
      constructor
      · rw [Event.joins_append]
        exact sound.joins
      · intro k client listed
        have before := sound.handed k client listed
        rw [pendingFor, idle, List.append_nil] at before
        rw [Event.broadcasts_since_append _ (sound.length_of_listed listed), ← before, pendingFor]
        simp [Event.payload]
      · exact sound.alert
  | @push payload place client box pushing listed accepted =>
      constructor
      · rw [Event.joins_append, List.length_set]
        exact sound.joins
      · intro k found foundAfter
        rcases listed_set foundAfter with ⟨rfl, rfl⟩ | ⟨different, old⟩
        · have before := sound.handed k client listed
          rw [pendingFor, pushing] at before
          rw [Event.broadcasts_since_append _ (sound.length_of_listed listed), ← before,
            Mailbox.content_put accepted, pendingFor]
          simp [Event.payload]
        · have before := sound.handed k found old
          rw [pendingFor, pushing] at before
          rw [Event.broadcasts_since_append _ (sound.length_of_listed old), ← before, pendingFor]
          have order : place + 1 ≤ k ↔ place ≤ k := by omega
          simp [Event.payload, order]
      · intro k found foundAfter
        rcases listed_set foundAfter with ⟨rfl, rfl⟩ | ⟨_, old⟩
        · exact Mailbox.alert_put (sound.alert k client listed) accepted
        · exact sound.alert k found old
  | @unlockClients payload pushing =>
      constructor
      · rw [Event.joins_append]
        exact sound.joins
      · intro k client listed
        have inside := (List.getElem?_eq_some_iff.mp listed).1
        have before := sound.handed k client listed
        rw [pendingFor, pushing] at before
        dsimp only at before
        rw [if_neg (Nat.not_le.mpr inside)] at before
        rw [Event.broadcasts_since_append _ (sound.length_of_listed listed), ← before, pendingFor]
        simp [Event.payload]
      · exact sound.alert
  | @quiet k client box listed same alert =>
      constructor
      · rw [Event.joins_append, List.length_set]
        exact sound.joins
      · intro other found foundAfter
        rcases listed_set foundAfter with ⟨rfl, rfl⟩ | ⟨_, old⟩
        · rw [Event.broadcasts_since_append _ (sound.length_of_listed listed),
            ← sound.handed other client listed]
          dsimp only
          rw [same]
          exact (List.append_nil _).symm
        · rw [Event.broadcasts_since_append _ (sound.length_of_listed old),
            ← sound.handed other found old]
          exact (List.append_nil _).symm
      · intro other found foundAfter
        rcases listed_set foundAfter with ⟨rfl, rfl⟩ | ⟨_, old⟩
        · exact alert (sound.alert other client listed)
        · exact sound.alert other found old

abbrev Run (Payload : Type) := Config (Outboxes Payload) (Action Payload) (Event Payload)

theorem reachable_sound {config : Run Payload}
    (reached : Reachable step (fun _ _ => True) initial config) :
    Sound config.state config.observations := by
  refine reachable_invariant (fun config : Run Payload => Sound config.state config.observations)
    initial_sound ?_ reached
  intro config op next event sound _ ran
  rw [Config.push_observations]
  exact step_sound sound (step_effect ran)

/-! ## Every payload is handed on once -/

/-- At every moment of every run, what the sender of a client has handed to `send`, what it is
handing on, what waits in the outbox and the payload that is being pushed to it are, in this
order, the payloads broadcast since the client was added. -/
theorem payloads_handed_once {config : Run Payload}
    (reached : Reachable step (fun _ _ => True) initial config) {k : Nat}
    {client : ClientInfo Payload} (listed : config.state.clients[k]? = some client) :
    client.box.sent ++ client.box.phase.inHand ++ client.box.outbox ++ config.state.pendingFor k =
      Event.broadcastsSince k config.observations :=
  (reachable_sound reached).handed k client listed

/-- The first client joins before the first broadcast and the second after it. The sender of the
first parks, is notified by a push, and passes the first payload on; the second broadcast has
reached only the first client. -/
def sampleActions : List (Action Nat) :=
  [.accept 4, .pushClient, .register 0, .sender 0, .sender 0, .sender 0, .sender 0,
    .lockClients 10, .push, .unlockClients, .accept 5, .pushClient, .register 1,
    .sender 0, .sender 0, .sender 0, .lockClients 11, .push, .sender 0]

theorem payloads_handed_once_sample :
    ∃ (config : Run Nat) (first second : ClientInfo Nat),
      config.state.clients[0]? = some first ∧ config.state.clients[1]? = some second ∧
        first.box.sent = [10] ∧ first.box.outbox = [11] ∧ second.box.outbox = [] ∧
        first.box.sent ++ first.box.phase.inHand ++ first.box.outbox ++
            config.state.pendingFor 0 = Event.broadcastsSince 0 config.observations ∧
        second.box.sent ++ second.box.phase.inHand ++ second.box.outbox ++
            config.state.pendingFor 1 = Event.broadcastsSince 1 config.observations := by
  have completes : (execute step (fun _ _ => True) (.start (initial : Outboxes Nat))
      sampleActions).any (fun config => decide (config.state.clients =
        [⟨4, ⟨[11], true, .relocking, [10]⟩⟩, ⟨5, ⟨[], true, .checking, []⟩⟩])) = true := by
    decide
  obtain ⟨config, reached, clients⟩ := reachable_of_execute_any completes
  have first : config.state.clients[0]? = some ⟨4, ⟨[11], true, .relocking, [10]⟩⟩ := by
    rw [clients]
    rfl
  have second : config.state.clients[1]? = some ⟨5, ⟨[], true, .checking, []⟩⟩ := by
    rw [clients]
    rfl
  exact ⟨config, _, _, first, second, rfl, rfl, rfl, payloads_handed_once reached first,
    payloads_handed_once reached second⟩

/-! ## A sender catches up by itself -/

/-- The server after one client has changed. -/
def replaced (server : Outboxes Payload) (k : Nat) (client : ClientInfo Payload) :
    Outboxes Payload :=
  { server with clients := server.clients.set k client }

theorem replaced_listed {k : Nat} {client changed : ClientInfo Payload}
    (listed : server.clients[k]? = some client) :
    (server.replaced k changed).clients[k]? = some changed :=
  List.getElem?_set_self (List.getElem?_eq_some_iff.mp listed).1

theorem replaced_same {k : Nat} {client : ClientInfo Payload}
    (listed : server.clients[k]? = some client) : server.replaced k client = server := by
  obtain ⟨inside, same⟩ := List.getElem?_eq_some_iff.mp listed
  rw [replaced, ← same, List.set_getElem_self]

theorem step_sender {k : Nat} {client : ClientInfo Payload} {box : Mailbox Payload}
    (listed : server.clients[k]? = some client) (moved : client.box.advance = some box) :
    server.step (.sender k) = some (server.replaced k { client with box := box }, .silent) := by
  simp only [step, withBox, listed, moved, Option.map_some, replaced]

/-- The steps of a sender are steps of the server. -/
theorem leads_of_advances {k : Nat} {box last : Mailbox Payload} (moves : box.Advances last)
    {config : Run Payload} {client : ClientInfo Payload}
    (listed : config.state.clients[k]? = some client) (own : client.box = box) :
    ∃ later : Run Payload, Leads step (fun _ action => action = .sender k) config later ∧
      later.state = config.state.replaced k { client with box := last } := by
  induction moves generalizing config client with
  | done box =>
      subst own
      exact ⟨config, .refl, (replaced_same listed).symm⟩
  | @step box next last moved _ ih =>
      subst own
      have ran := step_sender listed moved
      have found : (config.push (.sender k) (config.state.replaced k { client with box := next })
          .silent).state.clients[k]? = some { client with box := next } := replaced_listed listed
      obtain ⟨later, leads, state⟩ := ih found rfl
      refine ⟨later, leads.head (.run rfl ran), ?_⟩
      rw [state, Config.push_state]
      simp only [replaced, List.set_set]

/-- No wake-up is lost: the sender of a registered client that has not hung up, if nobody else
moves, hands on everything broadcast since the client was added that has reached its outbox,
and is then asleep with nothing left. -/
theorem sender_catches_up {config : Run Payload}
    (reached : Reachable step (fun _ _ => True) initial config) {k : Nat}
    {client : ClientInfo Payload} (listed : config.state.clients[k]? = some client)
    (registered : client.box.phase ≠ .unstarted) (serving : client.box.running = true) :
    ∃ (later : Run Payload) (after : ClientInfo Payload),
      Leads step (fun _ action => action = .sender k) config later ∧
        later.state.clients[k]? = some after ∧ after.box.phase = .parked false ∧
        after.box.outbox = [] ∧
        after.box.sent ++ config.state.pendingFor k =
          Event.broadcastsSince k config.observations := by
  have sound := reachable_sound reached
  have moves := Mailbox.advances_all (sound.alert k client listed) serving registered
  obtain ⟨later, leads, state⟩ := leads_of_advances moves listed rfl
  have found : later.state.clients[k]? =
      some { client with box := ⟨[], true, .parked false, client.box.content⟩ } := by
    rw [state]
    exact replaced_listed listed
  exact ⟨later, _, leads, found, rfl, rfl, sound.handed k client listed⟩

theorem sender_catches_up_sample :
    ∃ (config later : Run Nat) (after : ClientInfo Nat),
      config.state.clients =
          [⟨4, ⟨[11], true, .relocking, [10]⟩⟩, ⟨5, ⟨[], true, .checking, []⟩⟩] ∧
        Leads step (fun _ action => action = .sender 0) config later ∧
        later.state.clients[0]? = some after ∧ after.box.phase = .parked false ∧
        after.box.outbox = [] ∧
        after.box.sent ++ config.state.pendingFor 0 =
          Event.broadcastsSince 0 config.observations := by
  have completes : (execute step (fun _ _ => True) (.start (initial : Outboxes Nat))
      sampleActions).any (fun config => decide (config.state.clients =
        [⟨4, ⟨[11], true, .relocking, [10]⟩⟩, ⟨5, ⟨[], true, .checking, []⟩⟩])) = true := by
    decide
  obtain ⟨config, reached, clients⟩ := reachable_of_execute_any completes
  have first : config.state.clients[0]? = some ⟨4, ⟨[11], true, .relocking, [10]⟩⟩ := by
    rw [clients]
    rfl
  obtain ⟨later, after, caught⟩ := sender_catches_up reached first nofun rfl
  exact ⟨config, later, after, clients, caught⟩

end Outboxes

end Finm327.Blast
