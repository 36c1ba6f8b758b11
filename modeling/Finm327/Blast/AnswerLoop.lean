import Finm327.Blast.Outboxes
import Finm327.Hft2026.ClosedLoop

/-!
# Clients under blast

The outboxes of the blast server with a client of `hftprojectstudent/hftclient2026/main.cpp` at
the other end of every connection and the bytes under way between them, for the matrix size that
both have by default. A handler reads what its client answers, in any pieces, and its `recv` comes
back empty only when the client has closed its end.
-/

namespace Finm327.Blast

open Finm327.Library.Mailboxes
open Finm327.Library.Runs
open Finm327.Hft
open Finm327.Hft2026 (Link reply start)
open Function (update)

variable {Payload : Type}

namespace Outboxes

/-- The box of a client, empty where there is none yet. -/
def boxAt (server : Outboxes Payload) (k : Nat) : Mailbox Payload :=
  match server.clients[k]? with
  | some client => client.box
  | none => .empty

/-- What a step sends to a client. -/
def handed (server : Outboxes Payload) (action : Action Payload) (k : Nat) : List Payload :=
  match action with
  | .sender j => if j = k then (server.boxAt k).phase.inHand else []
  | _ => []

variable {server next : Outboxes Payload} {action : Action Payload} {event : Event Payload}

theorem box_at_listed {k : Nat} {client : ClientInfo Payload}
    (listed : server.clients[k]? = some client) : server.boxAt k = client.box := by
  simp only [boxAt, listed]

theorem box_at_added (socket j : Nat) :
    boxAt { server with
      clients := server.clients ++ [⟨socket, .empty⟩], acceptor := .accepting } j =
        server.boxAt j := by
  by_cases old : j < server.clients.length
  · simp [boxAt, List.getElem?_append_left old]
  · have before := List.getElem?_eq_none (Nat.le_of_not_lt old)
    by_cases last : j = server.clients.length
    · simp [boxAt, last]
    · have after : (server.clients ++ [⟨socket, .empty⟩])[j]? = none :=
        List.getElem?_eq_none (by simp; omega)
      simp only [boxAt, before, after]

theorem with_box_at {k : Nat} {change : Mailbox Payload → Option (Mailbox Payload)}
    (changed : server.withBox k change = some next) :
    ∃ box, change (server.boxAt k) = some box ∧ next.boxAt = update server.boxAt k box := by
  obtain ⟨client, box, listed, made, rfl⟩ := with_box_eq_some changed
  refine ⟨box, by rw [box_at_listed listed, made], ?_⟩
  have inside := (List.getElem?_eq_some_iff.mp listed).1
  funext j
  by_cases same : j = k
  · simp [boxAt, same, inside]
  · simp [boxAt, same, List.getElem?_set_ne (Ne.symm same)]

/-- What an action does to a box as far as its client can tell. -/
structure Serves (before after : Mailbox Payload) (handed : List Payload) : Prop where
  sent : after.sent = before.sent ++ handed
  running : after.running = before.running

theorem serves_nothing (box : Mailbox Payload) : Serves box box [] := ⟨by simp, rfl⟩

theorem with_box_serves {j : Nat} {change : Mailbox Payload → Option (Mailbox Payload)}
    (changed : server.withBox j change = some next) {sends : List Payload}
    (served : ∀ box, change (server.boxAt j) = some box → Serves (server.boxAt j) box sends)
    (k : Nat) : Serves (server.boxAt k) (next.boxAt k) (if j = k then sends else []) := by
  obtain ⟨box, made, boxes⟩ := with_box_at changed
  rw [boxes]
  by_cases same : k = j
  · rw [same, Function.update_self, if_pos rfl]
    exact served box made
  · rw [Function.update_of_ne same, if_neg (Ne.symm same)]
    exact serves_nothing _

theorem step_serves (ran : server.step action = some (next, event)) {k : Nat}
    (stays : action ≠ .hangUp k) :
    Serves (server.boxAt k) (next.boxAt k) (server.handed action k) := by
  cases action with
  | accept socket =>
      simp only [step] at ran
      split at ran
      · cases ran
        exact serves_nothing _
      · cases ran
  | pushClient =>
      simp only [step] at ran
      split at ran
      · cases ran
      · cases ran
        rw [box_at_added]
        exact serves_nothing _
      · cases ran
  | lockClients payload =>
      simp only [step] at ran
      split at ran
      · cases ran
        exact serves_nothing _
      · cases ran
  | push =>
      simp only [step] at ran
      split at ran
      · obtain ⟨_, changed, ⟨⟩⟩ := Option.map_eq_some_iff.mp ran
        rename_i payload place _ _
        have served : ∀ box, (server.boxAt place).put payload = some box →
            Serves (server.boxAt place) box [] := by
          intro box accepted
          have kept := Mailbox.sent_put accepted
          exact ⟨by simp [kept.1], kept.2⟩
        have both := with_box_serves changed served k
        rw [ite_self] at both
        exact both
      · cases ran
  | unlockClients =>
      simp only [step] at ran
      split at ran
      · split_ifs at ran
        cases ran
        exact serves_nothing _
      · cases ran
  | register j =>
      obtain ⟨_, changed, ⟨⟩⟩ := Option.map_eq_some_iff.mp ran
      have served : ∀ box, (server.boxAt j).start = some box → Serves (server.boxAt j) box [] := by
        intro box started
        have kept := Mailbox.sent_start started
        exact ⟨by simp [kept.1], kept.2⟩
      simpa [handed] using with_box_serves changed served k
  | sender j =>
      obtain ⟨_, changed, ⟨⟩⟩ := Option.map_eq_some_iff.mp ran
      have served : ∀ box, (server.boxAt j).advance = some box →
          Serves (server.boxAt j) box (server.boxAt j).phase.inHand := by
        intro box moved
        exact ⟨(Mailbox.sent_advance moved).1, (Mailbox.sent_advance moved).2⟩
      have both := with_box_serves changed served k
      rw [handed]
      split_ifs with same
      · rwa [if_pos same, same] at both
      · rwa [if_neg same] at both
  | wakeSender j =>
      obtain ⟨_, changed, ⟨⟩⟩ := Option.map_eq_some_iff.mp ran
      have served : ∀ box, (server.boxAt j).wake = some box → Serves (server.boxAt j) box [] := by
        intro box woken
        have kept := Mailbox.sent_wake woken
        exact ⟨by simp [kept.1], kept.2⟩
      simpa [handed] using with_box_serves changed served k
  | hangUp j =>
      obtain ⟨_, changed, ⟨⟩⟩ := Option.map_eq_some_iff.mp ran
      obtain ⟨box, _, boxes⟩ := with_box_at changed
      have other : k ≠ j := fun same => stays (same ▸ rfl)
      rw [boxes, Function.update_of_ne other]
      exact serves_nothing _

/-- A step that shows nothing and leaves the server as it is. -/
theorem Sound.silent {events : List (Event Payload)} (sound : Sound server events) :
    Sound server (events ++ [.silent]) := by
  constructor
  · rw [Event.joins_append]
    exact sound.joins
  · intro k client listed
    rw [Event.broadcasts_since_append _ (sound.length_of_listed listed),
      ← sound.handed k client listed]
    exact (List.append_nil _).symm
  · exact sound.alert

end Outboxes

/-! ## The server and its clients -/

structure AnswerLoop where
  server : Outboxes Challenge
  links : Nat → Link

inductive LoopAction
  | server (action : Action Challenge)
  | turn (k n : Nat)

namespace AnswerLoop

/-- A handler comes to its end only when its client has closed the connection. -/
def Ready (loop : AnswerLoop) : Action Challenge → Prop
  | .hangUp k => (loop.links k).stopped = true
  | _ => True

instance (loop : AnswerLoop) : DecidablePred loop.Ready
  | .hangUp _ => inferInstanceAs (Decidable (_ = true))
  | .accept _ | .pushClient | .lockClients _ | .push | .unlockClients | .register _ | .sender _
  | .wakeSender _ => inferInstanceAs (Decidable True)

/-- The clients have sent their names. -/
def initial (team : Nat → List UInt8) (buf : List UInt8) : AnswerLoop :=
  ⟨.initial, fun k => ⟨[], start buf, false, team k ++ [newline]⟩⟩

/-- The bytes of a payload that a sender takes to `send` are under way from then on. -/
def step (loop : AnswerLoop) : LoopAction → Option (AnswerLoop × Event Challenge)
  | .server action =>
      if loop.Ready action then do
        let (server, event) ← loop.server.step action
        let links := fun k =>
          { loop.links k with
            wire := (loop.links k).wire ++ stream (loop.server.handed action k) }
        return (⟨server, links⟩, event)
      else none
  | .turn k n => do
      let link ← (loop.links k).turn n
      return ({ loop with links := update loop.links k link }, .silent)

abbrev Run := Config AnswerLoop LoopAction (Event Challenge)

/-- The id that is broadcast is one that an `int` counts up to. -/
def NotWrapped (_ : Run) : LoopAction → Prop
  | .server (.lockClients challenge) => challenge.cid < 2 ^ 31
  | _ => True

instance (config : Run) : DecidablePred (NotWrapped config)
  | .server (.lockClients _) => inferInstanceAs (Decidable (_ < _))
  | .server (.accept _) | .server .pushClient | .server .push | .server .unlockClients
  | .server (.register _) | .server (.sender _) | .server (.wakeSender _) | .server (.hangUp _)
  | .turn _ _ => inferInstanceAs (Decidable True)

end AnswerLoop

/-! ## What a client has been sent -/

/-- The client has answered the first ones of the challenges that it was sent, and holds or is
about to get the others. -/
def Keeps (greeting : List UInt8) (sent : List Challenge) (link : Link) : Prop :=
  ∃ answered waiting, sent = answered ++ waiting ∧ link.Awaits waiting ∧
    link.up = greeting ++ (answered.map reply).flatten

theorem keeps_initial (greeting buf : List UInt8) :
    Keeps greeting [] ⟨[], start buf, false, greeting⟩ := by
  refine ⟨[], [], rfl, ⟨rfl, [], buf, rfl, rfl, rfl⟩, ?_⟩
  simp

theorem Keeps.send {greeting : List UInt8} {sent : List Challenge} {link : Link}
    (keeps : Keeps greeting sent link) (challenges : List Challenge) :
    Keeps greeting (sent ++ challenges) { link with wire := link.wire ++ stream challenges } := by
  obtain ⟨answered, waiting, rfl, awaits, up⟩ := keeps
  obtain ⟨kept, stale, buf, held, awaited⟩ := awaits.place
  refine ⟨answered, waiting ++ challenges, by simp, ⟨awaits.going, kept, stale, buf, held, ?_⟩, up⟩
  rw [← List.append_assoc, awaited]
  simp [stream]

theorem Keeps.turn {greeting : List UInt8} {sent : List Challenge} {link next : Link}
    (keeps : Keeps greeting sent link) {n : Nat} (ran : link.turn n = some next) :
    Keeps greeting sent next := by
  obtain ⟨answered, waiting, rfl, awaits, up⟩ := keeps
  rcases Hft2026.turn_spec awaits n with ⟨waits, _⟩ | ⟨after, turned, _, moved⟩
  · rw [waits] at ran
    cases ran
  · rw [turned] at ran
    cases ran
    rcases moved with ⟨awaitsToo, upToo⟩ | ⟨challenge, others, rfl, awaitsToo, upToo⟩
    · exact ⟨answered, waiting, rfl, awaitsToo, by rw [upToo, up]⟩
    · exact ⟨answered ++ [challenge], others, by simp, awaitsToo, by simp [upToo, up]⟩

namespace AnswerLoop

variable {team : Nat → List UInt8} {buf : List UInt8}

/-- Every client has in order what was sent to it, and no handler has come to its end. -/
structure Sound (team : Nat → List UInt8) (loop : AnswerLoop)
    (events : List (Event Challenge)) : Prop where
  server : Outboxes.Sound loop.server events
  links : ∀ k, Keeps (team k ++ [newline]) (loop.server.boxAt k).sent (loop.links k)
  serving : ∀ k, (loop.server.boxAt k).running = true

theorem initial_sound : Sound team (initial team buf) [] where
  server := Outboxes.initial_sound
  links _ := keeps_initial _ _
  serving _ := rfl

theorem step_sound {loop next : AnswerLoop} {events : List (Event Challenge)} {op : LoopAction}
    {event : Event Challenge} (sound : Sound team loop events)
    (ran : loop.step op = some (next, event)) : Sound team next (events ++ [event]) := by
  cases op with
  | server action =>
      simp only [step] at ran
      split_ifs at ran with ready
      obtain ⟨⟨server, shown⟩, moved, same⟩ := Option.bind_eq_some_iff.mp ran
      cases same
      have stays : ∀ k, action ≠ .hangUp k := by
        intro k last
        rw [last] at ready
        obtain ⟨_, _, _, awaits, _⟩ := sound.links k
        rw [Ready, awaits.going] at ready
        cases ready
      constructor
      · exact Outboxes.step_sound sound.server (Outboxes.step_effect moved)
      · intro k
        dsimp only
        rw [(Outboxes.step_serves moved (stays k)).sent]
        exact (sound.links k).send _
      · intro k
        exact (Outboxes.step_serves moved (stays k)).running.trans (sound.serving k)
  | turn k n =>
      simp only [step] at ran
      obtain ⟨link, turned, same⟩ := Option.bind_eq_some_iff.mp ran
      cases same
      constructor
      · exact sound.server.silent
      · intro j
        by_cases same : j = k
        · simpa [same] using (sound.links k).turn turned
        · simpa [same] using sound.links j
      · exact sound.serving

theorem reachable_sound {config : Run}
    (reached : Reachable step NotWrapped (initial team buf) config) :
    Sound team config.state config.observations := by
  apply reachable_invariant (fun config : Run => Sound team config.state config.observations)
    initial_sound ?_ reached
  intro config op next event sound _ ran
  rw [Config.push_observations]
  exact step_sound sound ran

/-- In every interleaving of the server and its clients: no client leaves its loop, and what a
client has answered, what it holds or is under way to it, what its sender has in hand, what is in
its outbox and what is being pushed to it are, in this order, the challenges broadcast since it
was added. -/
theorem broadcasts_answered_once {config : Run}
    (reached : Reachable step NotWrapped (initial team buf) config) {k : Nat}
    {client : ClientInfo Challenge} (listed : config.state.server.clients[k]? = some client) :
    (config.state.links k).stopped = false ∧ ∃ answered waiting,
      (config.state.links k).up = team k ++ [newline] ++ (answered.map reply).flatten ∧
      (config.state.links k).Awaits waiting ∧
      answered ++ waiting ++ client.box.phase.inHand ++ client.box.outbox ++
          config.state.server.pendingFor k =
        Event.broadcastsSince k config.observations := by
  have sound := reachable_sound reached
  obtain ⟨answered, waiting, sent, awaits, up⟩ := sound.links k
  refine ⟨awaits.going, answered, waiting, up, awaits, ?_⟩
  rw [Outboxes.box_at_listed listed] at sent
  rw [← sound.server.handed k client listed, Mailbox.content, sent]

/-! ## A client catches up -/

/-- The moves of one sender and its client. -/
def OfConnection (k : Nat) (_ : Run) : LoopAction → Prop
  | .server (.sender j) => j = k
  | .turn j _ => j = k
  | _ => False

theorem not_wrapped_of_connection {k : Nat} {config : Run} {op : LoopAction}
    (own : OfConnection k config op) : NotWrapped config op := by
  match op, own with
  | .server (.sender _), _ => trivial
  | .turn _ _, _ => trivial

theorem step_sender {loop : AnswerLoop} {k : Nat} {client : ClientInfo Challenge}
    {box : Mailbox Challenge} (listed : loop.server.clients[k]? = some client)
    (moved : client.box.advance = some box) :
    ∃ next, step loop (.server (.sender k)) = some (next, .silent) ∧
      next.server = loop.server.replaced k { client with box := box } := by
  simp only [step, Ready, if_true, Outboxes.step_sender listed moved]
  exact ⟨_, rfl, rfl⟩

theorem leads_of_advances {k : Nat} {box last : Mailbox Challenge} (moves : box.Advances last)
    {config : Run} {client : ClientInfo Challenge}
    (listed : config.state.server.clients[k]? = some client) (own : client.box = box) :
    ∃ later : Run, Leads step (OfConnection k) config later ∧
      later.state.server = config.state.server.replaced k { client with box := last } := by
  induction moves generalizing config client with
  | done box =>
      subst own
      exact ⟨config, .refl, (Outboxes.replaced_same listed).symm⟩
  | @step box next last moved _ ih =>
      subst own
      obtain ⟨after, ran, changed⟩ := step_sender listed moved
      have found : after.server.clients[k]? = some { client with box := next } := by
        rw [changed]
        exact Outboxes.replaced_listed listed
      obtain ⟨later, leads, server⟩ :=
        @ih (config.push (.server (.sender k)) after .silent) _ found rfl
      have permitted : OfConnection k config (.server (.sender k)) := rfl
      refine ⟨later, leads.head (.run permitted ran), ?_⟩
      rw [server, Config.push_state, changed]
      simp only [Outboxes.replaced, List.set_set]

theorem leads_of_turns {k : Nat} {link last : Link} (turns : link.Turns last) {config : Run}
    (own : config.state.links k = link) :
    ∃ later : Run, Leads step (OfConnection k) config later ∧ later.state.links k = last := by
  induction turns generalizing config with
  | done link => exact ⟨config, .refl, own⟩
  | @step link next last n turned _ ih =>
      have ran : step config.state (.turn k n) =
          some ({ config.state with links := update config.state.links k next }, .silent) := by
        simp only [step, own, turned]
        rfl
      obtain ⟨later, leads, lastToo⟩ := @ih
        (config.push (.turn k n) { config.state with links := update config.state.links k next }
          .silent) (Function.update_self ..)
      have permitted : OfConnection k config (.turn k n) := rfl
      exact ⟨later, leads.head (.run permitted ran), lastToo⟩

/-- Whatever is under way, a registered client and its sender come by themselves to where the
client has answered everything broadcast since it was added that has reached its outbox. -/
theorem reachable_catches_up {config : Run}
    (reached : Reachable step NotWrapped (initial team buf) config) {k : Nat}
    {client : ClientInfo Challenge} (listed : config.state.server.clients[k]? = some client)
    (registered : client.box.phase ≠ .unstarted) :
    ∃ (later : Run) (answered : List Challenge), Leads step (OfConnection k) config later ∧
      (later.state.links k).up = team k ++ [newline] ++ (answered.map reply).flatten ∧
      (later.state.links k).Awaits [] ∧
      answered ++ config.state.server.pendingFor k =
        Event.broadcastsSince k config.observations := by
  have sound := reachable_sound reached
  have serving := sound.serving k
  rw [Outboxes.box_at_listed listed] at serving
  have moves := Mailbox.advances_all (sound.server.alert k client listed) serving registered
  obtain ⟨sent, leads, server⟩ := leads_of_advances moves listed rfl
  have soundToo := reachable_sound
    (reached.trans (leads_mono (fun _ _ own => not_wrapped_of_connection own) leads))
  obtain ⟨answered, waiting, all, awaits, up⟩ := soundToo.links k
  obtain ⟨last, turns, done, upToo⟩ := awaits.turns
  obtain ⟨later, leadsToo, own⟩ := leads_of_turns turns rfl
  rw [server, Outboxes.box_at_listed (Outboxes.replaced_listed listed)] at all
  refine ⟨later, client.box.content, leads.trans leadsToo, ?_, own.symm ▸ done,
    sound.server.handed k client listed⟩
  rw [own, upToo, up, show client.box.content = answered ++ waiting from all]
  simp

theorem client_catches_up {config : Run}
    (reached : Reachable step NotWrapped (initial team buf) config) {k : Nat}
    {client : ClientInfo Challenge} (listed : config.state.server.clients[k]? = some client)
    (registered : client.box.phase ≠ .unstarted) :
    ∃ (later : Run) (answered : List Challenge), Leads step (OfConnection k) config later ∧
      (later.state.links k).up = team k ++ [newline] ++ (answered.map reply).flatten ∧
      (later.state.links k).Awaits [] ∧
      answered ++ config.state.server.pendingFor k =
        Event.broadcastsSince k config.observations :=
  reachable_catches_up reached listed registered

def sampleTeam : Nat → List UInt8 := fun _ => [103, 56]

def sampleFirst : Challenge := blankChallenge ⟨1, by decide⟩

def sampleSecond : Challenge := blankChallenge ⟨2, by decide⟩

/-- The first challenge has been sent when the second one is broadcast. -/
def sampleMoves (first second : Challenge) : List LoopAction :=
  [.server (.accept 4), .server .pushClient, .server (.register 0), .server (.lockClients first),
    .server .push, .server .unlockClients, .server (.sender 0), .server (.sender 0),
    .server (.sender 0), .server (.sender 0), .server (.sender 0), .server (.lockClients second),
    .server .push, .server .unlockClients]

theorem sample_not_wrapped (first second : Challenge) (small : first.cid < 2 ^ 31)
    (smallToo : second.cid < 2 ^ 31) :
    ∀ op ∈ sampleMoves first second, ∀ config, NotWrapped config op := by
  simp [sampleMoves, NotWrapped]
  exact ⟨fun _ => small, fun _ => smallToo⟩

theorem sample_reached (first second : Challenge) (small : first.cid < 2 ^ 31)
    (smallToo : second.cid < 2 ^ 31) : ∃ config : Run,
    Reachable step NotWrapped (initial sampleTeam []) config ∧
      config.state.server =
        ⟨[⟨4, ⟨[second], true, .relocking, [first]⟩⟩], .accepting, .computing⟩ ∧
      Event.broadcastsSince 0 config.observations = [first, second] := by
  have ran : execute step (fun _ _ => True) (.start (initial sampleTeam []))
      (sampleMoves first second) = some _ := rfl
  have permitted := execute_permitted ran (sample_not_wrapped first second small smallToo)
  exact ⟨_, reachable_of_execute permitted, rfl, rfl⟩

theorem broadcasts_answered_once_sample :
    ∃ (config : Run) (answered waiting : List Challenge),
      config.state.server =
        ⟨[⟨4, ⟨[sampleSecond], true, .relocking, [sampleFirst]⟩⟩], .accepting, .computing⟩ ∧
      (config.state.links 0).up = [103, 56] ++ [newline] ++ (answered.map reply).flatten ∧
      (config.state.links 0).Awaits waiting ∧
      answered ++ waiting ++ [sampleSecond] = [sampleFirst, sampleSecond] := by
  obtain ⟨config, reached, server, broadcasts⟩ :=
    sample_reached sampleFirst sampleSecond (by decide) (by decide)
  have listed : config.state.server.clients[0]? =
      some ⟨4, ⟨[sampleSecond], true, .relocking, [sampleFirst]⟩⟩ := by
    rw [server]
    rfl
  obtain ⟨_, answered, waiting, up, awaits, all⟩ := broadcasts_answered_once reached listed
  have pending : config.state.server.pendingFor 0 = [] := by
    rw [server]
    rfl
  rw [broadcasts, pending, List.append_nil,
    show (Phase.relocking : Phase Challenge).inHand = [] from rfl, List.append_nil] at all
  exact ⟨config, answered, waiting, server, up, awaits, all⟩

theorem client_catches_up_sample :
    ∃ config later : Run,
      config.state.server =
        ⟨[⟨4, ⟨[sampleSecond], true, .relocking, [sampleFirst]⟩⟩], .accepting, .computing⟩ ∧
      Leads step (OfConnection 0) config later ∧
      (later.state.links 0).up =
        [103, 56] ++ [newline] ++ (reply sampleFirst ++ reply sampleSecond) := by
  obtain ⟨config, reached, server, broadcasts⟩ :=
    sample_reached sampleFirst sampleSecond (by decide) (by decide)
  have listed : config.state.server.clients[0]? =
      some ⟨4, ⟨[sampleSecond], true, .relocking, [sampleFirst]⟩⟩ := by
    rw [server]
    rfl
  obtain ⟨later, answered, leads, up, _, all⟩ := client_catches_up reached listed nofun
  have pending : config.state.server.pendingFor 0 = [] := by
    rw [server]
    rfl
  rw [broadcasts, pending, List.append_nil] at all
  refine ⟨config, later, server, leads, ?_⟩
  rw [up, all]
  simp [sampleTeam]

end AnswerLoop

end Finm327.Blast
