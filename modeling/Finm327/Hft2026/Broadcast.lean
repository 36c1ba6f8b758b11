import Finm327.Hft2026.Connections

/-!
# Who receives a broadcast

Entries of closed connections stay in `clients`. A broadcast reaches every open client
once as long as no such entry names the descriptor of another connection, which is so
while `accept` returns numbers that are not in the list, and as long as it sends on no
connection that was reset, which at the second call kills the server.
-/

namespace Finm327.Hft2026

open Finm327.Library.Runs
open Function (update)

namespace Connections

/-- The connection that the next `send` goes to, if any. -/
def target (server : Connections) : Option Nat :=
  match server.broadcaster with
  | .sending next =>
      match server.clients[next]? with
      | some client =>
          match server.descriptors.entry client.socket with
          | some (.connection k) => some k
          | _ => none
      | none => none
  | _ => none

/-- The descriptor that `accept` is about to return is not one of those in `clients`, and the
connection that is about to be sent on was not reset. -/
def freshAndUnreset (config : Config Connections Action Unit) : Action → Prop
  | .accept => config.state.descriptors.lowestFree ∉ config.state.sockets
  | .send => ∀ k ∈ config.state.target, config.state.peers k = .connected
  | _ => True

instance (config : Config Connections Action Unit) :
    ∀ action, Decidable (freshAndUnreset config action)
  | .accept => inferInstanceAs
      (Decidable (config.state.descriptors.lowestFree ∉ config.state.sockets))
  | .send => inferInstanceAs
      (Decidable (∀ k ∈ config.state.target, config.state.peers k = .connected))
  | .pushClient => .isTrue trivial
  | .startHandler => .isTrue trivial
  | .reset _ _ => .isTrue trivial
  | .hangUp _ => .isTrue trivial
  | .closeSocket _ => .isTrue trivial
  | .lockClients => .isTrue trivial
  | .unlockClients => .isTrue trivial
  | .openResults => .isTrue trivial
  | .closeResults => .isTrue trivial

/-- The streams when a `send` on this descriptor succeeds. -/
def streamsAfter (server : Connections) (socket : Nat) : Nat → List Nat :=
  match server.descriptors.entry socket with
  | some (.connection k) => update server.streams k (server.streams k ++ [server.broadcasts])
  | _ => server.streams

/-- What the loop has done when `next` is the next client it sends to. -/
def SentUpTo (server : Connections) (next : Nat) : Prop :=
  ∀ k, (k < next → server.Open k → (server.streams k).count server.broadcasts = 1) ∧
    (next ≤ k → (server.streams k).count server.broadcasts = 0) ∧
    (server.streams k).count server.broadcasts ≤ 1

/-- An open connection is that of the client whose entry has its descriptor, or it was
accepted just now. -/
structure Sound (server : Connections) : Prop where
  apart : server.sockets.Nodup
  owned : ∀ fd k, server.descriptors.entry fd = some (.connection k) →
    server.sockets[k]? = some fd ∨ k = server.clients.length ∧ server.acceptor = .accepted fd
  fresh : ∀ fd, server.acceptor = .accepted fd → fd ∉ server.sockets
  past : ∀ k, ∀ b ∈ server.streams k, b ≤ server.broadcasts
  inside : ∀ next, server.broadcaster = .sending next → next ≤ server.clients.length
  sent : ∀ next, server.broadcaster = .sending next → server.SentUpTo next
  alive : server.killed = false

theorem initial_sound : Sound initial where
  apart := List.nodup_nil
  owned := by
    intro fd k found
    have member := List.mem_of_getElem? (Descriptors.entry_eq_some_iff.mp found)
    have file := List.eq_of_mem_replicate member
    cases file
  fresh := by simp [initial]
  past := by simp [initial]
  inside := by simp [initial]
  sent := by simp [initial]
  alive := rfl

variable {server next : Connections}

theorem sent_up_to_of_open {count : Nat} (sent : server.SentUpTo count)
    (streams : next.streams = server.streams) (broadcasts : next.broadcasts = server.broadcasts)
    (still : ∀ k, k < count → next.Open k → server.Open k) : next.SentUpTo count := by
  intro k
  obtain ⟨once, none, most⟩ := sent k
  rw [streams, broadcasts]
  exact ⟨fun before isOpen => once before (still k before isOpen), none, most⟩

theorem open_of_close {fd k : Nat} (descriptors : next.descriptors = server.descriptors.close fd)
    (isOpen : next.Open k) : server.Open k := by
  obtain ⟨other, found⟩ := isOpen
  rw [descriptors] at found
  exact ⟨other, Descriptors.entry_close_eq_some found⟩

theorem sockets_get {k : Nat} {client : ClientInfo} (listed : server.clients[k]? = some client) :
    server.sockets[k]? = some client.socket := by
  rw [sockets, List.getElem?_map, listed, Option.map_some]

/-- A descriptor in the list belongs to the connection of its entry, if to any. -/
theorem owner_eq (sound : Sound server) {k other : Nat} {client : ClientInfo}
    (listed : server.clients[k]? = some client)
    (found : server.descriptors.entry client.socket = some (.connection other)) : other = k := by
  have place := sockets_get listed
  rcases sound.owned _ _ found with own | ⟨_, accepted⟩
  · have inside := (List.getElem?_eq_some_iff.mp own).1
    exact (List.getElem?_inj inside sound.apart).mp (own.trans place.symm)
  · exact absurd (List.mem_of_getElem? place) (sound.fresh _ accepted)

/-- A `send` on a connection that was not reset, or on none, goes through or is ignored. -/
theorem deliver_eq {count : Nat} {client : ClientInfo} (sending : server.broadcaster = .sending count)
    (listed : server.clients[count]? = some client)
    (whole : ∀ k ∈ server.target, server.peers k = .connected) :
    server.deliver client.socket = { server with streams := server.streamsAfter client.socket } := by
  unfold target at whole
  rw [sending] at whole
  dsimp only at whole
  rw [listed] at whole
  dsimp only at whole
  unfold deliver streamsAfter
  cases found : server.descriptors.entry client.socket with
  | none => rfl
  | some what =>
      cases what with
      | file => rfl
      | connection k =>
          rw [found] at whole
          dsimp only
          rw [whole k rfl]

/-- What the loop sends to a client reaches its connection if that is open. -/
theorem deliver_open (sound : Sound server) {k : Nat} {client : ClientInfo}
    (listed : server.clients[k]? = some client) (isOpen : server.Open k) :
    server.streamsAfter client.socket =
      update server.streams k (server.streams k ++ [server.broadcasts]) := by
  obtain ⟨fd, found⟩ := isOpen
  rcases sound.owned _ _ found with own | ⟨last, _⟩
  · rw [sockets_get listed, Option.some.injEq] at own
    unfold streamsAfter
    rw [own, found]
  · rw [List.getElem?_eq_none (Nat.le_of_eq last.symm)] at listed
    cases listed

theorem deliver_closed (sound : Sound server) {k : Nat} {client : ClientInfo}
    (listed : server.clients[k]? = some client) (closed : ¬ server.Open k) :
    server.streamsAfter client.socket = server.streams := by
  unfold streamsAfter
  split
  · rename_i other found
    have same := owner_eq sound listed found
    exact absurd ⟨_, same ▸ found⟩ closed
  · rfl

theorem send_sent (sound : Sound server) {k : Nat} {client : ClientInfo}
    (sending : server.broadcaster = .sending k) (listed : server.clients[k]? = some client)
    (descriptors : next.descriptors = server.descriptors)
    (streams : next.streams = server.streamsAfter client.socket)
    (broadcasts : next.broadcasts = server.broadcasts) : next.SentUpTo (k + 1) := by
  have before := sound.sent k sending
  have sameOpen : ∀ other, next.Open other ↔ server.Open other := by
    intro other
    unfold Open
    rw [descriptors]
  intro other
  obtain ⟨once, none, most⟩ := before other
  rw [sameOpen, broadcasts, streams]
  by_cases isOpen : server.Open k
  · rw [deliver_open sound listed isOpen]
    by_cases same : other = k
    · subst same
      rw [Function.update_self, List.count_append, none (Nat.le_refl _), List.count_singleton_self]
      exact ⟨fun _ _ => rfl, fun past => absurd past (by omega), Nat.le_refl 1⟩
    · rw [Function.update_of_ne same]
      exact ⟨fun early => once (by omega), fun late => none (by omega), most⟩
  · rw [deliver_closed sound listed isOpen]
    refine ⟨fun early openToo => ?_, fun late => none (by omega), most⟩
    have different : other ≠ k := fun same => isOpen (same ▸ openToo)
    exact once (by omega) openToo

theorem accept_sound (sound : Sound server) (idle : server.acceptor = .accepting)
    (unlisted : server.descriptors.lowestFree ∉ server.sockets) :
    Sound { server with
      descriptors := server.descriptors.install (.connection server.clients.length)
      acceptor := .accepted server.descriptors.lowestFree } where
  apart := sound.apart
  owned := by
    intro fd k found
    rw [Descriptors.entry_install] at found
    split_ifs at found with same
    · cases found
      exact .inr ⟨rfl, congrArg Acceptor.accepted same.symm⟩
    · rcases sound.owned fd k found with own | ⟨_, accepted⟩
      · exact .inl own
      · rw [idle] at accepted
        cases accepted
  fresh := by
    intro fd accepted
    cases accepted
    exact unlisted
  past := sound.past
  inside := sound.inside
  sent := by
    intro count sending
    have inside := sound.inside count sending
    refine sent_up_to_of_open (sound.sent count sending) rfl rfl ?_
    rintro k before ⟨fd, found⟩
    rw [Descriptors.entry_install] at found
    split_ifs at found
    · cases found
      omega
    · exact ⟨fd, found⟩
  alive := sound.alive

theorem sockets_push (clients : List ClientInfo) (socket : Nat)
    (grown : server.clients = clients ++ [⟨socket⟩]) :
    server.sockets = clients.map ClientInfo.socket ++ [socket] := by
  rw [sockets, grown, List.map_append, List.map_singleton]

theorem push_client_sound (sound : Sound server) {socket : Nat}
    (accepted : server.acceptor = .accepted socket)
    (unlocked : ∀ count, server.broadcaster ≠ .sending count) :
    Sound { server with
      clients := server.clients ++ [⟨socket⟩], acceptor := .listed } where
  apart := by
    rw [sockets_push server.clients socket rfl]
    apply List.nodup_append.mpr
    refine ⟨sound.apart, List.nodup_singleton _, ?_⟩
    intro fd member other last same
    rw [List.mem_singleton.mp last] at same
    exact sound.fresh socket accepted (same ▸ member)
  owned := by
    intro fd k found
    left
    rw [sockets_push server.clients socket rfl]
    rcases sound.owned fd k found with own | ⟨last, accepting⟩
    · exact (List.getElem?_append_left (List.getElem?_eq_some_iff.mp own).1).trans own
    · rw [accepted, Acceptor.accepted.injEq] at accepting
      have length : server.sockets.length = k := by
        rw [sockets, List.length_map, last]
      rw [← length, accepting]
      exact List.getElem?_concat_length
  fresh := by
    intro fd other
    cases other
  past := sound.past
  inside := fun count sending => absurd sending (unlocked count)
  sent := fun count sending => absurd sending (unlocked count)
  alive := sound.alive

theorem lock_clients_sound (sound : Sound server) :
    Sound { server with broadcaster := .sending 0, broadcasts := server.broadcasts + 1 } where
  apart := sound.apart
  owned := sound.owned
  fresh := sound.fresh
  past := fun k b member => Nat.le_succ_of_le (sound.past k b member)
  inside := by
    intro count sending
    cases sending
    exact Nat.zero_le _
  sent := by
    intro count sending k
    cases sending
    have unused : (server.streams k).count (server.broadcasts + 1) = 0 := by
      apply List.count_eq_zero_of_not_mem
      intro member
      have past := sound.past k _ member
      omega
    exact ⟨fun before => absurd before (Nat.not_lt_zero k), fun _ => unused, unused ▸ Nat.zero_le 1⟩
  alive := sound.alive

theorem send_sound (sound : Sound server) {count : Nat} {client : ClientInfo}
    (sending : server.broadcaster = .sending count)
    (listed : server.clients[count]? = some client) :
    Sound { server with
      broadcaster := .sending (count + 1), streams := server.streamsAfter client.socket } where
  apart := sound.apart
  owned := sound.owned
  fresh := sound.fresh
  past := by
    intro k b member
    dsimp only at member ⊢
    by_cases isOpen : server.Open count
    · rw [deliver_open sound listed isOpen, Function.update_apply] at member
      split_ifs at member with same
      · rcases List.mem_append.mp member with old | new
        · exact sound.past count b old
        · exact Nat.le_of_eq (List.mem_singleton.mp new)
      · exact sound.past k b member
    · rw [deliver_closed sound listed isOpen] at member
      exact sound.past k b member
  inside := by
    intro later sending
    cases sending
    exact (List.getElem?_eq_some_iff.mp listed).1
  sent := by
    intro later sendingNext
    cases sendingNext
    exact send_sent sound sending listed rfl rfl rfl
  alive := sound.alive

theorem step_sound {action : Action} (sound : Sound server)
    (unlisted : action = .accept → server.descriptors.lowestFree ∉ server.sockets)
    (whole : action = .send → ∀ k ∈ server.target, server.peers k = .connected)
    (ran : server.step action = some (next, ())) : Sound next := by
  have onClose : ∀ fd k count, server.broadcaster = .sending count → k < count →
      Open { server with descriptors := server.descriptors.close fd } k → server.Open k :=
    fun fd k _ _ _ isOpen => open_of_close rfl isOpen
  cases (step_effect ran).2 with
  | accept idle => exact accept_sound sound idle (unlisted rfl)
  | pushClient accepted unlocked => exact push_client_sound sound accepted unlocked
  | startHandler =>
      refine { sound with owned := ?_, fresh := ?_, sent := sound.sent }
      · intro fd k found
        rcases sound.owned fd k found with own | ⟨_, accepted⟩
        · exact .inl own
        · simp_all
      · intro fd accepted
        cases accepted
  | closeSocket listed =>
      refine { sound with owned := ?_, sent := ?_ }
      · exact fun fd k found => sound.owned fd k (Descriptors.entry_close_eq_some found)
      · intro count sending
        exact sent_up_to_of_open (sound.sent count sending) rfl rfl
          fun k _ isOpen => open_of_close rfl isOpen
  | reset k ended peers => exact { sound with sent := sound.sent }
  | hangUp k handlers peers => exact { sound with sent := sound.sent }
  | lockClients => exact lock_clients_sound sound
  | send sending listed =>
      rw [deliver_eq sending listed (whole rfl)]
      exact send_sound sound sending listed
  | unlockClients =>
      exact { sound with inside := by simp, sent := by simp }
  | openResults =>
      refine { sound with owned := ?_, inside := by simp, sent := by simp }
      intro fd k found
      rw [Descriptors.entry_install] at found
      split_ifs at found
      · cases found
      · exact sound.owned fd k found
  | closeResults =>
      refine { sound with owned := ?_, inside := by simp, sent := by simp }
      exact fun fd k found => sound.owned fd k (Descriptors.entry_close_eq_some found)

/-- In every run in which `accept` only returns descriptors that no entry of `clients`
has and nothing is sent on a connection that was reset, the server goes on, each broadcast
is sent once to each added client that is still open, and to no other connection. -/
theorem broadcast_once {config : Config Connections Action Unit}
    (reached : Reachable step freshAndUnreset initial config) :
    config.state.Delivers ∧
      ∀ k, ∀ b ∈ config.state.streams k, b ≤ config.state.broadcasts := by
  have sound : Sound config.state := by
    refine reachable_invariant (fun config => Sound config.state) initial_sound ?_ reached
    intro config action next _ sound permitted ran
    refine step_sound sound ?_ ?_ ran
    · rintro rfl
      exact permitted
    · rintro rfl
      exact permitted
  refine ⟨⟨sound.alive, ?_⟩, sound.past⟩
  intro sending k
  exact sound.sent _ sending k

/-- A client leaves, its descriptor is taken by the results file while another client
connects, and the three entries are served; one of the two is reset after that. -/
def freshActions : List Action :=
  [.accept, .pushClient, .startHandler, .accept, .pushClient, .startHandler, .hangUp 0,
    .closeSocket 0, .openResults, .accept, .pushClient, .startHandler, .closeResults,
    .lockClients, .send, .send, .send, .reset 1 false]

theorem broadcast_once_sample :
    ∃ config : Config Connections Action Unit,
      Reachable step freshAndUnreset initial config ∧
        config.state.broadcaster = .sending config.state.clients.length ∧
        config.state.sockets = [4, 5, 6] ∧ config.state.Delivers ∧
        ∀ k, ∀ b ∈ config.state.streams k, b ≤ config.state.broadcasts := by
  have completes : (execute step freshAndUnreset (.start initial) freshActions).any
      (fun config => decide (config.state.broadcaster = .sending config.state.clients.length ∧
        config.state.sockets = [4, 5, 6])) = true := by
    decide
  obtain ⟨config, reached, facts⟩ := reachable_of_execute_any completes
  exact ⟨config, reached, facts.1, facts.2, broadcast_once reached⟩

/-- A client leaves, two others come, and the next broadcast is sent twice to the one that got
its descriptor. And a client resets its connection, its handler is told so, and the broadcast
that comes before the handler closes the socket kills the server, with nothing sent to the
other client. -/
theorem reused_descriptor_sent_twice :
    (∃ config : Config Connections Action Unit,
      Reachable step (fun _ _ => True) initial config ∧ config.state.killed = false ∧
        ¬ config.state.Delivers) ∧
    ∃ config : Config Connections Action Unit,
      Reachable step (fun _ _ => True) initial config ∧ ¬ config.state.Delivers ∧
        config.state.sockets = [4, 5] ∧ config.state.broadcasts = 1 ∧
        config.state.streams 1 = [] := by
  constructor
  · have completes : (execute step (fun _ _ => True) (.start initial)
        [.accept, .pushClient, .startHandler, .hangUp 0, .closeSocket 0, .accept, .pushClient,
          .startHandler, .accept, .pushClient, .startHandler, .lockClients, .send, .send,
          .send]).any
        (fun config => decide (config.state.broadcaster = .sending config.state.clients.length ∧
          config.state.killed = false ∧ config.state.streams 1 = [1, 1] ∧
          config.state.broadcasts = 1)) = true := by
      decide
    obtain ⟨config, reached, ended, alive, stream, number⟩ := reachable_of_execute_any completes
    refine ⟨config, reached, alive, fun delivers => ?_⟩
    have most := (delivers.2 ended 1).2.2
    rw [stream, number] at most
    exact absurd most (by decide)
  · have completes : (execute step (fun _ _ => True) (.start initial)
        [.accept, .pushClient, .startHandler, .accept, .pushClient, .startHandler, .reset 0 false,
          .hangUp 0, .lockClients, .send]).any
        (fun config => decide (config.state.killed = true ∧ config.state.sockets = [4, 5] ∧
          config.state.broadcasts = 1 ∧ config.state.streams 1 = [])) = true := by
      decide
    obtain ⟨config, reached, dead, facts⟩ := reachable_of_execute_any completes
    refine ⟨config, reached, fun delivers => ?_, facts⟩
    have alive := delivers.1
    rw [dead] at alive
    cases alive

end Connections

end Finm327.Hft2026
