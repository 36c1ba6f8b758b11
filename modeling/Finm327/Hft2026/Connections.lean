import Mathlib.Data.List.Nodup
import Finm327.Library.Runs

/-!
# The connections of the server of 2026

Transcribes the accept loop, the broadcast loop and the closing of sockets of
`hftprojectstudent/hftserver2026/main.cpp`. The acceptor, the broadcaster and one handler
for each client take turns in any order; a step is one system call or one critical
section. `clients` only grows, and a descriptor number is free again once it is closed.
A `send` has no flags and `SIGPIPE` no handler, so one on a connection that is known to be
broken kills the server.
-/

namespace Finm327.Hft2026

open Finm327.Library.Runs
open Function (update)

/-- What a descriptor is open on. Connections are numbered as they are accepted. -/
inductive OpenFile
  | file
  | connection (k : Nat)
deriving DecidableEq

/-- The descriptors of the process; a place without a file is not open. -/
abbrev Descriptors := List (Option OpenFile)

namespace Descriptors

def lowestFree (table : Descriptors) : Nat := table.idxOf none

def entry (table : Descriptors) (fd : Nat) : Option OpenFile := table[fd]?.join

def install (what : OpenFile) (table : Descriptors) : Descriptors :=
  (table ++ [none]).set table.lowestFree (some what)

def close (fd : Nat) (table : Descriptors) : Descriptors := table.set fd none

theorem entry_eq_some_iff {table : Descriptors} {fd : Nat} {what : OpenFile} :
    table.entry fd = some what ↔ table[fd]? = some (some what) := Option.join_eq_some_iff

theorem entry_install (what : OpenFile) (table : Descriptors) (fd : Nat) :
    (table.install what).entry fd = if fd = table.lowestFree then some what else table.entry fd := by
  have inside : table.lowestFree < (table ++ [none]).length := by
    have below : table.lowestFree ≤ table.length := List.idxOf_le_length
    rw [List.length_append, List.length_singleton]
    omega
  unfold entry install
  rw [List.getElem?_set]
  by_cases same : fd = table.lowestFree
  · rw [if_pos same.symm, if_pos inside, if_pos same, Option.join_some]
  · rw [if_neg (Ne.symm same), if_neg same, List.getElem?_append]
    split
    · rfl
    · rename_i past
      rw [List.getElem?_eq_none (Nat.le_of_not_lt past), Option.join_none]
      cases fd - table.length with
      | zero => rfl
      | succ n => rfl

theorem entry_close_eq_some {fd other : Nat} {table : Descriptors} {what : OpenFile}
    (found : (table.close fd).entry other = some what) : table.entry other = some what := by
  rw [entry_eq_some_iff, close, List.getElem?_set] at found
  split at found
  · split at found
    · cases found
    · cases found
  · exact entry_eq_some_iff.mpr found

end Descriptors

structure ClientInfo where
  socket : Nat
deriving DecidableEq

inductive Acceptor
  | accepting
  | accepted (socket : Nat)
  | listed
deriving DecidableEq

/-- Where `broadcastChallengeLoop` is. It holds `clientsMutex` while it is sending. -/
inductive Broadcaster
  | waiting
  | sending (next : Nat)
  | logging (fd : Nat)
deriving DecidableEq

/-- Where a handler is; it leaves its loop when `recv` returns no bytes. -/
inductive Serving
  | receiving
  | leaving
  | closed
deriving DecidableEq

/-- What the other end has done to a connection: it takes what is sent; or it has reset it,
which the next call is told; or a call was told so, or the reset came after the end of its
stream. -/
inductive Peer
  | connected
  | reset
  | broken
deriving DecidableEq

/-- `streams` lists for each connection the broadcasts whose payload was sent on it. -/
structure Connections where
  descriptors : Descriptors
  clients : List ClientInfo
  acceptor : Acceptor
  handlers : List Serving
  peers : Nat → Peer
  broadcaster : Broadcaster
  broadcasts : Nat
  streams : Nat → List Nat
  killed : Bool

inductive Action
  | accept
  | pushClient
  | startHandler
  | reset (k : Nat) (ended : Bool)
  | hangUp (k : Nat)
  | closeSocket (k : Nat)
  | lockClients
  | send
  | unlockClients
  | openResults
  | closeResults
deriving DecidableEq

/-- A call is told of a reset. -/
def Peer.told : Peer → Peer
  | .connected => .connected
  | .reset => .broken
  | .broken => .broken

namespace Connections

/-- Standard input, output and error, and the listening socket. -/
def initial : Connections :=
  ⟨List.replicate 4 (some .file), [], .accepting, [], fun _ => .connected, .waiting, 0,
    fun _ => [], false⟩

def sockets (server : Connections) : List Nat := server.clients.map ClientInfo.socket

/-- `send` without flags. One on a descriptor that is not a socket fails, as does the first one
after a reset, and the failure is ignored; the next one raises `SIGPIPE`. -/
def deliver (server : Connections) (socket : Nat) : Connections :=
  match server.descriptors.entry socket with
  | some (.connection k) =>
      match server.peers k with
      | .connected =>
          { server with
            streams := update server.streams k (server.streams k ++ [server.broadcasts]) }
      | .reset => { server with peers := update server.peers k .broken }
      | .broken => { server with killed := true }
  | _ => server

/-- The steps of a server that no signal has ended. -/
def act (server : Connections) : Action → Option Connections
  | .accept =>
      match server.acceptor with
      | .accepting =>
          some { server with
            descriptors := server.descriptors.install (.connection server.clients.length)
            acceptor := .accepted server.descriptors.lowestFree }
      | _ => none
  | .pushClient =>
      match server.acceptor, server.broadcaster with
      | .accepted _, .sending _ => none
      | .accepted socket, _ =>
          some { server with clients := server.clients ++ [⟨socket⟩], acceptor := .listed }
      | _, _ => none
  | .startHandler =>
      match server.acceptor with
      | .listed =>
          some { server with handlers := server.handlers ++ [.receiving], acceptor := .accepting }
      | _ => none
  | .reset k ended =>
      match server.peers k with
      | .connected =>
          some { server with
            peers := update server.peers k (if ended then .broken else .reset) }
      | _ => none
  | .hangUp k =>
      match server.handlers[k]? with
      | some .receiving =>
          some { server with
            handlers := server.handlers.set k .leaving
            peers := update server.peers k (server.peers k).told }
      | _ => none
  | .closeSocket k =>
      match server.handlers[k]?, server.clients[k]? with
      | some .leaving, some client =>
          some { server with
            descriptors := server.descriptors.close client.socket
            handlers := server.handlers.set k .closed }
      | _, _ => none
  | .lockClients =>
      match server.broadcaster with
      | .waiting =>
          some { server with broadcaster := .sending 0, broadcasts := server.broadcasts + 1 }
      | _ => none
  | .send =>
      match server.broadcaster with
      | .sending next =>
          match server.clients[next]? with
          | some client =>
              some { server.deliver client.socket with broadcaster := .sending (next + 1) }
          | none => none
      | _ => none
  | .unlockClients =>
      match server.broadcaster with
      | .sending next =>
          if next = server.clients.length then some { server with broadcaster := .waiting }
          else none
      | _ => none
  | .openResults =>
      match server.broadcaster with
      | .waiting =>
          some { server with
            descriptors := server.descriptors.install .file
            broadcaster := .logging server.descriptors.lowestFree }
      | _ => none
  | .closeResults =>
      match server.broadcaster with
      | .logging fd =>
          some { server with
            descriptors := server.descriptors.close fd, broadcaster := .waiting }
      | _ => none

def step (server : Connections) (action : Action) : Option (Connections × Unit) :=
  if server.killed then none else (server.act action).map (·, ())

def Open (server : Connections) (k : Nat) : Prop :=
  ∃ fd, server.descriptors.entry fd = some (.connection k)

/-- When the loop has been through the clients, its payload was sent once to each of them
that is still open, to none more than once, and to no connection that was not added. -/
def DeliveredOnce (server : Connections) : Prop :=
  server.broadcaster = .sending server.clients.length → ∀ k,
    (k < server.clients.length → server.Open k →
      (server.streams k).count server.broadcasts = 1) ∧
    (server.clients.length ≤ k → (server.streams k).count server.broadcasts = 0) ∧
    (server.streams k).count server.broadcasts ≤ 1

/-- The server is alive and delivers. -/
def Delivers (server : Connections) : Prop := server.killed = false ∧ server.DeliveredOnce

/-- What an action can do, and when. -/
inductive Effect (server : Connections) : Action → Connections → Prop
  | accept (idle : server.acceptor = .accepting) :
      Effect server .accept { server with
        descriptors := server.descriptors.install (.connection server.clients.length)
        acceptor := .accepted server.descriptors.lowestFree }
  | pushClient {socket : Nat} (accepted : server.acceptor = .accepted socket)
      (unlocked : ∀ next, server.broadcaster ≠ .sending next) :
      Effect server .pushClient { server with
        clients := server.clients ++ [⟨socket⟩], acceptor := .listed }
  | startHandler (listed : server.acceptor = .listed) :
      Effect server .startHandler { server with
        handlers := server.handlers ++ [.receiving], acceptor := .accepting }
  | reset (k : Nat) (ended : Bool) (peers : Nat → Peer) :
      Effect server (.reset k ended) { server with peers := peers }
  | hangUp (k : Nat) (handlers : List Serving) (peers : Nat → Peer) :
      Effect server (.hangUp k) { server with handlers := handlers, peers := peers }
  | closeSocket {k : Nat} {client : ClientInfo} (listed : server.clients[k]? = some client) :
      Effect server (.closeSocket k) { server with
        descriptors := server.descriptors.close client.socket
        handlers := server.handlers.set k .closed }
  | lockClients (idle : server.broadcaster = .waiting) :
      Effect server .lockClients { server with
        broadcaster := .sending 0, broadcasts := server.broadcasts + 1 }
  | send {next : Nat} {client : ClientInfo} (sending : server.broadcaster = .sending next)
      (listed : server.clients[next]? = some client) :
      Effect server .send { server.deliver client.socket with broadcaster := .sending (next + 1) }
  | unlockClients : Effect server .unlockClients { server with broadcaster := .waiting }
  | openResults (idle : server.broadcaster = .waiting) :
      Effect server .openResults { server with
        descriptors := server.descriptors.install .file
        broadcaster := .logging server.descriptors.lowestFree }
  | closeResults {fd : Nat} :
      Effect server .closeResults { server with
        descriptors := server.descriptors.close fd, broadcaster := .waiting }

theorem step_effect {server next : Connections} {action : Action}
    (ran : server.step action = some (next, ())) :
    server.killed = false ∧ Effect server action next := by
  unfold step at ran
  split_ifs at ran with alive
  refine ⟨Bool.eq_false_iff.mpr alive, ?_⟩
  obtain ⟨after, ran, same⟩ := Option.map_eq_some_iff.mp ran
  cases same
  cases action with
  | accept =>
      simp only [act] at ran
      split at ran
      · rename_i idle
        cases ran
        exact .accept idle
      · cases ran
  | pushClient =>
      simp only [act] at ran
      split at ran
      · cases ran
      · rename_i accepted unlocked
        cases ran
        exact .pushClient accepted unlocked
      · cases ran
  | startHandler =>
      simp only [act] at ran
      split at ran
      · rename_i listed
        cases ran
        exact .startHandler listed
      · cases ran
  | reset k ended =>
      simp only [act] at ran
      split at ran
      · cases ran
        exact .reset k ended _
      · cases ran
  | hangUp k =>
      simp only [act] at ran
      split at ran
      · cases ran
        exact .hangUp k _ _
      · cases ran
  | closeSocket k =>
      simp only [act] at ran
      split at ran
      · rename_i listed
        cases ran
        exact .closeSocket listed
      · cases ran
  | lockClients =>
      simp only [act] at ran
      split at ran
      · rename_i idle
        cases ran
        exact .lockClients idle
      · cases ran
  | send =>
      simp only [act] at ran
      split at ran
      · rename_i sending
        split at ran
        · rename_i listed
          cases ran
          exact .send sending listed
        · cases ran
      · cases ran
  | unlockClients =>
      simp only [act] at ran
      split at ran
      · split_ifs at ran
        cases ran
        exact .unlockClients
      · cases ran
  | openResults =>
      simp only [act] at ran
      split at ran
      · rename_i idle
        cases ran
        exact .openResults idle
      · cases ran
  | closeResults =>
      simp only [act] at ran
      split at ran
      · cases ran
        exact .closeResults
      · cases ran

end Connections

end Finm327.Hft2026
