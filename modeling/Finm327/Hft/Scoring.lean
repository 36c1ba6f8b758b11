import Finm327.Library.Windows
import Finm327.Hft2026.Winner

/-!
# How the challenge server scores

Transcribes `handleClient`, `logChallengeResult` and the rounds of `broadcastChallengeLoop` of
`hft/src/server.cpp`. A move of a thread is one `recv` with what follows it up to the lock, or
one critical section, so a challenge can be replaced between the two. An answer is read by
`atoi` and only printed: it is never compared with anything, and what counts is when it comes.
-/

namespace Finm327.Hft.Scoring

open Finm327.Library.Maps
open Finm327.Library.Runs
open Finm327.Library.Scans
open Finm327.Library.Windows
open Finm327.Hft2026 (BUFFER_SIZE INT_MAX Name cStr latencyOf scanInt stored)
open Function (update)

/-- The matrices are sent and not read again. -/
structure ChallengeState where
  id : Int32
  startTime : Int
  latencies : KeyMap Name Int32

abbrev Player := (_ : Name) × Int32

/-- What is logged for a challenge. The key `players` is only there if someone answered. -/
structure LogEntry where
  challenge_id : Int32
  winner : Name
  players : List Player
deriving DecidableEq

/-- One turn of the loop, with `winner` and `bestLatency`. -/
def considerResponse (best : Name × Int32) (response : Player) : Name × Int32 :=
  if response.2 < best.2 then (response.1, response.2) else best

/-- The entry, where the loops go through the table in the given order. -/
def logChallengeResult (cid : Int32) (responses : List Player) : LogEntry :=
  let (winner, _) := responses.foldl considerResponse ([], INT_MAX)
  ⟨cid, winner, responses⟩

/-- The number that the text starts with, and 0 if there is none. -/
def atoi (overflow : Int → Int32) (text : List UInt8) : Int32 :=
  match scanInt text with
  | none => 0
  | some (value, _) => stored overflow value

/-- The critical section of `handleClient`. -/
def recordLatency (name : Name) (now : Int) (challenge : ChallengeState) : ChallengeState :=
  { challenge with
    latencies := challenge.latencies.insert name (latencyOf challenge.startTime now) }

/-- Where the handler of a client is. -/
inductive Handler
  | naming
  | receiving (name : Name)
  | answered (name : Name) (receivedAnswer : Int32) (now : Int)
  | closed

/-- Where `broadcastChallengeLoop` is. -/
inductive Stage
  | generating
  | prepared (cid : Int32)
  | opened (cid : Int32)
  | waiting (cid : Int32)
  | logging (cid : Int32) (snapshot : KeyMap Name Int32)

structure Server where
  challengeId : Int32
  currentChallenge : ChallengeState
  stage : Stage
  handlers : Nat → Handler

/-- `log` names the order in which the loops go through the table. -/
inductive Step
  | generate
  | replace (now : Int)
  | push
  | snapshot
  | log (responses : List Player)
  | register (k : Nat) (bytes : List UInt8)
  | receive (k : Nat) (bytes : List UInt8) (now : Int)
  | record (k : Nat)
  | disconnect (k : Nat)
deriving DecidableEq

/-- A message that was counted: who sent it and when. -/
structure Arrival where
  name : Name
  now : Int
deriving DecidableEq

inductive Entry
  | silent
  | opened (cid : Int32) (startTime : Int)
  | pushed (cid : Int32)
  | copied
  | printed (arrival : Arrival) (receivedAnswer latency cid : Int32)
  | logged (result : LogEntry)

namespace Server

def initial : Server := ⟨1, ⟨0, 0, ∅⟩, .generating, fun _ => .naming⟩

def step (overflow : Int → Int32) (server : Server) : Step → Option (Server × Entry)
  | .generate =>
      match server.stage with
      | .generating =>
          some ({ server with
            challengeId := server.challengeId + 1
            stage := .prepared server.challengeId }, .silent)
      | _ => none
  | .replace now =>
      match server.stage with
      | .prepared cid =>
          some ({ server with
            currentChallenge := ⟨cid, now, ∅⟩
            stage := .opened cid }, .opened cid now)
      | _ => none
  | .push =>
      match server.stage with
      | .opened cid => some ({ server with stage := .waiting cid }, .pushed cid)
      | _ => none
  | .snapshot =>
      match server.stage with
      | .waiting cid =>
          some ({ server with stage := .logging cid server.currentChallenge.latencies }, .copied)
      | _ => none
  | .log responses =>
      match server.stage with
      | .logging cid snapshot =>
          if responses.Perm snapshot.entries then
            some ({ server with stage := .generating },
              .logged (logChallengeResult cid responses))
          else none
      | _ => none
  | .register k bytes =>
      match server.handlers k with
      | .naming =>
          if bytes ≠ [] ∧ bytes.length < BUFFER_SIZE then
            some ({ server with
              handlers := update server.handlers k (.receiving (cStr bytes)) }, .silent)
          else none
      | _ => none
  | .receive k bytes now =>
      match server.handlers k with
      | .receiving name =>
          if bytes ≠ [] ∧ bytes.length < BUFFER_SIZE then
            some ({ server with
              handlers := update server.handlers k
                (.answered name (atoi overflow (cStr bytes)) now) }, .silent)
          else none
      | _ => none
  | .record k =>
      match server.handlers k with
      | .answered name receivedAnswer now =>
          some ({ server with
            currentChallenge := recordLatency name now server.currentChallenge
            handlers := update server.handlers k (.receiving name) },
            .printed ⟨name, now⟩ receivedAnswer
              (latencyOf server.currentChallenge.startTime now) server.currentChallenge.id)
      | _ => none
  | .disconnect k =>
      match server.handlers k with
      | .naming =>
          some ({ server with handlers := update server.handlers k .closed }, .silent)
      | .receiving _ =>
          some ({ server with handlers := update server.handlers k .closed }, .silent)
      | _ => none

end Server

/-! ## The winner -/

/-- No response has a latency below the bound and the name is empty, or the winner's response has
one that no other undercuts. -/
def Best (winner : Name) (responses : List Player) : Prop :=
  (winner = [] ∧ ∀ response ∈ responses, response.2 = INT_MAX) ∨
    ∃ latency, ⟨winner, latency⟩ ∈ responses ∧ latency < INT_MAX ∧
      ∀ response ∈ responses, latency ≤ response.2

theorem not_lt_int_max {latency : Int32} : ¬ latency < INT_MAX ↔ latency = INT_MAX := by
  rw [← Int32.toInt_inj, Int32.lt_iff_toInt_lt]
  have bound := latency.toInt_lt
  have top : INT_MAX.toInt = 2147483647 := by decide
  rw [top]
  omega

/-- What the loop has found after some responses. -/
theorem response_loop (responses : List Player) :
    (responses.foldl considerResponse ([], INT_MAX) = ([], INT_MAX) ∧
      ∀ response ∈ responses, response.2 = INT_MAX) ∨
    ∃ winner latency, responses.foldl considerResponse ([], INT_MAX) = (winner, latency) ∧
      ⟨winner, latency⟩ ∈ responses ∧ latency < INT_MAX ∧
      ∀ response ∈ responses, latency ≤ response.2 := by
  induction responses using List.reverseRecOn with
  | nil => exact .inl ⟨rfl, nofun⟩
  | append_singleton responses response ih =>
      simp only [List.foldl_append, List.foldl_cons, List.foldl_nil, List.mem_append,
        List.mem_singleton, or_imp, forall_and, forall_eq]
      rcases ih with ⟨nothing, all⟩ | ⟨winner, latency, found, member, bounded, least⟩
      · rw [nothing, considerResponse]
        split_ifs with smaller
        · refine .inr ⟨_, _, rfl, .inr rfl, smaller, ?_, Int32.le_refl _⟩
          intro other earlier
          rw [all other earlier]
          exact Int32.le_of_lt smaller
        · exact .inl ⟨rfl, all, not_lt_int_max.mp smaller⟩
      · rw [found, considerResponse]
        split_ifs with smaller
        · refine .inr ⟨_, _, rfl, .inr rfl, Int32.lt_trans smaller bounded, ?_, Int32.le_refl _⟩
          intro other earlier
          exact Int32.le_trans (Int32.le_of_lt smaller) (least other earlier)
        · exact .inr ⟨_, _, rfl, .inl member, bounded, least, Int32.not_lt.mp smaller⟩

theorem log_challenge_result_winner (cid : Int32) (responses : List Player) :
    Best (logChallengeResult cid responses).winner responses := by
  unfold logChallengeResult
  rcases response_loop responses with ⟨nothing, all⟩ | ⟨winner, latency, found, best⟩
  · rw [nothing]
    exact .inl ⟨rfl, all⟩
  · rw [found]
    exact .inr ⟨latency, best⟩

/-! ## What a run shows -/

/-- The challenge `broadcastChallengeLoop` opens, with the time at which it does. -/
structure Opening where
  cid : Int32
  startTime : Int

namespace Entry

def mark : Entry → Mark Opening Arrival
  | .opened cid startTime => .opened ⟨cid, startTime⟩
  | .printed arrival _ _ _ => .took arrival
  | .copied => .copied
  | _ => .other

def results : Entry → List LogEntry
  | .logged result => [result]
  | _ => []

end Entry

/-- The global `currentChallenge` before the first challenge. -/
def unopened : Opening := ⟨0, 0⟩

def ledger (entries : List Entry) : Ledger Opening Arrival :=
  Ledger.after unopened (entries.map Entry.mark)

theorem ledger_append (entries : List Entry) (entry : Entry) :
    ledger (entries ++ [entry]) = (ledger entries).follow entry.mark := by
  rw [ledger, List.map_append, List.map_singleton, Ledger.after_append_singleton, ledger]

/-- The challenge after the messages that were counted while it was open. -/
def scored (window : Window Opening Arrival) : ChallengeState :=
  window.messages.foldl (fun challenge arrival => recordLatency arrival.name arrival.now challenge)
    ⟨window.round.cid, window.round.startTime, ∅⟩

theorem scored_append (round : Opening) (messages : List Arrival) (arrival : Arrival) :
    scored ⟨round, messages ++ [arrival]⟩ =
      recordLatency arrival.name arrival.now (scored ⟨round, messages⟩) := by
  rw [scored, List.foldl_append]
  rfl

theorem scored_frame (window : Window Opening Arrival) :
    (scored window).id = window.round.cid ∧ (scored window).startTime = window.round.startTime := by
  obtain ⟨round, messages⟩ := window
  induction messages using List.reverseRecOn with
  | nil => exact ⟨rfl, rfl⟩
  | append_singleton messages arrival ih =>
      rw [scored_append]
      exact ih

/-- The last message of a client. -/
def lastArrival (name : Name) (messages : List Arrival) : Option Arrival :=
  (messages.filter fun arrival => arrival.name = name).getLast?

theorem last_arrival_append (name : Name) (messages : List Arrival) (arrival : Arrival) :
    lastArrival name (messages ++ [arrival]) =
      if arrival.name = name then some arrival else lastArrival name messages := by
  unfold lastArrival
  rw [List.filter_append, List.filter_singleton]
  split_ifs with own
  · rw [decide_eq_true own]
    exact List.getLast?_concat
  · rw [decide_eq_false own]
    exact congrArg List.getLast? (List.append_nil _)

/-- The table shows the last message of each name. -/
theorem scored_lookup (window : Window Opening Arrival) (name : Name) :
    (scored window).latencies.lookup name = (lastArrival name window.messages).map
      (fun arrival => latencyOf window.round.startTime arrival.now) := by
  obtain ⟨round, messages⟩ := window
  induction messages using List.reverseRecOn with
  | nil => rfl
  | append_singleton messages arrival ih =>
      obtain ⟨_, start⟩ := scored_frame ⟨round, messages⟩
      rw [scored_append, recordLatency, lookup_insert_eq, start, last_arrival_append]
      by_cases same : name = arrival.name
      · rw [if_pos same, if_pos same.symm]
        rfl
      · rw [if_neg same, if_neg (Ne.symm same)]
        exact ih

/-- What an entry of the log says about a window: the players are the clients that sent
something, each once with the latency of its last message, whatever it said. -/
structure Scores (window : Window Opening Arrival) (result : LogEntry) : Prop where
  challenge : result.challenge_id = window.round.cid
  once : (result.players.map Sigma.fst).Nodup
  players : ∀ name latency, ⟨name, latency⟩ ∈ result.players ↔
    ∃ arrival, lastArrival name window.messages = some arrival ∧
      latencyOf window.round.startTime arrival.now = latency
  best : Best result.winner result.players

theorem log_challenge_result_scores {window : Window Opening Arrival} {responses : List Player}
    (order : responses.Perm (scored window).latencies.entries) :
    Scores window (logChallengeResult window.round.cid responses) := by
  constructor
  · rfl
  · exact (order.map Sigma.fst).nodup_iff.mpr (scored window).latencies.nodupKeys
  · intro name latency
    change _ ∈ responses ↔ _
    rw [order.mem_iff, ← AList.mem_lookup_iff, scored_lookup, Option.mem_def,
      Option.map_eq_some_iff]
  · exact log_challenge_result_winner window.round.cid responses

namespace Server

/-- What a step can do, and when. -/
inductive Effect (server : Server) : Server → Entry → Prop
  | generate (idle : server.stage = .generating) :
      Effect server { server with
        challengeId := server.challengeId + 1
        stage := .prepared server.challengeId } .silent
  | replace {cid : Int32} (now : Int) (ready : server.stage = .prepared cid) :
      Effect server { server with
        currentChallenge := ⟨cid, now, ∅⟩
        stage := .opened cid } (.opened cid now)
  | push {cid : Int32} (ready : server.stage = .opened cid) :
      Effect server { server with stage := .waiting cid } (.pushed cid)
  | snapshot {cid : Int32} (waited : server.stage = .waiting cid) :
      Effect server { server with
        stage := .logging cid server.currentChallenge.latencies } .copied
  | log {cid : Int32} {snapshot : KeyMap Name Int32} {responses : List Player}
      (copied : server.stage = .logging cid snapshot) (order : responses.Perm snapshot.entries) :
      Effect server { server with stage := .generating }
        (.logged (logChallengeResult cid responses))
  | handlers (handlers : Nat → Handler) :
      Effect server { server with handlers := handlers } .silent
  | record (name : Name) (receivedAnswer latency cid : Int32) (now : Int)
      (handlers : Nat → Handler) :
      Effect server { server with
        currentChallenge := recordLatency name now server.currentChallenge
        handlers := handlers } (.printed ⟨name, now⟩ receivedAnswer latency cid)

theorem step_effect {overflow : Int → Int32} {server next : Server} {op : Step} {entry : Entry}
    (ran : step overflow server op = some (next, entry)) : Effect server next entry := by
  cases op with
  | generate =>
      simp only [step] at ran
      split at ran
      · rename_i idle
        cases ran
        exact .generate idle
      · cases ran
  | replace now =>
      simp only [step] at ran
      split at ran
      · rename_i ready
        cases ran
        exact .replace now ready
      · cases ran
  | push =>
      simp only [step] at ran
      split at ran
      · rename_i ready
        cases ran
        exact .push ready
      · cases ran
  | snapshot =>
      simp only [step] at ran
      split at ran
      · rename_i waited
        cases ran
        exact .snapshot waited
      · cases ran
  | log responses =>
      simp only [step] at ran
      split at ran
      · rename_i copied
        split_ifs at ran with order
        cases ran
        exact .log copied order
      · cases ran
  | register k bytes =>
      simp only [step] at ran
      split at ran
      · split_ifs at ran
        cases ran
        exact .handlers _
      · cases ran
  | receive k bytes now =>
      simp only [step] at ran
      split at ran
      · split_ifs at ran
        cases ran
        exact .handlers _
      · cases ran
  | record k =>
      simp only [step] at ran
      split at ran
      · cases ran
        exact .record _ _ _ _ _ _
      · cases ran
  | disconnect k =>
      simp only [step] at ran
      split at ran
      · cases ran
        exact .handlers _
      · cases ran
        exact .handlers _
      · cases ran

end Server

/-! ## What is logged for a challenge -/

namespace Stage

/-- The challenge that is open for answers. -/
def openId : Stage → Option Int32
  | .opened cid => some cid
  | .waiting cid => some cid
  | _ => none

/-- The windows that are copied and not logged. -/
def Keeps : Stage → List (Window Opening Arrival) → Prop
  | .logging cid snapshot, rest =>
      ∃ window, rest = [window] ∧ window.round.cid = cid ∧ (scored window).latencies = snapshot
  | _, rest => rest = []

theorem keeps_cases {stage : Stage} {rest : List (Window Opening Arrival)}
    (keeps : stage.Keeps rest) : ∃ last : Option (Window Opening Arrival), rest = last.toList := by
  cases stage with
  | logging cid snapshot =>
      obtain ⟨window, rfl, _⟩ := keeps
      exact ⟨some window, rfl⟩
  | _ => exact ⟨none, keeps⟩

end Stage

namespace Server

/-- The table is that of the window that is open; what is logged or about to be comes from the
windows that were copied. -/
structure Windowed (server : Server) (entries : List Entry) : Prop where
  current : server.currentChallenge = scored (ledger entries).current
  opened : ∀ cid, server.stage.openId = some cid → (ledger entries).current.round.cid = cid
  copies : ∃ done rest, (ledger entries).copies = done ++ rest ∧ server.stage.Keeps rest ∧
    List.Forall₂ Scores done (entries.flatMap Entry.results)

theorem initial_windowed : Windowed initial [] := ⟨rfl, nofun, [], [], rfl, rfl, .nil⟩

variable {server next : Server} {entries : List Entry} {entry : Entry}

/-- A step that neither opens nor copies nor logs a challenge, and counts no message. -/
theorem Windowed.keep (windowed : Windowed server entries)
    (quiet : entry.mark = .other ∧ entry.results = [])
    (current : next.currentChallenge = server.currentChallenge)
    (opened : ∀ cid, next.stage.openId = some cid → server.stage.openId = some cid)
    (keeps : ∀ rest, server.stage.Keeps rest → next.stage.Keeps rest) :
    Windowed next (entries ++ [entry]) := by
  have same : ledger (entries ++ [entry]) = ledger entries := by
    rw [ledger_append, quiet.1]
    rfl
  obtain ⟨done, rest, copies, keep, scores⟩ := windowed.copies
  constructor
  · rw [same, current]
    exact windowed.current
  · rw [same]
    exact fun cid isOpen => windowed.opened cid (opened cid isOpen)
  · rw [same, List.flatMap_append, List.flatMap_singleton, quiet.2, List.append_nil]
    exact ⟨done, rest, copies, keeps rest keep, scores⟩

theorem step_windowed (windowed : Windowed server entries) (effect : Effect server next entry) :
    Windowed next (entries ++ [entry]) := by
  obtain ⟨done, rest, copies, keeps, scores⟩ := windowed.copies
  cases effect with
  | generate idle =>
      refine windowed.keep ⟨rfl, rfl⟩ rfl nofun ?_
      rw [idle]
      exact fun _ keep => keep
  | @replace cid now ready =>
      rw [ready] at keeps
      constructor
      · rw [ledger_append]
        rfl
      · intro own isOpen
        rw [ledger_append]
        exact Option.some.inj isOpen
      · rw [ledger_append, List.flatMap_append]
        exact ⟨done, rest, copies, keeps, (List.append_nil _).symm ▸ scores⟩
  | push ready =>
      refine windowed.keep ⟨rfl, rfl⟩ rfl ?_ ?_
      · intro cid isOpen
        rw [ready]
        exact isOpen
      · rw [ready]
        exact fun _ keep => keep
  | @snapshot cid waited =>
      rw [waited] at keeps
      have own := windowed.opened cid (by rw [waited]; rfl)
      constructor
      · rw [ledger_append]
        exact windowed.current
      · nofun
      · rw [ledger_append, List.flatMap_append]
        refine ⟨done, [(ledger entries).current], ?_, ⟨_, rfl, own, ?_⟩,
          (List.append_nil _).symm ▸ scores⟩
        · change (ledger entries).copies ++ [_] = _
          rw [copies, keeps, List.append_nil]
        · rw [windowed.current]
  | @log cid snapshot responses copied order =>
      rw [copied] at keeps
      obtain ⟨window, rfl, own, same⟩ := keeps
      rw [← own]
      rw [← same] at order
      constructor
      · rw [ledger_append]
        exact windowed.current
      · nofun
      · rw [ledger_append, List.flatMap_append]
        refine ⟨done ++ [window], [], ?_, rfl, ?_⟩
        · rw [List.append_nil]
          exact copies
        · exact List.rel_append scores (.cons (log_challenge_result_scores order) .nil)
  | handlers =>
      exact windowed.keep ⟨rfl, rfl⟩ rfl (fun _ isOpen => isOpen) (fun _ keep => keep)
  | record name receivedAnswer latency cid now =>
      constructor
      · rw [ledger_append]
        change recordLatency name now server.currentChallenge =
          scored ⟨(ledger entries).current.round, (ledger entries).current.messages ++ [⟨name, now⟩]⟩
        rw [scored_append, windowed.current]
      · rw [ledger_append]
        exact windowed.opened
      · rw [ledger_append, List.flatMap_append]
        exact ⟨done, rest, copies, keeps, (List.append_nil _).symm ▸ scores⟩

abbrev Run := Config Server Step Entry

variable {overflow : Int → Int32} {config : Run}

theorem reachable_scored (reached : Reachable (step overflow) (fun _ _ => True) initial config) :
    ∃ done, ∃ last : Option (Window Opening Arrival),
      windows unopened (config.observations.map Entry.mark) = done ++ last.toList ∧
      List.Forall₂ Scores done (config.observations.flatMap Entry.results) := by
  have windowed : Windowed config.state config.observations := by
    refine reachable_invariant (fun config : Run => Windowed config.state config.observations)
      initial_windowed ?_ reached
    intro config op next entry windowed _ ran
    rw [Config.push_observations]
    exact step_windowed windowed (step_effect ran)
  obtain ⟨done, rest, copies, keeps, scores⟩ := windowed.copies
  obtain ⟨last, rfl⟩ := Stage.keeps_cases keeps
  exact ⟨done, last, copies, scores⟩

/-- In every run, the log has an entry for each window that was copied, in order, but for one at
most that is not logged yet; and each entry scores the messages that were counted between the
opening of its challenge and its copy, whatever challenge they answer and whether they are right:
each client with its last one, and the least latency wins. -/
theorem windows_scored (reached : Reachable (step overflow) (fun _ _ => True) initial config) :
    ∃ done, ∃ last : Option (Window Opening Arrival),
      windows unopened (config.observations.map Entry.mark) = done ++ last.toList ∧
      List.Forall₂ Scores done (config.observations.flatMap Entry.results) :=
  reachable_scored reached

/-- One client sends twice and another once, and a message that is read while the first challenge
is open is counted for the second. -/
def sampleSteps : List Step :=
  [.register 0 [97], .register 1 [98], .generate, .replace 0, .push, .receive 0 [53] 9000000,
    .record 0, .receive 0 [120] 4000000, .record 0, .receive 1 [54] 7000000, .record 1,
    .receive 1 [55] 8000000, .snapshot, .log [⟨[98], 7⟩, ⟨[97], 4⟩], .generate,
    .replace 9000000, .record 1, .push, .snapshot, .log [⟨[98], -1⟩]]

theorem windows_scored_sample :
    ∃ config : Run, Reachable (step fun _ => 0) (fun _ _ => True) initial config ∧
      config.observations.flatMap Entry.results =
        [⟨1, [97], [⟨[98], 7⟩, ⟨[97], 4⟩]⟩, ⟨2, [98], [⟨[98], -1⟩]⟩] ∧
      ∃ done, ∃ last : Option (Window Opening Arrival),
        windows unopened (config.observations.map Entry.mark) = done ++ last.toList ∧
        List.Forall₂ Scores done (config.observations.flatMap Entry.results) := by
  have completes : (execute (step fun _ => 0) (fun _ _ => True) (.start initial)
      sampleSteps).any (fun config => decide (config.observations.flatMap Entry.results =
        [⟨1, [97], [⟨[98], 7⟩, ⟨[97], 4⟩]⟩, ⟨2, [98], [⟨[98], -1⟩]⟩])) = true := by
    decide
  obtain ⟨config, reached, logged⟩ := reachable_of_execute_any completes
  exact ⟨config, reached, logged, windows_scored reached⟩

/-! ## What an answer says is not read -/

/-- The same operation, but for the bytes of an answer. -/
inductive Alike : Step → Step → Prop
  | same (op : Step) : Alike op op
  | receive (k : Nat) {bytes others : List UInt8} (now : Int)
      (fits : others ≠ [] ∧ others.length < BUFFER_SIZE) :
      Alike (.receive k bytes now) (.receive k others now)

/-- What is left of a handler without the answer. -/
def unread : Handler → Handler
  | .answered name _ now => .answered name 0 now
  | handler => handler

/-- Two servers that differ at most in the answers that the handlers hold. -/
structure Unread (server mirror : Server) : Prop where
  challengeId : mirror.challengeId = server.challengeId
  currentChallenge : mirror.currentChallenge = server.currentChallenge
  stage : mirror.stage = server.stage
  handlers : ∀ k, unread (mirror.handlers k) = unread (server.handlers k)

theorem unread_naming {handler : Handler} (same : unread handler = .naming) :
    handler = .naming := by
  cases handler <;> first | rfl | cases same

theorem unread_receiving {handler : Handler} {name : Name}
    (same : unread handler = .receiving name) : handler = .receiving name := by
  cases handler <;> first | exact same | cases same

theorem unread_answered {handler : Handler} {name : Name} {now : Int}
    (same : unread handler = .answered name 0 now) :
    ∃ answer, handler = .answered name answer now := by
  cases handler with
  | answered own answer time =>
      cases same
      exact ⟨answer, rfl⟩
  | _ => cases same

theorem unread_update {first second : Nat → Handler} {one other : Handler}
    (handlers : ∀ k, unread (second k) = unread (first k)) (same : unread other = unread one)
    (k j : Nat) : unread (update second k other j) = unread (update first k one j) := by
  rw [Function.update_apply, Function.update_apply]
  split_ifs
  · exact same
  · exact handlers j

theorem step_unread {mirror : Server} {op other : Step} (same : Unread server mirror)
    (alike : Alike op other) (ran : step overflow server op = some (next, entry)) :
    ∃ image out, step overflow mirror other = some (image, out) ∧ Unread next image ∧
      out.results = entry.results := by
  obtain ⟨challengeId, currentChallenge, stage, handlers⟩ := same
  cases alike with
  | receive k now fits =>
      simp only [step] at ran
      split at ran
      · rename_i name found
        split_ifs at ran
        cases ran
        have own : mirror.handlers k = .receiving name :=
          unread_receiving ((handlers k).trans (by rw [found]; rfl))
        simp only [step, own, if_pos fits]
        exact ⟨_, _, rfl, ⟨challengeId, currentChallenge, stage,
          fun j => unread_update handlers (by rfl) k j⟩, rfl⟩
      · cases ran
  | same =>
      cases op with
      | generate =>
          simp only [step] at ran
          split at ran
          · rename_i idle
            cases ran
            simp only [step, stage, idle]
            exact ⟨_, _, rfl, ⟨congrArg (· + 1) challengeId, currentChallenge,
              congrArg Stage.prepared challengeId, handlers⟩, rfl⟩
          · cases ran
      | replace now =>
          simp only [step] at ran
          split at ran
          · rename_i ready
            cases ran
            simp only [step, stage, ready]
            exact ⟨_, _, rfl, ⟨challengeId, rfl, rfl, handlers⟩, rfl⟩
          · cases ran
      | push =>
          simp only [step] at ran
          split at ran
          · rename_i ready
            cases ran
            simp only [step, stage, ready]
            exact ⟨_, _, rfl, ⟨challengeId, currentChallenge, rfl, handlers⟩, rfl⟩
          · cases ran
      | snapshot =>
          simp only [step] at ran
          split at ran
          · rename_i waited
            cases ran
            simp only [step, stage, waited]
            exact ⟨_, _, rfl, ⟨challengeId, currentChallenge, by rw [currentChallenge],
              handlers⟩, rfl⟩
          · cases ran
      | log responses =>
          simp only [step] at ran
          split at ran
          · rename_i copied
            split_ifs at ran with order
            cases ran
            simp only [step, stage, copied, if_pos order]
            exact ⟨_, _, rfl, ⟨challengeId, currentChallenge, rfl, handlers⟩, rfl⟩
          · cases ran
      | register k bytes =>
          simp only [step] at ran
          split at ran
          · rename_i found
            split_ifs at ran with fits
            cases ran
            have own : mirror.handlers k = .naming :=
              unread_naming ((handlers k).trans (by rw [found]; rfl))
            simp only [step, own, if_pos fits]
            exact ⟨_, _, rfl, ⟨challengeId, currentChallenge, stage,
              fun j => unread_update handlers rfl k j⟩, rfl⟩
          · cases ran
      | receive k bytes now =>
          simp only [step] at ran
          split at ran
          · rename_i name found
            split_ifs at ran with fits
            cases ran
            have own : mirror.handlers k = .receiving name :=
              unread_receiving ((handlers k).trans (by rw [found]; rfl))
            simp only [step, own, if_pos fits]
            exact ⟨_, _, rfl, ⟨challengeId, currentChallenge, stage,
              fun j => unread_update handlers rfl k j⟩, rfl⟩
          · cases ran
      | record k =>
          simp only [step] at ran
          split at ran
          · rename_i name answer now found
            cases ran
            obtain ⟨held, own⟩ : ∃ held, mirror.handlers k = .answered name held now :=
              unread_answered ((handlers k).trans (by rw [found]; rfl))
            simp only [step, own]
            exact ⟨_, _, rfl, ⟨challengeId, congrArg (recordLatency name now) currentChallenge,
              stage, fun j => unread_update handlers rfl k j⟩, rfl⟩
          · cases ran
      | disconnect k =>
          simp only [step] at ran
          split at ran
          · rename_i found
            cases ran
            have own : mirror.handlers k = .naming :=
              unread_naming ((handlers k).trans (by rw [found]; rfl))
            simp only [step, own]
            exact ⟨_, _, rfl, ⟨challengeId, currentChallenge, stage,
              fun j => unread_update handlers rfl k j⟩, rfl⟩
          · rename_i name found
            cases ran
            have own : mirror.handlers k = .receiving name :=
              unread_receiving ((handlers k).trans (by rw [found]; rfl))
            simp only [step, own]
            exact ⟨_, _, rfl, ⟨challengeId, currentChallenge, stage,
              fun j => unread_update handlers rfl k j⟩, rfl⟩
          · cases ran

/-- What the clients answer makes no difference: in every run any bytes can stand in the place of
those of the answers, and the log is the same. -/
theorem answers_not_read (reached : Reachable (step overflow) (fun _ _ => True) initial config)
    {ops : List Step} (alike : List.Forall₂ Alike config.ops ops) :
    ∃ mirror, Reachable (step overflow) (fun _ _ => True) initial mirror ∧ mirror.ops = ops ∧
      mirror.observations.flatMap Entry.results =
        config.observations.flatMap Entry.results := by
  obtain ⟨mirror, mirrorReached, ops, _, results⟩ := reachable_alike
    (fun config mirror : Run => Unread config.state mirror.state ∧
      mirror.observations.flatMap Entry.results = config.observations.flatMap Entry.results)
    ⟨⟨rfl, rfl, rfl, fun _ => rfl⟩, rfl⟩
    (by
      intro config mirror op other next entry related one _ ran
      obtain ⟨image, out, follows, same, own⟩ := step_unread related.1 one ran
      refine ⟨image, out, trivial, follows, same, ?_⟩
      rw [Config.push_observations, Config.push_observations, List.flatMap_append,
        List.flatMap_append, related.2, List.flatMap_singleton, List.flatMap_singleton, own])
    reached alike
  exact ⟨mirror, mirrorReached, ops, results⟩

/-- Every answer is 0. -/
def silenced : Step → Step
  | .receive k _ now => .receive k [48] now
  | op => op

theorem alike_silenced (op : Step) : Alike op (silenced op) := by
  cases op with
  | receive k bytes now => exact .receive k now (by decide)
  | _ => exact .same _

theorem answers_not_read_sample :
    ∃ config mirror : Run, config.ops = sampleSteps ∧
      Reachable (step fun _ => 0) (fun _ _ => True) initial mirror ∧
      mirror.ops = sampleSteps.map silenced ∧
      mirror.observations.flatMap Entry.results =
        config.observations.flatMap Entry.results := by
  have completes : (execute (step fun _ => 0) (fun _ _ => True) (.start initial)
      sampleSteps).any (fun config => decide (config.ops = sampleSteps)) = true := by
    decide
  obtain ⟨config, reached, ops⟩ := reachable_of_execute_any completes
  have alike : List.Forall₂ Alike config.ops (sampleSteps.map silenced) := by
    rw [ops, List.forall₂_map_right_iff, List.forall₂_same]
    exact fun op _ => alike_silenced op
  obtain ⟨mirror, same⟩ := answers_not_read reached alike
  exact ⟨config, mirror, ops, same⟩

end Server

end Finm327.Hft.Scoring
