import Finm327.Library.Windows
import Finm327.Hft2026.Winner

/-!
# The rounds of the blast server

Transcribes `broadcastChallengeLoop`, `handleClient` and `logChallengeResult` of
`hftprojectstudent/tools/blast_server.cpp` with `currentChallenge`, `challengeId` and the
bursts of the ultra mode. A move of a thread is one `recv` with the parsing of its bytes, or
one critical section, so a challenge can be replaced between the two. The matrices are sent
and not read again, and only the answer that is right for them appears here; what the loop
sleeps does not. The static `counter` is an `int`, whose overflow is taken to wrap.
-/

namespace Finm327.Blast

open Finm327.Library.Maps
open Finm327.Library.Runs
open Finm327.Library.Windows
open Finm327.Hft2026
open Function (update)

/-- Where `broadcastChallengeLoop` is; `i` counts the challenges of a burst. -/
inductive Stage
  | generating
  | prepared (cid correct : Int32)
  | opened (cid correct : Int32)
  | waiting (cid correct : Int32)
  | logging (cid correct : Int32) (lat ans : KeyMap Name Int32)
  | pausing
  | bursting (i : Nat)
  | burstPrepared (i : Nat) (burstCid bCorrect : Int32)
  | burstPushed (i : Nat) (burstCid bCorrect : Int32)

structure Scores where
  challengeId : Int32
  currentChallenge : ChallengeState
  counter : Int32
  stage : Stage
  handlers : Nat → Handler

inductive Step
  | generate (correct : Int32)
  | replace (now : Int)
  | push
  | snapshot
  | log
  | pause
  | register (k : Nat) (bytes : List UInt8)
  | receive (k : Nat) (bytes : List UInt8) (now : Int)
  | record (k : Nat)
  | disconnect (k : Nat)

/-- What a step shows: a challenge is opened, pushed to the clients, copied, or logged with
its tables, in a burst or not, or a handler processes a message. -/
inductive Entry
  | silent
  | opened (cid : Int32) (startTime : Int)
  | pushed (burst : Bool) (cid : Int32)
  | processed (sent : Sent)
  | copied
  | logged (burst : Bool) (cid correct : Int32) (lat ans : KeyMap Name Int32)

namespace Scores

def initial : Scores := ⟨1, ⟨0, 0, ∅, ∅⟩, 0, .generating, fun _ => .naming⟩

/-- What follows the log entry of a challenge: in the ultra mode every fiftieth is followed by
a burst. -/
def pauseStage (mode : Int) (counter : Int32) : Int32 × Stage :=
  if mode = 0 then (counter, .generating)
  else if mode = 1 then (counter, .generating)
  else if (counter + 1) % 50 = 0 then (counter + 1, .bursting 0)
  else (counter + 1, .generating)

def step (mode : Int) (overflow : Int → Int32) (server : Scores) :
    Step → Option (Scores × Entry)
  | .generate correct =>
      match server.stage with
      | .generating =>
          some ({ server with
            challengeId := server.challengeId + 1
            stage := .prepared server.challengeId correct }, .silent)
      | .bursting i =>
          if i < 20 then
            some ({ server with
              challengeId := server.challengeId + 1
              stage := .burstPrepared i server.challengeId correct }, .silent)
          else none
      | _ => none
  | .replace now =>
      match server.stage with
      | .prepared cid correct =>
          some ({ server with
            currentChallenge := ⟨cid, now, ∅, ∅⟩
            stage := .opened cid correct }, .opened cid now)
      | _ => none
  | .push =>
      match server.stage with
      | .opened cid correct =>
          some ({ server with stage := .waiting cid correct }, .pushed false cid)
      | .burstPrepared i burstCid bCorrect =>
          some ({ server with stage := .burstPushed i burstCid bCorrect }, .pushed true burstCid)
      | _ => none
  | .snapshot =>
      match server.stage with
      | .waiting cid correct =>
          some ({ server with
            stage := .logging cid correct server.currentChallenge.latencies
              server.currentChallenge.answers }, .copied)
      | _ => none
  | .log =>
      match server.stage with
      | .logging cid correct lat ans =>
          some ({ server with stage := .pausing }, .logged false cid correct lat ans)
      | .burstPushed i burstCid bCorrect =>
          some ({ server with stage := .bursting (i + 1) }, .logged true burstCid bCorrect ∅ ∅)
      | _ => none
  | .pause =>
      match server.stage with
      | .pausing =>
          some ({ server with
            counter := (pauseStage mode server.counter).1
            stage := (pauseStage mode server.counter).2 }, .silent)
      | .bursting i =>
          if i < 20 then none else some ({ server with stage := .generating }, .silent)
      | _ => none
  | .register k bytes =>
      match server.handlers k with
      | .naming =>
          if bytes ≠ [] ∧ bytes.length < BUFFER_SIZE then
            some ({ server with
              handlers := update server.handlers k (.receiving (rtrim bytes)) }, .silent)
          else none
      | _ => none
  | .receive k bytes now =>
      match server.handlers k with
      | .receiving name =>
          if bytes ≠ [] ∧ bytes.length < BUFFER_SIZE then
            match blastParseAnswer overflow bytes with
            | none => some (server, .silent)
            | some message =>
                some ({ server with
                  handlers := update server.handlers k (.parsed name bytes message now) }, .silent)
          else none
      | _ => none
  | .record k =>
      match server.handlers k with
      | .parsed name _ message now =>
          some ({ server with
            currentChallenge := recordAnswer name message now server.currentChallenge
            handlers := update server.handlers k (.receiving name) },
            .processed ⟨name, message, now⟩)
      | _ => none
  | .disconnect k =>
      match server.handlers k with
      | .naming =>
          some ({ server with handlers := update server.handlers k .closed }, .silent)
      | .receiving _ =>
          some ({ server with handlers := update server.handlers k .closed }, .silent)
      | _ => none

end Scores

/-! ## What a run shows -/

/-- The challenge `broadcastChallengeLoop` opens, with the time at which it does. -/
structure Opening where
  cid : Int32
  startTime : Int

/-- The two tables of a challenge. -/
structure ChallengeTables where
  cid : Int32
  latencies : KeyMap Name Int32
  answers : KeyMap Name Int32

namespace Entry

def mark : Entry → Mark Opening Sent
  | .opened cid startTime => .opened ⟨cid, startTime⟩
  | .processed sent => .took sent
  | .copied => .copied
  | _ => .other

def pushedId : Entry → List Int32
  | .pushed _ cid => [cid]
  | _ => []

def burstId : Entry → List Int32
  | .pushed true cid => [cid]
  | _ => []

def loggedId : Entry → List Int32
  | .logged _ cid _ _ _ => [cid]
  | _ => []

/-- What is logged for a challenge that is not part of a burst. -/
def regularTables : Entry → List ChallengeTables
  | .logged false cid _ lat ans => [⟨cid, lat, ans⟩]
  | _ => []

end Entry

/-- The global `currentChallenge` before the first challenge. -/
def unopened : Opening := ⟨0, 0⟩

/-- The challenge after the messages that were processed while it was open. -/
def scored (window : Window Opening Sent) : ChallengeState :=
  processAll (cleared window.round.cid window.round.startTime) window.messages

def tablesOf (window : Window Opening Sent) : ChallengeTables :=
  ⟨window.round.cid, (scored window).latencies, (scored window).answers⟩

def ledger (entries : List Entry) : Ledger Opening Sent :=
  Ledger.after unopened (entries.map Entry.mark)

theorem ledger_append (entries : List Entry) (entry : Entry) :
    ledger (entries ++ [entry]) = (ledger entries).follow entry.mark := by
  rw [ledger, List.map_append, List.map_singleton, Ledger.after_append_singleton, ledger]

/-- The first ids that `challengeId++` gives. -/
def firstIds (n : Nat) : List Int32 := (List.range n).map fun i => Int32.ofNat (i + 1)

theorem first_ids_succ (n : Nat) : firstIds (n + 1) = firstIds n ++ [Int32.ofNat (n + 1)] := by
  rw [firstIds, List.range_succ, List.map_append, List.map_singleton, firstIds]

namespace Stage

/-- The id that is claimed and not pushed. -/
def unpushed : Stage → List Int32
  | .prepared cid _ => [cid]
  | .opened cid _ => [cid]
  | .burstPrepared _ burstCid _ => [burstCid]
  | _ => []

/-- The id that is claimed and not logged. -/
def unlogged : Stage → List Int32
  | .prepared cid _ => [cid]
  | .opened cid _ => [cid]
  | .waiting cid _ => [cid]
  | .logging cid _ _ _ => [cid]
  | .burstPrepared _ burstCid _ => [burstCid]
  | .burstPushed _ burstCid _ => [burstCid]
  | _ => []

/-- The tables that are copied and not logged. -/
def unloggedTables : Stage → List ChallengeTables
  | .logging cid _ lat ans => [⟨cid, lat, ans⟩]
  | _ => []

/-- The challenge that is open for answers. -/
def openId : Stage → Option Int32
  | .opened cid _ => some cid
  | .waiting cid _ => some cid
  | _ => none

theorem unpushed_cases (stage : Stage) :
    stage.unpushed = [] ∨ ∃ cid, stage.unpushed = [cid] := by
  cases stage with
  | prepared cid => exact .inr ⟨cid, rfl⟩
  | opened cid => exact .inr ⟨cid, rfl⟩
  | burstPrepared _ cid => exact .inr ⟨cid, rfl⟩
  | _ => exact .inl rfl

theorem unlogged_cases (stage : Stage) :
    stage.unlogged = stage.unpushed ∨ (stage.unpushed = [] ∧ ∃ cid, stage.unlogged = [cid]) := by
  cases stage with
  | waiting cid => exact .inr ⟨rfl, cid, rfl⟩
  | logging cid => exact .inr ⟨rfl, cid, rfl⟩
  | burstPushed _ cid => exact .inr ⟨rfl, cid, rfl⟩
  | _ => exact .inl rfl

theorem unlogged_tables_cases (stage : Stage) :
    stage.unloggedTables = [] ∨ ∃ tables, stage.unloggedTables = [tables] := by
  cases stage with
  | logging cid _ lat ans => exact .inr ⟨⟨cid, lat, ans⟩, rfl⟩
  | _ => exact .inl rfl

end Stage

namespace Scores

/-- What a step can do, and when. -/
inductive Effect (server : Scores) : Scores → Entry → Prop
  | generate (correct : Int32) (idle : server.stage = .generating) :
      Effect server { server with
        challengeId := server.challengeId + 1
        stage := .prepared server.challengeId correct } .silent
  | burstGenerate {i : Nat} (correct : Int32) (bursting : server.stage = .bursting i) :
      Effect server { server with
        challengeId := server.challengeId + 1
        stage := .burstPrepared i server.challengeId correct } .silent
  | replace {cid correct : Int32} (now : Int) (ready : server.stage = .prepared cid correct) :
      Effect server { server with
        currentChallenge := ⟨cid, now, ∅, ∅⟩
        stage := .opened cid correct } (.opened cid now)
  | push {cid correct : Int32} (ready : server.stage = .opened cid correct) :
      Effect server { server with stage := .waiting cid correct } (.pushed false cid)
  | burstPush {i : Nat} {cid correct : Int32}
      (ready : server.stage = .burstPrepared i cid correct) :
      Effect server { server with stage := .burstPushed i cid correct } (.pushed true cid)
  | snapshot {cid correct : Int32} (waited : server.stage = .waiting cid correct) :
      Effect server { server with
        stage := .logging cid correct server.currentChallenge.latencies
          server.currentChallenge.answers } .copied
  | log {cid correct : Int32} {lat ans : KeyMap Name Int32}
      (copied : server.stage = .logging cid correct lat ans) :
      Effect server { server with stage := .pausing } (.logged false cid correct lat ans)
  | burstLog {i : Nat} {cid correct : Int32} (sent : server.stage = .burstPushed i cid correct) :
      Effect server { server with stage := .bursting (i + 1) } (.logged true cid correct ∅ ∅)
  | pause {counter : Int32} {stage : Stage} (done : server.stage = .pausing)
      (next : stage = .generating ∨ stage = .bursting 0) :
      Effect server { server with counter := counter, stage := stage } .silent
  | endBurst {i : Nat} (bursting : server.stage = .bursting i) :
      Effect server { server with stage := .generating } .silent
  | handlers (handlers : Nat → Handler) :
      Effect server { server with handlers := handlers } .silent
  | record (name : Name) (message : Parsed) (now : Int) (handlers : Nat → Handler) :
      Effect server { server with
        currentChallenge := recordAnswer name message now server.currentChallenge
        handlers := handlers } (.processed ⟨name, message, now⟩)

theorem pause_stage_cases (mode : Int) (counter : Int32) :
    (pauseStage mode counter).2 = .generating ∨ (pauseStage mode counter).2 = .bursting 0 := by
  unfold pauseStage
  split_ifs
  · exact .inl rfl
  · exact .inl rfl
  · exact .inr rfl
  · exact .inl rfl

theorem step_effect {mode : Int} {overflow : Int → Int32} {server next : Scores} {op : Step}
    {entry : Entry} (ran : step mode overflow server op = some (next, entry)) :
    Effect server next entry := by
  cases op with
  | generate correct =>
      simp only [step] at ran
      split at ran
      · rename_i idle
        cases ran
        exact .generate correct idle
      · rename_i i bursting
        split_ifs at ran
        cases ran
        exact .burstGenerate correct bursting
      · cases ran
  | replace now =>
      simp only [step] at ran
      split at ran
      · rename_i ready
        cases ran
        exact .replace now ready
      · cases ran
  | push =>
      simp only [step] at ran
      split at ran
      · rename_i ready
        cases ran
        exact .push ready
      · rename_i ready
        cases ran
        exact .burstPush ready
      · cases ran
  | snapshot =>
      simp only [step] at ran
      split at ran
      · rename_i waited
        cases ran
        exact .snapshot waited
      · cases ran
  | log =>
      simp only [step] at ran
      split at ran
      · rename_i copied
        cases ran
        exact .log copied
      · rename_i sent
        cases ran
        exact .burstLog sent
      · cases ran
  | pause =>
      simp only [step] at ran
      split at ran
      · rename_i done
        cases ran
        exact .pause done (pause_stage_cases mode server.counter)
      · rename_i bursting
        split_ifs at ran
        cases ran
        exact .endBurst bursting
      · cases ran
  | register k bytes =>
      simp only [step] at ran
      split at ran
      · split_ifs at ran
        cases ran
        exact .handlers _
      · cases ran
  | receive k bytes now =>
      simp only [step] at ran
      split at ran
      · split_ifs at ran
        split at ran
        · cases ran
          exact .handlers server.handlers
        · cases ran
          exact .handlers _
      · cases ran
  | record k =>
      simp only [step] at ran
      split at ran
      · cases ran
        exact .record _ _ _ _
      · cases ran
  | disconnect k =>
      simp only [step] at ran
      split at ran
      · cases ran
        exact .handlers _
      · cases ran
        exact .handlers _
      · cases ran

/-! ## Every challenge is pushed once and logged once, in order -/

/-- The ids are pushed in the order in which `challengeId` gives them, and logged in the order
in which they are pushed. -/
structure InOrder (server : Scores) (entries : List Entry) : Prop where
  pushed : ∃ n, server.challengeId = Int32.ofNat (n + 1) ∧
    entries.flatMap Entry.pushedId ++ server.stage.unpushed = firstIds n
  logged : entries.flatMap Entry.loggedId ++ server.stage.unlogged =
    entries.flatMap Entry.pushedId ++ server.stage.unpushed

variable {server next : Scores} {entries : List Entry} {entry : Entry}

theorem initial_in_order : InOrder initial [] := ⟨⟨0, rfl, rfl⟩, rfl⟩

/-- A step that claims no id pushes or logs the one that is next. -/
theorem InOrder.keep (inOrder : InOrder server entries)
    (challengeId : next.challengeId = server.challengeId)
    (pushed : entry.pushedId ++ next.stage.unpushed = server.stage.unpushed)
    (logged : entry.loggedId ++ next.stage.unlogged = server.stage.unlogged) :
    InOrder next (entries ++ [entry]) := by
  obtain ⟨n, own, ids⟩ := inOrder.pushed
  constructor
  · refine ⟨n, challengeId.trans own, ?_⟩
    rw [List.flatMap_append, List.flatMap_singleton, List.append_assoc, pushed]
    exact ids
  · rw [List.flatMap_append, List.flatMap_append, List.flatMap_singleton, List.flatMap_singleton,
      List.append_assoc, List.append_assoc, pushed, logged]
    exact inOrder.logged

/-- A step that claims the next id, when the last one is pushed and logged. -/
theorem InOrder.claim (inOrder : InOrder server entries)
    (challengeId : next.challengeId = server.challengeId + 1)
    (quiet : entry.pushedId = [] ∧ entry.loggedId = [])
    (before : server.stage.unpushed = [] ∧ server.stage.unlogged = [])
    (after : next.stage.unpushed = [server.challengeId] ∧
      next.stage.unlogged = [server.challengeId]) :
    InOrder next (entries ++ [entry]) := by
  obtain ⟨n, own, ids⟩ := inOrder.pushed
  have logged := inOrder.logged
  rw [before.1, List.append_nil] at ids
  rw [before.1, before.2, List.append_nil, List.append_nil] at logged
  constructor
  · refine ⟨n + 1, ?_, ?_⟩
    · rw [challengeId, own, Int32.ofNat_add (n + 1) 1]
      rfl
    · rw [List.flatMap_append, List.flatMap_singleton, quiet.1, List.append_nil, after.1, ids, own,
        first_ids_succ]
  · rw [List.flatMap_append, List.flatMap_append, List.flatMap_singleton, List.flatMap_singleton,
      quiet.1, quiet.2, after.1, after.2, List.append_nil, List.append_nil, logged]

theorem step_in_order (inOrder : InOrder server entries) (effect : Effect server next entry) :
    InOrder next (entries ++ [entry]) := by
  cases effect with
  | generate correct idle =>
      exact inOrder.claim rfl ⟨rfl, rfl⟩ (by rw [idle]; exact ⟨rfl, rfl⟩) ⟨rfl, rfl⟩
  | burstGenerate correct bursting =>
      exact inOrder.claim rfl ⟨rfl, rfl⟩ (by rw [bursting]; exact ⟨rfl, rfl⟩) ⟨rfl, rfl⟩
  | replace now ready => exact inOrder.keep rfl (by rw [ready]; rfl) (by rw [ready]; rfl)
  | push ready => exact inOrder.keep rfl (by rw [ready]; rfl) (by rw [ready]; rfl)
  | burstPush ready => exact inOrder.keep rfl (by rw [ready]; rfl) (by rw [ready]; rfl)
  | snapshot waited => exact inOrder.keep rfl (by rw [waited]; rfl) (by rw [waited]; rfl)
  | log copied => exact inOrder.keep rfl (by rw [copied]; rfl) (by rw [copied]; rfl)
  | burstLog sent => exact inOrder.keep rfl (by rw [sent]; rfl) (by rw [sent]; rfl)
  | pause done next =>
      rcases next with rfl | rfl
      · exact inOrder.keep rfl (by rw [done]; rfl) (by rw [done]; rfl)
      · exact inOrder.keep rfl (by rw [done]; rfl) (by rw [done]; rfl)
  | endBurst bursting => exact inOrder.keep rfl (by rw [bursting]; rfl) (by rw [bursting]; rfl)
  | handlers => exact inOrder.keep rfl rfl rfl
  | record => exact inOrder.keep rfl rfl rfl

abbrev Run := Config Scores Step Entry

variable {mode : Int} {overflow : Int → Int32} {config : Run}

/-- Something that every effect keeps holds in every run. -/
theorem reachable_effects (Holds : Scores → List Entry → Prop) (initially : Holds initial [])
    (preserved : ∀ server next entries entry, Holds server entries → Effect server next entry →
      Holds next (entries ++ [entry]))
    (reached : Reachable (step mode overflow) (fun _ _ => True) initial config) :
    Holds config.state config.observations := by
  refine reachable_invariant (fun config : Run => Holds config.state config.observations)
    initially ?_ reached
  intro config op next entry holds _ ran
  rw [Config.push_observations]
  exact preserved _ _ _ _ holds (step_effect ran)

/-- In every run of every mode, bursts included: the ids that are pushed to the clients are the
first ones of `challengeId`, in order and each once; and the log has an entry for each, in the
same order, but for one at most that is not logged yet. -/
theorem challenges_logged_once
    (reached : Reachable (step mode overflow) (fun _ _ => True) initial config) :
    (∃ n, config.observations.flatMap Entry.pushedId = firstIds n) ∧
      ∃ last : Option Int32, config.observations.flatMap Entry.pushedId =
        config.observations.flatMap Entry.loggedId ++ last.toList := by
  have inOrder := reachable_effects InOrder initial_in_order
    (fun _ _ _ _ inOrder effect => step_in_order inOrder effect) reached
  obtain ⟨n, _, ids⟩ := inOrder.pushed
  have logged := inOrder.logged
  rcases config.state.stage.unlogged_cases with same | ⟨pushed, cid, last⟩
  · constructor
    · rcases config.state.stage.unpushed_cases with pushed | ⟨cid, claimed⟩
      · rw [pushed, List.append_nil] at ids
        exact ⟨n, ids⟩
      · rw [claimed] at ids
        cases n with
        | zero => exact absurd ids (List.append_ne_nil_of_right_ne_nil _ (List.cons_ne_nil _ _))
        | succ n =>
            rw [first_ids_succ] at ids
            exact ⟨n, (List.append_inj' ids rfl).1⟩
    · refine ⟨none, ?_⟩
      rw [same] at logged
      rw [Option.toList_none, List.append_nil]
      exact (List.append_cancel_right logged).symm
  · rw [pushed, List.append_nil] at ids
    rw [pushed, List.append_nil, last] at logged
    exact ⟨⟨n, ids⟩, some cid, logged.symm⟩

/-- Two clients answer two challenges. The second names the challenge, and a message of the first
is read before the second challenge is opened and processed after. -/
def sampleSteps : List Step :=
  [.register 0 [97, 10], .register 1 [98], .generate 5, .replace 0, .push,
    .receive 0 [53, 10] 2000000, .receive 1 [49, 32, 54] 3000000, .record 1, .snapshot,
    .log, .pause, .generate 7, .replace 9000000, .record 0, .push, .snapshot, .log]

theorem challenges_logged_once_sample :
    ∃ config : Run, Reachable (step 0 fun _ => 0) (fun _ _ => True) initial config ∧
      config.observations.flatMap Entry.loggedId = [1, 2] ∧
      (∃ n, config.observations.flatMap Entry.pushedId = firstIds n) ∧
      ∃ last : Option Int32, config.observations.flatMap Entry.pushedId =
        config.observations.flatMap Entry.loggedId ++ last.toList := by
  have completes : (execute (step 0 fun _ => 0) (fun _ _ => True) (.start initial)
      sampleSteps).any (fun config =>
        decide (config.observations.flatMap Entry.loggedId = [1, 2])) = true := by
    decide
  obtain ⟨config, reached, logged⟩ := reachable_of_execute_any completes
  exact ⟨config, reached, logged, challenges_logged_once reached⟩

/-! ## What is logged for a challenge -/

/-- The tables are those of the window that is open, and what is logged or about to be are those
of the windows that were copied. -/
structure Windowed (server : Scores) (entries : List Entry) : Prop where
  current : server.currentChallenge = scored (ledger entries).current
  opened : ∀ cid, server.stage.openId = some cid → (ledger entries).current.round.cid = cid
  copies : entries.flatMap Entry.regularTables ++ server.stage.unloggedTables =
    (ledger entries).copies.map tablesOf

theorem initial_windowed : Windowed initial [] := ⟨rfl, nofun, rfl⟩

/-- A step that neither opens nor copies a challenge, and processes no message. -/
theorem Windowed.keep (windowed : Windowed server entries) (quiet : entry.mark = .other)
    (current : next.currentChallenge = server.currentChallenge)
    (opened : ∀ cid, next.stage.openId = some cid → server.stage.openId = some cid)
    (logged : entry.regularTables ++ next.stage.unloggedTables = server.stage.unloggedTables) :
    Windowed next (entries ++ [entry]) := by
  have same : ledger (entries ++ [entry]) = ledger entries := by
    rw [ledger_append, quiet]
    rfl
  constructor
  · rw [same, current]
    exact windowed.current
  · rw [same]
    exact fun cid isOpen => windowed.opened cid (opened cid isOpen)
  · rw [same, List.flatMap_append, List.flatMap_singleton, List.append_assoc, logged]
    exact windowed.copies

theorem step_windowed (windowed : Windowed server entries) (effect : Effect server next entry) :
    Windowed next (entries ++ [entry]) := by
  cases effect with
  | generate correct idle => exact windowed.keep rfl rfl nofun (by rw [idle]; rfl)
  | burstGenerate correct bursting => exact windowed.keep rfl rfl nofun (by rw [bursting]; rfl)
  | @replace cid correct now ready =>
      have copies := windowed.copies
      rw [ready] at copies
      constructor
      · rw [ledger_append]
        rfl
      · rintro _ ⟨⟩
        rw [ledger_append]
        rfl
      · rw [ledger_append, List.flatMap_append]
        exact (List.append_assoc _ _ _).trans copies
  | push ready =>
      refine windowed.keep rfl rfl ?_ (by rw [ready]; rfl)
      intro cid isOpen
      rw [ready]
      exact isOpen
  | burstPush ready => exact windowed.keep rfl rfl nofun (by rw [ready]; rfl)
  | @snapshot cid correct waited =>
      have copies := windowed.copies
      rw [waited] at copies
      have own := windowed.opened cid (by rw [waited]; rfl)
      have copied : (⟨cid, server.currentChallenge.latencies, server.currentChallenge.answers⟩ :
          ChallengeTables) = tablesOf (ledger entries).current := by
        rw [tablesOf, own, ← windowed.current]
      constructor
      · rw [ledger_append]
        exact windowed.current
      · nofun
      · rw [ledger_append, List.flatMap_append]
        change entries.flatMap Entry.regularTables ++ [] ++ [_] =
          ((ledger entries).copies ++ [(ledger entries).current]).map tablesOf
        rw [List.map_append, ← copies, copied]
        rfl
  | log copied => exact windowed.keep rfl rfl nofun (by rw [copied]; rfl)
  | burstLog sent => exact windowed.keep rfl rfl nofun (by rw [sent]; rfl)
  | pause done next =>
      rcases next with rfl | rfl
      · exact windowed.keep rfl rfl nofun (by rw [done]; rfl)
      · exact windowed.keep rfl rfl nofun (by rw [done]; rfl)
  | endBurst bursting => exact windowed.keep rfl rfl nofun (by rw [bursting]; rfl)
  | handlers => exact windowed.keep rfl rfl (fun _ isOpen => isOpen) rfl
  | record name message now =>
      constructor
      · rw [ledger_append]
        change recordAnswer name message now server.currentChallenge =
          processAll _ ((ledger entries).current.messages ++ [⟨name, message, now⟩])
        rw [process_all_append_singleton, windowed.current]
        rfl
      · rw [ledger_append]
        exact windowed.opened
      · rw [ledger_append, List.flatMap_append]
        change entries.flatMap Entry.regularTables ++ [] ++ _ = _
        rw [List.append_nil]
        exact windowed.copies

/-- What a burst logs has no players. -/
theorem step_bursts_empty (effect : Effect server next entry) {cid correct : Int32}
    {lat ans : KeyMap Name Int32} (logs : entry = .logged true cid correct lat ans) :
    lat = ∅ ∧ ans = ∅ := by
  cases effect with
  | burstLog =>
      cases logs
      exact ⟨rfl, rfl⟩
  | _ => cases logs

/-- In every run, the tables logged for the challenges outside of bursts are, in order, those of
the windows of the run: of a challenge with exactly the messages that were processed between its
opening and its copy. The last window may be copied and not logged. The tables that a burst logs
are empty. -/
theorem logged_windows
    (reached : Reachable (step mode overflow) (fun _ _ => True) initial config) :
    (∃ last : Option ChallengeTables,
      (windows unopened (config.observations.map Entry.mark)).map tablesOf =
        config.observations.flatMap Entry.regularTables ++ last.toList) ∧
      ∀ cid correct lat ans, .logged true cid correct lat ans ∈ config.observations →
        lat = ∅ ∧ ans = ∅ := by
  have windowed := reachable_effects Windowed initial_windowed
    (fun _ _ _ _ windowed effect => step_windowed windowed effect) reached
  constructor
  · have copies := windowed.copies
    rcases config.state.stage.unlogged_tables_cases with nothing | ⟨last, one⟩
    · refine ⟨none, ?_⟩
      rw [nothing] at copies
      exact copies.symm
    · refine ⟨some last, ?_⟩
      rw [one] at copies
      exact copies.symm
  · refine reachable_effects (fun _ entries => ∀ cid correct lat ans,
      Entry.logged true cid correct lat ans ∈ entries → lat = ∅ ∧ ans = ∅) nofun ?_ reached
    intro server next entries entry before effect cid correct lat ans member
    rcases List.mem_append.mp member with earlier | last
    · exact before cid correct lat ans earlier
    · exact step_bursts_empty effect (List.mem_singleton.mp last).symm

theorem logged_windows_sample :
    ∃ config : Run, Reachable (step 0 fun _ => 0) (fun _ _ => True) initial config ∧
      (config.observations.flatMap Entry.regularTables).map (fun tables =>
        (tables.cid, tables.answers.lookup [97], tables.answers.lookup [98])) =
          [(1, none, some 6), (2, some 5, none)] ∧
      (∃ last : Option ChallengeTables,
        (windows unopened (config.observations.map Entry.mark)).map tablesOf =
          config.observations.flatMap Entry.regularTables ++ last.toList) ∧
      ∀ cid correct lat ans, .logged true cid correct lat ans ∈ config.observations →
        lat = ∅ ∧ ans = ∅ := by
  have completes : (execute (step 0 fun _ => 0) (fun _ _ => True) (.start initial)
      sampleSteps).any (fun config => decide (
        (config.observations.flatMap Entry.regularTables).map (fun tables =>
          (tables.cid, tables.answers.lookup [97], tables.answers.lookup [98])) =
            [(1, none, some 6), (2, some 5, none)])) = true := by
    decide
  obtain ⟨config, reached, logged⟩ := reachable_of_execute_any completes
  exact ⟨config, reached, logged, logged_windows reached⟩

/-! ## Answers to a burst -/

/-- The challenge that is open for answers is none of a burst. -/
def OpenRegular (server : Scores) (entries : List Entry) : Prop :=
  server.currentChallenge.id = 0 ∨ .pushed false server.currentChallenge.id ∈ entries ∨
    ∃ correct, server.stage = .opened server.currentChallenge.id correct

theorem step_open_regular (isRegular : OpenRegular server entries)
    (effect : Effect server next entry) : OpenRegular next (entries ++ [entry]) := by
  have kept (same : next.currentChallenge.id = server.currentChallenge.id)
      (stays : ∀ cid correct, server.stage = .opened cid correct →
        next.stage = .opened cid correct ∨ entry = .pushed false cid) :
      OpenRegular next (entries ++ [entry]) := by
    rw [OpenRegular, same]
    rcases isRegular with unopened | pushed | ⟨correct, opened⟩
    · exact .inl unopened
    · exact .inr (.inl (List.mem_append_left _ pushed))
    · rcases stays _ _ opened with still | now
      · exact .inr (.inr ⟨correct, still⟩)
      · exact .inr (.inl (List.mem_append_right _ (List.mem_singleton.mpr now.symm)))
  cases effect with
  | @replace cid correct => exact .inr (.inr ⟨correct, rfl⟩)
  | push ready =>
      refine kept rfl ?_
      intro cid correct opened
      rw [ready] at opened
      cases opened
      exact .inr rfl
  | handlers => exact kept rfl fun _ _ opened => .inl opened
  | record => exact kept (record_answer_id _ _ _ _) fun _ _ opened => .inl opened
  | generate _ stage => exact kept rfl fun _ _ opened => nomatch stage.symm.trans opened
  | burstGenerate _ stage => exact kept rfl fun _ _ opened => nomatch stage.symm.trans opened
  | burstPush stage => exact kept rfl fun _ _ opened => nomatch stage.symm.trans opened
  | snapshot stage => exact kept rfl fun _ _ opened => nomatch stage.symm.trans opened
  | log stage => exact kept rfl fun _ _ opened => nomatch stage.symm.trans opened
  | burstLog stage => exact kept rfl fun _ _ opened => nomatch stage.symm.trans opened
  | pause stage => exact kept rfl fun _ _ opened => nomatch stage.symm.trans opened
  | endBurst stage => exact kept rfl fun _ _ opened => nomatch stage.symm.trans opened

theorem of_nat_inj {a b : Nat} (small : a < 2 ^ 32) (smallToo : b < 2 ^ 32)
    (same : Int32.ofNat a = Int32.ofNat b) : a = b := by
  have words := congrArg (fun i : Int32 => i.toBitVec.toNat) same
  simp only [Int32.toBitVec_ofNat', BitVec.toNat_ofNat] at words
  omega

theorem first_ids_nodup {n : Nat} (few : n < 2 ^ 32) : (firstIds n).Nodup := by
  rw [firstIds, List.nodup_map_iff_inj_on List.nodup_range]
  intro i first j second same
  rw [List.mem_range] at first second
  have positions := of_nat_inj (by omega) (by omega) same
  omega

theorem first_ids_ne {n : Nat} (few : n < 2 ^ 32 - 1) {id : Int32} (member : id ∈ firstIds n) :
    id ≠ 0 ∧ id ≠ -1 := by
  obtain ⟨i, range, rfl⟩ := List.mem_map.mp member
  rw [List.mem_range] at range
  constructor
  · intro zero
    have position := @of_nat_inj (i + 1) 0 (by omega) (by decide) zero
    omega
  · intro sentinel
    have position := @of_nat_inj (i + 1) (2 ^ 32 - 1) (by omega) (by decide) sentinel
    omega

theorem pushed_of_burst {id : Int32} (burst : id ∈ entries.flatMap Entry.burstId) :
    .pushed true id ∈ entries := by
  obtain ⟨entry, member, own⟩ := List.mem_flatMap.mp burst
  unfold Entry.burstId at own
  split at own
  · rw [List.mem_singleton.mp own]
    exact member
  · cases own

/-- No answer ever counts for a challenge of a burst: as long as the ids do not wrap around, a
message that names such a challenge changes nothing, whenever it is processed. -/
theorem burst_answers_dropped
    (reached : Reachable (step mode overflow) (fun _ _ => True) initial config)
    (few : (config.observations.flatMap Entry.pushedId).length < 2 ^ 32 - 2)
    {message : Parsed} (burst : message.cid ∈ config.observations.flatMap Entry.burstId)
    (name : Name) (now : Int) :
    recordAnswer name message now config.state.currentChallenge =
      config.state.currentChallenge := by
  have inOrder := reachable_effects InOrder initial_in_order
    (fun _ _ _ _ inOrder effect => step_in_order inOrder effect) reached
  have isRegular := reachable_effects OpenRegular (.inl rfl)
    (fun _ _ _ _ isRegular effect => step_open_regular isRegular effect) reached
  obtain ⟨n, _, ids⟩ := inOrder.pushed
  have count : n < 2 ^ 32 - 1 := by
    have length := congrArg List.length ids
    rw [List.length_append, firstIds, List.length_map, List.length_range] at length
    rcases config.state.stage.unpushed_cases with none | ⟨cid, one⟩
    · rw [none, List.length_nil] at length
      omega
    · rw [one, List.length_singleton] at length
      omega
  have nodup := first_ids_nodup (Nat.lt_of_lt_of_le count (Nat.sub_le _ 1))
  rw [← ids] at nodup
  have pushed := pushed_of_burst burst
  have own : message.cid ∈ config.observations.flatMap Entry.pushedId :=
    List.mem_flatMap.mpr ⟨_, pushed, List.mem_singleton_self _⟩
  obtain ⟨notZero, notSentinel⟩ := first_ids_ne count (ids ▸ List.mem_append_left _ own)
  rw [record_answer_eq, if_neg]
  rintro (same | sentinel)
  · rcases isRegular with unopened | pushedToo | ⟨correct, opened⟩
    · exact notZero (same.trans unopened)
    · have apart := (List.nodup_flatMap.mp (List.Nodup.of_append_left nodup)).2
      have symmetric : Std.Symm (Function.onFun List.Disjoint Entry.pushedId) :=
        ⟨fun _ _ disjoint => disjoint.symm⟩
      have disjoint := apart.forall pushed pushedToo nofun
      exact disjoint (List.mem_singleton_self _) (List.mem_singleton.mpr same)
    · rw [opened] at nodup
      have apart := (List.nodup_append.mp nodup).2.2
      exact apart _ own _ (List.mem_singleton_self _) same
  · exact notSentinel sentinel

/-- The first challenge of the first burst of the ultra mode, when it has been pushed. -/
def burstSteps : List Step :=
  (List.replicate 50 [.generate 5, .replace 0, .push, .snapshot, .log, .pause]).flatten ++
    [.generate 7, .push]

theorem burst_answers_dropped_sample :
    ∃ config : Run, Reachable (step 2 fun _ => 0) (fun _ _ => True) initial config ∧
      51 ∈ config.observations.flatMap Entry.burstId ∧
      recordAnswer [97] ⟨51, 7⟩ 1000000 config.state.currentChallenge =
        config.state.currentChallenge := by
  have completes : (execute (step 2 fun _ => 0) (fun _ _ => True) (.start initial)
      burstSteps).any (fun config =>
        decide (51 ∈ config.observations.flatMap Entry.burstId ∧
          (config.observations.flatMap Entry.pushedId).length < 2 ^ 32 - 2)) = true := by
    decide +kernel
  obtain ⟨config, reached, burst, few⟩ := reachable_of_execute_any completes
  exact ⟨config, reached, burst, burst_answers_dropped reached few burst [97] 1000000⟩

end Scores

end Finm327.Blast
