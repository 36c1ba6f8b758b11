import Finm327.Library.Maps
import Finm327.Library.Runs
import Finm327.Hft2026.Messages

/-!
# The answers to the current challenge

Transcribes what the handlers and the broadcast loop of
`hftprojectstudent/hftserver2026/main.cpp` do with `currentChallenge`; the handlers of
`tools/blast_server.cpp` do the same. A move of a thread is one `recv` with the parsing of
its bytes, or one critical section, so the challenge can be replaced between the two.
-/

namespace Finm327.Hft2026

open Finm327.Library.Maps
open Finm327.Library.Runs
open Function (update)

def BUFFER_SIZE : Nat := 65536

abbrev Name := List UInt8

/-- The matrices are sent and not read again. -/
structure ChallengeState where
  id : Int32
  startTime : Int
  latencies : KeyMap Name Int32
  answers : KeyMap Name Int32

/-- Milliseconds between two times in nanoseconds, as an `int`. -/
def latencyOf (startTime now : Int) : Int32 := Int32.ofInt ((now - startTime).tdiv 1000000)

/-- The critical section of `handleClient`. -/
def recordAnswer (name : Name) (message : Parsed) (now : Int) (challenge : ChallengeState) :
    ChallengeState :=
  let associatedCid := if message.cid = -1 then challenge.id else message.cid
  if associatedCid ≠ challenge.id then challenge
  else
    { challenge with
      latencies := challenge.latencies.insert name (latencyOf challenge.startTime now)
      answers := challenge.answers.insert name message.answer }

/-- Where the handler of a client is. -/
inductive Handler
  | naming
  | receiving (name : Name)
  | parsed (name : Name) (bytes : List UInt8) (message : Parsed) (now : Int)
  | closed

/-- Where `broadcastChallengeLoop` is. -/
inductive Round
  | generating
  | prepared (cid correctAnswer : Int32)
  | waiting (cid correctAnswer : Int32)
  | logging (cid correctAnswer : Int32) (latencies answers : KeyMap Name Int32)

structure AnswerServer where
  challengeId : Int32
  currentChallenge : ChallengeState
  round : Round
  handlers : Nat → Handler

inductive Step
  | generate (correctAnswer : Int32)
  | replace (now : Int)
  | snapshot
  | log
  | register (k : Nat) (bytes : List UInt8)
  | receive (k : Nat) (bytes : List UInt8) (now : Int)
  | record (k : Nat)
  | disconnect (k : Nat)

/-- What a step shows: the message that a handler has processed while a challenge was
current, or what is logged for a challenge. -/
inductive Entry
  | silent
  | processed (cid : Int32) (name : Name) (bytes : List UInt8)
  | logged (cid correctAnswer : Int32) (latencies answers : KeyMap Name Int32)

namespace AnswerServer

def initial : AnswerServer := ⟨1, ⟨0, 0, ∅, ∅⟩, .generating, fun _ => .naming⟩

def step (overflow : Int → Int32) (server : AnswerServer) : Step → Option (AnswerServer × Entry)
  | .generate correctAnswer =>
      match server.round with
      | .generating =>
          some ({ server with
            challengeId := server.challengeId + 1
            round := .prepared server.challengeId correctAnswer }, .silent)
      | _ => none
  | .replace now =>
      match server.round with
      | .prepared cid correctAnswer =>
          some ({ server with
            currentChallenge := ⟨cid, now, ∅, ∅⟩
            round := .waiting cid correctAnswer }, .silent)
      | _ => none
  | .snapshot =>
      match server.round with
      | .waiting cid correctAnswer =>
          some ({ server with
            round := .logging cid correctAnswer server.currentChallenge.latencies
              server.currentChallenge.answers }, .silent)
      | _ => none
  | .log =>
      match server.round with
      | .logging cid correctAnswer latencies answers =>
          some ({ server with round := .generating },
            .logged cid correctAnswer latencies answers)
      | _ => none
  | .register k bytes =>
      match server.handlers k with
      | .naming =>
          if bytes ≠ [] ∧ bytes.length < BUFFER_SIZE then
            some ({ server with
              handlers := update server.handlers k (.receiving (rtrim bytes)) }, .silent)
          else none
      | _ => none
  | .receive k bytes now =>
      match server.handlers k with
      | .receiving name =>
          if bytes ≠ [] ∧ bytes.length < BUFFER_SIZE then
            match parseAnswer overflow bytes with
            | none => some (server, .silent)
            | some message =>
                some ({ server with
                  handlers := update server.handlers k (.parsed name bytes message now) }, .silent)
          else none
      | _ => none
  | .record k =>
      match server.handlers k with
      | .parsed name bytes message now =>
          some ({ server with
            currentChallenge := recordAnswer name message now server.currentChallenge
            handlers := update server.handlers k (.receiving name) },
            .processed server.currentChallenge.id name bytes)
      | _ => none
  | .disconnect k =>
      match server.handlers k with
      | .naming =>
          some ({ server with handlers := update server.handlers k .closed }, .silent)
      | .receiving _ =>
          some ({ server with handlers := update server.handlers k .closed }, .silent)
      | _ => none

end AnswerServer

/-- What the critical section does. -/
theorem record_answer_eq (name : Name) (message : Parsed) (now : Int)
    (challenge : ChallengeState) :
    recordAnswer name message now challenge =
      if message.cid = challenge.id ∨ message.cid = -1 then
        { challenge with
          latencies := challenge.latencies.insert name (latencyOf challenge.startTime now)
          answers := challenge.answers.insert name message.answer }
      else challenge := by
  unfold recordAnswer
  dsimp only
  by_cases sentinel : message.cid = -1
  · rw [if_pos sentinel, if_neg (fun contrary => contrary rfl), if_pos (.inr sentinel)]
  · rw [if_neg sentinel]
    by_cases own : message.cid = challenge.id
    · rw [if_neg (fun contrary => contrary own), if_pos (.inl own)]
    · rw [if_pos own, if_neg (not_or.mpr ⟨own, sentinel⟩)]

theorem record_answer_answers (name : Name) (message : Parsed) (now : Int)
    (challenge : ChallengeState) :
    (recordAnswer name message now challenge).answers =
      if message.cid = challenge.id ∨ message.cid = -1 then
        challenge.answers.insert name message.answer
      else challenge.answers := by
  rw [record_answer_eq]
  split_ifs <;> rfl

theorem record_answer_latencies (name : Name) (message : Parsed) (now : Int)
    (challenge : ChallengeState) :
    (recordAnswer name message now challenge).latencies =
      if message.cid = challenge.id ∨ message.cid = -1 then
        challenge.latencies.insert name (latencyOf challenge.startTime now)
      else challenge.latencies := by
  rw [record_answer_eq]
  split_ifs <;> rfl

theorem record_answer_id (name : Name) (message : Parsed) (now : Int)
    (challenge : ChallengeState) :
    (recordAnswer name message now challenge).id = challenge.id := by
  rw [record_answer_eq]
  split_ifs <;> rfl

theorem record_answer_start_time (name : Name) (message : Parsed) (now : Int)
    (challenge : ChallengeState) :
    (recordAnswer name message now challenge).startTime = challenge.startTime := by
  rw [record_answer_eq]
  split_ifs <;> rfl

namespace AnswerServer

/-- What a step can do, and when. -/
inductive Effect (overflow : Int → Int32) (server : AnswerServer) :
    Step → AnswerServer → Entry → Prop
  | generate (correctAnswer : Int32) (idle : server.round = .generating) :
      Effect overflow server (.generate correctAnswer) { server with
        challengeId := server.challengeId + 1
        round := .prepared server.challengeId correctAnswer } .silent
  | replace {cid correctAnswer : Int32} (now : Int)
      (ready : server.round = .prepared cid correctAnswer) :
      Effect overflow server (.replace now) { server with
        currentChallenge := ⟨cid, now, ∅, ∅⟩
        round := .waiting cid correctAnswer } .silent
  | snapshot {cid correctAnswer : Int32} (waited : server.round = .waiting cid correctAnswer) :
      Effect overflow server .snapshot { server with
        round := .logging cid correctAnswer server.currentChallenge.latencies
          server.currentChallenge.answers } .silent
  | log {cid correctAnswer : Int32} {latencies answers : KeyMap Name Int32}
      (copied : server.round = .logging cid correctAnswer latencies answers) :
      Effect overflow server .log { server with round := .generating }
        (.logged cid correctAnswer latencies answers)
  | register (k : Nat) (bytes : List UInt8) (naming : server.handlers k = .naming) :
      Effect overflow server (.register k bytes) { server with
        handlers := update server.handlers k (.receiving (rtrim bytes)) } .silent
  | invalid (k : Nat) (bytes : List UInt8) (now : Int) :
      Effect overflow server (.receive k bytes now) server .silent
  | receive {k : Nat} {name : Name} (registered : server.handlers k = .receiving name)
      (bytes : List UInt8) {message : Parsed} (now : Int)
      (parsed : parseAnswer overflow bytes = some message) :
      Effect overflow server (.receive k bytes now) { server with
        handlers := update server.handlers k (.parsed name bytes message now) } .silent
  | record {k : Nat} {name : Name} {bytes : List UInt8} {message : Parsed} {now : Int}
      (pending : server.handlers k = .parsed name bytes message now) :
      Effect overflow server (.record k) { server with
        currentChallenge := recordAnswer name message now server.currentChallenge
        handlers := update server.handlers k (.receiving name) }
        (.processed server.currentChallenge.id name bytes)
  | disconnect (k : Nat) :
      Effect overflow server (.disconnect k) { server with
        handlers := update server.handlers k .closed } .silent

theorem step_effect {overflow : Int → Int32} {server next : AnswerServer} {op : Step}
    {entry : Entry} (ran : step overflow server op = some (next, entry)) :
    Effect overflow server op next entry := by
  cases op with
  | generate correctAnswer =>
      simp only [step] at ran
      split at ran
      · rename_i idle
        cases ran
        exact .generate correctAnswer idle
      · cases ran
  | replace now =>
      simp only [step] at ran
      split at ran
      · rename_i ready
        cases ran
        exact .replace now ready
      · cases ran
  | snapshot =>
      simp only [step] at ran
      split at ran
      · rename_i waited
        cases ran
        exact .snapshot waited
      · cases ran
  | log =>
      simp only [step] at ran
      split at ran
      · rename_i copied
        cases ran
        exact .log copied
      · cases ran
  | register k bytes =>
      simp only [step] at ran
      split at ran
      · rename_i naming
        split_ifs at ran
        cases ran
        exact .register k bytes naming
      · cases ran
  | receive k bytes now =>
      simp only [step] at ran
      split at ran
      · rename_i registered
        split_ifs at ran
        split at ran
        · cases ran
          exact .invalid k bytes now
        · rename_i parsed
          cases ran
          exact .receive registered bytes now parsed
      · cases ran
  | record k =>
      simp only [step] at ran
      split at ran
      · rename_i pending
        cases ran
        exact .record pending
      · cases ran
  | disconnect k =>
      simp only [step] at ran
      split at ran
      · cases ran
        exact .disconnect k
      · cases ran
        exact .disconnect k
      · cases ran

end AnswerServer

end Finm327.Hft2026
