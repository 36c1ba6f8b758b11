import Finm327.Hft2026.Answers

/-!
# Where logged answers come from

An answer that is logged for a challenge comes from a message that was processed while the
challenge was current. It is an answer to that challenge on runs in which no message is
taken for another than it is: the value that marks a message without an id can be sent as
an id, and a number that no `int` can hold is stored as any other.
-/

namespace Finm327.Hft2026

open Finm327.Library.Maps
open Finm327.Library.Runs
open Function (update)

/-! ## Messages that are what they say -/

def AnswersTo (cid : Int32) (bytes : List UInt8) (answer : Int32) : Prop :=
  StartsWithTwo bytes cid.toInt answer.toInt ∨ StartsWithOne bytes answer.toInt

/-- The reading is taken for the challenge only if it is for it, and its answer is an
`int`. -/
def TakenRight (overflow : Int → Int32) (cid : Int32) : Int × Option Int → Prop
  | (a, some b) =>
      stored overflow a = cid ∨ stored overflow a = -1 → a = cid.toInt ∧ Fits b
  | (a, none) => Fits a

instance (overflow : Int → Int32) (cid : Int32) :
    ∀ reading, Decidable (TakenRight overflow cid reading)
  | (a, some b) => inferInstanceAs (Decidable
      (stored overflow a = cid ∨ stored overflow a = -1 → a = cid.toInt ∧ Fits b))
  | (a, none) => inferInstanceAs (Decidable (Fits a))

def Unambiguous (overflow : Int → Int32) (cid : Int32) (bytes : List UInt8) : Prop :=
  ∀ reading ∈ leading bytes, TakenRight overflow cid reading

instance (overflow : Int → Int32) (cid : Int32) (bytes : List UInt8) :
    Decidable (Unambiguous overflow cid bytes) := Option.decidableForallMem _

/-- A message that is accepted is an answer to the challenge exactly when it is taken for
what it is. -/
theorem answers_to_iff {overflow : Int → Int32} {cid : Int32} {bytes : List UInt8}
    {message : Parsed} (parsed : parseAnswer overflow bytes = some message)
    (accepted : message.cid = cid ∨ message.cid = -1) :
    AnswersTo cid bytes message.answer ↔ Unambiguous overflow cid bytes := by
  unfold AnswersTo Unambiguous
  rw [parse_answer_eq] at parsed
  obtain ⟨⟨a, second⟩, found, taken⟩ := Option.map_eq_some_iff.mp parsed
  rw [← starts_with_two_iff, ← starts_with_one_iff, found]
  subst taken
  cases second with
  | some b =>
      constructor
      · rintro (two | one) reading ⟨⟩ _
        · obtain ⟨rfl, second⟩ := Prod.mk.inj (Option.some.inj two)
          rw [Option.some.inj second]
          exact ⟨rfl, fits_to_int _⟩
        · exact absurd (Prod.mk.inj (Option.some.inj one)).2 (Option.some_ne_none b)
      · intro right
        obtain ⟨rfl, fits⟩ := right _ rfl accepted
        left
        rw [takenFor, to_int_stored fits]
  | none =>
      constructor
      · rintro (two | one) reading ⟨⟩
        · exact absurd (Prod.mk.inj (Option.some.inj two)).2.symm (Option.some_ne_none _)
        · rw [TakenRight, (Prod.mk.inj (Option.some.inj one)).1]
          exact fits_to_int _
      · intro right
        have fits : Fits a := right _ rfl
        right
        rw [takenFor, to_int_stored fits]

/-! ## Where logged answers come from -/

namespace AnswerServer

abbrev Run := Config AnswerServer Step Entry

/-- Every answer comes from a message that was processed while the challenge was current
and is an answer to it. -/
def Sourced (entries : List Entry) (cid : Int32) (answers : KeyMap Name Int32) : Prop :=
  ∀ name answer, answers.lookup name = some answer →
    ∃ bytes, .processed cid name bytes ∈ entries ∧ AnswersTo cid bytes answer

theorem Sourced.mono {entries more : List Entry} {cid : Int32} {answers : KeyMap Name Int32}
    (sourced : Sourced entries cid answers) (kept : entries ⊆ more) :
    Sourced more cid answers := by
  intro name answer found
  obtain ⟨bytes, processed, meant⟩ := sourced name answer found
  exact ⟨bytes, kept processed, meant⟩

theorem sourced_empty (entries : List Entry) (cid : Int32) : Sourced entries cid ∅ :=
  nofun

def PendingUnambiguous (overflow : Int → Int32) (cid : Int32) : Handler → Prop
  | .parsed _ bytes _ _ => Unambiguous overflow cid bytes
  | _ => True

instance (overflow : Int → Int32) (cid : Int32) :
    ∀ handler, Decidable (PendingUnambiguous overflow cid handler)
  | .parsed _ bytes _ _ => inferInstanceAs (Decidable (Unambiguous overflow cid bytes))
  | .naming => .isTrue trivial
  | .receiving _ => .isTrue trivial
  | .closed => .isTrue trivial

def messagesUnambiguous (overflow : Int → Int32) (config : Run) : Step → Prop
  | .record k =>
      PendingUnambiguous overflow config.state.currentChallenge.id (config.state.handlers k)
  | _ => True

instance (overflow : Int → Int32) (config : Run) :
    ∀ op, Decidable (messagesUnambiguous overflow config op)
  | .record k => inferInstanceAs (Decidable (PendingUnambiguous overflow
      config.state.currentChallenge.id (config.state.handlers k)))
  | .generate _ => .isTrue trivial
  | .replace _ => .isTrue trivial
  | .snapshot => .isTrue trivial
  | .log => .isTrue trivial
  | .register _ _ => .isTrue trivial
  | .receive _ _ _ => .isTrue trivial
  | .disconnect _ => .isTrue trivial

structure Sound (overflow : Int → Int32) (server : AnswerServer) (entries : List Entry) : Prop where
  current : Sourced entries server.currentChallenge.id server.currentChallenge.answers
  waiting : ∀ cid correctAnswer, server.round = .waiting cid correctAnswer →
    server.currentChallenge.id = cid
  logging : ∀ cid correctAnswer latencies answers,
    server.round = .logging cid correctAnswer latencies answers → Sourced entries cid answers
  parsed : ∀ k name bytes message now, server.handlers k = .parsed name bytes message now →
    parseAnswer overflow bytes = some message
  logged : ∀ cid correctAnswer latencies answers,
    .logged cid correctAnswer latencies answers ∈ entries → Sourced entries cid answers

variable {overflow : Int → Int32} {server next : AnswerServer} {entries : List Entry}
  {entry : Entry}

theorem initial_sound : Sound overflow initial [] where
  current := sourced_empty _ _
  waiting := nofun
  logging := nofun
  parsed := nofun
  logged := fun _ _ _ _ contrary => absurd contrary List.not_mem_nil

theorem Sound.push (sound : Sound overflow server entries)
    (now : ∀ cid correctAnswer latencies answers,
      entry = .logged cid correctAnswer latencies answers → Sourced entries cid answers) :
    Sound overflow server (entries ++ [entry]) := by
  have kept : entries ⊆ entries ++ [entry] := List.subset_append_left _ _
  refine ⟨sound.current.mono kept, sound.waiting, ?_, sound.parsed, ?_⟩
  · intro cid correctAnswer latencies answers copied
    exact (sound.logging cid correctAnswer latencies answers copied).mono kept
  · intro cid correctAnswer latencies answers member
    rcases List.mem_append.mp member with before | last
    · exact (sound.logged cid correctAnswer latencies answers before).mono kept
    · exact (now cid correctAnswer latencies answers (List.mem_singleton.mp last).symm).mono kept

theorem Sound.push_other (sound : Sound overflow server entries)
    (other : ∀ cid correctAnswer latencies answers,
      entry ≠ .logged cid correctAnswer latencies answers) :
    Sound overflow server (entries ++ [entry]) :=
  sound.push fun cid correctAnswer latencies answers logs =>
    absurd logs (other cid correctAnswer latencies answers)

theorem Sound.parsed_update (sound : Sound overflow server entries) (k : Nat) {handler : Handler}
    (own : ∀ name bytes message now, handler = .parsed name bytes message now →
      parseAnswer overflow bytes = some message) :
    ∀ other name bytes message now,
      update server.handlers k handler other = .parsed name bytes message now →
        parseAnswer overflow bytes = some message := by
  intro other name bytes message now found
  rw [Function.update_apply] at found
  split_ifs at found
  · exact own name bytes message now found
  · exact sound.parsed other name bytes message now found

theorem record_sourced {name : Name} {bytes : List UInt8} {message : Parsed} {now : Int}
    (sound : Sound overflow server entries)
    (parsed : parseAnswer overflow bytes = some message)
    (unambiguous : Unambiguous overflow server.currentChallenge.id bytes) :
    Sourced (entries ++ [.processed server.currentChallenge.id name bytes])
      server.currentChallenge.id
      (recordAnswer name message now server.currentChallenge).answers := by
  have old := sound.current.mono (List.subset_append_left entries
    [.processed server.currentChallenge.id name bytes])
  rw [record_answer_answers]
  split_ifs with taken
  · intro other answer found
    rw [lookup_insert_eq] at found
    split_ifs at found with own
    · rw [own, ← Option.some.inj found]
      exact ⟨bytes, List.mem_append_right _ List.mem_cons_self,
        (answers_to_iff parsed taken).mpr unambiguous⟩
    · exact old other answer found
  · exact old

theorem step_sound {op : Step} (sound : Sound overflow server entries)
    (unambiguous : ∀ k name bytes message now, op = .record k →
      server.handlers k = .parsed name bytes message now →
        Unambiguous overflow server.currentChallenge.id bytes)
    (ran : step overflow server op = some (next, entry)) :
    Sound overflow next (entries ++ [entry]) := by
  cases step_effect ran with
  | generate correctAnswer idle =>
      have later : Sound overflow server (entries ++ [.silent]) := sound.push_other nofun
      exact ⟨later.current, nofun, nofun, later.parsed, later.logged⟩
  | replace now ready =>
      have later : Sound overflow server (entries ++ [.silent]) := sound.push_other nofun
      refine ⟨sourced_empty _ _, ?_, nofun, later.parsed, later.logged⟩
      rintro cid correctAnswer ⟨⟩
      rfl
  | snapshot waited =>
      have later : Sound overflow server (entries ++ [.silent]) := sound.push_other nofun
      refine ⟨later.current, nofun, ?_, later.parsed, later.logged⟩
      rintro cid correctAnswer latencies answers ⟨⟩
      rw [← sound.waiting _ _ waited]
      exact later.current
  | @log cid correctAnswer latencies answers copied =>
      have later : Sound overflow server
          (entries ++ [.logged cid correctAnswer latencies answers]) := by
        apply sound.push
        rintro _ _ _ _ ⟨⟩
        exact sound.logging _ _ _ _ copied
      exact ⟨later.current, nofun, nofun, later.parsed, later.logged⟩
  | register k bytes naming =>
      have later : Sound overflow server (entries ++ [.silent]) := sound.push_other nofun
      exact ⟨later.current, later.waiting, later.logging,
        sound.parsed_update k nofun, later.logged⟩
  | invalid k bytes now =>
      exact sound.push_other nofun
  | receive registered bytes now parsed =>
      have later : Sound overflow server (entries ++ [.silent]) := sound.push_other nofun
      refine ⟨later.current, later.waiting, later.logging, sound.parsed_update _ ?_, later.logged⟩
      rintro _ _ _ _ ⟨⟩
      exact parsed
  | @record k name bytes message now pending =>
      have later : Sound overflow server
          (entries ++ [.processed server.currentChallenge.id name bytes]) := sound.push_other nofun
      have parsed := sound.parsed _ _ _ _ _ pending
      refine ⟨?_, ?_, later.logging, sound.parsed_update _ nofun,
        later.logged⟩
      · dsimp only
        rw [record_answer_id]
        exact record_sourced sound parsed (unambiguous _ _ _ _ _ rfl pending)
      · intro cid correctAnswer waiting
        dsimp only
        rw [record_answer_id]
        exact later.waiting cid correctAnswer waiting
  | disconnect k =>
      have later : Sound overflow server (entries ++ [.silent]) := sound.push_other nofun
      exact ⟨later.current, later.waiting, later.logging,
        sound.parsed_update k nofun, later.logged⟩

/-- In every run whose messages are taken for what they are, every answer that is logged
comes from a message processed while its challenge was current, and is the second of two
numbers that the message starts with, the first being the challenge, or its only one. -/
theorem logged_answers_sourced {config : Run}
    (reached : Reachable (step overflow) (messagesUnambiguous overflow) initial config) :
    ∀ cid correctAnswer latencies answers,
      .logged cid correctAnswer latencies answers ∈ config.observations →
        Sourced config.observations cid answers := by
  have sound : Sound overflow config.state config.observations := by
    refine reachable_invariant (fun config => Sound overflow config.state config.observations)
      initial_sound ?_ reached
    intro config op next entry sound permitted ran
    rw [Config.push_observations]
    apply step_sound sound ?_ ran
    rintro k name bytes message now rfl pending
    have own : PendingUnambiguous overflow config.state.currentChallenge.id
        (config.state.handlers k) := permitted
    rw [pending] at own
    exact own
  exact sound.logged

def loggedFor (name : Name) : Entry → Option (Int32 × Int32)
  | .logged cid _ _ answers => (answers.lookup name).map fun answer => (cid, answer)
  | _ => none

def processedFor (cid : Int32) (name : Name) : Entry → Option (List UInt8)
  | .processed other sender bytes => if other = cid ∧ sender = name then some bytes else none
  | _ => none

/-- A library that keeps the low bits of a number. -/
def lowBits (value : Int) : Int32 := Int32.ofInt value

/-- Two clients answer the first challenge, one with the challenge id and one without it. A
message of the first client for it is read before the second challenge is current and
processed after. -/
def sampleSteps : List Step :=
  [.generate 5, .replace 0, .register 0 [97, 10], .register 1 [98],
    .receive 0 [49, 32, 53, 10] 2000000, .receive 1 [55, 10] 3000000, .record 1, .record 0,
    .snapshot, .log, .receive 0 [49, 32, 54, 10] 4000000, .generate 6, .replace 5000000,
    .record 0, .snapshot, .log]

theorem logged_answers_sourced_sample :
    ∃ config : Run, Reachable (step lowBits) (messagesUnambiguous lowBits) initial config ∧
      config.observations.filterMap (loggedFor [97]) = [(1, 5)] ∧
      config.observations.filterMap (loggedFor [98]) = [(1, 7)] ∧
      ∀ cid correctAnswer latencies answers,
        .logged cid correctAnswer latencies answers ∈ config.observations →
          Sourced config.observations cid answers := by
  have completes : (execute (step lowBits) (messagesUnambiguous lowBits) (.start initial)
      sampleSteps).any (fun config =>
        decide (config.observations.filterMap (loggedFor [97]) = [(1, 5)] ∧
          config.observations.filterMap (loggedFor [98]) = [(1, 7)])) = true := by
    decide
  obtain ⟨config, reached, first, second⟩ := reachable_of_execute_any completes
  exact ⟨config, reached, first, second, logged_answers_sourced reached⟩

/-- A message that starts with -1 and another number is recorded for whatever challenge is
current. -/
theorem sentinel_recorded :
    ∃ config : Run, Reachable (step lowBits) (fun _ _ => True) initial config ∧
      ∃ correctAnswer latencies answers,
        .logged 1 correctAnswer latencies answers ∈ config.observations ∧
          answers.lookup [97] = some 7 ∧ ¬ Sourced config.observations 1 answers := by
  have completes : (execute (step lowBits) (fun _ _ => True) (.start initial)
      [.generate 5, .replace 0, .register 0 [97], .receive 0 [45, 49, 32, 55] 2000000, .record 0,
        .snapshot, .log]).any (fun config =>
          decide (config.observations.filterMap (loggedFor [97]) = [(1, 7)] ∧
            config.observations.filterMap (processedFor 1 [97]) = [[45, 49, 32, 55]])) = true := by
    decide
  obtain ⟨config, reached, logged, processed⟩ := reachable_of_execute_any completes
  have member : ((1 : Int32), (7 : Int32)) ∈ config.observations.filterMap (loggedFor [97]) := by
    rw [logged]
    exact List.mem_cons_self
  obtain ⟨entry, inLog, shape⟩ := List.mem_filterMap.mp member
  refine ⟨config, reached, ?_⟩
  cases entry with
  | silent => cases shape
  | processed cid name bytes => cases shape
  | logged cid correctAnswer latencies answers =>
      obtain ⟨answer, holds, same⟩ := Option.map_eq_some_iff.mp shape
      cases same
      refine ⟨correctAnswer, latencies, answers, inLog, holds, ?_⟩
      intro sourced
      obtain ⟨bytes, source, meant⟩ := sourced _ _ holds
      have only : bytes ∈ config.observations.filterMap (processedFor 1 [97]) :=
        List.mem_filterMap.mpr ⟨_, source, by rw [processedFor, if_pos ⟨rfl, rfl⟩]⟩
      rw [processed, List.mem_singleton] at only
      have reading : leading [45, 49, 32, 55] = some (-1, some 7) := by decide
      unfold AnswersTo at meant
      rw [only, ← starts_with_two_iff, ← starts_with_one_iff, reading] at meant
      revert meant
      decide

end AnswerServer

end Finm327.Hft2026
