import Mathlib.Data.Finset.Max
import Finm327.Library.Scans
import Finm327.Hft2026.Answers
import Finm327.Hft2026.Utf8

/-!
# The winner of a challenge

Transcribes the choice of the winner in `logChallengeResult` of
`hftprojectstudent/hftserver2026/main.cpp`. It reads the two tables, which keep only the last
message of each name, and the empty name stands for no winner. So it is decided by the last
messages alone, while the fastest correct answer may have been an earlier one. Nothing is written
when `dump` throws, which it does on a name that is not valid UTF-8.
-/

namespace Finm327.Hft2026

open Finm327.Library.Maps
open Finm327.Library.Runs
open Finm327.Library.Scans
open Function (update)

def INT_MAX : Int32 := 2147483647

/-- One turn of the loop, with `winner` and `bestLatency`. -/
def considerPlayer (answers : KeyMap Name Int32) (correctAnswer : Int32) (best : Name × Int32)
    (player : (_ : Name) × Int32) : Name × Int32 :=
  match answers.lookup player.1 with
  | none => best
  | some ans =>
      let isCorrect := decide (ans = correctAnswer)
      if isCorrect ∧ player.2 < best.2 then (player.1, player.2) else best

/-- `entry["winner"]`, where the loop goes through `latencies` in the given order. -/
def winner (players : List ((_ : Name) × Int32)) (answers : KeyMap Name Int32)
    (correctAnswer : Int32) : Option Name :=
  let (winner, _) := players.foldl (considerPlayer answers correctAnswer) ([], INT_MAX)
  if winner = [] then none else some winner

/-- What is written as the winner. Every listed name goes through `dump_escaped`; nothing catches
what it throws, which ends the program. -/
def logChallengeResult (players : List ((_ : Name) × Int32)) (answers : KeyMap Name Int32)
    (correctAnswer : Int32) : Option (Option Name) :=
  if players.all fun player => dumpEscaped player.1 then
    some (winner players answers correctAnswer)
  else none

theorem log_challenge_result_eq_some_iff {players : List ((_ : Name) × Int32)}
    {answers : KeyMap Name Int32} {correctAnswer : Int32} {result : Option Name} :
    logChallengeResult players answers correctAnswer = some result ↔
      (∀ player ∈ players, dumpEscaped player.1 = true) ∧
        winner players answers correctAnswer = result := by
  unfold logChallengeResult
  split_ifs with written
  · rw [List.all_eq_true] at written
    rw [Option.some.injEq]
    exact ⟨fun same => ⟨written, same⟩, fun both => both.2⟩
  · rw [List.all_eq_true] at written
    exact ⟨fun contrary => (nomatch contrary), fun both => absurd both.1 written⟩

def weighPlayer (answers : KeyMap Name Int32) (correctAnswer : Int32)
    (player : (_ : Name) × Int32) : Option Int :=
  if answers.lookup player.1 = some correctAnswer ∧ player.2 < INT_MAX then some player.2.toInt
  else none

theorem weigh_player_eq_some_iff {answers : KeyMap Name Int32} {correctAnswer : Int32}
    {player : (_ : Name) × Int32} {k : Int} :
    weighPlayer answers correctAnswer player = some k ↔
      answers.lookup player.1 = some correctAnswer ∧ player.2 < INT_MAX ∧ player.2.toInt = k := by
  unfold weighPlayer
  split_ifs with counts
  · rw [Option.some.injEq]
    exact ⟨fun same => ⟨counts.1, counts.2, same⟩, fun all => all.2.2⟩
  · exact ⟨fun contrary => (nomatch contrary), fun all => absurd ⟨all.1, all.2.1⟩ counts⟩

theorem consider_player_eq (answers : KeyMap Name Int32) (correctAnswer : Int32)
    (best : Name × Int32) (player : (_ : Name) × Int32) :
    considerPlayer answers correctAnswer best player =
      if answers.lookup player.1 = some correctAnswer ∧ player.2 < best.2 then
        (player.1, player.2)
      else best := by
  unfold considerPlayer
  cases answers.lookup player.1 with
  | none => rw [if_neg fun contrary => nomatch contrary.1]
  | some ans => simp only [Option.some.injEq, decide_eq_true_eq]

/-- The loop is a scan for the least latency. -/
theorem winner_loop_eq (answers : KeyMap Name Int32) (correctAnswer : Int32)
    (players : List ((_ : Name) × Int32)) :
    players.foldl (considerPlayer answers correctAnswer) ([], INT_MAX) =
      match Library.Scans.scan (weighPlayer answers correctAnswer) players with
      | none => ([], INT_MAX)
      | some (player, _) => (player.1, player.2) := by
  induction players using List.reverseRecOn with
  | nil => rfl
  | append_singleton players player ih =>
      rw [List.foldl_append, ih, List.foldl_cons, List.foldl_nil, scan_append_singleton,
        consider_player_eq]
      cases found : Library.Scans.scan (weighPlayer answers correctAnswer) players with
      | none =>
          dsimp only
          cases weight : weighPlayer answers correctAnswer player with
          | none =>
              rw [pick_none weight, if_neg]
              intro counts
              rw [weighPlayer, if_pos counts] at weight
              cases weight
          | some k =>
              obtain ⟨right, small, _⟩ := weigh_player_eq_some_iff.mp weight
              unfold pick
              rw [weight, if_pos ⟨right, small⟩]
      | some best =>
          obtain ⟨old, l⟩ := best
          obtain ⟨_, bounded, same⟩ := weigh_player_eq_some_iff.mp (scan_least found).weighs
          rw [Int32.lt_iff_toInt_lt] at bounded
          dsimp only
          cases weight : weighPlayer answers correctAnswer player with
          | none =>
              rw [pick_none weight, if_neg]
              intro counts
              rw [Int32.lt_iff_toInt_lt] at counts
              have small : player.2 < INT_MAX :=
                Int32.lt_iff_toInt_lt.mpr (Int.lt_trans counts.2 bounded)
              rw [weighPlayer, if_pos ⟨counts.1, small⟩] at weight
              cases weight
          | some k =>
              obtain ⟨right, _, own⟩ := weigh_player_eq_some_iff.mp weight
              have order : player.2 < old.2 ↔ k < l := by
                rw [Int32.lt_iff_toInt_lt, own, same]
              unfold pick
              rw [weight]
              dsimp only
              by_cases smaller : k < l
              · rw [if_pos ⟨right, order.mpr smaller⟩, if_pos smaller]
              · rw [if_neg fun both => smaller (order.mp both.2), if_neg smaller]

/-! ## The messages behind the tables -/

/-- A message of a client once it is parsed, with the time at which it was received. -/
structure Sent where
  name : Name
  message : Parsed
  now : Int
deriving DecidableEq

def processAll (challenge : ChallengeState) (messages : List Sent) : ChallengeState :=
  messages.foldl (fun challenge sent => recordAnswer sent.name sent.message sent.now challenge)
    challenge

/-- The challenge as `broadcastChallengeLoop` puts it up. -/
def cleared (cid : Int32) (startTime : Int) : ChallengeState := ⟨cid, startTime, ∅, ∅⟩

/-- The messages that `handleClient` accepts. -/
def accepted (cid : Int32) (messages : List Sent) : List Sent :=
  messages.filter fun sent => sent.message.cid = cid ∨ sent.message.cid = -1

def lastOf (name : Name) (messages : List Sent) : Option Sent :=
  (messages.filter fun sent => sent.name = name).getLast?

theorem process_all_append_singleton (challenge : ChallengeState) (messages : List Sent)
    (sent : Sent) :
    processAll challenge (messages ++ [sent]) =
      recordAnswer sent.name sent.message sent.now (processAll challenge messages) := by
  rw [processAll, List.foldl_append]
  rfl

theorem process_all_frame (challenge : ChallengeState) (messages : List Sent) :
    (processAll challenge messages).id = challenge.id ∧
      (processAll challenge messages).startTime = challenge.startTime := by
  induction messages using List.reverseRecOn with
  | nil => exact ⟨rfl, rfl⟩
  | append_singleton messages sent ih =>
      rw [process_all_append_singleton, record_answer_id, record_answer_start_time]
      exact ih

theorem last_of_append_singleton (name : Name) (messages : List Sent) (sent : Sent) :
    lastOf name (messages ++ [sent]) =
      if sent.name = name then some sent else lastOf name messages := by
  unfold lastOf
  rw [List.filter_append, List.filter_singleton]
  split_ifs with own
  · rw [decide_eq_true own]
    exact List.getLast?_concat
  · rw [decide_eq_false own]
    exact congrArg List.getLast? (List.append_nil _)

theorem accepted_append_singleton (cid : Int32) (messages : List Sent) (sent : Sent) :
    accepted cid (messages ++ [sent]) =
      if sent.message.cid = cid ∨ sent.message.cid = -1 then accepted cid messages ++ [sent]
      else accepted cid messages := by
  unfold accepted
  rw [List.filter_append, List.filter_singleton]
  split_ifs with own
  · rw [decide_eq_true own]
    rfl
  · rw [decide_eq_false own]
    exact List.append_nil _

/-- Both tables show the last message of each name. -/
theorem process_all_lookup (cid : Int32) (startTime : Int) (messages : List Sent) (name : Name) :
    (processAll (cleared cid startTime) messages).answers.lookup name =
        (lastOf name (accepted cid messages)).map (fun sent => sent.message.answer) ∧
      (processAll (cleared cid startTime) messages).latencies.lookup name =
        (lastOf name (accepted cid messages)).map (fun sent => latencyOf startTime sent.now) := by
  induction messages using List.reverseRecOn with
  | nil => exact ⟨rfl, rfl⟩
  | append_singleton messages sent ih =>
      obtain ⟨id, start⟩ := process_all_frame (cleared cid startTime) messages
      rw [process_all_append_singleton, record_answer_answers, record_answer_latencies, id, start,
        accepted_append_singleton]
      have own : (cleared cid startTime).id = cid := rfl
      rw [own]
      split_ifs with taken
      · rw [last_of_append_singleton, lookup_insert_eq, lookup_insert_eq]
        by_cases same : name = sent.name
        · rw [if_pos same, if_pos same, if_pos same.symm]
          exact ⟨rfl, rfl⟩
        · rw [if_neg same, if_neg same, if_neg (Ne.symm same)]
          exact ih
      · exact ih

/-! ## The fastest correct answer -/

structure Fastest (startTime : Int) (correctAnswer : Int32) (messages : List Sent) (sent : Sent) :
    Prop where
  member : sent ∈ messages
  correct : sent.message.answer = correctAnswer
  fastest : ∀ other ∈ messages, other.message.answer = correctAnswer →
    latencyOf startTime sent.now ≤ latencyOf startTime other.now

/-- Null if no message is correct, and otherwise a client that sent a fastest correct one. -/
structure FastestWins (startTime : Int) (correctAnswer : Int32) (messages : List Sent)
    (result : Option Name) : Prop where
  none_iff : result = none ↔ ∀ sent ∈ messages, sent.message.answer ≠ correctAnswer
  fastest : ∀ name, result = some name →
    ∃ sent, Fastest startTime correctAnswer messages sent ∧ sent.name = name

/-- The last message of its name, correct, and with a latency that can win. -/
structure Stands (startTime : Int) (correctAnswer : Int32) (messages : List Sent) (sent : Sent) :
    Prop where
  last : lastOf sent.name messages = some sent
  correct : sent.message.answer = correctAnswer
  bounded : latencyOf startTime sent.now < INT_MAX

/-- No message is correct; or some last message stands, and each of those that came first has
a name that is not empty, under which a correct message was sent no later than any other. -/
def LastsDecide (startTime : Int) (correctAnswer : Int32) (messages : List Sent) : Prop :=
  (∀ sent ∈ messages, sent.message.answer ≠ correctAnswer) ∨
    (∃ sent, Stands startTime correctAnswer messages sent) ∧
      ∀ sent, Stands startTime correctAnswer messages sent →
        (∀ other, Stands startTime correctAnswer messages other →
          latencyOf startTime sent.now ≤ latencyOf startTime other.now) →
        sent.name ≠ [] ∧
          ∀ other ∈ messages, other.message.answer = correctAnswer →
            ∃ own ∈ messages, own.name = sent.name ∧ own.message.answer = correctAnswer ∧
              latencyOf startTime own.now ≤ latencyOf startTime other.now

/-- The winner is written and right, in whatever order the table is read. -/
def WritesFastest (cid : Int32) (startTime : Int) (messages : List Sent) (correctAnswer : Int32) :
    Prop :=
  ∀ players, players.Perm (processAll (cleared cid startTime) messages).latencies.entries →
    ∃ result,
      logChallengeResult players (processAll (cleared cid startTime) messages).answers
        correctAnswer = some result ∧
      FastestWins startTime correctAnswer (accepted cid messages) result

theorem exists_fastest (startTime : Int) {correctAnswer : Int32} {messages : List Sent}
    {sent : Sent} (member : sent ∈ messages) (correct : sent.message.answer = correctAnswer) :
    ∃ first, Fastest startTime correctAnswer messages first := by
  let right := (messages.filter fun other => other.message.answer = correctAnswer).toFinset
  have of_right {other : Sent} : other ∈ right ↔
      other ∈ messages ∧ other.message.answer = correctAnswer := by
    rw [List.mem_toFinset, List.mem_filter, decide_eq_true_eq]
  obtain ⟨first, counts, least⟩ := right.exists_min_image
    (fun other => (latencyOf startTime other.now).toInt) ⟨sent, of_right.mpr ⟨member, correct⟩⟩
  obtain ⟨firstMember, firstCorrect⟩ := of_right.mp counts
  refine ⟨first, firstMember, firstCorrect, ?_⟩
  intro other otherMember otherCorrect
  exact Int32.le_iff_toInt_le.mpr (least other (of_right.mpr ⟨otherMember, otherCorrect⟩))

/-- A sender of a fastest message is one that was no later than any other sender. -/
theorem fastest_sender_iff {startTime : Int} {correctAnswer : Int32} {messages : List Sent}
    {sent : Sent} (member : sent ∈ messages) (correct : sent.message.answer = correctAnswer) :
    (∃ first, Fastest startTime correctAnswer messages first ∧ first.name = sent.name) ↔
      ∀ other ∈ messages, other.message.answer = correctAnswer →
        ∃ own ∈ messages, own.name = sent.name ∧ own.message.answer = correctAnswer ∧
          latencyOf startTime own.now ≤ latencyOf startTime other.now := by
  constructor
  · rintro ⟨first, fastest, named⟩ other otherMember otherCorrect
    exact ⟨first, fastest.member, named, fastest.correct,
      fastest.fastest other otherMember otherCorrect⟩
  · intro early
    obtain ⟨least, fastest⟩ := exists_fastest startTime member correct
    obtain ⟨own, ownMember, named, ownCorrect, before⟩ :=
      early least fastest.member fastest.correct
    refine ⟨own, ⟨ownMember, ownCorrect, ?_⟩, named⟩
    intro other otherMember otherCorrect
    exact Int32.le_trans before (fastest.fastest other otherMember otherCorrect)

theorem winner_eq (players : List ((_ : Name) × Int32)) (answers : KeyMap Name Int32)
    (correctAnswer : Int32) :
    winner players answers correctAnswer =
      match Library.Scans.scan (weighPlayer answers correctAnswer) players with
      | none => none
      | some (player, _) => if player.1 = [] then none else some player.1 := by
  unfold winner
  rw [winner_loop_eq]
  cases Library.Scans.scan (weighPlayer answers correctAnswer) players with
  | none => rfl
  | some best => rfl

theorem is_space_ascii {c : UInt8} (space : Hft.isSpace c = true) : c.toNat < 0x80 := by
  simp only [Hft.isSpace, Bool.or_eq_true, Bool.and_eq_true, decide_eq_true_eq] at space
  rcases space with rfl | ⟨_, small⟩
  · decide
  · exact (UInt8.le_iff_toNat_le.mp small).trans_lt (by decide)

theorem valid_rtrim {s : List UInt8} (valid : ValidUtf8 s) : ValidUtf8 (rtrim s) := by
  obtain ⟨blanks, split, all⟩ := rtrim_blanks s
  rw [split] at valid
  exact valid.of_append fun c member => is_space_ascii (all c member)

theorem mem_of_last_of {name : Name} {messages : List Sent} {sent : Sent}
    (last : lastOf name messages = some sent) : sent ∈ messages ∧ sent.name = name := by
  have member := List.mem_of_getLast? last
  rw [List.mem_filter] at member
  exact ⟨member.1, of_decide_eq_true member.2⟩

theorem exists_last_of {messages : List Sent} {sent : Sent} (member : sent ∈ messages) :
    ∃ last, lastOf sent.name messages = some last := by
  have listed : sent ∈ messages.filter fun other => other.name = sent.name :=
    List.mem_filter.mpr ⟨member, decide_eq_true rfl⟩
  exact ⟨_, List.getLast?_eq_some_getLast (List.ne_nil_of_mem listed)⟩

section Tables

variable {cid correctAnswer : Int32} {startTime : Int} {messages : List Sent}

theorem stands_of_player {player : (_ : Name) × Int32} {k : Int}
    (member : player ∈ (processAll (cleared cid startTime) messages).latencies.entries)
    (weighs : weighPlayer (processAll (cleared cid startTime) messages).answers correctAnswer
      player = some k) :
    ∃ sent, Stands startTime correctAnswer (accepted cid messages) sent ∧
      sent.name = player.1 ∧ (latencyOf startTime sent.now).toInt = k := by
  obtain ⟨right, bounded, same⟩ := weigh_player_eq_some_iff.mp weighs
  obtain ⟨name, latency⟩ := player
  obtain ⟨answers, latencies⟩ := process_all_lookup cid startTime messages name
  have found := AList.mem_lookup_iff.mpr member
  rw [Option.mem_def, latencies] at found
  obtain ⟨sent, last, own⟩ := Option.map_eq_some_iff.mp found
  rw [answers, last, Option.map_some] at right
  have named := (mem_of_last_of last).2
  refine ⟨sent, ⟨named ▸ last, Option.some.inj right, own ▸ bounded⟩, named, ?_⟩
  rw [own, same]

theorem player_of_stands {sent : Sent}
    (stands : Stands startTime correctAnswer (accepted cid messages) sent) :
    ⟨sent.name, latencyOf startTime sent.now⟩ ∈
        (processAll (cleared cid startTime) messages).latencies.entries ∧
      weighPlayer (processAll (cleared cid startTime) messages).answers correctAnswer
        ⟨sent.name, latencyOf startTime sent.now⟩ =
          some (latencyOf startTime sent.now).toInt := by
  obtain ⟨answers, latencies⟩ := process_all_lookup cid startTime messages sent.name
  rw [stands.last, Option.map_some] at answers latencies
  constructor
  · exact AList.mem_lookup_iff.mp latencies
  · rw [weigh_player_eq_some_iff]
    exact ⟨answers.trans (congrArg some stands.correct), stands.bounded, rfl⟩

theorem least_of_stands {sent : Sent}
    (stands : Stands startTime correctAnswer (accepted cid messages) sent)
    (first : ∀ other, Stands startTime correctAnswer (accepted cid messages) other →
      latencyOf startTime sent.now ≤ latencyOf startTime other.now) :
    Least (weighPlayer (processAll (cleared cid startTime) messages).answers correctAnswer)
      (processAll (cleared cid startTime) messages).latencies.entries
      ⟨sent.name, latencyOf startTime sent.now⟩ (latencyOf startTime sent.now).toInt := by
  obtain ⟨member, weighs⟩ := player_of_stands stands
  refine ⟨member, weighs, ?_⟩
  intro player others k weighsToo
  obtain ⟨other, standsToo, _, same⟩ := stands_of_player others weighsToo
  rw [← same]
  exact Int32.le_iff_toInt_le.mp (first other standsToo)

theorem stands_of_least {player : (_ : Name) × Int32} {k : Int}
    (least : Least (weighPlayer (processAll (cleared cid startTime) messages).answers correctAnswer)
      (processAll (cleared cid startTime) messages).latencies.entries player k) :
    ∃ sent, Stands startTime correctAnswer (accepted cid messages) sent ∧ sent.name = player.1 ∧
      ∀ other, Stands startTime correctAnswer (accepted cid messages) other →
        latencyOf startTime sent.now ≤ latencyOf startTime other.now := by
  obtain ⟨sent, stands, named, same⟩ := stands_of_player least.member least.weighs
  refine ⟨sent, stands, named, ?_⟩
  intro other standsToo
  obtain ⟨member, weighs⟩ := player_of_stands standsToo
  rw [Int32.le_iff_toInt_le, same]
  exact least.bound _ member _ weighs

theorem names_written_iff (cid : Int32) (startTime : Int) (messages : List Sent) :
    (∀ player ∈ (processAll (cleared cid startTime) messages).latencies.entries,
      dumpEscaped player.1 = true) ↔ ∀ sent ∈ accepted cid messages, ValidUtf8 sent.name := by
  constructor
  · intro written sent member
    obtain ⟨last, found⟩ := exists_last_of member
    have latencies := (process_all_lookup cid startTime messages sent.name).2
    rw [found, Option.map_some] at latencies
    exact (dump_escaped_iff _).mp (written _ (AList.mem_lookup_iff.mp latencies))
  · rintro valid ⟨name, latency⟩ member
    have found := AList.mem_lookup_iff.mpr member
    rw [Option.mem_def, (process_all_lookup cid startTime messages name).2] at found
    obtain ⟨sent, last, _⟩ := Option.map_eq_some_iff.mp found
    obtain ⟨sentMember, named⟩ := mem_of_last_of last
    exact (dump_escaped_iff _).mpr (named ▸ valid sent sentMember)

end Tables

theorem winner_right_iff (cid : Int32) (startTime : Int) (messages : List Sent)
    (correctAnswer : Int32) :
    (∀ players, players.Perm (processAll (cleared cid startTime) messages).latencies.entries →
      FastestWins startTime correctAnswer (accepted cid messages)
        (winner players (processAll (cleared cid startTime) messages).answers correctAnswer)) ↔
      LastsDecide startTime correctAnswer (accepted cid messages) := by
  constructor
  · intro right
    by_cases hopeless : ∀ sent ∈ accepted cid messages, sent.message.answer ≠ correctAnswer
    · exact .inl hopeless
    · refine .inr ⟨?_, ?_⟩
      · have wins := right _ (List.Perm.refl _)
        rw [winner_eq] at wins
        cases found : Library.Scans.scan
            (weighPlayer (processAll (cleared cid startTime) messages).answers correctAnswer)
            (processAll (cleared cid startTime) messages).latencies.entries with
        | none =>
            rw [found] at wins
            exact absurd (wins.none_iff.mp rfl) hopeless
        | some best =>
            obtain ⟨sent, stands, _⟩ := stands_of_least (scan_least found)
            exact ⟨sent, stands⟩
      · intro sent stands first
        obtain ⟨players, order, found⟩ := exists_perm_scan (least_of_stands stands first)
        have wins := right players order
        rw [winner_eq, found] at wins
        dsimp only at wins
        split_ifs at wins with unnamed
        · exact absurd (wins.none_iff.mp rfl) hopeless
        · have member := (mem_of_last_of stands.last).1
          exact ⟨unnamed, (fastest_sender_iff member stands.correct).mp (wins.fastest _ rfl)⟩
  · intro decides players order
    rw [winner_eq]
    cases found : Library.Scans.scan
        (weighPlayer (processAll (cleared cid startTime) messages).answers correctAnswer)
        players with
    | none =>
        dsimp only
        rcases decides with hopeless | ⟨⟨sent, stands⟩, _⟩
        · exact ⟨⟨fun _ => hopeless, fun _ => rfl⟩, nofun⟩
        · obtain ⟨member, weighs⟩ := player_of_stands stands
          rw [scan_eq_none_iff.mp found _ (order.mem_iff.mpr member)] at weighs
          cases weighs
    | some best =>
        obtain ⟨sent, stands, named, first⟩ :=
          stands_of_least ((scan_least found).perm order.symm)
        dsimp only
        have member := (mem_of_last_of stands.last).1
        rcases decides with hopeless | ⟨_, firsts⟩
        · exact absurd stands.correct (hopeless sent member)
        · obtain ⟨unnamed, early⟩ := firsts sent stands first
          rw [← named, if_neg unnamed]
          refine ⟨⟨nofun, ?_⟩, ?_⟩
          · exact fun hopeless => absurd stands.correct (hopeless sent member)
          · rintro name ⟨⟩
            exact (fastest_sender_iff member stands.correct).mpr early

/-- The winner is written and right in every order of the table exactly when each name is valid
UTF-8 and the last messages decide. -/
theorem winner_fastest_iff (cid : Int32) (startTime : Int) (messages : List Sent)
    (correctAnswer : Int32) :
    WritesFastest cid startTime messages correctAnswer ↔
      (∀ sent ∈ accepted cid messages, ValidUtf8 sent.name) ∧
        LastsDecide startTime correctAnswer (accepted cid messages) := by
  rw [← winner_right_iff, ← names_written_iff cid startTime messages]
  constructor
  · intro writes
    constructor
    · obtain ⟨result, logs, _⟩ := writes _ (List.Perm.refl _)
      exact (log_challenge_result_eq_some_iff.mp logs).1
    · intro players order
      obtain ⟨result, logs, wins⟩ := writes players order
      rw [(log_challenge_result_eq_some_iff.mp logs).2]
      exact wins
  · rintro ⟨written, right⟩ players order
    refine ⟨_, log_challenge_result_eq_some_iff.mpr ⟨?_, rfl⟩, right players order⟩
    intro player member
    exact written player (order.mem_iff.mp member)

/-- A correct answer, and a wrong one of the same client after it. -/
def correctedAnswer : List Sent :=
  [⟨[97], ⟨1, 5⟩, 1000000⟩, ⟨[97], ⟨1, 6⟩, 2000000⟩]

/-- A correct answer of a client whose name is all white space. -/
def unnamedAnswer : List Sent := [⟨rtrim [32, 10], ⟨1, 5⟩, 1000000⟩]

/-- A correct answer of a client whose name is one byte that starts no character. -/
def unwrittenAnswer : List Sent := [⟨[255], ⟨1, 5⟩, 1000000⟩]

/-- The only correct answer is lost in each. -/
theorem correct_answer_lost :
    ¬ WritesFastest 1 0 correctedAnswer 5 ∧ ¬ WritesFastest 1 0 unnamedAnswer 5 ∧
      ¬ WritesFastest 1 0 unwrittenAnswer 5 := by
  obtain ⟨lost, lostToo, unwritten⟩ :
      logChallengeResult (processAll (cleared 1 0) correctedAnswer).latencies.entries
          (processAll (cleared 1 0) correctedAnswer).answers 5 = some none ∧
        logChallengeResult (processAll (cleared 1 0) unnamedAnswer).latencies.entries
          (processAll (cleared 1 0) unnamedAnswer).answers 5 = some none ∧
        logChallengeResult (processAll (cleared 1 0) unwrittenAnswer).latencies.entries
          (processAll (cleared 1 0) unwrittenAnswer).answers 5 = none := by
    decide +kernel
  refine ⟨?_, ?_, ?_⟩
  · intro writes
    obtain ⟨result, logs, wins⟩ := writes _ (List.Perm.refl _)
    rw [lost] at logs
    cases logs
    exact wins.none_iff.mp rfl ⟨[97], ⟨1, 5⟩, 1000000⟩ (by decide) rfl
  · intro writes
    obtain ⟨result, logs, wins⟩ := writes _ (List.Perm.refl _)
    rw [lostToo] at logs
    cases logs
    exact wins.none_iff.mp rfl ⟨rtrim [32, 10], ⟨1, 5⟩, 1000000⟩ (by decide) rfl
  · intro writes
    obtain ⟨result, logs, _⟩ := writes _ (List.Perm.refl _)
    rw [unwritten] at logs
    cases logs

/-! ## The tables of the server -/

/-- The tables that some messages leave of a challenge. -/
def Tables (cid : Int32) (latencies answers : KeyMap Name Int32) : Prop :=
  ∃ startTime messages, latencies = (processAll (cleared cid startTime) messages).latencies ∧
    answers = (processAll (cleared cid startTime) messages).answers

namespace AnswerServer

/-- The current challenge and what is logged come from processing messages. -/
structure Tabled (server : AnswerServer) (entries : List Entry) : Prop where
  current : ∃ startTime messages,
    server.currentChallenge = processAll (cleared server.currentChallenge.id startTime) messages
  waiting : ∀ cid correctAnswer, server.round = .waiting cid correctAnswer →
    server.currentChallenge.id = cid
  logging : ∀ cid correctAnswer latencies answers,
    server.round = .logging cid correctAnswer latencies answers → Tables cid latencies answers
  logged : ∀ cid correctAnswer latencies answers,
    .logged cid correctAnswer latencies answers ∈ entries → Tables cid latencies answers

variable {overflow : Int → Int32} {server next : AnswerServer} {entries : List Entry}
  {entry : Entry}

/-- An entry that logs nothing changes none of it. -/
theorem Tabled.push (tabled : Tabled server entries)
    (logs : ∀ cid correctAnswer latencies answers,
      entry = .logged cid correctAnswer latencies answers → Tables cid latencies answers) :
    Tabled server (entries ++ [entry]) := by
  refine ⟨tabled.current, tabled.waiting, tabled.logging, ?_⟩
  intro cid correctAnswer latencies answers member
  rcases List.mem_append.mp member with before | last
  · exact tabled.logged cid correctAnswer latencies answers before
  · exact logs cid correctAnswer latencies answers (List.mem_singleton.mp last).symm

theorem step_tabled {op : Step} (tabled : Tabled server entries)
    (ran : step overflow server op = some (next, entry)) :
    Tabled next (entries ++ [entry]) := by
  cases step_effect ran with
  | generate correctAnswer idle =>
      exact Tabled.push ⟨tabled.current, nofun, nofun, tabled.logged⟩ nofun
  | replace now ready =>
      refine Tabled.push ⟨⟨now, [], rfl⟩, ?_, nofun, tabled.logged⟩ nofun
      rintro cid correctAnswer ⟨⟩
      rfl
  | snapshot waited =>
      refine Tabled.push ⟨tabled.current, nofun, ?_, tabled.logged⟩ nofun
      rintro cid correctAnswer latencies answers ⟨⟩
      obtain ⟨startTime, messages, same⟩ := tabled.current
      rw [tabled.waiting _ _ waited] at same
      exact ⟨startTime, messages, by rw [same], by rw [same]⟩
  | log copied =>
      refine Tabled.push ⟨tabled.current, nofun, nofun, tabled.logged⟩ ?_
      rintro cid correctAnswer latencies answers ⟨⟩
      exact tabled.logging _ _ _ _ copied
  | register k bytes naming =>
      exact Tabled.push ⟨tabled.current, tabled.waiting, tabled.logging, tabled.logged⟩ nofun
  | invalid k bytes now => exact tabled.push nofun
  | receive registered bytes now parsed =>
      exact Tabled.push ⟨tabled.current, tabled.waiting, tabled.logging, tabled.logged⟩ nofun
  | @record k name bytes message now pending =>
      refine Tabled.push ⟨?_, ?_, tabled.logging, tabled.logged⟩ nofun
      · obtain ⟨startTime, messages, same⟩ := tabled.current
        refine ⟨startTime, messages ++ [⟨name, message, now⟩], ?_⟩
        rw [process_all_append_singleton, record_answer_id, ← same]
      · intro cid correctAnswer waits
        rw [record_answer_id]
        exact tabled.waiting cid correctAnswer waits
  | disconnect k =>
      exact Tabled.push ⟨tabled.current, tabled.waiting, tabled.logging, tabled.logged⟩ nofun

/-- In every run, what is logged for a challenge are the tables that some messages leave. -/
theorem logged_tables {config : Config AnswerServer Step Entry}
    (reached : Reachable (step overflow) (fun _ _ => True) initial config) :
    ∀ cid correctAnswer latencies answers,
      .logged cid correctAnswer latencies answers ∈ config.observations →
        Tables cid latencies answers := by
  have tabled : Tabled config.state config.observations := by
    refine reachable_invariant (fun config => Tabled config.state config.observations) ?_ ?_ reached
    · exact ⟨⟨0, [], rfl⟩, nofun, nofun, nofun⟩
    · intro config op next entry tabled _ ran
      rw [Config.push_observations]
      exact step_tabled tabled ran
  exact tabled.logged

/-! ## The names in the tables -/

/-- Every name that a handler has or a table lists is valid. -/
structure Named (server : AnswerServer) : Prop where
  receiving : ∀ k name, server.handlers k = .receiving name → ValidUtf8 name
  parsed : ∀ k name bytes message now, server.handlers k = .parsed name bytes message now →
    ValidUtf8 name
  current : ∀ name ∈ server.currentChallenge.latencies, ValidUtf8 name
  logging : ∀ cid correctAnswer latencies answers,
    server.round = .logging cid correctAnswer latencies answers →
      ∀ name ∈ latencies, ValidUtf8 name

theorem initial_named : Named initial where
  receiving := nofun
  parsed := nofun
  current := nofun
  logging := nofun

theorem Named.setHandler (named : Named server) (k : Nat) (handler : Handler)
    (receiving : ∀ name, handler = .receiving name → ValidUtf8 name)
    (parsed : ∀ name bytes message now, handler = .parsed name bytes message now →
      ValidUtf8 name) :
    Named { server with handlers := update server.handlers k handler } := by
  refine ⟨?_, ?_, named.current, named.logging⟩
  · intro other name found
    dsimp only at found
    rw [Function.update_apply] at found
    split_ifs at found
    · exact receiving name found
    · exact named.receiving other name found
  · intro other name bytes message now found
    dsimp only at found
    rw [Function.update_apply] at found
    split_ifs at found
    · exact parsed name bytes message now found
    · exact named.parsed other name bytes message now found

/-- The names stay valid, and so are those in a logged table. -/
theorem step_named {op : Step} (named : Named server)
    (registers : ∀ k bytes, op = .register k bytes → ValidUtf8 (rtrim bytes))
    (ran : step overflow server op = some (next, entry)) :
    Named next ∧ ∀ cid correctAnswer latencies answers,
      entry = .logged cid correctAnswer latencies answers → ∀ name ∈ latencies, ValidUtf8 name := by
  cases step_effect ran with
  | generate correctAnswer idle =>
      exact ⟨⟨named.receiving, named.parsed, named.current, nofun⟩, nofun⟩
  | replace now ready =>
      exact ⟨⟨named.receiving, named.parsed, nofun, nofun⟩, nofun⟩
  | snapshot waited =>
      refine ⟨⟨named.receiving, named.parsed, named.current, ?_⟩, nofun⟩
      rintro cid correctAnswer latencies answers ⟨⟩
      exact named.current
  | log copied =>
      refine ⟨⟨named.receiving, named.parsed, named.current, nofun⟩, ?_⟩
      rintro cid correctAnswer latencies answers ⟨⟩
      exact named.logging _ _ _ _ copied
  | register k bytes naming =>
      refine ⟨named.setHandler k _ ?_ nofun, nofun⟩
      rintro name ⟨⟩
      exact registers k bytes rfl
  | invalid k bytes now => exact ⟨named, nofun⟩
  | receive registered bytes now parsed =>
      refine ⟨named.setHandler _ _ nofun ?_, nofun⟩
      rintro name bytes message now ⟨⟩
      exact named.receiving _ _ registered
  | @record k name bytes message now pending =>
      have valid := named.parsed _ _ _ _ _ pending
      have moved := named.setHandler k (.receiving name)
        (by rintro name ⟨⟩; exact valid) nofun
      refine ⟨⟨moved.receiving, moved.parsed, ?_, named.logging⟩, nofun⟩
      intro other listed
      rw [record_answer_latencies] at listed
      split_ifs at listed
      · rcases (AList.mem_insert _).mp listed with rfl | before
        · exact valid
        · exact named.current other before
      · exact named.current other listed
  | disconnect k => exact ⟨named.setHandler k _ nofun nofun, nofun⟩

end AnswerServer

end Finm327.Hft2026
