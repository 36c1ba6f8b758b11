import Finm327.Hft2026.Checksum

/-!
# A session of the client of 2026

Whatever the pieces in which the stream arrives, each complete challenge is answered
once and in order, and what stays in the buffer is the start of the next one. The
invariant of the main loop says where the client is in the stream: what it keeps and
what is still on the socket are the challenges that are not answered yet and the
start of the next.
-/

namespace Finm327.Hft2026

open Finm327.Library.DecimalText
open Finm327.Library.LineRecords
open Finm327.Hft

/-! ## The newline scan and `recv_some` -/

theorem scan_short {text : List UInt8} {nl : Nat} (few : nl + text.count newline < 4) (i : Nat) :
    (scan nl i text).1 < 4 := by
  induction text generalizing nl i with
  | nil => exact few
  | cons c text ih =>
      rw [scan]
      split
      next stop =>
        rw [stop, List.count_cons_self] at few
        rw [if_neg (by omega)]
        exact ih (by omega) _
      next other =>
        rw [List.count_cons_of_ne other] at few
        exact ih few _

theorem scan_record {text : List UInt8} {nl lines : Nat} (record : IsRecord newline lines text)
    (four : nl + lines = 4) (i : Nat) (rest : List UInt8) :
    scan nl i (text ++ rest) = (4, i + text.length) := by
  induction text generalizing nl lines i with
  | nil => exact absurd rfl record.ne_nil
  | cons c text ih =>
      rw [List.cons_append, scan]
      cases record.tail with
      | inl last =>
          rw [last.1, if_pos last.2.1, if_pos (by omega), List.length_singleton,
            show nl + 1 = 4 by omega]
      | inr more =>
          split
          next stop =>
            rw [stop, List.count_singleton_self] at more
            rw [if_neg (by omega), ih more.2 (by omega), List.length_cons]
            congr 1
            omega
          next other =>
            rw [List.count_singleton, if_neg (by simpa using other)] at more
            rw [ih more.2 (by omega), List.length_cons]
            congr 1
            omega

/-- Either everything sent has been taken, or some of it is taken now. -/
theorem recv_some_spec {cap : Nat} (room : 0 < cap) {events : List Event} (live : Open events)
    (spin : Nat) :
    (recvSome cap spin events = none ∧ bytesOf events = []) ∨
      ∃ got left, recvSome cap spin events = some ((got.length : Int), got, left) ∧ got ≠ [] ∧
        got ++ bytesOf left = bytesOf events ∧ Open left := by
  induction events generalizing spin with
  | nil => exact .inl ⟨by rw [recvSome], rfl⟩
  | cons event events ih =>
      cases event with
      | failed => exact absurd (live _ List.mem_cons_self) (fun no => no)
      | wouldBlock =>
          cases spin with
          | zero => exact ih (open_tail live) 0
          | succ spin => exact ih (open_tail live) spin
      | received bytes =>
          have some : bytes ≠ [] := live _ List.mem_cons_self
          have taken : bytes.take cap ≠ [] := by
            rw [ne_eq, List.take_eq_nil_iff]
            intro none
            exact none.elim (fun zero => by omega) some
          refine .inr ⟨bytes.take cap, _, by rw [recvSome], taken, ?_⟩
          split
          next fits =>
            rw [List.take_of_length_le fits]
            exact ⟨rfl, open_tail live⟩
          next longer =>
            constructor
            · rw [bytes_of_cons, bytes_of_cons, Event.bytes, Event.bytes, ← List.append_assoc,
                List.take_append_drop]
            · intro event member
              cases List.mem_cons.mp member with
              | inl first =>
                  rw [first]
                  intro empty
                  rw [List.drop_eq_nil_iff] at empty
                  exact longer empty
              | inr later => exact live event (List.mem_cons_of_mem _ later)

/-! ## One turn of the main loop -/

/-- The part of a challenge that has arrived, which may be nothing. -/
def Incomplete (tail : List UInt8) : Prop :=
  ∃ next : Challenge, tail <+: next.text ∧ tail ≠ next.text

theorem Incomplete.count_lt {tail : List UInt8} (incomplete : Incomplete tail) :
    tail.count newline < 4 := by
  obtain ⟨next, start, proper⟩ := incomplete
  exact (text_is_record next).count_lt_of_initial start proper

/-- Where the client is in the stream. -/
structure InStep (left : List Challenge) (tail kept stale : List UInt8) (client : Client)
    (events : List Event) : Prop where
  buf : client.buf = kept ++ stale
  held : client.held = kept.length
  awaited : kept ++ bytesOf events = stream left ++ tail
  live : Open events

theorem length_of_short {left : List Challenge} {tail kept : List UInt8}
    (incomplete : Incomplete tail) (start : kept <+: stream left ++ tail)
    (few : kept.count newline < 4) : kept.length ≤ 131098 := by
  cases left with
  | nil =>
      obtain ⟨next, first, _⟩ := incomplete
      exact (start.trans first).length_le.trans (length_text_le next)
  | cons challenge left =>
      rw [stream_cons, List.append_assoc] at start
      cases List.prefix_or_prefix_of_prefix start (List.prefix_append _ _) with
      | inl short => exact short.length_le.trans (length_text_le challenge)
      | inr long =>
          have more := long.sublist.count_le newline
          rw [(text_is_record challenge).count_stop] at more
          omega

theorem InStep.taken {left : List Challenge} {tail kept stale : List UInt8} {client : Client}
    {events : List Event} (inStep : InStep left tail kept stale client events) :
    client.buf.take client.held = kept := by
  rw [inStep.buf, inStep.held, List.take_left]

theorem turn_receives {left : List Challenge} {tail kept stale : List UInt8} {client : Client}
    {events : List Event} (inStep : InStep left tail kept stale client events)
    (incomplete : Incomplete tail) (few : kept.count newline < 4) :
    (turn client events = .waiting client ∧ left = [] ∧ kept = tail) ∨
      ∃ next others keptToo staleToo, turn client events = .running next others ∧
        next.sent = client.sent ∧ next.solved = client.solved ∧
        (bytesOf others).length < (bytesOf events).length ∧
        (bytesOf others).length + keptToo.length = (bytesOf events).length + kept.length ∧
        InStep left tail keptToo staleToo next others := by
  have start : kept <+: stream left ++ tail := inStep.awaited ▸ List.prefix_append _ _
  have short := length_of_short incomplete start few
  have room : client.held < BUFCAP := by
    rw [inStep.held]
    exact short.trans_lt (by decide)
  have lines := @scan_short kept 0 (by omega) 0
  unfold turn
  rw [inStep.taken]
  generalize scan 0 0 kept = found at lines
  obtain ⟨nl, stop⟩ := found
  dsimp only at lines ⊢
  rw [if_pos lines, if_neg (by omega)]
  cases recv_some_spec (Nat.sub_pos_of_lt room) inStep.live (2 ^ 20) with
  | inl silent =>
      refine .inl ?_
      have all := inStep.awaited
      rw [silent.2, List.append_nil] at all
      rw [silent.1]
      cases left with
      | nil => exact ⟨rfl, rfl, all⟩
      | cons challenge left =>
          rw [all, stream_cons, List.count_append, List.count_append,
            (text_is_record challenge).count_stop] at few
          omega
  | inr arrived =>
      obtain ⟨got, others, ran, some, bytes, live⟩ := arrived
      have positive := List.length_pos_of_ne_nil some
      rw [ran]
      dsimp only
      rw [if_neg (by omega)]
      refine .inr ⟨_, others, kept ++ got, _, rfl, rfl, rfl, ?_, ?_, rfl, ?_, ?_, live⟩
      · rw [← bytes, List.length_append]
        omega
      · rw [← bytes, List.length_append, List.length_append]
        omega
      · rw [List.length_append, inStep.held]
      · rw [List.append_assoc, bytes, inStep.awaited]

theorem turn_answers {left : List Challenge} {tail kept stale : List UInt8} {client : Client}
    {events : List Event} (inStep : InStep left tail kept stale client events)
    (incomplete : Incomplete tail) (enough : 4 ≤ kept.count newline) :
    ∃ challenge others next keptToo staleToo, left = challenge :: others ∧
      kept = challenge.text ++ keptToo ∧
      scan 0 0 (client.buf.take client.held) = (4, challenge.text.length) ∧
      turn client events = .running next events ∧
      next.sent = client.sent ++ [reply challenge] ∧ next.solved = client.solved + 1 ∧
      InStep others tail keptToo staleToo next events := by
  have start : kept <+: stream left ++ tail := inStep.awaited ▸ List.prefix_append _ _
  cases left with
  | nil =>
      have fewer := (List.IsPrefix.sublist start).count_le newline
      have cut := incomplete.count_lt
      rw [stream_nil, List.nil_append] at fewer
      omega
  | cons challenge others =>
      have record := text_is_record challenge
      have whole := inStep.awaited
      rw [stream_cons, List.append_assoc] at start whole
      obtain ⟨keptToo, same⟩ :=
        record.prefix_of_count (List.prefix_append _ _) start enough
      have found : scan 0 0 kept = (4, challenge.text.length) := by
        rw [← same, scan_record record rfl 0 keptToo, Nat.zero_add]
      have line := answer_line_spec challenge (keptToo ++ stale)
      rw [← List.append_assoc, same, ← inStep.buf] at line
      have size : client.held - challenge.text.length = keptToo.length := by
        rw [inStep.held, ← same, List.length_append, Nat.add_sub_cancel_left]
      have queued : (client.buf.drop challenge.text.length).take keptToo.length = keptToo := by
        rw [inStep.buf, ← same, List.append_assoc, List.drop_left, List.take_left]
      have answered : turn client events = .running
          { buf := keptToo ++ client.buf.drop (client.held - challenge.text.length)
            held := client.held - challenge.text.length
            sent := client.sent ++ [reply challenge]
            solved := client.solved + 1 } events := by
        rw [turn, inStep.taken, found]
        dsimp only
        rw [if_neg (by decide), line]
        dsimp only
        rw [size, queued]
      refine ⟨challenge, others, _, keptToo, client.buf.drop (client.held - challenge.text.length),
        rfl, same.symm, ?_, answered, rfl, rfl, ?_⟩
      · rw [inStep.taken, found]
      · rw [← same, List.append_assoc] at whole
        exact ⟨rfl, size, List.append_cancel_left whole, inStep.live⟩

/-! ## The session -/

/-- A run so far is right: replies to the first challenges, and to all of them once the
client waits, with the start of the next in the buffer. The text up to the fourth line
end is all that a parse reads. -/
def Right (challenges : List Challenge) (tail : List UInt8) : Turn → Prop
  | .running client _ =>
    client.sent <+: challenges.map reply ∧
      ∀ stop, scan 0 0 (client.buf.take client.held) = (4, stop) →
        ∃ line, answerLine (client.buf.take stop) = some line ∧ answerLine client.buf = some line
  | .waiting client =>
    client.sent = challenges.map reply ∧ client.solved = challenges.length ∧
      client.buf.take client.held = tail
  | .overflow _ => False
  | .disconnected _ => False
  | .outside _ => False

theorem answer_line_bounded {left : List Challenge} {tail kept stale : List UInt8}
    {client : Client} {events : List Event} (inStep : InStep left tail kept stale client events)
    (incomplete : Incomplete tail) {stop : Nat}
    (found : scan 0 0 (client.buf.take client.held) = (4, stop)) :
    ∃ line, answerLine (client.buf.take stop) = some line ∧ answerLine client.buf = some line := by
  have enough : 4 ≤ kept.count newline := by
    by_contra few
    have short := @scan_short kept 0 (by omega) 0
    rw [← inStep.taken, found] at short
    exact absurd short (Nat.lt_irrefl 4)
  obtain ⟨challenge, others, next, keptToo, staleToo, _, same, place, _⟩ :=
    turn_answers inStep incomplete enough
  rw [place] at found
  have length : challenge.text.length = stop := (Prod.mk.inj found).2
  have text : client.buf = challenge.text ++ (keptToo ++ stale) := by
    rw [inStep.buf, same, List.append_assoc]
  refine ⟨reply challenge, ?_, ?_⟩
  · have alone := answer_line_spec challenge []
    rw [List.append_nil] at alone
    rw [text, ← length, List.take_left]
    exact alone
  · rw [text]
    exact answer_line_spec challenge _

theorem serve_right {challenges answered left : List Challenge} {tail kept stale : List UInt8}
    {client : Client} {events : List Event} (split : challenges = answered ++ left)
    (sent : client.sent = answered.map reply) (solved : client.solved = answered.length)
    (inStep : InStep left tail kept stale client events) (incomplete : Incomplete tail)
    (turns : Nat) : Right challenges tail (serve turns client events) := by
  induction turns generalizing answered left kept stale client events with
  | zero =>
      constructor
      · rw [sent, split, List.map_append]
        exact List.prefix_append _ _
      · exact fun stop found => answer_line_bounded inStep incomplete found
  | succ turns ih =>
      rw [serve]
      by_cases few : kept.count newline < 4
      · cases turn_receives inStep incomplete few with
        | inl waits =>
            obtain ⟨ran, none, all⟩ := waits
            rw [none, List.append_nil] at split
            rw [ran, split]
            exact ⟨sent, solved, inStep.taken.trans all⟩
        | inr receives =>
            obtain ⟨next, others, keptToo, staleToo, ran, same, sameToo, _, _, later⟩ := receives
            rw [ran]
            exact ih split (same.trans sent) (sameToo.trans solved) later
      · obtain ⟨challenge, others, next, keptToo, staleToo, first, _, _, ran, more, moreToo, later⟩ :=
          turn_answers inStep incomplete (Nat.le_of_not_lt few)
        rw [ran]
        apply @ih (answered ++ [challenge]) others
        · rw [split, first, List.append_assoc, List.singleton_append]
        · rw [more, sent, List.map_append, List.map_singleton]
        · rw [moreToo, solved, List.length_append, List.length_singleton]
        · exact later

/-- Each turn takes bytes off the socket or a challenge off the buffer. -/
theorem serve_waits {left : List Challenge} {tail kept stale : List UInt8} {client : Client}
    {events : List Event} (inStep : InStep left tail kept stale client events)
    (incomplete : Incomplete tail) :
    ∃ turns last, serve turns client events = .waiting last := by
  -- a byte counts twice on the socket and once in the buffer
  induction size : 2 * (bytesOf events).length + kept.length using Nat.strongRecOn
    generalizing left kept stale client events with
  | ind bound ih =>
      have onward : ∀ {next others keptToo staleToo leftToo},
          turn client events = .running next others →
          InStep leftToo tail keptToo staleToo next others →
          2 * (bytesOf others).length + keptToo.length < bound →
          ∃ turns last, serve turns client events = .waiting last := by
        intro next others keptToo staleToo leftToo ran later fewer
        obtain ⟨turns, last, done⟩ := ih _ fewer later rfl
        refine ⟨turns + 1, last, ?_⟩
        rw [serve, ran]
        exact done
      by_cases few : kept.count newline < 4
      · cases turn_receives inStep incomplete few with
        | inl waits =>
            refine ⟨1, client, ?_⟩
            rw [serve, waits.1]
        | inr receives =>
            obtain ⟨next, others, keptToo, staleToo, ran, _, _, less, total, later⟩ := receives
            exact onward ran later (by omega)
      · obtain ⟨challenge, others, next, keptToo, staleToo, _, same, _, ran, _, _, later⟩ :=
          turn_answers inStep incomplete (Nat.le_of_not_lt few)
        have some := List.length_pos_of_ne_nil (text_is_record challenge).ne_nil
        apply onward ran later
        rw [← size, same, List.length_append]
        omega

theorem start_in_step {challenges : List Challenge} {tail : List UInt8} {events : List Event}
    (live : Open events) (received : bytesOf events = stream challenges ++ tail)
    (buf : List UInt8) : InStep challenges tail [] buf (start buf) events :=
  ⟨rfl, rfl, received, live⟩

/-- However the stream arrives, every complete challenge is answered once and in order,
and the client then waits with the rest of the stream in its buffer. -/
theorem answers_each {challenges : List Challenge} {tail : List UInt8} {events : List Event}
    (live : Open events) (incomplete : Incomplete tail)
    (received : bytesOf events = stream challenges ++ tail) (buf : List UInt8) :
    (∀ turns, Right challenges tail (serve turns (start buf) events)) ∧
      ∃ turns last, serve turns (start buf) events = .waiting last := by
  have inStep := start_in_step live received buf
  constructor
  · exact @serve_right challenges [] challenges _ _ _ _ _ rfl rfl rfl inStep incomplete
  · exact serve_waits inStep incomplete

/-- Two challenges and the first byte of a third in one piece. -/
def crowded : List Event :=
  [.received (stream [blankChallenge 1, blankChallenge 2] ++ decimal 3)]

theorem answers_each_sample :
    (∀ turns, Right [blankChallenge 1, blankChallenge 2] (decimal 3)
      (serve turns (start (List.replicate BUFCAP 0)) crowded)) ∧
      ∃ turns last, serve turns (start (List.replicate BUFCAP 0)) crowded = .waiting last := by
  have some : decimal 3 ≠ [] := decimal_ne_nil 3
  have third : decimal 3 <+: (blankChallenge 3).text := by
    rw [text_eq]
    exact List.prefix_append _ _
  apply answers_each
  · intro event member
    rw [List.mem_singleton.mp member]
    exact List.append_ne_nil_of_right_ne_nil _ some
  · refine ⟨blankChallenge 3, third, fun same => ?_⟩
    have last := (text_is_record (blankChallenge 3)).count_stop
    rw [← same, count_newline_eq_zero (decimal_without 3)] at last
    exact absurd last (by decide)
  · simp [crowded, Event.bytes]

end Finm327.Hft2026
