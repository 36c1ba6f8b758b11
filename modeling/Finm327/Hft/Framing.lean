import Finm327.Hft.Receive
import Finm327.Hft.Stream

/-!
# Which challenges the fast client receives

`recv_payload_busy` starts with an empty buffer on each call and keeps whatever
arrives with the fourth line end. The challenges come out one by one exactly when
each of them ends where the bytes of some `recv` end.
-/

namespace Finm327.Hft

open Finm327.Library.LineRecords

/-! ## One call -/

/-- Fewer than four lines before the result with the given number. -/
def Short (got : List UInt8) (events : List Event) (m : Nat) : Prop :=
  ∀ j, j < m → (got ++ bytesOf (events.take j)).count newline < 4

/-- What a call can return after it has got some bytes. -/
inductive Outcome (cap : Nat) (got : List UInt8) (events : List Event) :
    Option (Int × List UInt8 × List Event) → Prop
  | complete {m : Nat} {old : List UInt8} (short : Short got events m)
      (enough : 4 ≤ (got ++ bytesOf (events.take m)).count newline) :
      Outcome cap got events (some ((got ++ bytesOf (events.take m)).length,
        got ++ bytesOf (events.take m) ++ old, events.drop m))
  | full {m : Nat} {left : List UInt8 × List Event} (short : Short got events m)
      (beyond : cap ≤ (got ++ bytesOf (events.take m)).length) :
      Outcome cap got events (some (-1, left))
  | waiting (short : (got ++ bytesOf events).count newline < 4) : Outcome cap got events none

theorem got_cons (got : List UInt8) (event : Event) (events : List Event) (m : Nat) :
    got ++ event.bytes ++ bytesOf (events.take m) =
      got ++ bytesOf ((event :: events).take (m + 1)) := by
  rw [List.take_succ_cons, bytes_of_cons, List.append_assoc]

theorem short_cons {got : List UInt8} {event : Event} {events : List Event} {m : Nat}
    (few : got.count newline < 4) (short : Short (got ++ event.bytes) events m) :
    Short got (event :: events) (m + 1) := by
  intro j below
  cases j with
  | zero =>
      rw [List.take_zero, bytes_of_nil, List.append_nil]
      exact few
  | succ j =>
      rw [← got_cons]
      exact short j (Nat.lt_of_succ_lt_succ below)

theorem Outcome.cons {cap : Nat} {got : List UInt8} {event : Event} {events : List Event}
    {result : Option (Int × List UInt8 × List Event)} (few : got.count newline < 4)
    (later : Outcome cap (got ++ event.bytes) events result) :
    Outcome cap got (event :: events) result := by
  cases later with
  | @complete m old short enough =>
      rw [got_cons] at enough ⊢
      exact .complete (short_cons few short) enough
  | @full m left short beyond =>
      rw [got_cons] at beyond
      exact .full (short_cons few short) beyond
  | waiting short =>
      rw [List.append_assoc, ← bytes_of_cons] at short
      exact .waiting short

theorem accept_buf {call : Receiving} {got old : List UInt8} (filled : call.buf = got ++ old)
    (total : call.total = got.length) (bytes : List UInt8) :
    (call.accept bytes).buf = got ++ bytes ++ call.buf.drop (call.total + bytes.length) := by
  have kept : call.buf.take call.total = got := by rw [filled, total, List.take_left]
  rw [Receiving.accept, kept]

theorem outcome_done {cap : Nat} {call : Receiving} {got old : List UInt8}
    (filled : call.buf = got ++ old) (total : call.total = got.length)
    (seen : call.seen = got.count newline) (enough : ¬ call.seen < 4) (events : List Event) :
    Outcome cap got events (some (call.total, call.buf, events)) := by
  have here := @Outcome.complete cap got events 0 old
    (fun j below => absurd below (Nat.not_lt_zero j))
  rw [List.take_zero, bytes_of_nil, List.append_nil, ← seen, ← total, ← filled] at here
  exact here (Nat.le_of_not_lt enough)

theorem recv_loop_spec {cap : Nat} {events : List Event} (live : Open events) {call : Receiving}
    {got old : List UInt8} (filled : call.buf = got ++ old) (total : call.total = got.length)
    (seen : call.seen = got.count newline) (room : call.total < cap) :
    Outcome cap got events (recvLoop cap events call) := by
  induction events generalizing call got old with
  | nil =>
      rw [recvLoop]
      split
      next few =>
        apply Outcome.waiting
        rw [bytes_of_nil, List.append_nil, ← seen]
        exact few
      next enough => exact outcome_done filled total seen enough []
  | cons event events ih =>
      rw [recvLoop.eq_def]
      dsimp only
      split
      next few =>
        have fewer : got.count newline < 4 := seen ▸ few
        cases event with
        | received bytes =>
            have some : bytes ≠ [] := live _ List.mem_cons_self
            dsimp only
            rw [if_neg some]
            split
            next beyond =>
              have most : (bytes.take (cap - call.total)).length ≤ bytes.length :=
                List.length_take_le' _ _
              apply @Outcome.full cap got _ 1
              · exact short_cons fewer fun j below => absurd below (Nat.not_lt_zero j)
              · rw [List.take_succ_cons, List.take_zero, bytes_of_cons, bytes_of_nil,
                  List.append_nil, List.length_append, ← total]
                exact beyond.trans (Nat.add_le_add_left most _)
            next below =>
              have whole : bytes.take (cap - call.total) = bytes := by
                apply List.take_of_length_le
                by_contra longer
                rw [Receiving.accept, List.length_take_of_le (by omega)] at below
                dsimp only at below
                omega
              rw [whole] at below ⊢
              apply Outcome.cons fewer
              apply ih (open_tail live) (accept_buf filled total bytes)
              · rw [List.length_append, ← total]
                rfl
              · rw [List.count_append, ← seen]
                rfl
              · exact Nat.lt_of_not_le below
        | failed => exact absurd (live _ List.mem_cons_self) (fun no => no)
        | wouldBlock =>
            apply Outcome.cons fewer
            rw [Event.bytes, List.append_nil]
            dsimp only
            split
            next => exact ih (open_tail live) filled total seen room
            next =>
              exact @ih (open_tail live) { call with idle := _, blocked := _ } got old filled
                total seen room
      next enough => exact outcome_done filled total seen enough _

theorem recv_payload_busy_spec {events : List Event} (live : Open events) (buf : List UInt8) :
    Outcome PAYLOAD_MAX [] events (recvPayloadBusy buf PAYLOAD_MAX events) :=
  @recv_loop_spec PAYLOAD_MAX events live ⟨buf, 0, 0, 0, false⟩ [] buf rfl rfl rfl
    (show 0 < PAYLOAD_MAX by decide)

/-- A call that finds a challenge ending with some result returns just that challenge. -/
theorem call_of_aligned {text : List UInt8} (record : IsRecord newline 4 text)
    (short : text.length < PAYLOAD_MAX) {events : List Event} (live : Open events) {m : Nat}
    (ends : bytesOf (events.take m) = text) (buf : List UInt8) :
    ∃ n old, 0 < n ∧ n ≤ m ∧ bytesOf (events.take n) = text ∧
      recvPayloadBusy buf PAYLOAD_MAX events = some ((text.length : Int), text ++ old, events.drop n) := by
  have outcome := recv_payload_busy_spec live buf
  generalize ran : recvPayloadBusy buf PAYLOAD_MAX events = result at outcome
  have early : ∀ n, Short [] events n → n ≤ m := by
    intro n few
    by_contra later
    have fewer := few m (Nat.lt_of_not_le later)
    rw [List.nil_append, ends, record.count_stop] at fewer
    exact absurd fewer (Nat.lt_irrefl 4)
  have initial : ∀ n, n ≤ m → bytesOf (events.take n) <+: text := by
    intro n before
    rw [← ends, bytes_of_take_split events before]
    exact List.prefix_append _ _
  cases outcome with
  | @complete n old few enough =>
      rw [List.nil_append] at enough
      have before := early n few
      have held := record.prefix_of_count (List.prefix_refl text) (initial n before) enough
      have same : bytesOf (events.take n) = text :=
        (initial n before).eq_of_length_le held.length_le
      refine ⟨n, old, ?_, before, same, ?_⟩
      · by_contra zero
        rw [Nat.eq_zero_of_not_pos zero, List.take_zero, bytes_of_nil] at same
        exact record.ne_nil same.symm
      · rw [List.nil_append, same]
  | @full n left few beyond =>
      have less := (initial n (early n few)).length_le
      rw [List.nil_append] at beyond
      omega
  | waiting few =>
      rw [List.nil_append, ← bytes_of_take_drop events m, ends, List.count_append,
        record.count_stop] at few
      omega

/-! ## The main loop -/

/-- The call with the given number leaves its challenge at the start of `recvbuf`. -/
def ReceivesEach (challenges : List Challenge) (returned : List (Int × List UInt8)) : Prop :=
  List.Forall₂ (fun challenge result => challenge.text <+: result.2) challenges returned

/-- Each challenge ends where the bytes of some `recv` end. -/
def EndsAligned (challenges : List Challenge) (events : List Event) : Prop :=
  ∀ k, k ≤ challenges.length → ∃ m, bytesOf (events.take m) = stream (challenges.take k)

theorem count_stream (challenges : List Challenge) :
    (stream challenges).count newline = 4 * challenges.length := by
  induction challenges with
  | nil => rfl
  | cons challenge challenges ih =>
      rw [stream_cons, List.count_append, (text_is_record challenge).count_stop, ih,
        List.length_cons]
      omega

theorem aligned_first {challenge : Challenge} {challenges : List Challenge} {events : List Event}
    (aligned : EndsAligned (challenge :: challenges) events) :
    ∃ m, bytesOf (events.take m) = challenge.text := by
  obtain ⟨m, ends⟩ := aligned 1 (Nat.succ_le_succ (Nat.zero_le _))
  refine ⟨m, ?_⟩
  rw [ends, List.take_succ_cons, List.take_zero, stream_cons, stream_nil, List.append_nil]

theorem aligned_rest {challenge : Challenge} {challenges : List Challenge} {events : List Event}
    (aligned : EndsAligned (challenge :: challenges) events) {n : Nat}
    (ends : bytesOf (events.take n) = challenge.text) :
    EndsAligned challenges (events.drop n) := by
  intro k below
  obtain ⟨m, both⟩ := aligned (k + 1) (Nat.succ_le_succ below)
  rw [List.take_succ_cons, stream_cons, ← ends] at both
  by_cases before : n ≤ m
  · rw [bytes_of_take_split events before] at both
    exact ⟨m - n, List.append_cancel_left both⟩
  · have split := bytes_of_take_split events (Nat.le_of_not_le before)
    rw [both, List.append_assoc, List.self_eq_append_right, List.append_eq_nil_iff] at split
    refine ⟨0, ?_⟩
    rw [List.take_zero, bytes_of_nil, split.1]

theorem aligned_cons {challenge : Challenge} {challenges : List Challenge} {events : List Event}
    {n : Nat} (ends : bytesOf (events.take n) = challenge.text)
    (aligned : EndsAligned challenges (events.drop n)) :
    EndsAligned (challenge :: challenges) events := by
  intro k below
  cases k with
  | zero => exact ⟨0, rfl⟩
  | succ k =>
      obtain ⟨m, later⟩ := aligned k (Nat.le_of_succ_le_succ below)
      refine ⟨n + m, ?_⟩
      rw [List.take_add, bytes_of_append, ends, later, List.take_succ_cons, stream_cons]

theorem first_return {turns : Nat} {events : List Event} (live : Open events)
    {recvbuf : List UInt8} {result : Int × List UInt8} {returned : List (Int × List UInt8)}
    (ran : mainLoop turns recvbuf events = result :: returned) :
    ∃ m old turns, result.2 = bytesOf (events.take m) ++ old ∧
      4 ≤ (bytesOf (events.take m)).count newline ∧
      mainLoop turns result.2 (events.drop m) = returned := by
  cases turns with
  | zero => cases ran
  | succ turns =>
      have outcome := recv_payload_busy_spec live recvbuf
      rw [mainLoop] at ran
      generalize recvPayloadBusy recvbuf PAYLOAD_MAX events = called at outcome ran
      cases outcome with
      | @complete m old few enough =>
          dsimp only at ran
          rw [List.nil_append] at ran enough
          split at ran
          next => cases ran
          next =>
            obtain ⟨same, rest⟩ := List.cons.inj ran
            rw [← same]
            exact ⟨m, old, turns, rfl, enough, rest⟩
      | full few beyond => cases ran
      | waiting few => cases ran

theorem main_loop_lines {returned : List (Int × List UInt8)} {turns : Nat} {events : List Event}
    (live : Open events) {recvbuf : List UInt8}
    (ran : mainLoop turns recvbuf events = returned) :
    4 * returned.length ≤ (bytesOf events).count newline := by
  induction returned generalizing turns events recvbuf with
  | nil => exact Nat.zero_le _
  | cons result returned ih =>
      obtain ⟨m, old, turns, _, enough, rest⟩ := first_return live ran
      have later := ih (open_drop live m) rest
      rw [← bytes_of_take_drop events m, List.count_append, List.length_cons]
      omega

theorem main_loop_aligned {challenges : List Challenge} {events : List Event} (live : Open events)
    (sent : bytesOf events = stream challenges) (aligned : EndsAligned challenges events)
    {turns : Nat} (enough : events.length ≤ turns) (recvbuf : List UInt8) :
    ReceivesEach challenges (mainLoop turns recvbuf events) := by
  induction challenges generalizing events turns recvbuf with
  | nil =>
      have lines := @main_loop_lines _ turns events live recvbuf rfl
      rw [sent, stream_nil, List.count_nil] at lines
      have silent : mainLoop turns recvbuf events = [] :=
        List.eq_nil_of_length_eq_zero (by omega)
      rw [silent]
      exact .nil
  | cons challenge challenges ih =>
      obtain ⟨m, ends⟩ := aligned_first aligned
      have record := text_is_record challenge
      have short : challenge.text.length < PAYLOAD_MAX :=
        (length_text_le challenge).trans_lt (by decide)
      obtain ⟨n, old, positive, _, found, ran⟩ := call_of_aligned record short live ends recvbuf
      have some : 0 < challenge.text.length := List.length_pos_of_ne_nil record.ne_nil
      cases turns with
      | zero =>
          rw [List.eq_nil_of_length_eq_zero (Nat.le_zero.mp enough), List.take_nil] at found
          exact absurd found.symm record.ne_nil
      | succ turns =>
          rw [mainLoop, ran]
          dsimp only
          rw [if_neg (by omega)]
          apply List.Forall₂.cons
          · exact List.prefix_append _ _
          · apply ih (open_drop live n)
            · have split := bytes_of_take_drop events n
              rw [found, sent, stream_cons] at split
              exact List.append_cancel_left split
            · exact aligned_rest aligned found
            · rw [List.length_drop]
              omega

/-- Bytes of the second challenge taken by the first call are missing from the second. -/
theorem second_return_cut {challenge : Challenge} {challenges : List Challenge} {turns : Nat}
    {events : List Event} (live : Open events) {recvbuf head : List UInt8} (cut : head ≠ [])
    (inside : head.count newline = 0)
    (sent : head ++ bytesOf events = stream (challenge :: challenges))
    {result : Int × List UInt8} {returned : List (Int × List UInt8)}
    (ran : mainLoop turns recvbuf events = result :: returned) :
    ¬ challenge.text <+: result.2 := by
  intro starts
  have record := text_is_record challenge
  obtain ⟨m, old, _, buffer, enough, _⟩ := first_return live ran
  rw [stream_cons] at sent
  have shorter : head <+: challenge.text := by
    have first : challenge.text <+: head ++ bytesOf events := sent ▸ List.prefix_append _ _
    cases List.prefix_or_prefix_of_prefix (List.prefix_append head _) first with
    | inl short => exact short
    | inr long =>
        have more := long.sublist.count_le newline
        rw [record.count_stop, inside] at more
        exact absurd more (by decide)
  obtain ⟨tail, whole⟩ := shorter
  rw [← whole, List.append_assoc] at sent
  have left := List.append_cancel_left sent
  rw [buffer] at starts
  have held := record.prefix_of_count starts (List.prefix_append _ _) enough
  have among : bytesOf (events.take m) <+: tail ++ stream challenges := by
    rw [← left, ← bytes_of_take_drop events m]
    exact List.prefix_append _ _
  rw [← whole] at record held
  exact record.not_prefix_shifted inside cut (held.trans among)

theorem aligned_of_received {challenges : List Challenge} {events : List Event}
    (live : Open events) (sent : bytesOf events = stream challenges) {turns : Nat}
    {recvbuf : List UInt8} (received : ReceivesEach challenges (mainLoop turns recvbuf events)) :
    EndsAligned challenges events := by
  unfold ReceivesEach at received
  generalize ran : mainLoop turns recvbuf events = returned at received
  induction received generalizing events turns recvbuf with
  | nil =>
      intro k below
      exact ⟨0, by rw [List.take_nil]; rfl⟩
  | @cons challenge result challenges returned _ others ih =>
      have record := text_is_record challenge
      obtain ⟨m, old, turns, _, enough, rest⟩ := first_return live ran
      have split := bytes_of_take_drop events m
      rw [sent, stream_cons] at split
      have taken : challenge.text <+: bytesOf (events.take m) :=
        record.prefix_of_count (List.prefix_append _ _) (split ▸ List.prefix_append _ _) enough
      obtain ⟨head, whole⟩ := taken
      rw [← whole, List.append_assoc] at split
      have left := List.append_cancel_left split
      -- the later calls need four line ends each, so this one took no line end too many
      have inside : head.count newline = 0 := by
        have lines := main_loop_lines (open_drop live m) rest
        have total := count_stream challenges
        rw [← left, List.count_append, others.length_eq] at total
        omega
      by_cases cut : head = []
      · rw [cut, List.append_nil] at whole
        rw [cut, List.nil_append] at left
        exact aligned_cons whole.symm (ih (open_drop live m) left rest)
      · cases others with
        | nil =>
            rw [stream_nil, List.append_eq_nil_iff] at left
            exact absurd left.1 cut
        | cons next _ =>
            exact absurd next (second_return_cut (open_drop live m) cut inside left rest)

/-- Every challenge is received, once and in order, exactly when each of them ends
with the bytes of some `recv`. -/
theorem receives_each_iff {challenges : List Challenge} {events : List Event} (live : Open events)
    (sent : bytesOf events = stream challenges) {turns : Nat} (enough : events.length ≤ turns)
    (recvbuf : List UInt8) :
    ReceivesEach challenges (mainLoop turns recvbuf events) ↔ EndsAligned challenges events := by
  constructor
  · exact aligned_of_received live sent
  · intro aligned
    exact main_loop_aligned live sent aligned enough recvbuf

theorem receives_each_sample :
    ReceivesEach [blankChallenge 1, blankChallenge 2]
      (mainLoop 3 (List.replicate PAYLOAD_MAX 0)
        [.received (blankChallenge 1).text, .wouldBlock, .received (blankChallenge 2).text]) := by
  have some : ∀ cid, (blankChallenge cid).text ≠ [] := fun cid => (text_is_record _).ne_nil
  have live : Open [.received (blankChallenge 1).text, .wouldBlock,
      .received (blankChallenge 2).text] := by
    intro event member
    simp only [List.mem_cons, List.not_mem_nil, or_false] at member
    rcases member with first | second | third
    · exact first ▸ some 1
    · exact second ▸ trivial
    · exact third ▸ some 2
  apply (receives_each_iff live (by simp [Event.bytes]) (by decide) _).mpr
  apply @aligned_cons _ _ _ 2 (by simp [Event.bytes])
  apply @aligned_cons _ _ _ 1 (by simp [Event.bytes])
  intro k below
  exact ⟨0, by rw [List.take_nil]; rfl⟩

/-- Two challenges that arrive together: the second one is lost. -/
theorem coalesced_challenge_lost :
    Open [.received ((blankChallenge 1).text ++ (blankChallenge 2).text)] ∧
      bytesOf [.received ((blankChallenge 1).text ++ (blankChallenge 2).text)] =
        stream [blankChallenge 1, blankChallenge 2] ∧
      ∀ turns, ¬ ReceivesEach [blankChallenge 1, blankChallenge 2]
        (mainLoop turns (List.replicate PAYLOAD_MAX 0)
          [.received ((blankChallenge 1).text ++ (blankChallenge 2).text)]) := by
  have first := (text_is_record (blankChallenge 1)).ne_nil
  have second := (text_is_record (blankChallenge 2)).ne_nil
  have live : Open [.received ((blankChallenge 1).text ++ (blankChallenge 2).text)] := by
    intro event member
    rw [List.mem_singleton.mp member]
    exact List.append_ne_nil_of_left_ne_nil first _
  have sent : bytesOf [.received ((blankChallenge 1).text ++ (blankChallenge 2).text)] =
      stream [blankChallenge 1, blankChallenge 2] := by simp [Event.bytes]
  refine ⟨live, sent, fun turns received => ?_⟩
  obtain ⟨m, ends⟩ := aligned_first (aligned_of_received live sent received)
  cases m with
  | zero => exact first ends.symm
  | succ m =>
      rw [List.take_succ_cons, List.take_nil, bytes_of_cons, bytes_of_nil, List.append_nil,
        Event.bytes, List.append_right_eq_self] at ends
      exact second ends

end Finm327.Hft
