import Finm327.Hft2026.Dimensions
import Finm327.Hft2026.Segments
import Finm327.Hft2026.Session
import Finm327.Hft2026.Winner

/-!
# The server and the clients of 2026 together

The server of `hftprojectstudent/hftserver2026/main.cpp` with a client of
`hftprojectstudent/hftclient2026/main.cpp` on every connection and the bytes under way between
them. A broadcast may come to a connection several times or never. In either direction the bytes
are received in any pieces, but what the server receives is only right where no line is cut.
-/

namespace Finm327.Hft2026

open Finm327.Library.DecimalText
open Finm327.Library.LineRecords
open Finm327.Library.Maps
open Finm327.Library.Runs
open Finm327.Hft
open Function (update)

/-- The bytes that were sent and not received, either way, and the client in between, which may
have left its loop. -/
structure Link where
  wire : List UInt8
  client : Client
  stopped : Bool
  up : List UInt8

/-- `payload` is that of the broadcaster. -/
structure System where
  server : AnswerServer
  payload : List UInt8
  links : Nat → Link

inductive Move
  | generate (A B : Mat)
  | send (k : Nat)
  | turn (k n : Nat)
  | register (k n : Nat)
  | receive (k n : Nat) (now : Int)
  | server (op : Step)

inductive Sight
  | generated (challenge : Challenge)
  | server (entry : Entry)
  | silent

/-- What the broadcaster generates with an id that is positive. -/
def challengeOf (cid : Int32) (A B : Mat) : Challenge where
  cid := cid.toInt.toNat
  fits := by
    have bound := cid.toInt_lt
    omega
  A := A
  B := B

/-- The steps in which the server reads nothing from outside. -/
def Internal : Step → Prop
  | .replace _ => True
  | .snapshot => True
  | .log => True
  | .record _ => True
  | .disconnect _ => True
  | _ => False

instance : DecidablePred Internal
  | .generate _ => inferInstanceAs (Decidable False)
  | .replace _ => inferInstanceAs (Decidable True)
  | .snapshot => inferInstanceAs (Decidable True)
  | .log => inferInstanceAs (Decidable True)
  | .register _ _ => inferInstanceAs (Decidable False)
  | .receive _ _ _ => inferInstanceAs (Decidable False)
  | .record _ => inferInstanceAs (Decidable True)
  | .disconnect _ => inferInstanceAs (Decidable True)

/-- A turn of the client's loop when at most so many bytes have arrived. -/
def Link.turn (link : Link) (n : Nat) : Option Link :=
  if link.stopped then none
  else
    let bytes := link.wire.take n
    match Hft2026.turn link.client (if bytes = [] then [] else [.received bytes]) with
    | .running client events =>
        some { link with
          wire := bytesOf events ++ link.wire.drop n
          client := client
          up := link.up ++ (client.sent.drop link.client.sent.length).flatten }
    | .waiting _ => none
    | _ => some { link with stopped := true }

namespace System

/-- The clients have sent their names. -/
def initial (team : Nat → List UInt8) (buf : List UInt8) : System :=
  ⟨.initial, [], fun k => ⟨[], start buf, false, team k ++ [newline]⟩⟩

def onServer (overflow : Int → Int32) (system : System) (op : Step) : Option (System × Entry) := do
  let (server, entry) ← AnswerServer.step overflow system.server op
  return ({ system with server := server }, entry)

def setLink (system : System) (k : Nat) (link : Link) : System :=
  { system with links := update system.links k link }

def setHandler (system : System) (k : Nat) (handler : Handler) : System :=
  { system with server := { system.server with
      handlers := update system.server.handlers k handler } }

@[simp] theorem setLink_server (system : System) (k : Nat) (link : Link) :
    (system.setLink k link).server = system.server := rfl

@[simp] theorem setLink_payload (system : System) (k : Nat) (link : Link) :
    (system.setLink k link).payload = system.payload := rfl

@[simp] theorem setLink_links (system : System) (k : Nat) (link : Link) (other : Nat) :
    (system.setLink k link).links other = if other = k then link else system.links other := by
  simp [setLink, Function.update_apply]

@[simp] theorem setHandler_handlers (system : System) (k : Nat) (handler : Handler) (other : Nat) :
    (system.setHandler k handler).server.handlers other =
      if other = k then handler else system.server.handlers other := by
  simp [setHandler, Function.update_apply]

def step (overflow : Int → Int32) (system : System) : Move → Option (System × Sight)
  | .generate A B => do
      let correctAnswer ← computeChecksum A B
      let challenge := challengeOf system.server.challengeId A B
      let (next, _) ← system.onServer overflow (.generate (Int32.ofNat correctAnswer))
      return ({ next with payload := challenge.text }, .generated challenge)
  | .send k =>
      match system.server.round with
      | .waiting _ _ =>
          let link := system.links k
          some (system.setLink k { link with wire := link.wire ++ system.payload }, .silent)
      | _ => none
  | .turn k n => do
      let link ← (system.links k).turn n
      return (system.setLink k link, .silent)
  | .register k n => do
      let link := system.links k
      let (next, entry) ← system.onServer overflow (.register k (link.up.take n))
      return (next.setLink k { link with up := link.up.drop n }, .server entry)
  | .receive k n now => do
      let link := system.links k
      let (next, entry) ← system.onServer overflow (.receive k (link.up.take n) now)
      return (next.setLink k { link with up := link.up.drop n }, .server entry)
  | .server op =>
      if Internal op then (system.onServer overflow op).map fun next => (next.1, .server next.2)
      else none

abbrev Run := Config System Move Sight

/-- No id has wrapped around, and no line of a client is cut where the server receives. -/
def WholeLines (config : Run) : Move → Prop
  | .generate _ _ => 0 < config.state.server.challengeId.toInt
  | .register k n => ((config.state.links k).up.take n).getLast? = some newline
  | .receive k n _ => ((config.state.links k).up.take n).getLast? = some newline
  | _ => True

instance (config : Run) : DecidablePred (WholeLines config)
  | .generate _ _ => inferInstanceAs (Decidable (_ < _))
  | .send _ => inferInstanceAs (Decidable True)
  | .turn _ _ => inferInstanceAs (Decidable True)
  | .register _ _ => inferInstanceAs (Decidable (_ = _))
  | .receive _ _ _ => inferInstanceAs (Decidable (_ = _))
  | .server _ => inferInstanceAs (Decidable True)

end System

/-! ## Lines -/

/-- What ends at a line end has whole lines. -/
theorem cut_at_lines {lines : List (List UInt8)} (each : ∀ line ∈ lines, IsRecord newline 1 line)
    {n : Nat} (whole : (lines.flatten.take n).getLast? = some newline) :
    ∃ before after, lines = before ++ after ∧ before ≠ [] ∧
      lines.flatten.take n = before.flatten ∧ lines.flatten.drop n = after.flatten := by
  induction lines generalizing n with
  | nil => simp at whole
  | cons line lines ih =>
      have record := each line List.mem_cons_self
      rw [List.flatten_cons] at whole ⊢
      by_cases short : n < line.length
      · exfalso
        rw [List.take_append_of_le_length (Nat.le_of_lt short)] at whole
        have proper : line.take n ≠ line := by
          intro same
          have length := congrArg List.length same
          rw [List.length_take] at length
          omega
        have few := record.count_lt_of_initial (List.take_prefix n line) proper
        have last := List.mem_of_getLast? whole
        have some := List.count_pos_iff.mpr last
        omega
      · have long : line.length ≤ n := Nat.le_of_not_lt short
        rw [List.take_append, List.drop_append, List.take_of_length_le long,
          List.drop_of_length_le long, List.nil_append] at *
        by_cases none : lines.flatten.take (n - line.length) = []
        · refine ⟨[line], lines, rfl, List.cons_ne_nil line [], ?_, ?_⟩
          · simp [none]
          · have all := List.take_append_drop (n - line.length) lines.flatten
            rwa [none, List.nil_append] at all
        · rw [List.getLast?_append_of_ne_nil _ none] at whole
          obtain ⟨before, after, rfl, _, taken, left⟩ :=
            ih (fun other member => each other (List.mem_cons_of_mem line member)) whole
          refine ⟨line :: before, after, rfl, List.cons_ne_nil line before, ?_, left⟩
          rw [List.flatten_cons, taken]

/-- The right answer to a challenge. -/
def messageOf (challenge : Challenge) : Parsed :=
  ⟨Int32.ofNat challenge.cid, Int32.ofNat (productSum challenge.A challenge.B % MODULO)⟩

theorem reply_is_record (challenge : Challenge) : IsRecord newline 1 (reply challenge) := by
  constructor
  · have blank : [space].count newline = 0 := by decide
    rw [reply, List.count_append, List.count_append, List.count_append, blank,
      count_newline_eq_zero (decimal_without _), count_newline_eq_zero (decimal_without _),
      List.count_singleton_self]
  · exact ⟨_, rfl⟩

theorem reply_eq {challenge : Challenge} (small : challenge.cid < 2 ^ 31) :
    reply challenge =
      AnswerLine.text ⟨(messageOf challenge).cid, (messageOf challenge).answer⟩ := by
  have answer : productSum challenge.A challenge.B % MODULO < 2 ^ 31 :=
    (Nat.mod_lt _ (by decide : 0 < MODULO)).trans (by decide)
  rw [AnswerLine.text, messageOf]
  dsimp only
  rw [Int32.toInt_ofNat_of_lt small, Int32.toInt_ofNat_of_lt answer, reply, List.append_assoc,
    List.append_assoc]
  rfl

/-- The server reads the first line of what it receives. -/
theorem parse_reply (overflow : Int → Int32) {challenge : Challenge}
    (small : challenge.cid < 2 ^ 31) (rest : List UInt8) :
    parseAnswer overflow (reply challenge ++ rest) = some (messageOf challenge) := by
  rw [parse_answer_eq, reply_eq small, leading_line, Option.map_some, takenFor, stored_to_int,
    stored_to_int]

/-! ## The clients -/

theorem prefix_stream {left : List Challenge} {text : List UInt8} (initial : text <+: stream left) :
    ∃ here later tail, left = here ++ later ∧ text = stream here ++ tail ∧ Incomplete tail := by
  induction left generalizing text with
  | nil =>
      have none : text = [] := List.prefix_nil.mp initial
      refine ⟨[], [], [], rfl, none, blankChallenge 1, List.nil_prefix, ?_⟩
      exact (text_is_record _).ne_nil.symm
  | cons challenge left ih =>
      rw [stream_cons] at initial
      by_cases whole : challenge.text <+: text
      · obtain ⟨more, rfl⟩ := whole
        obtain ⟨here, later, tail, rfl, rfl, incomplete⟩ :=
          ih ((List.prefix_append_right_inj _).mp initial)
        refine ⟨challenge :: here, later, tail, rfl, ?_, incomplete⟩
        rw [stream_cons, List.append_assoc]
      · refine ⟨[], challenge :: left, text, rfl, rfl, challenge, ?_, ?_⟩
        · cases List.prefix_or_prefix_of_prefix initial (List.prefix_append _ _) with
          | inl short => exact short
          | inr long => exact absurd long whole
        · rintro rfl
          exact whole (List.prefix_refl _)

/-- The client has not stopped, and holds or is about to get what is left of some challenges. -/
structure Link.Awaits (link : Link) (left : List Challenge) : Prop where
  going : link.stopped = false
  place : ∃ kept stale, link.client.buf = kept ++ stale ∧ link.client.held = kept.length ∧
    kept ++ link.wire = stream left

/-- A byte counts twice until the client has it. -/
def Link.size (link : Link) : Nat := 2 * link.wire.length + link.client.held

/-- A turn takes bytes in, or answers the first challenge that is left; it waits only for bytes. -/
theorem turn_spec {link : Link} {left : List Challenge} (awaits : link.Awaits left) (n : Nat) :
    (link.turn n = none ∧ link.wire.take n = [] ∧ (link.wire = [] → left = [])) ∨
      ∃ next, link.turn n = some next ∧ next.size < link.size ∧
        ((next.Awaits left ∧ next.up = link.up) ∨ ∃ challenge others, left = challenge :: others ∧
          next.Awaits others ∧ next.up = link.up ++ reply challenge) := by
  obtain ⟨kept, stale, buf, held, awaited⟩ := awaits.place
  rw [Link.turn, awaits.going]
  simp only [Bool.false_eq_true, if_false]
  generalize arrived : (if link.wire.take n = [] then [] else [Event.received (link.wire.take n)]) =
    events
  have bytes : bytesOf events = link.wire.take n := by
    rw [← arrived]
    split_ifs with none
    · exact none.symm
    · simp [Event.bytes]
  have live : Open events := by
    rw [← arrived]
    split_ifs with none
    · simp [Open]
    · simpa [Open, Event.Open] using none
  have both : (link.wire.take n).length + (link.wire.drop n).length = link.wire.length := by
    rw [← List.length_append, List.take_append_drop]
  have initial : kept ++ link.wire.take n <+: stream left := by
    rw [← awaited, List.prefix_append_right_inj]
    exact List.take_prefix _ _
  obtain ⟨here, later, tail, rfl, start, incomplete⟩ := prefix_stream initial
  have inStep : InStep here tail kept stale link.client events :=
    ⟨buf, held, bytes.symm ▸ start, live⟩
  by_cases few : kept.count newline < 4
  · rcases turn_receives inStep incomplete few with ⟨waits, rfl, rfl⟩ |
      ⟨client, others, keptToo, staleToo, receives, sent, _, fewer, total, inStepToo⟩
    · left
      rw [stream_nil, List.nil_append] at start
      refine ⟨by rw [waits], List.append_right_eq_self.mp start, ?_⟩
      intro none
      rw [none, List.append_nil, List.nil_append] at awaited
      cases later with
      | nil => rfl
      | cons challenge later =>
          rw [awaited, stream_cons, List.count_append, (text_is_record challenge).count_stop] at few
          omega
    · right
      rw [receives]
      refine ⟨_, rfl, ?_, .inl ⟨⟨rfl, keptToo, staleToo, inStepToo.buf, inStepToo.held, ?_⟩, ?_⟩⟩
      · rw [bytes] at fewer total
        simp only [Link.size, List.length_append, inStepToo.held, held]
        omega
      · rw [← awaited, ← List.append_assoc, inStepToo.awaited, ← start, List.append_assoc,
          List.take_append_drop]
      · simp [sent]
  · right
    obtain ⟨challenge, others, client, keptToo, staleToo, rfl, whole, _, answers, sent, _,
      inStepToo⟩ := turn_answers inStep incomplete (Nat.le_of_not_lt few)
    rw [answers]
    refine ⟨_, rfl, ?_, .inr ⟨challenge, others ++ later, rfl,
      ⟨rfl, keptToo, staleToo, inStepToo.buf, inStepToo.held, ?_⟩, ?_⟩⟩
    · have some := List.length_pos_of_ne_nil (text_is_record challenge).ne_nil
      simp only [Link.size, List.length_append, inStepToo.held, held, whole, bytes]
      omega
    · rw [bytes, List.take_append_drop]
      rw [whole, List.append_assoc, List.cons_append, stream_cons] at awaited
      exact List.append_cancel_left awaited
    · rw [sent, List.drop_left]
      simp

/-- Some turns of the client alone. -/
inductive Link.Turns : Link → Link → Prop
  | done (link : Link) : Turns link link
  | step {link next last : Link} {n : Nat} (ran : link.turn n = some next)
      (rest : Turns next last) : Turns link last

/-- The client's turns answer everything that is left, and in order. -/
theorem Link.Awaits.turns {link : Link} {left : List Challenge} (awaits : link.Awaits left) :
    ∃ last : Link, link.Turns last ∧ last.Awaits [] ∧
      last.up = link.up ++ (left.map reply).flatten := by
  induction size : link.size using Nat.strongRecOn generalizing link left with
  | ind bound ih =>
      rcases turn_spec awaits link.wire.length with ⟨_, none, idle⟩ | ⟨next, turned, less, moved⟩
      · rw [List.take_length] at none
        rw [idle none] at awaits ⊢
        exact ⟨link, .done link, awaits, by simp⟩
      · rcases moved with ⟨awaitsToo, up⟩ | ⟨challenge, others, rfl, awaitsToo, up⟩
        · obtain ⟨last, turns, done, upToo⟩ := ih _ (size ▸ less) awaitsToo rfl
          exact ⟨last, .step turned turns, done, by rw [upToo, up]⟩
        · obtain ⟨last, turns, done, upToo⟩ := ih _ (size ▸ less) awaitsToo rfl
          exact ⟨last, .step turned turns, done, by simp [upToo, up]⟩

theorem Link.Awaits.send {link : Link} {left : List Challenge} (awaits : link.Awaits left)
    (challenge : Challenge) :
    ({ link with wire := link.wire ++ challenge.text } : Link).Awaits (left ++ [challenge]) := by
  obtain ⟨kept, stale, buf, held, awaited⟩ := awaits.place
  refine ⟨awaits.going, kept, stale, buf, held, ?_⟩
  rw [← List.append_assoc, awaited]
  simp [stream]

/-- All that the client awaits was issued. -/
def Link.Fed (issued : List Challenge) (link : Link) : Prop :=
  ∃ left, link.Awaits left ∧ ∀ challenge ∈ left, challenge ∈ issued

theorem Link.Fed.going {issued : List Challenge} {link : Link} (fed : link.Fed issued) :
    link.stopped = false := by
  obtain ⟨_, awaits, _⟩ := fed
  exact awaits.going

theorem turn_fed {issued : List Challenge} {link next : Link} (fed : link.Fed issued) {n : Nat}
    (ran : link.turn n = some next) :
    next.Fed issued ∧ ∃ answered : List Challenge, (∀ challenge ∈ answered, challenge ∈ issued) ∧
      next.up = link.up ++ (answered.map reply).flatten := by
  obtain ⟨left, awaits, known⟩ := fed
  rcases turn_spec awaits n with ⟨waits, _⟩ | ⟨after, turned, _, moved⟩
  · rw [waits] at ran
    cases ran
  · rw [turned] at ran
    cases ran
    rcases moved with ⟨awaitsToo, up⟩ | ⟨challenge, others, rfl, awaitsToo, up⟩
    · exact ⟨⟨left, awaitsToo, known⟩, [], nofun, by simp [up]⟩
    · obtain ⟨first, rest⟩ := List.forall_mem_cons.mp known
      exact ⟨⟨others, awaitsToo, rest⟩, [challenge], List.forall_mem_singleton.mpr first, by simp [up]⟩

end Finm327.Hft2026
