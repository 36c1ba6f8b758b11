import Finm327.Hft2026.LoopInvariant

/-!
# Answers get through

While a challenge is open, its payload can be sent to a registered client, whose own moves and
those of its handler then have the right answer recorded.
-/

namespace Finm327.Hft2026.System

open Finm327.Library.DecimalText
open Finm327.Library.Maps
open Finm327.Library.Runs (Config Reachable)
open Finm327.Hft
open Function (update)

/-- The send to one connection, and the moves of its client and its handler. -/
def OfLink (k : Nat) : Move → Prop
  | .send j => j = k
  | .turn j _ => j = k
  | .receive j _ _ => j = k
  | .server (.record j) => j = k
  | _ => False

def OnLink (k : Nat) (config : Run) (move : Move) : Prop := WholeLines config move ∧ OfLink k move

variable {overflow : Int → Int32} {config : Run} {k : Nat}

theorem leads_move {move : Move} {next : System} {sight : Sight} (permitted : OnLink k config move)
    (ran : step overflow config.state move = some (next, sight)) :
    Library.Runs.Leads (step overflow) (OnLink k) config (config.push move next sight) :=
  .single (.run permitted ran)

theorem reached_move {system next : System} {move : Move} {sight : Sight}
    (reached : Reachable (step overflow) WholeLines system config)
    (ran : step overflow config.state move = some (next, sight)) (whole : WholeLines config move) :
    Reachable (step overflow) WholeLines system (config.push move next sight) :=
  reached.tail (.run whole ran)

/-- The turns of a client are moves of the system. -/
theorem leads_of_turns {link last : Link} (turns : link.Turns last) {config : Run}
    (own : config.state.links k = link) :
    ∃ later : Run, Library.Runs.Leads (step overflow) (OnLink k) config later ∧
      later.state.server = config.state.server ∧ later.state.links k = last := by
  induction turns generalizing config with
  | done link => exact ⟨config, .refl, rfl, own⟩
  | @step link next last n turned _ ih =>
      have ran : step overflow config.state (.turn k n) =
          some (config.state.setLink k next, .silent) := by
        simp [step, own, turned]
      have allowed : OnLink k config (.turn k n) := ⟨trivial, rfl⟩
      have first := leads_move allowed ran
      obtain ⟨later, leads, server, lastToo⟩ :=
        @ih (config.push _ (config.state.setLink k next) _) (by simp)
      exact ⟨later, first.trans leads, server, lastToo⟩

/-- The client answers everything that is left. -/
theorem client_answers {left : List Challenge} (awaits : (config.state.links k).Awaits left) :
    ∃ later : Run, Library.Runs.Leads (step overflow) (OnLink k) config later ∧
      later.state.server = config.state.server ∧
      (later.state.links k).up = (config.state.links k).up ++ (left.map reply).flatten := by
  obtain ⟨last, turns, _, up⟩ := awaits.turns
  obtain ⟨later, leads, server, own⟩ := leads_of_turns turns rfl
  exact ⟨later, leads, server, own ▸ up⟩

theorem reply_fits {challenge : Challenge} (small : challenge.cid < 2 ^ 31) :
    reply challenge ≠ [] ∧ (reply challenge).length < BUFFER_SIZE := by
  have record := reply_is_record challenge
  have remainder : productSum challenge.A challenge.B % MODULO < 10 ^ 3 :=
    (Nat.mod_lt _ (by decide : 0 < MODULO)).trans (by decide)
  have id := (@length_decimal_le_iff challenge.cid 10 (by decide)).mpr (by omega)
  have answer := (@length_decimal_le_iff _ 3 (by decide)).mpr remainder
  refine ⟨record.ne_nil, ?_⟩
  rw [reply, List.length_append, List.length_append, List.length_append, List.length_singleton,
    List.length_singleton, BUFFER_SIZE]
  omega

/-- The handler receives one reply. -/
theorem receive_reply (overflow : Int → Int32) {system : System} {name : Name} {now : Int}
    {challenge : Challenge} {rest : List UInt8} (small : challenge.cid < 2 ^ 31)
    (registered : system.server.handlers k = .receiving name)
    (up : (system.links k).up = reply challenge ++ rest) :
    step overflow system (.receive k (reply challenge).length now) =
      some ((system.setHandler k (.parsed name (reply challenge) (messageOf challenge) now)).setLink k
        { system.links k with up := rest }, .server .silent) := by
  have fits := reply_fits small
  have parsed := parse_reply overflow small []
  rw [List.append_nil] at parsed
  have received : system.onServer overflow (.receive k (reply challenge) now) =
      some (system.setHandler k (.parsed name (reply challenge) (messageOf challenge) now),
        .silent) := by
    simp only [onServer, AnswerServer.step, registered, if_pos fits, parsed]
    rfl
  simp only [step, up, List.take_left, List.drop_left, received]
  rfl

/-- The handler records what it holds. -/
theorem record_parsed (overflow : Int → Int32) {system : System} {name : Name}
    {bytes : List UInt8} {message : Parsed} {now : Int}
    (holds : system.server.handlers k = .parsed name bytes message now) :
    ∃ next, step overflow system (.server (.record k)) =
        some (next, .server (.processed system.server.currentChallenge.id name bytes)) ∧
      next.server.handlers k = .receiving name ∧ next.links = system.links ∧
      next.payload = system.payload ∧ next.server.round = system.server.round ∧
      next.server.currentChallenge =
        recordAnswer name message now system.server.currentChallenge := by
  have recorded : AnswerServer.step overflow system.server (.record k) =
      some ({ system.server with
        currentChallenge := recordAnswer name message now system.server.currentChallenge
        handlers := update system.server.handlers k (.receiving name) },
        .processed system.server.currentChallenge.id name bytes) := by
    simp only [AnswerServer.step, holds]
  refine ⟨{ system with server := { system.server with
    currentChallenge := recordAnswer name message now system.server.currentChallenge
    handlers := update system.server.handlers k (.receiving name) } }, ?_, ?_, rfl, rfl, rfl, rfl⟩
  · simp only [step, Internal, if_true, onServer, recorded]
    rfl
  · exact Function.update_self ..

/-- The handler receives its replies one by one and records each. -/
theorem handler_records {name : Name} {answered : List Challenge} (now : Int)
    (small : ∀ challenge ∈ answered, challenge.cid < 2 ^ 31)
    (registered : config.state.server.handlers k = .receiving name)
    (up : (config.state.links k).up = (answered.map reply).flatten) :
    ∃ later : Run, Library.Runs.Leads (step overflow) (OnLink k) config later ∧
      later.state.server.round = config.state.server.round ∧
      later.state.server.currentChallenge = answered.foldl
        (fun current challenge => recordAnswer name (messageOf challenge) now current)
        config.state.server.currentChallenge := by
  induction answered generalizing config with
  | nil => exact ⟨config, .refl, rfl, rfl⟩
  | cons challenge answered ih =>
      obtain ⟨first, others⟩ := List.forall_mem_cons.mp small
      rw [List.map_cons, List.flatten_cons] at up
      have whole : OnLink k config (.receive k (reply challenge).length now) := by
        refine ⟨?_, rfl⟩
        rw [WholeLines, up, List.take_left, reply, List.getLast?_append]
        rfl
      have received := leads_move whole (receive_reply overflow first registered up)
      generalize taken : config.push _ _ _ = between at received
      have holds : between.state.server.handlers k =
          .parsed name (reply challenge) (messageOf challenge) now := by
        simp [← taken]
      obtain ⟨next, ran, registeredToo, links, _, round, current⟩ :=
        record_parsed overflow holds
      have allowed : OnLink k between (.server (.record k)) := ⟨trivial, rfl⟩
      have upToo : (next.links k).up = (answered.map reply).flatten := by
        simp [links, ← taken]
      obtain ⟨later, leads, roundToo, currentToo⟩ :=
        @ih (between.push _ next _) others registeredToo upToo
      refine ⟨later, received.trans ((leads_move allowed ran).trans leads), ?_, ?_⟩
      · rw [roundToo, Config.push_state, round, ← taken]
        rfl
      · rw [currentToo, Config.push_state, current, List.foldl_cons, ← taken]
        rfl

/-- The answer to the challenge that is open, recorded last. -/
theorem recorded_last {name : Name} {now : Int} {current : ChallengeState}
    {answered : List Challenge} {challenge : Challenge} {correctAnswer : Int32}
    (own : messageOf challenge = ⟨current.id, correctAnswer⟩) :
    ((answered ++ [challenge]).foldl
      (fun current challenge => recordAnswer name (messageOf challenge) now current)
      current).answers.lookup name = some correctAnswer := by
  have same : ∀ (answered : List Challenge) (current : ChallengeState), (answered.foldl
      (fun current challenge => recordAnswer name (messageOf challenge) now current)
      current).id = current.id := by
    intro answered
    induction answered with
    | nil => exact fun _ => rfl
    | cons first answered ih =>
        intro current
        rw [List.foldl_cons, ih, record_answer_id]
  rw [List.foldl_append, List.foldl_cons, List.foldl_nil, record_answer_answers, same, own,
    if_pos (.inl rfl), lookup_insert_eq, if_pos rfl]

/-- The handler holds nothing that is not recorded. -/
theorem settles {name : Name} (registered : config.state.server.handlers k = .receiving name ∨
      ∃ bytes message now, config.state.server.handlers k = .parsed name bytes message now) :
    ∃ later : Run, Library.Runs.Leads (step overflow) (OnLink k) config later ∧
      later.state.server.handlers k = .receiving name ∧
      later.state.server.round = config.state.server.round := by
  rcases registered with receiving | ⟨bytes, message, now, holds⟩
  · exact ⟨config, .refl, receiving, rfl⟩
  · obtain ⟨next, ran, receiving, _, _, round, _⟩ := record_parsed overflow holds
    have allowed : OnLink k config (.server (.record k)) := ⟨trivial, rfl⟩
    exact ⟨_, leads_move allowed ran, receiving, round⟩

variable {team : Nat → List UInt8} {buf : List UInt8}

theorem reachable_gets_through (plain : ∀ k, newline ∉ team k)
    (reached : Reachable (step overflow) WholeLines (initial team buf) config)
    {cid correctAnswer : Int32} (isOpen : config.state.server.round = .waiting cid correctAnswer)
    {name : Name} (registered : config.state.server.handlers k = .receiving name ∨
      ∃ bytes message now, config.state.server.handlers k = .parsed name bytes message now)
    (now : Int) :
    ∃ later : Run, Library.Runs.Leads (step overflow) (OnLink k) config later ∧
      later.state.server.round = .waiting cid correctAnswer ∧
      later.state.server.currentChallenge.answers.lookup name = some correctAnswer := by
  obtain ⟨settled, leads, receiving, round⟩ := @settles overflow config k name registered
  rw [isOpen] at round
  have reachedToo : Reachable (step overflow) WholeLines (initial team buf) settled :=
    reached.trans (Library.Runs.leads_mono (fun _ _ allowed => allowed.1) leads)
  obtain ⟨sound, _⟩ := reachable_sound plain reachedToo
  have waits := sound.round
  rw [round] at waits
  obtain ⟨⟨challenge, member, text, own⟩, current⟩ := waits
  obtain ⟨left, awaits, known⟩ := sound.links k
  have queued := sound.queued k
  rw [receiving] at queued
  obtain ⟨answered, knownToo, up⟩ := queued
  -- the payload goes out behind what is left
  have sends : OnLink k settled (.send k) := ⟨trivial, rfl⟩
  have ran : step overflow settled.state (.send k) =
      some (settled.state.setLink k { settled.state.links k with
        wire := (settled.state.links k).wire ++ challenge.text }, .silent) := by
    simp only [step, round, text]
  have sent := leads_move sends ran
  generalize reaches : settled.push _ _ _ = after at sent
  have link : after.state.links k = { settled.state.links k with
      wire := (settled.state.links k).wire ++ challenge.text } := by
    simp [← reaches]
  have server : after.state.server = settled.state.server := by
    simp [← reaches]
  obtain ⟨replied, turns, serverToo, upToo⟩ :=
    @client_answers overflow after k _ (link ▸ awaits.send challenge)
  have whole : (replied.state.links k).up =
      ((answered ++ left ++ [challenge]).map reply).flatten := by
    rw [upToo, link, up]
    simp
  have small : ∀ other ∈ answered ++ left ++ [challenge], other.cid < 2 ^ 31 := by
    intro other listed
    simp only [List.mem_append, List.mem_singleton] at listed
    rcases listed with (first | second) | rfl
    · exact (sound.ids.small other (knownToo other first)).2
    · exact (sound.ids.small other (known other second)).2
    · exact (sound.ids.small other member).2
  have ready : replied.state.server.handlers k = .receiving name := by
    rw [serverToo, server, receiving]
  obtain ⟨later, records, roundToo, tables⟩ :=
    @handler_records overflow replied k name _ now small ready whole
  refine ⟨later, leads.trans (sent.trans (turns.trans records)), ?_, ?_⟩
  · rw [roundToo, serverToo, server, round]
  · rw [tables, serverToo, server]
    exact recorded_last (current ▸ own)

def sampleTeam : Nat → List UInt8 := fun _ => [103, 56]

theorem sample_team_plain (k : Nat) : newline ∉ sampleTeam k := by
  simp [sampleTeam, newline]

theorem sample_team_valid (k : Nat) : ValidUtf8 (sampleTeam k) :=
  valid_of_ascii (by simp [sampleTeam])

def sampleMatrix : Mat := fun _ _ => ⟨0, modulo_positive⟩

/-- A challenge is open, and a client is registered. -/
def sampleOpened (buf : List UInt8) (correctAnswer : Int32) : System where
  server := ⟨2, ⟨1, 0, ∅, ∅⟩, .waiting 1 correctAnswer,
    update (fun _ => .naming) 0 (.receiving [103, 56])⟩
  payload := (challengeOf 1 sampleMatrix sampleMatrix).text
  links := update (fun k => ⟨[], start buf, false, sampleTeam k ++ [newline]⟩) 0
    ⟨[], start buf, false, []⟩

theorem sample_opens (overflow : Int → Int32) (buf : List UInt8) :
    ∃ (config : Run) (correctAnswer : Int32),
      Reachable (step overflow) WholeLines (initial sampleTeam buf) config ∧
        config.state = sampleOpened buf correctAnswer := by
  obtain ⟨correctAnswer, checksum, _⟩ :=
    computed 1 sampleMatrix sampleMatrix (by decide)
  have generated : step overflow (initial sampleTeam buf)
      (.generate sampleMatrix sampleMatrix) =
        some (⟨⟨2, ⟨0, 0, ∅, ∅⟩, .prepared 1 (Int32.ofNat correctAnswer), fun _ => .naming⟩,
          (challengeOf 1 sampleMatrix sampleMatrix).text,
          fun k => ⟨[], start buf, false, sampleTeam k ++ [newline]⟩⟩,
          .generated (challengeOf 1 sampleMatrix sampleMatrix)) := by
    simp only [step, checksum]
    rfl
  have replaced : ∀ system : System, system.server.round = .prepared 1 (Int32.ofNat correctAnswer) →
      step overflow system (.server (.replace 0)) = some ({ system with server := {
        system.server with
          currentChallenge := ⟨1, 0, ∅, ∅⟩
          round := .waiting 1 (Int32.ofNat correctAnswer) } }, .server .silent) := by
    intro system prepared
    simp only [step, Internal, if_true, onServer, AnswerServer.step, prepared]
    rfl
  have registered : ∀ system : System, system.server.handlers 0 = .naming →
      (system.links 0).up = [103, 56, 10] →
      step overflow system (.register 0 3) = some ((system.setHandler 0 (.receiving [103, 56])).setLink 0
        { system.links 0 with up := [] }, .server .silent) := by
    intro system naming up
    have fits : ([103, 56, 10] : List UInt8).length < BUFFER_SIZE := by decide
    have trimmed : rtrim [103, 56, 10] = [103, 56] := by decide
    simp only [step, onServer, AnswerServer.step, naming, up, List.take, List.drop, trimmed]
    rw [if_pos ⟨List.cons_ne_nil _ _, fits⟩]
    rfl
  have start : Reachable (step overflow) WholeLines (initial sampleTeam buf) (.start _) :=
    Library.Runs.reachable_start
  have first := reached_move start generated (by decide : (0 : Int) < (1 : Int32).toInt)
  have second := reached_move first (replaced _ rfl) trivial
  have third := reached_move second (registered _ rfl rfl)
    (by decide : [103, 56, 10].getLast? = some newline)
  exact ⟨_, Int32.ofNat correctAnswer, third, rfl⟩

/-- The same client's answer is logged. -/
theorem closed_loop_scores_sample : ∃ (config : Run) (correctAnswer : Int32)
    (latencies answers : KeyMap Name Int32),
    Reachable (step fun _ => 0) WholeLines (initial sampleTeam []) config ∧
      .server (.logged 1 correctAnswer latencies answers) ∈ config.observations ∧
      answers.lookup [103, 56] = some correctAnswer ∧
      LoggedRight (issued config.observations) 1 correctAnswer latencies answers := by
  obtain ⟨opened, correctAnswer, reached, state⟩ := sample_opens (fun _ => 0) []
  have isOpen : opened.state.server.round = .waiting 1 correctAnswer := by
    rw [state]
    rfl
  have registered : opened.state.server.handlers 0 = .receiving [103, 56] := by
    rw [state]
    rfl
  obtain ⟨recorded, leads, round, lookup⟩ :=
    reachable_gets_through sample_team_plain reached isOpen (.inl registered) 0
  have reachedToo := reached.trans (Library.Runs.leads_mono (fun _ _ allowed => allowed.1) leads)
  have copied : step (fun _ => 0) recorded.state (.server .snapshot) = some ({ recorded.state with
      server := { recorded.state.server with
        round := .logging 1 correctAnswer recorded.state.server.currentChallenge.latencies
          recorded.state.server.currentChallenge.answers } }, .server .silent) := by
    simp only [step, Internal, if_true, onServer, AnswerServer.step, round]
    rfl
  have second := reached_move reachedToo copied trivial
  have logged : ∀ system : System, system.server.round = .logging 1 correctAnswer
      recorded.state.server.currentChallenge.latencies
        recorded.state.server.currentChallenge.answers →
      step (fun _ => 0) system (.server .log) = some ({ system with server := {
        system.server with round := .generating } }, .server (.logged 1 correctAnswer
          recorded.state.server.currentChallenge.latencies
            recorded.state.server.currentChallenge.answers)) := by
    intro system round
    simp only [step, Internal, if_true, onServer, AnswerServer.step, round]
    rfl
  have third := reached_move second (logged _ rfl) trivial
  have shown : ∀ (config : Run) move next (sight : Sight),
      sight ∈ (config.push move next sight).observations := by
    simp
  exact ⟨_, correctAnswer, _, _, third, shown .., lookup,
    (closed_loop_scores sample_team_plain sample_team_valid third).2 _ _ _ _ (shown ..)⟩

end Finm327.Hft2026.System
