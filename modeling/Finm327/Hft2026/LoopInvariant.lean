import Finm327.Hft2026.ClosedLoop

/-!
# What the server logs of its clients

Everything under way in the system is right: the replies, the messages that a handler holds, the
tables, and what is logged of them.
-/

namespace Finm327.Hft2026

open Finm327.Library.LineRecords
open Finm327.Library.Maps
open Finm327.Library.Runs
open Finm327.Hft
open Function (update)

/-! ## What is right in the system -/

/-- The answer to an issued challenge with this id. -/
def Keyed (issued : List Challenge) (cid answer : Int32) : Prop :=
  ∃ challenge ∈ issued, messageOf challenge = ⟨cid, answer⟩

/-- The text of some replies. -/
def Replies (issued : List Challenge) (text : List UInt8) : Prop :=
  ∃ answered : List Challenge, (∀ challenge ∈ answered, challenge ∈ issued) ∧
    text = (answered.map reply).flatten

/-- What a handler has not received, by where it is. -/
def Queued (issued : List Challenge) (intro up : List UInt8) : Handler → Prop
  | .naming => ∃ text, up = intro ++ text ∧ Replies issued text
  | .closed => True
  | _ => Replies issued up

def PendingRight (issued : List Challenge) : Handler → Prop
  | .parsed _ _ message _ => Keyed issued message.cid message.answer
  | _ => True

/-- Every answer in a table is right, and has a latency. -/
structure TablesRight (issued : List Challenge) (cid : Int32) (latencies answers : KeyMap Name Int32) :
    Prop where
  right : ∀ name answer, answers.lookup name = some answer → Keyed issued cid answer
  same : ∀ name, name ∈ latencies ↔ name ∈ answers

/-- The payload is that of the challenge. -/
def Opened (issued : List Challenge) (payload : List UInt8) (cid correctAnswer : Int32) : Prop :=
  ∃ challenge ∈ issued, payload = challenge.text ∧ messageOf challenge = ⟨cid, correctAnswer⟩

def RoundRight (issued : List Challenge) (payload : List UInt8) (current : ChallengeState) :
    Round → Prop
  | .generating => True
  | .prepared cid correctAnswer => Opened issued payload cid correctAnswer
  | .waiting cid correctAnswer => Opened issued payload cid correctAnswer ∧ current.id = cid
  | .logging cid correctAnswer latencies answers =>
      Keyed issued cid correctAnswer ∧ TablesRight issued cid latencies answers

section Mono

variable {issued more : List Challenge}

theorem Keyed.mono {cid answer : Int32} (keyed : Keyed issued cid answer)
    (subset : ∀ challenge ∈ issued, challenge ∈ more) : Keyed more cid answer := by
  obtain ⟨challenge, member, same⟩ := keyed
  exact ⟨challenge, subset challenge member, same⟩

theorem Replies.mono {text : List UInt8} (replies : Replies issued text)
    (subset : ∀ challenge ∈ issued, challenge ∈ more) : Replies more text := by
  obtain ⟨answered, known, same⟩ := replies
  exact ⟨answered, fun challenge member => subset challenge (known challenge member), same⟩

theorem Replies.append {text textToo : List UInt8} (replies : Replies issued text)
    (repliesToo : Replies issued textToo) : Replies issued (text ++ textToo) := by
  obtain ⟨answered, known, rfl⟩ := replies
  obtain ⟨answeredToo, knownToo, rfl⟩ := repliesToo
  refine ⟨answered ++ answeredToo, ?_, by simp⟩
  intro challenge member
  exact (List.mem_append.mp member).elim (known challenge) (knownToo challenge)

theorem Queued.mono {intro up : List UInt8} {handler : Handler}
    (queued : Queued issued intro up handler)
    (subset : ∀ challenge ∈ issued, challenge ∈ more) : Queued more intro up handler := by
  cases handler with
  | naming =>
      obtain ⟨text, same, replies⟩ := queued
      exact ⟨text, same, replies.mono subset⟩
  | receiving => exact Replies.mono queued subset
  | parsed => exact Replies.mono queued subset
  | closed => trivial

theorem Queued.append {intro up text : List UInt8} {handler : Handler}
    (queued : Queued issued intro up handler) (replies : Replies issued text) :
    Queued issued intro (up ++ text) handler := by
  cases handler with
  | naming =>
      obtain ⟨first, rfl, others⟩ := queued
      exact ⟨first ++ text, List.append_assoc .., others.append replies⟩
  | receiving => exact Replies.append queued replies
  | parsed => exact Replies.append queued replies
  | closed => trivial

theorem PendingRight.mono {handler : Handler} (pending : PendingRight issued handler)
    (subset : ∀ challenge ∈ issued, challenge ∈ more) : PendingRight more handler := by
  cases handler with
  | parsed => exact Keyed.mono pending subset
  | _ => trivial

theorem TablesRight.mono {cid : Int32} {latencies answers : KeyMap Name Int32}
    (tables : TablesRight issued cid latencies answers)
    (subset : ∀ challenge ∈ issued, challenge ∈ more) : TablesRight more cid latencies answers :=
  ⟨fun name answer found => (tables.right name answer found).mono subset, tables.same⟩

theorem Link.Fed.mono {link : Link} (fed : link.Fed issued)
    (subset : ∀ challenge ∈ issued, challenge ∈ more) : link.Fed more := by
  obtain ⟨left, awaits, known⟩ := fed
  exact ⟨left, awaits, fun challenge member => subset challenge (known challenge member)⟩

end Mono

/-- Two issued challenges have different ids, so the id determines the answer. -/
theorem Keyed.unique {issued : List Challenge} {cid answer answerToo : Int32}
    (small : ∀ challenge ∈ issued, challenge.cid < 2 ^ 31)
    (distinct : (issued.map Challenge.cid).Nodup) (keyed : Keyed issued cid answer)
    (keyedToo : Keyed issued cid answerToo) : answer = answerToo := by
  obtain ⟨challenge, member, same⟩ := keyed
  obtain ⟨other, memberToo, sameToo⟩ := keyedToo
  rw [messageOf, Parsed.mk.injEq] at same sameToo
  have ids : challenge.cid = other.cid := by
    have equal := congrArg Int32.toInt (same.1.trans sameToo.1.symm)
    rw [Int32.toInt_ofNat_of_lt (small _ member), Int32.toInt_ofNat_of_lt (small _ memberToo)]
      at equal
    exact_mod_cast equal
  have one := List.inj_on_of_nodup_map distinct member memberToo ids
  rw [← same.2, ← sameToo.2, one]

/-- The ids of the issued challenges are those below the next one. -/
structure IdsRight (issued : List Challenge) (challengeId : Int32) : Prop where
  small : ∀ challenge ∈ issued, 0 < challenge.cid ∧ challenge.cid < 2 ^ 31
  distinct : (issued.map Challenge.cid).Nodup
  fresh : 0 < challengeId.toInt → ∀ challenge ∈ issued, (challenge.cid : Int) < challengeId.toInt

structure Sound (intro : Nat → List UInt8) (system : System) (issued : List Challenge) : Prop where
  ids : IdsRight issued system.server.challengeId
  links : ∀ k, (system.links k).Fed issued
  queued : ∀ k, Queued issued (intro k) (system.links k).up (system.server.handlers k)
  pending : ∀ k, PendingRight issued (system.server.handlers k)
  tables : TablesRight issued system.server.currentChallenge.id
    system.server.currentChallenge.latencies system.server.currentChallenge.answers
  round : RoundRight issued system.payload system.server.currentChallenge system.server.round

theorem initial_sound (team : Nat → List UInt8) (buf : List UInt8) :
    Sound (fun k => team k ++ [newline]) (System.initial team buf) [] where
  ids := ⟨nofun, List.nodup_nil, nofun⟩
  links _ := ⟨[], ⟨rfl, [], buf, rfl, rfl, rfl⟩, nofun⟩
  queued _ := ⟨[], (List.append_nil _).symm, [], nofun, rfl⟩
  pending _ := trivial
  tables := ⟨nofun, fun _ => Iff.rfl⟩
  round := trivial

theorem IdsRight.issue {issued : List Challenge} {cid : Int32} (ids : IdsRight issued cid)
    (positive : 0 < cid.toInt) (A B : Mat) :
    IdsRight (issued ++ [challengeOf cid A B]) (cid + 1) := by
  have bound := cid.toInt_lt
  have own : ((challengeOf cid A B).cid : Int) = cid.toInt := Int.toNat_of_nonneg (by omega)
  constructor
  · intro challenge member
    rcases List.mem_append.mp member with before | new
    · exact ids.small challenge before
    · rw [List.mem_singleton.mp new]
      omega
  · rw [List.map_append, List.map_singleton, List.nodup_append]
    refine ⟨ids.distinct, List.nodup_singleton _, ?_⟩
    intro first member second new
    obtain ⟨challenge, listed, rfl⟩ := List.mem_map.mp member
    have below := ids.fresh positive challenge listed
    rw [List.mem_singleton.mp new]
    omega
  · intro still challenge member
    have next : (cid + 1).toInt = cid.toInt + 1 := by
      have size : Int32.size = 2 ^ 32 := rfl
      rw [Int32.toInt_add] at still ⊢
      change 0 < (cid.toInt + 1).bmod (2 ^ 32) at still
      change (cid.toInt + 1).bmod (2 ^ 32) = cid.toInt + 1
      rw [Int.bmod_def] at still ⊢
      omega
    rcases List.mem_append.mp member with before | new
    · have below := ids.fresh positive challenge before
      omega
    · rw [List.mem_singleton.mp new]
      omega

theorem keyed_positive {issued : List Challenge} {cid answer : Int32}
    (small : ∀ challenge ∈ issued, 0 < challenge.cid ∧ challenge.cid < 2 ^ 31)
    (keyed : Keyed issued cid answer) : cid ≠ -1 := by
  obtain ⟨challenge, member, same⟩ := keyed
  rw [messageOf, Parsed.mk.injEq] at same
  rintro rfl
  have value := congrArg Int32.toInt same.1
  have negative : (-1 : Int32).toInt = -1 := by decide
  rw [Int32.toInt_ofNat_of_lt (small challenge member).2, negative] at value
  omega

theorem record_tables {issued : List Challenge} {current : ChallengeState} {name : Name}
    {message : Parsed} {now : Int}
    (small : ∀ challenge ∈ issued, 0 < challenge.cid ∧ challenge.cid < 2 ^ 31)
    (tables : TablesRight issued current.id current.latencies current.answers)
    (keyed : Keyed issued message.cid message.answer) :
    TablesRight issued (recordAnswer name message now current).id
      (recordAnswer name message now current).latencies
      (recordAnswer name message now current).answers := by
  have plain := keyed_positive small keyed
  rw [record_answer_eq]
  by_cases own : message.cid = current.id
  · rw [if_pos (.inl own)]
    constructor
    · intro other answer found
      rw [lookup_insert_eq] at found
      split_ifs at found with same
      · cases found
        exact own ▸ keyed
      · exact tables.right other answer found
    · intro other
      rw [AList.mem_insert, AList.mem_insert, tables.same other]
  · rw [if_neg (by simp [own, plain])]
    exact tables

section Steps

variable {intro : Nat → List UInt8} {system next : System} {issued : List Challenge}
  {overflow : Int → Int32} {entry : Entry}

theorem on_server_eq {op : Step} (ran : system.onServer overflow op = some (next, entry)) :
    ∃ server, AnswerServer.step overflow system.server op = some (server, entry) ∧
      next = { system with server := server } := by
  rw [System.onServer, Option.bind_eq_bind, Option.bind_eq_some_iff] at ran
  obtain ⟨⟨server, shown⟩, ran, same⟩ := ran
  cases same
  exact ⟨server, ran, rfl⟩

/-- The server's answer to what it issues. -/
theorem computed (cid : Int32) (A B : Mat) (positive : 0 < cid.toInt) :
    ∃ correctAnswer, computeChecksum A B = some correctAnswer ∧
      messageOf (challengeOf cid A B) = ⟨cid, Int32.ofNat correctAnswer⟩ := by
  refine ⟨entriesSum A B % MODULO, compute_checksum_eq A B (by decide), ?_⟩
  have bound := cid.toInt_lt
  have whole : ((challengeOf cid A B).cid : Int) = cid.toInt := Int.toNat_of_nonneg (by omega)
  have id : Int32.ofNat (challengeOf cid A B).cid = cid := by
    apply Int32.toInt.inj
    rw [Int32.toInt_ofNat_of_lt (by omega), whole]
  rw [messageOf, id, productSum, entriesSum]
  rfl

theorem generate_sound (sound : Sound intro system issued) {A B : Mat} {sight : Sight}
    (positive : 0 < system.server.challengeId.toInt)
    (ran : system.step overflow (.generate A B) = some (next, sight)) :
    sight = .generated (challengeOf system.server.challengeId A B) ∧
      Sound intro next (issued ++ [challengeOf system.server.challengeId A B]) := by
  have subset : ∀ challenge ∈ issued,
      challenge ∈ issued ++ [challengeOf system.server.challengeId A B] :=
    fun challenge member => List.mem_append_left _ member
  have last : challengeOf system.server.challengeId A B ∈
      issued ++ [challengeOf system.server.challengeId A B] := by simp
  obtain ⟨correctAnswer, checksum, own⟩ := computed system.server.challengeId A B positive
  rw [System.step, checksum, Option.bind_eq_bind, Option.bind_some] at ran
  dsimp only at ran
  rw [Option.bind_eq_bind, Option.bind_eq_some_iff] at ran
  obtain ⟨⟨following, shown⟩, ran, same⟩ := ran
  cases same
  obtain ⟨server, stepped, rfl⟩ := on_server_eq ran
  cases AnswerServer.step_effect stepped with
  | generate _ idle =>
      exact ⟨rfl, {
        ids := sound.ids.issue positive A B
        links := fun k => (sound.links k).mono subset
        queued := fun k => (sound.queued k).mono subset
        pending := fun k => (sound.pending k).mono subset
        tables := sound.tables.mono subset
        round := ⟨_, last, rfl, own⟩ }⟩

theorem Sound.setLink (sound : Sound intro system issued) {k : Nat} {link : Link}
    (fed : link.Fed issued)
    (queued : Queued issued (intro k) link.up (system.server.handlers k)) :
    Sound intro (system.setLink k link) issued := by
  constructor
  · exact sound.ids
  · intro other
    rw [System.setLink_links]
    split_ifs
    · exact fed
    · exact sound.links other
  · intro other
    rw [System.setLink_links]
    split_ifs with own
    · exact own ▸ queued
    · exact sound.queued other
  · exact sound.pending
  · exact sound.tables
  · exact sound.round

theorem send_sound (sound : Sound intro system issued) {cid correctAnswer : Int32}
    (isOpen : system.server.round = .waiting cid correctAnswer) (k : Nat) :
    Sound intro (system.setLink k { system.links k with
      wire := (system.links k).wire ++ system.payload }) issued := by
  apply sound.setLink
  · obtain ⟨left, awaits, known⟩ := sound.links k
    have round := sound.round
    rw [isOpen] at round
    obtain ⟨⟨challenge, member, text, _⟩, _⟩ := round
    refine ⟨left ++ [challenge], text ▸ awaits.send challenge, ?_⟩
    intro other listed
    rcases List.mem_append.mp listed with before | new
    · exact known other before
    · exact List.mem_singleton.mp new ▸ member
  · exact sound.queued k

theorem link_turn_sound (sound : Sound intro system issued) {k n : Nat} {link : Link}
    (ran : (system.links k).turn n = some link) : Sound intro (system.setLink k link) issued := by
  obtain ⟨fed, answered, known, up⟩ := turn_fed (sound.links k) ran
  apply sound.setLink fed
  rw [up]
  exact (sound.queued k).append ⟨answered, known, rfl⟩

/-- A handler moves on and takes something from its queue. -/
theorem Sound.setHandler (sound : Sound intro system issued) {k : Nat} {handler : Handler}
    {up : List UInt8} (queued : Queued issued (intro k) up handler)
    (pending : PendingRight issued handler) :
    Sound intro ((system.setHandler k handler).setLink k { system.links k with up := up })
      issued := by
  constructor
  · exact sound.ids
  · intro other
    rw [System.setLink_links]
    split_ifs with own
    · obtain ⟨left, awaits, known⟩ := sound.links k
      exact ⟨left, ⟨awaits.going, awaits.place⟩, known⟩
    · exact sound.links other
  · intro other
    rw [System.setLink_links, System.setLink_server, System.setHandler_handlers]
    split_ifs with own
    · exact own ▸ queued
    · exact sound.queued other
  · intro other
    rw [System.setLink_server, System.setHandler_handlers]
    split_ifs
    · exact pending
    · exact sound.pending other
  · exact sound.tables
  · exact sound.round

theorem replies_are_records (answered : List Challenge) :
    ∀ line ∈ answered.map reply, IsRecord newline 1 line := by
  intro line member
  obtain ⟨challenge, _, rfl⟩ := List.mem_map.mp member
  exact reply_is_record challenge

/-- What is received first is the client's name and maybe some replies. -/
theorem first_lines (sound : Sound intro system issued)
    (line : ∀ k, IsRecord newline 1 (intro k)) {k n : Nat}
    (naming : system.server.handlers k = .naming)
    (whole : ((system.links k).up.take n).getLast? = some newline) :
    ∃ received kept : List Challenge, (∀ challenge ∈ received ++ kept, challenge ∈ issued) ∧
      (system.links k).up.take n = intro k ++ (received.map reply).flatten ∧
      (system.links k).up.drop n = (kept.map reply).flatten := by
  have queued := sound.queued k
  rw [naming] at queued
  obtain ⟨text, up, answered, known, rfl⟩ := queued
  rw [← List.flatten_cons] at up
  have records : ∀ text ∈ intro k :: answered.map reply, IsRecord newline 1 text :=
    List.forall_mem_cons.mpr ⟨line k, replies_are_records answered⟩
  rw [up] at whole
  obtain ⟨before, after, lines, some, taken, left⟩ := cut_at_lines records whole
  rw [← up] at taken left
  obtain ⟨_, others, rfl⟩ := List.exists_cons_of_ne_nil some
  obtain ⟨rfl, rest⟩ := List.cons.inj lines
  obtain ⟨received, kept, rfl, rfl, rfl⟩ := List.map_eq_append_iff.mp rest
  exact ⟨received, kept, known, taken, left⟩

/-- The name is received, maybe with some replies. -/
theorem register_sound (sound : Sound intro system issued)
    (line : ∀ k, IsRecord newline 1 (intro k)) {k n : Nat}
    (whole : ((system.links k).up.take n).getLast? = some newline)
    (ran : system.onServer overflow (.register k ((system.links k).up.take n)) =
      some (next, entry)) :
    entry = .silent ∧ Sound intro (next.setLink k { system.links k with
      up := (system.links k).up.drop n }) issued := by
  obtain ⟨server, stepped, rfl⟩ := on_server_eq ran
  simp only [AnswerServer.step] at stepped
  cases handler : system.server.handlers k with
  | naming =>
      obtain ⟨received, kept, known, _, left⟩ := first_lines sound line handler whole
      rw [handler] at stepped
      dsimp only at stepped
      split_ifs at stepped
      cases stepped
      refine ⟨rfl, sound.setHandler ?_ trivial⟩
      exact ⟨kept, fun challenge member => known challenge (List.mem_append_right _ member), left⟩
  | _ => simp [handler] at stepped

/-- A reply is received, maybe with others behind it. -/
theorem receive_sound (sound : Sound intro system issued) {k n : Nat} {now : Int}
    (whole : ((system.links k).up.take n).getLast? = some newline)
    (ran : system.onServer overflow (.receive k ((system.links k).up.take n) now) =
      some (next, entry)) :
    entry = .silent ∧ Sound intro (next.setLink k { system.links k with
      up := (system.links k).up.drop n }) issued := by
  obtain ⟨server, stepped, rfl⟩ := on_server_eq ran
  simp only [AnswerServer.step] at stepped
  cases handler : system.server.handlers k with
  | receiving name =>
      have queued := sound.queued k
      rw [handler] at queued stepped
      obtain ⟨answered, known, up⟩ := queued
      rw [up] at whole
      obtain ⟨before, after, lines, some, taken, left⟩ :=
        cut_at_lines (replies_are_records answered) whole
      rw [← up] at taken left
      obtain ⟨_, others, rfl⟩ := List.exists_cons_of_ne_nil some
      obtain ⟨received, kept, rfl, heads, rfl⟩ := List.map_eq_append_iff.mp lines
      obtain ⟨challenge, behind, rfl, rfl, _⟩ := List.map_eq_cons_iff.mp heads
      have member : challenge ∈ issued := known challenge (by simp)
      have parsed := parse_reply overflow (sound.ids.small challenge member).2 others.flatten
      rw [← List.flatten_cons, ← taken] at parsed
      dsimp only at stepped
      rw [parsed] at stepped
      dsimp only at stepped
      split_ifs at stepped
      cases stepped
      refine ⟨rfl, sound.setHandler ?_ ⟨challenge, member, rfl⟩⟩
      exact ⟨kept, fun other listed => known other (List.mem_append_right _ listed), left⟩
  | _ => simp [handler] at stepped

theorem RoundRight.current {payload : List UInt8} {current currentToo : ChallengeState}
    {round : Round} (right : RoundRight issued payload current round)
    (same : currentToo.id = current.id) : RoundRight issued payload currentToo round := by
  cases round with
  | waiting => exact ⟨right.1, same.trans right.2⟩
  | _ => exact right

/-- A handler moves on and leaves its queue alone. -/
theorem handlers_right (sound : Sound intro system issued) (k : Nat) (handler : Handler)
    (queued : Queued issued (intro k) (system.links k).up handler)
    (pending : PendingRight issued handler) (other : Nat) :
    Queued issued (intro other) (system.links other).up
        (update system.server.handlers k handler other) ∧
      PendingRight issued (update system.server.handlers k handler other) := by
  rw [Function.update_apply]
  split_ifs with own
  · exact ⟨own ▸ queued, pending⟩
  · exact ⟨sound.queued other, sound.pending other⟩

/-- What is logged is right. -/
def EntryRight (issued : List Challenge) : Entry → Prop
  | .logged cid correctAnswer latencies answers =>
      Keyed issued cid correctAnswer ∧ TablesRight issued cid latencies answers
  | _ => True

theorem server_sound (sound : Sound intro system issued) {op : Step} (internal : Internal op)
    (ran : system.onServer overflow op = some (next, entry)) :
    Sound intro next issued ∧ EntryRight issued entry := by
  obtain ⟨server, stepped, rfl⟩ := on_server_eq ran
  have round := sound.round
  cases AnswerServer.step_effect stepped with
  | generate => exact internal.elim
  | register => exact internal.elim
  | invalid => exact internal.elim
  | receive => exact internal.elim
  | replace now ready =>
      rw [ready] at round
      exact ⟨{ sound with
        tables := ⟨nofun, fun _ => Iff.rfl⟩
        round := ⟨round, rfl⟩ }, trivial⟩
  | snapshot waited =>
      rw [waited] at round
      obtain ⟨⟨challenge, member, _, same⟩, own⟩ := round
      exact ⟨{ sound with round := ⟨⟨challenge, member, same⟩, own ▸ sound.tables⟩ }, trivial⟩
  | log copied =>
      rw [copied] at round
      exact ⟨{ sound with round := trivial }, round⟩
  | @record k name bytes message now waits =>
      have queued := sound.queued k
      have keyed := sound.pending k
      rw [waits] at queued keyed
      have handlers := handlers_right sound k (.receiving name) queued trivial
      exact ⟨{ sound with
        queued := fun other => (handlers other).1
        pending := fun other => (handlers other).2
        tables := record_tables sound.ids.small sound.tables keyed
        round := round.current (record_answer_id name message now _) }, trivial⟩
  | disconnect k =>
      have handlers := handlers_right sound k .closed trivial trivial
      exact ⟨{ sound with
        queued := fun other => (handlers other).1
        pending := fun other => (handlers other).2 }, trivial⟩

end Steps

/-! ## What the log says -/

def issuedBy : Sight → Option Challenge
  | .generated challenge => some challenge
  | _ => none

def issued (sights : List Sight) : List Challenge := sights.filterMap issuedBy

/-- A logged challenge: the answer of the server is right, everyone that is listed gave it, it is
written, nobody was faster than the winner, and there is one when somebody is listed in time and
no listed name is empty. -/
structure LoggedRight (issued : List Challenge) (cid correctAnswer : Int32)
    (latencies answers : KeyMap Name Int32) : Prop where
  generated : ∃ challenge ∈ issued, (challenge.cid : Int) = cid.toInt ∧
    ((productSum challenge.A challenge.B % MODULO : Nat) : Int) = correctAnswer.toInt
  right : ∀ name answer, answers.lookup name = some answer → answer = correctAnswer
  everyone : ∀ name, name ∈ latencies ↔ name ∈ answers
  written : ∀ players, players.Perm latencies.entries →
    ∃ result, logChallengeResult players answers correctAnswer = some result
  fastest : ∀ players, players.Perm latencies.entries → ∀ name,
    logChallengeResult players answers correctAnswer = some (some name) →
      ∃ latency, ⟨name, latency⟩ ∈ players ∧ ∀ player ∈ players, latency ≤ player.2
  named : ∀ players, players.Perm latencies.entries →
    (∃ player ∈ players, player.2 < INT_MAX) → (∀ player ∈ players, player.1 ≠ []) →
      ∃ name, logChallengeResult players answers correctAnswer = some (some name)

theorem EntryRight.mono {issued more : List Challenge} {entry : Entry}
    (right : EntryRight issued entry) (subset : ∀ challenge ∈ issued, challenge ∈ more) :
    EntryRight more entry := by
  cases entry with
  | logged => exact ⟨right.1.mono subset, right.2.mono subset⟩
  | _ => trivial

section Logged

variable {latencies answers : KeyMap Name Int32} {correctAnswer : Int32}
  {players : List ((_ : Name) × Int32)}

/-- Everyone that is listed with a latency below the bound counts. -/
theorem listed_weighs
    (right : ∀ name answer, answers.lookup name = some answer → answer = correctAnswer)
    (same : ∀ name, name ∈ latencies ↔ name ∈ answers) (order : players.Perm latencies.entries)
    {player : (_ : Name) × Int32} (member : player ∈ players) (counts : player.2 < INT_MAX) :
    weighPlayer answers correctAnswer player = some player.2.toInt := by
  have listed : player.1 ∈ answers := by
    rw [← same, mem_iff_lookup]
    exact ⟨player.2, AList.mem_lookup_iff.mpr (order.mem_iff.mp member)⟩
  obtain ⟨answer, lookup⟩ := mem_iff_lookup.mp listed
  exact weigh_player_eq_some_iff.mpr ⟨by rw [lookup, right _ _ lookup], counts, rfl⟩

theorem winner_fastest
    (right : ∀ name answer, answers.lookup name = some answer → answer = correctAnswer)
    (same : ∀ name, name ∈ latencies ↔ name ∈ answers) (order : players.Perm latencies.entries)
    {name : Name} (won : winner players answers correctAnswer = some name) :
    ∃ latency, ⟨name, latency⟩ ∈ players ∧ ∀ player ∈ players, latency ≤ player.2 := by
  rw [winner_eq] at won
  cases found : Library.Scans.scan (weighPlayer answers correctAnswer) players with
  | none => simp [found] at won
  | some best =>
      obtain ⟨⟨own, latency⟩, k⟩ := best
      have least := Library.Scans.scan_least found
      obtain ⟨_, small, value⟩ := weigh_player_eq_some_iff.mp least.weighs
      simp only [found, ite_eq_iff, reduceCtorEq, and_false, false_or, Option.some.injEq] at won
      obtain ⟨_, rfl⟩ := won
      refine ⟨latency, least.member, ?_⟩
      intro player member
      rw [Int32.le_iff_toInt_le]
      by_cases counts : player.2 < INT_MAX
      · exact value ▸ least.bound player member _ (listed_weighs right same order member counts)
      · rw [Int32.lt_iff_toInt_lt] at counts small
        exact (Int.lt_of_lt_of_le small (Int.not_lt.mp counts)).le

theorem winner_named
    (right : ∀ name answer, answers.lookup name = some answer → answer = correctAnswer)
    (same : ∀ name, name ∈ latencies ↔ name ∈ answers) (order : players.Perm latencies.entries)
    (inTime : ∃ player ∈ players, player.2 < INT_MAX) (named : ∀ player ∈ players, player.1 ≠ []) :
    ∃ name, winner players answers correctAnswer = some name := by
  obtain ⟨player, member, counts⟩ := inTime
  have weighs := listed_weighs right same order member counts
  rw [winner_eq]
  cases found : Library.Scans.scan (weighPlayer answers correctAnswer) players with
  | none =>
      rw [Library.Scans.scan_eq_none_iff.mp found player member] at weighs
      cases weighs
  | some best => exact ⟨_, if_neg (named _ (Library.Scans.scan_least found).member)⟩

theorem entry_logged_right {issued : List Challenge} {cid : Int32}
    (small : ∀ challenge ∈ issued, challenge.cid < 2 ^ 31)
    (distinct : (issued.map Challenge.cid).Nodup)
    (entry : EntryRight issued (.logged cid correctAnswer latencies answers))
    (valid : ∀ name ∈ latencies, ValidUtf8 name) :
    LoggedRight issued cid correctAnswer latencies answers := by
  obtain ⟨keyed, tables⟩ := entry
  have right : ∀ name answer, answers.lookup name = some answer → answer = correctAnswer :=
    fun name answer found => (tables.right name answer found).unique small distinct keyed
  have writes (players : List ((_ : Name) × Int32)) (order : players.Perm latencies.entries) :
      ∀ player ∈ players, dumpEscaped player.1 = true := by
    intro player member
    have listed : player.1 ∈ latencies :=
      mem_iff_lookup.mpr ⟨player.2, AList.mem_lookup_iff.mpr (order.mem_iff.mp member)⟩
    exact (dump_escaped_iff _).mpr (valid _ listed)
  constructor
  · obtain ⟨challenge, member, same⟩ := keyed
    rw [messageOf, Parsed.mk.injEq] at same
    have value : productSum challenge.A challenge.B % MODULO < 2 ^ 31 :=
      (Nat.mod_lt _ (by decide : 0 < MODULO)).trans (by decide)
    refine ⟨challenge, member, ?_, ?_⟩
    · rw [← same.1, Int32.toInt_ofNat_of_lt (small challenge member)]
    · rw [← same.2, Int32.toInt_ofNat_of_lt value]
  · exact right
  · exact tables.same
  · intro players order
    exact ⟨_, log_challenge_result_eq_some_iff.mpr ⟨writes players order, rfl⟩⟩
  · intro players order name logs
    exact winner_fastest right tables.same order (log_challenge_result_eq_some_iff.mp logs).2
  · intro players order inTime named
    obtain ⟨name, won⟩ := winner_named right tables.same order inTime named
    exact ⟨name, log_challenge_result_eq_some_iff.mpr ⟨writes players order, won⟩⟩

end Logged

namespace System

variable {team : Nat → List UInt8} {buf : List UInt8} {overflow : Int → Int32} {config : Run}

theorem issued_append (sights : List Sight) (sight : Sight) :
    issued (sights ++ [sight]) = issued sights ++ (issuedBy sight).toList := by
  rw [issued, List.filterMap_append, issued]
  cases h : issuedBy sight <;> simp [h]

/-- One move keeps everything right, and shows what is. -/
theorem step_sound {intro : Nat → List UInt8} {next : System} {move : Move} {sight : Sight}
    (line : ∀ k, IsRecord newline 1 (intro k))
    (sound : Sound intro config.state (issued config.observations))
    (whole : WholeLines config move) (ran : step overflow config.state move = some (next, sight)) :
    Sound intro next (issued (config.observations ++ [sight])) ∧
      ∀ entry, sight = .server entry → EntryRight (issued config.observations) entry := by
  rw [issued_append]
  cases move with
  | generate A B =>
      obtain ⟨rfl, generated⟩ := generate_sound sound whole ran
      exact ⟨generated, nofun⟩
  | send k =>
      rw [step] at ran
      split at ran
      · rename_i isOpen
        cases ran
        exact ⟨by simpa [issuedBy] using send_sound sound isOpen k, nofun⟩
      · cases ran
  | turn k n =>
      rw [step, Option.bind_eq_bind, Option.bind_eq_some_iff] at ran
      obtain ⟨link, turned, same⟩ := ran
      cases same
      exact ⟨by simpa [issuedBy] using link_turn_sound sound turned, nofun⟩
  | register k n =>
      rw [step] at ran
      dsimp only at ran
      rw [Option.bind_eq_bind, Option.bind_eq_some_iff] at ran
      obtain ⟨⟨following, entry⟩, registered, same⟩ := ran
      cases same
      obtain ⟨rfl, after⟩ := register_sound sound line whole registered
      refine ⟨by simpa [issuedBy] using after, ?_⟩
      intro entry same
      cases same
      trivial
  | receive k n now =>
      rw [step] at ran
      dsimp only at ran
      rw [Option.bind_eq_bind, Option.bind_eq_some_iff] at ran
      obtain ⟨⟨following, entry⟩, received, same⟩ := ran
      cases same
      obtain ⟨rfl, after⟩ := receive_sound sound whole received
      refine ⟨by simpa [issuedBy] using after, ?_⟩
      intro entry same
      cases same
      trivial
  | server op =>
      rw [step] at ran
      split_ifs at ran with internal
      obtain ⟨⟨following, entry⟩, served, same⟩ := Option.map_eq_some_iff.mp ran
      cases same
      obtain ⟨after, right⟩ := server_sound sound internal served
      refine ⟨by simpa [issuedBy] using after, ?_⟩
      intro other same
      cases same
      exact right

theorem name_lines (plain : ∀ k, newline ∉ team k) (k : Nat) :
    IsRecord newline 1 (team k ++ [newline]) := by
  refine ⟨?_, team k, rfl⟩
  rw [List.count_append, List.count_eq_zero_of_not_mem (plain k), List.count_singleton_self]

theorem reachable_sound (plain : ∀ k, newline ∉ team k)
    (reached : Reachable (step overflow) WholeLines (initial team buf) config) :
    Sound (fun k => team k ++ [newline]) config.state (issued config.observations) ∧
      ∀ entry, .server entry ∈ config.observations →
        EntryRight (issued config.observations) entry := by
  refine reachable_invariant (fun config : Run => Sound (fun k => team k ++ [newline]) config.state
    (issued config.observations) ∧ ∀ entry, .server entry ∈ config.observations →
      EntryRight (issued config.observations) entry) ?_ ?_ reached
  · exact ⟨initial_sound team buf, nofun⟩
  · intro config move next sight both whole ran
    obtain ⟨sound, shown⟩ := step_sound (name_lines plain) both.1 whole ran
    rw [Config.push_observations]
    refine ⟨sound, ?_⟩
    have subset : ∀ challenge ∈ issued config.observations,
        challenge ∈ issued (config.observations ++ [sight]) := by
      intro challenge member
      rw [issued_append]
      exact List.mem_append_left _ member
    intro entry member
    rcases List.mem_append.mp member with before | last
    · exact (both.2 entry before).mono subset
    · exact (shown entry (List.mem_singleton.mp last).symm).mono subset

theorem valid_replies (answered : List Challenge) : ValidUtf8 (answered.map reply).flatten := by
  apply valid_of_ascii
  intro byte member
  obtain ⟨line, listed, inside⟩ := List.mem_flatten.mp member
  obtain ⟨challenge, _, rfl⟩ := List.mem_map.mp listed
  have digit {n : Nat} (member : byte ∈ Library.DecimalText.decimal n) : byte.toNat < 0x80 := by
    obtain ⟨d, small, rfl⟩ := Library.DecimalText.decimal_digits n byte member
    rw [Library.DecimalText.digit_byte_to_nat small]
    omega
  simp only [reply, List.mem_append, List.mem_singleton] at inside
  rcases inside with ((id | rfl) | answer) | rfl
  · exact digit id
  · decide
  · exact digit answer
  · decide

/-- The names stay valid, and so are those that are logged. -/
theorem move_named {intro : Nat → List UInt8} {next : System} {move : Move} {sight : Sight}
    (line : ∀ k, IsRecord newline 1 (intro k)) (valid : ∀ k, ValidUtf8 (intro k))
    (sound : Sound intro config.state (issued config.observations))
    (whole : WholeLines config move) (named : config.state.server.Named)
    (ran : step overflow config.state move = some (next, sight)) :
    next.server.Named ∧ ∀ cid correctAnswer latencies answers,
      sight = .server (.logged cid correctAnswer latencies answers) →
        ∀ name ∈ latencies, ValidUtf8 name := by
  cases move with
  | generate A B =>
      simp only [step, Option.bind_eq_bind, Option.bind_eq_some_iff] at ran
      obtain ⟨correctAnswer, _, ⟨following, entry⟩, served, same⟩ := ran
      obtain ⟨server, stepped, rfl⟩ := on_server_eq served
      cases same
      exact ⟨(AnswerServer.step_named named (by rintro k bytes ⟨⟩) stepped).1, nofun⟩
  | send k =>
      rw [step] at ran
      split at ran
      · cases ran
        exact ⟨named, nofun⟩
      · cases ran
  | turn k n =>
      simp only [step, Option.bind_eq_bind, Option.bind_eq_some_iff] at ran
      obtain ⟨link, _, same⟩ := ran
      cases same
      exact ⟨named, nofun⟩
  | register k n =>
      simp only [step, Option.bind_eq_bind, Option.bind_eq_some_iff] at ran
      obtain ⟨⟨following, entry⟩, served, same⟩ := ran
      obtain ⟨server, stepped, rfl⟩ := on_server_eq served
      cases same
      have registers : ∀ j bytes,
          Step.register k ((config.state.links k).up.take n) = .register j bytes →
            ValidUtf8 (rtrim bytes) := by
        rintro j bytes ⟨⟩
        cases AnswerServer.step_effect stepped with
        | register _ _ naming =>
            obtain ⟨received, _, _, taken, _⟩ := first_lines sound line naming whole
            rw [taken]
            exact valid_rtrim ((valid k).append (valid_replies received))
      obtain ⟨namedToo, shown⟩ := AnswerServer.step_named named registers stepped
      refine ⟨namedToo, ?_⟩
      rintro cid correctAnswer latencies answers ⟨⟩
      exact shown _ _ _ _ rfl
  | receive k n now =>
      simp only [step, Option.bind_eq_bind, Option.bind_eq_some_iff] at ran
      obtain ⟨⟨following, entry⟩, served, same⟩ := ran
      obtain ⟨server, stepped, rfl⟩ := on_server_eq served
      cases same
      obtain ⟨namedToo, shown⟩ := AnswerServer.step_named named (by rintro k bytes ⟨⟩) stepped
      refine ⟨namedToo, ?_⟩
      rintro cid correctAnswer latencies answers ⟨⟩
      exact shown _ _ _ _ rfl
  | server op =>
      rw [step] at ran
      split_ifs at ran with internal
      obtain ⟨⟨following, entry⟩, served, same⟩ := Option.map_eq_some_iff.mp ran
      obtain ⟨server, stepped, rfl⟩ := on_server_eq served
      cases same
      have registers : ∀ k bytes, op = .register k bytes → ValidUtf8 (rtrim bytes) := by
        rintro k bytes rfl
        exact internal.elim
      obtain ⟨namedToo, shown⟩ := AnswerServer.step_named named registers stepped
      refine ⟨namedToo, ?_⟩
      rintro cid correctAnswer latencies answers ⟨⟩
      exact shown _ _ _ _ rfl

theorem reachable_named (plain : ∀ k, newline ∉ team k) (valid : ∀ k, ValidUtf8 (team k))
    (reached : Reachable (step overflow) WholeLines (initial team buf) config) :
    config.state.server.Named ∧ ∀ cid correctAnswer latencies answers,
      .server (.logged cid correctAnswer latencies answers) ∈ config.observations →
        ∀ name ∈ latencies, ValidUtf8 name := by
  refine leads_invariant_of_reachable (fun config : Run => config.state.server.Named ∧
    ∀ cid correctAnswer latencies answers,
      .server (.logged cid correctAnswer latencies answers) ∈ config.observations →
        ∀ name ∈ latencies, ValidUtf8 name) ?_ reachable_start reached ?_
  · intro config move next sight before both whole ran
    obtain ⟨sound, _⟩ := reachable_sound plain before
    have introduced : ∀ k, ValidUtf8 (team k ++ [newline]) :=
      fun k => (valid k).append (valid_of_ascii (by simp [newline]))
    obtain ⟨named, shown⟩ :=
      move_named (name_lines plain) introduced sound whole both.1 ran
    refine ⟨named, ?_⟩
    intro cid correctAnswer latencies answers member
    rw [Config.push_observations] at member
    rcases List.mem_append.mp member with before | last
    · exact both.2 cid correctAnswer latencies answers before
    · exact shown cid correctAnswer latencies answers (List.mem_singleton.mp last).symm
  · exact ⟨AnswerServer.initial_named, nofun⟩

/-- In every interleaving of the server with its clients, where the server receives whole lines:
no client leaves its loop, and whatever is logged for a challenge is written with the right
answer, which everyone that is listed gave, so that nobody was faster than the winner. -/
theorem closed_loop_scores (plain : ∀ k, newline ∉ team k) (valid : ∀ k, ValidUtf8 (team k))
    (reached : Reachable (step overflow) WholeLines (initial team buf) config) :
    (∀ k, (config.state.links k).stopped = false) ∧
      ∀ cid correctAnswer latencies answers,
        .server (.logged cid correctAnswer latencies answers) ∈ config.observations →
          LoggedRight (issued config.observations) cid correctAnswer latencies answers := by
  obtain ⟨sound, logged⟩ := reachable_sound plain reached
  have names := reachable_named plain valid reached
  refine ⟨fun k => (sound.links k).going, ?_⟩
  intro cid correctAnswer latencies answers member
  exact entry_logged_right (fun challenge listed => (sound.ids.small challenge listed).2)
    sound.ids.distinct (logged _ member) (names.2 _ _ _ _ member)

end System

end Finm327.Hft2026
