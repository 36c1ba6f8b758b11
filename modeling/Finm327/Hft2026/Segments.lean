import Finm327.Hft.Parsing
import Finm327.Hft2026.Answers

/-!
# Answers in segments

A client sends its answers as lines of a byte stream, and each `recv` of `handleClient`
returns some piece of it. Only the numbers that a piece starts with are read, so what is
recorded depends on where the pieces begin: a line behind another one in the same piece is
not seen, and a line that is cut is read as another message.
-/

namespace Finm327.Hft2026

open Finm327.Library.DecimalText
open Finm327.Library.Maps
open Finm327.Library.Runs
open Finm327.Hft
open Function (update)

/-- What `handleClient` does with one `recv`, given with the time at which it returns. -/
def handleMessage (overflow : Int → Int32) (name : Name) (challenge : ChallengeState)
    (received : List UInt8 × Int) : ChallengeState :=
  match parseAnswer overflow received.1 with
  | none => challenge
  | some message => recordAnswer name message received.2 challenge

def handleMessages (overflow : Int → Int32) (name : Name) (challenge : ChallengeState)
    (received : List (List UInt8 × Int)) : ChallengeState :=
  received.foldl (handleMessage overflow name) challenge

/-- The answer that a reading is recorded as while the challenge is `cid`. -/
def shownBy (overflow : Int → Int32) (cid : Int32) : Int × Option Int → Option Int32
  | (a, some b) =>
      if stored overflow a = cid ∨ stored overflow a = -1 then some (stored overflow b) else none
  | (a, none) => some (stored overflow a)

/-- The answer for the challenge that a piece starts with. -/
def shown (overflow : Int → Int32) (cid : Int32) (piece : List UInt8) : Option Int32 :=
  (leading piece).bind (shownBy overflow cid)

/-- The numbers that the bytes of a piece start with are taken for an answer to the challenge: two
of which the first is its id or the value that stands for it, or one. -/
def Shows (overflow : Int → Int32) (cid : Int32) (piece : List UInt8) (answer : Int32) : Prop :=
  (∃ a b, StartsWithTwo piece a b ∧ (stored overflow a = cid ∨ stored overflow a = -1) ∧
    stored overflow b = answer) ∨
  ∃ a, StartsWithOne piece a ∧ stored overflow a = answer

theorem shown_eq_some_iff {overflow : Int → Int32} {cid answer : Int32} {piece : List UInt8} :
    shown overflow cid piece = some answer ↔ Shows overflow cid piece answer := by
  simp only [Shows, ← starts_with_two_iff, ← starts_with_one_iff]
  unfold shown
  constructor
  · intro shows
    obtain ⟨⟨a, second⟩, found, taken⟩ := Option.bind_eq_some_iff.mp shows
    cases second with
    | some b =>
        unfold shownBy at taken
        dsimp only at taken
        split_ifs at taken with own
        exact .inl ⟨a, b, found, own, Option.some.inj taken⟩
    | none => exact .inr ⟨a, found, Option.some.inj taken⟩
  · rintro (⟨a, b, found, own, rfl⟩ | ⟨a, found, rfl⟩)
    · rw [found, Option.bind_some, shownBy, if_pos own]
    · rw [found, Option.bind_some, shownBy]

/-- The answer of the last piece that starts with one. -/
def lastShown (overflow : Int → Int32) (cid : Int32) (pieces : List (List UInt8)) :
    Option Int32 :=
  (pieces.filterMap (shown overflow cid)).getLast?

/-- The last piece that shows an answer shows this one, or none does. -/
def LastShows (overflow : Int → Int32) (cid : Int32) (pieces : List (List UInt8)) :
    Option Int32 → Prop
  | none => ∀ piece ∈ pieces, ∀ answer, ¬ Shows overflow cid piece answer
  | some answer => ∃ before piece after, pieces = before ++ piece :: after ∧
      Shows overflow cid piece answer ∧
      ∀ later ∈ after, ∀ other, ¬ Shows overflow cid later other

theorem shown_eq_none_iff {overflow : Int → Int32} {cid : Int32} {piece : List UInt8} :
    shown overflow cid piece = none ↔ ∀ answer, ¬ Shows overflow cid piece answer := by
  simp only [← shown_eq_some_iff]
  exact Option.eq_none_iff_forall_ne_some

theorem last_shown_eq_iff {overflow : Int → Int32} {cid : Int32} {pieces : List (List UInt8)}
    {result : Option Int32} :
    lastShown overflow cid pieces = result ↔ LastShows overflow cid pieces result := by
  cases result with
  | none =>
      rw [lastShown, List.getLast?_eq_none_iff, List.filterMap_eq_nil_iff]
      exact forall₂_congr fun piece _ => shown_eq_none_iff
  | some answer =>
      rw [lastShown, List.getLast?_eq_some_iff]
      constructor
      · rintro ⟨earlier, split⟩
        obtain ⟨before, rest, rfl, _, last⟩ := List.filterMap_eq_append_iff.mp split
        obtain ⟨skipped, piece, after, rfl, silent, shows, none⟩ := List.filterMap_eq_cons_iff.mp last
        refine ⟨before ++ skipped, piece, after, by simp, shown_eq_some_iff.mp shows, ?_⟩
        intro later member
        exact shown_eq_none_iff.mp (List.filterMap_eq_nil_iff.mp none later member)
      · rintro ⟨before, piece, after, rfl, shows, silent⟩
        refine ⟨before.filterMap (shown overflow cid), ?_⟩
        have none : after.filterMap (shown overflow cid) = [] :=
          List.filterMap_eq_nil_iff.mpr fun later member =>
            shown_eq_none_iff.mpr (silent later member)
        rw [List.filterMap_append, List.filterMap_cons_some (shown_eq_some_iff.mpr shows), none]

theorem last_shown_cons (overflow : Int → Int32) (cid : Int32) (piece : List UInt8)
    (pieces : List (List UInt8)) :
    lastShown overflow cid (piece :: pieces) =
      (lastShown overflow cid pieces).or (shown overflow cid piece) := by
  unfold lastShown
  rw [List.filterMap_cons]
  cases shown overflow cid piece with
  | none => rw [Option.or_none]
  | some answer =>
      dsimp only
      rw [List.getLast?_cons]
      cases (pieces.filterMap (shown overflow cid)).getLast? <;> rfl

theorem handle_message_id (overflow : Int → Int32) (name : Name) (challenge : ChallengeState)
    (received : List UInt8 × Int) :
    (handleMessage overflow name challenge received).id = challenge.id := by
  unfold handleMessage
  cases parseAnswer overflow received.1 with
  | none => rfl
  | some message => exact record_answer_id name message received.2 challenge

theorem handle_message_lookup (overflow : Int → Int32) (name : Name) (challenge : ChallengeState)
    (received : List UInt8 × Int) :
    (handleMessage overflow name challenge received).answers.lookup name =
      (shown overflow challenge.id received.1).or (challenge.answers.lookup name) := by
  unfold handleMessage shown
  rw [parse_answer_eq]
  cases leading received.1 with
  | none => rfl
  | some reading =>
      rw [Option.map_some, Option.bind_some]
      dsimp only
      rw [record_answer_answers]
      obtain ⟨a, second⟩ := reading
      cases second with
      | some b =>
          unfold takenFor shownBy
          dsimp only
          split_ifs with taken
          · rw [AList.lookup_insert, Option.some_or]
          · rw [Option.none_or]
      | none =>
          unfold takenFor shownBy
          dsimp only
          rw [if_pos (.inr rfl), AList.lookup_insert, Option.some_or]

theorem handle_messages_lookup (overflow : Int → Int32) (name : Name) (challenge : ChallengeState)
    (received : List (List UInt8 × Int)) :
    (handleMessages overflow name challenge received).answers.lookup name =
      (lastShown overflow challenge.id (received.map Prod.fst)).or
        (challenge.answers.lookup name) := by
  unfold handleMessages
  induction received generalizing challenge with
  | nil => rfl
  | cons first received ih =>
      rw [List.foldl_cons, ih, handle_message_id, handle_message_lookup, List.map_cons,
        last_shown_cons, Option.or_assoc]

/-- The handler of the client in the server: the steps of one `recv`. -/
theorem AnswerServer.handle_message_leads (overflow : Int → Int32)
    {config : Config AnswerServer Step Entry} {k : Nat} {name : Name}
    (ready : config.state.handlers k = .receiving name) (received : List UInt8 × Int)
    (some : received.1 ≠ []) (fits : received.1.length < BUFFER_SIZE) :
    ∃ later, Library.Runs.Leads (step overflow) (fun _ _ => True) config later ∧
      later.state = { config.state with
        currentChallenge := handleMessage overflow name config.state.currentChallenge received } := by
  obtain ⟨bytes, now⟩ := received
  cases parsed : parseAnswer overflow bytes with
  | none =>
      have reads : step overflow config.state (.receive k bytes now) =
          Option.some (config.state, .silent) := by
        rw [step, ready]
        dsimp only
        rw [if_pos ⟨some, fits⟩, parsed]
      refine ⟨config.push _ _ _, .single (.run trivial reads), ?_⟩
      rw [Config.push_state, handleMessage, parsed]
  | some message =>
      have reads : step overflow config.state (.receive k bytes now) =
          Option.some ({ config.state with
            handlers := update config.state.handlers k (.parsed name bytes message now) },
            .silent) := by
        rw [step, ready]
        dsimp only
        rw [if_pos ⟨some, fits⟩, parsed]
      have records : step overflow { config.state with
          handlers := update config.state.handlers k (.parsed name bytes message now) }
          (.record k) = Option.some ({ config.state with
            currentChallenge := recordAnswer name message now config.state.currentChallenge },
            .processed config.state.currentChallenge.id name bytes) := by
        rw [step]
        dsimp only
        rw [Function.update_self]
        dsimp only
        rw [Function.update_idem, ← ready, Function.update_eq_self]
      refine ⟨(config.push _ _ _).push _ _ _, .tail (.single (.run trivial reads))
        (.run trivial records), ?_⟩
      rw [Config.push_state, handleMessage, parsed]

/-- The steps of all of them: `handleMessages` is what the server does with the segments when
nothing comes between. -/
theorem AnswerServer.handle_messages_leads (overflow : Int → Int32)
    {config : Config AnswerServer Step Entry} {k : Nat} {name : Name}
    (ready : config.state.handlers k = .receiving name) (received : List (List UInt8 × Int))
    (fits : ∀ piece ∈ received, piece.1 ≠ [] ∧ piece.1.length < BUFFER_SIZE) :
    ∃ later, Library.Runs.Leads (step overflow) (fun _ _ => True) config later ∧
      later.state = { config.state with
        currentChallenge :=
          handleMessages overflow name config.state.currentChallenge received } := by
  induction received generalizing config with
  | nil => exact ⟨config, .refl, rfl⟩
  | cons first received ih =>
      obtain ⟨some, short⟩ := fits first List.mem_cons_self
      obtain ⟨middle, begins, state⟩ := handle_message_leads overflow ready first some short
      have stillReady : middle.state.handlers k = .receiving name := by
        rw [state]
        exact ready
      obtain ⟨later, goesOn, last⟩ := ih stillReady fun piece member =>
        fits piece (List.mem_cons_of_mem _ member)
      refine ⟨later, begins.trans goesOn, ?_⟩
      rw [last, state]
      rfl

/-! ## Lines -/

structure AnswerLine where
  cid : Int32
  answer : Int32
deriving DecidableEq

/-- `"%d %d\\n"`. -/
def AnswerLine.text (line : AnswerLine) : List UInt8 :=
  formatInt line.cid.toInt ++ (space :: (formatInt line.answer.toInt ++ [newline]))

def linesText (lines : List AnswerLine) : List UInt8 := lines.flatMap AnswerLine.text

/-- The answer of the last line with the tag. -/
def lastTagged (cid : Int32) (lines : List AnswerLine) : Option Int32 :=
  (lines.filter fun line => line.cid = cid).getLast?.map AnswerLine.answer

/-- The same where the value that marks an answer without a tag counts as a tag. -/
def lastAccepted (cid : Int32) (lines : List AnswerLine) : Option Int32 :=
  (lines.filter fun line => line.cid = cid ∨ line.cid = -1).getLast?.map AnswerLine.answer

theorem leading_line (line : AnswerLine) (rest : List UInt8) :
    leading (line.text ++ rest) = some (line.cid.toInt, some line.answer.toInt) := by
  have separates : ∀ sep, isDigit sep = false →
      ∀ more : List UInt8, ∀ c, (sep :: more).head? = some c → isDigit c = false := by
    intro sep other more c head
    rw [← Option.some.inj head]
    exact other
  rw [starts_with_two_iff]
  refine ⟨space :: (formatInt line.answer.toInt ++ newline :: rest), newline :: rest, ?_, ?_⟩
  · have first := @leads_format_int []
      (space :: (formatInt line.answer.toInt ++ newline :: rest))
      (fun _ absent => absurd absent List.not_mem_nil) line.cid.toInt
      (separates space (by decide) _)
    unfold AnswerLine.text
    simpa using first
  · exact @leads_format_int [space] (newline :: rest)
      (List.forall_mem_singleton.mpr (by decide)) line.answer.toInt
      (separates newline (by decide) rest)

theorem shown_lines (overflow : Int → Int32) (cid : Int32) (line : AnswerLine)
    (lines : List AnswerLine) :
    shown overflow cid (linesText (line :: lines)) =
      if line.cid = cid ∨ line.cid = -1 then some line.answer else none := by
  unfold shown linesText
  rw [List.flatMap_cons, leading_line, Option.bind_some, shownBy, stored_to_int, stored_to_int]

theorem last_shown_groups (overflow : Int → Int32) (cid : Int32) (groups : List (List AnswerLine))
    (nonempty : ∀ group ∈ groups, group ≠ []) :
    lastShown overflow cid (groups.map linesText) =
      lastAccepted cid (groups.filterMap List.head?) := by
  have same : (groups.map linesText).filterMap (shown overflow cid) =
      ((groups.filterMap List.head?).filter fun line => line.cid = cid ∨ line.cid = -1).map
        AnswerLine.answer := by
    induction groups with
    | nil => rfl
    | cons group groups ih =>
        have others := ih fun other member => nonempty other (List.mem_cons_of_mem _ member)
        cases group with
        | nil => exact absurd rfl (nonempty [] List.mem_cons_self)
        | cons line lines =>
            rw [List.map_cons, List.filterMap_cons, shown_lines, List.filterMap_cons,
              List.head?_cons]
            dsimp only
            rw [List.filter_cons]
            by_cases own : line.cid = cid ∨ line.cid = -1
            · rw [if_pos own, if_pos (decide_eq_true own), List.map_cons, others]
            · rw [if_neg own, if_neg (fun contrary => own (of_decide_eq_true contrary)), others]
  unfold lastShown lastAccepted
  rw [same, List.getLast?_map]

/-! ## Segments -/

/-- A way in which the bytes of the lines reach the handler, with the times of the calls. -/
structure Segmentation (lines : List AnswerLine) where
  received : List (List UInt8 × Int)
  nonempty : ∀ piece ∈ received, piece.1 ≠ []
  whole : (received.map Prod.fst).flatten = linesText lines

def Segmentation.pieces {lines : List AnswerLine} (segments : Segmentation lines) :
    List (List UInt8) :=
  segments.received.map Prod.fst

def recorded (overflow : Int → Int32) (name : Name) (challenge : ChallengeState)
    (received : List (List UInt8 × Int)) : Option Int32 :=
  (handleMessages overflow name challenge received).answers.lookup name

/-- The answer recorded is the one that lines that come one by one leave, and that of the last
line for the challenge. -/
def Tolerated (overflow : Int → Int32) (name : Name) (challenge : ChallengeState)
    {lines : List AnswerLine} (segments : Segmentation lines) : Prop :=
  ∀ separate : List (List UInt8 × Int), separate.map Prod.fst = lines.map AnswerLine.text →
    recorded overflow name challenge segments.received =
        recorded overflow name challenge separate ∧
      recorded overflow name challenge segments.received = lastTagged challenge.id lines

theorem recorded_eq (overflow : Int → Int32) {name : Name} {challenge : ChallengeState}
    (fresh : challenge.answers.lookup name = none) (received : List (List UInt8 × Int)) :
    recorded overflow name challenge received =
      lastShown overflow challenge.id (received.map Prod.fst) := by
  rw [recorded, handle_messages_lookup, fresh, Option.or_none]

/-- Lines that come one by one. -/
theorem recorded_separate (overflow : Int → Int32) {name : Name} {challenge : ChallengeState}
    (fresh : challenge.answers.lookup name = none) {lines : List AnswerLine}
    {separate : List (List UInt8 × Int)}
    (oneByOne : separate.map Prod.fst = lines.map AnswerLine.text) :
    recorded overflow name challenge separate = lastAccepted challenge.id lines := by
  have single : lines.map AnswerLine.text = (lines.map fun line => [line]).map linesText := by
    rw [List.map_map]
    apply List.map_congr_left
    intro line _
    exact (List.append_nil _).symm
  have heads : (lines.map fun line => [line]).filterMap List.head? = lines := by
    rw [List.filterMap_map]
    exact List.filterMap_some
  have nonempty : ∀ group ∈ lines.map fun line => [line], group ≠ [] := by
    intro group member
    obtain ⟨line, _, rfl⟩ := List.mem_map.mp member
    exact List.cons_ne_nil _ _
  rw [recorded_eq overflow fresh, oneByOne, single, last_shown_groups overflow _ _ nonempty, heads]

theorem tolerated_iff_last_shown (overflow : Int → Int32) {name : Name}
    {challenge : ChallengeState} (fresh : challenge.answers.lookup name = none)
    {lines : List AnswerLine} (segments : Segmentation lines) :
    Tolerated overflow name challenge segments ↔
      lastShown overflow challenge.id segments.pieces = lastTagged challenge.id lines ∧
        lastAccepted challenge.id lines = lastTagged challenge.id lines := by
  constructor
  · intro tolerated
    have oneByOne : (lines.map fun line => (line.text, (0 : Int))).map Prod.fst =
        lines.map AnswerLine.text := List.map_map
    obtain ⟨same, last⟩ := tolerated _ oneByOne
    rw [recorded_separate overflow fresh oneByOne] at same
    exact ⟨(recorded_eq overflow fresh segments.received).symm.trans last, same.symm.trans last⟩
  · rintro ⟨last, accepted⟩ separate oneByOne
    have own : recorded overflow name challenge segments.received =
        lastTagged challenge.id lines :=
      (recorded_eq overflow fresh segments.received).trans last
    exact ⟨own.trans (accepted.symm.trans (recorded_separate overflow fresh oneByOne).symm), own⟩

/-- Segmentation makes no difference exactly when the last piece whose first numbers are taken for
an answer to the challenge starts with the right one. Where no line is cut, these are the answers
of the lines that pieces start with. -/
theorem segmentation_tolerated_iff (overflow : Int → Int32) {name : Name}
    {challenge : ChallengeState} (fresh : challenge.answers.lookup name = none)
    {lines : List AnswerLine} (segments : Segmentation lines) :
    (Tolerated overflow name challenge segments ↔
      LastShows overflow challenge.id segments.pieces (lastTagged challenge.id lines) ∧
        lastAccepted challenge.id lines = lastTagged challenge.id lines) ∧
    ∀ groups : List (List AnswerLine), (∀ group ∈ groups, group ≠ []) →
      segments.pieces = groups.map linesText →
        (Tolerated overflow name challenge segments ↔
          lastAccepted challenge.id (groups.filterMap List.head?) = lastTagged challenge.id lines ∧
            lastAccepted challenge.id lines = lastTagged challenge.id lines) := by
  constructor
  · rw [← last_shown_eq_iff]
    exact tolerated_iff_last_shown overflow fresh segments
  · intro groups nonempty uncut
    rw [tolerated_iff_last_shown overflow fresh segments, uncut,
      last_shown_groups overflow _ groups nonempty]

/-- Two lines in a piece, and one that is cut before its end. -/
def sampleSegments : Segmentation [⟨1, 10⟩, ⟨2, 15⟩, ⟨2, 20⟩] where
  received := [([49, 32, 49, 48, 10, 50, 32, 49, 53, 10], 1000000),
    ([50, 32, 50, 48], 2000000), ([10], 3000000)]
  nonempty := by decide
  whole := by decide

theorem segmentation_tolerated_sample :
    Tolerated Int32.ofInt [97] ⟨2, 0, ∅, ∅⟩ sampleSegments := by
  apply (segmentation_tolerated_iff Int32.ofInt rfl sampleSegments).1.mpr
  rw [← last_shown_eq_iff]
  decide

/-- The answers to two challenges, sent one after the other, that one `recv` returns. -/
def coalescedSegments : Segmentation [⟨1, 10⟩, ⟨2, 20⟩] where
  received := [(linesText [⟨1, 10⟩, ⟨2, 20⟩], 1000000)]
  nonempty := by decide
  whole := List.append_nil _

theorem coalesced_answer_lost :
    recorded Int32.ofInt [97] ⟨2, 0, ∅, ∅⟩ coalescedSegments.received = none ∧
      ¬ Tolerated Int32.ofInt [97] ⟨2, 0, ∅, ∅⟩ coalescedSegments := by
  have lost : recorded Int32.ofInt [97] ⟨2, 0, ∅, ∅⟩ coalescedSegments.received = none := by
    decide
  refine ⟨lost, ?_⟩
  intro tolerated
  have last := (tolerated [([49, 32, 49, 48, 10], 0), ([50, 32, 50, 48, 10], 0)] (by decide)).2
  rw [lost] at last
  revert last
  decide

end Finm327.Hft2026
