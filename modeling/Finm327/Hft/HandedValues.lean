import Finm327.Hft.WorkerRuns
import Finm327.Hft.ChallengeId
import Finm327.Hft.Receive
import Finm327.Hft.Stream

/-!
# The values that are handed over

What the two threads of the fast client read is what the challenge says when its id has at
most three digits: the header is then read as it was written, and both texts are found.
With a fourth digit the handshake is the same and the values are others.
-/

namespace Finm327.Hft

open Finm327.Library.DecimalText
open Finm327.Library.ReadLoops
open Finm327.Library.ReleaseAcquire
open Finm327.Library.Runs

namespace Threads

theorem slot_B_injective (s t : Nat) (sInside : s < N * N) (tInside : t < N * N)
    (same : slotB s = slotB t) : s = t := by
  rw [← slot_B_slot_B sInside, same, slot_B_slot_B tInside]

def fastClient (tier : Tier) : Task :=
  ⟨N * N, slotB, slot_B_injective, tier, fun A B => formatInt (reduceMod (traceABT tier A B).toInt)⟩

/-! ## The last bytes received -/

def receivedBy : Move → Option (List UInt8)
  | .fill bytes => some bytes
  | .hangUp bytes => some bytes
  | _ => none

/-- What was last received into the buffer. -/
def lastReceived (config : Run) : Option (List UInt8) :=
  (config.ops.filterMap receivedBy).getLast?

theorem last_received_push (config : Run) (move : Move) (threads : Threads) (notice : Notice) :
    lastReceived (config.push move threads notice) =
      (receivedBy move).or (lastReceived config) := by
  rw [lastReceived, Config.push_ops, filter_map_concat]
  cases receivedBy move with
  | none => rw [Option.toList_none, List.append_nil, Option.none_or, lastReceived]
  | some bytes => rw [Option.toList_some, List.getLast?_concat, Option.some_or]

/-- The buffer starts with what was last received, and before that nothing is parsed. -/
def InBuffer (config : Run) : Prop :=
  match lastReceived config with
  | none => config.state.main = .receiving
  | some bytes => bytes <+: config.state.recvbuf

theorem in_buffer_push {task : Task} {config : Run} (inBuffer : InBuffer config) {move : Move}
    {next : Threads} {notice : Notice}
    (ran : step task config.state move = some (next, notice)) :
    InBuffer (config.push move next notice) := by
  unfold InBuffer at inBuffer ⊢
  rw [last_received_push, Config.push_state]
  have others : config.state.recvbuf = next.recvbuf →
      (config.state.main = .receiving → next.main = .receiving) →
      match lastReceived config with
      | none => next.main = .receiving
      | some bytes => bytes <+: next.recvbuf := by
    intro buffer main
    cases last : lastReceived config with
    | none =>
        rw [last] at inBuffer
        exact main inBuffer
    | some bytes =>
        rw [last] at inBuffer
        exact buffer ▸ inBuffer
  cases step_effect ran with
  | fill => exact List.prefix_append _ _
  | hangUp => exact List.prefix_append _ _
  | test => exact others rfl id
  | check => exact others rfl id
  | take => exact others rfl id
  | parseB => exact others rfl id
  | complete => exact others rfl id
  | trace => exact others rfl fun _ => rfl
  | _ => exact others rfl fun idle => by simp_all

variable {task : Task} {tier : Tier} {recvbuf : List UInt8}

theorem in_buffer {config : Run}
    (reached : Reachable (step task) beforeShutdown (initial recvbuf) config) :
    InBuffer config :=
  reachable_invariant InBuffer (show (initial recvbuf).main = .receiving from rfl)
    (fun _ _ _ _ inBuffer _ ran => in_buffer_push inBuffer ran) reached

/-- The matrices of the challenge, `B` transposed. -/
structure Holds (threads : Threads) (challenge : Challenge) : Prop where
  A : ∀ i k : Fin MATRIX_SIZE, threads.A (i * N + k) = Int32.ofNat (challenge.A i k)
  B : ∀ i k : Fin MATRIX_SIZE, threads.B (i * N + k) = Int32.ofNat (challenge.B k i)

/-! ## What both threads read -/

theorem loaded_values {threads : Threads} {p q : Nat} {vsA vsB : List Int32}
    {restA restB : List UInt8} (loaded : Loaded task threads)
    (located : locate task.tier threads.recvbuf = some (p, q))
    (readsA : Reads parseIntS1 (threads.recvbuf.drop p) vsA restA) (manyA : vsA.length = task.cells)
    (readsB : Reads parseIntS1 (threads.recvbuf.drop q) vsB restB)
    (manyB : vsB.length = task.cells) :
    (∀ t v, vsA[t]? = some v → threads.A t = v) ∧
      ∀ t v, vsB[t]? = some v → threads.B (task.slot t) = v := by
  obtain ⟨_, _, _, _, located', ⟨va, ranA, countA, entriesA⟩, ⟨vb, ranB, countB, entriesB⟩⟩ :=
    loaded
  rw [located, Option.some.injEq, Prod.mk.injEq] at located'
  obtain ⟨rfl, rfl⟩ := located'
  rw [readsA.unique ranA (manyA.trans countA.symm), readsB.unique ranB (manyB.trans countB.symm)]
  exact ⟨entriesA, entriesB⟩

/-- The texts of the two matrices are found in the text of a challenge. -/
theorem locate_challenge (tier : Tier) {challenge : Challenge} (short : challenge.cid < 1000)
    (stale : List UInt8) :
    ∃ p q, locate tier (challenge.text ++ stale) = some (p, q) ∧
      (challenge.text ++ stale).drop p = valuesText (values challenge.A) ++
        newline :: (valuesText (values challenge.B) ++ newline :: stale) ∧
      (challenge.text ++ stale).drop q = valuesText (values challenge.B) ++ newline :: stale := by
  have text : challenge.text ++ stale = _ := payload_eq challenge.cid challenge.A challenge.B stale
  have header := parse_int_s1_number short newline_separates
    (show decimal MATRIX_SIZE ++ newline :: (valuesText (values challenge.A) ++ newline ::
      (valuesText (values challenge.B) ++ newline :: stale)) ≠ [] from
      List.append_ne_nil_of_right_ne_nil _ (List.cons_ne_nil _ _))
  have size := parse_int_s1_number (show MATRIX_SIZE < 1000 by decide) newline_separates
    (show valuesText (values challenge.A) ++ newline :: (valuesText (values challenge.B) ++
      newline :: stale) ≠ [] from List.append_ne_nil_of_right_ne_nil _ (List.cons_ne_nil _ _))
  have room : 64 ≤ (valuesText (values challenge.B) ++ newline :: stale).length := by
    have long := values_text_length (values challenge.B)
    rw [length_values] at long
    unfold N at long
    rw [List.length_append]
    omega
  have scan := find_newline_spec tier (values_text_without (values challenge.A)) room
  have afterHeader := parse_int_s1_suffix header
  have afterSize := (parse_int_s1_suffix size).trans afterHeader
  have afterA := (List.suffix_append (valuesText (values challenge.A)) (newline ::
    (valuesText (values challenge.B) ++ newline :: stale))).trans afterSize
  rw [← text] at header afterSize afterA
  refine ⟨position (challenge.text ++ stale) (valuesText (values challenge.A) ++ newline ::
      (valuesText (values challenge.B) ++ newline :: stale)),
    position (challenge.text ++ stale) (newline :: (valuesText (values challenge.B) ++
      newline :: stale)) + 1, ?_, drop_position afterSize, ?_⟩
  · rw [locate, header, Option.bind_eq_bind, Option.bind_some]
    dsimp only
    rw [size, Option.bind_eq_bind, Option.bind_some]
    dsimp only
    rw [scan]
    rfl
  · rw [← List.drop_drop, drop_position afterA]
    rfl

/-- Both threads have read the challenge with which the buffer starts. -/
theorem loaded_entries {threads : Threads} {challenge : Challenge} (short : challenge.cid < 1000)
    (received : challenge.text <+: threads.recvbuf)
    (loaded : Loaded (fastClient tier) threads) {j : Nat} (inside : j < N * N) :
    threads.A j = Int32.ofNat (entry challenge.A j) ∧
      threads.B j = Int32.ofNat (entry challenge.B (slotB j)) := by
  obtain ⟨stale, buffer⟩ := received
  obtain ⟨p, q, located, textA, textB⟩ := locate_challenge tier short stale
  rw [buffer] at located textA textB
  have many := length_map_values Int32.ofNat
  have readsA := reads_values (values_short challenge.A) (List.cons_ne_nil newline
    (valuesText (values challenge.B) ++ newline :: stale))
  have readsB := reads_values (values_short challenge.B) (List.cons_ne_nil newline stale)
  rw [← textA] at readsA
  rw [← textB] at readsB
  obtain ⟨entriesA, entriesB⟩ := loaded_values loaded located readsA (many challenge.A) readsB
    (many challenge.B)
  have stored := entriesB (slotB j) _ (map_values_get _ (slot_B_lt inside))
  rw [show (fastClient tier).slot = slotB from rfl, slot_B_slot_B inside] at stored
  exact ⟨entriesA j _ (map_values_get _ inside), stored⟩

theorem loaded_holds {threads : Threads} {challenge : Challenge} (short : challenge.cid < 1000)
    (received : challenge.text <+: threads.recvbuf)
    (loaded : Loaded (fastClient tier) threads) : Holds threads challenge := by
  have inside : ∀ i k : Fin MATRIX_SIZE, (i * N + k : Nat) < N * N := by
    intro i k
    have row := i.isLt
    have column := k.isLt
    unfold MATRIX_SIZE at row column
    unfold N
    omega
  constructor
  · intro i k
    rw [(loaded_entries short received loaded (inside i k)).1]
    exact congrArg Int32.ofNat (entry_eq challenge.A i k)
  · intro i k
    rw [(loaded_entries short received loaded (inside i k)).2, slot_B_eq k.isLt]
    exact congrArg Int32.ofNat (entry_eq challenge.B k i)

/-- What the main thread sends for such a challenge is what it asks for. -/
theorem loaded_answer {threads : Threads} {challenge : Challenge} (short : challenge.cid < 1000)
    (received : challenge.text <+: threads.recvbuf)
    (loaded : Loaded (fastClient tier) threads) :
    (fastClient tier).answer threads.A threads.B =
      decimal (traceProduct challenge.A challenge.B % MODULO) := by
  have answer : (fastClient tier).answer threads.A threads.B =
      formatInt (reduceMod (traceABT tier threads.A threads.B).toInt) := rfl
  rw [answer, @trace_of_entries tier challenge.A challenge.B, format_reduce_nat]
  · exact fun j inside => (loaded_entries short received loaded inside).1
  · exact fun j inside => (loaded_entries short received loaded inside).2

/-- When the trace is taken, both matrices are those of the challenge with which the bytes
last received start, and what is sent is its answer. -/
def TracesCurrent (tier : Tier) (config : Run) : Prop :=
  ∃ bytes, lastReceived config = some bytes ∧ ∀ challenge : Challenge, challenge.cid ≤ 999 →
    challenge.text <+: bytes → Holds config.state challenge ∧
      (fastClient tier).answer config.state.A config.state.B =
        decimal (traceProduct challenge.A challenge.B % MODULO)

/-- In every interleaving, over any number of challenges and whatever older values the loads
return: no variable is raced on, each challenge handed over is parsed once from its own
pointer, the trace is taken of the values of the current challenge when its id has at most
three digits, and the buffer is not filled while the worker uses it. -/
theorem handshake_delivers {config : Run}
    (reached : Reachable (step (fastClient tier)) beforeShutdown (initial recvbuf) config) :
    ¬ config.state.accesses.raced ∧ ParsedOnce config ∧
      (config.state.main = .tracing → TracesCurrent tier config) ∧
      (config.state.main = .receiving → config.state.Quiet) := by
  obtain ⟨fine, once, loaded, quiet⟩ := handshake_kept reached
  refine ⟨fine, once, ?_, quiet⟩
  intro tracing
  have inBuffer := in_buffer reached
  unfold InBuffer at inBuffer
  cases last : lastReceived config with
  | none =>
      rw [last, tracing] at inBuffer
      cases inBuffer
  | some bytes =>
      rw [last] at inBuffer
      refine ⟨bytes, last, ?_⟩
      intro challenge short received
      have whole := received.trans inBuffer
      exact ⟨loaded_holds (by omega) whole (loaded tracing),
        loaded_answer (by omega) whole (loaded tracing)⟩

/-! ## A whole round -/

/-- Some run has last received `bytes` and is now in this state. -/
def Reaches (task : Task) (recvbuf bytes : List UInt8) (threads : Threads) : Prop :=
  ∃ config : Run, Reachable (step task) beforeShutdown (initial recvbuf) config ∧
    lastReceived config = some bytes ∧ config.state = threads

section Rounds

variable {bytes : List UInt8} {threads next : Threads}

theorem Reaches.move (reaches : Reaches task recvbuf bytes threads) {move : Move} {notice : Notice}
    (others : receivedBy move = none)
    (before : threads.main ≠ .exiting ∧ threads.main ≠ .waking ∧ threads.main ≠ .joining ∧
      threads.main ≠ .stopped)
    (ran : step task threads move = some (next, notice)) : Reaches task recvbuf bytes next := by
  obtain ⟨config, reached, received, rfl⟩ := reaches
  refine ⟨config.push move next notice, reached.tail (.run before ran), ?_, rfl⟩
  rw [last_received_push, others, Option.none_or, received]

theorem Reaches.parse_A {p i : Nat} {vs : List Int32} {text rest : List UInt8}
    (reads : Reads parseIntS1 text vs rest) (reaches : Reaches task recvbuf bytes threads)
    (parsing : threads.main = .parsing p i) (here : threads.recvbuf.drop p = text)
    (more : i + vs.length ≤ task.cells) :
    ∃ q A accesses, Reaches task recvbuf bytes { threads with
      main := .parsing q (i + vs.length), A := A, accesses := accesses } := by
  induction reads generalizing threads p i with
  | done text =>
      refine ⟨p, threads.A, threads.accesses, ?_⟩
      rw [List.length_nil, Nat.add_zero, ← parsing]
      exact reaches
  | @one text after rest v vs head _ ih =>
      rw [List.length_cons] at more
      have suffix := (parse_int_s1_suffix head).trans (here ▸ List.drop_suffix p threads.recvbuf)
      have ran : step task threads .parseA = some ({ threads with
          main := .parsing (position threads.recvbuf after) (i + 1)
          A := Function.update threads.A i v
          accesses := (threads.accesses.access .read .main .recvbuf).access
            .write .main .A }, .silent) := by
        simp only [step, parsing, here, head]
        rw [if_pos (by omega)]
      have moved := reaches.move rfl (by simp [parsing]) ran
      obtain ⟨q, A, accesses, later⟩ := ih moved rfl (drop_position suffix) (by omega)
      exact ⟨q, A, accesses, by rwa [List.length_cons, Nat.add_comm vs.length, ← Nat.add_assoc]⟩

theorem Reaches.parse_B {p t : Nat} {vs : List Int32} {text rest : List UInt8}
    (reads : Reads parseIntS1 text vs rest) (reaches : Reaches task recvbuf bytes threads)
    (before : threads.main ≠ .exiting ∧ threads.main ≠ .waking ∧ threads.main ≠ .joining ∧
      threads.main ≠ .stopped)
    (parsing : threads.worker = .parsing (some p) t) (here : threads.recvbuf.drop p = text)
    (more : t + vs.length ≤ task.cells) :
    ∃ q B accesses, Reaches task recvbuf bytes { threads with
      worker := .parsing (some q) (t + vs.length), B := B, accesses := accesses } := by
  induction reads generalizing threads p t with
  | done text =>
      refine ⟨p, threads.B, threads.accesses, ?_⟩
      rw [List.length_nil, Nat.add_zero, ← parsing]
      exact reaches
  | @one text after rest v vs head _ ih =>
      rw [List.length_cons] at more
      have suffix := (parse_int_s1_suffix head).trans (here ▸ List.drop_suffix p threads.recvbuf)
      have ran : step task threads .parseB = some ({ threads with
          worker := .parsing (some (position threads.recvbuf after)) (t + 1)
          B := Function.update threads.B (task.slot t) v
          accesses := (threads.accesses.access .read .worker .recvbuf).access
            .write .worker .B }, .silent) := by
        simp only [step, parsing, here, head]
        rw [if_pos (by omega)]
      have moved := reaches.move rfl before ran
      obtain ⟨q, B, accesses, later⟩ := ih moved before rfl (drop_position suffix) (by omega)
      exact ⟨q, B, accesses, by rwa [List.length_cons, Nat.add_comm vs.length, ← Nat.add_assoc]⟩

/-- The worker reads all of `B` before the main thread reads `A`. -/
theorem tracing_reached {p q : Nat} {vsA vsB : List Int32} {restA restB : List UInt8}
    (more : bytes ≠ []) (room : bytes.length < recvbuf.length)
    (located : locate task.tier (received bytes recvbuf) = some (p, q))
    (readsA : Reads parseIntS1 ((received bytes recvbuf).drop p) vsA restA)
    (manyA : vsA.length = task.cells)
    (readsB : Reads parseIntS1 ((received bytes recvbuf).drop q) vsB restB)
    (manyB : vsB.length = task.cells) :
    ∃ threads, Reaches task recvbuf bytes threads ∧ threads.main = .tracing := by
  obtain ⟨accesses, filled⟩ : ∃ accesses, Reaches task recvbuf bytes ⟨.locating, .testing, .make 0,
      .make false, accesses, none, received bytes recvbuf, fun _ => 0, fun _ => 0⟩ := by
    refine ⟨Accesses.none.access .write .main .recvbuf,
      (Config.start (initial recvbuf)).push (.fill bytes) _ .silent,
      reachable_start.tail (.run (by simp [beforeShutdown, initial]) ?_), rfl, rfl⟩
    exact if_pos ⟨rfl, more, room⟩
  obtain ⟨accesses, placed⟩ : ∃ accesses, Reaches task recvbuf bytes ⟨.publishing p q, .testing,
      .make 0, .make false, accesses, none, received bytes recvbuf, fun _ => 0, fun _ => 0⟩ := by
    refine ⟨accesses.access .read .main .recvbuf,
      @Reaches.move _ _ _ _ _ filled .locate .silent rfl (by simp) ?_⟩
    simp only [step, located]
  obtain ⟨accesses, published⟩ : ∃ accesses, Reaches task recvbuf bytes ⟨.posting p q, .testing,
      .make 0, .make false, accesses, some q, received bytes recvbuf, fun _ => 0, fun _ => 0⟩ :=
    ⟨_, @Reaches.move _ _ _ _ _ placed .publish .silent rfl (by simp) rfl⟩
  obtain ⟨clock, accesses, offered⟩ : ∃ clock accesses, Reaches task recvbuf bytes ⟨.parsing p 0,
      .testing, (Atomic.make 0).store .main 1 clock, .make false, accesses, some q,
      received bytes recvbuf, fun _ => 0, fun _ => 0⟩ :=
    ⟨_, _, @Reaches.move _ _ _ _ _ published .post (.posted q) rfl (by simp) rfl⟩
  obtain ⟨accesses, taken⟩ : ∃ accesses, Reaches task recvbuf bytes ⟨.parsing p 0,
      .parsing (some q) 0, ⟨[⟨0, Clock.nothing⟩, ⟨1, clock⟩], Function.update (Function.update
        (fun _ => 0) .main 1) .worker 1⟩, .make false, accesses, some q,
      received bytes recvbuf, fun _ => 0, fun _ => 0⟩ := by
    have woken := @Reaches.move _ _ _ _ _ offered (.test 1) .silent rfl (by simp) rfl
    exact ⟨_, @Reaches.move _ _ _ _ _ woken .take (.started (some q)) rfl (by simp) rfl⟩
  obtain ⟨endB, B, accesses, parsedB⟩ := Reaches.parse_B readsB taken (by simp) rfl rfl
    (by rw [manyB, Nat.zero_add])
  rw [manyB, Nat.zero_add] at parsedB
  obtain ⟨last, completed⟩ : ∃ last, Reaches task recvbuf bytes ⟨.parsing p 0, .testing,
      ⟨[⟨0, Clock.nothing⟩, ⟨1, clock⟩, ⟨2, last⟩], Function.update (Function.update
        (Function.update (fun _ => 0) .main 1) .worker 1) .worker 2⟩, .make false, accesses, some q,
      received bytes recvbuf, fun _ => 0, B⟩ :=
    ⟨_, @Reaches.move _ _ _ _ _ parsedB .complete .silent rfl (by simp) (if_pos rfl)⟩
  obtain ⟨endA, A, accesses, parsedA⟩ := Reaches.parse_A readsA completed rfl rfl
    (by rw [manyA, Nat.zero_add])
  rw [manyA, Nat.zero_add] at parsedA
  have seen := @Reaches.move _ _ _ _ _ parsedA (.await 2) .silent rfl (by simp) (if_pos rfl)
  exact ⟨_, @Reaches.move _ _ _ _ _ seen .reset .silent rfl (by simp) rfl, rfl⟩

end Rounds

theorem text_fits (challenge : Challenge) :
    challenge.text.length < (List.replicate PAYLOAD_MAX (0 : UInt8)).length := by
  rw [List.length_replicate]
  exact lt_of_le_of_lt (length_text_le challenge) (by decide)

theorem text_ne_nil (challenge : Challenge) : challenge.text ≠ [] := by
  rw [text_eq]
  exact List.append_ne_nil_of_right_ne_nil _ (List.cons_ne_nil _ _)

/-- The fast client with an empty buffer gets to the trace of a challenge with a short id. -/
theorem short_round (tier : Tier) {challenge : Challenge} (short : challenge.cid < 1000) :
    ∃ threads, Reaches (fastClient tier) (List.replicate PAYLOAD_MAX 0) challenge.text threads ∧
      threads.main = .tracing := by
  obtain ⟨p, q, located, textA, textB⟩ := locate_challenge tier short
    ((List.replicate PAYLOAD_MAX 0).drop challenge.text.length)
  have many := length_map_values Int32.ofNat
  apply tracing_reached (text_ne_nil challenge) (text_fits challenge) located
  · rw [received, textA]
    exact reads_values (values_short challenge.A) (List.cons_ne_nil _ _)
  · exact many challenge.A
  · rw [received, textB]
    exact reads_values (values_short challenge.B) (List.cons_ne_nil _ _)
  · exact many challenge.B

def unitChallenge : Challenge := ⟨7, by decide, unitMat, unitMat⟩

theorem handshake_delivers_sample :
    ∃ config : Run, Reachable (step (fastClient .avx2)) beforeShutdown
        (initial (List.replicate PAYLOAD_MAX 0)) config ∧
      config.state.main = .tracing ∧
      lastReceived config = some unitChallenge.text ∧
      ¬ config.state.accesses.raced ∧ ParsedOnce config ∧ TracesCurrent .avx2 config := by
  obtain ⟨_, ⟨config, reached, last, rfl⟩, tracing⟩ :=
    @short_round .avx2 unitChallenge (by decide)
  obtain ⟨fine, once, traces, _⟩ := handshake_delivers reached
  exact ⟨config, reached, tracing, last, fine, once, traces tracing⟩

/-- The fourth digit is skipped as the separator and the newline behind it is read as part of
the size, so what is left of the header is the newline before `A`: the main thread starts
there, and the worker where `A` starts. -/
theorem locate_thousand (tier : Tier) (rest : List UInt8) :
    ∃ p q, locate tier (decimal 1000 ++ newline :: afterId rest) = some (p, q) ∧
      (decimal 1000 ++ newline :: afterId rest).drop p = newline :: unitText rest ∧
      (decimal 1000 ++ newline :: afterId rest).drop q = unitText rest := by
  have header : parseIntS1 (decimal 1000 ++ newline :: afterId rest) =
      some (100, newline :: afterId rest) :=
    parse_int_s1_three (show 100 ≤ 100 from le_rfl) (by omega) 48 _
  have size : parseIntS1 (newline :: afterId rest) = some (-3788, newline :: unitText rest) := rfl
  have scan : findNewline tier (newline :: unitText rest) = some (newline :: unitText rest) :=
    @find_newline_spec tier [] _ (by simp) (unit_text_length rest)
  have suffix := (parse_int_s1_suffix size).trans (parse_int_s1_suffix header)
  refine ⟨position (decimal 1000 ++ newline :: afterId rest) (newline :: unitText rest),
    position (decimal 1000 ++ newline :: afterId rest) (newline :: unitText rest) + 1, ?_,
    drop_position suffix, ?_⟩
  · rw [locate, header, Option.bind_eq_bind, Option.bind_some]
    dsimp only
    rw [size, Option.bind_eq_bind, Option.bind_some]
    dsimp only
    rw [scan]
    rfl
  · rw [← List.drop_drop, drop_position suffix]
    rfl

def thousand : Challenge := ⟨1000, by decide, unitMat, unitMat⟩

theorem thousand_text (stale : List UInt8) : thousand.text ++ stale = decimal 1000 ++ newline ::
    afterId (newline :: (valuesText (values unitMat) ++ newline :: stale)) := by
  have text : thousand.text ++ stale = _ := payload_eq 1000 unitMat unitMat stale
  rw [text, unit_text_eq]
  rfl

/-- What both threads read in a buffer that starts with this challenge. -/
theorem reads_thousand (tier : Tier) (stale : List UInt8) :
    ∃ p q restA restB, locate tier (thousand.text ++ stale) = some (p, q) ∧
      Reads parseIntS1 ((thousand.text ++ stale).drop p)
        (-379 :: List.replicate (N * N - 1) 0) restA ∧
      Reads parseIntS1 ((thousand.text ++ stale).drop q)
        (1 :: List.replicate (N * N - 1) 0) restB := by
  obtain ⟨p, q, located, textA, textB⟩ := locate_thousand tier
    (newline :: (valuesText (values unitMat) ++ newline :: stale))
  have more := List.cons_ne_nil newline (valuesText (values unitMat) ++ newline :: stale)
  obtain ⟨restA, readsA⟩ := reads_newline_unit more (show N * N - 1 ≤ N * N - 1 from le_rfl)
  obtain ⟨restB, readsB⟩ := reads_unit_row more (show N * N - 1 ≤ N * N - 1 from le_rfl)
  rw [thousand_text]
  refine ⟨p, q, restA, restB, located, ?_, ?_⟩
  · rw [textA]
    exact readsA
  · rw [textB]
    exact readsB

theorem length_first_entry (v : Int32) :
    (v :: List.replicate (N * N - 1) 0).length = N * N := by
  have size : N * N = 16384 := rfl
  rw [List.length_cons, List.length_replicate]
  omega

theorem thousand_round (tier : Tier) :
    ∃ threads, Reaches (fastClient tier) (List.replicate PAYLOAD_MAX 0) thousand.text threads ∧
      threads.main = .tracing := by
  obtain ⟨p, q, restA, restB, located, readsA, readsB⟩ := reads_thousand tier
    ((List.replicate PAYLOAD_MAX 0).drop thousand.text.length)
  apply tracing_reached (text_ne_nil thousand) (text_fits thousand) located
  · rw [received]
    exact readsA
  · exact length_first_entry _
  · rw [received]
    exact readsB
  · exact length_first_entry _

/-- The challenge with the id 1000 is handed over in the same way, and the trace is taken of
a matrix that does not start with the one that the challenge says. -/
theorem thousand_misread :
    ∃ config : Run, Reachable (step (fastClient .avx2)) beforeShutdown
        (initial (List.replicate PAYLOAD_MAX 0)) config ∧
      config.state.main = .tracing ∧ lastReceived config = some thousand.text ∧
      config.state.A 0 = -379 ∧ ¬ Holds config.state thousand := by
  obtain ⟨_, ⟨config, reached, last, rfl⟩, tracing⟩ := thousand_round .avx2
  have inBuffer := in_buffer reached
  unfold InBuffer at inBuffer
  rw [last] at inBuffer
  obtain ⟨stale, buffer⟩ := inBuffer
  obtain ⟨_, _, _, _, located, readsA, readsB⟩ := reads_thousand .avx2 stale
  rw [buffer] at located readsA readsB
  have wrong : config.state.A 0 = -379 :=
    (loaded_values ((handshake_kept reached).2.2.1 tracing) located readsA (length_first_entry _)
      readsB (length_first_entry _)).1 0 _ rfl
  refine ⟨config, reached, tracing, last, wrong, ?_⟩
  intro holds
  have first := holds.A ⟨0, by decide⟩ ⟨0, by decide⟩
  have one : Int32.ofNat (thousand.A ⟨0, by decide⟩ ⟨0, by decide⟩) = 1 := rfl
  rw [Nat.zero_mul, Nat.zero_add, wrong, one] at first
  exact absurd first (by decide)

end Threads

end Finm327.Hft
