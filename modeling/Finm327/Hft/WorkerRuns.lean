import Finm327.Hft.Handover

/-!
# Runs of the two threads

What holds in every run: each challenge that is handed over is parsed once and from its own
pointer, the trace is taken of what both threads have read in the buffer, and the buffer is
not refilled while the worker reads it. A parse that nobody asked for is started exactly
when the worker reads the 1 that the shutdown stores.
-/

namespace Finm327.Hft

open Finm327.Library.ReadLoops
open Finm327.Library.ReleaseAcquire
open Finm327.Library.Runs

namespace Threads

abbrev Run := Config Threads Move Notice

/-- The pointers with which challenges were handed over, in order. -/
def posted (config : Run) : List Nat := config.observations.filterMap Notice.postedAt

/-- The pointers from which the worker started to parse, in order. -/
def started (config : Run) : List (Option Nat) := config.observations.filterMap Notice.startedAt

theorem filter_map_concat {Value Other : Type} (f : Value → Option Other) (values : List Value)
    (value : Value) : (values ++ [value]).filterMap f = values.filterMap f ++ (f value).toList := by
  rw [List.filterMap_append]
  cases found : f value with
  | none => simp [found]
  | some other => simp [found]

theorem posted_push (config : Run) (move : Move) (threads : Threads) (notice : Notice) :
    posted (config.push move threads notice) = posted config ++ notice.postedAt.toList := by
  rw [posted, Config.push_observations, filter_map_concat]
  rfl

theorem started_push (config : Run) (move : Move) (threads : Threads) (notice : Notice) :
    started (config.push move threads notice) = started config ++ notice.startedAt.toList := by
  rw [started, Config.push_observations, filter_map_concat]
  rfl

/-- The worker's test of `work_state` does not read the 1 that the shutdown has stored. -/
def unlessWoken (config : Run) : Move → Prop
  | .test index =>
      config.state.main = .joining → index + 1 ≠ config.state.workState.stores.length
  | _ => True

instance (config : Run) : ∀ move, Decidable (unlessWoken config move)
  | .test index => inferInstanceAs (Decidable
      (config.state.main = .joining → index + 1 ≠ config.state.workState.stores.length))
  | .fill _ => .isTrue trivial
  | .hangUp _ => .isTrue trivial
  | .locate => .isTrue trivial
  | .publish => .isTrue trivial
  | .post => .isTrue trivial
  | .parseA => .isTrue trivial
  | .await _ => .isTrue trivial
  | .reset => .isTrue trivial
  | .trace => .isTrue trivial
  | .setExit => .isTrue trivial
  | .wake => .isTrue trivial
  | .join => .isTrue trivial
  | .check _ => .isTrue trivial
  | .take => .isTrue trivial
  | .parseB => .isTrue trivial
  | .complete => .isTrue trivial

/-- The main thread has not left its loop. -/
def beforeShutdown (config : Run) (_ : Move) : Prop :=
  config.state.main ≠ .exiting ∧ config.state.main ≠ .waking ∧ config.state.main ≠ .joining ∧
    config.state.main ≠ .stopped

instance (config : Run) (move : Move) : Decidable (beforeShutdown config move) :=
  inferInstanceAs (Decidable (_ ∧ _ ∧ _ ∧ _))

variable {task : Task} {recvbuf : List UInt8}

theorem reachable_sound {config : Run}
    (reached : Reachable (step task) unlessWoken (initial recvbuf) config) :
    Sound task config.state (posted config) (started config) := by
  refine reachable_invariant
    (fun config => Sound task config.state (posted config) (started config))
    (initial_sound task recvbuf) ?_ reached
  intro config move next notice sound permitted ran
  rw [posted_push, started_push]
  apply step_sound sound _ ran
  rintro index rfl joining
  exact permitted joining

theorem unless_woken_of_before {config : Run} {move : Move} (before : beforeShutdown config move) :
    unlessWoken config move := by
  cases move with
  | test index => exact fun joining => absurd joining before.2.2.1
  | _ => trivial

/-- The worker has started to parse, in order and each once, the challenges handed to it,
from the pointers they were handed over with, except perhaps the last one; and when the
main thread does not wait for it, it has parsed all of them. -/
structure ParsedOnce (config : Run) : Prop where
  inOrder : started config = (posted config).map some ∨
    ∃ q, (posted config).map some = started config ++ [some q] ∧ config.state.workerP = some q
  complete : config.state.main.owns = true →
    started config = (posted config).map some ∧ config.state.Quiet

theorem parsed_once_of_sound {config : Run}
    (sound : Sound task config.state (posted config) (started config)) : ParsedOnce config := by
  constructor
  · cases sound.turn with
    | mine _ balanced => exact .inl balanced
    | handed waiting apart stage =>
        obtain ⟨_, q, _, _, _, _, pointer, _⟩ := waiting
        cases stage with
        | offered _ _ _ _ _ behind =>
            rw [pointer] at behind
            exact .inr ⟨q, behind, pointer⟩
        | taking _ _ _ behind =>
            rw [pointer] at behind
            exact .inr ⟨q, behind, pointer⟩
        | reading _ _ _ _ _ _ balanced => exact .inl balanced
        | done _ _ _ _ _ _ _ balanced => exact .inl balanced
    | finished _ _ _ _ _ balanced => exact .inl balanced
  · intro owns
    obtain ⟨mine, balanced⟩ := mine_of_main sound.turn rfl owns
    exact ⟨balanced, mine.quiet⟩

/-- In every interleaving, whatever older values the loads return: no variable is raced on,
each challenge handed over is parsed once from its own pointer, the trace is taken only when
both threads have read their texts in the buffer, and the buffer is not filled while the
worker uses it. -/
theorem handshake_kept {config : Run}
    (reached : Reachable (step task) beforeShutdown (initial recvbuf) config) :
    ¬ config.state.accesses.raced ∧ ParsedOnce config ∧
      (config.state.main = .tracing → Loaded task config.state) ∧
      (config.state.main = .receiving → config.state.Quiet) := by
  have sound := reachable_sound (reachable_mono (fun _ _ => unless_woken_of_before) reached)
  refine ⟨sound.fine, parsed_once_of_sound sound, ?_, ?_⟩
  · intro tracing
    obtain ⟨mine, _⟩ := mine_of_main sound.turn tracing rfl
    have ready := mine.ready
    unfold Ready at ready
    rw [tracing] at ready
    exact ready
  · intro receiving
    obtain ⟨mine, _⟩ := mine_of_main sound.turn receiving rfl
    exact mine.quiet

/-- Matrices of one entry, and their product as the answer. -/
def sampleTask : Task :=
  ⟨1, id, fun _ _ _ _ same => same, .scalar, fun A B => formatInt ((A 0).toInt * (B 0).toInt)⟩

/-- A round for the challenge with the entries 5 and 7, in which some loads return old
values. -/
def sampleMoves : List Move :=
  [.test 0, .fill [49, 10, 49, 10, 53, 32, 10, 55, 32, 10], .locate, .publish, .check 0, .post,
    .test 0, .parseA, .check 0, .test 1, .await 1, .take, .parseB, .await 1, .complete, .await 2,
    .reset]

/-! ## The shutdown -/

/-- The worker has started only parses it was asked for, and when it is about to start one
the pointer it will read was published for a challenge that it has not parsed. -/
structure CleanStarts (config : Run) : Prop where
  past : started config <+: (posted config).map some
  next : config.state.worker = .taking → ∃ q, config.state.workerP = some q ∧
    (posted config).map some = started config ++ [some q]

theorem clean_starts_of_sound {config : Run}
    (sound : Sound task config.state (posted config) (started config)) : CleanStarts config := by
  constructor
  · rcases (parsed_once_of_sound sound).inOrder with balanced | ⟨q, behind, _⟩
    · exact balanced ▸ List.prefix_rfl
    · exact behind ▸ List.prefix_append _ _
  · intro woken
    obtain ⟨waiting, _, _, _, place⟩ := stage_of_worker sound.turn (by simp [Quiet, woken])
    obtain ⟨_, q, _, _, _, _, pointer, _⟩ := waiting
    rcases place with ⟨_, behind⟩ | ⟨p, t, parsing, _⟩
    · exact ⟨q, pointer, pointer ▸ behind⟩
    · rw [woken] at parsing
      cases parsing

/-- Once the shutdown has stored its 1, that is the last store, and every challenge handed
over is parsed. -/
theorem finished_of_joining {threads : Threads} {posted : List Nat}
    {started : List (Option Nat)} (turn : Turn task threads posted started)
    (joining : threads.main = .joining) :
    started = posted.map some ∧
      ∃ published, threads.workState.stores.getLast? = some ⟨1, published⟩ := by
  cases turn with
  | mine mine =>
      have ready := mine.ready
      unfold Ready at ready
      rw [joining] at ready
      exact ready.elim
  | handed waiting =>
      obtain ⟨_, _, p, i, parsing, _⟩ := waiting
      rw [joining] at parsing
      cases parsing
  | finished _ _ published _ woken balanced => exact ⟨balanced, published, woken⟩

/-- Reading the 1 of the shutdown takes the worker out of its loop with nothing to parse. -/
theorem woken_starts {config : Run}
    (sound : Sound task config.state (posted config) (started config)) {move : Move}
    (woken : ¬ unlessWoken config move) {next : Threads} {notice : Notice}
    (ran : step task config.state move = some (next, notice)) :
    ¬ CleanStarts (config.push move next notice) := by
  intro clean
  cases step_effect ran with
  | @test index read workState idle loaded =>
      obtain ⟨joining, notLast⟩ := Classical.not_imp.mp woken
      have last : index + 1 = config.state.workState.stores.length := Decidable.not_not.mp notLast
      obtain ⟨_, found, _⟩ := Atomic.load_eq_some loaded
      obtain ⟨balanced, published, ended⟩ := finished_of_joining sound.turn joining
      have one : read.value = 1 := by
        rw [List.getLast?_eq_getElem?, ← last, Nat.add_sub_cancel, found, Option.some.injEq] at ended
        rw [ended]
      obtain ⟨q, _, behind⟩ := clean.next (if_pos one)
      rw [posted_push, started_push, Notice.postedAt, Notice.startedAt, balanced] at behind
      · have lengths := congrArg List.length behind
        simp at lengths
      · simp
      · simp
  | _ => exact woken trivial

/-- In every run, closed before the first challenge or after any number of them, the worker
starts only parses it was asked for as long as no test of `work_state` reads the 1 of the
shutdown, and the first test that does starts one that it was not asked for. -/
theorem clean_shutdown {config : Run}
    (reached : Reachable (step task) unlessWoken (initial recvbuf) config) :
    CleanStarts config ∧ ∀ move next notice, step task config.state move = some (next, notice) →
      (CleanStarts (config.push move next notice) ↔ unlessWoken config move) := by
  have sound := reachable_sound reached
  refine ⟨clean_starts_of_sound sound, ?_⟩
  intro move next notice ran
  constructor
  · intro clean
    exact Decidable.byContradiction fun woken => woken_starts sound woken ran clean
  · intro permitted
    exact clean_starts_of_sound (reachable_sound (reached.tail (.run permitted ran)))

theorem clean_shutdown_sample :
    ∃ config : Run, Reachable (step sampleTask) unlessWoken
        (initial (List.replicate 16 0)) config ∧
      config.state.main = .stopped ∧ posted config = [7] ∧ CleanStarts config ∧
      ∀ move next notice, step sampleTask config.state move = some (next, notice) →
        (CleanStarts (config.push move next notice) ↔ unlessWoken config move) := by
  have completes : (execute (step sampleTask) unlessWoken
      (.start (initial (List.replicate 16 0)))
      (sampleMoves ++ [.trace, .test 3, .hangUp [], .setExit, .check 1, .wake, .join])).any
      (fun config => decide (config.state.main = .stopped ∧ posted config = [7])) = true := by
    decide
  obtain ⟨config, reached, stopped, pointers⟩ := reachable_of_execute_any completes
  exact ⟨config, reached, stopped, pointers, clean_shutdown reached⟩

/-- The connection is closed before the first challenge, and the worker tests `work_state`
only after both stores of the shutdown: it is about to read through the null pointer. -/
theorem null_pointer_taken :
    ∃ config : Run, Reachable (step sampleTask) (fun _ _ => True)
        (initial (List.replicate 16 0)) config ∧
      config.state.worker = .taking ∧ config.state.workerP = none ∧ ¬ CleanStarts config := by
  have completes : (execute (step sampleTask) (fun _ _ => True)
      (.start (initial (List.replicate 16 0))) [.hangUp [], .setExit, .wake, .test 1]).any
      (fun config => decide (config.state.worker = .taking ∧ config.state.workerP = none)) =
        true := by
    decide
  obtain ⟨config, reached, woken, null⟩ := reachable_of_execute_any completes
  refine ⟨config, reached, woken, null, fun clean => ?_⟩
  obtain ⟨q, pointer, _⟩ := clean.next woken
  rw [null] at pointer
  cases pointer

end Threads

end Finm327.Hft
