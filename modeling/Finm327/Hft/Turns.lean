import Finm327.Hft.Handshake

/-!
# Whose turn it is

The value of `work_state` passes the shared variables back and forth. While the main
thread has them it knows every access of the worker and the worker cannot read a 1; from
the hand-over on the worker has been offered them, has taken them or is done with them.
Each move keeps this, whatever older stores the loads return.
-/

namespace Finm327.Hft

open Finm327.Library.ReadLoops
open Finm327.Library.ReleaseAcquire
open Function (update)

/-! ## The values in the buffer -/

/-- The first `n` values of the text are in their places, and `rest` follows them. -/
def Filled (n : Nat) (slot : Nat → Nat) (text : List UInt8) (array : Array32)
    (rest : List UInt8) : Prop :=
  ∃ vs, Reads parseIntS1 text vs rest ∧ vs.length = n ∧
    ∀ t v, vs[t]? = some v → array (slot t) = v

theorem filled_zero (slot : Nat → Nat) (text : List UInt8) (array : Array32) :
    Filled 0 slot text array text :=
  ⟨[], .done text, rfl, by simp⟩

theorem Filled.snoc {n : Nat} {slot : Nat → Nat} {text rest after : List UInt8} {array : Array32}
    (filled : Filled n slot text array rest) {v : Int32}
    (value : parseIntS1 rest = some (v, after)) (apart : ∀ t, t < n → slot t ≠ slot n) :
    Filled (n + 1) slot text (update array (slot n) v) after := by
  obtain ⟨vs, reads, length, places⟩ := filled
  refine ⟨vs ++ [v], reads.snoc value, ?_, ?_⟩
  · rw [List.length_append, List.length_singleton, length]
  · intro t w holds
    rcases Nat.lt_trichotomy t vs.length with before | last | past
    · rw [List.getElem?_append_left before] at holds
      rw [Function.update_of_ne (apart t (length ▸ before))]
      exact places t w holds
    · rw [last, List.getElem?_concat_length, Option.some.injEq] at holds
      rw [last, length, Function.update_self]
      exact holds
    · rw [List.getElem?_eq_none] at holds
      · cases holds
      · rw [List.length_append, List.length_singleton]
        exact past

theorem parse_int_s1_suffix {text rest : List UInt8} {v : Int32}
    (value : parseIntS1 text = some (v, rest)) : rest <:+ text := by
  match text with
  | c0 :: c1 :: c2 :: text =>
      rw [parseIntS1] at value
      split_ifs at value
      · cases value
        exact (List.suffix_cons c1 _).trans (List.suffix_cons c0 _)
      · cases value
        exact (List.suffix_cons c2 _).trans ((List.suffix_cons c1 _).trans (List.suffix_cons c0 _))
      · cases value
        exact (List.drop_suffix 1 text).trans ((List.suffix_cons c2 _).trans
          ((List.suffix_cons c1 _).trans (List.suffix_cons c0 _)))
  | [] => cases value
  | [_] => cases value
  | [_, _] => cases value

/-- Outside the wait and before the end of the shutdown the shared variables are the main
thread's. -/
def Main.owns : Main → Bool
  | .parsing _ _ => false
  | .joining => false
  | .stopped => false
  | _ => true

namespace Threads

theorem drop_position {recvbuf rest : List UInt8} (suffix : rest <:+ recvbuf) :
    recvbuf.drop (position recvbuf rest) = rest :=
  (List.suffix_iff_eq_drop.mp suffix).symm

/-- Both threads have read as many values as a matrix has: the main thread into `A` from where
it takes the header to end, and the worker into `B`, transposed, from behind the newline that
it takes for the one after `A`. -/
def Loaded (task : Task) (threads : Threads) : Prop :=
  ∃ p q restA restB, locate task.tier threads.recvbuf = some (p, q) ∧
    Filled task.cells id (threads.recvbuf.drop p) threads.A restA ∧
    Filled task.cells task.slot (threads.recvbuf.drop q) threads.B restB

/-! ## Who knows what -/

/-- Every access of the worker is within the clock. -/
def MainKnows (accesses : Accesses Thread Shared) (clock : Clock Thread) : Prop :=
  ∀ kind var, accesses.Within kind clock .worker var

/-- What the main thread did with the variables that it hands over is within the clock. -/
structure Handed (accesses : Accesses Thread Shared) (clock : Clock Thread) : Prop where
  workerP : accesses.Within .write clock .main .workerP
  recvbuf : accesses.Within .write clock .main .recvbuf
  B : ∀ kind, accesses.Within kind clock .main .B

/-- The worker leaves alone what the main thread uses while it waits. -/
structure Apart (accesses : Accesses Thread Shared) : Prop where
  recvbuf : accesses.Within .write (accesses.clock .main) .worker .recvbuf
  A : ∀ kind, accesses.Within kind (accesses.clock .main) .worker .A

variable {accesses : Accesses Thread Shared} {kind : Access} {var : Shared}
  {clock published : Clock Thread}

theorem MainKnows.access (knows : MainKnows accesses clock) :
    MainKnows (accesses.access kind .main var) clock := by
  intro earlier elsewhere
  rw [Accesses.within_access (.inl (by decide))]
  exact knows earlier elsewhere

theorem MainKnows.mono (knows : MainKnows accesses clock)
    (more : clock .worker ≤ published .worker) : MainKnows accesses published :=
  fun earlier elsewhere => (knows earlier elsewhere).mono more

theorem MainKnows.main_access (knows : MainKnows accesses (accesses.clock .main)) :
    MainKnows (accesses.access kind .main var) ((accesses.access kind .main var).clock .main) :=
  knows.access.mono (Accesses.clock_le_access _ _)

theorem MainKnows.not_raced (knows : MainKnows accesses (accesses.clock .main))
    (fine : ¬ accesses.raced) : ¬ (accesses.access kind .main var).raced := by
  apply Accesses.access_not_raced fine
  intro other earlier different _
  cases other with
  | main => exact absurd rfl different
  | worker => exact knows earlier var

theorem MainKnows.apart (knows : MainKnows accesses (accesses.clock .main)) : Apart accesses :=
  ⟨knows .write .recvbuf, fun kind => knows kind .A⟩

theorem Handed.mono (handed : Handed accesses clock) (more : clock .main ≤ published .main) :
    Handed accesses published :=
  ⟨handed.workerP.mono more, handed.recvbuf.mono more, fun kind => (handed.B kind).mono more⟩

theorem Handed.worker_access (handed : Handed accesses (accesses.clock .worker)) :
    Handed (accesses.access kind .worker var)
      ((accesses.access kind .worker var).clock .worker) := by
  have more : accesses.clock .worker .main ≤
      (accesses.access kind .worker var).clock .worker .main := Accesses.clock_le_access _ _
  constructor
  · rw [Accesses.within_access (.inl (by decide))]
    exact handed.workerP.mono more
  · rw [Accesses.within_access (.inl (by decide))]
    exact handed.recvbuf.mono more
  · intro earlier
    rw [Accesses.within_access (.inl (by decide))]
    exact (handed.B earlier).mono more

/-- Reading the buffer and writing `A` are no accesses that were handed over. -/
theorem Handed.parse_A (handed : Handed accesses clock) :
    Handed ((accesses.access .read .main .recvbuf).access .write .main .A) clock := by
  constructor
  · rw [Accesses.within_access (.inr (.inr (by decide))),
      Accesses.within_access (.inr (.inr (by decide)))]
    exact handed.workerP
  · rw [Accesses.within_access (.inr (.inr (by decide))),
      Accesses.within_access (.inr (.inl (by decide)))]
    exact handed.recvbuf
  · intro earlier
    rw [Accesses.within_access (.inr (.inr (by decide))),
      Accesses.within_access (.inr (.inr (by decide)))]
    exact handed.B earlier

theorem Apart.parse_A (apart : Apart accesses) :
    Apart ((accesses.access .read .main .recvbuf).access .write .main .A) := by
  have more : accesses.clock .main .worker ≤
      ((accesses.access .read .main .recvbuf).access .write .main .A).clock .main .worker :=
    Nat.le_trans (Accesses.clock_le_access _ _) (Accesses.clock_le_access _ _)
  constructor
  · rw [Accesses.within_access (.inl (by decide)), Accesses.within_access (.inl (by decide))]
    exact apart.recvbuf.mono more
  · intro earlier
    rw [Accesses.within_access (.inl (by decide)), Accesses.within_access (.inl (by decide))]
    exact (apart.A earlier).mono more

theorem Apart.not_raced (apart : Apart accesses) (fine : ¬ accesses.raced) :
    ¬ ((accesses.access .read .main .recvbuf).access .write .main .A).raced := by
  apply Accesses.access_not_raced
  · apply Accesses.access_not_raced fine
    intro other earlier different conflict
    cases other with
    | main => exact absurd rfl different
    | worker =>
        cases conflict with
        | inl contrary => cases contrary
        | inr write => exact write ▸ apart.recvbuf
  · intro other earlier different _
    cases other with
    | main => exact absurd rfl different
    | worker =>
        rw [Accesses.within_access (.inl (by decide))]
        exact (apart.A earlier).mono (Accesses.clock_le_access _ _)

/-- The worker only reads `worker_p` and the buffer, and writes only `B`. -/
theorem Apart.worker_access (apart : Apart accesses) (notA : var ≠ .A)
    (reads : kind = .write → var ≠ .recvbuf) : Apart (accesses.access kind .worker var) := by
  have same : (accesses.access kind .worker var).clock .main = accesses.clock .main :=
    Accesses.access_clock_of_ne (by decide)
  constructor
  · rw [same, Accesses.within_access]
    · exact apart.recvbuf
    · by_cases write : kind = .write
      · exact .inr (.inr (Ne.symm (reads write)))
      · exact .inr (.inl (Ne.symm write))
  · intro earlier
    rw [same, Accesses.within_access (.inr (.inr (Ne.symm notA)))]
    exact apart.A earlier

/-- An acquire load is no access. -/
theorem Handed.acquire (handed : Handed accesses clock) (thread : Thread) :
    Handed (accesses.acquire thread published) clock :=
  ⟨handed.workerP, handed.recvbuf, handed.B⟩

theorem Apart.main_acquire (apart : Apart accesses) : Apart (accesses.acquire .main published) :=
  ⟨apart.recvbuf.mono (Accesses.clock_le_acquire _ _),
    fun kind => (apart.A kind).mono (Accesses.clock_le_acquire _ _)⟩

theorem Handed.not_raced (handed : Handed accesses (accesses.clock .worker))
    (fine : ¬ accesses.raced)
    (allowed : kind = .read ∧ (var = .workerP ∨ var = .recvbuf) ∨ var = .B) :
    ¬ (accesses.access kind .worker var).raced := by
  apply Accesses.access_not_raced fine
  intro other earlier different conflict
  cases other with
  | worker => exact absurd rfl different
  | main =>
      rcases allowed with ⟨reads, own⟩ | own
      · have write : earlier = .write := by
          cases conflict with
          | inl contrary => rw [reads] at contrary; cases contrary
          | inr write => exact write
        rcases own with same | same
        · rw [write, same]
          exact handed.workerP
        · rw [write, same]
          exact handed.recvbuf
      · rw [own]
        exact handed.B earlier

/-! ## The turns -/

/-- The worker is between two parses, or has returned. -/
def Quiet (threads : Threads) : Prop :=
  threads.worker = .testing ∨ threads.worker = .checking ∨ threads.worker = .returned

/-- What holds at each place of the main thread while it has the shared variables. -/
def Ready (task : Task) (threads : Threads) : Prop :=
  match threads.main with
  | .publishing p q => locate task.tier threads.recvbuf = some (p, q)
  | .posting p q => locate task.tier threads.recvbuf = some (p, q) ∧ threads.workerP = some q
  | .resetting => Loaded task threads
  | .tracing => Loaded task threads
  | .parsing _ _ => False
  | .joining => False
  | .stopped => False
  | _ => True

/-- The main thread parses `A` and then waits. -/
def Waiting (task : Task) (threads : Threads) : Prop :=
  ∃ first q p i, threads.main = .parsing p i ∧
    locate task.tier threads.recvbuf = some (first, q) ∧ threads.workerP = some q ∧
    Filled i id (threads.recvbuf.drop first) threads.A (threads.recvbuf.drop p)

/-- `n` values of `B` are done and `rest` follows them. -/
def FilledB (task : Task) (threads : Threads) (n : Nat) (rest : List UInt8) : Prop :=
  ∃ q, threads.workerP = some q ∧
    Filled n task.slot (threads.recvbuf.drop q) threads.B rest

/-- How far the worker is with the variables handed to it, which it takes from `posted`. -/
inductive Stage (task : Task) (threads : Threads) (posted : List Nat)
    (started : List (Option Nat)) : Prop
  | offered (quiet : threads.Quiet) (hidden : threads.workState.NoneVisible .main 2)
      (published : Clock Thread) (last : threads.workState.OnlyLast .worker 1 published)
      (handed : Handed threads.accesses published)
      (behind : posted.map some = started ++ [threads.workerP])
  | taking (woken : threads.worker = .taking) (hidden : threads.workState.NoneVisible .main 2)
      (handed : Handed threads.accesses (threads.accesses.clock .worker))
      (behind : posted.map some = started ++ [threads.workerP])
  | reading (p t : Nat) (parsing : threads.worker = .parsing (some p) t)
      (hidden : threads.workState.NoneVisible .main 2)
      (handed : Handed threads.accesses (threads.accesses.clock .worker))
      (filled : FilledB task threads t (threads.recvbuf.drop p))
      (balanced : started = posted.map some)
  | done (quiet : threads.Quiet) (hidden : threads.workState.NoneVisible .worker 1)
      (published : Clock Thread) (last : threads.workState.OnlyLast .main 2 published)
      (knows : MainKnows threads.accesses published) (rest : List UInt8)
      (filled : FilledB task threads task.cells rest) (balanced : started = posted.map some)

structure Mine (task : Task) (threads : Threads) : Prop where
  quiet : threads.Quiet
  knows : MainKnows threads.accesses (threads.accesses.clock .main)
  hidden : threads.workState.NoneVisible .worker 1
  ready : Ready task threads

inductive Turn (task : Task) (threads : Threads) (posted : List Nat)
    (started : List (Option Nat)) : Prop
  | mine (mine : Mine task threads) (balanced : started = posted.map some)
  | handed (waiting : Waiting task threads) (apart : Apart threads.accesses)
      (stage : Stage task threads posted started)
  | finished (quiet : threads.Quiet)
      (main : threads.main = .joining ∨ threads.main = .stopped ∧ threads.worker = .returned)
      (published : Clock Thread) (last : threads.workState.OnlyLast .worker 1 published)
      (woken : threads.workState.stores.getLast? = some ⟨1, published⟩)
      (balanced : started = posted.map some)

structure Sound (task : Task) (threads : Threads) (posted : List Nat)
    (started : List (Option Nat)) : Prop where
  fine : ¬ threads.accesses.raced
  own : threads.accesses.Own
  turn : Turn task threads posted started

theorem initial_sound (task : Task) (recvbuf : List UInt8) : Sound task (initial recvbuf) [] [] where
  fine := not_false
  own := fun _ _ _ => Nat.le_refl 0
  turn := by
    refine .mine ⟨.inl rfl, fun _ _ => Nat.le_refl 0, ?_, trivial⟩ rfl
    intro index read _ found
    have first : read ∈ (initial recvbuf).workState.stores := List.mem_of_getElem? found
    have zero : read = ⟨0, Clock.nothing⟩ := List.mem_singleton.mp first
    rw [zero]
    decide

end Threads

end Finm327.Hft
