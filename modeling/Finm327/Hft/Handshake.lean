import Finm327.Library.ReleaseAcquire
import Finm327.Library.Runs
import Finm327.Hft.Client

/-!
# The two threads of the fast client

Transcribes the main loop, its shutdown and `worker_fn` of `hft/src/client.cpp` as moves of
two threads in any order. A move is one load or store of an atomic variable, one read or
write of `worker_p`, one filling of the buffer, or one value parsed and written to its
array. A pointer into `recvbuf` is the position of the byte it points at, and a move that
follows the null pointer or reads past the buffer is undefined. The threads only need
to know how many entries a matrix has and where the entries of `B` go.
-/

namespace Finm327.Hft

open Finm327.Library.ReleaseAcquire
open Finm327.Library.Runs
open Function (update)

inductive Thread
  | main
  | worker
deriving DecidableEq

inductive Shared
  | workerP
  | recvbuf
  | A
  | B
deriving DecidableEq

/-- `slot` is the place in `B` of the value with a given number in the text. -/
structure Task where
  cells : Nat
  slot : Nat → Nat
  injective : ∀ s t, s < cells → t < cells → slot s = slot t → s = t
  tier : Tier
  answer : Array32 → Array32 → List UInt8

/-- Where the main thread is. While it parses, `i` entries of `A` are done. -/
inductive Main
  | receiving
  | locating
  | publishing (p q : Nat)
  | posting (p q : Nat)
  | parsing (p i : Nat)
  | resetting
  | tracing
  | exiting
  | waking
  | joining
  | stopped
deriving DecidableEq

/-- Where the worker is. While it parses, `t` entries of `B` are done. -/
inductive Worker
  | testing
  | checking
  | taking
  | parsing (p : Option Nat) (t : Nat)
  | returned
deriving DecidableEq

structure Threads where
  main : Main
  worker : Worker
  workState : Atomic Thread Int
  workerExit : Atomic Thread Bool
  accesses : Accesses Thread Shared
  workerP : Option Nat
  recvbuf : List UInt8
  A : Array32
  B : Array32

/-- Loads name the store that they read. -/
inductive Move
  | fill (bytes : List UInt8)
  | hangUp (bytes : List UInt8)
  | locate
  | publish
  | post
  | parseA
  | await (index : Nat)
  | reset
  | trace
  | setExit
  | wake
  | join
  | test (index : Nat)
  | check (index : Nat)
  | take
  | parseB
  | complete
deriving DecidableEq

inductive Notice
  | silent
  | posted (q : Nat)
  | started (p : Option Nat)
  | answered (text : List UInt8)
deriving DecidableEq

namespace Notice

def postedAt : Notice → Option Nat
  | posted q => some q
  | _ => none

def startedAt : Notice → Option (Option Nat)
  | started p => some p
  | _ => none

end Notice

namespace Threads

def initial (recvbuf : List UInt8) : Threads :=
  ⟨.receiving, .testing, .make 0, .make false, .none, none, recvbuf, fun _ => 0, fun _ => 0⟩

def position (recvbuf rest : List UInt8) : Nat := recvbuf.length - rest.length

/-- Skips the header and finds the end of the text of `A`: where `A` starts and where `B`
starts. -/
def locate (tier : Tier) (recvbuf : List UInt8) : Option (Nat × Nat) := do
  let (_cid, p) ← parseIntS1 recvbuf
  let (_n, p) ← parseIntS1 p
  let aEnd ← findNewline tier p
  pure (position recvbuf p, position recvbuf aEnd + 1)

def received (bytes recvbuf : List UInt8) : List UInt8 := bytes ++ recvbuf.drop bytes.length

def step (task : Task) (threads : Threads) : Move → Option (Threads × Notice)
  | .fill bytes =>
      if threads.main = .receiving ∧ bytes ≠ [] ∧ bytes.length < threads.recvbuf.length then
        some ({ threads with
          main := .locating
          recvbuf := received bytes threads.recvbuf
          accesses := threads.accesses.access .write .main .recvbuf }, .silent)
      else none
  | .hangUp bytes =>
      if threads.main = .receiving ∧ bytes.length ≤ threads.recvbuf.length then
        some ({ threads with
          main := .exiting
          recvbuf := received bytes threads.recvbuf
          accesses := threads.accesses.access .write .main .recvbuf }, .silent)
      else none
  | .locate =>
      match threads.main, locate task.tier threads.recvbuf with
      | .locating, some (p, q) =>
          some ({ threads with
            main := .publishing p q
            accesses := threads.accesses.access .read .main .recvbuf }, .silent)
      | _, _ => none
  | .publish =>
      match threads.main with
      | .publishing p q =>
          some ({ threads with
            main := .posting p q
            workerP := some q
            accesses := threads.accesses.access .write .main .workerP }, .silent)
      | _ => none
  | .post =>
      match threads.main with
      | .posting p q =>
          some ({ threads with
            main := .parsing p 0
            workState := threads.workState.store .main 1 (threads.accesses.clock .main) },
            .posted q)
      | _ => none
  | .parseA =>
      match threads.main with
      | .parsing p i =>
          if i < task.cells then
            match parseIntS1 (threads.recvbuf.drop p) with
            | some (v, rest) =>
                some ({ threads with
                  main := .parsing (position threads.recvbuf rest) (i + 1)
                  A := update threads.A i v
                  accesses := (threads.accesses.access .read .main .recvbuf).access
                    .write .main .A }, .silent)
            | none => none
          else none
      | _ => none
  | .await index =>
      match threads.main, threads.workState.load .main index with
      | .parsing p i, some (read, workState) =>
          if i = task.cells then
            some ({ threads with
              main := if read.value = 2 then .resetting else .parsing p i
              workState := workState
              accesses := threads.accesses.acquire .main read.published }, .silent)
          else none
      | _, _ => none
  | .reset =>
      if threads.main = .resetting then
        some ({ threads with
          main := .tracing
          workState := threads.workState.store .main 0 Clock.nothing }, .silent)
      else none
  | .trace =>
      if threads.main = .tracing then
        some ({ threads with
          main := .receiving
          accesses := (threads.accesses.access .read .main .A).access .read .main .B },
          .answered (task.answer threads.A threads.B))
      else none
  | .setExit =>
      if threads.main = .exiting then
        some ({ threads with
          main := .waking
          workerExit := threads.workerExit.store .main true (threads.accesses.clock .main) },
          .silent)
      else none
  | .wake =>
      if threads.main = .waking then
        some ({ threads with
          main := .joining
          workState := threads.workState.store .main 1 (threads.accesses.clock .main) }, .silent)
      else none
  | .join =>
      if threads.main = .joining ∧ threads.worker = .returned then
        some ({ threads with main := .stopped }, .silent)
      else none
  | .test index =>
      match threads.worker, threads.workState.load .worker index with
      | .testing, some (read, workState) =>
          some ({ threads with
            worker := if read.value = 1 then .taking else .checking
            workState := workState
            accesses := threads.accesses.acquire .worker read.published }, .silent)
      | _, _ => none
  | .check index =>
      match threads.worker, threads.workerExit.load .worker index with
      | .checking, some (read, workerExit) =>
          some ({ threads with
            worker := if read.value then .returned else .testing
            workerExit := workerExit }, .silent)
      | _, _ => none
  | .take =>
      if threads.worker = .taking then
        some ({ threads with
          worker := .parsing threads.workerP 0
          accesses := threads.accesses.access .read .worker .workerP },
          .started threads.workerP)
      else none
  | .parseB =>
      match threads.worker with
      | .parsing (some p) t =>
          if t < task.cells then
            match parseIntS1 (threads.recvbuf.drop p) with
            | some (v, rest) =>
                some ({ threads with
                  worker := .parsing (some (position threads.recvbuf rest)) (t + 1)
                  B := update threads.B (task.slot t) v
                  accesses := (threads.accesses.access .read .worker .recvbuf).access
                    .write .worker .B }, .silent)
            | none => none
          else none
      | _ => none
  | .complete =>
      match threads.worker with
      | .parsing _ t =>
          if t = task.cells then
            some ({ threads with
              worker := .testing
              workState := threads.workState.store .worker 2 (threads.accesses.clock .worker) },
              .silent)
          else none
      | _ => none

/-- What a move can do, and when. -/
inductive Effect (task : Task) (threads : Threads) : Move → Threads → Notice → Prop
  | fill {bytes : List UInt8} (idle : threads.main = .receiving) :
      Effect task threads (.fill bytes) { threads with
        main := .locating
        recvbuf := received bytes threads.recvbuf
        accesses := threads.accesses.access .write .main .recvbuf } .silent
  | hangUp {bytes : List UInt8} (idle : threads.main = .receiving) :
      Effect task threads (.hangUp bytes) { threads with
        main := .exiting
        recvbuf := received bytes threads.recvbuf
        accesses := threads.accesses.access .write .main .recvbuf } .silent
  | locate {p q : Nat} (filled : threads.main = .locating)
      (located : Threads.locate task.tier threads.recvbuf = some (p, q)) :
      Effect task threads .locate { threads with
        main := .publishing p q
        accesses := threads.accesses.access .read .main .recvbuf } .silent
  | publish {p q : Nat} (located : threads.main = .publishing p q) :
      Effect task threads .publish { threads with
        main := .posting p q
        workerP := some q
        accesses := threads.accesses.access .write .main .workerP } .silent
  | post {p q : Nat} (published : threads.main = .posting p q) :
      Effect task threads .post { threads with
        main := .parsing p 0
        workState := threads.workState.store .main 1 (threads.accesses.clock .main) }
        (.posted q)
  | parseA {p i : Nat} {v : Int32} {rest : List UInt8} (parsing : threads.main = .parsing p i)
      (more : i < task.cells) (value : parseIntS1 (threads.recvbuf.drop p) = some (v, rest)) :
      Effect task threads .parseA { threads with
        main := .parsing (position threads.recvbuf rest) (i + 1)
        A := update threads.A i v
        accesses := (threads.accesses.access .read .main .recvbuf).access .write .main .A }
        .silent
  | await {index p i : Nat} {read : Store Thread Int} {workState : Atomic Thread Int}
      (parsing : threads.main = .parsing p i) (done : i = task.cells)
      (loaded : threads.workState.load .main index = some (read, workState)) :
      Effect task threads (.await index) { threads with
        main := if read.value = 2 then .resetting else .parsing p i
        workState := workState
        accesses := threads.accesses.acquire .main read.published } .silent
  | reset (done : threads.main = .resetting) :
      Effect task threads .reset { threads with
        main := .tracing
        workState := threads.workState.store .main 0 Clock.nothing } .silent
  | trace (filled : threads.main = .tracing) :
      Effect task threads .trace { threads with
        main := .receiving
        accesses := (threads.accesses.access .read .main .A).access .read .main .B }
        (.answered (task.answer threads.A threads.B))
  | setExit (closed : threads.main = .exiting) :
      Effect task threads .setExit { threads with
        main := .waking
        workerExit := threads.workerExit.store .main true (threads.accesses.clock .main) } .silent
  | wake (closed : threads.main = .waking) :
      Effect task threads .wake { threads with
        main := .joining
        workState := threads.workState.store .main 1 (threads.accesses.clock .main) } .silent
  | join (woken : threads.main = .joining) (returned : threads.worker = .returned) :
      Effect task threads .join { threads with main := .stopped } .silent
  | test {index : Nat} {read : Store Thread Int} {workState : Atomic Thread Int}
      (idle : threads.worker = .testing)
      (loaded : threads.workState.load .worker index = some (read, workState)) :
      Effect task threads (.test index) { threads with
        worker := if read.value = 1 then .taking else .checking
        workState := workState
        accesses := threads.accesses.acquire .worker read.published } .silent
  | check {index : Nat} {read : Store Thread Bool} {workerExit : Atomic Thread Bool}
      (idle : threads.worker = .checking) :
      Effect task threads (.check index) { threads with
        worker := if read.value then .returned else .testing
        workerExit := workerExit } .silent
  | take (woken : threads.worker = .taking) :
      Effect task threads .take { threads with
        worker := .parsing threads.workerP 0
        accesses := threads.accesses.access .read .worker .workerP }
        (.started threads.workerP)
  | parseB {p t : Nat} {v : Int32} {rest : List UInt8}
      (parsing : threads.worker = .parsing (some p) t) (more : t < task.cells)
      (value : parseIntS1 (threads.recvbuf.drop p) = some (v, rest)) :
      Effect task threads .parseB { threads with
        worker := .parsing (some (position threads.recvbuf rest)) (t + 1)
        B := update threads.B (task.slot t) v
        accesses := (threads.accesses.access .read .worker .recvbuf).access .write .worker .B }
        .silent
  | complete {p : Option Nat} {t : Nat} (parsing : threads.worker = .parsing p t)
      (done : t = task.cells) :
      Effect task threads .complete { threads with
        worker := .testing
        workState := threads.workState.store .worker 2 (threads.accesses.clock .worker) } .silent

theorem step_effect {task : Task} {threads next : Threads} {move : Move} {notice : Notice}
    (ran : step task threads move = some (next, notice)) :
    Effect task threads move next notice := by
  cases move with
  | fill bytes =>
      simp only [step] at ran
      split_ifs at ran with enabled
      cases ran
      exact .fill enabled.1
  | hangUp bytes =>
      simp only [step] at ran
      split_ifs at ran with enabled
      cases ran
      exact .hangUp enabled.1
  | locate =>
      simp only [step] at ran
      split at ran
      · rename_i filled located
        cases ran
        exact .locate filled located
      · cases ran
  | publish =>
      simp only [step] at ran
      split at ran
      · rename_i located
        cases ran
        exact .publish located
      · cases ran
  | post =>
      simp only [step] at ran
      split at ran
      · rename_i published
        cases ran
        exact .post published
      · cases ran
  | parseA =>
      simp only [step] at ran
      split at ran
      · rename_i parsing
        split_ifs at ran with more
        split at ran
        · rename_i value
          cases ran
          exact .parseA parsing more value
        · cases ran
      · cases ran
  | await index =>
      simp only [step] at ran
      split at ran
      · rename_i p i read workState parsing loaded
        by_cases done : i = task.cells
        · rw [if_pos done] at ran
          cases ran
          exact .await parsing done loaded
        · rw [if_neg done] at ran
          cases ran
      · cases ran
  | reset =>
      simp only [step] at ran
      split_ifs at ran with enabled
      cases ran
      exact .reset enabled
  | trace =>
      simp only [step] at ran
      split_ifs at ran with enabled
      cases ran
      exact .trace enabled
  | setExit =>
      simp only [step] at ran
      split_ifs at ran with enabled
      cases ran
      exact .setExit enabled
  | wake =>
      simp only [step] at ran
      split_ifs at ran with enabled
      cases ran
      exact .wake enabled
  | join =>
      simp only [step] at ran
      split_ifs at ran with enabled
      cases ran
      exact .join enabled.1 enabled.2
  | test index =>
      simp only [step] at ran
      split at ran
      · rename_i idle loaded
        cases ran
        exact .test idle loaded
      · cases ran
  | check index =>
      simp only [step] at ran
      split at ran
      · rename_i idle loaded
        cases ran
        exact .check idle
      · cases ran
  | take =>
      simp only [step] at ran
      split_ifs at ran with enabled
      cases ran
      exact .take enabled
  | parseB =>
      simp only [step] at ran
      split at ran
      · rename_i parsing
        split_ifs at ran with more
        split at ran
        · rename_i value
          cases ran
          exact .parseB parsing more value
        · cases ran
      · cases ran
  | complete =>
      simp only [step] at ran
      split at ran
      · rename_i parsing
        split_ifs at ran with done
        cases ran
        exact .complete parsing done
      · cases ran

end Threads

end Finm327.Hft
