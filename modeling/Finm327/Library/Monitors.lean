import Finm327.Library.Runs
import Mathlib.Logic.Function.Basic

/-!
# Objects behind a lock

Threads call the operations of an object. A call takes the lock, works on what the lock guards
in several steps, gives the lock back and returns. If the lock keeps the others out, and a call
that is not disturbed does what one step of a specification does, then every interleaving
answers and shows what the specification does when it takes the calls one after the other, in
the order in which they took the lock.
-/

namespace Finm327.Library.Monitors

open Finm327.Library.Runs

universe u

/-- How a call runs: where it begins, and what a step makes of a place and of the guarded state.
A step goes on at another place or ends the call; without a value it has no meaning. -/
structure Routine (Shared Local Call Result Event : Type u) where
  enter : Call → Local
  step : Local → Shared → Option (Shared × List Event × (Local ⊕ Result))

structure LockPolicy (Lock : Type u) where
  initial : Lock
  lock : Lock → Option Lock
  unlock : Lock → Lock

/-- The lock lets no thread in while another one is. -/
structure LockPolicy.Excludes {Lock : Type u} (policy : LockPolicy Lock) (Thread : Type u)
    (free held : Lock → Prop) : Prop where
  initially : free policy.initial
  locks : ∀ state, free state → ∃ next, policy.lock state = some next ∧ held next
  blocks : ∀ state, held state → policy.lock state = none ∨ Subsingleton Thread
  unlocks : ∀ state, held state → free (policy.unlock state)

inductive Phase (Local Call Result : Type u) where
  | idle
  | calling (call : Call)
  | inside (place : Local)
  | leaving (result : Result)
deriving DecidableEq

structure Monitor (Thread Lock Shared Local Call Result : Type u) where
  lock : Lock
  shared : Shared
  phase : Thread → Phase Local Call Result

inductive Move (Thread Call : Type u) where
  | call (thread : Thread) (call : Call)
  | lock (thread : Thread)
  | work (thread : Thread)
  | unlock (thread : Thread)
deriving DecidableEq

inductive Notice (Call Result Event : Type u) where
  | called
  | entered (call : Call)
  | worked (events : List Event)
  | returned (result : Result)
deriving DecidableEq

variable {Thread Lock Shared Local Call Result Event Spec : Type u}

namespace Phase

def outside : Phase Local Call Result → Bool
  | .idle => true
  | .calling _ => true
  | _ => false

/-- The call that has not taken the lock yet. -/
def pending : Phase Local Call Result → List Call
  | .calling call => [call]
  | _ => []

end Phase

namespace Monitor

variable [DecidableEq Thread]

def goTo (monitor : Monitor Thread Lock Shared Local Call Result) (thread : Thread)
    (phase : Phase Local Call Result) : Monitor Thread Lock Shared Local Call Result :=
  { monitor with phase := Function.update monitor.phase thread phase }

@[simp] theorem goTo_phase_same (monitor : Monitor Thread Lock Shared Local Call Result)
    (thread : Thread) (phase : Phase Local Call Result) :
    (monitor.goTo thread phase).phase thread = phase := by
  simp [goTo]

theorem goTo_phase_other (monitor : Monitor Thread Lock Shared Local Call Result)
    {thread other : Thread} (phase : Phase Local Call Result) (different : other ≠ thread) :
    (monitor.goTo thread phase).phase other = monitor.phase other := by
  simp [goTo, different]

def start (policy : LockPolicy Lock) (shared : Shared) :
    Monitor Thread Lock Shared Local Call Result :=
  ⟨policy.initial, shared, fun _ => .idle⟩

def step (policy : LockPolicy Lock) (routine : Routine Shared Local Call Result Event)
    (monitor : Monitor Thread Lock Shared Local Call Result) : Move Thread Call →
    Option (Monitor Thread Lock Shared Local Call Result × Notice Call Result Event)
  | .call thread call =>
      match monitor.phase thread with
      | .idle => some (monitor.goTo thread (.calling call), .called)
      | _ => none
  | .lock thread =>
      match monitor.phase thread, policy.lock monitor.lock with
      | .calling call, some lock =>
          some ({ monitor with lock := lock }.goTo thread (.inside (routine.enter call)),
            .entered call)
      | _, _ => none
  | .work thread =>
      match monitor.phase thread with
      | .inside place =>
          match routine.step place monitor.shared with
          | some (shared, events, .inl further) =>
              some ({ monitor with shared := shared }.goTo thread (.inside further),
                .worked events)
          | some (shared, events, .inr result) =>
              some ({ monitor with shared := shared }.goTo thread (.leaving result),
                .worked events)
          | none => none
      | _ => none
  | .unlock thread =>
      match monitor.phase thread with
      | .leaving result =>
          some ({ monitor with lock := policy.unlock monitor.lock }.goTo thread .idle,
            .returned result)
      | _ => none

/-- Everything that a move can do. -/
inductive Stepped (policy : LockPolicy Lock) (routine : Routine Shared Local Call Result Event)
    (monitor : Monitor Thread Lock Shared Local Call Result) : Move Thread Call →
    Monitor Thread Lock Shared Local Call Result → Notice Call Result Event → Prop
  | called {thread : Thread} {call : Call} (idle : monitor.phase thread = .idle) :
      Stepped policy routine monitor (.call thread call)
        (monitor.goTo thread (.calling call)) .called
  | entered {thread : Thread} {call : Call} {lock : Lock}
      (calling : monitor.phase thread = .calling call)
      (locked : policy.lock monitor.lock = some lock) :
      Stepped policy routine monitor (.lock thread)
        ({ monitor with lock := lock }.goTo thread (.inside (routine.enter call))) (.entered call)
  | further {thread : Thread} {place next : Local} {shared : Shared} {events : List Event}
      (inside : monitor.phase thread = .inside place)
      (goesOn : routine.step place monitor.shared = some (shared, events, .inl next)) :
      Stepped policy routine monitor (.work thread)
        ({ monitor with shared := shared }.goTo thread (.inside next)) (.worked events)
  | ended {thread : Thread} {place : Local} {result : Result} {shared : Shared}
      {events : List Event} (inside : monitor.phase thread = .inside place)
      (ends : routine.step place monitor.shared = some (shared, events, .inr result)) :
      Stepped policy routine monitor (.work thread)
        ({ monitor with shared := shared }.goTo thread (.leaving result)) (.worked events)
  | returned {thread : Thread} {result : Result}
      (leaving : monitor.phase thread = .leaving result) :
      Stepped policy routine monitor (.unlock thread)
        ({ monitor with lock := policy.unlock monitor.lock }.goTo thread .idle) (.returned result)

variable {policy : LockPolicy Lock} {routine : Routine Shared Local Call Result Event}

theorem stepped_of_step {monitor next : Monitor Thread Lock Shared Local Call Result}
    {move : Move Thread Call} {notice : Notice Call Result Event}
    (moved : monitor.step policy routine move = some (next, notice)) :
    monitor.Stepped policy routine move next notice := by
  cases move with
  | call thread call =>
      simp only [step] at moved
      split at moved
      · rename_i idle
        cases moved
        exact .called idle
      · contradiction
  | lock thread =>
      simp only [step] at moved
      split at moved
      · rename_i calling locked
        cases moved
        exact .entered calling locked
      · contradiction
  | work thread =>
      simp only [step] at moved
      split at moved
      · rename_i inside
        split at moved <;> rename_i works <;> cases moved
        · exact .further inside works
        · exact .ended inside works
      · contradiction
  | unlock thread =>
      simp only [step] at moved
      split at moved
      · rename_i leaving
        cases moved
        exact .returned leaving
      · contradiction

theorem step_of_stepped {monitor next : Monitor Thread Lock Shared Local Call Result}
    {move : Move Thread Call} {notice : Notice Call Result Event}
    (stepped : monitor.Stepped policy routine move next notice) :
    monitor.step policy routine move = some (next, notice) := by
  cases stepped with
  | called idle => simp [step, idle]
  | entered calling locked => simp [step, calling, locked]
  | further inside goesOn => simp [step, inside, goesOn]
  | ended inside ends => simp [step, inside, ends]
  | returned leaving => simp [step, leaving]

end Monitor

abbrev MonitorRun (Thread Lock Shared Local Call Result Event : Type u) :=
  Config (Monitor Thread Lock Shared Local Call Result) (Move Thread Call)
    (Notice Call Result Event)

/-! ## What a run shows -/

def order (history : List (Move Thread Call × Notice Call Result Event)) :
    List (Thread × Call) :=
  history.filterMap fun
    | (.lock thread, .entered call) => some (thread, call)
    | _ => none

def shown (history : List (Move Thread Call × Notice Call Result Event)) : List Event :=
  history.flatMap fun
    | (_, .worked events) => events
    | _ => []

def answers (history : List (Move Thread Call × Notice Call Result Event)) :
    List (Thread × Result) :=
  history.filterMap fun
    | (.unlock thread, .returned result) => some (thread, result)
    | _ => none

@[simp] theorem order_append (first second : List (Move Thread Call × Notice Call Result Event)) :
    order (first ++ second) = order first ++ order second := by
  simp [order]

@[simp] theorem shown_append (first second : List (Move Thread Call × Notice Call Result Event)) :
    shown (first ++ second) = shown first ++ shown second := by
  simp [shown]

@[simp] theorem answers_append
    (first second : List (Move Thread Call × Notice Call Result Event)) :
    answers (first ++ second) = answers first ++ answers second := by
  simp [answers]

section Specification

variable (perform : Call → Spec → Spec × List Event × Result)

def after : Spec → List (Thread × Call) → Spec
  | spec, [] => spec
  | spec, (_, call) :: rest => after (perform call spec).1 rest

def performed : Spec → List (Thread × Call) → List Event
  | _, [] => []
  | spec, (_, call) :: rest =>
      (perform call spec).2.1 ++ performed (perform call spec).1 rest

def answered : Spec → List (Thread × Call) → List (Thread × Result)
  | _, [] => []
  | spec, (thread, call) :: rest =>
      (thread, (perform call spec).2.2) :: answered (perform call spec).1 rest

theorem after_append (spec : Spec) (first second : List (Thread × Call)) :
    after perform spec (first ++ second) = after perform (after perform spec first) second := by
  induction first generalizing spec with
  | nil => rfl
  | cons one rest ih => simp [after, ih]

theorem performed_append (spec : Spec) (first second : List (Thread × Call)) :
    performed perform spec (first ++ second) =
      performed perform spec first ++ performed perform (after perform spec first) second := by
  induction first generalizing spec with
  | nil => rfl
  | cons one rest ih => simp [performed, after, ih]

theorem answered_append (spec : Spec) (first second : List (Thread × Call)) :
    answered perform spec (first ++ second) =
      answered perform spec first ++ answered perform (after perform spec first) second := by
  induction first generalizing spec with
  | nil => rfl
  | cons one rest ih => simp [answered, after, ih]

@[simp] theorem answered_length (spec : Spec) (calls : List (Thread × Call)) :
    (answered perform spec calls).length = calls.length := by
  induction calls generalizing spec with
  | nil => rfl
  | cons one rest ih => simp [answered, ih]

end Specification

/-- An undisturbed call never meets a step without meaning, comes to an end, and does what the
specification does. -/
structure Implements (routine : Routine Shared Local Call Result Event)
    (perform : Call → Spec → Spec × List Event × Result) (Rep : Spec → Shared → Prop)
    (Inside : Call → Spec → Local → Shared → List Event → Prop)
    (remaining : Local → Shared → Nat) : Prop where
  enters : ∀ call spec shared, Rep spec shared →
    Inside call spec (routine.enter call) shared []
  works : ∀ call spec place shared events, Inside call spec place shared events →
    ∃ next new, (∃ further, routine.step place shared = some (next, new, .inl further) ∧
        Inside call spec further next (events ++ new) ∧
        remaining further next < remaining place shared) ∨
      ∃ result, routine.step place shared = some (next, new, .inr result) ∧
        (perform call spec).2 = (events ++ new, result) ∧
        Rep (perform call spec).1 next

/-! ## Every interleaving -/

section Interleavings

variable {policy : LockPolicy Lock} {routine : Routine Shared Local Call Result Event}
  {perform : Call → Spec → Spec × List Event × Result} {Rep : Spec → Shared → Prop}
  {Inside : Call → Spec → Local → Shared → List Event → Prop}
  {remaining : Local → Shared → Nat} {free held : Lock → Prop}

/-- Nobody is inside, or one thread is, and its call is the last in the order. -/
inductive Linear (perform : Call → Spec → Spec × List Event × Result) (Rep : Spec → Shared → Prop)
    (Inside : Call → Spec → Local → Shared → List Event → Prop) (free held : Lock → Prop)
    (spec : Spec) (monitor : Monitor Thread Lock Shared Local Call Result) :
    List (Thread × Call) → List Event → List (Thread × Result) → Prop
  | nobody {calls : List (Thread × Call)} (unlocked : free monitor.lock)
      (outside : ∀ thread, (monitor.phase thread).outside = true)
      (rep : Rep (after perform spec calls) monitor.shared) :
      Linear perform Rep Inside free held spec monitor calls (performed perform spec calls)
        (answered perform spec calls)
  | working (thread : Thread) {before : List (Thread × Call)} {call : Call} (place : Local)
      {events : List Event} (locked : held monitor.lock)
      (inside : monitor.phase thread = .inside place)
      (outside : ∀ other ≠ thread, (monitor.phase other).outside = true)
      (rep : Inside call (after perform spec before) place monitor.shared events) :
      Linear perform Rep Inside free held spec monitor (before ++ [(thread, call)])
        (performed perform spec before ++ events) (answered perform spec before)
  | leaving (thread : Thread) {calls : List (Thread × Call)} (result : Result)
      {given : List (Thread × Result)} (locked : held monitor.lock)
      (leaving : monitor.phase thread = .leaving result)
      (outside : ∀ other ≠ thread, (monitor.phase other).outside = true)
      (rep : Rep (after perform spec calls) monitor.shared)
      (answers : given ++ [(thread, result)] = answered perform spec calls) :
      Linear perform Rep Inside free held spec monitor calls (performed perform spec calls) given

/-- A thread that is inside or leaving is the one that the invariant names. -/
theorem same_of_not_outside {monitor : Monitor Thread Lock Shared Local Call Result}
    {thread other : Thread} (outside : ∀ other ≠ thread, (monitor.phase other).outside = true)
    (inside : (monitor.phase other).outside = false) : thread = other := by
  by_contra different
  rw [outside other (Ne.symm different)] at inside
  contradiction

variable {spec : Spec} {monitor next : Monitor Thread Lock Shared Local Call Result}
  {calls : List (Thread × Call)} {showed : List Event} {given : List (Thread × Result)}

theorem inside_shows (implements : Implements routine perform Rep Inside remaining)
    {call : Call} {place : Local} {shared : Shared} {events : List Event}
    (inside : Inside call spec place shared events) :
    ∃ rest, (perform call spec).2.1 = events ++ rest := by
  induction most : remaining place shared using Nat.strongRecOn generalizing
    place shared events with
  | ind most ih =>
      obtain ⟨next, new, ⟨further, _, insideNext, less⟩ | ⟨result, _, performs, _⟩⟩ :=
        implements.works _ _ _ _ _ inside
      · obtain ⟨rest, whole⟩ := ih _ (most ▸ less) insideNext rfl
        exact ⟨new ++ rest, by rw [whole, List.append_assoc]⟩
      · exact ⟨new, by rw [performs]⟩

theorem Linear.shows (implements : Implements routine perform Rep Inside remaining)
    (linear : Linear perform Rep Inside free held spec monitor calls showed given) :
    ∃ rest, performed perform spec calls = showed ++ rest := by
  cases linear with
  | nobody => exact ⟨[], (List.append_nil _).symm⟩
  | leaving => exact ⟨[], (List.append_nil _).symm⟩
  | working _ _ _ _ _ rep =>
      obtain ⟨rest, whole⟩ := inside_shows implements rep
      use rest
      simp [performed_append, performed, whole]

theorem Linear.answers
    (linear : Linear perform Rep Inside free held spec monitor calls showed given) :
    ∃ pending, answered perform spec calls = given ++ pending ∧ pending.length ≤ 1 := by
  cases linear with
  | nobody => exact ⟨[], by simp⟩
  | leaving thread result _ _ _ _ answers => exact ⟨[(thread, result)], by simp [answers]⟩
  | working thread _ _ _ _ _ =>
      rw [answered_append]
      exact ⟨_, rfl, by simp⟩

theorem Linear.at_rest
    (linear : Linear perform Rep Inside free held spec monitor calls showed given)
    (outside : ∀ thread, (monitor.phase thread).outside = true) :
    free monitor.lock ∧ Rep (after perform spec calls) monitor.shared ∧
      showed = performed perform spec calls ∧ given = answered perform spec calls := by
  cases linear with
  | nobody unlocked _ rep => exact ⟨unlocked, rep, rfl, rfl⟩
  | working thread _ _ inside =>
      have contra := outside thread
      rw [inside] at contra
      contradiction
  | leaving thread _ _ leaving =>
      have contra := outside thread
      rw [leaving] at contra
      contradiction

variable [DecidableEq Thread]

theorem outside_goTo {monitor : Monitor Thread Lock Shared Local Call Result}
    {thread : Thread} {phase : Phase Local Call Result} (own : phase.outside = true)
    {other : Thread} (outside : (monitor.phase other).outside = true) :
    ((monitor.goTo thread phase).phase other).outside = true := by
  by_cases same : other = thread
  · rw [same, Monitor.goTo_phase_same, own]
  · rw [Monitor.goTo_phase_other _ _ same, outside]

theorem outside_others {monitor : Monitor Thread Lock Shared Local Call Result}
    {thread : Thread} {phase : Phase Local Call Result}
    (outside : ∀ other ≠ thread, (monitor.phase other).outside = true) :
    ∀ other ≠ thread, ((monitor.goTo thread phase).phase other).outside = true := by
  intro other others
  rw [Monitor.goTo_phase_other _ _ others]
  exact outside other others

theorem linear_called {thread : Thread} {call : Call}
    (linear : Linear perform Rep Inside free held spec monitor calls showed given)
    (idle : monitor.phase thread = .idle) :
    Linear perform Rep Inside free held spec (monitor.goTo thread (.calling call)) calls showed
      given := by
  cases linear with
  | nobody unlocked outside rep =>
      exact .nobody unlocked (fun other => outside_goTo rfl (outside other)) rep
  | working inner place locked inside outside rep =>
      have different : inner ≠ thread := by
        intro same
        rw [same, idle] at inside
        contradiction
      apply Linear.working inner place
      · exact locked
      · rw [Monitor.goTo_phase_other _ _ different, inside]
      · intro other others
        exact outside_goTo rfl (outside other others)
      · exact rep
  | leaving inner result locked leaving outside rep answers =>
      have different : inner ≠ thread := by
        intro same
        rw [same, idle] at leaving
        contradiction
      apply Linear.leaving inner result
      · exact locked
      · rw [Monitor.goTo_phase_other _ _ different, leaving]
      · intro other others
        exact outside_goTo rfl (outside other others)
      · exact rep
      · exact answers

theorem linear_entered (excludes : policy.Excludes Thread free held)
    (implements : Implements routine perform Rep Inside remaining)
    {thread : Thread} {call : Call} {lock : Lock}
    (linear : Linear perform Rep Inside free held spec monitor calls showed given)
    (calling : monitor.phase thread = .calling call)
    (locked : policy.lock monitor.lock = some lock) :
    Linear perform Rep Inside free held spec
      ({ monitor with lock := lock }.goTo thread (.inside (routine.enter call)))
      (calls ++ [(thread, call)]) showed given := by
  -- the lock admits nobody while another thread is inside, unless there is no other thread
  have alone : ∀ inner, (monitor.phase inner).outside = false → ¬ held monitor.lock := by
    intro inner inside taken
    rcases excludes.blocks _ taken with blocked | single
    · rw [blocked] at locked
      contradiction
    · rw [single.elim inner thread, calling] at inside
      contradiction
  cases linear with
  | nobody unlocked outside rep =>
      obtain ⟨other, taken, heldNow⟩ := excludes.locks _ unlocked
      rw [locked, Option.some.injEq] at taken
      rw [← taken] at heldNow
      have entered : Linear perform Rep Inside free held spec
          ({ monitor with lock := lock }.goTo thread (.inside (routine.enter call)))
          (calls ++ [(thread, call)]) (performed perform spec calls ++ [])
          (answered perform spec calls) :=
        .working thread (routine.enter call) heldNow (Monitor.goTo_phase_same _ _ _)
          (outside_others fun other _ => outside other) (implements.enters call _ _ rep)
      rwa [List.append_nil] at entered
  | working _ _ taken inside => exact absurd taken (alone _ (by rw [inside]; rfl))
  | leaving _ _ taken leaving => exact absurd taken (alone _ (by rw [leaving]; rfl))

theorem linear_further (implements : Implements routine perform Rep Inside remaining)
    {thread : Thread} {place further : Local} {shared : Shared} {events : List Event}
    (linear : Linear perform Rep Inside free held spec monitor calls showed given)
    (inside : monitor.phase thread = .inside place)
    (goesOn : routine.step place monitor.shared = some (shared, events, .inl further)) :
    Linear perform Rep Inside free held spec
      ({ monitor with shared := shared }.goTo thread (.inside further)) calls (showed ++ events)
      given := by
  have notOutside : (monitor.phase thread).outside = false := by rw [inside]; rfl
  cases linear with
  | nobody _ outside => rw [outside thread] at notOutside; contradiction
  | working inner own locked insideToo outside rep =>
      have same := same_of_not_outside outside notOutside
      rw [same] at insideToo outside ⊢
      rw [inside, Phase.inside.injEq] at insideToo
      rw [← insideToo] at rep
      obtain ⟨_, new, ⟨_, works, repNext, _⟩ | ⟨_, works, _⟩⟩ := implements.works _ _ _ _ _ rep
      · rw [goesOn, Option.some.injEq, Prod.mk.injEq, Prod.mk.injEq, Sum.inl.injEq] at works
        rw [List.append_assoc]
        apply Linear.working thread further
        · exact locked
        · exact Monitor.goTo_phase_same _ _ _
        · exact outside_others outside
        · rw [works.1, works.2.1, works.2.2]
          exact repNext
      · rw [goesOn] at works
        simp at works
  | leaving inner _ _ leaving outside =>
      have same := same_of_not_outside outside notOutside
      rw [same, inside] at leaving
      contradiction

theorem linear_ended (implements : Implements routine perform Rep Inside remaining)
    {thread : Thread} {place : Local} {result : Result} {shared : Shared} {events : List Event}
    (linear : Linear perform Rep Inside free held spec monitor calls showed given)
    (inside : monitor.phase thread = .inside place)
    (ends : routine.step place monitor.shared = some (shared, events, .inr result)) :
    Linear perform Rep Inside free held spec
      ({ monitor with shared := shared }.goTo thread (.leaving result)) calls (showed ++ events)
      given := by
  have notOutside : (monitor.phase thread).outside = false := by rw [inside]; rfl
  cases linear with
  | nobody _ outside => rw [outside thread] at notOutside; contradiction
  | @working inner before call own earlier locked insideToo outside rep =>
      have same := same_of_not_outside outside notOutside
      rw [same] at insideToo outside ⊢
      rw [inside, Phase.inside.injEq] at insideToo
      rw [← insideToo] at rep
      obtain ⟨_, new, ⟨_, works, _⟩ | ⟨_, works, performs, repNext⟩⟩ :=
        implements.works _ _ _ _ _ rep
      · rw [ends] at works
        simp at works
      · rw [ends, Option.some.injEq, Prod.mk.injEq, Prod.mk.injEq, Sum.inr.injEq] at works
        obtain ⟨rfl, rfl, rfl⟩ := works
        have whole : performed perform spec (before ++ [(thread, call)]) =
            performed perform spec before ++ earlier ++ events := by
          rw [performed_append, List.append_assoc]
          simp only [performed, List.append_nil]
          rw [performs]
        rw [← whole]
        apply Linear.leaving thread result
        · exact locked
        · exact Monitor.goTo_phase_same _ _ _
        · exact outside_others outside
        · simp only [after_append, after]
          exact repNext
        · simp only [answered_append, answered]
          rw [performs]
  | leaving inner _ _ leaving outside =>
      have same := same_of_not_outside outside notOutside
      rw [same, inside] at leaving
      contradiction

theorem linear_returned (excludes : policy.Excludes Thread free held)
    {thread : Thread} {result : Result}
    (linear : Linear perform Rep Inside free held spec monitor calls showed given)
    (leaving : monitor.phase thread = .leaving result) :
    Linear perform Rep Inside free held spec
      ({ monitor with lock := policy.unlock monitor.lock }.goTo thread .idle) calls showed
      (given ++ [(thread, result)]) := by
  have notOutside : (monitor.phase thread).outside = false := by rw [leaving]; rfl
  cases linear with
  | nobody _ outside => rw [outside thread] at notOutside; contradiction
  | working inner _ _ inside outside =>
      have same := same_of_not_outside outside notOutside
      rw [same, leaving] at inside
      contradiction
  | leaving inner _ locked own outside rep answers =>
      have same := same_of_not_outside outside notOutside
      rw [same, leaving, Phase.leaving.injEq] at own
      rw [same] at outside answers
      rw [own, answers]
      apply Linear.nobody
      · exact excludes.unlocks _ locked
      · intro other
        by_cases others : other = thread
        · rw [others, Monitor.goTo_phase_same]
          rfl
        · exact outside_others outside other others
      · exact rep

/-- What every interleaving keeps. -/
theorem reachable_linear (excludes : policy.Excludes Thread free held)
    (implements : Implements routine perform Rep Inside remaining) {shared : Shared}
    (rep : Rep spec shared)
    {allowed : MonitorRun Thread Lock Shared Local Call Result Event → Move Thread Call → Prop}
    {config : MonitorRun Thread Lock Shared Local Call Result Event}
    (reached : Reachable (Monitor.step policy routine) allowed (Monitor.start policy shared)
      config) :
    Linear perform Rep Inside free held spec config.state (order config.history)
      (shown config.history) (answers config.history) := by
  apply reachable_invariant _ _ _ reached
  · exact .nobody excludes.initially (fun _ => rfl) rep
  · intro config move next notice linear _ moved
    simp only [Config.push, order_append, shown_append, answers_append]
    cases Monitor.stepped_of_step moved with
    | called idle =>
        simpa [order, shown, answers] using linear_called linear idle
    | entered calling locked =>
        simpa [order, shown, answers] using
          linear_entered excludes implements linear calling locked
    | further inside goesOn =>
        simpa [order, shown, answers] using linear_further implements linear inside goesOn
    | ended inside ends =>
        simpa [order, shown, answers] using linear_ended implements linear inside ends
    | returned leaving =>
        simpa [order, shown, answers] using linear_returned excludes linear leaving

/-! ## Consequences -/

/-- Any thread may move at any time. -/
def anyMove (_ : MonitorRun Thread Lock Shared Local Call Result Event)
    (_ : Move Thread Call) : Prop := True

variable (config : MonitorRun Thread Lock Shared Local Call Result Event) {thread : Thread}

theorem leads_stepped {move : Move Thread Call} {notice : Notice Call Result Event}
    (stepped : config.state.Stepped policy routine move next notice) :
    Leads (Monitor.step policy routine) anyMove config (config.push move next notice) :=
  .single (.run trivial (Monitor.step_of_stepped stepped))

theorem leaving_completes (routine : Routine Shared Local Call Result Event)
    (excludes : policy.Excludes Thread free held)
    {result : Result}
    (linear : Linear perform Rep Inside free held spec config.state calls showed given)
    (leaving : config.state.phase thread = .leaving result) :
    ∃ later, Leads (Monitor.step policy routine) anyMove config later ∧
      later.state.phase thread = .idle ∧
      (∀ other ≠ thread, later.state.phase other = config.state.phase other) ∧
      ∃ calls showed given,
        Linear perform Rep Inside free held spec later.state calls showed given := by
  refine ⟨_, leads_stepped _ (.returned leaving), ?_, ?_, _, _, _, linear_returned excludes linear
    leaving⟩
  · simp
  · intro other others
    exact Monitor.goTo_phase_other _ _ others

theorem inside_completes (excludes : policy.Excludes Thread free held)
    (implements : Implements routine perform Rep Inside remaining) {place : Local}
    (linear : Linear perform Rep Inside free held spec config.state calls showed given)
    (inside : config.state.phase thread = .inside place) :
    ∃ later, Leads (Monitor.step policy routine) anyMove config later ∧
      later.state.phase thread = .idle ∧
      (∀ other ≠ thread, later.state.phase other = config.state.phase other) ∧
      ∃ calls showed given,
        Linear perform Rep Inside free held spec later.state calls showed given := by
  induction most : remaining place config.state.shared using Nat.strongRecOn generalizing
    config place showed with
  | ind most ih =>
      have rep : ∃ call own events, Inside call own place config.state.shared events := by
        cases linear with
        | nobody _ outside =>
            have contra := outside thread
            rw [inside] at contra
            contradiction
        | working inner _ _ own outside rep =>
            have same := same_of_not_outside outside (by rw [inside]; rfl)
            rw [same, inside, Phase.inside.injEq] at own
            rw [← own] at rep
            exact ⟨_, _, _, rep⟩
        | leaving inner _ _ own outside =>
            have same := same_of_not_outside outside (by rw [inside]; rfl)
            rw [same, inside] at own
            contradiction
      obtain ⟨_, _, _, own⟩ := rep
      have others : ∀ {shared : Shared} {phase : Phase Local Call Result}, ∀ other ≠ thread,
          ({ config.state with shared := shared }.goTo thread phase).phase other =
            config.state.phase other :=
        fun other different => Monitor.goTo_phase_other _ _ different
      obtain ⟨shared, new, ⟨further, works, _, less⟩ | ⟨result, works, _, _⟩⟩ :=
        implements.works _ _ _ _ _ own
      · have linearNext := linear_further implements linear inside works
        obtain ⟨later, leads, idle, same, kept⟩ :=
          ih _ (most ▸ less) (config.push (.work thread) _ (.worked new)) linearNext
            (Monitor.goTo_phase_same _ _ _) rfl
        refine ⟨later, (leads_stepped _ (.further inside works)).trans leads, idle, ?_, kept⟩
        intro other different
        exact (same other different).trans (others other different)
      · have linearNext := linear_ended implements linear inside works
        obtain ⟨later, leads, idle, same, kept⟩ :=
          leaving_completes (config.push (.work thread) _ (.worked new)) routine excludes
            linearNext (Monitor.goTo_phase_same _ _ _)
        refine ⟨later, (leads_stepped _ (.ended inside works)).trans leads, idle, ?_, kept⟩
        intro other different
        exact (same other different).trans (others other different)

theorem calling_completes (excludes : policy.Excludes Thread free held)
    (implements : Implements routine perform Rep Inside remaining) {call : Call}
    (linear : Linear perform Rep Inside free held spec config.state calls showed given)
    (outside : ∀ other, (config.state.phase other).outside = true)
    (calling : config.state.phase thread = .calling call) :
    ∃ later, Leads (Monitor.step policy routine) anyMove config later ∧
      later.state.phase thread = .idle := by
  obtain ⟨unlocked, _⟩ := linear.at_rest outside
  obtain ⟨lock, locked, _⟩ := excludes.locks _ unlocked
  obtain ⟨later, leads, idle, _⟩ :=
    inside_completes (config.push (.lock thread) _ (.entered call)) excludes implements
      (linear_entered excludes implements linear calling locked) (Monitor.goTo_phase_same _ _ _)
  exact ⟨later, (leads_stepped _ (.entered calling locked)).trans leads, idle⟩

/-- No thread waits for ever: from every state, whoever is inside can go on until it has left,
and then any other. -/
theorem completes (excludes : policy.Excludes Thread free held)
    (implements : Implements routine perform Rep Inside remaining)
    (linear : Linear perform Rep Inside free held spec config.state calls showed given)
    (thread : Thread) :
    ∃ later, Leads (Monitor.step policy routine) anyMove config later ∧
      later.state.phase thread = .idle := by
  cases own : config.state.phase thread with
  | idle => exact ⟨config, .refl, own⟩
  | inside place =>
      obtain ⟨later, leads, idle, _⟩ := inside_completes config excludes implements linear own
      exact ⟨later, leads, idle⟩
  | leaving result =>
      obtain ⟨later, leads, idle, _⟩ :=
        leaving_completes config routine excludes linear own
      exact ⟨later, leads, idle⟩
  | calling call =>
      -- the one that is inside comes out first
      have freed : ∃ later, Leads (Monitor.step policy routine) anyMove config later ∧
          later.state.phase thread = .calling call ∧
          (∀ other, (later.state.phase other).outside = true) ∧
          ∃ calls showed given,
            Linear perform Rep Inside free held spec later.state calls showed given := by
        have emptied : ∀ inner, (config.state.phase inner).outside = false →
            (∀ other ≠ inner, (config.state.phase other).outside = true) →
            ∀ later : MonitorRun Thread Lock Shared Local Call Result Event,
            later.state.phase inner = .idle →
            (∀ other ≠ inner, later.state.phase other = config.state.phase other) →
            later.state.phase thread = .calling call ∧
              ∀ other, (later.state.phase other).outside = true := by
          intro inner inside outside later idle same
          constructor
          · rw [same thread, own]
            intro equal
            rw [← equal, own] at inside
            contradiction
          · intro other
            by_cases equal : other = inner
            · rw [equal, idle]
              rfl
            · rw [same other equal, outside other equal]
        cases linear with
        | nobody unlocked outside rep =>
            exact ⟨config, .refl, own, outside, _, _, _, .nobody unlocked outside rep⟩
        | working inner place locked inside outside rep =>
            obtain ⟨later, leads, idle, same, kept⟩ := inside_completes config excludes implements
              (.working inner place locked inside outside rep) inside
            have clear := emptied inner (by rw [inside]; rfl) outside later idle same
            exact ⟨later, leads, clear.1, clear.2, kept⟩
        | leaving inner result locked leaving outside rep answers =>
            obtain ⟨later, leads, idle, same, kept⟩ := leaving_completes config routine
              excludes (.leaving inner result locked leaving outside rep answers) leaving
            have clear := emptied inner (by rw [leaving]; rfl) outside later idle same
            exact ⟨later, leads, clear.1, clear.2, kept⟩
      obtain ⟨before, leads, still, outside, _, _, _, linearBefore⟩ := freed
      obtain ⟨later, further, idle⟩ :=
        calling_completes before excludes implements linearBefore outside still
      exact ⟨later, leads.trans further, idle⟩

end Interleavings

end Finm327.Library.Monitors
