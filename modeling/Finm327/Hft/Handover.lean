import Finm327.Hft.Turns

/-!
# The hand-over of the second matrix

One lemma for each kind of move: no plain variable is raced on, and the turns follow each
other as long as the worker does not read the 1 that the shutdown stores.
-/

namespace Finm327.Hft

open Finm327.Library.ReadLoops
open Finm327.Library.ReleaseAcquire
open Function (update)

namespace Threads

variable {task : Task} {threads next : Threads} {posted : List Nat}
  {started : List (Option Nat)}

theorem mine_of_main (turn : Turn task threads posted started) {place : Main}
    (here : threads.main = place) (owns : place.owns = true) :
    Mine task threads ∧ started = posted.map some := by
  cases turn with
  | mine mine balanced => exact ⟨mine, balanced⟩
  | handed waiting =>
      obtain ⟨_, _, p, i, parsing, _⟩ := waiting
      rw [← here, parsing] at owns
      cases owns
  | finished _ main =>
      rcases main with joining | ⟨stopped, _⟩
      · rw [← here, joining] at owns
        cases owns
      · rw [← here, stopped] at owns
        cases owns

theorem handed_of_main (turn : Turn task threads posted started) {p i : Nat}
    (parsing : threads.main = .parsing p i) :
    Waiting task threads ∧ Apart threads.accesses ∧ Stage task threads posted started := by
  cases turn with
  | mine mine =>
      have ready := mine.ready
      unfold Ready at ready
      rw [parsing] at ready
      exact ready.elim
  | handed waiting apart stage => exact ⟨waiting, apart, stage⟩
  | finished _ main =>
      rcases main with joining | ⟨stopped, _⟩
      · rw [parsing] at joining
        cases joining
      · rw [parsing] at stopped
        cases stopped

/-- A move of the main thread that leaves `work_state` alone. -/
theorem mine_next (mine : Mine task threads) (balanced : started = posted.map some)
    (worker : next.worker = threads.worker) (workState : next.workState = threads.workState)
    (ready : Ready task next) (fine : ¬ next.accesses.raced) (own : next.accesses.Own)
    (knows : MainKnows next.accesses (next.accesses.clock .main)) :
    Sound task next posted started := by
  refine ⟨fine, own, .mine ⟨?_, knows, ?_, ready⟩ balanced⟩
  · unfold Quiet
    rw [worker]
    exact mine.quiet
  · rw [workState]
    exact mine.hidden

theorem mine_access (sound : Sound task threads posted started) {place : Main}
    (here : threads.main = place) (owns : place.owns = true) {kind : Access} {var : Shared}
    (worker : next.worker = threads.worker) (workState : next.workState = threads.workState)
    (accesses : next.accesses = threads.accesses.access kind .main var)
    (ready : Mine task threads → Ready task next) : Sound task next posted started := by
  obtain ⟨mine, balanced⟩ := mine_of_main sound.turn here owns
  apply mine_next mine balanced worker workState (ready mine)
  · rw [accesses]
    exact mine.knows.not_raced sound.fine
  · rw [accesses]
    exact sound.own.access
  · rw [accesses]
    exact mine.knows.main_access

theorem post_sound (sound : Sound task threads posted started) {p q : Nat}
    (published : threads.main = .posting p q) :
    Sound task { threads with
      main := .parsing p 0
      workState := threads.workState.store .main 1 (threads.accesses.clock .main) }
      (posted ++ [q]) started := by
  obtain ⟨mine, balanced⟩ := mine_of_main sound.turn published rfl
  have ready := mine.ready
  unfold Ready at ready
  rw [published] at ready
  obtain ⟨located, pointer⟩ := ready
  refine ⟨sound.fine, sound.own, .handed ?_ mine.knows.apart ?_⟩
  · exact ⟨p, q, p, 0, rfl, located, pointer, filled_zero _ _ _⟩
  · refine .offered mine.quiet ?_ (threads.accesses.clock .main) ?_ ?_ ?_
    · exact Atomic.none_visible_store_self (by decide)
    · exact mine.hidden.only_last_store (by decide)
    · exact ⟨sound.own .main .write .workerP, sound.own .main .write .recvbuf,
        fun kind => sound.own .main kind .B⟩
    · rw [List.map_append, balanced, pointer, List.map_singleton]

theorem parse_A_sound (sound : Sound task threads posted started) {p i : Nat} {v : Int32}
    {rest : List UInt8} (parsing : threads.main = .parsing p i)
    (value : parseIntS1 (threads.recvbuf.drop p) = some (v, rest)) :
    Sound task { threads with
      main := .parsing (position threads.recvbuf rest) (i + 1)
      A := update threads.A i v
      accesses := (threads.accesses.access .read .main .recvbuf).access .write .main .A }
      posted started := by
  obtain ⟨waiting, apart, stage⟩ := handed_of_main sound.turn parsing
  have sameClock : ((threads.accesses.access .read .main .recvbuf).access .write .main .A).clock
      .worker = threads.accesses.clock .worker := by
    rw [Accesses.access_clock_of_ne (by decide), Accesses.access_clock_of_ne (by decide)]
  refine ⟨apart.not_raced sound.fine, sound.own.access.access, .handed ?_ apart.parse_A ?_⟩
  · obtain ⟨first, q, _, _, here, located, pointer, filled⟩ := waiting
    rw [parsing, Main.parsing.injEq] at here
    obtain ⟨rfl, rfl⟩ := here
    have suffix : rest <:+ threads.recvbuf :=
      (parse_int_s1_suffix value).trans (List.drop_suffix p threads.recvbuf)
    refine ⟨first, q, _, _, rfl, located, pointer, ?_⟩
    rw [drop_position suffix]
    exact filled.snoc value fun t before => Nat.ne_of_lt before
  · cases stage with
    | offered quiet hidden published last handed behind =>
        exact .offered quiet hidden published last handed.parse_A behind
    | taking woken hidden handed behind =>
        refine .taking woken hidden ?_ behind
        dsimp only
        rw [sameClock]
        exact handed.parse_A
    | reading p t reading hidden handed filled balanced =>
        refine .reading p t reading hidden ?_ filled balanced
        dsimp only
        rw [sameClock]
        exact handed.parse_A
    | done quiet hidden published last knows rest filled balanced =>
        exact .done quiet hidden published last knows.access.access rest filled balanced

/-- The main thread goes on only when it reads the 2 that the worker stored last. -/
theorem await_sound (sound : Sound task threads posted started) {index p i : Nat}
    {read : Store Thread Int} {workState : Atomic Thread Int}
    (parsing : threads.main = .parsing p i) (done : i = task.cells)
    (loaded : threads.workState.load .main index = some (read, workState)) :
    Sound task { threads with
      main := if read.value = 2 then .resetting else .parsing p i
      workState := workState
      accesses := threads.accesses.acquire .main read.published } posted started := by
  obtain ⟨waiting, apart, stage⟩ := handed_of_main sound.turn parsing
  obtain ⟨visible, found, _⟩ := Atomic.load_eq_some loaded
  have sameClock : (threads.accesses.acquire .main read.published).clock .worker =
      threads.accesses.clock .worker := Accesses.acquire_clock_of_ne (by decide)
  have still : Waiting task { threads with
      main := .parsing p i
      workState := workState
      accesses := threads.accesses.acquire .main read.published } := by
    obtain ⟨first, q, _, _, here, located, pointer, filled⟩ := waiting
    rw [parsing, Main.parsing.injEq] at here
    obtain ⟨rfl, rfl⟩ := here
    exact ⟨first, q, p, i, rfl, located, pointer, filled⟩
  refine ⟨sound.fine, sound.own.acquire, ?_⟩
  cases stage with
  | offered quiet hidden published last handed behind =>
      rw [if_neg (hidden index read visible found)]
      exact .handed still apart.main_acquire
        (.offered quiet (hidden.load loaded) published (last.load loaded) (handed.acquire _)
          behind)
  | taking woken hidden handed behind =>
      rw [if_neg (hidden index read visible found)]
      refine .handed still apart.main_acquire (.taking woken (hidden.load loaded) ?_ behind)
      dsimp only
      rw [sameClock]
      exact handed.acquire _
  | reading r t reading hidden handed filled balanced =>
      rw [if_neg (hidden index read visible found)]
      refine .handed still apart.main_acquire
        (.reading r t reading (hidden.load loaded) ?_ filled balanced)
      dsimp only
      rw [sameClock]
      exact handed.acquire _
  | done quiet hidden published last knows rest filled balanced =>
      split_ifs with two
      · obtain ⟨same, _⟩ := last index read visible found two
        refine .mine ⟨quiet, ?_, hidden.load loaded, ?_⟩ balanced
        · exact MainKnows.mono knows (same ▸ Accesses.published_le_acquire _)
        · obtain ⟨first, q, _, _, here, located, pointer, filledA⟩ := waiting
          rw [parsing, Main.parsing.injEq] at here
          obtain ⟨rfl, rfl⟩ := here
          obtain ⟨other, samePointer, filledB⟩ := filled
          rw [pointer, Option.some.injEq] at samePointer
          exact ⟨first, q, _, _, located, done ▸ filledA, samePointer ▸ filledB⟩
      · exact .handed still apart.main_acquire
          (.done quiet (hidden.load loaded) published (last.load loaded) knows rest filled balanced)

theorem test_sound (sound : Sound task threads posted started) {index : Nat}
    {read : Store Thread Int} {workState : Atomic Thread Int} (idle : threads.worker = .testing)
    (loaded : threads.workState.load .worker index = some (read, workState))
    (unwoken : threads.main = .joining → index + 1 ≠ threads.workState.stores.length) :
    Sound task { threads with
      worker := if read.value = 1 then .taking else .checking
      workState := workState
      accesses := threads.accesses.acquire .worker read.published } posted started := by
  obtain ⟨visible, found, _⟩ := Atomic.load_eq_some loaded
  have sameClock : (threads.accesses.acquire .worker read.published).clock .main =
      threads.accesses.clock .main := Accesses.acquire_clock_of_ne (by decide)
  have sameApart : Apart threads.accesses →
      Apart (threads.accesses.acquire .worker read.published) := by
    intro apart
    constructor
    · rw [sameClock]
      exact apart.recvbuf
    · rw [sameClock]
      exact apart.A
  refine ⟨sound.fine, sound.own.acquire, ?_⟩
  cases sound.turn with
  | mine mine balanced =>
      rw [if_neg (mine.hidden index read visible found)]
      refine .mine ⟨.inr (.inl rfl), ?_, mine.hidden.load loaded, mine.ready⟩ balanced
      dsimp only
      rw [sameClock]
      exact mine.knows
  | handed waiting apart stage =>
      cases stage with
      | offered quiet hidden published last handed behind =>
          split_ifs with one
          · obtain ⟨same, _⟩ := last index read visible found one
            refine .handed waiting (sameApart apart) (.taking rfl (hidden.load loaded) ?_ behind)
            exact (handed.acquire _).mono (same ▸ Accesses.published_le_acquire _)
          · exact .handed waiting (sameApart apart) (.offered (.inr (.inl rfl))
              (hidden.load loaded) published (last.load loaded) (handed.acquire _) behind)
      | taking woken =>
          rw [idle] at woken
          cases woken
      | reading p t parsing =>
          rw [idle] at parsing
          cases parsing
      | done quiet hidden published last knows rest filled balanced =>
          rw [if_neg (hidden index read visible found)]
          exact .handed waiting (sameApart apart) (.done (.inr (.inl rfl)) (hidden.load loaded)
            published (last.load loaded) knows rest filled balanced)
  | finished quiet main published last woken balanced =>
      obtain ⟨_, stores⟩ := Atomic.position_le_load loaded .worker
      have joining : threads.main = .joining := by
        rcases main with joining | ⟨_, returned⟩
        · exact joining
        · rw [idle] at returned
          cases returned
      have other : read.value ≠ 1 :=
        fun one => unwoken joining (last index read visible found one).2
      rw [if_neg other]
      exact .finished (.inr (.inl rfl)) (.inl joining) published (last.load loaded)
        (stores ▸ woken) balanced

theorem check_sound (sound : Sound task threads posted started)
    (idle : threads.worker = .checking) (workerExit : Atomic Thread Bool) (exit : Bool) :
    Sound task { threads with
      worker := if exit then .returned else .testing, workerExit := workerExit }
      posted started := by
  have quiet : Quiet { threads with
      worker := if exit then .returned else .testing, workerExit := workerExit } := by
    cases exit with
    | true => exact .inr (.inr rfl)
    | false => exact .inl rfl
  refine ⟨sound.fine, sound.own, ?_⟩
  cases sound.turn with
  | mine mine balanced => exact .mine ⟨quiet, mine.knows, mine.hidden, mine.ready⟩ balanced
  | handed waiting apart stage =>
      refine .handed waiting apart ?_
      cases stage with
      | offered _ hidden published last handed behind =>
          exact .offered quiet hidden published last handed behind
      | taking woken =>
          rw [idle] at woken
          cases woken
      | reading p t parsing =>
          rw [idle] at parsing
          cases parsing
      | done _ hidden published last knows rest filled balanced =>
          exact .done quiet hidden published last knows rest filled balanced
  | finished _ main published last woken balanced =>
      refine .finished quiet ?_ published last woken balanced
      rcases main with joining | ⟨_, returned⟩
      · exact .inl joining
      · rw [idle] at returned
        cases returned

/-- A worker that has been woken or parses was handed a challenge. -/
theorem stage_of_worker (turn : Turn task threads posted started) (busy : ¬ threads.Quiet) :
    Waiting task threads ∧ Apart threads.accesses ∧
      threads.workState.NoneVisible .main 2 ∧
      Handed threads.accesses (threads.accesses.clock .worker) ∧
      (threads.worker = .taking ∧ posted.map some = started ++ [threads.workerP] ∨
        ∃ p t, threads.worker = .parsing (some p) t ∧
          FilledB task threads t (threads.recvbuf.drop p) ∧ started = posted.map some) := by
  cases turn with
  | mine mine => exact absurd mine.quiet busy
  | handed waiting apart stage =>
      cases stage with
      | offered quiet => exact absurd quiet busy
      | taking woken hidden handed behind =>
          exact ⟨waiting, apart, hidden, handed, .inl ⟨woken, behind⟩⟩
      | reading p t parsing hidden handed filled balanced =>
          exact ⟨waiting, apart, hidden, handed, .inr ⟨p, t, parsing, filled, balanced⟩⟩
      | done quiet => exact absurd quiet busy
  | finished quiet => exact absurd quiet busy

theorem take_sound (sound : Sound task threads posted started)
    (woken : threads.worker = .taking) :
    Sound task { threads with
      worker := .parsing threads.workerP 0
      accesses := threads.accesses.access .read .worker .workerP }
      posted (started ++ [threads.workerP]) := by
  obtain ⟨waiting, apart, hidden, handed, place⟩ :=
    stage_of_worker sound.turn (by simp [Quiet, woken])
  have behind : posted.map some = started ++ [threads.workerP] := by
    rcases place with ⟨_, behind⟩ | ⟨p, t, parsing, _⟩
    · exact behind
    · rw [woken] at parsing
      cases parsing
  obtain ⟨first, q, p, i, here, located, pointer, filled⟩ := waiting
  refine ⟨handed.not_raced sound.fine (.inl ⟨rfl, .inl rfl⟩), sound.own.access, .handed ?_ ?_ ?_⟩
  · exact ⟨first, q, p, i, here, located, pointer, filled⟩
  · exact apart.worker_access (by decide) (by decide)
  · refine .reading q 0 ?_ hidden handed.worker_access ?_ behind.symm
    · dsimp only
      rw [pointer]
    · exact ⟨q, pointer, filled_zero _ _ _⟩

theorem parse_B_sound (sound : Sound task threads posted started) {p t : Nat} {v : Int32}
    {rest : List UInt8} (parsing : threads.worker = .parsing (some p) t) (more : t < task.cells)
    (value : parseIntS1 (threads.recvbuf.drop p) = some (v, rest)) :
    Sound task { threads with
      worker := .parsing (some (position threads.recvbuf rest)) (t + 1)
      B := update threads.B (task.slot t) v
      accesses := (threads.accesses.access .read .worker .recvbuf).access .write .worker .B }
      posted started := by
  obtain ⟨waiting, apart, hidden, handed, place⟩ :=
    stage_of_worker sound.turn (by simp [Quiet, parsing])
  rcases place with ⟨woken, _⟩ | ⟨_, _, here, ⟨q, pointer, filled⟩, balanced⟩
  · rw [parsing] at woken
    cases woken
  rw [parsing, Worker.parsing.injEq, Option.some.injEq] at here
  obtain ⟨rfl, rfl⟩ := here
  have suffix : rest <:+ threads.recvbuf :=
    (parse_int_s1_suffix value).trans (List.drop_suffix p threads.recvbuf)
  have fineRead := handed.not_raced sound.fine (.inl ⟨rfl, .inr rfl⟩)
  refine ⟨handed.worker_access.not_raced fineRead (.inr rfl), sound.own.access.access,
    .handed waiting ?_ ?_⟩
  · exact (apart.worker_access (by decide) (by decide)).worker_access (by decide) (by decide)
  · refine .reading _ _ rfl hidden handed.worker_access.worker_access ?_ balanced
    refine ⟨q, pointer, ?_⟩
    rw [drop_position suffix]
    apply filled.snoc value
    intro s before same
    exact Nat.ne_of_lt before (task.injective s t (Nat.lt_trans before more) more same)

theorem complete_sound (sound : Sound task threads posted started) {p : Option Nat} {t : Nat}
    (parsing : threads.worker = .parsing p t) (done : t = task.cells) :
    Sound task { threads with
      worker := .testing
      workState := threads.workState.store .worker 2 (threads.accesses.clock .worker) }
      posted started := by
  obtain ⟨waiting, apart, hidden, handed, place⟩ :=
    stage_of_worker sound.turn (by simp [Quiet, parsing])
  rcases place with ⟨woken, _⟩ | ⟨_, _, here, filled, balanced⟩
  · rw [parsing] at woken
    cases woken
  rw [parsing, Worker.parsing.injEq] at here
  obtain ⟨_, rfl⟩ := here
  refine ⟨sound.fine, sound.own, .handed waiting apart ?_⟩
  refine .done (.inl rfl) ?_ (threads.accesses.clock .worker) ?_ ?_ _ (done ▸ filled) balanced
  · exact Atomic.none_visible_store_self (by decide)
  · exact hidden.only_last_store (by decide)
  · exact fun kind var => sound.own .worker kind var

theorem sound_of_silent {notice : Notice} (posts : notice.postedAt = none)
    (starts : notice.startedAt = none) (sound : Sound task next posted started) :
    Sound task next (posted ++ notice.postedAt.toList) (started ++ notice.startedAt.toList) := by
  rw [posts, starts, Option.toList_none, Option.toList_none, List.append_nil, List.append_nil]
  exact sound

theorem step_sound {move : Move} {notice : Notice} (sound : Sound task threads posted started)
    (unwoken : ∀ index, move = .test index → threads.main = .joining →
      index + 1 ≠ threads.workState.stores.length)
    (ran : step task threads move = some (next, notice)) :
    Sound task next (posted ++ notice.postedAt.toList) (started ++ notice.startedAt.toList) := by
  cases step_effect ran with
  | fill idle =>
      apply sound_of_silent rfl rfl
      exact mine_access sound idle rfl rfl rfl rfl fun _ => trivial
  | hangUp idle =>
      apply sound_of_silent rfl rfl
      exact mine_access sound idle rfl rfl rfl rfl fun _ => trivial
  | locate filled located =>
      apply sound_of_silent rfl rfl
      exact mine_access sound filled rfl rfl rfl rfl fun _ => located
  | publish located =>
      apply sound_of_silent rfl rfl
      refine mine_access sound located rfl rfl rfl rfl fun mine => ?_
      have ready := mine.ready
      unfold Ready at ready
      rw [located] at ready
      exact ⟨ready, rfl⟩
  | post published =>
      simp only [Notice.postedAt, Notice.startedAt, Option.toList_none, Option.toList_some,
        List.append_nil]
      exact post_sound sound published
  | parseA parsing _ value =>
      apply sound_of_silent rfl rfl
      exact parse_A_sound sound parsing value
  | await parsing done loaded =>
      apply sound_of_silent rfl rfl
      exact await_sound sound parsing done loaded
  | reset done =>
      apply sound_of_silent rfl rfl
      obtain ⟨mine, balanced⟩ := mine_of_main sound.turn done rfl
      have ready := mine.ready
      unfold Ready at ready
      rw [done] at ready
      refine ⟨sound.fine, sound.own, .mine ⟨mine.quiet, mine.knows, ?_, ready⟩ balanced⟩
      exact mine.hidden.store (by decide) (by decide)
  | trace filled =>
      apply sound_of_silent rfl rfl
      obtain ⟨mine, balanced⟩ := mine_of_main sound.turn filled rfl
      have fineA : ¬ (threads.accesses.access .read .main .A).raced :=
        mine.knows.not_raced sound.fine
      exact mine_next mine balanced rfl rfl trivial (mine.knows.main_access.not_raced fineA)
        sound.own.access.access mine.knows.main_access.main_access
  | setExit closed =>
      apply sound_of_silent rfl rfl
      obtain ⟨mine, balanced⟩ := mine_of_main sound.turn closed rfl
      exact mine_next mine balanced rfl rfl trivial sound.fine sound.own mine.knows
  | wake closed =>
      apply sound_of_silent rfl rfl
      obtain ⟨mine, balanced⟩ := mine_of_main sound.turn closed rfl
      refine ⟨sound.fine, sound.own, .finished mine.quiet (.inl rfl)
        (threads.accesses.clock .main) ?_ List.getLast?_concat balanced⟩
      exact mine.hidden.only_last_store (by decide)
  | join woken returned =>
      apply sound_of_silent rfl rfl
      refine ⟨sound.fine, sound.own, ?_⟩
      cases sound.turn with
      | mine mine =>
          have ready := mine.ready
          unfold Ready at ready
          rw [woken] at ready
          exact ready.elim
      | handed waiting =>
          obtain ⟨_, _, p, i, parsing, _⟩ := waiting
          rw [woken] at parsing
          cases parsing
      | finished quiet _ published last woken balanced =>
          exact .finished quiet (.inr ⟨rfl, returned⟩) published last woken balanced
  | test idle loaded =>
      apply sound_of_silent rfl rfl
      exact test_sound sound idle loaded (unwoken _ rfl)
  | check idle =>
      apply sound_of_silent rfl rfl
      exact check_sound sound idle _ _
  | take woken =>
      simp only [Notice.postedAt, Notice.startedAt, Option.toList_none, Option.toList_some,
        List.append_nil]
      exact take_sound sound woken
  | parseB parsing more value =>
      apply sound_of_silent rfl rfl
      exact parse_B_sound sound parsing more value
  | complete parsing done =>
      apply sound_of_silent rfl rfl
      exact complete_sound sound parsing done

end Threads

end Finm327.Hft
