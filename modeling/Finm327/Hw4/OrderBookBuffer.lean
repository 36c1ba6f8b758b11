import Finm327.Library.Monitors
import Mathlib.Algebra.Group.Nat.Defs
import Mathlib.Data.List.Basic

/-!
# The order buffer and its threading policies

Transcribes `OrderBookBuffer` of `hw4/include/OrderBookBuffer.hpp` with its two threading
policies, one move of a thread for each step that another could come between. What copying the
argument gives comes with the call: without a value the copy constructor throws. `size()`,
which does not take the lock, is left out.
-/

namespace Finm327.Hw4

open Finm327.Library.Runs Finm327.Library.Monitors

structure OrderBookBuffer (T : Type) where
  cap : UInt64
  size : UInt64
  /-- How many elements the allocated bytes hold. -/
  room : Nat
  /-- Raw storage has no value. -/
  data : Nat → Option T

inductive BookCall (T : Type) where
  | addOrder (copied : Option T)
  | printOrders
deriving DecidableEq

inductive BookAnswer where
  | added (ok : Bool)
  | threw
  | printed
deriving DecidableEq

inductive BookEvent (T : Type) where
  | constructed (slot : Nat) (value : T)
  | printed (slot : Nat) (value : T)
deriving DecidableEq

/-- Where a call is. -/
inductive BookPlace (T : Type) where
  | testing (copied : Option T)
  | constructing (copied : Option T)
  | counting
  | printing (i : UInt64)
deriving DecidableEq

def noLock : LockPolicy Unit := ⟨(), some, id⟩

def mutexLock : LockPolicy Bool := ⟨false, fun m => if m then none else some true, fun _ => false⟩

variable {T : Type}

namespace OrderBookBuffer

def make (sizeofT capacity : UInt64) : OrderBookBuffer T :=
  ⟨capacity, 0, (sizeofT * capacity).toNat / sizeofT.toNat, fun _ => none⟩

def enter : BookCall T → BookPlace T
  | .addOrder copied => .testing copied
  | .printOrders => .printing 0

def step : BookPlace T → OrderBookBuffer T →
    Option (OrderBookBuffer T × List (BookEvent T) × (BookPlace T ⊕ BookAnswer))
  | .testing copied, book =>
      if book.size ≥ book.cap then some (book, [], .inr (.added false))
      else some (book, [], .inl (.constructing copied))
  | .constructing none, book => some (book, [], .inr .threw)
  | .constructing (some value), book =>
      if book.size.toNat < book.room then
        some ({ book with data := Function.update book.data book.size.toNat (some value) },
          [.constructed book.size.toNat value], .inl .counting)
      else none
  | .counting, book => some ({ book with size := book.size + 1 }, [], .inr (.added true))
  | .printing i, book =>
      if i < book.size then
        (book.data i.toNat).map fun value =>
          (book, [.printed i.toNat value], .inl (.printing (i + 1)))
      else some (book, [], .inr .printed)

def routine : Routine (OrderBookBuffer T) (BookPlace T) (BookCall T) BookAnswer (BookEvent T) :=
  ⟨enter, step⟩

/-- The elements that the destructor's loop ends in its first rounds; ending raw storage has no
meaning. -/
def destroyFirst (book : OrderBookBuffer T) : Nat → Option (List (Nat × T))
  | 0 => some []
  | i + 1 => do
      let before ← book.destroyFirst i
      let value ← book.data i
      some (before ++ [(i, value)])

def destroy (book : OrderBookBuffer T) : Option (List (Nat × T)) :=
  book.destroyFirst book.size.toNat

/-! ## What it is for: a list of at most `cap` elements -/

def perform (cap : Nat) : BookCall T → List T → List T × List (BookEvent T) × BookAnswer
  | .addOrder copied, elements =>
      if elements.length < cap then
        match copied with
        | none => (elements, [], .threw)
        | some value =>
            (elements ++ [value], [.constructed elements.length value], .added true)
      else (elements, [], .added false)
  | .printOrders, elements => (elements, elements.mapIdx .printed, .printed)

/-- The storage has the elements of the list in its first slots and is raw from there on. -/
structure Holds (cap : Nat) (elements : List T) (book : OrderBookBuffer T) : Prop where
  capacity : book.cap.toNat = cap
  enough : cap ≤ book.room
  bounded : elements.length ≤ cap
  size : book.size.toNat = elements.length
  data : ∀ i, book.data i = elements[i]?

/-- Where an undisturbed call can be, and what it has shown by then. -/
def Inside (cap : Nat) : BookCall T → List T → BookPlace T → OrderBookBuffer T →
    List (BookEvent T) → Prop
  | .addOrder copied, elements, .testing own, book, events =>
      own = copied ∧ Holds cap elements book ∧ events = []
  | .addOrder copied, elements, .constructing own, book, events =>
      own = copied ∧ Holds cap elements book ∧ elements.length < cap ∧ events = []
  | .addOrder copied, elements, .counting, book, events =>
      ∃ value, copied = some value ∧ elements.length < cap ∧
        Holds cap (elements ++ [value]) { book with size := book.size + 1 } ∧
        events = [.constructed elements.length value]
  | .printOrders, elements, .printing i, book, events =>
      i.toNat ≤ elements.length ∧ Holds cap elements book ∧
        events = (elements.take i.toNat).mapIdx .printed
  | _, _, _, _, _ => False

def remaining : BookPlace T → OrderBookBuffer T → Nat
  | .testing _, _ => 3
  | .constructing _, _ => 2
  | .counting, _ => 1
  | .printing i, book => book.size.toNat - i.toNat

theorem holds_make {sizeofT capacity : UInt64} (sized : 0 < sizeofT)
    (fits : sizeofT.toNat * capacity.toNat < 2 ^ 64) :
    Holds capacity.toNat [] (make sizeofT capacity : OrderBookBuffer T) where
  capacity := rfl
  enough := by
    have exact : (sizeofT * capacity).toNat = sizeofT.toNat * capacity.toNat := by
      rw [UInt64.toNat_mul, Nat.mod_eq_of_lt fits]
    simp [make, exact, Nat.mul_div_cancel_left _ (UInt64.lt_iff_toNat_lt.mp sized)]
  bounded := Nat.zero_le _
  size := rfl
  data _ := rfl

theorem Holds.full_iff {cap : Nat} {elements : List T} {book : OrderBookBuffer T}
    (holds : Holds cap elements book) : book.size ≥ book.cap ↔ ¬ elements.length < cap := by
  rw [ge_iff_le, UInt64.le_iff_toNat_le, holds.capacity, holds.size, Nat.not_lt]

/-- The slot behind the last element is free, and filling it is adding to the list. -/
theorem Holds.add {cap : Nat} {elements : List T} {book : OrderBookBuffer T}
    (holds : Holds cap elements book) (space : elements.length < cap) (value : T) :
    Holds cap (elements ++ [value])
      { book with
        data := Function.update book.data book.size.toNat (some value)
        size := book.size + 1 } where
  capacity := holds.capacity
  enough := holds.enough
  bounded := by simpa using Nat.succ_le_of_lt space
  size := by
    have word := book.cap.toNat_lt
    have capacity := holds.capacity
    have size := holds.size
    simp only [UInt64.toNat_add, UInt64.toNat_one, List.length_append, List.length_singleton]
    omega
  data i := by
    simp only [holds.size]
    rcases Nat.lt_trichotomy i elements.length with before | here | behind
    · rw [Function.update_of_ne (by omega), holds.data, List.getElem?_append_left before]
    · simp [here]
    · rw [Function.update_of_ne (by omega), holds.data, List.getElem?_eq_none (by omega),
        List.getElem?_eq_none (by simpa using Nat.succ_le_of_lt behind)]

theorem printed_next {elements : List T} {i : Nat} (inside : i < elements.length) :
    (elements.take (i + 1)).mapIdx BookEvent.printed =
      (elements.take i).mapIdx BookEvent.printed ++ [.printed i elements[i]] := by
  rw [List.take_succ_eq_append_getElem inside, List.mapIdx_append]
  simp [Nat.min_eq_left (Nat.le_of_lt inside)]

theorem implements (cap : Nat) :
    Implements routine (perform cap) (Holds cap : List T → OrderBookBuffer T → Prop) (Inside cap)
      remaining where
  enters call elements book holds := by
    cases call with
    | addOrder copied => exact ⟨rfl, holds, rfl⟩
    | printOrders => exact ⟨Nat.zero_le _, holds, rfl⟩
  works call elements place book events inside := by
    cases call with
    | addOrder copied =>
        cases place with
        | printing => contradiction
        | testing own =>
            obtain ⟨rfl, holds, rfl⟩ := inside
            by_cases space : elements.length < cap
            · have room : ¬ book.size ≥ book.cap := by rwa [holds.full_iff, not_not]
              refine ⟨book, [], .inl ⟨.constructing own, ?_, ⟨rfl, holds, space, rfl⟩, ?_⟩⟩
              · simp [routine, step, if_neg room]
              · simp [remaining]
            · have full : book.size ≥ book.cap := by rwa [holds.full_iff]
              refine ⟨book, [], .inr ⟨.added false, ?_, ?_, ?_⟩⟩
              · simp [routine, step, if_pos full]
              · simp [perform, if_neg space]
              · simpa [perform, if_neg space] using holds
        | constructing own =>
            obtain ⟨rfl, holds, space, rfl⟩ := inside
            cases own with
            | none =>
                refine ⟨book, [], .inr ⟨.threw, rfl, ?_, ?_⟩⟩
                · simp [perform, if_pos space]
                · simpa [perform, if_pos space] using holds
            | some value =>
                have room : book.size.toNat < book.room := by
                  rw [holds.size]
                  exact Nat.lt_of_lt_of_le space holds.enough
                refine ⟨{ book with data := Function.update book.data book.size.toNat value },
                  [.constructed book.size.toNat value], .inl ⟨.counting, ?_, ?_, ?_⟩⟩
                · simp only [routine, step, if_pos room]
                · exact ⟨value, rfl, space, holds.add space value, by rw [holds.size]; rfl⟩
                · simp [remaining]
        | counting =>
            obtain ⟨value, rfl, space, holds, rfl⟩ := inside
            refine ⟨{ book with size := book.size + 1 }, [], .inr ⟨.added true, rfl, ?_, ?_⟩⟩
            · simp [perform, if_pos space]
            · simpa [perform, if_pos space] using holds
    | printOrders =>
        cases place with
        | testing => contradiction
        | constructing => contradiction
        | counting => contradiction
        | printing i =>
            obtain ⟨bound, holds, rfl⟩ := inside
            have size := holds.size
            by_cases more : i < book.size
            · have within : i.toNat < elements.length := by
                rwa [← size, ← UInt64.lt_iff_toNat_lt]
              have advanced : (i + 1).toNat = i.toNat + 1 := by
                have word := book.size.toNat_lt
                simp only [UInt64.toNat_add, UInt64.toNat_one]
                omega
              refine ⟨book, [.printed i.toNat elements[i.toNat]], .inl ⟨.printing (i + 1), ?_, ?_,
                ?_⟩⟩
              · simp [routine, step, if_pos more, holds.data, within]
              · refine ⟨?_, holds, ?_⟩
                · omega
                · rw [advanced, printed_next within]
              · simp only [remaining, advanced]
                omega
            · have whole : i.toNat = elements.length := by
                rw [UInt64.lt_iff_toNat_lt] at more
                omega
              refine ⟨book, [], .inr ⟨.printed, ?_, ?_, holds⟩⟩
              · simp [routine, step, if_neg more]
              · simp [perform, whole]

/-! ## Every interleaving -/

abbrev BufferRun (Thread Lock T : Type) :=
  MonitorRun Thread Lock (OrderBookBuffer T) (BookPlace T) (BookCall T) BookAnswer (BookEvent T)

theorem mutexLock_excludes (Thread : Type) : mutexLock.Excludes Thread (· = false) (· = true) where
  initially := rfl
  locks state free := ⟨true, by simp [mutexLock, free], rfl⟩
  blocks state held := .inl (by simp [mutexLock, held])
  unlocks _ _ := rfl

theorem noLock_excludes (Thread : Type) [single : Subsingleton Thread] :
    noLock.Excludes Thread (fun _ => True) (fun _ => True) where
  initially := trivial
  locks state _ := ⟨state, rfl, trivial⟩
  blocks _ _ := .inr single
  unlocks _ _ := trivial

variable {Thread Lock : Type} [DecidableEq Thread]

/-- All runs of a buffer, under a policy. -/
def Runs (policy : LockPolicy Lock) (sizeofT capacity : UInt64)
    (config : BufferRun Thread Lock T) : Prop :=
  Reachable (Monitor.step policy routine) anyMove
    (Monitor.start policy (make sizeofT capacity)) config

section Guarded

variable {policy : LockPolicy Lock} {free held : Lock → Prop} {sizeofT capacity : UInt64}
  {config : BufferRun Thread Lock T}

theorem reachable_holds (excludes : policy.Excludes Thread free held) (sized : 0 < sizeofT)
    (fits : sizeofT.toNat * capacity.toNat < 2 ^ 64) (runs : Runs policy sizeofT capacity config) :
    Linear (perform capacity.toNat) (Holds capacity.toNat) (Inside capacity.toNat) free held []
      config.state (order config.history) (shown config.history) (answers config.history) :=
  reachable_linear excludes (implements capacity.toNat) (holds_make sized fits) runs

end Guarded

instance anyMove_decidable (config : BufferRun Thread Lock T) (move : Move Thread (BookCall T)) :
    Decidable (anyMove config move) := inferInstanceAs (Decidable True)

/-- The second thread calls while the first is inside. -/
def overlapping : List (Move Bool (BookCall Nat)) :=
  [.call false (.addOrder (some 7)), .lock false, .work false, .call true .printOrders,
    .work false, .work false, .unlock false, .lock true, .work true]

theorem overlapping_runs : ∃ config : BufferRun Bool Bool Nat,
    Runs mutexLock 24 10 config ∧ shown config.history = [.constructed 0 7, .printed 0 7] := by
  have goes : (execute (Monitor.step mutexLock routine) anyMove
      (.start (Monitor.start mutexLock (make 24 10))) overlapping).any (fun config =>
        decide (shown config.history = [.constructed 0 7, .printed 0 7])) = true := by
    decide
  exact reachable_of_execute_any goes

/-- The elements that were constructed, each with its slot. -/
def constructions (events : List (BookEvent T)) : List (Nat × T) :=
  events.filterMap fun
    | .constructed slot value => some (slot, value)
    | .printed _ _ => none

/-- The elements of a list with their places. -/
def slots (elements : List T) : List (Nat × T) := elements.mapIdx fun i value => (i, value)

theorem slots_append (elements : List T) (value : T) :
    slots (elements ++ [value]) = slots elements ++ [(elements.length, value)] := by
  simp [slots]

theorem constructions_append (first second : List (BookEvent T)) :
    constructions (first ++ second) = constructions first ++ constructions second := by
  simp [constructions]

theorem constructions_printed (elements : List T) :
    constructions (elements.mapIdx .printed) = [] := by
  unfold constructions
  apply List.filterMap_eq_nil_iff.mpr
  intro event member
  obtain ⟨i, inside, rfl⟩ := List.mem_mapIdx.mp member
  rfl

theorem perform_slots (cap : Nat) (call : BookCall T) (elements : List T) :
    slots (perform cap call elements).1 =
      slots elements ++ constructions (perform cap call elements).2.1 := by
  cases call with
  | printOrders => simp [perform, constructions_printed]
  | addOrder copied =>
      by_cases space : elements.length < cap
      · cases copied with
        | none => simp [perform, space, constructions]
        | some value => simp [perform, space, slots_append, constructions]
      · simp [perform, space, constructions]

omit [DecidableEq Thread] in
theorem performed_slots (cap : Nat) (elements : List T) (calls : List (Thread × BookCall T)) :
    slots (after (perform cap) elements calls) =
      slots elements ++ constructions (performed (perform cap) elements calls) := by
  induction calls generalizing elements with
  | nil => simp [after, performed, constructions]
  | cons one rest ih =>
      simp only [after, performed, constructions_append]
      rw [ih, perform_slots, List.append_assoc]

theorem destroyFirst_slots {cap : Nat} {elements : List T} {book : OrderBookBuffer T}
    (holds : Holds cap elements book) (i : Nat) (within : i ≤ elements.length) :
    book.destroyFirst i = some (slots (elements.take i)) := by
  induction i with
  | zero => rfl
  | succ i ih =>
      have inside : i < elements.length := within
      rw [destroyFirst, ih (Nat.le_of_lt inside), holds.data, List.getElem?_eq_getElem inside,
        List.take_succ_eq_append_getElem inside, slots_append]
      simp [Nat.min_eq_left (Nat.le_of_lt inside)]

theorem destroy_slots {cap : Nat} {elements : List T} {book : OrderBookBuffer T}
    (holds : Holds cap elements book) : book.destroy = some (slots elements) := by
  rw [destroy, holds.size, destroyFirst_slots holds _ (Nat.le_refl _), List.take_length]

theorem slots_take (elements : List T) (count : Nat) :
    (slots elements).take count = slots (elements.take count) := by
  apply List.ext_getElem
  · simp [slots]
  · intro i inside insideToo
    simp [slots]

/-- Each printed element was constructed in that slot before. -/
def PrintsConstructed (built : List (Nat × T)) (events : List (BookEvent T)) : Prop :=
  ∀ before slot value rest, events = before ++ .printed slot value :: rest →
    (slot, value) ∈ built ++ constructions before

theorem prints_prefix {built : List (Nat × T)} {events rest : List (BookEvent T)}
    (prints : PrintsConstructed built (events ++ rest)) : PrintsConstructed built events := by
  intro before slot value remainder shape
  apply prints before slot value (remainder ++ rest)
  rw [shape, List.append_assoc, List.cons_append]

theorem prints_append {built : List (Nat × T)} {first second : List (BookEvent T)}
    (prints : PrintsConstructed built first)
    (further : PrintsConstructed (built ++ constructions first) second) :
    PrintsConstructed built (first ++ second) := by
  intro before slot value rest shape
  rcases List.append_eq_append_iff.mp shape with ⟨more, own, remaining⟩ | ⟨more, own, remaining⟩
  · have known := further more slot value rest remaining
    rwa [own, constructions_append, ← List.append_assoc]
  · cases more with
    | nil =>
        have known := further [] slot value rest (by simpa using remaining.symm)
        rw [List.append_nil] at own
        simpa [own, constructions] using known
    | cons event more =>
        rw [List.cons_append, List.cons.injEq] at remaining
        exact prints before slot value more (by rw [own, remaining.1])

theorem perform_prints (cap : Nat) (call : BookCall T) (elements : List T) :
    PrintsConstructed (slots elements) (perform cap call elements).2.1 := by
  intro before slot value rest shape
  have printed : .printed slot value ∈ (perform cap call elements).2.1 := by simp [shape]
  cases call with
  | addOrder copied =>
      by_cases space : elements.length < cap
      · cases copied with
        | none => simp [perform, space] at printed
        | some value => simp [perform, space] at printed
      · simp [perform, space] at printed
  | printOrders =>
      obtain ⟨i, inside, same⟩ := List.mem_mapIdx.mp printed
      rw [BookEvent.printed.injEq] at same
      rw [← same.1, ← same.2]
      apply List.mem_append_left
      exact List.mem_mapIdx.mpr ⟨i, inside, rfl⟩

omit [DecidableEq Thread] in
theorem performed_prints (cap : Nat) (elements : List T) (calls : List (Thread × BookCall T)) :
    PrintsConstructed (slots elements) (performed (perform cap) elements calls) := by
  induction calls generalizing elements with
  | nil =>
      intro before slot value rest shape
      simp [performed] at shape
  | cons one rest ih =>
      simp only [performed]
      apply prints_append (perform_prints cap one.2 elements)
      rw [← perform_slots]
      exact ih _

theorem perform_bounded (cap : Nat) (call : BookCall T) {elements : List T}
    (bounded : elements.length ≤ cap) : (perform cap call elements).1.length ≤ cap := by
  cases call with
  | printOrders => exact bounded
  | addOrder copied =>
      by_cases space : elements.length < cap
      · cases copied with
        | none => simpa [perform, space] using bounded
        | some value =>
            simp only [perform, space, if_true, List.length_append, List.length_singleton]
            exact Nat.succ_le_of_lt space
      · simpa [perform, space] using bounded

omit [DecidableEq Thread] in
theorem after_bounded (cap : Nat) {elements : List T} (calls : List (Thread × BookCall T))
    (bounded : elements.length ≤ cap) :
    (after (perform cap) elements calls).length ≤ cap := by
  induction calls generalizing elements with
  | nil => exact bounded
  | cons one rest ih => exact ih (perform_bounded cap one.2 bounded)

/-- What was constructed and printed by now, and what the destructor would end if no thread is
inside. -/
structure EachSlotOnce (capacity : UInt64) (config : BufferRun Thread Lock T) : Prop where
  constructed : ∃ kept : List T, constructions (shown config.history) = slots kept ∧
    kept.length ≤ capacity.toNat
  printed : PrintsConstructed [] (shown config.history)
  destroyed : (∀ thread, (config.state.phase thread).outside = true) →
    config.state.shared.destroy = some (constructions (shown config.history))

section Guarded

variable {policy : LockPolicy Lock} {free held : Lock → Prop} {sizeofT capacity : UInt64}
  {config : BufferRun Thread Lock T}

theorem reachable_each_slot_once (excludes : policy.Excludes Thread free held)
    (sized : 0 < sizeofT) (fits : sizeofT.toNat * capacity.toNat < 2 ^ 64)
    (runs : Runs policy sizeofT capacity config) : EachSlotOnce capacity config := by
  have linear := reachable_holds excludes sized fits runs
  obtain ⟨rest, whole⟩ := linear.shows (implements capacity.toNat)
  have built := performed_slots capacity.toNat [] (order config.history)
  have bounded : (after (perform capacity.toNat) [] (order config.history)).length ≤
      capacity.toNat := after_bounded _ _ (Nat.zero_le _)
  constructor
  · rw [whole, constructions_append] at built
    have taken := congrArg (List.take (constructions (shown config.history)).length) built
    rw [slots_take] at taken
    exact ⟨_, by simpa [slots] using taken.symm, Nat.le_trans (List.length_take_le' _ _) bounded⟩
  · have prints := performed_prints capacity.toNat [] (order config.history)
    rw [whole] at prints
    exact prints_prefix prints
  · intro outside
    obtain ⟨_, holds, shows, _⟩ := linear.at_rest outside
    rw [destroy_slots holds, built, ← shows]
    rfl

end Guarded

/-- The slots are constructed in order, each at most once; what is printed was constructed; and
when no thread is inside, the destructor ends every element once. -/
theorem slots_once {sizeofT capacity : UInt64} (sized : 0 < sizeofT)
    (fits : sizeofT.toNat * capacity.toNat < 2 ^ 64) :
    (∀ config : BufferRun Thread Bool T, Runs mutexLock sizeofT capacity config →
      EachSlotOnce capacity config) ∧
    (Subsingleton Thread → ∀ config : BufferRun Thread Unit T,
      Runs noLock sizeofT capacity config → EachSlotOnce capacity config) := by
  constructor
  · intro config runs
    exact reachable_each_slot_once (mutexLock_excludes Thread) sized fits runs
  · intro single config runs
    exact reachable_each_slot_once (noLock_excludes Thread) sized fits runs

theorem slots_once_sample : ∃ config : BufferRun Bool Bool Nat,
    Runs mutexLock 24 10 config ∧ shown config.history = [.constructed 0 7, .printed 0 7] ∧
      EachSlotOnce 10 config := by
  obtain ⟨config, runs, shows⟩ := overlapping_runs
  exact ⟨config, runs, shows, (slots_once (by decide) (by decide)).1 config runs⟩

end OrderBookBuffer

end Finm327.Hw4
