import Finm327.Library.Maps
import Mathlib.Data.List.DropRight
import Mathlib.Data.List.Induction

/-!
# Streams of keyed events

A machine reads events, each with a key. When a step changes what is seen at its own
key only, and from that alone, a run shows at a key what the events of the key make of
it: the others might as well not have been there. A sliding window is such a view, and so is the entry of a
table that each event updates at its key.
-/

namespace Finm327.Library.KeyedStreams

open Finm327.Library.Maps

universe u v w x

section Isolation

variable {State : Type u} {Event : Type v} {Key : Type w} {View : Type x} [DecidableEq Key]

/-- Each step changes the view of the key of its event, from that view alone. -/
structure Isolated (step : State → Event → State) (key : Event → Key) (view : State → Key → View)
    (own : View → Event → View) : Prop where
  same : ∀ s event, view (step s event) (key event) = own (view s (key event)) event
  other : ∀ s event k, key event ≠ k → view (step s event) k = view s k

def eventsOf (key : Event → Key) (k : Key) (events : List Event) : List Event :=
  events.filter fun event => key event = k

theorem events_of_append_same {key : Event → Key} {k : Key} {event : Event} (own : key event = k)
    (events : List Event) :
    eventsOf key k (events ++ [event]) = eventsOf key k events ++ [event] := by
  simp [eventsOf, own]

theorem events_of_append_other {key : Event → Key} {k : Key} {event : Event} (other : key event ≠ k)
    (events : List Event) : eventsOf key k (events ++ [event]) = eventsOf key k events := by
  simp [eventsOf, other]

theorem events_of_idem (key : Event → Key) (k : Key) (events : List Event) :
    eventsOf key k (eventsOf key k events) = eventsOf key k events := by
  simp [eventsOf]

variable {step : State → Event → State} {key : Event → Key} {view : State → Key → View}
  {own : View → Event → View}

theorem Isolated.view_run (isolated : Isolated step key view own) (s : State) (events : List Event)
    (k : Key) :
    view (events.foldl step s) k = (eventsOf key k events).foldl own (view s k) := by
  induction events using List.reverseRecOn with
  | nil => rfl
  | append_singleton events event ih =>
      rw [List.foldl_append]
      change view (step (events.foldl step s) event) k = _
      by_cases here : key event = k
      · subst here
        rw [isolated.same, ih, events_of_append_same rfl, List.foldl_append]
        rfl
      · rw [isolated.other _ _ _ here, ih, events_of_append_other here]

/-- Two machines that treat their own views alike show the same at a key, although one reads the
events of the key alone. -/
theorem Isolated.view_eq {StateToo : Type u} {stepToo : StateToo → Event → StateToo}
    {viewToo : StateToo → Key → View} (isolated : Isolated step key view own)
    (isolatedToo : Isolated stepToo key viewToo own) {s : State} {t : StateToo} {k : Key}
    (start : view s k = viewToo t k) (events : List Event) :
    view (events.foldl step s) k = viewToo ((eventsOf key k events).foldl stepToo t) k := by
  rw [isolated.view_run, isolatedToo.view_run, events_of_idem, start]

end Isolation

section Tables

variable {Event : Type u} {Key : Type v} {Value : Type w} [DecidableEq Key]

/-- Updates the entry of a key, which starts from a default. -/
def upsert (default : Value) (change : Value → Value) (key : Key) (table : KeyMap Key Value) :
    KeyMap Key Value :=
  table.insert key (change ((table.lookup key).getD default))

variable (default : Value) (change : Event → Value → Value) (key : Event → Key)

def upsertAll (events : List Event) : KeyMap Key Value :=
  events.foldl (fun table event => upsert default (change event) (key event) table) ∅

theorem upsert_isolated :
    Isolated (fun table event => upsert default (change event) (key event) table) key
      (fun table k => AList.lookup k table)
      (fun value event => some (change event (value.getD default))) where
  same table event := by simp [upsert]
  other table event k different := AList.lookup_insert_ne (Ne.symm different)

/-- An entry is there if its key had an event, and is made of these events alone. -/
theorem lookup_upsertAll (events : List Event) (k : Key) :
    (upsertAll default change key events).lookup k =
      if eventsOf key k events = [] then none
      else some ((eventsOf key k events).foldl (fun value event => change event value) default) := by
  have run := (upsert_isolated default change key).view_run ∅ events k
  have own : ∀ (events : List Event) (start : Option Value),
      events.foldl (fun value event => some (change event (value.getD default))) start =
        if events = [] then start
        else some (events.foldl (fun value event => change event value) (start.getD default)) := by
    intro events
    induction events with
    | nil => simp
    | cons event rest ih =>
        intro start
        rw [List.foldl_cons, ih]
        cases rest with
        | nil => simp
        | cons => simp
  rw [upsertAll, run, own]
  rfl

theorem mem_upsertAll (events : List Event) (k : Key) :
    k ∈ upsertAll default change key events ↔ ∃ event ∈ events, key event = k := by
  rw [mem_iff_lookup, lookup_upsertAll]
  simp [eventsOf, List.filter_eq_nil_iff]

theorem upsertAll_count (events : List Event) (k : Key) :
    ((upsertAll 0 (fun _ count => count + 1) key events).lookup k).getD 0 =
      (eventsOf key k events).length := by
  have count : ∀ (events : List Event) (start : Nat),
      events.foldl (fun count _ => count + 1) start = start + events.length := by
    intro events
    induction events with
    | nil => simp
    | cons event rest ih =>
        intro start
        rw [List.foldl_cons, ih, List.length_cons]
        omega
  rw [lookup_upsertAll]
  split_ifs with none
  · simp [none]
  · simp [count]

theorem upsertAll_collect (value : Event → Value) (events : List Event) (k : Key) :
    ((upsertAll [] (fun event values => values ++ [value event]) key events).lookup k).getD [] =
      (eventsOf key k events).map value := by
  have collect : ∀ (events : List Event) (start : List Value),
      events.foldl (fun values event => values ++ [value event]) start =
        start ++ events.map value := by
    intro events
    induction events with
    | nil => simp
    | cons event rest ih =>
        intro start
        simp [ih]
  rw [lookup_upsertAll]
  split_ifs with none
  · simp [none]
  · simp [collect]

end Tables

section Windows

variable {Item : Type u}

/-- The item comes in at the end, and beyond the limit the first one goes. -/
def slide (limit : Nat) (window : List Item) (item : Item) : List Item :=
  if limit < (window ++ [item]).length then (window ++ [item]).tail else window ++ [item]

/-- A window holds the last items. -/
theorem slide_rtake (limit : Nat) (items : List Item) (item : Item) :
    slide limit (items.rtake limit) item = (items ++ [item]).rtake limit := by
  have joined : items.rtake limit ++ [item] = (items ++ [item]).drop (items.length - limit) := by
    rw [List.rtake, List.drop_append_of_le_length (Nat.sub_le _ _)]
  have length : ((items ++ [item]).drop (items.length - limit)).length =
      items.length + 1 - (items.length - limit) := by
    simp
  rw [slide, joined, length, List.rtake, List.length_append, List.length_singleton]
  split_ifs with full
  · rw [← List.drop_one, List.drop_drop]
    congr 1
    omega
  · congr 1
    omega

theorem foldl_slide (limit : Nat) (items : List Item) :
    items.foldl (slide limit) [] = items.rtake limit := by
  induction items using List.reverseRecOn with
  | nil => rw [List.foldl_nil, List.rtake_nil]
  | append_singleton items item ih =>
      rw [List.foldl_append, ih]
      exact slide_rtake limit items item

end Windows

end Finm327.Library.KeyedStreams
