import Finm327.Phase2.HitServer

/-!
# Credits for prices

A price id is hit once and not before it is registered, in every run. It is credited for a
message that is its text as long as the messages with the number of an open price are plain
ones; any other text gives the number that it starts with, or 0.
-/

namespace Finm327.Phase2

open Finm327.Hft
open Finm327.Hft2026
open Finm327.Library.Maps
open Finm327.Library.Runs
open Function (update)

/-! ## Plain messages -/

/-- The decimal text of a number, and nothing else. -/
def Plain (bytes : List UInt8) : Prop := ∃ value : Int32, bytes = formatInt value.toInt

theorem format_int_apart {c : UInt8} (other : isDigit c = false) (sign : c ≠ 45) (value : Int) :
    ∀ d ∈ formatInt value, decide (d ≠ c) = true := by
  intro d member
  rw [decide_eq_true_iff]
  intro same
  exact format_int_without other sign value (same ▸ member)

theorem c_str_format (value : Int) : cStr (formatInt value) = formatInt value := by
  unfold cStr
  rw [List.takeWhile_eq_self_iff]
  exact format_int_apart (by decide) (by decide) value

theorem atoi_format (overflow : Int → Int32) (value : Int32) :
    atoi overflow (cStr (formatInt value.toInt)) = value := by
  have scanned := scan_int_iff.mpr (@leads_format_int [] []
    (fun _ absent => absurd absent List.not_mem_nil) value.toInt nofun)
  rw [List.nil_append, List.append_nil] at scanned
  rw [c_str_format, atoi, scanned]
  exact stored_to_int overflow value

theorem plain_iff {bytes : List UInt8} (overflow : Int → Int32) :
    Plain bytes ↔ bytes = formatInt (atoi overflow (cStr bytes)).toInt := by
  constructor
  · rintro ⟨value, rfl⟩
    rw [atoi_format]
  · exact fun same => ⟨_, same⟩

instance (bytes : List UInt8) : Decidable (Plain bytes) :=
  decidable_of_iff _ (plain_iff fun _ => 0).symm

/-! ## What the entries of a run promise -/

def Entry.hitId : Entry → Option Int32
  | .hit _ _ _ id _ => some id
  | _ => none

def hitIds (entries : List Entry) : List Int32 := entries.filterMap Entry.hitId

/-- A hit comes after the registration of its price. -/
def AfterRegistration (entries : List Entry) : Prop :=
  ∀ before after k name bytes id latency,
    entries = before ++ .hit k name bytes id latency :: after → .registered id ∈ before

/-- The message of a hit is the text of its price id. -/
def Worded (entries : List Entry) : Prop :=
  ∀ k name bytes id latency, .hit k name bytes id latency ∈ entries → bytes = formatInt id.toInt

structure HitsSound (entries : List Entry) : Prop where
  once : (hitIds entries).Nodup
  registered : AfterRegistration entries
  worded : Worded entries

theorem hit_ids_push (entries : List Entry) (entry : Entry) :
    hitIds (entries ++ [entry]) = hitIds entries ++ entry.hitId.toList := by
  unfold hitIds
  rw [List.filterMap_append]
  cases own : entry.hitId with
  | none => rw [List.filterMap_cons_none own, List.filterMap_nil, Option.toList_none]
  | some id => rw [List.filterMap_cons_some own, List.filterMap_nil, Option.toList_some]

theorem AfterRegistration.push {entries : List Entry} (registered : AfterRegistration entries)
    {entry : Entry} (own : ∀ id, entry.hitId = some id → .registered id ∈ entries) :
    AfterRegistration (entries ++ [entry]) := by
  intro before after k name bytes id latency split
  cases List.eq_nil_or_concat after with
  | inl last =>
      rw [last] at split
      obtain ⟨same, hit⟩ := List.append_inj' split rfl
      rw [← same]
      apply own
      rw [List.singleton_inj.mp hit]
      rfl
  | inr earlier =>
      obtain ⟨front, last, rfl⟩ := earlier
      rw [List.concat_eq_append, ← List.cons_append, ← List.append_assoc] at split
      exact registered before front k name bytes id latency (List.append_inj' split rfl).1

namespace HitServer

abbrev Run := Config HitServer Step Entry

/-- The tables against the entries of the run, and the messages in hand. -/
structure Sound (overflow : Int → Int32) (server : HitServer) (entries : List Entry) : Prop where
  once : (hitIds entries).Nodup
  hits : ∀ id, id ∈ server.priceAlreadyHit ↔ id ∈ hitIds entries
  timestamps : ∀ id, id ∈ server.priceTimestamps → .registered id ∈ entries
  registered : AfterRegistration entries
  parsed : ∀ k name bytes id now, server.handlers k = .parsed name bytes id now →
    id = atoi overflow (cStr bytes)

variable {overflow : Int → Int32} {server next : HitServer} {entries : List Entry}
  {entry : Entry} {op : Step}

theorem initial_sound : Sound overflow initial [] := by
  refine ⟨List.nodup_nil, ?_, ?_, ?_, ?_⟩
  · intro id
    exact ⟨fun contrary => absurd contrary (Finset.notMem_empty id),
      fun contrary => absurd contrary List.not_mem_nil⟩
  · intro id contrary
    cases contrary
  · intro before after k name bytes id latency split
    exact absurd split.symm (List.append_ne_nil_of_right_ne_nil before (List.cons_ne_nil _ _))
  · intro k name bytes id now contrary
    cases contrary

/-- An entry that is no hit. -/
theorem Sound.push_other (sound : Sound overflow server entries) (other : entry.hitId = none)
    (hits : next.priceAlreadyHit = server.priceAlreadyHit)
    (timestamps : ∀ id, id ∈ next.priceTimestamps →
      id ∈ server.priceTimestamps ∨ entry = .registered id)
    (parsed : ∀ k name bytes id now, next.handlers k = .parsed name bytes id now →
      id = atoi overflow (cStr bytes)) :
    Sound overflow next (entries ++ [entry]) := by
  have same : hitIds (entries ++ [entry]) = hitIds entries := by
    rw [hit_ids_push, other, Option.toList_none, List.append_nil]
  refine ⟨?_, ?_, ?_, ?_, parsed⟩
  · rw [same]
    exact sound.once
  · rw [same, hits]
    exact sound.hits
  · intro id member
    cases timestamps id member with
    | inl old => exact List.mem_append_left _ (sound.timestamps id old)
    | inr own =>
        rw [own]
        exact List.mem_append_right _ List.mem_cons_self
  · apply sound.registered.push
    intro id contrary
    rw [other] at contrary
    cases contrary

theorem step_sound (sound : Sound overflow server entries)
    (ran : step overflow server op = some (next, entry)) :
    Sound overflow next (entries ++ [entry]) := by
  have effect := step_effect ran
  have parsed : ∀ k name bytes id now, next.handlers k = .parsed name bytes id now →
      id = atoi overflow (cStr bytes) := by
    intro k name bytes id now found
    cases parsed_of_effect effect found with
    | inl old => exact sound.parsed k name bytes id now old
    | inr own => exact own.2
  cases effect with
  | turns _ timestamps hits quiet _ handlers =>
      apply sound.push_other ?_ hits ?_ parsed
      · rcases quiet with rfl | ⟨message, rfl⟩
        · rfl
        · rfl
      · intro id member
        rw [timestamps] at member
        exact .inl member
  | @announces id price now drawn =>
      refine sound.push_other rfl rfl ?_ parsed
      intro other member
      cases (AList.mem_insert server.priceTimestamps).mp member with
      | inl own => exact .inr (by rw [own])
      | inr old => exact .inl old
  | known pending done => exact sound.push_other rfl rfl (fun _ member => .inl member) parsed
  | unknown pending missing => exact sound.push_other rfl rfl (fun _ member => .inl member) parsed
  | @credits k name bytes id now latency pending fresh registered =>
      have ids : hitIds (entries ++ [.hit k name bytes id latency]) = hitIds entries ++ [id] :=
        hit_ids_push entries _
      refine ⟨?_, ?_, ?_, ?_, parsed⟩
      · rw [ids]
        apply List.nodup_append.mpr
        refine ⟨sound.once, List.nodup_singleton id, ?_⟩
        intro other member twin last
        rw [List.mem_singleton.mp last]
        rintro rfl
        exact fresh ((sound.hits _).mpr member)
      · intro other
        rw [ids, Finset.mem_insert, List.mem_append, List.mem_singleton, sound.hits]
        exact or_comm
      · exact fun other member => List.mem_append_left _ (sound.timestamps other member)
      · apply sound.registered.push
        intro other own
        cases own
        exact sound.timestamps id registered

theorem reachable_sound {allowed : Run → Step → Prop} {config : Run}
    (reached : Reachable (step overflow) allowed initial config) :
    Sound overflow config.state config.observations := by
  refine reachable_invariant (fun config : Run => Sound overflow config.state config.observations)
    initial_sound ?_ reached
  intro config op next entry sound _ ran
  rw [Config.push_observations]
  exact step_sound sound ran

/-- The price is open: registered, and not hit yet. -/
def Open (server : HitServer) (id : Int32) : Prop :=
  id ∉ server.priceAlreadyHit ∧ id ∈ server.priceTimestamps

instance (server : HitServer) (id : Int32) : Decidable (server.Open id) :=
  inferInstanceAs (Decidable (_ ∧ _))

/-- The message in hand is plain, or its number is no open price. -/
def PlainPending (server : HitServer) : Handler → Prop
  | .parsed _ bytes id _ => server.Open id → Plain bytes
  | _ => True

instance (server : HitServer) : ∀ handler, Decidable (server.PlainPending handler)
  | .parsed _ bytes id _ => inferInstanceAs (Decidable (server.Open id → Plain bytes))
  | .naming | .receiving _ | .closed => .isTrue trivial

/-- Every message that is processed is plain, or its number is no open price. -/
def PlainHit (server : HitServer) : Step → Prop
  | .hit k => server.PlainPending (server.handlers k)
  | _ => True

instance (server : HitServer) : ∀ op, Decidable (server.PlainHit op)
  | .hit k => inferInstanceAs (Decidable (server.PlainPending (server.handlers k)))
  | .draw _ | .announce _ | .send | .register _ _ | .receive _ _ _ | .disconnect _ =>
      .isTrue trivial

theorem plain_hit_iff {k : Nat} {name bytes : List UInt8} {id : Int32} {now : Int}
    (pending : server.handlers k = .parsed name bytes id now) :
    server.PlainHit (.hit k) ↔ (server.Open id → Plain bytes) := by
  rw [PlainHit, pending]
  exact Iff.rfl

theorem plain_hit_of_other (other : ∀ k, op ≠ .hit k) : server.PlainHit op := by
  cases op with
  | hit k => exact absurd rfl (other k)
  | draw | announce | send | register | receive | disconnect => trivial

theorem worded_push_iff (worded : Worded entries) :
    Worded (entries ++ [entry]) ↔ ∀ k name bytes id latency,
      entry = .hit k name bytes id latency → bytes = formatInt id.toInt := by
  constructor
  · rintro all k name bytes id latency rfl
    exact all k name bytes id latency (List.mem_append_right _ List.mem_cons_self)
  · intro own k name bytes id latency member
    cases List.mem_append.mp member with
    | inl old => exact worded k name bytes id latency old
    | inr last => exact own k name bytes id latency (List.mem_singleton.mp last).symm

theorem step_worded_iff (sound : Sound overflow server entries) (worded : Worded entries)
    (ran : step overflow server op = some (next, entry)) :
    Worded (entries ++ [entry]) ↔ server.PlainHit op := by
  rw [worded_push_iff worded]
  cases step_effect ran with
  | turns _ timestamps hits quiet other handlers =>
      refine ⟨fun _ => plain_hit_of_other other, ?_⟩
      rintro - k name bytes id latency rfl
      rcases quiet with contrary | ⟨message, contrary⟩
      · cases contrary
      · cases contrary
  | announces now drawn => exact ⟨fun _ => trivial, fun _ _ _ _ _ _ contrary => by cases contrary⟩
  | known pending done =>
      rw [plain_hit_iff pending]
      exact ⟨fun _ opened => absurd done opened.1, fun _ _ _ _ _ _ contrary => by cases contrary⟩
  | unknown pending missing =>
      rw [plain_hit_iff pending]
      exact ⟨fun _ opened => absurd opened.2 missing, fun _ _ _ _ _ _ contrary => by cases contrary⟩
  | @credits k name bytes id now latency pending fresh registered =>
      have number := sound.parsed k name bytes id now pending
      rw [plain_hit_iff pending]
      constructor
      · exact fun own _ => ⟨id, own k name bytes id latency rfl⟩
      · intro plain j owner text other late same
        cases same
        rw [number]
        exact (plain_iff overflow).mp (plain ⟨fresh, registered⟩)

def plainHits (config : Run) (op : Step) : Prop := config.state.PlainHit op

instance (config : Run) (op : Step) : Decidable (plainHits config op) :=
  inferInstanceAs (Decidable (config.state.PlainHit op))

theorem reachable_worded {config : Run}
    (reached : Reachable (step overflow) plainHits initial config) :
    Worded config.observations := by
  refine reachable_invariant_of_reachable (fun config : Run => Worded config.observations)
    ?_ ?_ reached
  · exact fun _ _ _ _ _ contrary => absurd contrary List.not_mem_nil
  · intro config op next entry before worded plain ran
    rw [Config.push_observations]
    exact (step_worded_iff (reachable_sound before) worded ran).mpr plain

/-- In every run whose processed messages are plain or have no open price for a number, hits are
credited soundly, and the next step keeps them sound exactly if it is such a step. -/
theorem hits_sound_iff_plain {config : Run}
    (reached : Reachable (step overflow) plainHits initial config) :
    HitsSound config.observations ∧ ∀ op next entry,
      config.state.step overflow op = some (next, entry) →
      (HitsSound (config.observations ++ [entry]) ↔ config.state.PlainHit op) := by
  have sound := reachable_sound reached
  have worded := reachable_worded reached
  refine ⟨⟨sound.once, sound.registered, worded⟩, ?_⟩
  intro op next entry ran
  have after := step_sound sound ran
  rw [← step_worded_iff sound worded ran]
  exact ⟨fun all => all.worded, fun words => ⟨after.once, after.registered, words⟩⟩

/-- Two clients answer the first price in the same moment, and the second of them names a price
that is not announced yet. -/
def sampleSteps : List Step :=
  [.register 0 [65], .draw [49, 48, 48], .announce 0, .register 1 [66], .send,
    .receive 0 [48] 4000000, .receive 1 [48] 3000000, .hit 1, .hit 0, .receive 1 [49] 5000000,
    .hit 1, .receive 0 [104, 105] 6000000, .hit 0]

theorem hits_sound_iff_plain_sample :
    ∃ config : Run, Reachable (step Int32.ofInt) plainHits initial config ∧
      .hit 1 [66] [48] 0 3 ∈ config.observations ∧ HitsSound config.observations := by
  have completes : (execute (step Int32.ofInt) plainHits (.start initial) sampleSteps).any
      (fun config => decide (.hit 1 [66] [48] 0 3 ∈ config.observations)) = true := by
    decide
  obtain ⟨config, reached, credited⟩ := reachable_of_execute_any completes
  exact ⟨config, reached, credited, (hits_sound_iff_plain reached).1⟩

/-- The text "hi" is credited with the first price. -/
theorem greeting_credited :
    ∃ config : Run, Reachable (step Int32.ofInt) (fun _ _ => True) initial config ∧
      .hit 0 [65] [104, 105] 0 4 ∈ config.observations ∧ ¬ HitsSound config.observations := by
  have completes : (execute (step Int32.ofInt) (fun _ _ => True) (.start initial)
      [.register 0 [65], .draw [49, 48, 48], .announce 0, .send, .receive 0 [104, 105] 4000000,
        .hit 0]).any (fun config =>
          decide (.hit 0 [65] [104, 105] 0 4 ∈ config.observations)) = true := by
    decide
  obtain ⟨config, reached, credited⟩ := reachable_of_execute_any completes
  refine ⟨config, reached, credited, ?_⟩
  intro sound
  exact absurd (sound.worded _ _ _ _ _ credited) (by decide)

end HitServer

end Finm327.Phase2
