import Finm327.Session3.SharedHandle

/-!
# Every trade is deleted once

The ledger of a run: which trades were wrapped, which of them a live block still holds, and
which were deleted. A trade is deleted in the step in which its last handle lets go, as long as
its count fits the `int` that keeps it. The last section copies one handle until it does not.
-/

namespace Finm327.Session3

open Finm327.Library.Maps
open Finm327.Library.Runs
open Finm327.Library.SignedArithmetic

variable {Handle Block TradePtr : Type} [DecidableEq Block] [DecidableEq TradePtr]

namespace Memory

/-- A live block holds the trade. -/
def Has (memory : Memory Handle Block TradePtr) (trade : TradePtr) : Prop :=
  ∃ b, memory.owner b = some (some trade)

structure Ledger (memory : Memory Handle Block TradePtr) (wrapped deleted : List TradePtr) :
    Prop where
  single : ∀ b c trade, memory.owner b = some (some trade) → memory.owner c = some (some trade) →
    b = c
  known : ∀ trade, memory.Has trade → trade ∈ wrapped
  held : ∀ trade, memory.Has trade → trade ∉ deleted
  gone : ∀ trade ∈ wrapped, ¬ memory.Has trade → deleted.count trade = 1
  unknown : ∀ trade, trade ∉ wrapped → trade ∉ deleted

section Ledger

variable {memory after : Memory Handle Block TradePtr} {wrapped deleted now : List TradePtr}
  {trade : TradePtr} {op : HandleOp Handle Block TradePtr}

/-- A new block holds a trade that was not wrapped before. -/
theorem ledger_opens {p : Option TradePtr} {b : Block} (ledger : Ledger memory wrapped deleted)
    (new : ∀ trade ∈ p.toList, trade ∉ wrapped) (fresh : memory.owner b = none)
    (opened : ∀ c, after.owner c = if c = b then some p else memory.owner c) :
    Ledger after (wrapped ++ p.toList) deleted ∧
      ∀ trade, memory.Has trade → after.Has trade := by
  have kept : ∀ trade, memory.Has trade → after.Has trade := by
    rintro trade ⟨c, own⟩
    refine ⟨c, ?_⟩
    have different : c ≠ b := by
      rintro rfl
      rw [fresh] at own
      cases own
    rw [opened, if_neg different, own]
  have cases_of : ∀ c trade, after.owner c = some (some trade) →
      c = b ∧ p = some trade ∨ memory.owner c = some (some trade) := by
    intro c trade own
    rw [opened] at own
    split_ifs at own with same
    · exact .inl ⟨same, Option.some.inj own⟩
    · exact .inr own
  have apart : ∀ c trade, p = some trade → memory.owner c ≠ some (some trade) := by
    intro c trade own other
    exact new trade (Option.mem_toList.mpr own) (ledger.known trade ⟨c, other⟩)
  refine ⟨⟨?_, ?_, ?_, ?_, ?_⟩, kept⟩
  · intro c d trade first second
    rcases cases_of c trade first with ⟨atFirst, own⟩ | old
    · rcases cases_of d trade second with ⟨atSecond, -⟩ | other
      · exact atFirst.trans atSecond.symm
      · exact absurd other (apart d trade own)
    · rcases cases_of d trade second with ⟨-, own⟩ | other
      · exact absurd old (apart c trade own)
      · exact ledger.single c d trade old other
  · rintro trade ⟨c, own⟩
    rw [List.mem_append]
    rcases cases_of c trade own with ⟨-, is⟩ | old
    · exact .inr (Option.mem_toList.mpr is)
    · exact .inl (ledger.known trade ⟨c, old⟩)
  · rintro trade ⟨c, own⟩
    rcases cases_of c trade own with ⟨-, is⟩ | old
    · exact ledger.unknown trade (new trade (Option.mem_toList.mpr is))
    · exact ledger.held trade ⟨c, old⟩
  · intro trade member missing
    cases List.mem_append.mp member with
    | inl old => exact ledger.gone trade old (fun has => missing (kept trade has))
    | inr is =>
        have own := Option.mem_toList.mp is
        exact absurd ⟨b, by rw [opened, if_pos rfl, own]⟩ missing
  · intro trade notWrapped
    exact ledger.unknown trade (fun old => notWrapped (List.mem_append_left _ old))

/-- A step shows what it deletes. -/
structure Shows (before after : Memory Handle Block TradePtr) (now : List TradePtr) : Prop where
  deletes : ∀ trade, trade ∈ now ↔ before.Has trade ∧ ¬ after.Has trade
  nodup : now.Nodup

/-- A step that changes no owner leaves the ledger as it is. -/
theorem ledger_keeps (ledger : Ledger memory wrapped deleted)
    (same : ∀ b, after.owner b = memory.owner b) :
    Ledger after wrapped deleted ∧ Shows memory after [] := by
  have has : ∀ trade, after.Has trade ↔ memory.Has trade := by
    intro trade
    unfold Has
    simp only [same]
  refine ⟨⟨?_, ?_, ?_, ?_, ledger.unknown⟩, ?_, List.nodup_nil⟩
  · intro b c trade first second
    rw [same] at first second
    exact ledger.single b c trade first second
  · exact fun trade own => ledger.known trade ((has trade).mp own)
  · exact fun trade own => ledger.held trade ((has trade).mp own)
  · exact fun trade member missing =>
      ledger.gone trade member (fun own => missing ((has trade).mpr own))
  · intro trade
    constructor
    · exact fun contrary => absurd contrary List.not_mem_nil
    · exact fun both => absurd ((has trade).mpr both.1) both.2

section Frees

variable {b : Block} {ptr : Option TradePtr}

omit [DecidableEq TradePtr] in
theorem has_of_freed (gone : ∀ c, after.owner c = if c = b then none else memory.owner c)
    (own : after.Has trade) : memory.Has trade := by
  obtain ⟨c, own⟩ := own
  rw [gone] at own
  split_ifs at own
  exact ⟨c, own⟩

omit [DecidableEq TradePtr] in
/-- Freeing a block takes no other block's trade. -/
theorem has_freed (had : memory.owner b = some ptr)
    (gone : ∀ c, after.owner c = if c = b then none else memory.owner c)
    (own : memory.Has trade) (other : ptr ≠ some trade) : after.Has trade := by
  obtain ⟨c, own⟩ := own
  refine ⟨c, ?_⟩
  have different : c ≠ b := by
    rintro rfl
    rw [had, Option.some.injEq] at own
    exact other own
  rw [gone, if_neg different, own]

/-- The freed block was the only one to hold its trade. -/
theorem freed_lost (ledger : Ledger memory wrapped deleted) (had : memory.owner b = some ptr)
    (gone : ∀ c, after.owner c = if c = b then none else memory.owner c)
    (is : ptr = some trade) : memory.Has trade ∧ ¬ after.Has trade := by
  subst is
  refine ⟨⟨b, had⟩, ?_⟩
  rintro ⟨c, own⟩
  rw [gone] at own
  split_ifs at own with same
  exact same (ledger.single c b trade own had)

/-- Freeing a block moves its trade from the held ones to the deleted ones. -/
theorem ledger_frees (ledger : Ledger memory wrapped deleted) (had : memory.owner b = some ptr)
    (gone : ∀ c, after.owner c = if c = b then none else memory.owner c) :
    Ledger after wrapped (deleted ++ ptr.toList) := by
  refine ⟨?_, ?_, ?_, ?_, ?_⟩
  · intro c d trade first second
    rw [gone] at first second
    split_ifs at first second
    exact ledger.single c d trade first second
  · exact fun trade own => ledger.known trade (has_of_freed gone own)
  · intro trade own member
    cases List.mem_append.mp member with
    | inl old => exact ledger.held trade (has_of_freed gone own) old
    | inr is => exact (freed_lost ledger had gone (Option.mem_toList.mp is)).2 own
  · intro trade member missing
    rw [List.count_append]
    by_cases is : ptr = some trade
    · have before := ledger.held trade (freed_lost ledger had gone is).1
      rw [List.count_eq_zero.mpr before, is]
      simp
    · have lost : ¬ memory.Has trade := fun own => missing (has_freed had gone own is)
      have before := ledger.gone trade member lost
      have not_now : trade ∉ ptr.toList := fun own => is (Option.mem_toList.mp own)
      rw [before, List.count_eq_zero.mpr not_now]
  · intro trade notWrapped member
    cases List.mem_append.mp member with
    | inl old => exact ledger.unknown trade notWrapped old
    | inr is =>
        have lost := freed_lost ledger had gone (Option.mem_toList.mp is)
        exact notWrapped (ledger.known trade lost.1)

theorem shows_frees (ledger : Ledger memory wrapped deleted) (had : memory.owner b = some ptr)
    (gone : ∀ c, after.owner c = if c = b then none else memory.owner c) :
    Shows memory after ptr.toList := by
  constructor
  · intro trade
    constructor
    · exact fun is => freed_lost ledger had gone (Option.mem_toList.mp is)
    · intro both
      apply Option.mem_toList.mpr
      apply Classical.byContradiction
      exact fun other => both.2 (has_freed had gone both.1 other)
  · cases ptr with
    | none => exact List.nodup_nil
    | some trade => exact List.nodup_singleton trade

end Frees

theorem ledger_lets (ledger : Ledger memory wrapped deleted) (lets : Lets memory after now) :
    Ledger after wrapped (deleted ++ now) ∧ Shows memory after now := by
  cases lets with
  | keeps same =>
      rw [List.append_nil]
      exact ledger_keeps ledger same
  | frees b ptr had gone => exact ⟨ledger_frees ledger had gone, shows_frees ledger had gone⟩

theorem ledger_step (ledger : Ledger memory wrapped deleted)
    (new : ∀ trade ∈ op.wraps, trade ∉ wrapped) (effect : Effect memory after op now) :
    Ledger after (wrapped ++ op.wraps) (deleted ++ now) ∧ Shows memory after now := by
  cases effect with
  | opens handle p b fresh opened =>
      have grown := ledger_opens ledger new fresh opened
      rw [List.append_nil]
      refine ⟨grown.1, ?_, List.nodup_nil⟩
      intro trade
      constructor
      · exact fun contrary => absurd contrary List.not_mem_nil
      · exact fun both => absurd (grown.2 trade both.1) both.2
  | lets wraps lets =>
      rw [wraps, List.append_nil]
      exact ledger_lets ledger lets

end Ledger

theorem start_ledger : Ledger (initial : Memory Handle Block TradePtr) [] [] := by
  have nothing : ∀ trade, ¬ (initial : Memory Handle Block TradePtr).Has trade := by
    rintro trade ⟨b, own⟩
    cases own
  refine ⟨?_, ?_, ?_, ?_, ?_⟩
  · intro b c trade own
    cases own
  · exact fun trade own => absurd own (nothing trade)
  · exact fun trade own => absurd own (nothing trade)
  · exact fun trade member => absurd member List.not_mem_nil
  · exact fun trade _ => List.not_mem_nil

omit [DecidableEq TradePtr] in
theorem start_counted : Counted (initial : Memory Handle Block TradePtr) := by
  constructor
  · intro b block lookup
    cases lookup
  · intro b points
    exact absurd points (Nat.lt_irrefl 0)

variable [DecidableEq Handle]

/-- Some handle points at the trade. -/
def HeldBy (memory : Memory Handle Block TradePtr) (trade : TradePtr) : Prop :=
  ∃ handle b block, memory.handles.lookup handle = some (some b) ∧
    memory.blocks.lookup b = some block ∧ block.ptr = some trade

omit [DecidableEq TradePtr] in
/-- A block is live as long as some handle points at it. -/
theorem held_by_iff {memory : Memory Handle Block TradePtr} {trade : TradePtr}
    (counted : Counted memory) : memory.HeldBy trade ↔ memory.Has trade := by
  constructor
  · rintro ⟨-, b, block, -, live, own⟩
    exact ⟨b, owner_eq_some.mpr ⟨block, live, own⟩⟩
  · rintro ⟨b, own⟩
    obtain ⟨block, live, ptr⟩ := owner_eq_some.mp own
    obtain ⟨handle, points⟩ := exists_of_pointing (counted.counts b block live).2
    exact ⟨handle, b, block, points, live, ptr⟩

abbrev Run (Handle Block TradePtr : Type) :=
  Config (Memory Handle Block TradePtr) (HandleOp Handle Block TradePtr) (List TradePtr)

def wrapped (config : Run Handle Block TradePtr) : List TradePtr :=
  config.ops.flatMap HandleOp.wraps

def deleted (config : Run Handle Block TradePtr) : List TradePtr := config.observations.flatten

/-- Objects are used as the language asks, and no trade is wrapped twice. -/
def Permitted (config : Run Handle Block TradePtr) (op : HandleOp Handle Block TradePtr) : Prop :=
  op.Objects config.state ∧ ∀ trade ∈ op.wraps, trade ∉ wrapped config

/-- In addition the handles of a block stay countable. -/
def Countable (config : Run Handle Block TradePtr) (op : HandleOp Handle Block TradePtr) : Prop :=
  Permitted config op ∧ op.Room config.state.handles

/-- The promises of the handles, of one state of a run. -/
structure HandlesSound (config : Run Handle Block TradePtr) : Prop where
  counts : ∀ b block, config.state.blocks.lookup b = some block →
    block.count.toInt = pointing b config.state.handles
  live : ∀ handle b, config.state.handles.lookup handle = some (some b) → b ∈ config.state.blocks
  deletedOnce : ∀ trade ∈ wrapped config, ¬ config.state.HeldBy trade →
    (deleted config).count trade = 1
  notDeleted : ∀ trade, config.state.HeldBy trade ∨ trade ∉ wrapped config →
    trade ∉ deleted config

section Runs

variable {overflow : Int → Int32} {config : Run Handle Block TradePtr}

theorem reachable_ledger (reached : Reachable (step overflow) Countable initial config) :
    Counted config.state ∧ Ledger config.state (wrapped config) (deleted config) := by
  refine reachable_invariant (fun config : Run Handle Block TradePtr =>
    Counted config.state ∧ Ledger config.state (wrapped config) (deleted config))
    ⟨start_counted, start_ledger⟩ ?_ reached
  rintro config op after now ⟨counted, ledger⟩ countable next
  obtain ⟨own, shown, ran, countedAfter, effect⟩ :=
    @step_spec _ _ _ _ _ overflow config.state op counted countable.1.1 countable.2
  rw [next, Option.some.injEq, Prod.mk.injEq] at ran
  rw [← ran.1] at countedAfter effect
  rw [← ran.2] at effect
  refine ⟨countedAfter, ?_⟩
  have grown := (ledger_step ledger countable.1.2 effect).1
  unfold wrapped deleted
  rw [Config.push_ops, Config.push_observations, List.flatMap_append, List.flatten_append,
    List.flatMap_singleton, List.flatten_singleton]
  exact grown

/-- In every run that keeps the handles of a block countable: each block counts its handles, no
handle points at a freed block, every call is defined, and each trade is deleted once, by the
call in which its last handle lets go. -/
theorem trades_deleted_once (reached : Reachable (step overflow) Countable initial config) :
    HandlesSound config ∧ ∀ op, Countable config op → ∃ after now,
      config.state.step overflow op = some (after, now) ∧ now.Nodup ∧
        ∀ trade, trade ∈ now ↔ config.state.HeldBy trade ∧ ¬ after.HeldBy trade := by
  obtain ⟨counted, ledger⟩ := reachable_ledger reached
  constructor
  · refine ⟨?_, ?_, ?_, ?_⟩
    · exact fun b block live => (counted.counts b block live).1
    · exact fun handle b points => counted.live b (pointing_pos points)
    · intro trade member missing
      rw [held_by_iff counted] at missing
      exact ledger.gone trade member missing
    · intro trade either
      cases either with
      | inl held => exact ledger.held trade ((held_by_iff counted).mp held)
      | inr notWrapped => exact ledger.unknown trade notWrapped
  · intro op countable
    obtain ⟨after, now, ran, countedAfter, effect⟩ :=
      @step_spec _ _ _ _ _ overflow config.state op counted countable.1.1 countable.2
    have shows := (ledger_step ledger countable.1.2 effect).2
    refine ⟨after, now, ran, shows.nodup, ?_⟩
    intro trade
    rw [held_by_iff counted, held_by_iff countedAfter]
    exact shows.deletes trade

end Runs

section Decidable

instance (memory : Memory Handle Block TradePtr) :
    ∀ op : HandleOp Handle Block TradePtr, Decidable (op.Objects memory)
  | .construct handle _ block =>
      inferInstanceAs (Decidable (handle ∉ memory.handles ∧ block ∉ memory.blocks))
  | .copyConstruct handle other =>
      inferInstanceAs (Decidable (handle ∉ memory.handles ∧ other ∈ memory.handles))
  | .copyAssign handle other =>
      inferInstanceAs (Decidable (handle ∈ memory.handles ∧ other ∈ memory.handles))
  | .moveConstruct handle other =>
      inferInstanceAs (Decidable (handle ∉ memory.handles ∧ other ∈ memory.handles))
  | .moveAssign handle other =>
      inferInstanceAs (Decidable (handle ∈ memory.handles ∧ other ∈ memory.handles))
  | .destroy handle => inferInstanceAs (Decidable (handle ∈ memory.handles))

instance (handles : KeyMap Handle (Option Block)) (op : HandleOp Handle Block TradePtr) :
    Decidable (op.Room handles) :=
  match copied : op.copied handles with
  | none => .isTrue (fun b contrary => by
      rw [copied] at contrary
      cases contrary)
  | some b => decidable_of_iff (pointing b (op.shared handles) < 2 ^ 31)
      ⟨fun room c own => by
        rw [copied, Option.some.injEq] at own
        exact own ▸ room, fun room => room b copied⟩

instance (config : Run Handle Block TradePtr) (op : HandleOp Handle Block TradePtr) :
    Decidable (Permitted config op) :=
  inferInstanceAs (Decidable (op.Objects config.state ∧ ∀ trade ∈ op.wraps, trade ∉ wrapped config))

instance (config : Run Handle Block TradePtr) (op : HandleOp Handle Block TradePtr) :
    Decidable (Countable config op) :=
  inferInstanceAs (Decidable (Permitted config op ∧ op.Room config.state.handles))

end Decidable

/-- Two handles share a block, one is assigned to itself and to the other, and then both are
assigned the handle of another trade. -/
def sampleOps : List (HandleOp Nat Nat Nat) :=
  [.construct 0 (some 150) 0, .copyConstruct 1 0, .copyAssign 1 1, .copyAssign 1 0,
    .construct 2 (some 2800) 1, .copyAssign 0 2, .moveAssign 1 2]

theorem trades_deleted_once_sample :
    ∃ config : Run Nat Nat Nat, Reachable (step fun _ => 0) Countable initial config ∧
      deleted config = [150] ∧ HandlesSound config := by
  have completes : (execute (step fun _ => 0) Countable
      (.start (initial : Memory Nat Nat Nat)) sampleOps).any (fun config =>
        decide (deleted config = [150])) = true := by
    decide
  obtain ⟨config, reached, freed⟩ := reachable_of_execute_any completes
  exact ⟨config, reached, freed, (trades_deleted_once reached).1⟩

/-- The first handle and `n` copies of it, made one after the other. -/
theorem copies_reachable (overflow : Int → Int32) (n : Nat) :
    ∃ config : Run Nat Nat Nat, Reachable (step overflow) Permitted initial config ∧
      pointing 0 config.state.handles = n + 1 ∧
      (∀ handle ∈ config.state.handles, handle ≤ n) ∧
      config.state.handles.lookup 0 = some (some 0) ∧ 0 ∈ config.state.blocks := by
  induction n with
  | zero =>
      have built : (initial : Memory Nat Nat Nat).step overflow (.construct 0 (some 150) 0) =
          some ((initial : Memory Nat Nat Nat).construct 0 (some 150) 0, []) := rfl
      have permitted : Permitted (.start (initial : Memory Nat Nat Nat))
          (.construct 0 (some 150) 0) := by decide
      refine ⟨_, reachable_start.tail (.run permitted built), by decide, ?_, rfl, by decide⟩
      intro handle member
      rw [Config.push_state, construct, AList.mem_insert] at member
      cases member with
      | inl own => exact Nat.le_of_eq own
      | inr contrary => cases contrary
  | succ n ih =>
      obtain ⟨config, reached, points, bound, first, live⟩ := ih
      obtain ⟨block, found⟩ := mem_iff_lookup.mp live
      have fresh : n + 1 ∉ config.state.handles := by
        intro member
        exact Nat.not_succ_le_self n (bound (n + 1) member)
      have permitted : Permitted config (.copyConstruct (n + 1) 0) :=
        ⟨⟨fresh, mem_iff_lookup.mpr ⟨_, first⟩⟩, fun _ contrary => absurd contrary List.not_mem_nil⟩
      have next : config.state.step overflow (.copyConstruct (n + 1) 0) =
          some (⟨config.state.handles.insert (n + 1) (some 0), config.state.blocks.insert 0
            ⟨block.ptr, signed overflow (block.count.toInt + 1)⟩⟩, []) := by
        unfold step copyConstruct
        dsimp only
        rw [first]
        unfold adopt
        dsimp only
        rw [found]
      refine ⟨_, reached.tail (.run permitted next), ?_, ?_, ?_, ?_⟩
      · rw [Config.push_state, pointing_insert, pointing_idle (idle_of_notMem fresh), points,
          if_pos rfl]
      · intro handle member
        rw [Config.push_state, AList.mem_insert] at member
        cases member with
        | inl new => exact Nat.le_of_eq new
        | inr old => exact Nat.le_succ_of_le (bound handle old)
      · rw [Config.push_state, lookup_insert_eq, if_neg (Nat.succ_ne_zero n).symm, first]
      · rw [Config.push_state, AList.mem_insert]
        exact .inl rfl

/-- With `2 ^ 31` handles on one block no `int` counts them, whatever the last increment gives. -/
theorem uncountable_handles :
    ¬ ∃ overflow : Int → Int32, ∀ config : Run Nat Nat Nat,
      Reachable (step overflow) Permitted initial config → HandlesSound config := by
  rintro ⟨overflow, sound_of_reached⟩
  obtain ⟨config, reached, points, -, -, live⟩ := copies_reachable overflow (2 ^ 31 - 1)
  obtain ⟨block, found⟩ := mem_iff_lookup.mp live
  have sound := sound_of_reached config reached
  have counts := sound.counts 0 block found
  have upper := block.count.toInt_lt
  omega

end Memory

end Finm327.Session3
