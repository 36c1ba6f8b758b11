import Mathlib.Data.Fintype.EquivFin
import Finm327.Session3.TradeLedger

/-!
# Handles with a single owner

Transcribes `TradeHandle` of `session3/part3_trade_handle.cpp`. The state is the handle objects
that exist, each with its `ptr`; a step shows the trades it deletes. A program that never copies
runs the same with `SharedTradeHandle` in its place, each of whose blocks then has one handle,
so the ledger of the shared handles is the ledger of these.
-/

namespace Finm327.Session3

open Finm327.Library.Maps
open Finm327.Library.Runs
open Finm327.Library.SignedArithmetic

/-- Copying is deleted. -/
inductive UniqueOp (Handle TradePtr : Type) where
  | construct (handle : Handle) (p : Option TradePtr)
  | moveConstruct (handle other : Handle)
  | moveAssign (handle other : Handle)
  | destroy (handle : Handle)

abbrev Owners (Handle TradePtr : Type) := KeyMap Handle (Option TradePtr)

variable {Handle Block TradePtr : Type} [DecidableEq Handle] [DecidableEq Block]

namespace Owners

/-- `ptr = other.ptr; other.ptr = nullptr;` -/
def take (handle other : Handle) (p : Option TradePtr) (owners : Owners Handle TradePtr) :
    Owners Handle TradePtr :=
  (owners.insert handle p).insert other none

def moveConstruct (handle other : Handle) (owners : Owners Handle TradePtr) :
    Option (Owners Handle TradePtr) :=
  match owners.lookup other with
  | none => none
  | some p => some (owners.take handle other p)

def moveAssign (handle other : Handle) (owners : Owners Handle TradePtr) :
    Option (Owners Handle TradePtr × List TradePtr) :=
  if handle = other then some (owners, [])
  else
    match owners.lookup handle, owners.lookup other with
    | some ptr, some p => some (owners.take handle other p, ptr.toList)
    | _, _ => none

def destroy (handle : Handle) (owners : Owners Handle TradePtr) :
    Option (Owners Handle TradePtr × List TradePtr) :=
  match owners.lookup handle with
  | none => none
  | some ptr => some (owners.erase handle, ptr.toList)

/-- One call with the trades it deletes. -/
def step (owners : Owners Handle TradePtr) :
    UniqueOp Handle TradePtr → Option (Owners Handle TradePtr × List TradePtr)
  | .construct handle p => some (owners.insert handle p, [])
  | .moveConstruct handle other => (owners.moveConstruct handle other).map (·, [])
  | .moveAssign handle other => owners.moveAssign handle other
  | .destroy handle => owners.destroy handle

/-- Some handle owns the trade. -/
def HeldBy (owners : Owners Handle TradePtr) (trade : TradePtr) : Prop :=
  ∃ handle, owners.lookup handle = some (some trade)

end Owners

namespace UniqueOp

def wraps : UniqueOp Handle TradePtr → List TradePtr
  | construct _ p => p.toList
  | _ => []

/-- Objects are constructed once, used while they exist and destroyed then. -/
def Objects (owners : Owners Handle TradePtr) : UniqueOp Handle TradePtr → Prop
  | construct handle _ => handle ∉ owners
  | moveConstruct handle other => handle ∉ owners ∧ other ∈ owners
  | moveAssign handle other => handle ∈ owners ∧ other ∈ owners
  | destroy handle => handle ∈ owners

/-- The same call on shared handles, where `new` returns this block. -/
def shared (block : Block) : UniqueOp Handle TradePtr → HandleOp Handle Block TradePtr
  | construct handle p => .construct handle p block
  | moveConstruct handle other => .moveConstruct handle other
  | moveAssign handle other => .moveAssign handle other
  | destroy handle => .destroy handle

def Shares (op : UniqueOp Handle TradePtr) (call : HandleOp Handle Block TradePtr) : Prop :=
  ∃ block, call = op.shared block

end UniqueOp

/-! ## Shared handles that are not copied -/

/-- Every block has one handle, and the trade in it is the one that the handle owns. -/
structure Mirrors (owners : Owners Handle TradePtr) (memory : Memory Handle Block TradePtr) :
    Prop where
  counted : memory.Counted
  alone : ∀ first second b, memory.handles.lookup first = some (some b) →
    memory.handles.lookup second = some (some b) → first = second
  same : ∀ handle, owners.lookup handle =
    (memory.handles.lookup handle).map fun cb => cb.bind fun b => (memory.owner b).join

omit [DecidableEq Handle] [DecidableEq Block] in
/-- A handle that points at a block was not the one set to null. -/
theorem of_null {q : Prop} [Decidable q] {found : Option (Option Block)} {b : Block}
    (points : (if q then some none else found) = some (some b)) :
    ¬ q ∧ found = some (some b) := by
  split_ifs at points with own
  · cases points
  · exact ⟨own, points⟩

namespace Mirrors

variable {owners : Owners Handle TradePtr} {memory : Memory Handle Block TradePtr}
  {handle other : Handle} {ptr p : Option TradePtr} {overflow : Int → Int32}

theorem found (mirrors : Mirrors owners memory) (lookup : owners.lookup handle = some ptr) :
    ∃ cb, memory.handles.lookup handle = some cb ∧
      (cb.bind fun b => (memory.owner b).join) = ptr := by
  rw [mirrors.same] at lookup
  exact Option.map_eq_some_iff.mp lookup

theorem congr {others : Owners Handle TradePtr} (mirrors : Mirrors owners memory)
    (alike : ∀ h, others.lookup h = owners.lookup h) : Mirrors others memory where
  counted := mirrors.counted
  alone := mirrors.alone
  same h := (alike h).trans (mirrors.same h)

theorem mem_iff (mirrors : Mirrors owners memory) : handle ∈ memory.handles ↔ handle ∈ owners := by
  rw [mem_iff_lookup, mem_iff_lookup, mirrors.same]
  simp

theorem pointing_one (mirrors : Mirrors owners memory) {b : Block}
    (points : memory.handles.lookup handle = some (some b)) : pointing b memory.handles = 1 := by
  have nobody : pointing b (memory.handles.erase handle) = 0 := by
    apply Nat.eq_zero_of_not_pos
    intro more
    obtain ⟨second, another⟩ := exists_of_pointing more
    rw [lookup_erase_eq] at another
    split_ifs at another with own
    exact own (mirrors.alone second handle b another points)
  rw [pointing_erase points, if_pos rfl, nobody]

theorem count_one (mirrors : Mirrors owners memory) {b : Block} {block : ControlBlock TradePtr}
    (live : memory.blocks.lookup b = some block) : block.count = 1 := by
  obtain ⟨count, pointed⟩ := mirrors.counted.counts b block live
  obtain ⟨handle, points⟩ := exists_of_pointing pointed
  rw [mirrors.pointing_one points] at count
  exact Int32.toInt.inj count

/-- The block of a handle that lets go is freed, with the trade that the handle owns. -/
theorem release (mirrors : Mirrors owners memory) (overflow : Int → Int32)
    (lookup : owners.lookup handle = some ptr) :
    ∃ after, memory.release overflow handle = some (after, ptr.toList) ∧
      after.handles.lookup handle = some none ∧ Mirrors (owners.insert handle none) after := by
  obtain ⟨cb, points, owns⟩ := mirrors.found lookup
  cases cb with
  | none =>
      have null : ptr = none := owns.symm
      rw [null]
      refine ⟨memory, Memory.release_null points, points, mirrors.counted, mirrors.alone, ?_⟩
      intro h
      rw [lookup_insert_eq]
      split_ifs with own
      · rw [own, points]
        rfl
      · exact mirrors.same h
  | some b =>
      obtain ⟨block, live⟩ := mem_iff_lookup.mp (mirrors.counted.live b (pointing_pos points))
      have last : signed overflow (block.count.toInt - 1) = 0 := by
        rw [mirrors.count_one live]
        apply Int32.toInt.inj
        exact signed_pred (by decide)
      have holds : memory.owner b = some block.ptr := Memory.owner_eq_some.mpr ⟨block, live, rfl⟩
      obtain ⟨after, deleted, ran, handles, counted, _⟩ :=
        @Memory.release_spec _ _ _ _ _ overflow memory handle (some b) mirrors.counted points
      have freed := Memory.release_last points live last
      rw [ran, Option.some.injEq, Prod.mk.injEq] at freed
      have wrapped : block.ptr = ptr := by simpa [holds] using owns
      refine ⟨after, ?_, ?_, counted, ?_, ?_⟩
      · rw [ran, freed.2, wrapped]
      · rw [handles, if_pos rfl]
      · intro first second c atFirst atSecond
        rw [handles] at atFirst atSecond
        exact mirrors.alone first second c (of_null atFirst).2 (of_null atSecond).2
      · intro h
        rw [handles, lookup_insert_eq]
        split_ifs with own
        · rfl
        · rw [mirrors.same h]
          cases other : memory.handles.lookup h with
          | none => rfl
          | some cb =>
              cases cb with
              | none => rfl
              | some c =>
                  have different : c ≠ b := by
                    intro equal
                    rw [equal] at other
                    exact own (mirrors.alone h handle b other points)
                  simp [freed.1, Memory.owner_erase, different]

theorem idle (mirrors : Mirrors owners memory) (absent : handle ∉ owners) (b : Block) :
    memory.handles.lookup handle ≠ some (some b) :=
  Memory.idle_of_notMem (fun present => absent (mirrors.mem_iff.mp present)) b

theorem take (mirrors : Mirrors owners memory)
    (idle : ∀ b, memory.handles.lookup handle ≠ some (some b)) (different : handle ≠ other)
    (lookup : owners.lookup other = some p) :
    ∃ cb, memory.handles.lookup other = some cb ∧
      Mirrors (owners.take handle other p) (memory.take handle other cb) := by
  obtain ⟨cb, points, owns⟩ := mirrors.found lookup
  obtain ⟨counted, kept⟩ := Memory.take_spec mirrors.counted idle different points
  have handles : ∀ h, (memory.take handle other cb).handles.lookup h =
      if h = other then some none else if h = handle then some cb else memory.handles.lookup h := by
    intro h
    simp only [Memory.take, lookup_insert_eq]
  have origin : ∀ h b, (memory.take handle other cb).handles.lookup h = some (some b) →
      h = handle ∧ cb = some b ∨ h ≠ other ∧ memory.handles.lookup h = some (some b) := by
    intro h b atH
    rw [handles] at atH
    obtain ⟨notOther, atH⟩ := of_null atH
    split_ifs at atH with own
    · exact .inl ⟨own, Option.some.inj atH⟩
    · exact .inr ⟨notOther, atH⟩
  refine ⟨cb, points, counted, ?_, ?_⟩
  · intro first second b atFirst atSecond
    rcases origin first b atFirst with ⟨own, moved⟩ | ⟨notOther, kept⟩
    · rcases origin second b atSecond with ⟨ownToo, _⟩ | ⟨notOther, kept⟩
      · rw [own, ownToo]
      · rw [moved] at points
        exact absurd (mirrors.alone second other b kept points) notOther
    · rcases origin second b atSecond with ⟨_, moved⟩ | ⟨_, keptToo⟩
      · rw [moved] at points
        exact absurd (mirrors.alone first other b kept points) notOther
      · exact mirrors.alone first second b kept keptToo
  · intro h
    rw [handles, Owners.take, lookup_insert_eq, lookup_insert_eq]
    simp only [kept]
    split_ifs
    · rfl
    · rw [Option.map_some, owns]
    · exact mirrors.same h

/-- A handle goes whose block, if it had one, is freed. -/
theorem erase (mirrors : Mirrors owners memory)
    (null : memory.handles.lookup handle = some none) :
    Mirrors (owners.erase handle) { memory with handles := memory.handles.erase handle } := by
  have idle : ∀ b, memory.handles.lookup handle ≠ some (some b) := by
    intro b
    rw [null]
    exact fun equal => Option.some_ne_none b (Option.some.inj equal).symm
  refine ⟨Memory.erase_spec mirrors.counted idle, ?_, ?_⟩
  · intro first second b atFirst atSecond
    have origin : ∀ h, (memory.handles.erase handle).lookup h = some (some b) →
        memory.handles.lookup h = some (some b) := by
      intro h atH
      rw [lookup_erase_eq] at atH
      split_ifs at atH
      exact atH
    exact mirrors.alone first second b (origin first atFirst) (origin second atSecond)
  · intro h
    rw [lookup_erase_eq, lookup_erase_eq]
    split_ifs
    · rfl
    · exact mirrors.same h

theorem construct (mirrors : Mirrors owners memory) (absent : handle ∉ owners) {block : Block}
    (fresh : block ∉ memory.blocks) :
    Mirrors (owners.insert handle p) (memory.construct handle p block) := by
  obtain ⟨counted, holds⟩ := Memory.construct_spec (p := p) mirrors.counted
    (mirrors.idle absent) fresh
  have notFresh : ∀ h b, memory.handles.lookup h = some (some b) → b ≠ block := by
    intro h b points equal
    exact fresh (equal ▸ mirrors.counted.live b (pointing_pos points))
  have handles : ∀ h, (memory.construct handle p block).handles.lookup h =
      if h = handle then some (some block) else memory.handles.lookup h := by
    intro h
    simp only [Memory.construct, lookup_insert_eq]
  have origin : ∀ h b, (memory.construct handle p block).handles.lookup h = some (some b) →
      h = handle ∧ b = block ∨ b ≠ block ∧ memory.handles.lookup h = some (some b) := by
    intro h b atH
    rw [handles] at atH
    split_ifs at atH with own
    · exact .inl ⟨own, (Option.some.inj (Option.some.inj atH)).symm⟩
    · exact .inr ⟨notFresh h b atH, atH⟩
  refine ⟨counted, ?_, ?_⟩
  · intro first second b atFirst atSecond
    rcases origin first b atFirst with ⟨own, new⟩ | ⟨old, kept⟩
    · rcases origin second b atSecond with ⟨ownToo, _⟩ | ⟨old, _⟩
      · rw [own, ownToo]
      · exact absurd new old
    · rcases origin second b atSecond with ⟨_, new⟩ | ⟨_, keptToo⟩
      · exact absurd new old
      · exact mirrors.alone first second b kept keptToo
  · intro h
    rw [handles, lookup_insert_eq]
    split_ifs with own
    · simp [holds]
    · rw [mirrors.same h]
      cases points : memory.handles.lookup h with
      | none => rfl
      | some cb =>
          cases cb with
          | none => rfl
          | some b => simp [holds, notFresh h b points]

/-- Some handle owns exactly the trades that a live block has. -/
theorem held_iff (mirrors : Mirrors owners memory) (trade : TradePtr) :
    owners.HeldBy trade ↔ memory.Has trade := by
  constructor
  · rintro ⟨handle, lookup⟩
    obtain ⟨cb, _, owns⟩ := mirrors.found lookup
    obtain ⟨b, _, holds⟩ := Option.bind_eq_some_iff.mp owns
    exact ⟨b, Option.join_eq_some_iff.mp holds⟩
  · rintro ⟨b, holds⟩
    obtain ⟨block, live, _⟩ := Memory.owner_eq_some.mp holds
    obtain ⟨handle, points⟩ := exists_of_pointing (mirrors.counted.counts b block live).2
    refine ⟨handle, ?_⟩
    rw [mirrors.same, points]
    simp [holds]

/-- Each call does what the same call on shared handles does. -/
theorem step_mirrors (mirrors : Mirrors owners memory) {op : UniqueOp Handle TradePtr}
    (objects : op.Objects owners) {block : Block} (fresh : block ∉ memory.blocks) :
    ∃ next deleted after, owners.step op = some (next, deleted) ∧
      (op.shared block).Objects memory ∧ (op.shared block).Room memory.handles ∧
      (op.shared block).wraps = op.wraps ∧
      memory.step overflow (op.shared block) = some (after, deleted) ∧ Mirrors next after := by
  have noCopy : ∀ shared : HandleOp Handle Block TradePtr, shared.source = none →
      shared.Room memory.handles := by
    intro shared own b copied
    simp [HandleOp.copied, own] at copied
  cases op with
  | construct handle p =>
      exact ⟨_, [], _, rfl, ⟨fun present => objects (mirrors.mem_iff.mp present), fresh⟩,
        noCopy _ rfl, rfl, rfl, mirrors.construct objects fresh⟩
  | moveConstruct handle other =>
      obtain ⟨p, lookup⟩ := mem_iff_lookup.mp objects.2
      have different : handle ≠ other := by
        intro equal
        exact objects.1 (equal ▸ objects.2)
      obtain ⟨cb, points, moved⟩ := mirrors.take (mirrors.idle objects.1) different lookup
      refine ⟨owners.take handle other p, [], memory.take handle other cb, ?_, ?_, noCopy _ rfl,
        rfl, ?_, moved⟩
      · simp [Owners.step, Owners.moveConstruct, lookup]
      · exact ⟨fun present => objects.1 (mirrors.mem_iff.mp present),
          mirrors.mem_iff.mpr objects.2⟩
      · simp [UniqueOp.shared, Memory.step, Memory.moveConstruct, points]
  | moveAssign handle other =>
      have both : (HandleOp.moveAssign handle other : HandleOp Handle Block TradePtr).Objects
          memory := ⟨mirrors.mem_iff.mpr objects.1, mirrors.mem_iff.mpr objects.2⟩
      by_cases self : handle = other
      · refine ⟨owners, [], memory, ?_, both, noCopy _ rfl, rfl, ?_, mirrors⟩
        · simp [Owners.step, Owners.moveAssign, self]
        · simp [UniqueOp.shared, Memory.step, Memory.moveAssign, self]
      · obtain ⟨ptr, own⟩ := mem_iff_lookup.mp objects.1
        obtain ⟨p, lookup⟩ := mem_iff_lookup.mp objects.2
        obtain ⟨middle, released, null, mirrorsMiddle⟩ := mirrors.release overflow own
        have lookupMiddle : (owners.insert handle none).lookup other = some p := by
          rw [lookup_insert_eq, if_neg (Ne.symm self), lookup]
        have idle : ∀ b, middle.handles.lookup handle ≠ some (some b) := by
          intro b
          simp [null]
        obtain ⟨cb, points, moved⟩ := mirrorsMiddle.take idle self lookupMiddle
        refine ⟨owners.take handle other p, ptr.toList, middle.take handle other cb, ?_, both,
          noCopy _ rfl, rfl, ?_, ?_⟩
        · simp [Owners.step, Owners.moveAssign, self, own, lookup]
        · simp [UniqueOp.shared, Memory.step, Memory.moveAssign, self, released, points]
        · rw [Owners.take, AList.insert_insert] at moved
          exact moved
  | destroy handle =>
      obtain ⟨ptr, own⟩ := mem_iff_lookup.mp objects
      obtain ⟨middle, released, null, mirrorsMiddle⟩ := mirrors.release overflow own
      refine ⟨owners.erase handle, ptr.toList,
        { middle with handles := middle.handles.erase handle }, ?_, mirrors.mem_iff.mpr objects,
        noCopy _ rfl, rfl, ?_, ?_⟩
      · simp [Owners.step, Owners.destroy, own]
      · simp only [UniqueOp.shared, Memory.step, Memory.destroy, released]
      · apply (mirrorsMiddle.erase null).congr
        intro h
        rw [lookup_erase_eq, lookup_erase_eq, lookup_insert_eq]
        split_ifs
        · rfl
        · rfl

end Mirrors

/-! ## Whole programs -/

namespace Owners

abbrev UniqueRun (Handle TradePtr : Type) :=
  Config (Owners Handle TradePtr) (UniqueOp Handle TradePtr) (List TradePtr)

def wrapped (config : UniqueRun Handle TradePtr) : List TradePtr :=
  config.ops.flatMap UniqueOp.wraps

def deleted (config : UniqueRun Handle TradePtr) : List TradePtr := config.observations.flatten

/-- Objects are used as the language asks, and no trade is wrapped twice. -/
def Permitted (config : UniqueRun Handle TradePtr) (op : UniqueOp Handle TradePtr) : Prop :=
  op.Objects config.state ∧ ∀ trade ∈ op.wraps, trade ∉ wrapped config

/-- The run of shared handles beside a run: the same calls, which delete the same trades. -/
structure Shared (config : UniqueRun Handle TradePtr) (mirror : Memory.Run Handle Block TradePtr) :
    Prop where
  calls : List.Forall₂ UniqueOp.Shares config.ops mirror.ops
  wrapped : Memory.wrapped mirror = wrapped config
  deletes : mirror.observations = config.observations
  mirrors : Mirrors config.state mirror.state

variable {overflow : Int → Int32} {config : UniqueRun Handle TradePtr}

omit [DecidableEq Handle] in
/-- There is always a block that is not in use. -/
theorem exists_fresh [Infinite Block] (memory : Memory Handle Block TradePtr) :
    ∃ block, block ∉ memory.blocks := by
  obtain ⟨block, fresh⟩ := Infinite.exists_notMem_finset memory.blocks.keys.toFinset
  exact ⟨block, fun present => fresh (List.mem_toFinset.mpr present)⟩

theorem start_mirrors :
    Mirrors (∅ : Owners Handle TradePtr) (Memory.initial : Memory Handle Block TradePtr) where
  counted := Memory.start_counted
  alone _ _ _ points := by cases points
  same _ := rfl

/-- One more call beside the same call on shared handles. -/
theorem Shared.push {mirror : Memory.Run Handle Block TradePtr} (shared : Shared config mirror)
    {op : UniqueOp Handle TradePtr} {next : Owners Handle TradePtr} {now : List TradePtr}
    (permitted : Permitted config op) (ran : step config.state op = some (next, now))
    {block : Block} (fresh : block ∉ mirror.state.blocks) :
    ∃ after, Memory.Countable mirror (op.shared block) ∧
      Memory.step overflow mirror.state (op.shared block) = some (after, now) ∧
      Shared (config.push op next now) (mirror.push (op.shared block) after now) := by
  obtain ⟨own, deleted, after, ownRan, objects, room, wraps, sharedRan, mirrors⟩ :=
    @Mirrors.step_mirrors _ _ _ _ _ _ _ overflow shared.mirrors op permitted.1 block fresh
  rw [ran, Option.some.injEq, Prod.mk.injEq] at ownRan
  rw [← ownRan.1] at mirrors
  rw [← ownRan.2] at sharedRan
  refine ⟨after, ⟨⟨objects, ?_⟩, room⟩, sharedRan, ?_, ?_, ?_, mirrors⟩
  · rw [wraps, shared.wrapped]
    exact permitted.2
  · rw [Config.push_ops, Config.push_ops]
    exact List.rel_append shared.calls (.cons ⟨block, rfl⟩ .nil)
  · have before := shared.wrapped
    unfold Memory.wrapped Owners.wrapped at before ⊢
    simp [before, wraps]
  · simp [shared.deletes]

variable (Block) in
theorem reachable_shared [Infinite Block]
    (reached : Reachable step Permitted (∅ : Owners Handle TradePtr) config) :
    ∃ mirror : Memory.Run Handle Block TradePtr,
      Reachable (Memory.step overflow) Memory.Countable Memory.initial mirror ∧
        Shared config mirror := by
  apply reachable_invariant _ _ _ reached
  · exact ⟨.start Memory.initial, reachable_start, .nil, rfl, rfl, start_mirrors⟩
  · rintro config op next now ⟨mirror, mirrorReached, shared⟩ permitted ran
    obtain ⟨block, fresh⟩ := exists_fresh mirror.state
    obtain ⟨after, countable, sharedRan, sharedNext⟩ := shared.push permitted ran fresh
    exact ⟨_, mirrorReached.tail (.run countable sharedRan), sharedNext⟩

theorem forall₂_last {Op Call : Type} {R : Op → Call → Prop} {ops : List Op} {calls : List Call}
    {op : Op} {call : Call} (all : List.Forall₂ R (ops ++ [op]) (calls ++ [call])) :
    List.Forall₂ R ops calls ∧ R op call := by
  have sizes : ops.length = calls.length := by simpa using all.length_eq
  have front := List.forall₂_take ops.length all
  have back := List.forall₂_drop ops.length all
  rw [List.take_left, sizes, List.take_left] at front
  rw [List.drop_left, sizes, List.drop_left] at back
  exact ⟨front, (List.forall₂_cons.mp back).1⟩

omit [DecidableEq Handle] in
/-- A block that `new` may return in this call: any free one where the call is a construction. -/
theorem shared_with_fresh [Infinite Block] {memory : Memory Handle Block TradePtr}
    {op : UniqueOp Handle TradePtr} {call : HandleOp Handle Block TradePtr}
    (shares : op.Shares call) (objects : call.Objects memory) :
    ∃ block, block ∉ memory.blocks ∧ call = op.shared block := by
  obtain ⟨block, rfl⟩ := shares
  cases op with
  | construct handle p => exact ⟨block, objects.2, rfl⟩
  | moveConstruct | moveAssign | destroy =>
      obtain ⟨fresh, free⟩ := exists_fresh memory
      exact ⟨fresh, free, rfl⟩

/-- Every run of shared handles with the same calls is the one beside the run. -/
theorem shared_of_calls [Infinite Block]
    (reached : Reachable step Permitted (∅ : Owners Handle TradePtr) config)
    {mirror : Memory.Run Handle Block TradePtr}
    (mirrorReached : Reachable (Memory.step overflow) Memory.Countable Memory.initial mirror)
    (calls : List.Forall₂ UniqueOp.Shares config.ops mirror.ops) : Shared config mirror := by
  induction reached generalizing mirror with
  | refl =>
      have none : mirror.ops = [] := List.forall₂_nil_left_iff.mp calls
      rw [reachable_unique reachable_start mirrorReached none]
      exact ⟨.nil, rfl, rfl, start_mirrors⟩
  | @tail before _ _ last ih =>
      cases last with
      | @run op next now permitted ran =>
          rw [Config.push_ops] at calls
          cases mirrorReached with
          | refl =>
              have empty := List.forall₂_nil_right_iff.mp calls
              exact absurd empty (List.concat_ne_nil _ _)
          | @tail earlier _ earlierReached lastToo =>
              cases lastToo with
              | @run call after shows countable sharedRan =>
                  rw [Config.push_ops] at calls
                  obtain ⟨callsBefore, shares⟩ := forall₂_last calls
                  have shared := ih earlierReached callsBefore
                  obtain ⟨block, fresh, rfl⟩ := shared_with_fresh shares countable.1.1
                  obtain ⟨own, _, ownRan, sharedNext⟩ := shared.push permitted ran fresh
                  rw [sharedRan, Option.some.injEq, Prod.mk.injEq] at ownRan
                  rw [ownRan.1, ownRan.2]
                  exact sharedNext

/-- The promises of the handles, of one state of a run. -/
structure OwnedOnce [DecidableEq TradePtr] (config : UniqueRun Handle TradePtr) : Prop where
  single : ∀ first second trade, config.state.lookup first = some (some trade) →
    config.state.lookup second = some (some trade) → first = second
  deletedOnce : ∀ trade ∈ wrapped config, ¬ config.state.HeldBy trade →
    (deleted config).count trade = 1
  notDeleted : ∀ trade, config.state.HeldBy trade ∨ trade ∉ wrapped config →
    trade ∉ deleted config

/-- The ledger of the shared run is that of the handles. -/
theorem shared_ledger [DecidableEq TradePtr] {mirror : Memory.Run Handle Block TradePtr}
    (mirrorReached : Reachable (Memory.step overflow) Memory.Countable Memory.initial mirror)
    (shared : Shared config mirror) :
    mirror.state.Ledger (wrapped config) (deleted config) := by
  have ledger := (Memory.reachable_ledger mirrorReached).2
  rw [shared.wrapped, Memory.deleted, shared.deletes] at ledger
  exact ledger

theorem owned_once_of_ledger [DecidableEq TradePtr] {memory : Memory Handle Block TradePtr}
    (mirrors : Mirrors config.state memory)
    (ledger : memory.Ledger (wrapped config) (deleted config)) : OwnedOnce config := by
  constructor
  · intro first second trade atFirst atSecond
    obtain ⟨cb, points, owns⟩ := mirrors.found atFirst
    obtain ⟨cbToo, pointsToo, ownsToo⟩ := mirrors.found atSecond
    obtain ⟨b, is, holds⟩ := Option.bind_eq_some_iff.mp owns
    obtain ⟨c, isToo, holdsToo⟩ := Option.bind_eq_some_iff.mp ownsToo
    have same := ledger.single b c trade (Option.join_eq_some_iff.mp holds)
      (Option.join_eq_some_iff.mp holdsToo)
    rw [is] at points
    rw [isToo, ← same] at pointsToo
    exact mirrors.alone first second b points pointsToo
  · intro trade member missing
    rw [mirrors.held_iff] at missing
    exact ledger.gone trade member missing
  · intro trade either
    rcases either with held | notWrapped
    · exact ledger.held trade ((mirrors.held_iff trade).mp held)
    · exact ledger.unknown trade notWrapped

/-- A program that never copies, and wraps no pointer twice, runs with `SharedTradeHandle` in the
place of `TradeHandle`. Whichever free addresses `new` returns, it deletes the same trades in the
same calls, every block counts one handle, and the next call is defined for both. -/
theorem shared_in_place [Infinite Block] (overflow : Int → Int32)
    (reached : Reachable step Permitted (∅ : Owners Handle TradePtr) config) :
    (∃ mirror : Memory.Run Handle Block TradePtr,
      Reachable (Memory.step overflow) Memory.Countable Memory.initial mirror ∧
        List.Forall₂ UniqueOp.Shares config.ops mirror.ops) ∧
    ∀ mirror : Memory.Run Handle Block TradePtr,
      Reachable (Memory.step overflow) Memory.Countable Memory.initial mirror →
      List.Forall₂ UniqueOp.Shares config.ops mirror.ops →
        mirror.observations = config.observations ∧
        (∀ b block, mirror.state.blocks.lookup b = some block → block.count = 1) ∧
        ∀ op, Permitted config op → ∀ block, block ∉ mirror.state.blocks →
          ∃ next now after, step config.state op = some (next, now) ∧
            Memory.Countable mirror (op.shared block) ∧
            Memory.step overflow mirror.state (op.shared block) = some (after, now) := by
  constructor
  · obtain ⟨mirror, mirrorReached, shared⟩ := reachable_shared Block reached
    exact ⟨mirror, mirrorReached, shared.calls⟩
  · intro mirror mirrorReached calls
    have shared := shared_of_calls reached mirrorReached calls
    refine ⟨shared.deletes, fun _ _ live => shared.mirrors.count_one live, ?_⟩
    intro op permitted block fresh
    obtain ⟨next, now, _, ran, _⟩ :=
      @Mirrors.step_mirrors _ _ _ _ _ _ _ overflow shared.mirrors op permitted.1 block fresh
    obtain ⟨after, countable, sharedRan, _⟩ := shared.push permitted ran fresh
    exact ⟨next, now, after, ran, countable, sharedRan⟩

/-- In every run each trade has at most one handle and is deleted once, by the call in which its
handle lets go; and every permitted call is defined. -/
theorem trades_owned_once [DecidableEq TradePtr]
    (reached : Reachable step Permitted (∅ : Owners Handle TradePtr) config) :
    OwnedOnce config ∧ ∀ op, Permitted config op → ∃ next now,
      config.state.step op = some (next, now) ∧ now.Nodup ∧
        ∀ trade, trade ∈ now ↔ config.state.HeldBy trade ∧ ¬ next.HeldBy trade := by
  obtain ⟨mirror, mirrorReached, shared⟩ := @reachable_shared _ Nat _ _ _ (fun _ => 0) _ _ reached
  have ledger := shared_ledger mirrorReached shared
  refine ⟨owned_once_of_ledger shared.mirrors ledger, ?_⟩
  intro op permitted
  obtain ⟨block, fresh⟩ := exists_fresh mirror.state
  obtain ⟨next, now, after, ran, objects, room, wraps, sharedRan, mirrorsNext⟩ :=
    @Mirrors.step_mirrors _ _ _ _ _ _ _ (fun _ => 0) shared.mirrors op permitted.1 _ fresh
  obtain ⟨_, _, sameRan, _, effect⟩ := @Memory.step_spec _ _ _ _ _ (fun _ => 0) mirror.state
    (op.shared block) shared.mirrors.counted objects room
  rw [sharedRan, Option.some.injEq, Prod.mk.injEq] at sameRan
  rw [← sameRan.1, ← sameRan.2] at effect
  have shows := (Memory.ledger_step ledger (wraps ▸ permitted.2) effect).2
  refine ⟨next, now, ran, shows.nodup, ?_⟩
  intro trade
  rw [shared.mirrors.held_iff, mirrorsNext.held_iff]
  exact shows.deletes trade

instance (owners : Owners Handle TradePtr) :
    ∀ op : UniqueOp Handle TradePtr, Decidable (op.Objects owners)
  | .construct handle _ => inferInstanceAs (Decidable (handle ∉ owners))
  | .moveConstruct handle other =>
      inferInstanceAs (Decidable (handle ∉ owners ∧ other ∈ owners))
  | .moveAssign handle other =>
      inferInstanceAs (Decidable (handle ∈ owners ∧ other ∈ owners))
  | .destroy handle => inferInstanceAs (Decidable (handle ∈ owners))

instance [DecidableEq TradePtr] (config : UniqueRun Handle TradePtr)
    (op : UniqueOp Handle TradePtr) : Decidable (Permitted config op) :=
  inferInstanceAs (Decidable (op.Objects config.state ∧ ∀ trade ∈ op.wraps, trade ∉ wrapped config))

/-- The second block of `main`: `b` takes the trade of `a`, and `c` lets go of its own for it. -/
def movedOps : List (UniqueOp Nat Nat) :=
  [.construct 0 (some 2800), .moveConstruct 1 0, .construct 2 (some 300), .moveAssign 2 1,
    .destroy 2, .destroy 1, .destroy 0]

theorem moved_runs : ∃ config : UniqueRun Nat Nat,
    Reachable step Permitted (∅ : Owners Nat Nat) config ∧
      config.observations = [[], [], [], [300], [2800], [], []] := by
  have completes : (execute step Permitted (.start (∅ : Owners Nat Nat)) movedOps).any
      (fun config => decide (config.observations = [[], [], [], [300], [2800], [], []])) =
        true := by
    decide
  exact reachable_of_execute_any completes

theorem shared_in_place_sample : ∃ mirror : Memory.Run Nat Nat Nat,
    Reachable (Memory.step fun _ => 0) Memory.Countable Memory.initial mirror ∧
      mirror.observations = [[], [], [], [300], [2800], [], []] := by
  obtain ⟨config, reached, deletes⟩ := moved_runs
  obtain ⟨⟨mirror, mirrorReached, calls⟩, all⟩ :=
    @shared_in_place Nat Nat Nat _ _ config _ (fun _ => 0) reached
  exact ⟨mirror, mirrorReached, (all mirror mirrorReached calls).1.trans deletes⟩

theorem trades_owned_once_sample : ∃ config : UniqueRun Nat Nat,
    Reachable step Permitted (∅ : Owners Nat Nat) config ∧
      config.observations = [[], [], [], [300], [2800], [], []] ∧ OwnedOnce config := by
  obtain ⟨config, reached, deletes⟩ := moved_runs
  exact ⟨config, reached, deletes, (trades_owned_once reached).1⟩

end Owners

end Finm327.Session3
