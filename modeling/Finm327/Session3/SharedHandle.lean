import Mathlib.Algebra.Group.Nat.Defs
import Finm327.Library.Maps
import Finm327.Library.Runs
import Finm327.Library.SignedArithmetic

/-!
# Reference-counted trade handles

Transcribes `SharedTradeHandle` of `session3/part4_shared_handle.cpp`. Handles are the handle
objects that exist, each with its `cb`; control blocks live on a heap whose allocator returns
any address that is not in use. Access to a block that was freed is undefined. `count` is an
`int`, so it can follow at most `2 ^ 31 - 1` handles; what it becomes beyond that is a
parameter. A step shows the trades it deletes.
-/

namespace Finm327.Session3

open Finm327.Library.Maps
open Finm327.Library.Runs
open Finm327.Library.SignedArithmetic

structure ControlBlock (TradePtr : Type) where
  ptr : Option TradePtr
  count : Int32

structure Memory (Handle Block TradePtr : Type) where
  handles : KeyMap Handle (Option Block)
  blocks : KeyMap Block (ControlBlock TradePtr)

/-- The special member functions; `construct` names the block that `new` returns. -/
inductive HandleOp (Handle Block TradePtr : Type) where
  | construct (handle : Handle) (p : Option TradePtr) (block : Block)
  | copyConstruct (handle other : Handle)
  | copyAssign (handle other : Handle)
  | moveConstruct (handle other : Handle)
  | moveAssign (handle other : Handle)
  | destroy (handle : Handle)

variable {Handle Block TradePtr : Type} [DecidableEq Handle] [DecidableEq Block]

namespace Memory

def initial : Memory Handle Block TradePtr := ⟨∅, ∅⟩

def release (overflow : Int → Int32) (handle : Handle) (memory : Memory Handle Block TradePtr) :
    Option (Memory Handle Block TradePtr × List TradePtr) :=
  match memory.handles.lookup handle with
  | none => none
  | some none => some (memory, [])
  | some (some cb) =>
      match memory.blocks.lookup cb with
      | none => none
      | some block =>
          let count := signed overflow (block.count.toInt - 1)
          let handles := memory.handles.insert handle none
          if count = 0 then some (⟨handles, memory.blocks.erase cb⟩, block.ptr.toList)
          else some (⟨handles, memory.blocks.insert cb { block with count := count }⟩, [])

/-- `cb = other.cb; if (cb) ++cb->count;` -/
def adopt (overflow : Int → Int32) (handle : Handle) (cb : Option Block)
    (memory : Memory Handle Block TradePtr) : Option (Memory Handle Block TradePtr) :=
  match cb with
  | none => some { memory with handles := memory.handles.insert handle none }
  | some b =>
      match memory.blocks.lookup b with
      | none => none
      | some block =>
          let count := signed overflow (block.count.toInt + 1)
          some ⟨memory.handles.insert handle (some b),
            memory.blocks.insert b { block with count := count }⟩

/-- `cb = other.cb; other.cb = nullptr;` -/
def take (handle other : Handle) (cb : Option Block) (memory : Memory Handle Block TradePtr) :
    Memory Handle Block TradePtr :=
  { memory with handles := (memory.handles.insert handle cb).insert other none }

def construct (handle : Handle) (p : Option TradePtr) (block : Block)
    (memory : Memory Handle Block TradePtr) : Memory Handle Block TradePtr :=
  ⟨memory.handles.insert handle (some block), memory.blocks.insert block ⟨p, 1⟩⟩

def copyConstruct (overflow : Int → Int32) (handle other : Handle)
    (memory : Memory Handle Block TradePtr) : Option (Memory Handle Block TradePtr) :=
  match memory.handles.lookup other with
  | none => none
  | some cb => memory.adopt overflow handle cb

def copyAssign (overflow : Int → Int32) (handle other : Handle)
    (memory : Memory Handle Block TradePtr) :
    Option (Memory Handle Block TradePtr × List TradePtr) :=
  if handle = other then some (memory, [])
  else
    match memory.release overflow handle with
    | none => none
    | some (memory, deleted) =>
        match memory.handles.lookup other with
        | none => none
        | some cb =>
            match memory.adopt overflow handle cb with
            | none => none
            | some memory => some (memory, deleted)

def moveConstruct (handle other : Handle) (memory : Memory Handle Block TradePtr) :
    Option (Memory Handle Block TradePtr) :=
  match memory.handles.lookup other with
  | none => none
  | some cb => some (memory.take handle other cb)

def moveAssign (overflow : Int → Int32) (handle other : Handle)
    (memory : Memory Handle Block TradePtr) :
    Option (Memory Handle Block TradePtr × List TradePtr) :=
  if handle = other then some (memory, [])
  else
    match memory.release overflow handle with
    | none => none
    | some (memory, deleted) =>
        match memory.handles.lookup other with
        | none => none
        | some cb => some (memory.take handle other cb, deleted)

def destroy (overflow : Int → Int32) (handle : Handle) (memory : Memory Handle Block TradePtr) :
    Option (Memory Handle Block TradePtr × List TradePtr) :=
  match memory.release overflow handle with
  | none => none
  | some (memory, deleted) =>
      some ({ memory with handles := memory.handles.erase handle }, deleted)

/-- One call with the trades it deletes. -/
def step (overflow : Int → Int32) (memory : Memory Handle Block TradePtr) :
    HandleOp Handle Block TradePtr → Option (Memory Handle Block TradePtr × List TradePtr)
  | .construct handle p block => some (memory.construct handle p block, [])
  | .copyConstruct handle other =>
      match memory.copyConstruct overflow handle other with
      | none => none
      | some memory => some (memory, [])
  | .copyAssign handle other => memory.copyAssign overflow handle other
  | .moveConstruct handle other =>
      match memory.moveConstruct handle other with
      | none => none
      | some memory => some (memory, [])
  | .moveAssign handle other => memory.moveAssign overflow handle other
  | .destroy handle => memory.destroy overflow handle

/-- The trade behind a live block. -/
def owner (memory : Memory Handle Block TradePtr) (block : Block) : Option (Option TradePtr) :=
  (memory.blocks.lookup block).map ControlBlock.ptr

end Memory

section Pointing

variable {handles : KeyMap Handle (Option Block)} {handle other : Handle} {cb : Option Block}
  {b : Block}

omit [DecidableEq Handle] in
/-- The number of handles that point at the block. -/
def pointing (b : Block) (handles : KeyMap Handle (Option Block)) : Nat :=
  countValues (fun cb => decide (cb = some b)) handles

theorem pointing_pos (found : handles.lookup handle = some (some b)) : 0 < pointing b handles :=
  count_values_pos found (decide_eq_true rfl)

theorem exists_of_pointing (positive : 0 < pointing b handles) :
    ∃ handle, handles.lookup handle = some (some b) := by
  obtain ⟨handle, cb, found, points⟩ := exists_of_count_values_pos positive
  rw [of_decide_eq_true points] at found
  exact ⟨handle, found⟩

theorem pointing_erase (found : handles.lookup handle = some cb) (b : Block) :
    pointing b handles = pointing b (handles.erase handle) + if cb = some b then 1 else 0 := by
  unfold pointing
  rw [count_values_erase found]
  simp only [decide_eq_true_eq]

theorem pointing_insert (handle : Handle) (cb : Option Block) (b : Block) :
    pointing b (handles.insert handle cb) =
      pointing b (handles.erase handle) + if cb = some b then 1 else 0 := by
  unfold pointing
  rw [count_values_insert]
  simp only [decide_eq_true_eq]

/-- A handle that does not exist, or is null, counts for no block. -/
theorem pointing_idle (idle : ∀ b, handles.lookup handle ≠ some (some b)) (b : Block) :
    pointing b (handles.erase handle) = pointing b handles := by
  cases found : handles.lookup handle with
  | none => rw [erase_of_notMem (AList.lookup_eq_none.mp found)]
  | some cb =>
      have notOwn : cb ≠ some b := by
        intro equal
        rw [equal] at found
        exact idle b found
      rw [pointing_erase found b, if_neg notOwn, Nat.add_zero]

theorem pointing_insert_null (handle : Handle) (b : Block) :
    pointing b (handles.insert handle none) = pointing b (handles.erase handle) := by
  have nulled : ¬ (none : Option Block) = some b := nofun
  rw [pointing_insert, if_neg nulled, Nat.add_zero]

theorem pointing_insert_ne (handle : Handle) {b c : Block} (different : c ≠ b) :
    pointing c (handles.insert handle (some b)) = pointing c (handles.erase handle) := by
  rw [pointing_insert, if_neg (fun equal => different (Option.some.inj equal).symm), Nat.add_zero]

end Pointing

namespace Memory

/-- Every block counts the handles that point at it, and each of these finds its block. -/
structure Counted (memory : Memory Handle Block TradePtr) : Prop where
  counts : ∀ b block, memory.blocks.lookup b = some block →
    block.count.toInt = pointing b memory.handles ∧ 0 < pointing b memory.handles
  live : ∀ b, 0 < pointing b memory.handles → b ∈ memory.blocks

/-- What a step does to the blocks: it may free one, and then deletes its trade. -/
inductive Lets (before after : Memory Handle Block TradePtr) : List TradePtr → Prop
  | keeps (same : ∀ b, after.owner b = before.owner b) : Lets before after []
  | frees (b : Block) (ptr : Option TradePtr) (had : before.owner b = some ptr)
      (gone : ∀ c, after.owner c = if c = b then none else before.owner c) :
      Lets before after ptr.toList

section Primitives

variable {overflow : Int → Int32} {memory : Memory Handle Block TradePtr} {handle other : Handle}
  {cb : Option Block} {b : Block} {p : Option TradePtr}

omit [DecidableEq Handle] in
theorem owner_eq_some {ptr : Option TradePtr} :
    memory.owner b = some ptr ↔ ∃ block, memory.blocks.lookup b = some block ∧ block.ptr = ptr :=
  Option.map_eq_some_iff

omit [DecidableEq Handle] in
theorem owner_insert (handles : KeyMap Handle (Option Block)) (block : ControlBlock TradePtr)
    (c : Block) : (⟨handles, memory.blocks.insert b block⟩ : Memory Handle Block TradePtr).owner c =
      if c = b then some block.ptr else memory.owner c := by
  unfold owner
  dsimp only
  rw [lookup_insert_eq]
  split_ifs
  · rfl
  · rfl

omit [DecidableEq Handle] in
/-- The count of one block is changed together with the handles that point at it. -/
theorem counted_insert (counted : Counted memory) {handles : KeyMap Handle (Option Block)}
    {block : ControlBlock TradePtr} (own : block.count.toInt = pointing b handles)
    (positive : 0 < pointing b handles)
    (others : ∀ c, c ≠ b → pointing c handles = pointing c memory.handles) :
    Counted (⟨handles, memory.blocks.insert b block⟩ : Memory Handle Block TradePtr) := by
  constructor
  · intro c found lookup
    dsimp only at lookup ⊢
    rw [lookup_insert_eq] at lookup
    split_ifs at lookup with same
    · rw [same, ← Option.some.inj lookup]
      exact ⟨own, positive⟩
    · rw [others c same]
      exact counted.counts c found lookup
  · intro c points
    dsimp only at points ⊢
    rw [AList.mem_insert]
    by_cases same : c = b
    · exact .inl same
    · rw [others c same] at points
      exact .inr (counted.live c points)

omit [DecidableEq Handle] in
/-- The handles change, and every count with them stays. -/
theorem counted_congr (counted : Counted memory) {handles : KeyMap Handle (Option Block)}
    (same : ∀ c, pointing c handles = pointing c memory.handles) :
    Counted (⟨handles, memory.blocks⟩ : Memory Handle Block TradePtr) := by
  constructor
  · intro c block lookup
    dsimp only at lookup ⊢
    rw [same c]
    exact counted.counts c block lookup
  · intro c points
    dsimp only at points ⊢
    rw [same c] at points
    exact counted.live c points

omit [DecidableEq Handle] in
/-- A block is freed when no handle is left. -/
theorem counted_erase (counted : Counted memory) {handles : KeyMap Handle (Option Block)}
    (nobody : pointing b handles = 0)
    (others : ∀ c, c ≠ b → pointing c handles = pointing c memory.handles) :
    Counted (⟨handles, memory.blocks.erase b⟩ : Memory Handle Block TradePtr) := by
  constructor
  · intro c kept lookup
    dsimp only at lookup ⊢
    rw [lookup_erase_eq] at lookup
    split_ifs at lookup with same
    rw [others c same]
    exact counted.counts c kept lookup
  · intro c positive
    dsimp only at positive ⊢
    have different : c ≠ b := by
      intro equal
      rw [equal, nobody] at positive
      exact Nat.lt_irrefl 0 positive
    rw [others c different] at positive
    exact AList.mem_erase.mpr ⟨different, counted.live c positive⟩

omit [DecidableEq Handle] in
theorem owner_erase (handles : KeyMap Handle (Option Block)) (c : Block) :
    (⟨handles, memory.blocks.erase b⟩ : Memory Handle Block TradePtr).owner c =
      if c = b then none else memory.owner c := by
  unfold owner
  dsimp only
  rw [lookup_erase_eq]
  split_ifs
  · rfl
  · rfl

omit [DecidableEq Handle] in
/-- A new count does not change what a block holds. -/
theorem owner_recount {block : ControlBlock TradePtr} (live : memory.blocks.lookup b = some block)
    (handles : KeyMap Handle (Option Block)) (count : Int32) (c : Block) :
    (⟨handles, memory.blocks.insert b ⟨block.ptr, count⟩⟩ :
      Memory Handle Block TradePtr).owner c = memory.owner c := by
  rw [owner_insert]
  split_ifs with same
  · rw [same]
    exact (owner_eq_some.mpr ⟨block, live, rfl⟩).symm
  · rfl

theorem release_null (found : memory.handles.lookup handle = some none) :
    memory.release overflow handle = some (memory, []) := by
  unfold release
  rw [found]

theorem release_last {block : ControlBlock TradePtr}
    (found : memory.handles.lookup handle = some (some b))
    (live : memory.blocks.lookup b = some block)
    (last : signed overflow (block.count.toInt - 1) = 0) :
    memory.release overflow handle =
      some (⟨memory.handles.insert handle none, memory.blocks.erase b⟩, block.ptr.toList) := by
  unfold release
  rw [found]
  dsimp only
  rw [live]
  dsimp only
  rw [if_pos last]

theorem release_shared {block : ControlBlock TradePtr}
    (found : memory.handles.lookup handle = some (some b))
    (live : memory.blocks.lookup b = some block)
    (shared : signed overflow (block.count.toInt - 1) ≠ 0) :
    memory.release overflow handle =
      some (⟨memory.handles.insert handle none,
        memory.blocks.insert b ⟨block.ptr, signed overflow (block.count.toInt - 1)⟩⟩, []) := by
  unfold release
  rw [found]
  dsimp only
  rw [live]
  dsimp only
  rw [if_neg shared]

/-- `release` leaves a null handle, and frees the block if no other handle points at it. -/
theorem release_spec (counted : Counted memory) (found : memory.handles.lookup handle = some cb) :
    ∃ after deleted, memory.release overflow handle = some (after, deleted) ∧
      (∀ h, after.handles.lookup h = if h = handle then some none else memory.handles.lookup h) ∧
      Counted after ∧ Lets memory after deleted := by
  cases cb with
  | none =>
      refine ⟨memory, [], release_null found, ?_, counted, .keeps (fun _ => rfl)⟩
      intro h
      by_cases own : h = handle
      · rw [if_pos own, own, found]
      · rw [if_neg own]
  | some b =>
      have points := pointing_pos found
      obtain ⟨block, live⟩ := mem_iff_lookup.mp (counted.live b points)
      have count := (counted.counts b block live).1
      have lowered := @signed_pred overflow block.count (by omega)
      have own := pointing_erase found b
      rw [if_pos rfl, ← pointing_insert_null] at own
      have others : ∀ c, c ≠ b →
          pointing c (memory.handles.insert handle none) = pointing c memory.handles := by
        intro c different
        rw [pointing_insert_null, pointing_erase found c,
          if_neg (fun equal => different (Option.some.inj equal).symm), Nat.add_zero]
      by_cases last : signed overflow (block.count.toInt - 1) = 0
      · have nobody : pointing b (memory.handles.insert handle none) = 0 := by
          rw [last, Int32.toInt_zero] at lowered
          omega
        refine ⟨_, _, release_last found live last, fun h => lookup_insert_eq _ _ _ _,
          counted_erase counted nobody others, ?_⟩
        exact .frees b block.ptr (owner_eq_some.mpr ⟨block, live, rfl⟩) (owner_erase _)
      · have some_left : pointing b (memory.handles.insert handle none) ≠ 0 := by
          intro nothing
          apply last
          apply Int32.toInt.inj
          rw [lowered, Int32.toInt_zero]
          omega
        refine ⟨_, _, release_shared found live last, fun h => lookup_insert_eq _ _ _ _, ?_,
          .keeps (owner_recount live _ _)⟩
        apply counted_insert counted
        · dsimp only
          rw [lowered]
          omega
        · omega
        · exact others

/-- `adopt` makes one more handle point at the block. -/
theorem adopt_spec (counted : Counted memory)
    (idle : ∀ b, memory.handles.lookup handle ≠ some (some b))
    (live : ∀ b, cb = some b → 0 < pointing b memory.handles)
    (room : ∀ b, cb = some b → pointing b memory.handles + 1 < 2 ^ 31) :
    ∃ after, memory.adopt overflow handle cb = some after ∧
      after.handles = memory.handles.insert handle cb ∧ Counted after ∧
      ∀ b, after.owner b = memory.owner b := by
  cases cb with
  | none =>
      refine ⟨_, rfl, rfl, counted_congr counted ?_, fun _ => rfl⟩
      intro c
      rw [pointing_insert_null, pointing_idle idle]
  | some b =>
      have points := live b rfl
      obtain ⟨block, found⟩ := mem_iff_lookup.mp (counted.live b points)
      have count := (counted.counts b block found).1
      have space := room b rfl
      have raised := @signed_succ overflow block.count (by omega)
      have own := @pointing_insert _ _ _ _ memory.handles handle (some b) b
      rw [pointing_idle idle, if_pos rfl] at own
      refine ⟨⟨memory.handles.insert handle (some b), memory.blocks.insert b
        ⟨block.ptr, signed overflow (block.count.toInt + 1)⟩⟩, ?_, rfl, ?_, ?_⟩
      · unfold adopt
        dsimp only
        rw [found]
      · apply counted_insert counted
        · dsimp only
          rw [raised]
          omega
        · omega
        · intro c different
          rw [pointing_insert_ne handle different, pointing_idle idle]
      · exact owner_recount found _ _

/-- A moved pointer leaves every count as it was. -/
theorem take_spec (counted : Counted memory)
    (idle : ∀ b, memory.handles.lookup handle ≠ some (some b)) (different : handle ≠ other)
    (found : memory.handles.lookup other = some cb) :
    Counted (memory.take handle other cb) ∧
      ∀ b, (memory.take handle other cb).owner b = memory.owner b := by
  refine ⟨?_, fun _ => rfl⟩
  have foundAfter : (memory.handles.insert handle cb).lookup other = some cb := by
    rw [lookup_insert_eq, if_neg (Ne.symm different), found]
  apply counted_congr counted
  intro c
  have moved := pointing_erase foundAfter c
  rw [pointing_insert handle, pointing_idle idle] at moved
  rw [pointing_insert_null other]
  omega

/-- A new block is pointed at by its first handle. -/
theorem construct_spec (counted : Counted memory)
    (idle : ∀ b, memory.handles.lookup handle ≠ some (some b)) (fresh : b ∉ memory.blocks) :
    Counted (memory.construct handle p b) ∧
      ∀ c, (memory.construct handle p b).owner c = if c = b then some p else memory.owner c := by
  have nobody : pointing b memory.handles = 0 := by
    apply Nat.eq_zero_of_not_pos
    exact fun points => fresh (counted.live b points)
  have own := @pointing_insert _ _ _ _ memory.handles handle (some b) b
  rw [pointing_idle idle, if_pos rfl, nobody] at own
  constructor
  · apply counted_insert counted
    · rw [own]
      rfl
    · omega
    · intro c different
      rw [pointing_insert_ne handle different, pointing_idle idle]
  · exact fun c => owner_insert _ _ c

/-- A null handle goes without a trace. -/
theorem erase_spec (counted : Counted memory)
    (idle : ∀ b, memory.handles.lookup handle ≠ some (some b)) :
    Counted (⟨memory.handles.erase handle, memory.blocks⟩ : Memory Handle Block TradePtr) := by
  constructor
  · intro c block lookup
    dsimp only at lookup ⊢
    rw [pointing_idle idle]
    exact counted.counts c block lookup
  · intro c points
    dsimp only at points ⊢
    rw [pointing_idle idle] at points
    exact counted.live c points

end Primitives

end Memory

namespace HandleOp

/-- The handle whose block a copy shares. -/
def source : HandleOp Handle Block TradePtr → Option Handle
  | copyConstruct _ other => some other
  | copyAssign _ other => some other
  | _ => none

/-- What a call makes of the handles. -/
def shared (handles : KeyMap Handle (Option Block)) :
    HandleOp Handle Block TradePtr → KeyMap Handle (Option Block)
  | construct handle _ block => handles.insert handle (some block)
  | copyConstruct handle other => handles.insert handle ((handles.lookup other).getD none)
  | copyAssign handle other =>
      if handle = other then handles else handles.insert handle ((handles.lookup other).getD none)
  | moveConstruct handle other =>
      (handles.insert handle ((handles.lookup other).getD none)).insert other none
  | moveAssign handle other =>
      if handle = other then handles
      else (handles.insert handle ((handles.lookup other).getD none)).insert other none
  | destroy handle => handles.erase handle

/-- The block a copy shares. -/
def copied (handles : KeyMap Handle (Option Block)) (op : HandleOp Handle Block TradePtr) :
    Option Block :=
  (op.source.bind (fun other => handles.lookup other)).join

/-- The trades a call wraps. -/
def wraps : HandleOp Handle Block TradePtr → List TradePtr
  | construct _ p _ => p.toList
  | _ => []

/-- What the language asks of a caller: objects are constructed once, used while they exist and
destroyed then, and `new` returns an address that is not in use. -/
def Objects (memory : Memory Handle Block TradePtr) : HandleOp Handle Block TradePtr → Prop
  | construct handle _ block => handle ∉ memory.handles ∧ block ∉ memory.blocks
  | copyConstruct handle other => handle ∉ memory.handles ∧ other ∈ memory.handles
  | copyAssign handle other => handle ∈ memory.handles ∧ other ∈ memory.handles
  | moveConstruct handle other => handle ∉ memory.handles ∧ other ∈ memory.handles
  | moveAssign handle other => handle ∈ memory.handles ∧ other ∈ memory.handles
  | destroy handle => handle ∈ memory.handles

/-- After a copy at most `2 ^ 31 - 1` handles share its block. -/
def Room (handles : KeyMap Handle (Option Block)) (op : HandleOp Handle Block TradePtr) : Prop :=
  ∀ b, op.copied handles = some b → pointing b (op.shared handles) < 2 ^ 31

end HandleOp

namespace Memory

/-- What a call does to the blocks. -/
inductive Effect (before after : Memory Handle Block TradePtr) :
    HandleOp Handle Block TradePtr → List TradePtr → Prop
  | opens (handle : Handle) (p : Option TradePtr) (b : Block) (fresh : before.owner b = none)
      (opened : ∀ c, after.owner c = if c = b then some p else before.owner c) :
      Effect before after (.construct handle p b) []
  | lets {op : HandleOp Handle Block TradePtr} {deleted : List TradePtr} (wraps : op.wraps = [])
      (lets : Lets before after deleted) : Effect before after op deleted

section Steps

variable {overflow : Int → Int32} {memory : Memory Handle Block TradePtr} {handle other : Handle}

omit [DecidableEq Block] in
theorem idle_of_notMem (fresh : handle ∉ memory.handles) (b : Block) :
    memory.handles.lookup handle ≠ some (some b) := by
  rw [AList.lookup_eq_none.mpr fresh]
  nofun

theorem copy_construct_spec (counted : Counted memory)
    (objects : (HandleOp.copyConstruct handle other : HandleOp Handle Block TradePtr).Objects memory)
    (room : (HandleOp.copyConstruct handle other : HandleOp Handle Block TradePtr).Room
      memory.handles) :
    ∃ after, memory.copyConstruct overflow handle other = some after ∧ Counted after ∧
      Effect memory after (.copyConstruct handle other) [] := by
  obtain ⟨cb, found⟩ := mem_iff_lookup.mp objects.2
  have idle := idle_of_notMem objects.1
  obtain ⟨after, adopted, -, countedAfter, same⟩ := @adopt_spec _ _ _ _ _ overflow memory handle cb
    counted idle
    (by
      intro b own
      rw [own] at found
      exact pointing_pos found)
    (by
      intro b own
      have bound := room b (by
        unfold HandleOp.copied HandleOp.source
        rw [Option.bind_some, found, own]
        rfl)
      unfold HandleOp.shared at bound
      dsimp only at bound
      rw [found, own, Option.getD_some, pointing_insert, pointing_idle idle, if_pos rfl] at bound
      exact bound)
  refine ⟨after, ?_, countedAfter, .lets rfl (.keeps same)⟩
  unfold copyConstruct
  rw [found]
  exact adopted

omit [DecidableEq Handle] in
theorem lets_congr {middle after : Memory Handle Block TradePtr} {deleted : List TradePtr}
    (lets : Lets memory middle deleted) (same : ∀ b, after.owner b = middle.owner b) :
    Lets memory after deleted := by
  cases lets with
  | keeps kept => exact .keeps (fun b => (same b).trans (kept b))
  | frees b ptr had gone => exact .frees b ptr had (fun c => (same c).trans (gone c))

/-- `release` with the handle that stays null behind it. -/
theorem release_idle (counted : Counted memory) (live : handle ∈ memory.handles) :
    ∃ after deleted, memory.release overflow handle = some (after, deleted) ∧
      (∀ h, after.handles.lookup h = if h = handle then some none else memory.handles.lookup h) ∧
      (∀ b, after.handles.lookup handle ≠ some (some b)) ∧ Counted after ∧
      Lets memory after deleted := by
  obtain ⟨cb, found⟩ := mem_iff_lookup.mp live
  obtain ⟨after, deleted, released, handles, countedAfter, lets⟩ :=
    @release_spec _ _ _ _ _ overflow memory handle cb counted found
  refine ⟨after, deleted, released, handles, ?_, countedAfter, lets⟩
  intro b
  rw [handles, if_pos rfl]
  nofun

theorem copy_assign_spec (counted : Counted memory)
    (objects : (HandleOp.copyAssign handle other : HandleOp Handle Block TradePtr).Objects memory)
    (room : (HandleOp.copyAssign handle other : HandleOp Handle Block TradePtr).Room
      memory.handles) :
    ∃ after deleted, memory.copyAssign overflow handle other = some (after, deleted) ∧
      Counted after ∧ Effect memory after (.copyAssign handle other) deleted := by
  by_cases self : handle = other
  · refine ⟨memory, [], ?_, counted, .lets rfl (.keeps (fun _ => rfl))⟩
    rw [copyAssign, if_pos self]
  · obtain ⟨middle, deleted, released, handles, idle, countedMiddle, lets⟩ :=
      @release_idle _ _ _ _ _ overflow memory handle counted objects.1
    obtain ⟨cb, found⟩ := mem_iff_lookup.mp objects.2
    have foundMiddle : middle.handles.lookup other = some cb := by
      rw [handles, if_neg (Ne.symm self), found]
    obtain ⟨after, adopted, -, countedAfter, same⟩ := @adopt_spec _ _ _ _ _ overflow middle handle
      cb countedMiddle idle
      (by
        intro b own
        rw [own] at foundMiddle
        exact pointing_pos foundMiddle)
      (by
        intro b own
        have bound := room b (by
          unfold HandleOp.copied HandleOp.source
          rw [Option.bind_some, found, own]
          rfl)
        have alike : pointing b (middle.handles.insert handle (some b)) =
            pointing b (memory.handles.insert handle (some b)) := by
          apply count_values_congr
          intro h
          rw [lookup_insert_eq, lookup_insert_eq, handles]
          split_ifs
          · rfl
          · rfl
        unfold HandleOp.shared at bound
        dsimp only at bound
        rw [if_neg self, found, own, Option.getD_some, ← alike, pointing_insert,
          pointing_idle idle, if_pos rfl] at bound
        exact bound)
    refine ⟨after, deleted, ?_, countedAfter, .lets rfl (lets_congr lets same)⟩
    rw [copyAssign, if_neg self, released]
    dsimp only
    rw [foundMiddle]
    dsimp only
    rw [adopted]

theorem move_construct_spec (counted : Counted memory)
    (objects : (HandleOp.moveConstruct handle other : HandleOp Handle Block TradePtr).Objects
      memory) :
    ∃ after, memory.moveConstruct handle other = some after ∧ Counted after ∧
      Effect memory after (.moveConstruct handle other) [] := by
  obtain ⟨cb, found⟩ := mem_iff_lookup.mp objects.2
  have different : handle ≠ other := by
    intro equal
    exact objects.1 (equal ▸ objects.2)
  have moved := take_spec counted (idle_of_notMem objects.1) different found
  refine ⟨memory.take handle other cb, ?_, moved.1, .lets rfl (.keeps moved.2)⟩
  rw [moveConstruct, found]

theorem move_assign_spec (counted : Counted memory)
    (objects : (HandleOp.moveAssign handle other : HandleOp Handle Block TradePtr).Objects memory) :
    ∃ after deleted, memory.moveAssign overflow handle other = some (after, deleted) ∧
      Counted after ∧ Effect memory after (.moveAssign handle other) deleted := by
  by_cases self : handle = other
  · refine ⟨memory, [], ?_, counted, .lets rfl (.keeps (fun _ => rfl))⟩
    rw [moveAssign, if_pos self]
  · obtain ⟨middle, deleted, released, handles, idle, countedMiddle, lets⟩ :=
      @release_idle _ _ _ _ _ overflow memory handle counted objects.1
    obtain ⟨cb, found⟩ := mem_iff_lookup.mp objects.2
    have foundMiddle : middle.handles.lookup other = some cb := by
      rw [handles, if_neg (Ne.symm self), found]
    have moved := take_spec countedMiddle idle self foundMiddle
    refine ⟨middle.take handle other cb, deleted, ?_, moved.1,
      .lets rfl (lets_congr lets moved.2)⟩
    rw [moveAssign, if_neg self, released]
    dsimp only
    rw [foundMiddle]

theorem destroy_spec (counted : Counted memory)
    (objects : (HandleOp.destroy handle : HandleOp Handle Block TradePtr).Objects memory) :
    ∃ after deleted, memory.destroy overflow handle = some (after, deleted) ∧
      Counted after ∧ Effect memory after (.destroy handle) deleted := by
  obtain ⟨middle, deleted, released, -, idle, countedMiddle, lets⟩ :=
    @release_idle _ _ _ _ _ overflow memory handle counted objects
  refine ⟨_, deleted, ?_, erase_spec countedMiddle idle, .lets rfl (lets_congr lets fun _ => rfl)⟩
  rw [destroy, released]

/-- Every permitted call is defined, keeps the counts, and frees one block at most. -/
theorem step_spec {op : HandleOp Handle Block TradePtr} (counted : Counted memory)
    (objects : op.Objects memory) (room : op.Room memory.handles) :
    ∃ after deleted, memory.step overflow op = some (after, deleted) ∧ Counted after ∧
      Effect memory after op deleted := by
  cases op with
  | construct handle p block =>
      have built := @construct_spec _ _ _ _ _ memory handle block p counted
        (idle_of_notMem objects.1) objects.2
      refine ⟨_, [], rfl, built.1, .opens handle p block ?_ built.2⟩
      unfold owner
      rw [AList.lookup_eq_none.mpr objects.2]
      rfl
  | copyConstruct handle other =>
      obtain ⟨after, ran, countedAfter, effect⟩ :=
        @copy_construct_spec _ _ _ _ _ overflow memory handle other counted objects room
      refine ⟨after, [], ?_, countedAfter, effect⟩
      unfold step
      dsimp only
      rw [ran]
  | copyAssign handle other => exact copy_assign_spec counted objects room
  | moveConstruct handle other =>
      obtain ⟨after, ran, countedAfter, effect⟩ := move_construct_spec counted objects
      refine ⟨after, [], ?_, countedAfter, effect⟩
      unfold step
      dsimp only
      rw [ran]
  | moveAssign handle other => exact move_assign_spec counted objects
  | destroy handle => exact destroy_spec counted objects

end Steps

end Memory

end Finm327.Session3
