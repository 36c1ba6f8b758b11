import Mathlib.Algebra.Ring.Nat
import Mathlib.Data.List.Range
import Mathlib.Order.Basic

/-!
# Where the worker runs

Transcribes `pick_worker_cpu` of `hft/src/client.cpp`. Three passes go round the online CPUs
from the one after the main thread's, each with weaker demands. The third demands nothing of
the physical core, and the second takes two cores for one when their sockets number them alike.
-/

namespace Finm327.Hft.WorkerCpu

/-- What `fopen` and `fscanf` get out of the two topology files of each CPU: no number when a
file is missing or holds none. -/
structure Topology where
  physicalPackageId : Nat → Option Int
  coreId : Nat → Option Int

def readTopologyInt (what : Nat → Option Int) (cpu : Nat) : Int := (what cpu).getD (-1)

namespace Topology

def socket (t : Topology) (cpu : Nat) : Int := readTopologyInt t.physicalPackageId cpu

def core (t : Topology) (cpu : Nat) : Int := readTopologyInt t.coreId cpu

end Topology

/-- None of the three tests of the loop passes over the CPU. -/
def accepted (t : Topology) (main : Nat) (requireSameSocket requireDiffCore : Bool) (cpu : Nat) :
    Bool :=
  let sock := t.socket cpu
  let core := t.core cpu
  if requireSameSocket && sock ≠ t.socket main then false
  else if requireDiffCore && core = t.core main then false
  else if sock < 0 then false
  else true

/-- The loop over the offsets; no result when `main_cpu + offset` overflows. -/
def tryPickFrom (t : Topology) (main n : Nat) (requireSameSocket requireDiffCore : Bool) :
    List Nat → Option Int
  | [] => some (-1)
  | offset :: offsets =>
    if 2 ^ 31 ≤ main + offset then none
    else
      let cpu := (main + offset) % n
      if accepted t main requireSameSocket requireDiffCore cpu then some cpu
      else tryPickFrom t main n requireSameSocket requireDiffCore offsets

def tryPick (t : Topology) (main n : Nat) (requireSameSocket requireDiffCore : Bool) : Option Int :=
  tryPickFrom t main n requireSameSocket requireDiffCore (List.range' 1 (n - 1))

/-- From what `sched_getcpu` and `sysconf(_SC_NPROCESSORS_ONLN)` return. -/
def pickWorkerCpu (getcpu online : Int32) (t : Topology) : Option Int :=
  let main := if getcpu < 0 then 0 else getcpu.toInt.toNat
  if online ≤ 1 then some (-1)
  else do
    let n := online.toInt.toNat
    let c ← tryPick t main n true true
    if 0 ≤ c then return c
    let c ← tryPick t main n false true
    if 0 ≤ c then return c
    let c ← tryPick t main n false false
    if 0 ≤ c then return c
    return -1

/-! ## What the worker is to have -/

section Preference

variable (t : Topology) (main n : Nat)

/-- Another online CPU whose socket can be read. -/
def Other (cpu : Nat) : Prop := cpu < n ∧ cpu ≠ main ∧ 0 ≤ t.socket cpu

def Near (cpu : Nat) : Prop := t.socket cpu = t.socket main ∧ t.core cpu ≠ t.core main

/-- On a different physical core: core ids are unique within a socket. -/
def Apart (cpu : Nat) : Prop := ¬ (t.socket cpu = t.socket main ∧ t.core cpu = t.core main)

structure Preferred (result : Int) : Prop where
  usable : result = -1 ∨ ∃ cpu : Nat, result = cpu ∧ Other t main n cpu
  near : (∃ cpu, Other t main n cpu ∧ Near t main cpu) →
    ∃ cpu : Nat, result = cpu ∧ Other t main n cpu ∧ Near t main cpu
  apart : (¬ ∃ cpu, Other t main n cpu ∧ Near t main cpu) →
    (∃ cpu, Other t main n cpu ∧ Apart t main cpu) →
    ∃ cpu : Nat, result = cpu ∧ Other t main n cpu ∧ Apart t main cpu
  declines : result = -1 → ∀ cpu, ¬ Other t main n cpu

/-- The CPU at an offset from the main one. -/
def cpuAt (offset : Nat) : Nat := (main + offset) % n

/-- The sum in the loop fits up to the last offset, or up to one that the first pass takes. -/
def Fits : Prop :=
  main + n ≤ 2 ^ 31 ∨ ∃ offset, 1 ≤ offset ∧ offset < n ∧ main + offset < 2 ^ 31 ∧
    Other t main n (cpuAt main n offset) ∧ Near t main (cpuAt main n offset)

/-- The core id alone tells some other CPU from the main one, or there is no other socket to
choose from, or the first CPU that the last pass takes is on another one. -/
def Told : Prop :=
  (∃ cpu, Other t main n cpu ∧ t.core cpu ≠ t.core main) ∨
    (∀ cpu, Other t main n cpu → t.socket cpu = t.socket main) ∨
    ∃ offset, 1 ≤ offset ∧ offset < n ∧ Other t main n (cpuAt main n offset) ∧
      t.socket (cpuAt main n offset) ≠ t.socket main ∧
      ∀ before, 1 ≤ before → before < offset → ¬ Other t main n (cpuAt main n before)

end Preference

variable {t : Topology} {main n : Nat}

/-! ## Going round -/

theorem at_offset_other (inside : main < n) {offset : Nat} (positive : 1 ≤ offset)
    (below : offset < n) : cpuAt main n offset < n ∧ cpuAt main n offset ≠ main := by
  refine ⟨Nat.mod_lt _ (by omega), ?_⟩
  unfold cpuAt
  by_cases wraps : main + offset < n
  · rw [Nat.mod_eq_of_lt wraps]
    omega
  · rw [Nat.mod_eq_sub_mod (by omega), Nat.mod_eq_of_lt (by omega)]
    omega

/-- Every other CPU stands at one of the offsets. -/
theorem exists_offset (inside : main < n) {cpu : Nat} (below : cpu < n) (other : cpu ≠ main) :
    ∃ offset, 1 ≤ offset ∧ offset < n ∧ cpuAt main n offset = cpu := by
  unfold cpuAt
  by_cases later : main < cpu
  · refine ⟨cpu - main, by omega, by omega, ?_⟩
    rw [Nat.mod_eq_of_lt (by omega)]
    omega
  · refine ⟨cpu + n - main, by omega, by omega, ?_⟩
    rw [Nat.mod_eq_sub_mod (by omega), Nat.mod_eq_of_lt (by omega)]
    omega

theorem accepted_iff (same diff : Bool) (cpu : Nat) :
    accepted t main same diff cpu = true ↔
      (same = true → t.socket cpu = t.socket main) ∧ (diff = true → t.core cpu ≠ t.core main) ∧
        0 ≤ t.socket cpu := by
  cases same <;> cases diff <;> simp [accepted]

/-! ## One pass -/

/-- What ends the loop at an offset: an overflow or a CPU that is taken. -/
def stops (t : Topology) (main n : Nat) (same diff : Bool) (offset : Nat) : Bool :=
  2 ^ 31 ≤ main + offset || accepted t main same diff (cpuAt main n offset)

theorem stops_iff (same diff : Bool) (offset : Nat) :
    stops t main n same diff offset = true ↔
      2 ^ 31 ≤ main + offset ∨ accepted t main same diff (cpuAt main n offset) = true := by
  rw [stops, Bool.or_eq_true, decide_eq_true_iff]

theorem try_pick_from_eq (same diff : Bool) (offsets : List Nat) :
    tryPickFrom t main n same diff offsets =
      match offsets.find? (stops t main n same diff) with
      | none => some (-1)
      | some offset => if 2 ^ 31 ≤ main + offset then none else some (cpuAt main n offset) := by
  induction offsets with
  | nil => rfl
  | cons offset offsets ih =>
      by_cases overflow : 2 ^ 31 ≤ main + offset
      · have stop := (@stops_iff t main n same diff offset).mpr (.inl overflow)
        rw [List.find?_cons_of_pos stop, tryPickFrom, if_pos overflow]
        exact (if_pos overflow).symm
      · by_cases taken : accepted t main same diff (cpuAt main n offset) = true
        · have stop := (@stops_iff t main n same diff offset).mpr (.inr taken)
          rw [List.find?_cons_of_pos stop, tryPickFrom, if_neg overflow]
          dsimp only
          rw [if_neg overflow]
          exact if_pos taken
        · have go := mt (@stops_iff t main n same diff offset).mp (not_or.mpr ⟨overflow, taken⟩)
          rw [List.find?_cons_of_neg go, ← ih, tryPickFrom, if_neg overflow]
          exact if_neg taken

/-- How a pass ends. -/
inductive Pass (t : Topology) (main n : Nat) (same diff : Bool) : Option Int → Prop
  | taken (offset : Nat) (positive : 1 ≤ offset) (below : offset < n)
      (fits : main + offset < 2 ^ 31)
      (accepts : accepted t main same diff (cpuAt main n offset) = true)
      (first : ∀ before, 1 ≤ before → before < offset →
        ¬ accepted t main same diff (cpuAt main n before) = true) :
      Pass t main n same diff (some (cpuAt main n offset))
  | exhausted (fits : main + n ≤ 2 ^ 31) (refused : ∀ offset, 1 ≤ offset → offset < n →
        ¬ accepted t main same diff (cpuAt main n offset) = true) :
      Pass t main n same diff (some (-1))
  | overflow (long : 2 ^ 31 < main + n)
      (refused : ∀ offset, 1 ≤ offset → offset < n → main + offset < 2 ^ 31 →
        ¬ accepted t main same diff (cpuAt main n offset) = true) :
      Pass t main n same diff none

theorem try_pick_pass (several : 2 ≤ n) (same diff : Bool) :
    Pass t main n same diff (tryPick t main n same diff) := by
  rw [tryPick, try_pick_from_eq]
  cases found : (List.range' 1 (n - 1)).find? (stops t main n same diff) with
  | none =>
      rw [List.find?_eq_none] at found
      have passed : ∀ offset, 1 ≤ offset → offset < n → main + offset < 2 ^ 31 ∧
          ¬ accepted t main same diff (cpuAt main n offset) = true := by
        intro offset positive below
        have go := found offset (List.mem_range'_1.mpr (by omega))
        rw [stops_iff, not_or, Nat.not_le] at go
        exact go
      have last := passed (n - 1) (by omega) (by omega)
      exact .exhausted (by omega) fun offset positive below => (passed offset positive below).2
  | some offset =>
      obtain ⟨stop, member, before⟩ := List.find?_range'_eq_some.mp found
      rw [List.mem_range'_1] at member
      have passed : ∀ before, 1 ≤ before → before < offset → main + before < 2 ^ 31 ∧
          ¬ accepted t main same diff (cpuAt main n before) = true := by
        intro other positive below
        have go := before other positive below
        rw [Bool.not_eq_true', ← Bool.not_eq_true, stops_iff, not_or, Nat.not_le] at go
        exact go
      dsimp only
      by_cases overflow : 2 ^ 31 ≤ main + offset
      · rw [if_pos overflow]
        refine .overflow (by omega) ?_
        intro other positive below fits
        exact (passed other positive (by omega)).2
      · rw [if_neg overflow]
        have accepts := ((stops_iff same diff offset).mp stop).resolve_left overflow
        exact .taken offset (by omega) (by omega) (by omega) accepts
          fun other positive below => (passed other positive below).2

/-! ## The three passes -/

/-- What the code does with the answer of a pass. -/
def orElse (answer : Option Int) (otherwise : Option Int) : Option Int :=
  answer.bind fun c => if 0 ≤ c then some c else otherwise

theorem or_else_taken (cpu : Nat) (otherwise : Option Int) :
    orElse (some cpu) otherwise = some (cpu : Int) := by
  simp [orElse]

theorem or_else_exhausted (otherwise : Option Int) : orElse (some (-1)) otherwise = otherwise := rfl

/-- The three calls, when the later ones are made. -/
theorem pick_worker_cpu_eq {getcpu online : Int32} (main_eq : getcpu.toInt = main)
    (n_eq : online.toInt = n) (several : 2 ≤ n) :
    pickWorkerCpu getcpu online t =
      orElse (tryPick t main n true true) (orElse (tryPick t main n false true)
        (orElse (tryPick t main n false false) (some (-1)))) := by
  have known : ¬ getcpu < 0 := by
    rw [Int32.lt_iff_toInt_lt, main_eq]
    exact Int.not_lt.mpr (Int.natCast_nonneg main)
  have more : ¬ online ≤ 1 := by
    rw [Int32.le_iff_toInt_le, n_eq]
    have one : (1 : Int32).toInt = 1 := rfl
    omega
  unfold pickWorkerCpu
  rw [if_neg known, if_neg more, main_eq, n_eq, Int.toNat_natCast, Int.toNat_natCast]
  rfl

theorem other_of_accepted (inside : main < n) {same diff : Bool} {offset : Nat}
    (positive : 1 ≤ offset) (below : offset < n)
    (accepts : accepted t main same diff (cpuAt main n offset) = true) :
    Other t main n (cpuAt main n offset) := by
  obtain ⟨online, apart⟩ := at_offset_other inside positive below
  exact ⟨online, apart, ((accepted_iff same diff _).mp accepts).2.2⟩

/-- A pass that takes no CPU at any offset would accept none of the others. -/
theorem refused_other (inside : main < n) {same diff : Bool}
    (refused : ∀ offset, 1 ≤ offset → offset < n →
      ¬ accepted t main same diff (cpuAt main n offset) = true) {cpu : Nat}
    (other : Other t main n cpu) : ¬ accepted t main same diff cpu = true := by
  obtain ⟨offset, positive, below, place⟩ := exists_offset inside other.1 other.2.1
  rw [← place]
  exact refused offset positive below

theorem near_preferred {cpu : Nat} (other : Other t main n cpu) (near : Near t main cpu) :
    Preferred t main n cpu where
  usable := .inr ⟨cpu, rfl, other⟩
  near _ := ⟨cpu, rfl, other, near⟩
  apart noneNear := absurd ⟨cpu, other, near⟩ noneNear
  declines declined := absurd declined (by omega)

theorem apart_preferred (noneNear : ¬ ∃ cpu, Other t main n cpu ∧ Near t main cpu) {cpu : Nat}
    (other : Other t main n cpu) (apart : Apart t main cpu) : Preferred t main n cpu where
  usable := .inr ⟨cpu, rfl, other⟩
  near someNear := absurd someNear noneNear
  apart _ _ := ⟨cpu, rfl, other, apart⟩
  declines declined := absurd declined (by omega)

theorem nobody_preferred (nobody : ∀ cpu, ¬ Other t main n cpu) : Preferred t main n (-1) where
  usable := .inl rfl
  near := fun ⟨cpu, other, _⟩ => absurd other (nobody cpu)
  apart := fun _ ⟨cpu, other, _⟩ => absurd other (nobody cpu)
  declines _ := nobody

/-- When every other CPU reads the main one's core id, the last pass decides. -/
theorem last_pass_iff (alike : ∀ cpu, Other t main n cpu → t.core cpu = t.core main) {offset : Nat}
    (positive : 1 ≤ offset) (below : offset < n) (other : Other t main n (cpuAt main n offset))
    (first : ∀ before, 1 ≤ before → before < offset → ¬ Other t main n (cpuAt main n before)) :
    Preferred t main n (cpuAt main n offset) ↔ Told t main n := by
  have noneNear : ¬ ∃ cpu, Other t main n cpu ∧ Near t main cpu := by
    rintro ⟨cpu, reads, near⟩
    exact near.2 (alike cpu reads)
  constructor
  · intro preferred
    by_cases elsewhere : ∃ cpu, Other t main n cpu ∧ t.socket cpu ≠ t.socket main
    · obtain ⟨cpu, reads, socket⟩ := elsewhere
      obtain ⟨choice, same, _, apart⟩ := preferred.apart noneNear
        ⟨cpu, reads, fun both => socket both.1⟩
      have place : choice = cpuAt main n offset := by omega
      subst place
      exact .inr (.inr ⟨offset, positive, below, other,
        fun socket => apart ⟨socket, alike _ other⟩, first⟩)
    · refine .inr (.inl ?_)
      intro cpu reads
      by_contra socket
      exact elsewhere ⟨cpu, reads, socket⟩
  · rintro (⟨cpu, reads, core⟩ | together | ⟨early, one, inside, reads, socket, before⟩)
    · exact absurd (alike cpu reads) core
    · refine ⟨.inr ⟨_, rfl, other⟩, fun near => absurd near noneNear, ?_,
        fun declined => absurd declined (by omega)⟩
      rintro _ ⟨cpu, reads, apart⟩
      exact absurd ⟨together cpu reads, alike cpu reads⟩ apart
    · have place : early = offset := by
        apply Nat.le_antisymm
        · exact Nat.le_of_not_lt fun later => before offset positive later other
        · exact Nat.le_of_not_lt fun sooner => first early one sooner reads
      subst place
      exact apart_preferred noneNear other fun both => socket both.1

theorem third_pass_iff (inside : main < n) (several : 2 ≤ n) (fits : main + n ≤ 2 ^ 31)
    (alike : ∀ cpu, Other t main n cpu → t.core cpu = t.core main) :
    (∃ result, orElse (tryPick t main n false false) (some (-1)) = some result ∧
      Preferred t main n result) ↔ Told t main n := by
  have pass := @try_pick_pass t main n several false false
  generalize tryPick t main n false false = answer at pass
  cases pass with
  | taken offset positive below _ accepts first =>
      have other := other_of_accepted inside positive below accepts
      rw [or_else_taken, ← last_pass_iff alike positive below other]
      · simp
      · intro before one sooner reads
        exact first before one sooner ((accepted_iff false false _).mpr (by simpa using reads.2.2))
  | exhausted _ refused =>
      have nobody : ∀ cpu, ¬ Other t main n cpu := by
        intro cpu reads
        exact refused_other inside refused reads
          ((accepted_iff _ _ _).mpr (by simpa using reads.2.2))
      rw [or_else_exhausted]
      exact ⟨fun _ => .inr (.inl fun cpu reads => absurd reads (nobody cpu)),
        fun _ => ⟨-1, rfl, nobody_preferred nobody⟩⟩
  | overflow long => exact absurd fits (Nat.not_le.mpr long)

theorem second_pass_iff (inside : main < n) (several : 2 ≤ n) (fits : main + n ≤ 2 ^ 31)
    (noneNear : ¬ ∃ cpu, Other t main n cpu ∧ Near t main cpu) :
    (∃ result, orElse (tryPick t main n false true)
        (orElse (tryPick t main n false false) (some (-1))) = some result ∧
      Preferred t main n result) ↔ Told t main n := by
  have pass := @try_pick_pass t main n several false true
  generalize tryPick t main n false true = answer at pass
  cases pass with
  | taken offset positive below _ accepts first =>
      have other := other_of_accepted inside positive below accepts
      have core := ((accepted_iff _ _ _).mp accepts).2.1 rfl
      rw [or_else_taken]
      exact ⟨fun _ => .inl ⟨_, other, core⟩,
        fun _ => ⟨_, rfl, apart_preferred noneNear other fun both => core both.2⟩⟩
  | exhausted _ refused =>
      rw [or_else_exhausted]
      apply third_pass_iff inside several fits
      intro cpu reads
      by_contra core
      exact refused_other inside refused reads
        ((accepted_iff _ _ _).mpr ⟨by simp, fun _ => core, reads.2.2⟩)
  | overflow long => exact absurd fits (Nat.not_le.mpr long)

theorem pick_single (inside : main < n) (single : n ≤ 1) :
    Preferred t main n (-1) ∧ Fits t main n ∧ Told t main n := by
  have nobody : ∀ cpu, ¬ Other t main n cpu := by
    rintro cpu ⟨online, apart, _⟩
    omega
  exact ⟨nobody_preferred nobody, .inl (by omega),
    .inr (.inl fun cpu reads => absurd reads (nobody cpu))⟩

/-- The choice is made, and by the order of preference, exactly when the sums fit and the core
ids tell what they are asked. -/
theorem pick_worker_cpu_iff {getcpu online : Int32} (main_eq : getcpu.toInt = main)
    (n_eq : online.toInt = n) (inside : main < n) (t : Topology) :
    (∃ result, pickWorkerCpu getcpu online t = some result ∧ Preferred t main n result) ↔
      Fits t main n ∧ Told t main n := by
  by_cases single : n ≤ 1
  · have alone : pickWorkerCpu getcpu online t = some (-1) := by
      have few : online ≤ 1 := by
        rw [Int32.le_iff_toInt_le, n_eq]
        have one : (1 : Int32).toInt = 1 := rfl
        omega
      exact if_pos few
    obtain ⟨preferred, fits, told⟩ := @pick_single t main n inside single
    exact ⟨fun _ => ⟨fits, told⟩, fun _ => ⟨-1, alone, preferred⟩⟩
  have several : 2 ≤ n := by omega
  rw [pick_worker_cpu_eq main_eq n_eq several]
  have pass := @try_pick_pass t main n several true true
  generalize tryPick t main n true true = answer at pass
  cases pass with
  | taken offset positive below fits accepts first =>
      have other := other_of_accepted inside positive below accepts
      obtain ⟨socket, core, _⟩ := (accepted_iff _ _ _).mp accepts
      have near : Near t main (cpuAt main n offset) := ⟨socket rfl, core rfl⟩
      rw [or_else_taken]
      exact ⟨fun _ => ⟨.inr ⟨offset, positive, below, fits, other, near⟩, .inl ⟨_, other, near.2⟩⟩,
        fun _ => ⟨_, rfl, near_preferred other near⟩⟩
  | exhausted fits refused =>
      have noneNear : ¬ ∃ cpu, Other t main n cpu ∧ Near t main cpu := by
        rintro ⟨cpu, other, near⟩
        exact refused_other inside refused other
          ((accepted_iff _ _ _).mpr ⟨fun _ => near.1, fun _ => near.2, other.2.2⟩)
      rw [or_else_exhausted, second_pass_iff inside several fits noneNear]
      exact ⟨fun told => ⟨.inl fits, told⟩, And.right⟩
  | overflow long refused =>
      constructor
      · rintro ⟨result, contrary, _⟩
        cases contrary
      · rintro ⟨fits | ⟨offset, positive, below, fits, other, near⟩, _⟩
        · exact absurd fits (Nat.not_le.mpr long)
        · exact absurd ((accepted_iff _ _ _).mpr ⟨fun _ => near.1, fun _ => near.2, other.2.2⟩)
            (refused offset positive below fits)

/-- Two sockets of two cores, the main thread on the second core of the first one. -/
theorem pick_worker_cpu_sample :
    let t : Topology := ⟨fun cpu => ([0, 0, 1, 1] : List Int)[cpu]?,
      fun cpu => ([0, 1, 0, 1] : List Int)[cpu]?⟩
    (∃ result, pickWorkerCpu 1 4 t = some result ∧ Preferred t 1 4 result) ↔
      Fits t 1 4 ∧ Told t 1 4 := by
  intro t
  exact @pick_worker_cpu_iff 1 4 1 4 (by decide) (by decide) (by decide) t

/-- The second CPU shares the main one's core, and the third one, on another socket, has a core
with the same number. -/
def sameNumber : Topology :=
  ⟨fun cpu => ([0, 0, 1] : List Int)[cpu]?, fun cpu => ([0, 0, 0] : List Int)[cpu]?⟩

theorem sibling_picked :
    pickWorkerCpu 0 3 sameNumber = some 1 ∧ ¬ Apart sameNumber 0 1 ∧
      Other sameNumber 0 3 2 ∧ Apart sameNumber 0 2 ∧ ¬ Preferred sameNumber 0 3 1 := by
  have apart : Apart sameNumber 0 2 := by
    rintro ⟨socket, _⟩
    cases socket
  have other : Other sameNumber 0 3 2 := ⟨by decide, by decide, by decide⟩
  refine ⟨by decide, fun contrary => contrary ⟨rfl, rfl⟩, other, apart, ?_⟩
  intro preferred
  have noneNear : ¬ ∃ cpu, Other sameNumber 0 3 cpu ∧ Near sameNumber 0 cpu := by
    rintro ⟨cpu, ⟨online, _, _⟩, _, core⟩
    have some : cpu = 0 ∨ cpu = 1 ∨ cpu = 2 := by omega
    rcases some with rfl | rfl | rfl <;> exact core rfl
  obtain ⟨cpu, same, _, distinct⟩ := preferred.apart noneNear ⟨2, other, apart⟩
  have place : cpu = 1 := by omega
  subst place
  exact distinct ⟨rfl, rfl⟩

end Finm327.Hft.WorkerCpu
