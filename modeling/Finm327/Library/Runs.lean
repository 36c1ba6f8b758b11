import Mathlib.Data.List.Induction
import Mathlib.Logic.Relation
import Mathlib.Data.List.Basic
import Mathlib.Data.List.Forall2

/-!
# Runs of a deterministic machine

A machine is a partial step function: an operation takes a state to the next
state and an observation, or is undefined there. A configuration carries the
whole history beside the state, so a side condition on the caller ("each order
at most once") is a predicate of the configuration and the next operation and
needs no ghost field in the machine itself.
-/

namespace Finm327.Library.Runs

universe u v w

structure Config (State : Type u) (Op : Type v) (Obs : Type w) where
  history : List (Op × Obs)
  state : State

namespace Config

variable {State : Type u} {Op : Type v} {Obs : Type w}

def start (state : State) : Config State Op Obs := ⟨[], state⟩

def ops (config : Config State Op Obs) : List Op := config.history.map Prod.fst

def observations (config : Config State Op Obs) : List Obs := config.history.map Prod.snd

def push (config : Config State Op Obs) (op : Op) (state : State) (obs : Obs) :
    Config State Op Obs :=
  ⟨config.history ++ [(op, obs)], state⟩

@[simp] theorem start_state (state : State) :
    (start state : Config State Op Obs).state = state := rfl

@[simp] theorem start_ops (state : State) : (start state : Config State Op Obs).ops = [] := rfl

@[simp] theorem start_observations (state : State) :
    (start state : Config State Op Obs).observations = [] := rfl

@[simp] theorem push_state (config : Config State Op Obs) (op : Op) (state : State) (obs : Obs) :
    (config.push op state obs).state = state := rfl

@[simp] theorem push_ops (config : Config State Op Obs) (op : Op) (state : State) (obs : Obs) :
    (config.push op state obs).ops = config.ops ++ [op] := by
  simp [push, ops]

@[simp] theorem push_observations (config : Config State Op Obs) (op : Op) (state : State)
    (obs : Obs) :
    (config.push op state obs).observations = config.observations ++ [obs] := by
  simp [push, observations]

end Config

variable {State : Type u} {Op : Type v} {Obs : Type w}

/-- One permitted operation that the machine completes. -/
inductive Step (step : State → Op → Option (State × Obs))
    (allowed : Config State Op Obs → Op → Prop) :
    Config State Op Obs → Config State Op Obs → Prop
  | run {config : Config State Op Obs} {op : Op} {state : State} {obs : Obs}
      (permitted : allowed config op) (next : step config.state op = some (state, obs)) :
      Step step allowed config (config.push op state obs)

def Leads (step : State → Op → Option (State × Obs))
    (allowed : Config State Op Obs → Op → Prop) :
    Config State Op Obs → Config State Op Obs → Prop :=
  Relation.ReflTransGen (Step step allowed)

def Reachable (step : State → Op → Option (State × Obs))
    (allowed : Config State Op Obs → Op → Prop) (initial : State)
    (config : Config State Op Obs) : Prop :=
  Leads step allowed (.start initial) config

variable {step : State → Op → Option (State × Obs)}
  {allowed : Config State Op Obs → Op → Prop} {initial : State}

theorem reachable_start : Reachable step allowed initial (.start initial) :=
  Relation.ReflTransGen.refl

/-- The induction principle for everything a run preserves. -/
theorem leads_invariant (Holds : Config State Op Obs → Prop)
    (preserved : ∀ config op state obs, Holds config → allowed config op →
      step config.state op = some (state, obs) → Holds (config.push op state obs))
    {config later : Config State Op Obs} (leads : Leads step allowed config later)
    (holds : Holds config) : Holds later := by
  induction leads with
  | refl => exact holds
  | tail _ last ih =>
      cases last with
      | run permitted next => exact preserved _ _ _ _ ih permitted next

theorem reachable_invariant (Holds : Config State Op Obs → Prop)
    (initially : Holds (.start initial))
    (preserved : ∀ config op state obs, Holds config → allowed config op →
      step config.state op = some (state, obs) → Holds (config.push op state obs))
    {config : Config State Op Obs} (reached : Reachable step allowed initial config) :
    Holds config :=
  leads_invariant Holds preserved reached initially

/-- As `leads_invariant`, where the step may use that it starts in a reachable
configuration, hence every invariant already proved. -/
theorem leads_invariant_of_reachable (Holds : Config State Op Obs → Prop)
    (preserved : ∀ config op state obs, Reachable step allowed initial config → Holds config →
      allowed config op → step config.state op = some (state, obs) →
      Holds (config.push op state obs))
    {config later : Config State Op Obs} (reached : Reachable step allowed initial config)
    (leads : Leads step allowed config later) (holds : Holds config) : Holds later := by
  have both : Reachable step allowed initial later ∧ Holds later := by
    induction leads with
    | refl => exact ⟨reached, holds⟩
    | tail _ last ih =>
        cases last with
        | run permitted next =>
            exact ⟨ih.1.tail (.run permitted next), preserved _ _ _ _ ih.1 ih.2 permitted next⟩
  exact both.2

theorem reachable_invariant_of_reachable (Holds : Config State Op Obs → Prop)
    (initially : Holds (.start initial))
    (preserved : ∀ config op state obs, Reachable step allowed initial config → Holds config →
      allowed config op → step config.state op = some (state, obs) →
      Holds (config.push op state obs))
    {config : Config State Op Obs} (reached : Reachable step allowed initial config) :
    Holds config :=
  leads_invariant_of_reachable Holds preserved reachable_start reached initially

/-- As long as a configuration is not done, some move keeps what holds and leaves less to do. -/
theorem leads_until (Holds Done : Config State Op Obs → Prop) (left : Config State Op Obs → Nat)
    (moves : ∀ config, Holds config → Done config ∨ ∃ op state obs, allowed config op ∧
      step config.state op = some (state, obs) ∧ Holds (config.push op state obs) ∧
      left (config.push op state obs) < left config)
    {config : Config State Op Obs} (holds : Holds config) :
    ∃ later, Leads step allowed config later ∧ Holds later ∧ Done later := by
  induction count : left config using Nat.strongRecOn generalizing config with
  | ind bound ih =>
      rcases moves config holds with done | ⟨op, state, obs, permitted, next, kept, less⟩
      · exact ⟨config, .refl, holds, done⟩
      · obtain ⟨later, leads, both⟩ := ih _ (count ▸ less) kept rfl
        exact ⟨later, leads.head (.run permitted next), both⟩

theorem leads_mono {weaker : Config State Op Obs → Op → Prop}
    (weaken : ∀ config op, allowed config op → weaker config op)
    {config later : Config State Op Obs} (leads : Leads step allowed config later) :
    Leads step weaker config later := by
  refine Relation.ReflTransGen.mono ?_ _ _ leads
  intro before after one
  cases one with
  | run permitted next => exact .run (weaken _ _ permitted) next

theorem reachable_mono {weaker : Config State Op Obs → Op → Prop}
    (weaken : ∀ config op, allowed config op → weaker config op)
    {config : Config State Op Obs} (reached : Reachable step allowed initial config) :
    Reachable step weaker initial config :=
  leads_mono weaken reached

/-- The machine is deterministic, so the operations determine the run. -/
theorem reachable_unique {first second : Config State Op Obs}
    (firstReached : Reachable step allowed initial first)
    (secondReached : Reachable step allowed initial second) (same : second.ops = first.ops) :
    second = first := by
  induction firstReached generalizing second with
  | refl =>
      cases secondReached with
      | refl => rfl
      | tail _ last =>
          cases last with
          | run => simp at same
  | tail _ last ih =>
      cases last with
      | run _ next =>
          cases secondReached with
          | refl => simp at same
          | tail earlier last =>
              cases last with
              | run _ other =>
                  simp only [Config.push_ops] at same
                  obtain ⟨sameOps, sameOp⟩ := List.append_inj' same rfl
                  rw [List.singleton_inj] at sameOp
                  subst sameOp
                  have sameConfig := ih earlier sameOps
                  subst sameConfig
                  rw [next, Option.some.injEq, Prod.mk.injEq] at other
                  rw [other.1, other.2]

/-- What holds after one run of some operations holds after every run of them. -/
theorem reachable_forall_of_exists {Holds : Config State Op Obs → Prop} {ops : List Op}
    (one : ∃ config, Reachable step allowed initial config ∧ config.ops = ops ∧ Holds config) :
    (∃ config, Reachable step allowed initial config ∧ config.ops = ops) ∧
      ∀ config, Reachable step allowed initial config → config.ops = ops → Holds config := by
  obtain ⟨first, reached, own, holds⟩ := one
  refine ⟨⟨first, reached, own⟩, ?_⟩
  intro second reachedToo same
  rw [reachable_unique reached reachedToo (same.trans own.symm)]
  exact holds

section Simulation

variable {Other : Type u} {ObsO : Type w} {other : Other → Op → Option (Other × ObsO)}
  {otherAllowed : Config Other Op ObsO → Op → Prop} {otherInitial : Other}

/-- A forward simulation that follows the same operations carries every run of
one machine over to the other. -/
theorem reachable_simulation
    (Related : Config State Op Obs → Config Other Op ObsO → Prop)
    (initially : Related (.start initial) (.start otherInitial))
    (follows : ∀ config mirror op state obs, Related config mirror → allowed config op →
      step config.state op = some (state, obs) →
      ∃ image out, otherAllowed mirror op ∧ other mirror.state op = some (image, out) ∧
        Related (config.push op state obs) (mirror.push op image out))
    {config : Config State Op Obs} (reached : Reachable step allowed initial config) :
    ∃ mirror, Reachable other otherAllowed otherInitial mirror ∧ Related config mirror := by
  induction reached with
  | refl => exact ⟨_, reachable_start, initially⟩
  | tail _ last ih =>
      obtain ⟨mirror, mirrorReached, related⟩ := ih
      cases last with
      | run permitted next =>
          obtain ⟨image, out, mayRun, ran, relatedNext⟩ :=
            follows _ mirror _ _ _ related permitted next
          exact ⟨_, mirrorReached.tail (.run mayRun ran), relatedNext⟩

end Simulation

section Alike

/-- Every operation of a run can be replaced by one that is alike, if every step can. -/
theorem reachable_alike {Alike : Op → Op → Prop}
    (Related : Config State Op Obs → Config State Op Obs → Prop)
    (initially : Related (.start initial) (.start initial))
    (follows : ∀ config mirror op other state obs, Related config mirror → Alike op other →
      allowed config op → step config.state op = some (state, obs) →
      ∃ image out, allowed mirror other ∧ step mirror.state other = some (image, out) ∧
        Related (config.push op state obs) (mirror.push other image out))
    {config : Config State Op Obs} (reached : Reachable step allowed initial config)
    {ops : List Op} (alike : List.Forall₂ Alike config.ops ops) :
    ∃ mirror, Reachable step allowed initial mirror ∧ mirror.ops = ops ∧
      Related config mirror := by
  induction reached generalizing ops with
  | refl => exact ⟨_, reachable_start, (List.forall₂_nil_left_iff.mp alike).symm, initially⟩
  | @tail before _ _ last ih =>
      cases last with
      | @run op state obs permitted next =>
          rw [Config.push_ops] at alike
          have own := (List.forall₂_drop_append ops before.ops [op] alike.flip).flip
          obtain ⟨other, rest, one, none, shape⟩ := List.forall₂_cons_left_iff.mp own
          rw [List.forall₂_nil_left_iff.mp none] at shape
          obtain ⟨mirror, mirrorReached, mirrorOps, related⟩ :=
            ih (List.forall₂_take_append ops before.ops [op] alike.flip).flip
          obtain ⟨image, out, mayRun, ran, relatedNext⟩ :=
            follows before mirror op other state obs related one permitted next
          refine ⟨_, mirrorReached.tail (.run mayRun ran), ?_, relatedNext⟩
          rw [Config.push_ops, mirrorOps, ← shape, List.take_append_drop]

end Alike

section Stuttering

/-- Operations that the other run does not have may be put in anywhere, as long as they keep
the two runs related. -/
theorem reachable_stutter (silent : Op → Bool)
    (Related : Config State Op Obs → Config State Op Obs → Prop)
    (initially : Related (.start initial) (.start initial))
    (follows : ∀ config mirror op state obs, Related config mirror → silent op = false →
      allowed config op → step config.state op = some (state, obs) →
      ∃ image out, allowed mirror op ∧ step mirror.state op = some (image, out) ∧
        Related (config.push op state obs) (mirror.push op image out))
    (stutters : ∀ config mirror op, Related config mirror → silent op = true →
      ∃ image out, allowed mirror op ∧ step mirror.state op = some (image, out) ∧
        Related config (mirror.push op image out))
    {config : Config State Op Obs} (reached : Reachable step allowed initial config)
    {ops : List Op} (inserted : ops.filter (fun op => !silent op) = config.ops) :
    ∃ mirror, Reachable step allowed initial mirror ∧ mirror.ops = ops ∧
      Related config mirror := by
  induction ops using List.reverseRecOn generalizing config with
  | nil =>
      have same := reachable_unique reachable_start reached inserted.symm
      rw [same]
      exact ⟨_, reachable_start, rfl, initially⟩
  | append_singleton ops op ih =>
      rw [List.filter_append] at inserted
      cases quiet : silent op with
      | true =>
          have before : ops.filter (fun op => !silent op) = config.ops := by
            rw [← inserted, List.filter_cons_of_neg (by rw [quiet]; decide), List.filter_nil,
              List.append_nil]
          obtain ⟨mirror, mirrorReached, own, related⟩ := ih reached before
          obtain ⟨image, out, mayRun, ran, relatedNext⟩ := stutters config mirror op related quiet
          refine ⟨_, mirrorReached.tail (.run mayRun ran), ?_, relatedNext⟩
          rw [Config.push_ops, own]
      | false =>
          rw [List.filter_cons_of_pos (by rw [quiet]; decide), List.filter_nil] at inserted
          cases reached with
          | refl => exact absurd inserted (List.concat_ne_nil _ _)
          | @tail before _ earlier last =>
              cases last with
              | @run own state obs permitted next =>
                  rw [Config.push_ops] at inserted
                  obtain ⟨sameOps, sameOp⟩ := List.append_inj' inserted rfl
                  have equal : op = own := List.singleton_inj.mp sameOp
                  rw [← equal] at permitted next ⊢
                  obtain ⟨mirror, mirrorReached, mirrorOps, related⟩ := ih earlier sameOps
                  obtain ⟨image, out, mayRun, ran, relatedNext⟩ :=
                    follows before mirror op state obs related quiet permitted next
                  refine ⟨_, mirrorReached.tail (.run mayRun ran), ?_, relatedNext⟩
                  rw [Config.push_ops, mirrorOps]

end Stuttering

section Execution

variable [∀ config op, Decidable (allowed config op)]

/-- Runs a list of operations, checking the side condition before each. -/
def execute (step : State → Op → Option (State × Obs))
    (allowed : Config State Op Obs → Op → Prop) [∀ config op, Decidable (allowed config op)]
    (config : Config State Op Obs) : List Op → Option (Config State Op Obs)
  | [] => some config
  | op :: rest =>
      if allowed config op then
        match step config.state op with
        | none => none
        | some (state, obs) => execute step allowed (config.push op state obs) rest
      else none

theorem leads_of_execute {ops : List Op} {config later : Config State Op Obs}
    (ran : execute step allowed config ops = some later) : Leads step allowed config later := by
  induction ops generalizing config with
  | nil =>
      simp only [execute, Option.some.injEq] at ran
      subst ran
      exact Relation.ReflTransGen.refl
  | cons op rest ih =>
      simp only [execute] at ran
      split at ran
      · rename_i permitted
        cases next : step config.state op with
        | none => simp [next] at ran
        | some result =>
            obtain ⟨state, obs⟩ := result
            simp only [next] at ran
            exact (ih ran).head (.run permitted next)
      · contradiction

theorem reachable_of_execute {ops : List Op} {config : Config State Op Obs}
    (ran : execute step allowed (.start initial) ops = some config) :
    Reachable step allowed initial config :=
  leads_of_execute ran

/-- A run that is found by executing it, with what was checked of its end. -/
theorem reachable_of_execute_any {ops : List Op} {Holds : Config State Op Obs → Prop}
    [∀ config, Decidable (Holds config)]
    (found : (execute step allowed (.start initial) ops).any
      (fun config => decide (Holds config)) = true) :
    ∃ config, Reachable step allowed initial config ∧ Holds config := by
  obtain ⟨config, ran, holds⟩ := (Option.any_eq_true _ _).mp found
  exact ⟨config, reachable_of_execute ran, of_decide_eq_true holds⟩

/-- What runs at all runs under any rule that permits each of its operations. -/
theorem execute_permitted {other : Config State Op Obs → Op → Prop}
    [∀ config op, Decidable (other config op)] {ops : List Op} {config later : Config State Op Obs}
    (ran : execute step allowed config ops = some later)
    (permitted : ∀ op ∈ ops, ∀ config, other config op) :
    execute step other config ops = some later := by
  induction ops generalizing config with
  | nil => exact ran
  | cons op ops ih =>
      obtain ⟨first, rest⟩ := List.forall_mem_cons.mp permitted
      simp only [execute] at ran ⊢
      rw [if_pos (first config)]
      split_ifs at ran
      cases taken : step config.state op with
      | none =>
          rw [taken] at ran
          cases ran
      | some result =>
          rw [taken] at ran
          exact ih ran rest

theorem execute_append (config : Config State Op Obs) (first second : List Op) :
    execute step allowed config (first ++ second) =
      (execute step allowed config first).bind fun later => execute step allowed later second := by
  induction first generalizing config with
  | nil => rfl
  | cons op rest ih =>
      simp only [List.cons_append, execute]
      by_cases permitted : allowed config op
      · simp only [if_pos permitted]
        cases step config.state op with
        | none => rfl
        | some result => exact ih _
      · simp only [if_neg permitted, Option.bind_none]

theorem execute_of_reachable {config : Config State Op Obs}
    (reached : Reachable step allowed initial config) :
    execute step allowed (.start initial) config.ops = some config := by
  induction reached with
  | refl => rfl
  | tail _ last ih =>
      cases last with
      | run permitted next =>
          rw [Config.push_ops, execute_append, ih, Option.bind_some]
          simp only [execute, if_pos permitted, next]

end Execution

end Finm327.Library.Runs
