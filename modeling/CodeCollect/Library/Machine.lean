import Mathlib

namespace CodeCollect.Library

/-- A machine takes the actions that its schedule names and shows what each action did. -/
structure Machine (State Action Observation : Type*) where
  initial : State
  step : State → Action → Option (State × List Observation)

namespace Machine

variable {State Action Observation : Type*} (machine : Machine State Action Observation)

/-- This is one action after a run that ended in a state with a trace. -/
def advance (reached : State × List Observation) (action : Action) :
    Option (State × List Observation) :=
  (machine.step reached.1 action).map fun next => (next.1, reached.2 ++ next.2)

/-- A run takes all actions in order and fails when one of them is not enabled. -/
def run (actions : List Action) : Option (State × List Observation) :=
  actions.foldlM machine.advance (machine.initial, [])

/-- Every action of the run is good in the state where the run takes it. -/
def Along (Good : State → Action → Prop) (actions : List Action) : Prop :=
  ∀ earlier action later, actions = earlier ++ action :: later →
    ∀ state trace, machine.run earlier = some (state, trace) → Good state action

variable {machine}

@[simp] theorem run_nil : machine.run [] = some (machine.initial, []) := rfl

theorem run_append (first second : List Action) :
    machine.run (first ++ second) =
      (machine.run first).bind fun reached => second.foldlM machine.advance reached := by
  simp [run, List.foldlM_append]

/-- The last action of a run starts where the run of the other actions ends. -/
theorem run_concat {actions : List Action} {action : Action} {state : State}
    {trace : List Observation} :
    machine.run (actions ++ [action]) = some (state, trace) ↔
      ∃ before past seen, machine.run actions = some (before, past) ∧
        machine.step before action = some (state, seen) ∧ trace = past ++ seen := by
  rw [run_append, Option.bind_eq_some_iff]
  simp only [List.foldlM_cons, List.foldlM_nil, bind_pure]
  constructor
  · rintro ⟨⟨before, past⟩, first, rest⟩
    obtain ⟨⟨next, seen⟩, taken, same⟩ := Option.map_eq_some_iff.mp rest
    obtain ⟨rfl, rfl⟩ := Prod.mk.inj same
    exact ⟨before, past, seen, first, taken, rfl⟩
  · rintro ⟨before, past, seen, first, taken, rfl⟩
    exact ⟨(before, past), first, by rw [advance, taken]; rfl⟩

/-- A run of one action is this action. -/
theorem run_singleton (action : Action) :
    machine.run [action] = machine.step machine.initial action := by
  rw [run, List.foldlM_cons]
  cases taken : machine.step machine.initial action with
  | none => simp [advance, taken]
  | some next => simp [advance, taken]

/-- Each part of a run from its start is a run. -/
theorem run_of_append {first second : List Action} {state : State} {trace : List Observation}
    (ran : machine.run (first ++ second) = some (state, trace)) :
    ∃ middle past, machine.run first = some (middle, past) := by
  rw [run_append] at ran
  obtain ⟨⟨middle, past⟩, reached, _⟩ := Option.bind_eq_some_iff.mp ran
  exact ⟨middle, past, reached⟩

/-- A machine that takes every action has every run. -/
theorem run_total (total : ∀ state action, ∃ next, machine.step state action = some next)
    (actions : List Action) : ∃ reached, machine.run actions = some reached := by
  induction actions using List.reverseRecOn with
  | nil => exact ⟨_, rfl⟩
  | append_singleton actions action ih =>
      obtain ⟨⟨before, past⟩, ran⟩ := ih
      obtain ⟨⟨next, seen⟩, stepped⟩ := total before action
      exact ⟨(next, past ++ seen), run_concat.mpr ⟨before, past, seen, ran, stepped, rfl⟩⟩

theorem Along.of_append {Good : State → Action → Prop} {first second : List Action}
    (good : machine.Along Good (first ++ second)) : machine.Along Good first := by
  intro earlier action later split
  exact good earlier action (later ++ second) (by simp [split])

theorem Along.last {Good : State → Action → Prop} {actions : List Action} {action : Action}
    (good : machine.Along Good (actions ++ [action])) {state : State} {trace : List Observation}
    (ran : machine.run actions = some (state, trace)) : Good state action :=
  good actions action [] rfl state trace ran

/-- A statement about all actions of a run follows from the states before them. -/
theorem along_of_forall {Good : State → Action → Prop} {actions : List Action}
    (good : ∀ action ∈ actions, ∀ state, Good state action) : machine.Along Good actions := by
  intro earlier action later split state trace _
  exact good action (by simp [split]) state

theorem along_single {Good : State → Action → Prop} {action : Action}
    (good : Good machine.initial action) : machine.Along Good [action] := by
  intro earlier other later split state trace ran
  cases earlier with
  | nil =>
      obtain ⟨rfl, _⟩ := List.cons.inj split
      obtain ⟨rfl, _⟩ := Prod.mk.inj (Option.some.inj ran)
      exact good
  | cons first rest => exact absurd (congrArg List.length split) (by simp)

/-- An invariant may also speak of the actions that the run has taken so far. -/
theorem run_history (machine : Machine State Action Observation) (Good : State → Action → Prop)
    (Invariant : List Action → State → List Observation → Prop)
    (start : Invariant [] machine.initial [])
    (preserved : ∀ earlier before past action state seen,
      machine.run earlier = some (before, past) → Invariant earlier before past →
        Good before action → machine.step before action = some (state, seen) →
          Invariant (earlier ++ [action]) state (past ++ seen))
    {actions : List Action} {state : State} {trace : List Observation}
    (ran : machine.run actions = some (state, trace)) (good : machine.Along Good actions) :
    Invariant actions state trace := by
  induction actions using List.reverseRecOn generalizing state trace with
  | nil =>
      obtain ⟨rfl, rfl⟩ := Prod.mk.inj (Option.some.inj ran)
      exact start
  | append_singleton actions action ih =>
      obtain ⟨before, past, seen, first, taken, rfl⟩ := run_concat.mp ran
      exact preserved actions before past action state seen first (ih first good.of_append)
        (good.last first) taken

/-- An invariant of state and trace holds after every run of good actions. -/
theorem run_invariant (machine : Machine State Action Observation) (Good : State → Action → Prop)
    (Invariant : State → List Observation → Prop) (start : Invariant machine.initial [])
    (preserved : ∀ before past action state seen, Invariant before past → Good before action →
      machine.step before action = some (state, seen) → Invariant state (past ++ seen))
    {actions : List Action} {state : State} {trace : List Observation}
    (ran : machine.run actions = some (state, trace)) (good : machine.Along Good actions) :
    Invariant state trace :=
  run_history machine Good (fun _ => Invariant) start
    (fun _ before past action state seen _ => preserved before past action state seen) ran good

/-- A run of good actions shows what a model shows when each good step does so. -/
theorem run_simulates {Model : Type*} (machine : Machine State Action Observation)
    (spec : Machine Model Action Observation) (Represents : State → Model → Prop)
    {Good : State → Action → Prop} (start : Represents machine.initial spec.initial)
    (simulated : ∀ state model action, Represents state model → Good state action →
      ∃ next after seen, machine.step state action = some (next, seen) ∧
        spec.step model action = some (after, seen) ∧ Represents next after)
    {actions : List Action} (good : machine.Along Good actions) :
    ∃ state model trace, machine.run actions = some (state, trace) ∧
      spec.run actions = some (model, trace) ∧ Represents state model := by
  induction actions using List.reverseRecOn with
  | nil => exact ⟨_, _, [], rfl, rfl, start⟩
  | append_singleton actions action ih =>
      obtain ⟨before, model, past, ran, followed, represents⟩ := ih good.of_append
      obtain ⟨next, after, seen, taken, matched, kept⟩ :=
        simulated before model action represents (good.last ran)
      exact ⟨next, after, past ++ seen, run_concat.mpr ⟨before, past, seen, ran, taken, rfl⟩,
        run_concat.mpr ⟨model, past, seen, followed, matched, rfl⟩, kept⟩

/-- All actions of a run are good when every enabled action is. -/
theorem along_of_run {Good : State → Action → Prop}
    (enabled : ∀ state action next, machine.step state action = some next → Good state action)
    {actions : List Action} {state : State} {trace : List Observation}
    (ran : machine.run actions = some (state, trace)) : machine.Along Good actions := by
  intro earlier action later split before past reached
  rw [split, List.append_cons] at ran
  obtain ⟨middle, seen, first⟩ := run_of_append ran
  obtain ⟨other, _, step, others, taken, _⟩ := run_concat.mp first
  obtain ⟨rfl, _⟩ := Prod.mk.inj (Option.some.inj (reached.symm.trans others))
  exact enabled _ action _ taken

/-- An invariant that every step keeps also holds after the rest of a run. -/
theorem rest_invariant (Invariant : State → List Observation → Prop)
    (preserved : ∀ before past action state seen, Invariant before past →
      machine.step before action = some (state, seen) → Invariant state (past ++ seen))
    (rest : List Action) {middle state : State} {past trace : List Observation}
    (ran : rest.foldlM machine.advance (middle, past) = some (state, trace))
    (holds : Invariant middle past) : Invariant state trace := by
  induction rest generalizing middle past with
  | nil =>
      obtain ⟨rfl, rfl⟩ := Prod.mk.inj (Option.some.inj ran)
      exact holds
  | cons action rest ih =>
      rw [List.foldlM_cons] at ran
      obtain ⟨⟨next, later⟩, taken, remaining⟩ := Option.bind_eq_some_iff.mp ran
      obtain ⟨⟨_, seen⟩, stepped, same⟩ := Option.map_eq_some_iff.mp taken
      obtain ⟨rfl, rfl⟩ := Prod.mk.inj same
      exact ih remaining (preserved middle past action _ seen holds stepped)

end Machine

end CodeCollect.Library
