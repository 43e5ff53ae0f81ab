import Mathlib

namespace CodeCollect.Library

/-- A system starts in one state, and each action that is enabled leads to one next state. -/
structure System (State Action : Type*) where
  initial : State
  next : State → Action → Option State

namespace System

variable {State Action : Type*}

/-- A state is reachable when good actions lead to it from the initial state. -/
inductive Reachable (system : System State Action) (Good : State → Action → Prop) : State → Prop
  | start : Reachable system Good system.initial
  | step {before after : State} {action : Action} : Reachable system Good before →
      Good before action → system.next before action = some after → Reachable system Good after

/-- Every action is allowed. -/
def Always (_ : State) (_ : Action) : Prop := True

/-- A run takes all actions in order and fails when one of them is not enabled. -/
def run (system : System State Action) (actions : List Action) : Option State :=
  actions.foldlM system.next system.initial

/-- Some actions lead from one state to another. -/
def Leads (system : System State Action) : State → State → Prop :=
  Relation.ReflTransGen fun before after => ∃ action, system.next before action = some after

variable {system : System State Action} {Good : State → Action → Prop}

/-- An invariant holds at the start, and each good action keeps it. -/
theorem Reachable.invariant {state : State} (reached : system.Reachable Good state)
    (Invariant : State → Prop) (start : Invariant system.initial)
    (preserved : ∀ before action after, Invariant before → Good before action →
      system.next before action = some after → Invariant after) : Invariant state := by
  induction reached with
  | start => exact start
  | step _ good taken ih => exact preserved _ _ _ ih good taken

/-- Every action of a run from this state is good in the state where the run takes it. -/
def Along (system : System State Action) (Good : State → Action → Prop) :
    State → List Action → Prop
  | _, [] => True
  | state, action :: actions =>
      Good state action ∧ ∀ next, system.next state action = some next → Along system Good next actions

/-- A property holds in every state that a run from this state goes through. -/
def Throughout (system : System State Action) (Property : State → Prop) :
    State → List Action → Prop
  | state, [] => Property state
  | state, action :: actions =>
      Property state ∧ ∀ next, system.next state action = some next →
        Throughout system Property next actions

/-- Among allowed actions the good ones are exactly those that keep the property. -/
theorem throughout_iff_along_within (system : System State Action) {Allowed : State → Action → Prop}
    (Invariant : State → Prop) {Property : State → Prop}
    (holds : ∀ state, Invariant state → Property state)
    (preserved : ∀ before action after, Invariant before → Allowed before action →
      Good before action → system.next before action = some after → Invariant after)
    (broken : ∀ before action, Invariant before → Allowed before action → ¬ Good before action →
      ∃ after, system.next before action = some after ∧ ¬ Property after)
    {state : State} (invariant : Invariant state) (actions : List Action)
    (allowed : system.Along Allowed state actions) :
    system.Throughout Property state actions ↔ system.Along Good state actions := by
  induction actions generalizing state with
  | nil => exact ⟨fun _ => trivial, fun _ => holds state invariant⟩
  | cons action actions ih =>
      constructor
      · intro throughout
        have good : Good state action := by
          by_contra bad
          obtain ⟨after, taken, fails⟩ := broken state action invariant allowed.1 bad
          have later := throughout.2 after taken
          cases actions with
          | nil => exact fails later
          | cons _ _ => exact fails later.1
        exact ⟨good, fun after taken =>
          (ih (preserved _ _ _ invariant allowed.1 good taken) (allowed.2 after taken)).mp
            (throughout.2 after taken)⟩
      · intro along
        exact ⟨holds state invariant, fun after taken =>
          (ih (preserved _ _ _ invariant allowed.1 along.1 taken) (allowed.2 after taken)).mpr
            (along.2 after taken)⟩

theorem along_of_forall {actions : List Action}
    (good : ∀ action ∈ actions, ∀ state, Good state action) (state : State) :
    system.Along Good state actions := by
  induction actions generalizing state with
  | nil => trivial
  | cons action actions ih =>
      exact ⟨good action List.mem_cons_self state, fun next _ =>
        ih (fun other member => good other (List.mem_cons_of_mem action member)) next⟩

/-- The good actions are exactly those that keep the property when an invariant says so. -/
theorem throughout_iff_along (system : System State Action) (Invariant : State → Prop)
    {Property : State → Prop} (holds : ∀ state, Invariant state → Property state)
    (preserved : ∀ before action after, Invariant before → Good before action →
      system.next before action = some after → Invariant after)
    (broken : ∀ before action, Invariant before → ¬ Good before action →
      ∃ after, system.next before action = some after ∧ ¬ Property after)
    {state : State} (invariant : Invariant state) (actions : List Action) :
    system.Throughout Property state actions ↔ system.Along Good state actions :=
  system.throughout_iff_along_within Invariant holds
    (fun _ _ _ kept _ good taken => preserved _ _ _ kept good taken)
    (fun _ _ kept _ bad => broken _ _ kept bad) invariant actions
    (along_of_forall (fun _ _ _ => (trivial : Always _ _)) state)

/-- Good actions lead from a reachable state to a reachable state. -/
theorem Reachable.foldlM {actions : List Action} {before after : State}
    (reached : system.Reachable Good before) (good : system.Along Good before actions)
    (ran : actions.foldlM system.next before = some after) : system.Reachable Good after := by
  induction actions generalizing before with
  | nil =>
      obtain rfl := Option.some.inj ran
      exact reached
  | cons action actions ih =>
      rw [List.foldlM_cons] at ran
      obtain ⟨middle, taken, rest⟩ := Option.bind_eq_some_iff.mp ran
      exact ih (reached.step good.1 taken) (good.2 middle taken) rest

/-- A run of good actions ends in a reachable state. -/
theorem reachable_of_along {actions : List Action} {state : State}
    (good : system.Along Good system.initial actions) (ran : system.run actions = some state) :
    system.Reachable Good state :=
  Reachable.start.foldlM good ran

/-- A test of every action of a run that goes on while the actions are enabled. -/
def Tested (system : System State Action) (test : State → Action → Bool) :
    State → List Action → Bool
  | _, [] => true
  | state, action :: actions => test state action && match system.next state action with
    | none => true
    | some next => Tested system test next actions

/-- The actions of a run are good when a test says so. -/
theorem along_of_tested {test : State → Action → Bool}
    (sound : ∀ state action, test state action = true → Good state action)
    {actions : List Action} {state : State} (passed : system.Tested test state actions = true) :
    system.Along Good state actions := by
  induction actions generalizing state with
  | nil => trivial
  | cons action actions ih =>
      obtain ⟨good, rest⟩ := Bool.and_eq_true_iff.mp passed
      refine ⟨sound state action good, fun next taken => ih ?_⟩
      rwa [taken] at rest

/-- What good actions keep and bad actions raise tells whether all actions of a run were good. -/
theorem along_iff_kept (system : System State Action) (Measured : Nat → State → Prop)
    (stepped : ∀ amount before action after, Measured amount before →
      system.next before action = some after →
        ∃ more, amount ≤ more ∧ Measured more after ∧ (more = amount ↔ Good before action))
    {actions : List Action} {before after : State} {amount : Nat}
    (measured : Measured amount before) (ran : actions.foldlM system.next before = some after) :
    ∃ final, amount ≤ final ∧ Measured final after ∧
      (final = amount ↔ system.Along Good before actions) := by
  induction actions generalizing before amount with
  | nil =>
      obtain rfl := Option.some.inj ran
      exact ⟨amount, le_rfl, measured, fun _ => trivial, fun _ => rfl⟩
  | cons action actions ih =>
      rw [List.foldlM_cons] at ran
      obtain ⟨middle, taken, rest⟩ := Option.bind_eq_some_iff.mp ran
      obtain ⟨more, higher, next, equal⟩ := stepped _ _ _ _ measured taken
      obtain ⟨final, above, reached, same⟩ := ih next rest
      refine ⟨final, higher.trans above, reached, fun unchanged => ?_, fun along => ?_⟩
      · have kept : more = amount := le_antisymm (above.trans unchanged.le) higher
        refine ⟨equal.mp kept, fun found reaches => ?_⟩
        obtain rfl := Option.some.inj (taken.symm.trans reaches)
        exact same.mp (unchanged.trans kept.symm)
      · exact (same.mpr (along.2 middle taken)).trans (equal.mpr along.1)

/-- Every run ends in a reachable state. -/
theorem reachable_of_run {actions : List Action} {state : State}
    (ran : system.run actions = some state) : system.Reachable Always state :=
  reachable_of_along (along_of_forall (fun _ _ _ => trivial) _) ran

end System

end CodeCollect.Library
