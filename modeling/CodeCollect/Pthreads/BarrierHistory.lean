import CodeCollect.Pthreads.BarrierCounts

namespace CodeCollect.Pthreads

open CodeCollect.Library Program

namespace Barrier

/-- A call has passed with some height. -/
def Passed (history : List Event) (call : Nat) : Prop :=
  ∃ current, Event.passed call current ∈ history

@[simp] theorem passed_arrived {history : List Event} {call other : Nat} :
    Passed (.arrived other :: history) call ↔ Passed history call := by
  simp [Passed]

@[simp] theorem passed_returned {history : List Event} {call other : Nat} {result : Int} :
    Passed (.returned other result :: history) call ↔ Passed history call := by
  simp [Passed]

@[simp] theorem passed_passed {history : List Event} {call other : Nat} {current : Int} :
    Passed (.passed other current :: history) call ↔ call = other ∨ Passed history call := by
  simp [Passed, exists_or]

/-- A call arrives after all calls of the rounds before it have passed, and it passes and returns
after all calls of its round have arrived. -/
def Allowed (height : Nat) (before : List Event) : Event → Prop
  | .arrived call => call = arrivals before ∧
      ∀ earlier, earlier / height < call / height → Passed before earlier
  | .passed call _ => ∀ other, other / height = call / height → .arrived other ∈ before
  | .returned call _ => ∀ other, other / height = call / height → .arrived other ∈ before

/-- The calls arrive in rounds of this height, and each event is allowed after those before it. -/
def Separated (height : Nat) : List Event → Prop
  | [] => True
  | event :: before => Allowed height before event ∧ Separated height before

/-- All calls of a round had arrived when one of them passed. -/
theorem Separated.arrived_of_passed {height : Nat} {history : List Event}
    (separated : Separated height history) {call other : Nat} (passed : Passed history call)
    (same : other / height = call / height) : .arrived other ∈ history := by
  induction history with
  | nil => exact absurd passed (by simp [Passed])
  | cons event before ih =>
      obtain ⟨allowed, rest⟩ := separated
      cases event with
      | arrived => exact List.mem_cons_of_mem _ (ih rest (passed_arrived.mp passed))
      | returned => exact List.mem_cons_of_mem _ (ih rest (passed_returned.mp passed))
      | passed =>
          rcases passed_passed.mp passed with rfl | earlier
          · exact List.mem_cons_of_mem _ (allowed other same)
          · exact List.mem_cons_of_mem _ (ih rest earlier)

/-- This is the call that a thread has made and not passed yet. -/
def callOf : Place → Option Nat
  | .transferring call | .posting call | .releasing call | .waiting call | .crossing call _ =>
      some call
  | _ => none

variable {Thread : Type} {height base : Nat} {history : List Event} {calls : Thread → Option Nat}

/-- Every call that has arrived has passed once or is the call of one thread. -/
structure Traced (base : Nat) (calls : Thread → Option Nat) (history : List Event) : Prop where
  arrived : ∀ call < arrivals history, .arrived call ∈ history
  known : ∀ call < arrivals history, Passed history call ∨ ∃ thread, calls thread = some call
  recent : ∀ thread call, calls thread = some call → base ≤ call
  inside : ∀ thread call, calls thread = some call → call < arrivals history
  fresh : ∀ thread call, calls thread = some call → ¬ Passed history call
  distinct : ∀ thread other call, calls thread = some call → calls other = some call →
    thread = other
  passed : ∀ call, Passed history call → call < arrivals history
  once : ∀ call current other, .passed call current ∈ history → .passed call other ∈ history →
    current = other

namespace Traced

theorem start : Traced 0 (fun _ : Thread => none) [] where
  arrived _ below := absurd below (Nat.not_lt_zero _)
  known _ below := absurd below (Nat.not_lt_zero _)
  recent _ _ here := by simp at here
  inside _ _ here := by simp at here
  fresh _ _ here := by simp at here
  distinct _ _ _ here := by simp at here
  passed _ passed := by simp [Passed] at passed
  once _ _ _ passed := by simp at passed

theorem leave (traced : Traced base calls history) (call : Nat) (result : Int) :
    Traced base calls (.returned call result :: history) where
  arrived other below := List.mem_cons_of_mem _ (traced.arrived other below)
  known other below := by
    rw [passed_returned]
    exact traced.known other below
  recent := traced.recent
  inside := traced.inside
  fresh thread other here := by
    rw [passed_returned]
    exact traced.fresh thread other here
  distinct := traced.distinct
  passed other passed := traced.passed other (passed_returned.mp passed)
  once other current again first second := by
    simp only [List.mem_cons, reduceCtorEq, false_or] at first second
    exact traced.once other current again first second

/-- A round begins when no thread is in a call. -/
theorem advance (traced : Traced base calls history) (nobody : ∀ thread, calls thread = none)
    (later : Nat) : Traced later calls history where
  arrived := traced.arrived
  known := traced.known
  recent thread call here := by simp [nobody thread] at here
  inside := traced.inside
  fresh := traced.fresh
  distinct := traced.distinct
  passed := traced.passed
  once := traced.once

variable [DecidableEq Thread] {thread other : Thread} {call : Nat}

/-- A call is the new one of its thread, or it was there before. -/
theorem calls_update {called : Option Nat}
    (here : Function.update calls thread called other = some call) :
    other = thread ∧ called = some call ∨ other ≠ thread ∧ calls other = some call := by
  by_cases same : other = thread
  · rw [same, Function.update_self] at here
    exact Or.inl ⟨same, here⟩
  · rw [Function.update_of_ne same] at here
    exact Or.inr ⟨same, here⟩

theorem calls_leave (here : Function.update calls thread none other = some call) :
    other ≠ thread ∧ calls other = some call := by
  rcases calls_update here with ⟨-, none⟩ | before
  · exact absurd none (Option.some_ne_none call).symm
  · exact before

/-- The next call is the call of the thread that arrives. -/
theorem arrive (traced : Traced base calls history) (idle : calls thread = none)
    (late : base ≤ arrivals history) :
    Traced base (Function.update calls thread (some (arrivals history)))
      (.arrived (arrivals history) :: history) where
  arrived call below := by
    rw [arrivals_arrived, Nat.lt_succ_iff_lt_or_eq] at below
    rcases below with earlier | rfl
    · exact List.mem_cons_of_mem _ (traced.arrived call earlier)
    · exact List.mem_cons_self
  known call below := by
    rw [arrivals_arrived, Nat.lt_succ_iff_lt_or_eq] at below
    rcases below with earlier | rfl
    · rcases traced.known call earlier with passed | ⟨other, here⟩
      · exact Or.inl (passed_arrived.mpr passed)
      · have differ : other ≠ thread := by
          rintro rfl
          simp [idle] at here
        exact Or.inr ⟨other, by rw [Function.update_of_ne differ]; exact here⟩
    · exact Or.inr ⟨thread, Function.update_self ..⟩
  recent other call here := by
    rcases calls_update here with ⟨-, next⟩ | ⟨-, before⟩
    · rw [← Option.some.inj next]
      exact late
    · exact traced.recent other call before
  inside other call here := by
    rw [arrivals_arrived]
    rcases calls_update here with ⟨-, next⟩ | ⟨-, before⟩
    · rw [← Option.some.inj next]
      exact Nat.lt_succ_self _
    · exact Nat.lt_succ_of_lt (traced.inside other call before)
  fresh other call here passed := by
    rw [passed_arrived] at passed
    rcases calls_update here with ⟨-, next⟩ | ⟨-, before⟩
    · rw [← Option.some.inj next] at passed
      exact absurd (traced.passed _ passed) (lt_irrefl _)
    · exact traced.fresh other call before passed
  distinct first second call here there := by
    have newest : ∀ owner, calls owner ≠ some (arrivals history) := fun owner before =>
      absurd (traced.inside owner _ before) (lt_irrefl _)
    rcases calls_update here with ⟨one, next⟩ | ⟨-, before⟩
    · rcases calls_update there with ⟨two, -⟩ | ⟨-, earlier⟩
      · exact one.trans two.symm
      · exact absurd (earlier.trans next.symm) (newest second)
    · rcases calls_update there with ⟨-, next⟩ | ⟨-, earlier⟩
      · exact absurd (before.trans next.symm) (newest first)
      · exact traced.distinct first second call before earlier
  passed call passed := by
    rw [arrivals_arrived]
    exact Nat.lt_succ_of_lt (traced.passed call (passed_arrived.mp passed))
  once call current again first second := by
    simp only [List.mem_cons, reduceCtorEq, false_or] at first second
    exact traced.once call current again first second

/-- The call of the thread that crosses has passed. -/
theorem pass (traced : Traced base calls history) {call : Nat} (here : calls thread = some call)
    (current : Int) :
    Traced base (Function.update calls thread none) (.passed call current :: history) where
  arrived other below := List.mem_cons_of_mem _ (traced.arrived other below)
  known other below := by
    rw [passed_passed]
    rcases traced.known other below with passed | ⟨owner, there⟩
    · exact Or.inl (Or.inr passed)
    · by_cases same : owner = thread
      · rw [same, here, Option.some.injEq] at there
        exact Or.inl (Or.inl there.symm)
      · exact Or.inr ⟨owner, by rw [Function.update_of_ne same]; exact there⟩
  recent other number there := traced.recent other number (calls_leave there).2
  inside other number there := traced.inside other number (calls_leave there).2
  fresh other number there passed := by
    obtain ⟨differ, before⟩ := calls_leave there
    rcases passed_passed.mp passed with rfl | earlier
    · exact differ (traced.distinct other thread number before here)
    · exact traced.fresh other number before earlier
  distinct first second number one two :=
    traced.distinct first second number (calls_leave one).2 (calls_leave two).2
  passed other passed := by
    rcases passed_passed.mp passed with rfl | earlier
    · exact traced.inside thread other here
    · exact traced.passed other earlier
  once other first second one two := by
    have unpassed := traced.fresh thread call here
    simp only [List.mem_cons, Event.passed.injEq] at one two
    rcases one with ⟨rfl, rfl⟩ | one
    · rcases two with ⟨-, rfl⟩ | two
      · rfl
      · exact absurd ⟨second, two⟩ unpassed
    · rcases two with ⟨rfl, rfl⟩ | two
      · exact absurd ⟨first, one⟩ unpassed
      · exact traced.once other first second one two

end Traced

end Barrier

end CodeCollect.Pthreads
