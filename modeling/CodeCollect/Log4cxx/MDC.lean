import CodeCollect.Log4cxx.DiagnosticContextSteps

namespace CodeCollect.Log4cxx

open CodeCollect.Library

namespace MDC

open ContextThread

/-- This is the answer of a finite map with these values. -/
def answer (value : LogString → Option LogString) : Operation → ContextResult
  | .put _ _ | .clear | .construct _ _ | .destroy _ => .done
  | .get key dest =>
      match value key with
      | some found => .found true (dest ++ found)
      | none => .found false dest
  | .getString key | .removeString key => .text ((value key).getD [])
  | .remove key dest => .found (value key).isSome ((value key).getD dest)

/-- The history of a thread is listed from its latest operation on. -/
def mostRecent (key : LogString) : List ContextOperation → Option LogString
  | [] => none
  | .ndc _ :: earlier => mostRecent key earlier
  | .mdc operation :: earlier =>
      match operation with
      | .put other value | .construct other value =>
          if other = key then some value else mostRecent key earlier
      | .remove other _ | .removeString other | .destroy ⟨other⟩ =>
          if other = key then none else mostRecent key earlier
      | .clear => none
      | .get _ _ | .getString _ => mostRecent key earlier

/-- At each point of a history every operation answers like the map of the latest values. -/
def AnswersMostRecent (operations : List ContextOperation) : Prop :=
  ∀ earlier later, operations = earlier ++ later → ∀ thread trace,
    machine.run earlier = some (thread, trace) → ∀ operation,
      (thread.mdc operation).1 = answer (fun key => mostRecent key earlier.reverse) operation

/-- A key is put only while it is absent, or again with the value that it has. -/
def KeepsValue (thread : ContextThread) : ContextOperation → Prop
  | .mdc (.put key value) | .mdc (.construct key value) =>
      thread.entry key = none ∨ thread.entry key = some value
  | _ => True

/-- Every operation answers by the entries of the thread. -/
theorem mdc_answer (thread : ContextThread) (operation : Operation) :
    (thread.mdc operation).1 = answer thread.entry operation := by
  cases operation with
  | put key value => rfl
  | get key dest =>
      rw [ContextThread.mdc, answer, ContextThread.entry]
      dsimp only
      rw [get_result]
      cases ThreadSpecificData.entry thread.key key <;> rfl
  | getString key =>
      rw [ContextThread.mdc, getString, answer, ContextThread.entry]
      dsimp only
      rw [get_result]
      cases ThreadSpecificData.entry thread.key key <;> rfl
  | remove key dest =>
      rw [ContextThread.mdc, answer]
      dsimp only
      rw [remove_result]
      rfl
  | removeString key =>
      rw [ContextThread.mdc, removeString, answer, ContextThread.entry]
      dsimp only
      rw [remove_result]
      cases ThreadSpecificData.entry thread.key key <;> rfl
  | clear => rfl
  | construct key value => rfl
  | destroy context => rfl

/-- A step that keeps its value does to the entries what it does to the latest values. -/
theorem KeepsValue.step {thread : ContextThread} {operation : ContextOperation}
    {earlier : List ContextOperation} (keeps : KeepsValue thread operation)
    (latest : ∀ key, thread.entry key = mostRecent key earlier) (key : LogString) :
    (thread.step operation).2.entry key = mostRecent key (operation :: earlier) := by
  cases operation with
  | ndc operation => exact (NDC.ndc_entry thread operation key).trans (latest key)
  | mdc operation =>
      rw [ContextThread.step, (mdc_after thread operation).1 key]
      have put : ∀ other value,
          (thread.entry other = none ∨ thread.entry other = some value) →
            (if other = key then some ((thread.entry other).getD value) else thread.entry key) =
              if other = key then some value else mostRecent key earlier := by
        rintro other value (absent | same)
        · rw [absent, latest key]
          rfl
        · rw [same, latest key]
          rfl
      cases operation with
      | put other value => exact put other value keeps
      | construct other value => exact put other value keeps
      | get other dest => exact latest key
      | getString other => exact latest key
      | remove other dest =>
          show (if other = key then none else thread.entry key) = _
          rw [latest key]
          rfl
      | removeString other =>
          show (if other = key then none else thread.entry key) = _
          rw [latest key]
          rfl
      | destroy context =>
          show (if context.key = key then none else thread.entry key) = _
          rw [latest key]
          rfl
      | clear => rfl

/-- A put of another value than the present one is not seen by the next lookup. -/
theorem put_unseen {thread : ContextThread} {operation : ContextOperation}
    (replaces : ¬ KeepsValue thread operation) (earlier : List ContextOperation) :
    ∃ key, (thread.step operation).2.entry key ≠ mostRecent key (operation :: earlier) := by
  have put : ∀ other value,
      ¬ (thread.entry other = none ∨ thread.entry other = some value) →
        some ((thread.entry other).getD value) ≠ some value := by
    intro other value different same
    apply different
    cases found : thread.entry other with
    | none => exact Or.inl rfl
    | some old =>
        rw [found, Option.getD_some] at same
        exact Or.inr same
  cases operation with
  | ndc operation => exact absurd trivial replaces
  | mdc operation =>
      cases operation with
      | put other value =>
          refine ⟨other, ?_⟩
          rw [ContextThread.step, (mdc_after thread _).1 other, inserted, mostRecent, if_pos rfl,
            if_pos rfl]
          exact put other value replaces
      | construct other value =>
          refine ⟨other, ?_⟩
          rw [ContextThread.step, (mdc_after thread _).1 other, inserted, mostRecent, if_pos rfl,
            if_pos rfl]
          exact put other value replaces
      | get other dest => exact absurd trivial replaces
      | getString other => exact absurd trivial replaces
      | remove other dest => exact absurd trivial replaces
      | removeString other => exact absurd trivial replaces
      | destroy context => exact absurd trivial replaces
      | clear => exact absurd trivial replaces

/-- Two maps that answer every lookup alike have the same values. -/
theorem answer_injective {first second : LogString → Option LogString}
    (same : ∀ operation, answer first operation = answer second operation) : first = second := by
  funext key
  have removed := same (.remove key [])
  rw [answer, answer, ContextResult.found.injEq] at removed
  obtain ⟨found, value⟩ := removed
  cases there : first key with
  | none =>
      rw [there] at found
      exact (Option.not_isSome_iff_eq_none.mp (by simp [← found])).symm
  | some old =>
      rw [there, Option.isSome_some] at found
      obtain ⟨new, here⟩ := Option.isSome_iff_exists.mp found.symm
      rw [there, here, Option.getD_some, Option.getD_some] at value
      rw [here, value]

/-- The context answers like a map at each point exactly when no put meets another value. -/
theorem answersMostRecent_iff (operations : List ContextOperation) :
    AnswersMostRecent operations ↔ machine.Along KeepsValue operations := by
  constructor
  · intro answers earlier operation later split thread trace ran
    by_contra replaces
    obtain ⟨key, unseen⟩ := put_unseen replaces earlier.reverse
    have next : machine.run (earlier ++ [operation]) =
        some ((thread.step operation).2, trace ++ [(thread.step operation).1]) :=
      Machine.run_concat.mpr ⟨thread, trace, _, ran, rfl, rfl⟩
    have same := answer_injective fun probe =>
      (mdc_answer _ probe).symm.trans (answers (earlier ++ [operation]) later
        (by rw [split, List.append_assoc]; rfl) _ _ next probe)
    apply unseen
    rw [congrFun same key, List.reverse_append]
    rfl
  · intro keeps earlier later split thread trace ran operation
    subst split
    have latest := Machine.run_history machine KeepsValue
      (fun operations thread _ => ∀ key, thread.entry key = mostRecent key operations.reverse)
      (fun _ => rfl)
      (by
        intro earlier before past operation _ _ _ latest keeps stepped
        obtain ⟨rfl, rfl⟩ := Prod.mk.inj (Option.some.inj stepped)
        rw [List.reverse_append]
        exact keeps.step latest)
      ran keeps.of_append
    rw [mdc_answer, funext latest]

/-- A value that is put over another one is not found. -/
theorem overwritten_value_unseen :
    ¬ AnswersMostRecent [.mdc (.put ['k'] ['a']), .mdc (.put ['k'] ['b'])] := by
  intro answers
  have wrong := answers _ [] (List.append_nil _).symm _ _ rfl (.getString ['k'])
  exact absurd wrong (by decide +kernel)

end MDC

end CodeCollect.Log4cxx
