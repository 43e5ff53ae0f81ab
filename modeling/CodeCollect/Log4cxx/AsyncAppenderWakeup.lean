import CodeCollect.Log4cxx.AsyncAppenderSteps

namespace CodeCollect.Log4cxx.AsyncAppender

open CodeCollect.Library

variable {Producer : Type}

theorem Append.signal_ne (call : Append) (event : LoggingEvent) :
    call.signal ≠ .awaiting event false := by
  cases call <;> simp [Append.signal]

theorem Dispatch.signal_ne (phase : Dispatch) : phase.signal ≠ .awaiting false := by
  cases phase <;> simp [Dispatch.signal]

/-- Only a new wait can add a waiting caller. -/
theorem State.setCall_waits [DecidableEq Producer] (self : State Producer)
    (caller other : Caller Producer) (call : Append) (event : LoggingEvent) (moves : call ≠ .awaiting event false)
    (waits : (self.setCall caller call).calls other = .awaiting event false) :
    self.calls other = .awaiting event false := by
  rw [setCall_calls] at waits
  split at waits
  · exact absurd waits moves
  · exact waits

/-- A thread waits without a signal only as long as its condition holds. -/
structure State.NoLostWakeup (state : State Producer) : Prop where
  positive : 1 ≤ state.bufferSize.toInt
  summaries : state.buffer = [] → state.discardMap = ∅
  dispatcher : state.dispatcher = .awaiting false → state.buffer = [] ∧ state.closed = false
  callers : ∀ caller event, state.calls caller = .awaiting event false → state.Full

namespace State.NoLostWakeup

variable {before : State Producer}

/-- A full buffer holds an event, since its bound is at least one. -/
theorem buffer_ne_nil (holds : before.NoLostWakeup) (full : before.Full) : before.buffer ≠ [] := by
  intro empty
  have bound := holds.positive
  rw [State.Full, empty, List.length_nil] at full
  omega

/-- The signal for the dispatcher makes up for every change of the buffer and the flag. -/
theorem signalNotEmpty {after : State Producer} (positive : 1 ≤ after.bufferSize.toInt)
    (summaries : after.buffer = [] → after.discardMap = ∅)
    (callers : ∀ caller event, after.calls caller = .awaiting event false → after.Full) :
    after.signalNotEmpty.NoLostWakeup :=
  ⟨positive, summaries, fun waits => absurd waits (Dispatch.signal_ne _), callers⟩

/-- The signal for the producers makes up for every change of the buffer and its bound. -/
theorem signalNotFull {after : State Producer} (positive : 1 ≤ after.bufferSize.toInt)
    (summaries : after.buffer = [] → after.discardMap = ∅)
    (dispatcher : after.dispatcher = .awaiting false → after.buffer = [] ∧ after.closed = false) :
    after.signalNotFull.NoLostWakeup :=
  ⟨positive, summaries, dispatcher, fun _ event waits => absurd waits (Append.signal_ne _ event)⟩

/-- A change of the dispatcher's phase alone matters only when it starts to wait. -/
theorem phase (holds : before.NoLostWakeup) (next : Dispatch)
    (sleeps : next = .awaiting false → before.buffer = [] ∧ before.closed = false) :
    { before with dispatcher := next }.NoLostWakeup :=
  ⟨holds.positive, holds.summaries, sleeps, holds.callers⟩

theorem create (Producer : Type) : (create Producer).NoLostWakeup := by
  refine ⟨?_, fun _ => rfl, fun waits => absurd waits (by simp [AsyncAppender.create]),
    fun _ _ waits => absurd waits (by simp [AsyncAppender.create])⟩
  change 1 ≤ (128 : Int32).toInt
  decide

variable [DecidableEq Producer]

theorem setCall (holds : before.NoLostWakeup) (caller : Caller Producer) (call : Append)
    (moves : ∀ event, call = .awaiting event false → before.Full) :
    (before.setCall caller call).NoLostWakeup := by
  refine ⟨holds.positive, holds.summaries, holds.dispatcher, ?_⟩
  intro other event waits
  by_cases waiting : call = .awaiting event false
  · exact moves event waiting
  · exact holds.callers other event
      (before.setCall_waits caller other call event waiting waits)

/-- The first event of the buffer wakes the dispatcher, and a later one finds it awake. -/
theorem push (holds : before.NoLostWakeup) (caller : Caller Producer) (event : LoggingEvent)
    (room : ¬ before.Full) : (before.push caller event).NoLostWakeup := by
  have noCaller : ∀ other held, before.calls other ≠ .awaiting held false :=
    fun other held waits => room (holds.callers other held waits)
  have nonempty : before.buffer ++ [event] ≠ [] := by simp
  rw [State.push]
  split
  · apply NoLostWakeup.setCall
    · exact signalNotEmpty holds.positive (fun empty => absurd empty nonempty)
        fun other held waits => absurd waits (noCaller other held)
    · intro held idle
      exact absurd idle (by simp)
  · rename_i filled
    apply NoLostWakeup.setCall
    · refine ⟨holds.positive, fun empty => absurd empty nonempty, ?_,
        fun other held waits => absurd waits (noCaller other held)⟩
      intro waits
      exact absurd (List.length_eq_zero_iff.mpr (holds.dispatcher waits).1) filled
    · intro held idle
      exact absurd idle (by simp)

/-- An event is discarded only beside a full buffer, which the dispatcher will drain. -/
theorem discard (holds : before.NoLostWakeup) (caller : Caller Producer) (event : LoggingEvent)
    (flags : Caller Producer → Bool) (full : before.Full) :
    ({ before with interrupted := flags }.discard caller event).NoLostWakeup := by
  have nonempty := holds.buffer_ne_nil full
  apply NoLostWakeup.setCall
  · exact ⟨holds.positive, fun empty => absurd empty nonempty, holds.dispatcher, holds.callers⟩
  · intro held idle
    exact absurd idle (by simp)

/-- Every step keeps the invariant. -/
theorem step (holds : before.NoLostWakeup) {action : Action Producer} {after : State Producer}
    {seen : List (Observation Producer)} (taken : Step before action after seen) :
    after.NoLostWakeup := by
  cases taken with
  | called idle => exact holds.setCall _ _ (by simp)
  | checked called next =>
      apply holds.setCall
      rcases next with rfl | ⟨rfl, _⟩ <;> simp
  | appended synchronous => exact holds.setCall _ _ (by simp)
  | pushed enters room => exact holds.push _ _ room
  | discarded enters full => exact holds.discard _ _ _ full
  | waited enters full => exact holds.setCall _ _ fun _ _ => full
  | interrupted => exact ⟨holds.positive, holds.summaries, holds.dispatcher, holds.callers⟩
  | started starting => exact holds.phase _ (by simp)
  | slept enters empty unclosed next => exact holds.phase _ fun _ => ⟨empty, unclosed⟩
  | drained enters due =>
      exact signalNotFull holds.positive (fun _ => rfl) fun waits => absurd waits (by simp)
  | delivered delivering => exact holds.phase _ (by simp)
  | threw delivering => exact holds.phase _ (by simp)
  | looped delivering => exact holds.phase _ (by simp)
  | returned delivering => exact holds.phase _ (by simp)
  | ended returned => exact holds.phase _ (by simp)
  | refused => exact holds
  | resized positive => exact signalNotFull positive holds.summaries holds.dispatcher
  | reblocked => exact signalNotFull holds.positive holds.summaries holds.dispatcher
  | closed uncalled =>
      exact signalNotFull holds.positive holds.summaries fun waits =>
        absurd waits (Dispatch.signal_ne _)
  | joined ended => exact ⟨holds.positive, holds.summaries, holds.dispatcher, holds.callers⟩
  | finished joined => exact ⟨holds.positive, holds.summaries, holds.dispatcher, holds.callers⟩

/-- The invariant holds after every run. -/
theorem run {actions : List (Action Producer)} {state : State Producer}
    {trace : List (Observation Producer)}
    (ran : (machine Producer).run actions = some (state, trace)) : state.NoLostWakeup :=
  Machine.run_invariant _ (fun _ _ => True) (fun state _ => state.NoLostWakeup)
    (NoLostWakeup.create Producer)
    (fun before _ action state seen holds _ taken =>
      holds.step (step_cases before state action seen taken))
    ran (Machine.along_of_forall fun _ _ _ => trivial)

end State.NoLostWakeup

variable [DecidableEq Producer]

/-- No waiting thread has missed its signal, whatever the order of the critical sections. -/
theorem run_waits_for_cause (actions : List (Action Producer)) (state : State Producer)
    (trace : List (Observation Producer))
    (ran : (machine Producer).run actions = some (state, trace)) :
    (state.dispatcher = .awaiting false →
      state.buffer = [] ∧ state.discardMap = ∅ ∧ state.closed = false) ∧
    ∀ caller event, state.calls caller = .awaiting event false →
      state.bufferSize.toInt ≤ state.buffer.length ∧ state.dispatcher ≠ .awaiting false := by
  have holds := State.NoLostWakeup.run ran
  constructor
  · intro waits
    obtain ⟨empty, unclosed⟩ := holds.dispatcher waits
    exact ⟨empty, holds.summaries empty, unclosed⟩
  · intro caller event waits
    have full := holds.callers caller event waits
    exact ⟨full, fun sleeps => holds.buffer_ne_nil full (holds.dispatcher sleeps).1⟩

/-- A second event waits for room while the dispatcher has not yet taken the first one. -/
theorem run_waits_for_cause_full :
    ∃ state trace, (machine Unit).run
        [.setBufferSize 1, .dispatcherStart,
          .call (.producer ()) ⟨[], Level.getDebug, ['a']⟩, .checkAlive (.producer ()),
          .enter (.producer ()) false,
          .call (.producer ()) ⟨[], Level.getDebug, ['b']⟩, .checkAlive (.producer ()),
          .enter (.producer ()) false] = some (state, trace) ∧
      state.calls (.producer ()) = .awaiting ⟨[], Level.getDebug, ['b']⟩ false ∧
      state.bufferSize.toInt ≤ state.buffer.length ∧ state.dispatcher ≠ .awaiting false := by
  have waits : ((machine Unit).run
      [.setBufferSize 1, .dispatcherStart,
        .call (.producer ()) ⟨[], Level.getDebug, ['a']⟩, .checkAlive (.producer ()),
        .enter (.producer ()) false,
        .call (.producer ()) ⟨[], Level.getDebug, ['b']⟩, .checkAlive (.producer ()),
        .enter (.producer ()) false]).map (fun reached => reached.1.calls (.producer ())) =
      some (.awaiting ⟨[], Level.getDebug, ['b']⟩ false) := by decide +kernel
  obtain ⟨⟨state, trace⟩, ran, blocked⟩ := Option.map_eq_some_iff.mp waits
  exact ⟨state, trace, ran, blocked, (run_waits_for_cause _ state trace ran).2 _ _ blocked⟩

end CodeCollect.Log4cxx.AsyncAppender
