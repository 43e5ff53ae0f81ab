import CodeCollect.Log4cxx.AsyncAppenderConservation
import CodeCollect.Log4cxx.AsyncAppenderWakeup

namespace CodeCollect.Log4cxx.AsyncAppender

open CodeCollect.Library

variable {Producer : Type}

/-- The dispatcher will not take the buffer's lock again. -/
def Dispatch.hasLeft : Dispatch → Bool
  | .delivering _ isActive => !isActive
  | .returned => true
  | .ended => true
  | _ => false

/-- The caller has found the dispatcher alive and its event is not in the buffer yet. -/
def Append.isInside : Append → Bool
  | .locking _ => true
  | .awaiting _ _ => true
  | _ => false

@[simp] theorem Dispatch.hasLeft_signal (phase : Dispatch) :
    phase.signal.hasLeft = phase.hasLeft := by
  cases phase <;> rfl

@[simp] theorem Append.isInside_signal (call : Append) : call.signal.isInside = call.isInside := by
  cases call <;> rfl

theorem State.Enters.isInside {self : State Producer} {caller : Caller Producer}
    {event : LoggingEvent} (enters : self.Enters caller event) :
    (self.calls caller).isInside = true := by
  rcases enters with locking | awaiting
  · rw [locking]
    rfl
  · rw [awaiting]
    rfl

theorem State.DispatcherEnters.hasLeft {self : State Producer} (enters : self.DispatcherEnters) :
    self.dispatcher.hasLeft = false := by
  rcases enters with locking | awaiting
  · rw [locking]
    rfl
  · rw [awaiting]
    rfl

/-- No event is left for a drain that has not happened. -/
def Ledger.Settled (self : Ledger) : Prop :=
  self.current.pushed = [] ∧ self.current.discarded = []

/-- The dispatcher, every call of `append` and the call of `close` have ended. -/
structure State.Complete (state : State Producer) : Prop where
  dispatcher : state.dispatcher = .ended
  closing : state.closing = .finished
  calls : ∀ caller, state.calls caller = .idle

/-- Every pushed event was handed over, and every discarded one was counted in a summary. -/
def AllHanded (trace : List (Observation Producer)) : Prop :=
  ∃ batches, List.Forall₂ Epoch.Delivers (Ledger.of trace).epochs batches ∧
    handedOf trace = batches.flatten ∧
    pushedOf trace = (Ledger.of trace).epochs.flatMap Epoch.pushed ∧
    discardedOf trace = (Ledger.of trace).epochs.flatMap Epoch.discarded

/-- An empty map summarises nothing but the empty list. -/
theorem DiscardMap.Summarises.eq_nil {discarded : List LoggingEvent}
    (holds : DiscardMap.Summarises ∅ discarded) : discarded = [] := by
  cases discarded with
  | nil => rfl
  | cons event rest =>
      have missing := (holds event.loggerName).symm
      rw [LogMap.empty_get, DiscardSummary.ofEvents, Option.map_eq_none_iff, List.argmax_eq_none,
        List.filter_eq_nil_iff] at missing
      exact absurd (missing event (List.mem_cons_self ..)) (by simp)

variable [DecidableEq Producer]

theorem State.push_hasLeft (self : State Producer) (caller : Caller Producer)
    (event : LoggingEvent) :
    (self.push caller event).dispatcher.hasLeft = self.dispatcher.hasLeft := by
  rw [State.push]
  split
  · exact Dispatch.hasLeft_signal _
  · rfl

/-- When nothing is in flight, all events were handed over exactly when the ledger is settled. -/
theorem Conserved.allHanded_iff {state : State Producer} {trace : List (Observation Producer)}
    (holds : Conserved state trace) (ended : state.dispatcher = .ended) :
    AllHanded trace ↔ (Ledger.of trace).Settled := by
  constructor
  · rintro ⟨batches, _, _, pushed, discarded⟩
    rw [pushedOf_eq, List.append_right_eq_self] at pushed
    rw [discardedOf_eq, List.append_right_eq_self] at discarded
    exact ⟨pushed, discarded⟩
  · rintro ⟨pushed, discarded⟩
    obtain ⟨batches, delivers, handed⟩ := holds.delivered
    refine ⟨batches, delivers, ?_, ?_, ?_⟩
    · rw [← handed, ended]
      exact (List.append_nil _).symm
    · rw [pushedOf_eq, pushed, List.append_nil]
    · rw [discardedOf_eq, discarded, List.append_nil]

/-- No call of `append` enters its critical section after the dispatcher has left its loop. -/
def Punctual (actions : List (Action Producer)) : Prop :=
  (machine Producer).Along
    (fun state action => ∀ caller late, action = .enter caller late →
      state.dispatcher.hasLeft = false) actions

/-- This is what a run knows when all its calls were punctual. -/
structure Tidy (state : State Producer) (trace : List (Observation Producer)) : Prop where
  conserved : Conserved state trace
  wakeup : state.NoLostWakeup
  settled : state.dispatcher.hasLeft = true → (Ledger.of trace).Settled

theorem Tidy.step {before after : State Producer} {past seen : List (Observation Producer)}
    {action : Action Producer} (holds : Tidy before past) (calm : action ≠ .deliverThrows)
    (punctual : ∀ caller late, action = .enter caller late → before.dispatcher.hasLeft = false)
    (taken : Step before action after seen) : Tidy after (past ++ seen) := by
  refine ⟨holds.conserved.step calm taken, holds.wakeup.step taken, ?_⟩
  have kept := holds.settled
  cases taken with
  | pushed enters room =>
      intro left
      rw [State.push_hasLeft, punctual _ _ rfl] at left
      exact absurd left (by simp)
  | discarded enters full =>
      intro left
      exact absurd ((punctual _ _ rfl).symm.trans left) (by simp)
  | drained enters due =>
      intro _
      rw [Ledger.of_concat]
      exact ⟨rfl, rfl⟩
  | slept enters empty unclosed next =>
      -- An interrupted dispatcher leaves nothing behind, because its buffer was empty.
      intro _
      rw [List.append_nil]
      refine ⟨holds.conserved.buffer.symm.trans empty, ?_⟩
      have summaries := holds.conserved.discardMap
      rw [holds.wakeup.summaries empty] at summaries
      exact summaries.eq_nil
  | delivered delivering =>
      intro left
      rw [Ledger.of_concat]
      exact kept (by rw [delivering]; exact left)
  | threw delivering => exact absurd rfl calm
  | returned delivering =>
      intro _
      rw [List.append_nil]
      exact kept (by rw [delivering]; rfl)
  | ended returned =>
      intro _
      rw [List.append_nil]
      exact kept (by rw [returned]; rfl)
  | started starting => exact fun left => absurd left (by simp [Dispatch.hasLeft])
  | looped delivering => exact fun left => absurd left (by simp [Dispatch.hasLeft])
  | closed uncalled =>
      intro left
      rw [List.append_nil]
      exact kept ((Dispatch.hasLeft_signal _).symm.trans left)
  | called idle =>
      rw [Ledger.of_concat]
      exact kept
  | appended synchronous =>
      rw [Ledger.of_concat]
      exact kept
  | refused =>
      rw [Ledger.of_concat]
      exact kept
  | checked | waited | interrupted | resized | reblocked | joined | finished =>
      rw [List.append_nil]
      exact kept

/-- An event is in the buffer, or will be, and nobody will take it out. -/
structure Belated (state : State Producer) (trace : List (Observation Producer)) : Prop where
  left : state.dispatcher.hasLeft = true
  waits : ¬ (Ledger.of trace).Settled ∨ ∃ caller, (state.calls caller).isInside = true

namespace Belated

variable {before : State Producer} {past : List (Observation Producer)}

/-- A call that is inside stays there when another call moves. -/
theorem move (holds : Belated before past) (caller : Caller Producer) (call : Append)
    (outside : (before.calls caller).isInside = false) {trace : List (Observation Producer)}
    (same : Ledger.of trace = Ledger.of past) : Belated (before.setCall caller call) trace := by
  refine ⟨holds.left, ?_⟩
  rw [same]
  refine holds.waits.imp_right ?_
  rintro ⟨other, inside⟩
  refine ⟨other, ?_⟩
  rw [State.setCall_calls, if_neg]
  · exact inside
  · intro same
    rw [same, outside] at inside
    exact absurd inside (by simp)

/-- Nobody drains any more, so each pass of the loop ends with an event that stays or waits. -/
theorem step {after : State Producer} {seen : List (Observation Producer)}
    {action : Action Producer} (holds : Belated before past)
    (taken : Step before action after seen) : Belated after (past ++ seen) := by
  have left := holds.left
  cases taken with
  | called idle => exact holds.move _ _ (by rw [idle]; rfl) (by rw [Ledger.of_concat]; rfl)
  | checked called next => exact holds.move _ _ (by rw [called]; rfl) (by rw [List.append_nil])
  | appended synchronous =>
      exact holds.move _ _ (by rw [synchronous]; rfl) (by rw [Ledger.of_concat]; rfl)
  | pushed enters room =>
      refine ⟨(State.push_hasLeft _ _ _).trans left, Or.inl ?_⟩
      rw [Ledger.of_concat]
      exact fun settled => absurd settled.1 (by simp [Ledger.record])
  | discarded enters full =>
      refine ⟨left, Or.inl ?_⟩
      rw [Ledger.of_concat]
      exact fun settled => absurd settled.2 (by simp [Ledger.record])
  | waited enters full =>
      rename_i caller event late
      refine ⟨left, Or.inr ⟨caller, ?_⟩⟩
      rw [State.setCall_calls, if_pos rfl]
      rfl
  | started starting => exact absurd left (by rw [starting]; simp [Dispatch.hasLeft])
  | slept enters empty unclosed next => exact absurd left (by rw [enters.hasLeft]; simp)
  | drained enters due => exact absurd left (by rw [enters.hasLeft]; simp)
  | delivered delivering =>
      rw [delivering] at left
      exact ⟨left, by rw [Ledger.of_concat]; exact holds.waits⟩
  | threw delivering => exact ⟨rfl, by rw [List.append_nil]; exact holds.waits⟩
  | looped delivering => exact absurd left (by rw [delivering]; simp [Dispatch.hasLeft])
  | returned delivering => exact ⟨rfl, by rw [List.append_nil]; exact holds.waits⟩
  | ended returned => exact ⟨rfl, by rw [List.append_nil]; exact holds.waits⟩
  | refused => exact ⟨left, by rw [Ledger.of_concat]; exact holds.waits⟩
  | interrupted | joined | finished => exact ⟨left, by rw [List.append_nil]; exact holds.waits⟩
  | resized | reblocked =>
      refine ⟨left, ?_⟩
      rw [List.append_nil]
      exact holds.waits.imp_right (Exists.imp fun _ inside =>
        (Append.isInside_signal _).trans inside)
  | closed uncalled =>
      refine ⟨(Dispatch.hasLeft_signal _).trans left, ?_⟩
      rw [List.append_nil]
      exact holds.waits.imp_right (Exists.imp fun _ inside =>
        (Append.isInside_signal _).trans inside)

end Belated

/-- A punctual run leaves a settled ledger behind. -/
theorem Tidy.run {actions : List (Action Producer)} {state : State Producer}
    {trace : List (Observation Producer)}
    (ran : (machine Producer).run actions = some (state, trace))
    (calm : .deliverThrows ∉ actions) (punctual : Punctual actions) : Tidy state trace := by
  apply Machine.run_invariant _ (fun before action => action ≠ .deliverThrows ∧
      ∀ caller late, action = .enter caller late → before.dispatcher.hasLeft = false) Tidy
    ⟨Conserved.create, State.NoLostWakeup.create Producer, fun left => absurd left (by simp [machine, create, Dispatch.hasLeft])⟩
    (fun before _ _ state seen holds good taken =>
      holds.step good.1 good.2 (step_cases before state _ seen taken)) ran
  intro earlier action later split before past reached
  refine ⟨?_, punctual earlier action later split before past reached⟩
  rintro rfl
  exact calm (by simp [split])

/-- A call that enters too late makes the rest of the run belated. -/
theorem Belated.run {earlier later : List (Action Producer)} {caller : Caller Producer}
    {late : Bool} {state before : State Producer} {trace past : List (Observation Producer)}
    (ran : (machine Producer).run (earlier ++ .enter caller late :: later) = some (state, trace))
    (reached : (machine Producer).run earlier = some (before, past))
    (left : before.dispatcher.hasLeft = true) : Belated state trace := by
  rw [Machine.run_append, reached, Option.bind_some] at ran
  apply Machine.rest_invariant Belated
    (fun before _ _ state seen holds taken =>
      holds.step (step_cases before state _ seen taken)) _ ran
  refine ⟨left, Or.inr ⟨caller, ?_⟩⟩
  rw [List.foldlM_cons] at ran
  obtain ⟨_, taken, _⟩ := Option.bind_eq_some_iff.mp ran
  obtain ⟨⟨next, seen⟩, stepped, _⟩ := Option.map_eq_some_iff.mp taken
  cases step_cases before next (.enter caller late) seen stepped with
  | pushed enters room => exact enters.isInside
  | discarded enters full => exact enters.isInside
  | waited enters full => exact enters.isInside

/-- Shutdown loses no event exactly when no call enters after the dispatcher has left. -/
theorem run_hands_over_iff (actions : List (Action Producer)) (state : State Producer)
    (trace : List (Observation Producer))
    (ran : (machine Producer).run actions = some (state, trace))
    (calm : .deliverThrows ∉ actions) (complete : state.Complete) :
    AllHanded trace ↔ Punctual actions := by
  rw [(Conserved.run ran calm).allHanded_iff complete.dispatcher]
  constructor
  · intro settled earlier action later split before past reached caller late same
    subst same
    subst split
    by_contra left
    rw [Bool.not_eq_false] at left
    obtain unsettled | ⟨other, inside⟩ := (Belated.run ran reached left).waits
    · exact unsettled settled
    · rw [complete.calls other] at inside
      exact absurd inside (by simp [Append.isInside])
  · intro punctual
    apply (Tidy.run ran calm punctual).settled
    rw [complete.dispatcher]
    rfl

/-- The event is in the buffer before `close` wakes the dispatcher for its last drain. -/
def punctualShutdown : List (Action Unit) :=
  [.dispatcherStart, .call (.producer ()) ⟨[], Level.getDebug, ['m']⟩,
    .checkAlive (.producer ()), .enter (.producer ()) false, .close, .dispatcherEnter,
    .deliver, .dispatcherNext, .dispatcherEnd, .joinReturns, .closeAppenders]

theorem run_hands_over_punctual :
    ∃ state trace, (machine Unit).run punctualShutdown = some (state, trace) ∧ state.Complete ∧
      (AllHanded trace ↔ Punctual punctualShutdown) := by
  have ends : ((machine Unit).run punctualShutdown).map (fun reached =>
      (reached.1.dispatcher, reached.1.closing, reached.1.calls .dispatcher,
        reached.1.calls (.producer ()))) = some (.ended, .finished, .idle, .idle) := by
    decide +kernel
  obtain ⟨⟨state, trace⟩, ran, same⟩ := Option.map_eq_some_iff.mp ends
  simp only [Prod.mk.injEq] at same
  have complete : state.Complete := by
    refine ⟨same.1, same.2.1, ?_⟩
    rintro (_ | ⟨⟨⟩⟩)
    · exact same.2.2.1
    · exact same.2.2.2
  exact ⟨state, trace, ran, complete, run_hands_over_iff _ state trace ran (by decide) complete⟩

/-- The call finds the dispatcher alive and pushes its event after the last drain. -/
def belatedShutdown : List (Action Unit) :=
  [.dispatcherStart, .call (.producer ()) ⟨[], Level.getDebug, ['m']⟩,
    .checkAlive (.producer ()), .close, .dispatcherEnter, .dispatcherNext,
    .dispatcherEnd, .joinReturns, .closeAppenders, .enter (.producer ()) false]

/-- The append returned normally, and nobody will ever take its event out of the buffer. -/
theorem run_loses_event :
    ∃ state trace, (machine Unit).run belatedShutdown = some (state, trace) ∧
      .deliverThrows ∉ belatedShutdown ∧ state.Complete ∧ ¬ AllHanded trace := by
  have ends : ((machine Unit).run belatedShutdown).map (fun reached =>
      (reached.1.dispatcher, reached.1.closing, reached.1.calls .dispatcher,
        reached.1.calls (.producer ()))) = some (.ended, .finished, .idle, .idle) := by
    decide +kernel
  have shown : ((machine Unit).run belatedShutdown).map (fun reached =>
      (pushedOf reached.2, (Ledger.of reached.2).epochs.flatMap Epoch.pushed)) =
        some ([⟨[], Level.getDebug, ['m']⟩], []) := by
    decide +kernel
  obtain ⟨⟨state, trace⟩, ran, same⟩ := Option.map_eq_some_iff.mp ends
  rw [ran, Option.map_some, Option.some.injEq, Prod.mk.injEq] at shown
  simp only [Prod.mk.injEq] at same
  refine ⟨state, trace, ran, by decide, ⟨same.1, same.2.1, ?_⟩, ?_⟩
  · rintro (_ | ⟨⟨⟩⟩)
    · exact same.2.2.1
    · exact same.2.2.2
  · rintro ⟨batches, _, _, all, _⟩
    rw [shown.1, shown.2] at all
    exact List.cons_ne_nil _ _ all

end CodeCollect.Log4cxx.AsyncAppender
