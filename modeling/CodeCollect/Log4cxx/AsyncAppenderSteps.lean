import CodeCollect.Log4cxx.AsyncAppender

namespace CodeCollect.Log4cxx.AsyncAppender

open CodeCollect.Library

variable {Producer : Type} [DecidableEq Producer]

theorem State.setCall_calls (self : State Producer) (caller other : Caller Producer)
    (call : Append) :
    (self.setCall caller call).calls other = if other = caller then call else self.calls other :=
  Function.update_apply ..

/-- The caller may run one pass of the loop in `append`. -/
def State.Enters (self : State Producer) (caller : Caller Producer) (event : LoggingEvent) : Prop :=
  self.calls caller = .locking event ∨ self.calls caller = .awaiting event true

/-- The buffer is full, as the loop in `append` tests it. -/
def State.Full (self : State Producer) : Prop :=
  self.bufferSize.toInt ≤ self.buffer.length

/-- The dispatcher may take the buffer's lock. -/
def State.DispatcherEnters (self : State Producer) : Prop :=
  self.dispatcher = .locking ∨ self.dispatcher = .awaiting true

/-- These are all the effects that a step can have. -/
inductive Step (before : State Producer) :
    Action Producer → State Producer → List (Observation Producer) → Prop where
  | called {caller : Caller Producer} {event : LoggingEvent} (idle : before.calls caller = .idle) :
      Step before (.call caller event) (before.setCall caller (.called event))
        [.called caller event]
  | checked {caller : Caller Producer} {event : LoggingEvent} {call : Append}
      (called : before.calls caller = .called event)
      (next : call = .synchronous event ∨ call = .locking event ∧ before.dispatcher.isAlive) :
      Step before (.checkAlive caller) (before.setCall caller call) []
  | appended {caller : Caller Producer} {event : LoggingEvent}
      (synchronous : before.calls caller = .synchronous event) :
      Step before (.appendLoop caller) (before.setCall caller .idle) [.appended caller event]
  | pushed {caller : Caller Producer} {event : LoggingEvent} {late : Bool}
      (enters : before.Enters caller event) (room : ¬ before.Full) :
      Step before (.enter caller late) (before.push caller event) [.pushed caller event]
  | discarded {caller : Caller Producer} {event : LoggingEvent} {late : Bool}
      {flags : Caller Producer → Bool} (enters : before.Enters caller event)
      (full : before.Full) :
      Step before (.enter caller late) ({ before with interrupted := flags }.discard caller event)
        [.discarded caller event]
  | waited {caller : Caller Producer} {event : LoggingEvent} {late : Bool}
      (enters : before.Enters caller event) (full : before.Full) :
      Step before (.enter caller late) (before.setCall caller (.awaiting event false)) []
  | interrupted {caller : Caller Producer} :
      Step before (.interrupt caller) (before.setInterrupted caller true) []
  | started (starting : before.dispatcher = .starting) :
      Step before .dispatcherStart { before with dispatcher := .locking } []
  | slept (enters : before.DispatcherEnters) (empty : before.buffer = [])
      (unclosed : before.closed = false) {phase : Dispatch}
      (next : phase = .awaiting false ∨
        phase = .returned ∧ before.interrupted .dispatcher = true) :
      Step before .dispatcherEnter { before with dispatcher := phase } []
  | drained (enters : before.DispatcherEnters)
      (due : before.buffer ≠ [] ∨ before.closed = true) :
      Step before .dispatcherEnter before.drain [.drained]
  | delivered {event : LoggingEvent} {events : List LoggingEvent} {isActive : Bool}
      (delivering : before.dispatcher = .delivering (event :: events) isActive) :
      Step before .deliver { before with dispatcher := .delivering events isActive }
        [.handed event]
  | threw {events : List LoggingEvent} {isActive : Bool}
      (delivering : before.dispatcher = .delivering events isActive) :
      Step before .deliverThrows { before with dispatcher := .returned } []
  | looped (delivering : before.dispatcher = .delivering [] true) :
      Step before .dispatcherNext { before with dispatcher := .locking } []
  | returned (delivering : before.dispatcher = .delivering [] false) :
      Step before .dispatcherNext { before with dispatcher := .returned } []
  | ended (returned : before.dispatcher = .returned) :
      Step before .dispatcherEnd { before with dispatcher := .ended } []
  | refused {size : Int32} {message : LogString} :
      Step before (.setBufferSize size) before [.illegalArgument message]
  | resized {size bound : Int32} (positive : 1 ≤ bound.toInt) :
      Step before (.setBufferSize size) { before with bufferSize := bound }.signalNotFull []
  | reblocked {value : Bool} :
      Step before (.setBlocking value) { before with blocking := value }.signalNotFull []
  | closed (uncalled : before.closing = .uncalled) :
      Step before .close
        { before with closed := true, closing := .joining }.signalNotEmpty.signalNotFull []
  | joined (ended : before.dispatcher = .ended) :
      Step before .joinReturns { before with closing := .joined } []
  | finished (joined : before.closing = .joined) :
      Step before .closeAppenders { before with closing := .finished } []

theorem setBufferSize_bound (size : Int32) : 1 ≤ (if size < 1 then (1 : Int32) else size).toInt := by
  split
  · decide
  · rename_i large
    rw [Int32.lt_iff_toInt_lt, Int.not_lt] at large
    exact large

/-- One pass of the loop pushes, discards or waits. -/
theorem append_step (before : State Producer) (caller : Caller Producer) (event : LoggingEvent)
    (late : Bool) (enters : before.Enters caller event) (after : State Producer)
    (seen : List (Observation Producer)) (taken : before.append caller event late = (after, seen)) :
    Step before (.enter caller late) after seen := by
  rw [State.append] at taken
  split at taken
  · rename_i room
    obtain ⟨rfl, rfl⟩ := Prod.mk.inj taken
    exact .pushed enters (Int.not_le.mpr room)
  · rename_i full
    have full : before.Full := Int.not_lt.mp full
    split at taken
    · split at taken
      · obtain ⟨rfl, rfl⟩ := Prod.mk.inj taken
        exact .discarded enters full
      · split at taken
        · obtain ⟨rfl, rfl⟩ := Prod.mk.inj taken
          exact .discarded enters full
        · split at taken
          · obtain ⟨rfl, rfl⟩ := Prod.mk.inj taken
            exact .discarded enters full
          · obtain ⟨rfl, rfl⟩ := Prod.mk.inj taken
            exact .waited enters full
    · obtain ⟨rfl, rfl⟩ := Prod.mk.inj taken
      exact .discarded enters full

theorem dispatch_step (before : State Producer) (enters : before.DispatcherEnters)
    (after : State Producer) (seen : List (Observation Producer))
    (taken : before.dispatch = (after, seen)) : Step before .dispatcherEnter after seen := by
  rw [State.dispatch] at taken
  split at taken
  · rename_i idle
    have empty := List.length_eq_zero_iff.mp idle.1
    split at taken
    · rename_i interrupted
      obtain ⟨rfl, rfl⟩ := Prod.mk.inj taken
      exact .slept enters empty idle.2 (Or.inr ⟨rfl, interrupted⟩)
    · obtain ⟨rfl, rfl⟩ := Prod.mk.inj taken
      exact .slept enters empty idle.2 (Or.inl rfl)
  · rename_i due
    obtain ⟨rfl, rfl⟩ := Prod.mk.inj taken
    rw [not_and_or, List.length_eq_zero_iff, Bool.not_eq_false] at due
    exact .drained enters due

/-- Every step of the machine has one of the listed effects. -/
theorem step_cases (before after : State Producer) (action : Action Producer)
    (seen : List (Observation Producer)) (taken : before.step action = some (after, seen)) :
    Step before action after seen := by
  cases action with
  | call caller event =>
      simp only [State.step, Option.ite_none_right_eq_some, Option.some.injEq,
        Prod.mk.injEq] at taken
      obtain ⟨⟨idle, _⟩, rfl, rfl⟩ := taken
      exact .called idle
  | checkAlive caller =>
      simp only [State.step] at taken
      split at taken
      · rename_i event called
        split at taken
        · obtain ⟨rfl, rfl⟩ := Prod.mk.inj (Option.some.inj taken)
          exact .checked called (Or.inl rfl)
        · rename_i alive
          obtain ⟨rfl, rfl⟩ := Prod.mk.inj (Option.some.inj taken)
          simp only [Bool.or_eq_true, Bool.not_eq_true', not_or, Bool.not_eq_false] at alive
          exact .checked called (Or.inr ⟨rfl, alive.1⟩)
      · exact absurd taken (by simp)
  | appendLoop caller =>
      simp only [State.step] at taken
      split at taken
      · rename_i event synchronous
        obtain ⟨rfl, rfl⟩ := Prod.mk.inj (Option.some.inj taken)
        exact .appended synchronous
      · exact absurd taken (by simp)
  | enter caller late =>
      simp only [State.step] at taken
      split at taken
      · rename_i event locking
        exact append_step before caller event late (Or.inl locking) after seen
          (Option.some.inj taken)
      · rename_i event awaiting
        exact append_step before caller event late (Or.inr awaiting) after seen
          (Option.some.inj taken)
      · exact absurd taken (by simp)
  | interrupt caller =>
      obtain ⟨rfl, rfl⟩ := Prod.mk.inj (Option.some.inj taken)
      exact .interrupted
  | dispatcherStart =>
      simp only [State.step, Option.ite_none_right_eq_some, Option.some.injEq,
        Prod.mk.injEq] at taken
      obtain ⟨starting, rfl, rfl⟩ := taken
      exact .started starting
  | dispatcherEnter =>
      simp only [State.step, Option.ite_none_right_eq_some, Option.some.injEq] at taken
      exact dispatch_step before taken.1 after seen taken.2
  | deliver =>
      simp only [State.step] at taken
      split at taken
      · rename_i event events isActive delivering _
        obtain ⟨rfl, rfl⟩ := Prod.mk.inj (Option.some.inj taken)
        exact .delivered delivering
      · exact absurd taken (by simp)
  | deliverThrows =>
      simp only [State.step] at taken
      split at taken
      · rename_i event events isActive delivering _
        obtain ⟨rfl, rfl⟩ := Prod.mk.inj (Option.some.inj taken)
        exact .threw delivering
      · exact absurd taken (by simp)
  | dispatcherNext =>
      simp only [State.step] at taken
      split at taken
      · rename_i delivering
        obtain ⟨rfl, rfl⟩ := Prod.mk.inj (Option.some.inj taken)
        exact .looped delivering
      · rename_i delivering
        obtain ⟨rfl, rfl⟩ := Prod.mk.inj (Option.some.inj taken)
        exact .returned delivering
      · exact absurd taken (by simp)
  | dispatcherEnd =>
      simp only [State.step, Option.ite_none_right_eq_some, Option.some.injEq,
        Prod.mk.injEq] at taken
      obtain ⟨returned, rfl, rfl⟩ := taken
      exact .ended returned
  | setBufferSize size =>
      simp only [State.step] at taken
      split at taken
      · obtain ⟨rfl, rfl⟩ := Prod.mk.inj (Option.some.inj taken)
        exact .refused
      · obtain ⟨rfl, rfl⟩ := Prod.mk.inj (Option.some.inj taken)
        exact .resized (setBufferSize_bound size)
  | setBlocking value =>
      obtain ⟨rfl, rfl⟩ := Prod.mk.inj (Option.some.inj taken)
      exact .reblocked
  | close =>
      simp only [State.step, Option.ite_none_right_eq_some, Option.some.injEq,
        Prod.mk.injEq] at taken
      obtain ⟨uncalled, rfl, rfl⟩ := taken
      exact .closed uncalled
  | joinReturns =>
      simp only [State.step, Option.ite_none_right_eq_some, Option.some.injEq,
        Prod.mk.injEq] at taken
      obtain ⟨⟨_, ended⟩, rfl, rfl⟩ := taken
      exact .joined ended
  | closeAppenders =>
      simp only [State.step, Option.ite_none_right_eq_some, Option.some.injEq,
        Prod.mk.injEq] at taken
      obtain ⟨joined, rfl, rfl⟩ := taken
      exact .finished joined

end CodeCollect.Log4cxx.AsyncAppender
