import CodeCollect.Log4cxx.AsyncAppenderLedger

namespace CodeCollect.Log4cxx.AsyncAppender

open CodeCollect.Library

variable {Producer : Type}

@[simp] theorem Append.pending_signal (call : Append) : call.signal.pending = call.pending := by
  cases call <;> rfl

@[simp] theorem Dispatch.batch_signal (phase : Dispatch) : phase.signal.batch = phase.batch := by
  cases phase <;> rfl

/-- The dispatcher holds no batch when it takes the lock. -/
theorem State.DispatcherEnters.batch {self : State Producer} (enters : self.DispatcherEnters) :
    self.dispatcher.batch = [] := by
  rcases enters with locking | awaiting
  · rw [locking]
    rfl
  · rw [awaiting]
    rfl

theorem State.Enters.pending {self : State Producer} {caller : Caller Producer}
    {event : LoggingEvent} (enters : self.Enters caller event) :
    (self.calls caller).pending = [event] := by
  rcases enters with locking | awaiting
  · rw [locking]
    rfl
  · rw [awaiting]
    rfl

theorem handedOf_concat (trace : List (Observation Producer)) (seen : Observation Producer) :
    handedOf (trace ++ [seen]) = handedOf trace ++ seen.handedEvent.toList := by
  cases found : seen.handedEvent <;> simp [handedOf, found]

variable [DecidableEq Producer]

theorem calledOf_concat (caller : Caller Producer) (trace : List (Observation Producer))
    (seen : Observation Producer) :
    calledOf caller (trace ++ [seen]) = calledOf caller trace ++ (seen.calledBy caller).toList := by
  cases found : seen.calledBy caller <;> simp [calledOf, found]

theorem returnedOf_concat (caller : Caller Producer) (trace : List (Observation Producer))
    (seen : Observation Producer) :
    returnedOf caller (trace ++ [seen]) =
      returnedOf caller trace ++ (seen.returnedBy caller).toList := by
  cases found : seen.returnedBy caller <;> simp [returnedOf, found]

/-- The state and the ledger agree on where each event is. -/
structure Conserved (state : State Producer) (trace : List (Observation Producer)) : Prop where
  calls : ∀ caller,
    calledOf caller trace = returnedOf caller trace ++ (state.calls caller).pending
  delivered : ∃ batches, List.Forall₂ Epoch.Delivers (Ledger.of trace).epochs batches ∧
    handedOf trace ++ state.dispatcher.batch = batches.flatten
  buffer : state.buffer = (Ledger.of trace).current.pushed
  discardMap : state.discardMap.Summarises (Ledger.of trace).current.discarded

/-- An entering call ends when the trace shows its event. -/
theorem State.Enters.calls {before after : State Producer} {past : List (Observation Producer)}
    {caller : Caller Producer} {event : LoggingEvent} {seen : Observation Producer}
    (enters : before.Enters caller event)
    (holds : ∀ caller,
      calledOf caller past = returnedOf caller past ++ (before.calls caller).pending)
    (called : ∀ other, seen.calledBy other = none)
    (returned : ∀ other, seen.returnedBy other = if caller = other then some event else none)
    (moved : ∀ other, after.calls other = if other = caller then .idle else before.calls other)
    (other : Caller Producer) :
    calledOf other (past ++ [seen]) =
      returnedOf other (past ++ [seen]) ++ (after.calls other).pending := by
  rw [calledOf_concat, returnedOf_concat, called, returned, moved, holds other]
  by_cases same : other = caller
  · subst same
    rw [enters.pending]
    simp [Append.pending]
  · simp [same, Ne.symm same]

namespace Conserved

variable {before after : State Producer} {past : List (Observation Producer)}

/-- A step that nobody sees moves no event. -/
theorem silent (holds : Conserved before past)
    (calls : ∀ caller, (after.calls caller).pending = (before.calls caller).pending)
    (batch : after.dispatcher.batch = before.dispatcher.batch)
    (buffer : after.buffer = before.buffer) (discardMap : after.discardMap = before.discardMap) :
    Conserved after (past ++ []) := by
  rw [List.append_nil]
  refine ⟨?_, ?_, buffer.trans holds.buffer, ?_⟩
  · intro caller
    rw [calls]
    exact holds.calls caller
  · rw [batch]
    exact holds.delivered
  · rw [discardMap]
    exact holds.discardMap

/-- A caller goes from one place to another with the same event. -/
theorem move (holds : Conserved before past) (caller : Caller Producer) (call : Append)
    (same : call.pending = (before.calls caller).pending) :
    Conserved (before.setCall caller call) (past ++ []) := by
  refine holds.silent ?_ rfl rfl rfl
  intro other
  rw [State.setCall_calls]
  split
  · rename_i self
    rw [self, same]
  · rfl

/-- What the appenders were given does not change while the dispatcher is elsewhere. -/
theorem undelivered (holds : Conserved before past) {seen : Observation Producer}
    (epochs : ((Ledger.of past).record seen).epochs = (Ledger.of past).epochs)
    (unhanded : seen.handedEvent = none)
    (batch : after.dispatcher.batch = before.dispatcher.batch) :
    ∃ batches, List.Forall₂ Epoch.Delivers (Ledger.of (past ++ [seen])).epochs batches ∧
      handedOf (past ++ [seen]) ++ after.dispatcher.batch = batches.flatten := by
  rw [Ledger.of_concat, epochs, handedOf_concat, unhanded, batch, Option.toList_none,
    List.append_nil]
  exact holds.delivered

/-- A step that only starts or ends calls outside the buffer's lock leaves the ledger alone. -/
theorem noted (holds : Conserved before past) {seen : Observation Producer}
    (ledger : (Ledger.of past).record seen = Ledger.of past)
    (unhanded : seen.handedEvent = none)
    (calls : ∀ caller, calledOf caller (past ++ [seen]) =
      returnedOf caller (past ++ [seen]) ++ (after.calls caller).pending)
    (batch : after.dispatcher.batch = before.dispatcher.batch)
    (buffer : after.buffer = before.buffer) (discardMap : after.discardMap = before.discardMap) :
    Conserved after (past ++ [seen]) := by
  refine ⟨calls, holds.undelivered (by rw [ledger]) unhanded batch, ?_, ?_⟩
  · rw [Ledger.of_concat, ledger, buffer]
    exact holds.buffer
  · rw [Ledger.of_concat, ledger, discardMap]
    exact holds.discardMap

theorem called (holds : Conserved before past) (caller : Caller Producer) (event : LoggingEvent)
    (idle : before.calls caller = .idle) :
    Conserved (before.setCall caller (.called event)) (past ++ [.called caller event]) := by
  refine holds.noted rfl rfl ?_ rfl rfl rfl
  intro other
  rw [calledOf_concat, returnedOf_concat, State.setCall_calls, holds.calls other]
  by_cases same : other = caller
  · subst same
    rw [idle]
    simp [Observation.calledBy, Observation.returnedBy, Append.pending]
  · simp [same, Ne.symm same, Observation.calledBy, Observation.returnedBy]

theorem appended (holds : Conserved before past) (caller : Caller Producer)
    (event : LoggingEvent) (synchronous : before.calls caller = .synchronous event) :
    Conserved (before.setCall caller .idle) (past ++ [.appended caller event]) := by
  refine holds.noted rfl rfl ?_ rfl rfl rfl
  intro other
  rw [calledOf_concat, returnedOf_concat, State.setCall_calls, holds.calls other]
  by_cases same : other = caller
  · subst same
    rw [synchronous]
    simp [Observation.calledBy, Observation.returnedBy, Append.pending]
  · simp [same, Ne.symm same, Observation.calledBy, Observation.returnedBy]

theorem refused (holds : Conserved before past) (message : LogString) :
    Conserved before (past ++ [.illegalArgument message]) := by
  refine holds.noted rfl rfl ?_ rfl rfl rfl
  intro caller
  rw [calledOf_concat, returnedOf_concat, holds.calls caller]
  simp [Observation.calledBy, Observation.returnedBy]

theorem pushed (holds : Conserved before past) (caller : Caller Producer) (event : LoggingEvent)
    (enters : before.Enters caller event) :
    Conserved (before.push caller event) (past ++ [.pushed caller event]) := by
  have batch : (before.push caller event).dispatcher.batch = before.dispatcher.batch := by
    rw [State.push]
    split
    · exact Dispatch.batch_signal _
    · rfl
  have buffer : (before.push caller event).buffer = before.buffer ++ [event] := by
    rw [State.push]
    split <;> rfl
  have discardMap : (before.push caller event).discardMap = before.discardMap := by
    rw [State.push]
    split <;> rfl
  refine ⟨?_, ?_, ?_, ?_⟩
  · apply enters.calls holds.calls (fun _ => rfl) (fun _ => rfl)
    intro other
    rw [State.push, State.setCall_calls]
    split
    · rfl
    · split <;> rfl
  · exact holds.undelivered rfl rfl batch
  · rw [Ledger.of_concat, buffer, holds.buffer]
    rfl
  · rw [Ledger.of_concat, discardMap]
    exact holds.discardMap

theorem discarded (holds : Conserved before past) (caller : Caller Producer)
    (event : LoggingEvent) (flags : Caller Producer → Bool) (enters : before.Enters caller event) :
    Conserved ({ before with interrupted := flags }.discard caller event)
      (past ++ [.discarded caller event]) := by
  refine ⟨?_, ?_, ?_, ?_⟩
  · apply enters.calls holds.calls (fun _ => rfl) (fun _ => rfl)
    intro other
    rw [State.discard, State.setCall_calls]
  · exact holds.undelivered rfl rfl rfl
  · rw [Ledger.of_concat]
    exact holds.buffer
  · rw [Ledger.of_concat]
    exact holds.discardMap.discard event

/-- The drain closes the current epoch, and its batch is what the epoch delivers. -/
theorem drained (holds : Conserved before past) (enters : before.DispatcherEnters) :
    Conserved before.drain (past ++ [.drained]) := by
  obtain ⟨batches, delivers, handed⟩ := holds.delivered
  rw [enters.batch, List.append_nil] at handed
  refine ⟨?_, ?_, ?_, ?_⟩
  · intro caller
    rw [calledOf_concat, returnedOf_concat, holds.calls caller]
    simp [State.drain, State.signalNotFull, Observation.calledBy, Observation.returnedBy]
  · refine ⟨batches ++ [before.buffer ++ before.discardMap.values.map DiscardSummary.createEvent],
      ?_, ?_⟩
    · rw [Ledger.of_concat]
      refine List.rel_append delivers (.cons ⟨before.discardMap, holds.discardMap, ?_⟩ .nil)
      rw [holds.buffer]
    · rw [handedOf_concat, handed]
      simp [State.drain, State.signalNotFull, Dispatch.batch, Observation.handedEvent]
  · rw [Ledger.of_concat]
    rfl
  · rw [Ledger.of_concat]
    exact DiscardMap.summarises_empty

theorem handed (holds : Conserved before past) (event : LoggingEvent) (events : List LoggingEvent)
    (isActive : Bool) (delivering : before.dispatcher = .delivering (event :: events) isActive) :
    Conserved { before with dispatcher := .delivering events isActive }
      (past ++ [.handed event]) := by
  obtain ⟨batches, delivers, handed⟩ := holds.delivered
  refine ⟨?_, ⟨batches, ?_, ?_⟩, ?_, ?_⟩
  · intro caller
    rw [calledOf_concat, returnedOf_concat, holds.calls caller]
    simp [Observation.calledBy, Observation.returnedBy]
  · rw [Ledger.of_concat]
    exact delivers
  · rw [delivering] at handed
    rw [handedOf_concat, ← handed]
    simp [Dispatch.batch, Observation.handedEvent]
  · rw [Ledger.of_concat]
    exact holds.buffer
  · rw [Ledger.of_concat]
    exact holds.discardMap

/-- Every step that hands over without an exception keeps the account. -/
theorem step (holds : Conserved before past) {action : Action Producer}
    {seen : List (Observation Producer)} (calm : action ≠ .deliverThrows)
    (taken : Step before action after seen) : Conserved after (past ++ seen) := by
  cases taken with
  | called idle => exact holds.called _ _ idle
  | checked called next =>
      apply holds.move
      rcases next with rfl | ⟨rfl, _⟩ <;> rw [called] <;> rfl
  | appended synchronous => exact holds.appended _ _ synchronous
  | pushed enters room => exact holds.pushed _ _ enters
  | discarded enters full => exact holds.discarded _ _ _ enters
  | waited enters full =>
      apply holds.move
      rw [enters.pending]
      rfl
  | interrupted => exact holds.silent (fun _ => rfl) rfl rfl rfl
  | started starting => exact holds.silent (fun _ => rfl) (by rw [starting]; rfl) rfl rfl
  | slept enters empty unclosed next =>
      refine holds.silent (fun _ => rfl) ?_ rfl rfl
      rw [enters.batch]
      rcases next with rfl | ⟨rfl, _⟩ <;> rfl
  | drained enters due => exact holds.drained enters
  | delivered delivering => exact holds.handed _ _ _ delivering
  | threw delivering => exact absurd rfl calm
  | looped delivering => exact holds.silent (fun _ => rfl) (by rw [delivering]; rfl) rfl rfl
  | returned delivering => exact holds.silent (fun _ => rfl) (by rw [delivering]; rfl) rfl rfl
  | ended returned => exact holds.silent (fun _ => rfl) (by rw [returned]; rfl) rfl rfl
  | refused => exact holds.refused _
  | resized positive => exact holds.silent (fun _ => Append.pending_signal _) rfl rfl rfl
  | reblocked => exact holds.silent (fun _ => Append.pending_signal _) rfl rfl rfl
  | closed uncalled =>
      exact holds.silent (fun _ => Append.pending_signal _) (Dispatch.batch_signal _) rfl rfl
  | joined ended => exact holds.silent (fun _ => rfl) rfl rfl rfl
  | finished joined => exact holds.silent (fun _ => rfl) rfl rfl rfl

theorem create : Conserved (create Producer) [] :=
  ⟨fun _ => rfl, ⟨[], .nil, rfl⟩, rfl, DiscardMap.summarises_empty⟩

/-- The account is right after every run in which no attached appender throws. -/
theorem run {actions : List (Action Producer)} {state : State Producer}
    {trace : List (Observation Producer)}
    (ran : (machine Producer).run actions = some (state, trace))
    (calm : .deliverThrows ∉ actions) : Conserved state trace :=
  Machine.run_invariant _ (fun _ action => action ≠ .deliverThrows) Conserved Conserved.create
    (fun before _ _ state seen holds calm taken =>
      holds.step calm (step_cases before state _ seen taken))
    ran (Machine.along_of_forall fun _ member _ same => calm (same ▸ member))

end Conserved

/-- These actions are one call of `append` that finds the dispatcher alive. -/
def appendCall (caller : Caller Producer) (event : LoggingEvent) : List (Action Producer) :=
  [.call caller event, .checkAlive caller, .enter caller false]

/-- A call is discarded at once beside a full buffer without blocking. -/
theorem appendCall_discards (state : State Producer) (trace : List (Observation Producer))
    (id : Producer) (event : LoggingEvent) (idle : state.calls (.producer id) = .idle)
    (alive : state.dispatcher.isAlive = true) (positive : ¬ state.bufferSize ≤ 0)
    (full : state.Full) (free : state.blocking = false) :
    (appendCall (.producer id) event).foldlM (machine Producer).advance (state, trace) =
      some ({ state with discardMap := state.discardMap.discard event },
        trace ++ [.called (.producer id) event, .discarded (.producer id) event]) := by
  have room : ¬ (state.buffer.length : Int) < state.bufferSize.toInt := Int.not_lt.mpr full
  have same : Function.update state.calls (.producer id) .idle = state.calls := by
    rw [← idle, Function.update_eq_self]
  simp [appendCall, Machine.advance, machine, State.step, State.append, State.setCall,
    State.discard, idle, alive, positive, room, free, same]

/-- The start of a run in which the buffer is full with one event. -/
def fillBuffer (id : Producer) (event : LoggingEvent) : List (Action Producer) :=
  [.setBufferSize 1, .setBlocking false, .dispatcherStart] ++ appendCall (.producer id) event

theorem fillBuffer_run (event : LoggingEvent) :
    ∃ state trace, (machine Unit).run (fillBuffer () event) = some (state, trace) ∧
      state.calls = (fun _ => .idle) ∧ state.dispatcher = .locking ∧ state.buffer = [event] ∧
      state.discardMap = ∅ ∧ state.bufferSize = 1 ∧ state.blocking = false ∧
      handedOf trace = [] ∧ discardedOf trace = [] := by
  refine ⟨_, _, rfl, ?_, rfl, rfl, rfl, rfl, rfl, rfl, rfl⟩
  funext caller
  rcases caller with _ | ⟨⟨⟩⟩ <;> rfl

/-- Each discarded event adds one to the summary of its logger. -/
theorem discard_repeated (event : LoggingEvent) (n : Nat) :
    (fun map : DiscardMap => map.discard event)^[n + 1] ∅ =
      (∅ : DiscardMap).insert event.loggerName ⟨event, Int32.ofNat (n + 1)⟩ := by
  induction n with
  | zero => rfl
  | succ n ih =>
      rw [Function.iterate_succ_apply', ih, DiscardMap.discard,
        LogMap.insert_get, if_pos rfl]
      simp only [DiscardSummary.add, lt_irrefl, if_false]
      apply Std.ExtTreeMap.ext_getElem?
      intro key
      rw [LogMap.insert_get, LogMap.insert_get, LogMap.insert_get, Int32.ofNat_add (n + 1) 1]
      split <;> rfl

/-- Any number of calls can be discarded before the dispatcher takes the lock. -/
theorem appendCall_repeated (id : Producer) (event : LoggingEvent) (n : Nat)
    (state : State Producer) (trace : List (Observation Producer))
    (idle : state.calls (.producer id) = .idle)
    (alive : state.dispatcher.isAlive = true) (positive : ¬ state.bufferSize ≤ 0)
    (full : state.Full) (free : state.blocking = false) :
    ∃ seen, (List.replicate n (appendCall (.producer id) event)).flatten.foldlM
        (machine Producer).advance (state, trace) =
      some ({ state with
        discardMap := (fun map : DiscardMap => map.discard event)^[n] state.discardMap },
        trace ++ seen) ∧ handedOf seen = [] ∧ discardedOf seen = List.replicate n event := by
  induction n generalizing state trace with
  | zero => exact ⟨[], by simp, rfl, rfl⟩
  | succ n ih =>
      obtain ⟨seen, ran, handed, discarded⟩ := ih
        { state with discardMap := state.discardMap.discard event }
        (trace ++ [.called (.producer id) event, .discarded (.producer id) event])
        idle alive positive full free
      refine ⟨[.called (.producer id) event, .discarded (.producer id) event] ++ seen, ?_, ?_, ?_⟩
      · rw [List.replicate_succ, List.flatten_cons, List.foldlM_append,
          appendCall_discards state trace id event idle alive positive full free]
        refine Eq.trans ran ?_
        rw [Function.iterate_succ_apply, List.append_assoc]
      · rw [handedOf, List.filterMap_append, ← handedOf, ← handedOf, handed]
        rfl
      · rw [discardedOf, List.filterMap_append, ← discardedOf, ← discardedOf, discarded]
        rfl

/-- The dispatcher takes one event and one summary and hands both over. -/
theorem deliver_summary (state : State Producer) (trace : List (Observation Producer))
    (event : LoggingEvent) (name : LogString) (summary : DiscardSummary)
    (idle : state.calls .dispatcher = .idle) (phase : state.dispatcher = .locking)
    (buffer : state.buffer = [event])
    (discardMap : state.discardMap = (∅ : DiscardMap).insert name summary) :
    ∃ last, ([.dispatcherEnter, .deliver, .deliver] : List (Action Producer)).foldlM
        (machine Producer).advance (state, trace) =
      some (last, trace ++ [.drained, .handed event, .handed summary.createEvent]) := by
  have values : ((∅ : DiscardMap).insert name summary).values = [summary] := rfl
  refine ⟨{ state.drain with dispatcher := .delivering [] !state.closed }, ?_⟩
  simp [Machine.advance, machine, State.step, State.dispatch, State.drain, State.signalNotFull,
    Append.signal, phase, buffer, discardMap, idle, values]

/-- One event fills the buffer, more events are discarded, and the dispatcher delivers. -/
def floodBuffer (event : LoggingEvent) (n : Nat) : List (Action Unit) :=
  fillBuffer () event ++ ((List.replicate n (appendCall (.producer ()) event)).flatten ++
    [.dispatcherEnter, .deliver, .deliver])

theorem floodBuffer_run (event : LoggingEvent) (n : Nat) :
    ∃ state trace, (machine Unit).run (floodBuffer event (n + 1)) = some (state, trace) ∧
      discardedOf trace = List.replicate (n + 1) event ∧
      handedOf trace =
        [event, DiscardSummary.createEvent ⟨event, Int32.ofNat (n + 1)⟩] := by
  obtain ⟨start, past, ran, idle, phase, buffer, discardMap, bound, free, handed, discarded⟩ :=
    fillBuffer_run event
  have full : start.Full := by
    rw [State.Full, bound, buffer, List.length_singleton]
    decide
  obtain ⟨seen, flooded, seenHanded, seenDiscarded⟩ := appendCall_repeated () event (n + 1) start
    past (by rw [idle]) (by rw [phase]; rfl) (by rw [bound]; decide) full free
  rw [discardMap, discard_repeated] at flooded
  obtain ⟨last, delivered⟩ := deliver_summary
    { start with discardMap :=
      (∅ : DiscardMap).insert event.loggerName ⟨event, Int32.ofNat (n + 1)⟩ }
    (past ++ seen) event _ _ (by rw [idle]) phase buffer rfl
  have whole : (machine Unit).run (floodBuffer event (n + 1)) = some (last, past ++ seen ++
      [.drained, .handed event, .handed (DiscardSummary.createEvent
        ⟨event, Int32.ofNat (n + 1)⟩)]) := by
    rw [floodBuffer, Machine.run_append, ran, Option.bind_some, List.foldlM_append, flooded]
    exact delivered
  refine ⟨last, _, whole, ?_, ?_⟩
  · rw [discardedOf, List.filterMap_append, List.filterMap_append, ← discardedOf, ← discardedOf,
      discarded, seenDiscarded]
    simp [Observation.discardedEvent]
  · rw [handedOf, List.filterMap_append, List.filterMap_append, ← handedOf, ← handedOf,
      handed, seenHanded]
    rfl

theorem deliverThrows_notMem_floodBuffer (event : LoggingEvent) (n : Nat) :
    .deliverThrows ∉ floodBuffer event n := by
  simp [floodBuffer, fillBuffer, appendCall]

/-- The count of a summary is exact as long as it fits into an `int`. -/
theorem DiscardSummary.count_ofEvents (events : List LoggingEvent) (summary : DiscardSummary)
    (found : DiscardSummary.ofEvents events = some summary) (small : events.length < 2 ^ 31) :
    summary.count.toInt = events.length := by
  obtain ⟨event, _, rfl⟩ := Option.map_eq_some_iff.mp found
  exact Int32.toInt_ofNat_of_lt small

end CodeCollect.Log4cxx.AsyncAppender
