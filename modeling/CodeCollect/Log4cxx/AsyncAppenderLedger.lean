import CodeCollect.Log4cxx.AsyncAppenderSteps

namespace CodeCollect.Log4cxx.AsyncAppender

open CodeCollect.Library

/-- These events were taken in between two drains, in their order. -/
structure Epoch where
  pushed : List LoggingEvent
  discarded : List LoggingEvent

def Epoch.empty : Epoch := ⟨[], []⟩

/-- A ledger says what the appender owes to the attached appenders. -/
structure Ledger where
  epochs : List Epoch
  current : Epoch

namespace Ledger

variable {Producer : Type}

def empty : Ledger := ⟨[], Epoch.empty⟩

def record (self : Ledger) : Observation Producer → Ledger
  | .pushed _ event =>
      { self with current := { self.current with pushed := self.current.pushed ++ [event] } }
  | .discarded _ event =>
      { self with current := { self.current with discarded := self.current.discarded ++ [event] } }
  | .drained => ⟨self.epochs ++ [self.current], Epoch.empty⟩
  | _ => self

/-- The ledger depends on what was seen and not on the state of the appender. -/
def of (trace : List (Observation Producer)) : Ledger :=
  trace.foldl record empty

@[simp] theorem of_nil : of ([] : List (Observation Producer)) = empty := rfl

@[simp] theorem of_concat (trace : List (Observation Producer)) (seen : Observation Producer) :
    of (trace ++ [seen]) = (of trace).record seen := by
  rw [of, List.foldl_append]
  rfl

end Ledger

section Trace

variable {Producer : Type}

def Observation.pushedEvent : Observation Producer → Option LoggingEvent
  | .pushed _ event => some event
  | _ => none

def Observation.discardedEvent : Observation Producer → Option LoggingEvent
  | .discarded _ event => some event
  | _ => none

def Observation.handedEvent : Observation Producer → Option LoggingEvent
  | .handed event => some event
  | _ => none

/-- These events were put into the buffer. -/
def pushedOf (trace : List (Observation Producer)) : List LoggingEvent :=
  trace.filterMap Observation.pushedEvent

/-- These events were counted in a summary. -/
def discardedOf (trace : List (Observation Producer)) : List LoggingEvent :=
  trace.filterMap Observation.discardedEvent

/-- The dispatcher gave these events to the attached appenders. -/
def handedOf (trace : List (Observation Producer)) : List LoggingEvent :=
  trace.filterMap Observation.handedEvent

/-- The epochs of a ledger hold every pushed event once and in order. -/
theorem pushedOf_eq (trace : List (Observation Producer)) :
    pushedOf trace = (Ledger.of trace).epochs.flatMap Epoch.pushed ++
      (Ledger.of trace).current.pushed := by
  induction trace using List.reverseRecOn with
  | nil => rfl
  | append_singleton trace seen ih =>
      rw [pushedOf, List.filterMap_append, ← pushedOf, ih, Ledger.of_concat]
      cases seen <;> simp [Ledger.record, Observation.pushedEvent, Epoch.empty]

/-- The epochs of a ledger hold every discarded event once and in order. -/
theorem discardedOf_eq (trace : List (Observation Producer)) :
    discardedOf trace = (Ledger.of trace).epochs.flatMap Epoch.discarded ++
      (Ledger.of trace).current.discarded := by
  induction trace using List.reverseRecOn with
  | nil => rfl
  | append_singleton trace seen ih =>
      rw [discardedOf, List.filterMap_append, ← discardedOf, ih, Ledger.of_concat]
      cases seen <;> simp [Ledger.record, Observation.discardedEvent, Epoch.empty]

variable [DecidableEq Producer]

def Observation.calledBy (caller : Caller Producer) : Observation Producer → Option LoggingEvent
  | .called by' event => if by' = caller then some event else none
  | _ => none

def Observation.returnedBy (caller : Caller Producer) : Observation Producer → Option LoggingEvent
  | .appended by' event => if by' = caller then some event else none
  | .pushed by' event => if by' = caller then some event else none
  | .discarded by' event => if by' = caller then some event else none
  | _ => none

/-- The caller started `append` for these events. -/
def calledOf (caller : Caller Producer) (trace : List (Observation Producer)) :
    List LoggingEvent :=
  trace.filterMap (Observation.calledBy caller)

/-- The calls of `append` by this caller ended for these events, each in one way. -/
def returnedOf (caller : Caller Producer) (trace : List (Observation Producer)) :
    List LoggingEvent :=
  trace.filterMap (Observation.returnedBy caller)

end Trace

namespace DiscardSummary

/-- This summary counts the events as an `int` and shows the first one of maximal level. -/
noncomputable def ofEvents (events : List LoggingEvent) : Option DiscardSummary :=
  (events.argmax fun event => event.level.toInt).map fun event =>
    ⟨event, Int32.ofNat events.length⟩

/-- The summary after one more event depends only on the summary before it. -/
theorem ofEvents_concat (events : List LoggingEvent) (event : LoggingEvent) :
    ofEvents (events ++ [event]) =
      match ofEvents events with
      | none => some (create event)
      | some summary => some (summary.add event) := by
  rw [ofEvents, ofEvents, List.argmax_concat]
  cases found : events.argmax fun event => event.level.toInt with
  | none =>
      rw [List.argmax_eq_none] at found
      simp [found, create]
  | some first =>
      simp only [Option.map_some, add, gt_iff_lt, List.length_append, List.length_singleton,
        Int32.ofNat_add]
      split <;> rfl

end DiscardSummary

/-- The map holds one summary for each logger that lost events. -/
def DiscardMap.Summarises (self : DiscardMap) (discarded : List LoggingEvent) : Prop :=
  ∀ name, self[name]? =
    DiscardSummary.ofEvents (discarded.filter fun event => event.loggerName = name)

theorem DiscardMap.summarises_empty : DiscardMap.Summarises ∅ [] := by
  intro name
  rw [LogMap.empty_get]
  rfl

theorem DiscardMap.Summarises.discard {map : DiscardMap} {discarded : List LoggingEvent}
    (holds : map.Summarises discarded) (event : LoggingEvent) :
    (map.discard event).Summarises (discarded ++ [event]) := by
  intro name
  have own := holds event.loggerName
  rw [List.filter_append]
  by_cases same : event.loggerName = name
  · subst same
    simp only [decide_true, List.filter_cons_of_pos, List.filter_nil]
    rw [DiscardSummary.ofEvents_concat, ← own, DiscardMap.discard]
    cases found : map[event.loggerName]? <;> simp only [LogMap.insert_get, if_pos]
  · simp only [same, decide_false, Bool.false_eq_true, not_false_eq_true,
      List.filter_cons_of_neg, List.filter_nil, List.append_nil]
    rw [← holds name, DiscardMap.discard]
    split <;> simp only [LogMap.insert_get, if_neg same]

/-- The appenders get the events of an epoch in their order and then the summaries. -/
def Epoch.Delivers (self : Epoch) (batch : List LoggingEvent) : Prop :=
  ∃ summaries : DiscardMap, summaries.Summarises self.discarded ∧
    batch = self.pushed ++ summaries.values.map DiscardSummary.createEvent

/-- The dispatcher has taken these events out of the buffer and not handed them over yet. -/
def Dispatch.batch : Dispatch → List LoggingEvent
  | .delivering events _ => events
  | _ => []

/-- This call of `append` has not returned yet. -/
def Append.pending : Append → List LoggingEvent
  | .idle => []
  | .called event => [event]
  | .synchronous event => [event]
  | .locking event => [event]
  | .awaiting event _ => [event]

end CodeCollect.Log4cxx.AsyncAppender
