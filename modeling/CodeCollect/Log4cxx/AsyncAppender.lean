import CodeCollect.Library.Machine
import CodeCollect.Log4cxx.LogString
import CodeCollect.Log4cxx.LogMap

namespace CodeCollect.Log4cxx

open CodeCollect.Library

structure LoggingEvent where
  loggerName : LogString
  level : Level
  message : LogString
deriving DecidableEq, Repr

namespace AsyncAppender

/-- A summary stands for the discarded events of one logger. -/
structure DiscardSummary where
  maxEvent : LoggingEvent
  count : Int32
deriving DecidableEq

namespace DiscardSummary

def create (event : LoggingEvent) : DiscardSummary where
  maxEvent := event
  count := 1

def add (self : DiscardSummary) (event : LoggingEvent) : DiscardSummary where
  maxEvent := if event.level.toInt > self.maxEvent.level.toInt then event else self.maxEvent
  count := self.count + 1

def createEvent (self : DiscardSummary) : LoggingEvent where
  loggerName := self.maxEvent.loggerName
  level := self.maxEvent.level
  message := "Discarded ".toList ++ StringHelper.toString self.count.toInt ++
    " messages due to a full event buffer including: ".toList ++ self.maxEvent.message

end DiscardSummary

abbrev DiscardMap := LogMap DiscardSummary

def DiscardMap.discard (self : DiscardMap) (event : LoggingEvent) : DiscardMap :=
  match self[event.loggerName]? with
  | none => self.insert event.loggerName (DiscardSummary.create event)
  | some summary => self.insert event.loggerName (summary.add event)

/-- The dispatcher thread may call `append` too, when an attached appender logs. -/
inductive Caller (Producer : Type) where
  | dispatcher
  | producer (id : Producer)
deriving DecidableEq

/-- A thread is outside `append`, before a critical section or inside a wait. -/
inductive Append where
  | idle
  | called (event : LoggingEvent)
  | synchronous (event : LoggingEvent)
  | locking (event : LoggingEvent)
  | awaiting (event : LoggingEvent) (signalled : Bool)
deriving DecidableEq

/-- The thread function may have left its loop before its thread is no longer alive. -/
inductive Dispatch where
  | starting
  | locking
  | awaiting (signalled : Bool)
  | delivering (events : List LoggingEvent) (isActive : Bool)
  | returned
  | ended
deriving DecidableEq

/-- The one call of `close` joins the dispatcher and then closes the attached appenders. -/
inductive Close where
  | uncalled
  | joining
  | joined
  | finished
deriving DecidableEq

structure State (Producer : Type) where
  buffer : List LoggingEvent
  discardMap : DiscardMap
  bufferSize : Int32
  blocking : Bool
  closed : Bool
  dispatcher : Dispatch
  calls : Caller Producer → Append
  interrupted : Caller Producer → Bool
  closing : Close

/-- These are the steps that can come in any order. A critical section is one step. -/
inductive Action (Producer : Type) where
  | call (caller : Caller Producer) (event : LoggingEvent)
  | checkAlive (caller : Caller Producer)
  | appendLoop (caller : Caller Producer)
  | enter (caller : Caller Producer) (interruptedLate : Bool)
  | interrupt (caller : Caller Producer)
  | dispatcherStart
  | dispatcherEnter
  | deliver
  | deliverThrows
  | dispatcherNext
  | dispatcherEnd
  | setBufferSize (size : Int32)
  | setBlocking (value : Bool)
  | close
  | joinReturns
  | closeAppenders
deriving DecidableEq

/-- These are the facts about a step that the conservation of events is about. -/
inductive Observation (Producer : Type) where
  | called (caller : Caller Producer) (event : LoggingEvent)
  | appended (caller : Caller Producer) (event : LoggingEvent)
  | pushed (caller : Caller Producer) (event : LoggingEvent)
  | discarded (caller : Caller Producer) (event : LoggingEvent)
  | drained
  | handed (event : LoggingEvent)
  | illegalArgument (message : LogString)
deriving DecidableEq

def Append.signal : Append → Append
  | .awaiting event _ => .awaiting event true
  | other => other

def Dispatch.signal : Dispatch → Dispatch
  | .awaiting _ => .awaiting true
  | other => other

/-- The thread counts as alive between the two writes of its launch status. -/
def Dispatch.isAlive : Dispatch → Bool
  | .starting => false
  | .ended => false
  | _ => true

/-- The dispatcher hands over an event, so an appender may call back from its thread. -/
def Dispatch.isHandingOver : Dispatch → Bool
  | .delivering (_ :: _) _ => true
  | _ => false

namespace State

variable {Producer : Type}

/-- This is `bufferNotEmpty.signalAll()`, for which only the dispatcher waits. -/
def signalNotEmpty (self : State Producer) : State Producer :=
  { self with dispatcher := self.dispatcher.signal }

/-- This is `bufferNotFull.signalAll()`. -/
def signalNotFull (self : State Producer) : State Producer :=
  { self with calls := fun caller => (self.calls caller).signal }

/-- The dispatcher takes all events and all summaries in one critical section. -/
def drain (self : State Producer) : State Producer :=
  signalNotFull { self with
    dispatcher := .delivering
      (self.buffer ++ self.discardMap.values.map DiscardSummary.createEvent) !self.closed
    buffer := []
    discardMap := ∅ }

/-- The dispatcher waits only on an empty buffer, and an interrupt ends its thread function. -/
def dispatch (self : State Producer) : State Producer × List (Observation Producer) :=
  if self.buffer.length = 0 ∧ self.closed = false then
    if self.interrupted .dispatcher then ({ self with dispatcher := .returned }, [])
    else ({ self with dispatcher := .awaiting false }, [])
  else (self.drain, [.drained])

variable [DecidableEq Producer]

def setCall (self : State Producer) (caller : Caller Producer) (call : Append) :
    State Producer :=
  { self with calls := Function.update self.calls caller call }

def setInterrupted (self : State Producer) (caller : Caller Producer) (flag : Bool) :
    State Producer :=
  { self with interrupted := Function.update self.interrupted caller flag }

def push (self : State Producer) (caller : Caller Producer) (event : LoggingEvent) :
    State Producer :=
  let pushed := { self with buffer := self.buffer ++ [event] }
  (if self.buffer.length = 0 then pushed.signalNotEmpty else pushed).setCall caller .idle

def discard (self : State Producer) (caller : Caller Producer) (event : LoggingEvent) :
    State Producer :=
  { self with discardMap := self.discardMap.discard event }.setCall caller .idle

/-- This is one pass of the loop in `append`. An interrupt may come between its two tests. -/
def append (self : State Producer) (caller : Caller Producer) (event : LoggingEvent)
    (interruptedLate : Bool) : State Producer × List (Observation Producer) :=
  if (self.buffer.length : Int) < self.bufferSize.toInt then
    (self.push caller event, [.pushed caller event])
  else if self.blocking then
    -- The first test clears the flag. The failed wait sets it again.
    if self.interrupted caller then
      ((self.setInterrupted caller false).discard caller event, [.discarded caller event])
    else if caller = .dispatcher then
      (self.discard caller event, [.discarded caller event])
    else if interruptedLate then
      ((self.setInterrupted caller true).discard caller event, [.discarded caller event])
    else (self.setCall caller (.awaiting event false), [])
  else (self.discard caller event, [.discarded caller event])

/-- This function takes one step, or none when the step is not enabled. -/
def step (self : State Producer) :
    Action Producer → Option (State Producer × List (Observation Producer))
  | .call caller event =>
      if self.calls caller = .idle ∧ (caller = .dispatcher → self.dispatcher.isHandingOver) then
        some (self.setCall caller (.called event), [.called caller event])
      else none
  | .checkAlive caller =>
      match self.calls caller with
      | .called event =>
          if !self.dispatcher.isAlive || self.bufferSize ≤ 0 then
            some (self.setCall caller (.synchronous event), [])
          else some (self.setCall caller (.locking event), [])
      | _ => none
  | .appendLoop caller =>
      match self.calls caller with
      | .synchronous event => some (self.setCall caller .idle, [.appended caller event])
      | _ => none
  | .enter caller interruptedLate =>
      match self.calls caller with
      | .locking event => some (self.append caller event interruptedLate)
      | .awaiting event true => some (self.append caller event interruptedLate)
      | _ => none
  | .interrupt caller => some (self.setInterrupted caller true, [])
  | .dispatcherStart =>
      if self.dispatcher = .starting then some ({ self with dispatcher := .locking }, [])
      else none
  | .dispatcherEnter =>
      if self.dispatcher = .locking ∨ self.dispatcher = .awaiting true then some self.dispatch
      else none
  | .deliver =>
      match self.dispatcher, self.calls .dispatcher with
      | .delivering (event :: events) isActive, .idle =>
          some ({ self with dispatcher := .delivering events isActive }, [.handed event])
      | _, _ => none
  | .deliverThrows =>
      match self.dispatcher, self.calls .dispatcher with
      | .delivering (_ :: _) _, .idle => some ({ self with dispatcher := .returned }, [])
      | _, _ => none
  | .dispatcherNext =>
      match self.dispatcher with
      | .delivering [] true => some ({ self with dispatcher := .locking }, [])
      | .delivering [] false => some ({ self with dispatcher := .returned }, [])
      | _ => none
  | .dispatcherEnd =>
      if self.dispatcher = .returned then some ({ self with dispatcher := .ended }, []) else none
  | .setBufferSize size =>
      if size < 0 then
        some (self, [.illegalArgument "size argument must be non-negative".toList])
      else some ({ self with bufferSize := if size < 1 then 1 else size }.signalNotFull, [])
  | .setBlocking value => some ({ self with blocking := value }.signalNotFull, [])
  | .close =>
      if self.closing = .uncalled then
        some ({ self with closed := true, closing := .joining }.signalNotEmpty.signalNotFull, [])
      else none
  | .joinReturns =>
      if self.closing = .joining ∧ self.dispatcher = .ended then
        some ({ self with closing := .joined }, [])
      else none
  | .closeAppenders =>
      if self.closing = .joined then some ({ self with closing := .finished }, []) else none

end State

/-- The constructor starts the dispatcher's thread with an empty buffer. -/
def create (Producer : Type) : State Producer where
  buffer := []
  discardMap := ∅
  bufferSize := 128
  blocking := true
  closed := false
  dispatcher := .starting
  calls := fun _ => .idle
  interrupted := fun _ => false
  closing := .uncalled

def machine (Producer : Type) [DecidableEq Producer] :
    Machine (State Producer) (Action Producer) (Observation Producer) where
  initial := create Producer
  step := State.step

end AsyncAppender

end CodeCollect.Log4cxx
