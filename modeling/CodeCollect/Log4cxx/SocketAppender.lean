import CodeCollect.Library.System

namespace CodeCollect.Log4cxx

open CodeCollect.Library

namespace SocketAppender

/-- The thread function `monitor` ends when it has installed a socket or found the appender closed. -/
inductive Monitor where
  | checking
  | sleeping
  | connecting
  | settingSocket
  | exited (installed : Bool)
deriving DecidableEq

/-- `Thread::isActive` tests the handle. -/
def isActive (thread : Option Monitor) : Bool := thread.isSome

/-- A second `run` on the same `Thread` object throws. -/
def runThread (thread : Option Monitor) : Option (Option Monitor) :=
  match thread with
  | some _ => none
  | none => some (some .checking)

/-- One operation at a time is under way. The last place follows a failure that was caught. -/
inductive Operation where
  | idle
  | cleaningUp
  | connecting
  | settingSocket
  | appending
  | failed (fires : Bool)
deriving DecidableEq

/-- The flag `lost` remembers that the last attempt to connect or to write has failed. -/
structure State where
  oos : Bool
  closed : Bool
  thread : Option Monitor
  interrupted : Bool
  operation : Operation
  lost : Bool

/-- A step of an operation or of the connector may fail with an exception. -/
inductive Action where
  | connect
  | doAppend
  | close (success : Bool)
  | operation (success : Bool)
  | connector (success : Bool)

namespace State

def goto (self : State) (operation : Operation) : State := { self with operation := operation }

/-- An exception of the old stream is caught before the stream is dropped. -/
def cleanUp (self : State) (success : Bool) : State := { self with oos := self.oos && !success }

def setSocket (self : State) : State := { self with oos := true, lost := false }

/-- An exception of `run` leaves `fireConnector` and the operation that called it. -/
def fireConnector (self : State) : State :=
  if isActive self.thread then
    match runThread self.thread with
    | none => self
    | some thread => { self with thread := thread }
  else self

/-- These are the steps of `connect` and `append`. -/
def proceed (self : State) (reconnectionDelay : Int) (success : Bool) : Option State :=
  match self.operation with
  | .idle => none
  | .cleaningUp => some ((self.cleanUp success).goto .connecting)
  | .connecting =>
      some (if success then self.goto .settingSocket
        else { self with lost := true }.goto (.failed true))
  | .settingSocket => some (self.setSocket.goto .idle)
  | .appending =>
      some (if !self.oos || success then self.goto .idle
        else { self with oos := false, lost := true }.goto (.failed (reconnectionDelay > 0)))
  | .failed fires => some ((if fires then self.fireConnector else self).goto .idle)

/-- The mutex is held by `append` from its start, and elsewhere only inside single steps. -/
def mutexFree (self : State) : Bool :=
  match self.operation with
  | .appending | .failed _ => false
  | _ => true

def monitor (self : State) (place : Monitor) : State := { self with thread := some place }

/-- An interruption is not an `IOException`, so it ends the thread. -/
def proceedMonitor (self : State) (success : Bool) : Option State :=
  match self.thread with
  | none | some (.exited _) => none
  | some .checking => some (self.monitor (if self.closed then .exited false else .sleeping))
  | some .sleeping =>
      some (if self.interrupted then { self with interrupted := false }.monitor (.exited false)
        else self.monitor .connecting)
  | some .connecting => some (self.monitor (if success then .settingSocket else .checking))
  | some .settingSocket =>
      if self.mutexFree then some (self.setSocket.monitor (.exited true)) else none

/-- The operations are called one after the other. -/
def next {Address : Type} (address : Option Address) (reconnectionDelay : Int) (self : State) :
    Action → Option State
  | .connect =>
      if self.operation = .idle then
        some (match address with
          | none => self
          | some _ => self.goto .cleaningUp)
      else none
  | .doAppend =>
      if self.operation = .idle then some (if self.closed then self else self.goto .appending)
      else none
  | .close success =>
      if self.operation = .idle then
        some (if self.closed then self
          else { self.cleanUp success with closed := true, interrupted := true })
      else none
  | .operation success => self.proceed reconnectionDelay success
  | .connector success => self.proceedMonitor success

end State

/-- The appender is constructed open, without a stream and without a thread. -/
def system {Address : Type} (address : Option Address) (reconnectionDelay : Int) :
    System State Action where
  initial := ⟨false, false, none, false, .idle, false⟩
  next := State.next address reconnectionDelay

/-- An open appender that has lost its connection has a connector that has not given up. -/
def Reconnecting (state : State) : Prop :=
  state.closed = false → state.operation = .idle → state.lost = true →
    ∃ place, state.thread = some place ∧ place ≠ .exited false

/-- No operation that has failed to connect or to write returns while the appender is open. -/
def Unfailing (state : State) (action : Action) : Prop :=
  ∀ fires success, state.operation = .failed fires → action = .operation success →
    state.closed = true

/-- An active thread throws and no other thread is run, so no connector is ever started. -/
theorem fireConnector_eq (state : State) : state.fireConnector = state := by
  cases thread : state.thread with
  | none => simp [State.fireConnector, isActive, thread]
  | some place => simp [State.fireConnector, isActive, runThread, thread]

section Runs

variable {Address : Type} {address : Option Address} {reconnectionDelay : Int}

/-- An operation leaves the thread as it is. -/
theorem proceed_thread {state after : State} {success : Bool}
    (taken : state.proceed reconnectionDelay success = some after) :
    after.thread = state.thread := by
  unfold State.proceed at taken
  split at taken
  · exact absurd taken (by simp)
  · obtain rfl := Option.some.inj taken
    rfl
  · obtain rfl := Option.some.inj taken
    split <;> rfl
  · obtain rfl := Option.some.inj taken
    rfl
  · obtain rfl := Option.some.inj taken
    split <;> rfl
  · obtain rfl := Option.some.inj taken
    simp [fireConnector_eq, State.goto]

/-- No run starts a connector. -/
theorem thread_step {state after : State} {action : Action} (missing : state.thread = none)
    (taken : state.next address reconnectionDelay action = some after) : after.thread = none := by
  cases action with
  | connect =>
      simp only [State.next] at taken
      split at taken
      · obtain rfl := Option.some.inj taken
        split <;> exact missing
      · exact absurd taken (by simp)
  | doAppend =>
      simp only [State.next] at taken
      split at taken
      · obtain rfl := Option.some.inj taken
        split <;> exact missing
      · exact absurd taken (by simp)
  | close success =>
      simp only [State.next] at taken
      split at taken
      · obtain rfl := Option.some.inj taken
        split <;> exact missing
      · exact absurd taken (by simp)
  | operation success => exact (proceed_thread taken).trans missing
  | connector success =>
      simp [State.next, State.proceedMonitor, missing] at taken

/-- This is what a run keeps in which no failed operation returns to an open appender. -/
structure Kept (state : State) : Prop where
  unstarted : state.thread = none
  pending : ∀ fires, state.operation = .failed fires → state.lost = true
  noticed : state.lost = true → state.closed = true ∨ ∃ fires, state.operation = .failed fires

theorem Kept.reconnecting {state : State} (kept : Kept state) : Reconnecting state := by
  intro opened idle lost
  rcases kept.noticed lost with closed | ⟨fires, failed⟩
  · simp [opened] at closed
  · simp [idle] at failed

/-- A state after a call that has not begun to fail keeps what was known. -/
theorem Kept.of_unlost {state : State} (unstarted : state.thread = none)
    (running : ∀ fires, state.operation ≠ .failed fires)
    (noticed : state.lost = true → state.closed = true) : Kept state where
  unstarted := unstarted
  pending fires failed := absurd failed (running fires)
  noticed lost := Or.inl (noticed lost)

/-- Outside a failed operation, a remembered failure is one of a closed appender. -/
theorem Kept.closed_of_lost {state : State} (kept : Kept state)
    (running : ∀ fires, state.operation ≠ .failed fires) (lost : state.lost = true) :
    state.closed = true := by
  rcases kept.noticed lost with closed | ⟨fires, failed⟩
  · exact closed
  · exact absurd failed (running fires)

/-- The step after a failure is the only one that can break the invariant. -/
theorem kept_proceed {state after : State} {success : Bool} (kept : Kept state)
    (unfailing : Unfailing state (.operation success))
    (taken : state.proceed reconnectionDelay success = some after) : Kept after := by
  have unstarted := (proceed_thread taken).trans kept.unstarted
  unfold State.proceed at taken
  split at taken
  case h_1 => exact absurd taken (by simp)
  case h_2 here =>
      obtain rfl := Option.some.inj taken
      exact .of_unlost unstarted (fun _ => nofun) (kept.closed_of_lost (by simp [here]))
  case h_3 here =>
      obtain rfl := Option.some.inj taken
      cases success with
      | true => exact .of_unlost unstarted (fun _ => nofun) (kept.closed_of_lost (by simp [here]))
      | false => exact ⟨unstarted, fun _ _ => rfl, fun _ => Or.inr ⟨true, rfl⟩⟩
  case h_4 here =>
      obtain rfl := Option.some.inj taken
      exact .of_unlost unstarted (fun _ => nofun) nofun
  case h_5 here =>
      obtain rfl := Option.some.inj taken
      split
      · exact .of_unlost kept.unstarted (fun _ => nofun) (kept.closed_of_lost (by simp [here]))
      · exact ⟨kept.unstarted, fun _ _ => rfl, fun _ => Or.inr ⟨_, rfl⟩⟩
  case h_6 fires here =>
      obtain rfl := Option.some.inj taken
      have closed := unfailing fires success here rfl
      simp only [fireConnector_eq, ite_self]
      exact .of_unlost kept.unstarted (fun _ => nofun) fun _ => closed

theorem kept_step {state after : State} {action : Action} (kept : Kept state)
    (unfailing : Unfailing state action)
    (taken : state.next address reconnectionDelay action = some after) : Kept after := by
  have unstarted := thread_step kept.unstarted taken
  cases action with
  | operation success => exact kept_proceed kept unfailing taken
  | connector success => simp [State.next, State.proceedMonitor, kept.unstarted] at taken
  | connect =>
      simp only [State.next] at taken
      split at taken
      · rename_i idle
        obtain rfl := Option.some.inj taken
        split
        · exact kept
        · exact .of_unlost kept.unstarted (fun _ => nofun) (kept.closed_of_lost (by simp [idle]))
      · exact absurd taken (by simp)
  | doAppend =>
      simp only [State.next] at taken
      split at taken
      · rename_i idle
        obtain rfl := Option.some.inj taken
        split
        · exact kept
        · exact .of_unlost kept.unstarted (fun _ => nofun) (kept.closed_of_lost (by simp [idle]))
      · exact absurd taken (by simp)
  | close success =>
      simp only [State.next] at taken
      split at taken
      · rename_i idle
        obtain rfl := Option.some.inj taken
        split
        · exact kept
        · exact .of_unlost kept.unstarted (by simp [State.cleanUp, idle]) fun _ => rfl
      · exact absurd taken (by simp)

/-- A failed operation that returns to an open appender leaves it without a connector. -/
theorem not_reconnecting {state : State} {action : Action} (kept : Kept state)
    (failing : ¬ Unfailing state action) :
    ∃ after, state.next address reconnectionDelay action = some after ∧ ¬ Reconnecting after := by
  unfold Unfailing at failing
  push Not at failing
  obtain ⟨fires, success, failed, rfl, opened⟩ := failing
  have returned : state.next address reconnectionDelay (.operation success) =
      some (state.goto .idle) := by
    simp [State.next, State.proceed, failed, fireConnector_eq]
  have still : (state.goto .idle).closed = false := Bool.eq_false_of_not_eq_true opened
  refine ⟨_, returned, fun reconnecting => ?_⟩
  obtain ⟨place, started, _⟩ := reconnecting still rfl (kept.pending fires failed)
  simp [State.goto, kept.unstarted] at started

theorem kept_initial (address : Option Address) (reconnectionDelay : Int) :
    Kept (system address reconnectionDelay).initial where
  unstarted := rfl
  pending fires failed := by simp [system] at failed
  noticed lost := by simp [system] at lost

/-- In a run of operations, the appender always reconnects if and only if it never has to. -/
theorem reconnecting_iff (address : Option Address) (reconnectionDelay : Int)
    (actions : List Action) :
    (system address reconnectionDelay).Throughout Reconnecting
        (system address reconnectionDelay).initial actions ↔
      (system address reconnectionDelay).Along Unfailing
        (system address reconnectionDelay).initial actions := by
  apply System.throughout_iff_along (system address reconnectionDelay) Kept
  · exact fun _ => Kept.reconnecting
  · exact fun _ _ _ kept unfailing taken => kept_step kept unfailing taken
  · exact fun _ _ kept failing => not_reconnecting kept failing
  · exact kept_initial address reconnectionDelay

end Runs

theorem connect_stays_disconnected : ¬ ∀ actions : List Action,
    (system (some ()) 30000).Throughout Reconnecting (system (some ()) 30000).initial actions := by
  intro all
  have returned := all [.connect, .operation true, .operation false, .operation true]
  have connecting := (returned.2 _ rfl).2 _ rfl
  have last : Reconnecting _ := (connecting.2 _ rfl).2 _ rfl
  obtain ⟨place, started, _⟩ := last rfl rfl rfl
  exact absurd started nofun

end SocketAppender

end CodeCollect.Log4cxx
