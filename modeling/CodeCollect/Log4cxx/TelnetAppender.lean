import CodeCollect.Library.System

namespace CodeCollect.Log4cxx

open CodeCollect.Library

namespace TelnetAppender

/-- This is the maximum number of concurrent connections. -/
def MAX_CONNECTIONS : Nat := 20

/-- A closed server socket still exists, and its `accept` throws. -/
inductive ServerSocket where
  | null
  | listening
  | closed
deriving DecidableEq

/-- A server socket that fails to close stays open. -/
def ServerSocket.close (self : ServerSocket) (success : Bool) : ServerSocket :=
  match self, success with
  | .listening, true => .closed
  | other, _ => other

/-- The accept thread is between two of its accesses to the shared fields. -/
inductive Acceptor (Client : Type) where
  | absent
  | accepting
  | accepted (newClient : Client)
  | admitted (newClient : Client)
  | locking (newClient : Client) (count : Nat)
  | assigning (newClient : Client) (count : Nat)
  | welcoming (count : Nat)
  | farewell
  | refusing
  | caught
  | returned
deriving DecidableEq

/-- A call of `close` counts the connections it has cleared so far. -/
inductive Call where
  | idle
  | activating
  | doAppend
  | filtering
  | append
  | encoding
  | writing (iter : Nat)
  | close
  | closeEntered
  | closing (iter : Nat) (cleared : Nat)
  | closingServer
  | joining
deriving DecidableEq

/-- The mutex is nested, so the inner lock of `append` never waits. -/
inductive Owner (Caller : Type) where
  | acceptor
  | caller (id : Caller)
deriving DecidableEq

structure State (Caller Client : Type) where
  connections : List (Option Client)
  activeConnections : Nat
  closed : Bool
  serverSocket : ServerSocket
  sh : Acceptor Client
  mutex : Option (Owner Caller)
  calls : Caller → Call

/-- A step may fail where the code filters an event out or catches or throws an exception. -/
inductive Action (Caller Client : Type) where
  | connect (newClient : Client)
  | acceptor (success : Bool)
  | call (caller : Caller) (entry : Call)
  | caller (caller : Caller) (success : Bool)

variable {Caller Client : Type}

/-- The loop takes the first slot that is not occupied. -/
def assign (newClient : Client) : List (Option Client) → Option (List (Option Client))
  | [] => none
  | none :: rest => some (some newClient :: rest)
  | some other :: rest => (assign newClient rest).map (some other :: ·)

namespace State

/-- These are the occupied slots. -/
def occupied (self : State Caller Client) : Nat := self.connections.countP Option.isSome

def acceptor (self : State Caller Client) (place : Acceptor Client) : State Caller Client :=
  { self with sh := place }

/-- A client is accepted only while the server socket is open. -/
def accept (self : State Caller Client) (newClient : Client) : Option (State Caller Client) :=
  match self.sh, self.serverSocket with
  | .accepting, .listening => some (self.acceptor (.accepted newClient))
  | _, _ => none

def assignSlot (self : State Caller Client) (newClient : Client) (count : Nat) :
    State Caller Client :=
  match assign newClient self.connections with
  | none => self.acceptor (.welcoming count)
  | some connections => { self with
      connections := connections
      activeConnections := self.activeConnections + 1
      sh := .welcoming count }

/-- This is the loop of `acceptConnections`. A call of `accept` may time out or fail. -/
def acceptConnections (self : State Caller Client) (success : Bool) :
    Option (State Caller Client) :=
  match self.sh with
  | .absent | .returned => none
  | .accepting => if success then none else some (self.acceptor .caught)
  | .accepted newClient =>
      some (self.acceptor (if self.closed then .farewell else .admitted newClient))
  | .admitted newClient =>
      some (self.acceptor (if self.activeConnections ≥ self.connections.length then .refusing
        else .locking newClient self.activeConnections))
  | .locking newClient count =>
      if self.mutex = none then
        some { self with mutex := some .acceptor, sh := .assigning newClient count }
      else none
  | .assigning newClient count => some (self.assignSlot newClient count)
  | .welcoming _ =>
      some { self with mutex := none, sh := if success then .accepting else .caught }
  | .farewell => some (self.acceptor (if success then .returned else .caught))
  | .refusing => some (self.acceptor (if success then .accepting else .caught))
  | .caught => some (self.acceptor (if self.closed then .returned else .accepting))

section Callers

variable [DecidableEq Caller]

def goto (self : State Caller Client) (caller : Caller) (place : Call) : State Caller Client :=
  { self with calls := Function.update self.calls caller place }

def lock (self : State Caller Client) (caller : Caller) (place : Call) :
    Option (State Caller Client) :=
  if self.mutex = none then
    some ({ self with mutex := some (.caller caller) }.goto caller place)
  else none

/-- The destructor of the guard runs when the call returns and when it throws. -/
def leave (self : State Caller Client) (caller : Caller) : State Caller Client :=
  { self with mutex := none }.goto caller .idle

/-- A client that can not be written to is removed from the list. -/
def write (self : State Caller Client) (caller : Caller) (iter : Nat) (success : Bool) :
    State Caller Client :=
  match self.connections[iter]? with
  | none => self.goto caller .encoding
  | some none => self.goto caller (.writing (iter + 1))
  | some (some _) =>
      if success then self.goto caller (.writing (iter + 1))
      else { self with
        connections := self.connections.set iter none
        activeConnections := self.activeConnections - 1 }.goto caller (.writing (iter + 1))

/-- No exception of a client's `close` is caught here. -/
def closeClient (self : State Caller Client) (caller : Caller) (iter cleared : Nat)
    (success : Bool) : State Caller Client :=
  match self.connections[iter]? with
  | none => self.goto caller .closingServer
  | some none => self.goto caller (.closing (iter + 1) cleared)
  | some (some _) =>
      if success then
        { self with connections := self.connections.set iter none }.goto caller
          (.closing (iter + 1) (cleared + 1))
      else self.leave caller

/-- The thread handle is kept until it is joined, and a second `run` throws. -/
def runThread (self : State Caller Client) : State Caller Client :=
  match self.sh with
  | .absent => self.acceptor .accepting
  | _ => self

def call (self : State Caller Client) (caller : Caller) (entry : Call) :
    Option (State Caller Client) :=
  match self.calls caller, entry with
  | .idle, .doAppend => some (self.goto caller .doAppend)
  | .idle, .close => some (self.goto caller .close)
  | .idle, .activating => some (self.goto caller .activating)
  | _, _ => none

/-- These are the steps of `activateOptions`, `doAppend`, `append`, `write` and `close`. -/
def proceed (self : State Caller Client) (caller : Caller) (success : Bool) :
    Option (State Caller Client) :=
  match self.calls caller with
  | .idle => none
  | .activating =>
      match self.serverSocket, success with
      | .null, false => some (self.goto caller .idle)
      | .null, true => some ({ self with serverSocket := .listening }.goto caller .activating)
      | _, _ => some (self.runThread.goto caller .idle)
  | .doAppend => self.lock caller .filtering
  | .filtering =>
      some (if self.closed || !success then self.leave caller else self.goto caller .append)
  | .append =>
      some (if self.activeConnections = 0 || !success then self.leave caller
        else self.goto caller .encoding)
  | .encoding => some (if success then self.goto caller (.writing 0) else self.leave caller)
  | .writing iter => some (self.write caller iter success)
  | .close => self.lock caller .closeEntered
  | .closeEntered =>
      some (if self.closed then self.leave caller
        else { self with closed := true }.goto caller (.closing 0 0))
  | .closing iter cleared => some (self.closeClient caller iter cleared success)
  | .closingServer =>
      some ({ self with serverSocket := self.serverSocket.close success }.goto caller .joining)
  | .joining =>
      match self.sh with
      | .absent | .returned => some ({ self with
          sh := .absent
          activeConnections := 0 }.leave caller)
      | _ => none

end Callers

end State

/-- The appender is constructed open, with no server socket and no accept thread. -/
def system (Caller Client : Type) [DecidableEq Caller] :
    System (State Caller Client) (Action Caller Client) where
  initial := {
    connections := List.replicate MAX_CONNECTIONS none
    activeConnections := 0
    closed := false
    serverSocket := .null
    sh := .absent
    mutex := none
    calls := fun _ => .idle }
  next state action :=
    match action with
    | .connect newClient => state.accept newClient
    | .acceptor success => state.acceptConnections success
    | .call caller entry => state.call caller entry
    | .caller caller success => state.proceed caller success

/-- The counter equals the occupied slots, and no `close` waits for a thread that waits for it. -/
structure Consistent (state : State Caller Client) : Prop where
  accounted : state.mutex = none → state.activeConnections = state.occupied
  noCircularWait : ∀ caller newClient count, state.calls caller = .joining →
    state.mutex = some (.caller caller) → state.sh ≠ .locking newClient count

/-- The accept thread has found the appender open and is about to lock its mutex. -/
def Entering (state : State Caller Client) : Prop :=
  match state.sh with
  | .admitted _ => state.activeConnections < state.connections.length
  | .locking _ _ => True
  | _ => False

/-- `close` goes on to the accept thread only when that thread will not lock the mutex, and no
client's `close` throws after another slot was cleared. -/
def Undisturbed (state : State Caller Client) (action : Action Caller Client) : Prop :=
  ∀ caller success, action = .caller caller success →
    ∀ iter cleared, state.calls caller = .closing iter cleared →
      (state.connections[iter]? = none → ¬ Entering state) ∧
      ((∃ client, state.connections[iter]? = some (some client)) → success = false → cleared = 0)

end TelnetAppender

end CodeCollect.Log4cxx
