import CodeCollect.Library.System
import CodeCollect.Pthreads.RobustMutex

namespace CodeCollect.Pthreads

open CodeCollect.Library

namespace MutexDestroy

open RobustMutex (RobustState Result inherit)

def PTHREAD_MUTEX_NORMAL : Int := 0

def PTHREAD_MUTEX_RECURSIVE : Int := 1

def PTHREAD_MUTEX_ERRORCHECK : Int := 2

/-- A mutex with the state of its robust node; the robust kinds are negative. -/
structure Mutex (Thread : Type) where
  lock_idx : Int
  recursive_count : Int
  kind : Int
  ownerThread : Option Thread
  stateInconsistent : RobustState
  event : Bool

/-- The kind in the non-robust range. -/
def Mutex.nonRobustKind {Thread : Type} (mx : Mutex Thread) : Int :=
  if 0 ≤ mx.kind then mx.kind else -mx.kind - 1

/-- A mutex variable is null, one of the static initializers, or points to its mutex. -/
inductive Pointer where
  | null
  | initializer (kind : Int)
  | object
deriving DecidableEq

/-- The robust list of a thread holds the mutexes whose nodes are linked to it. -/
structure State (Name Thread : Type) where
  pointer : Name → Pointer
  mutex : Name → Mutex Thread
  robustMxList : Thread → List Name

/-- This is what `pthread_mutex_init` leaves. -/
def initialised (Thread : Type) (kind : Int) : Mutex Thread where
  lock_idx := 0
  recursive_count := 0
  kind := kind
  ownerThread := none
  stateInconsistent := .consistent
  event := false

variable {Name Thread : Type} [DecidableEq Name] [DecidableEq Thread]

namespace State

def update (state : State Name Thread) (name : Name) (change : Mutex Thread → Mutex Thread) :
    State Name Thread :=
  { state with mutex := Function.update state.mutex name (change (state.mutex name)) }

/-- This is `ptw32_mutex_check_need_init`. -/
def checkNeedInit (state : State Name Thread) (name : Name) : State Name Thread :=
  match state.pointer name with
  | .initializer kind =>
      { state.update name fun _ => initialised Thread kind with
        pointer := Function.update state.pointer name .object }
  | .null | .object => state

def robustMutexAdd (state : State Name Thread) (self : Thread) (name : Name) :
    State Name Thread :=
  { state.update name fun mx => { mx with ownerThread := some self } with
    robustMxList := Function.update state.robustMxList self (name :: state.robustMxList self) }

/-- The list is that of the owner; without one the source would follow a null pointer. -/
def robustMutexRemove (state : State Name Thread) (name : Name) (otp : Option Thread) :
    State Name Thread :=
  match (state.mutex name).ownerThread with
  | none => state
  | some owner =>
      { state.update name fun mx => { mx with ownerThread := otp } with
        robustMxList :=
          Function.update state.robustMxList owner ((state.robustMxList owner).erase name) }

/-- The result says whether the last owner has terminated. -/
def robustMutexInherit (state : State Name Thread) (name : Name) :
    Result × State Name Thread :=
  let found := inherit (state.mutex name).stateInconsistent
  (found.2, state.update name fun mx => { mx with stateInconsistent := found.1 })

section Calls

variable (state : State Name Thread) (self : Thread) (name : Name)

/-- The lock word is taken: the count, the owner and the list follow. -/
def take : State Name Thread :=
  let mx := state.mutex name
  if 0 ≤ mx.kind then
    if mx.kind = PTHREAD_MUTEX_NORMAL then state
    else state.update name fun mx => { mx with recursive_count := 1, ownerThread := some self }
  else
    (if -mx.kind - 1 = PTHREAD_MUTEX_NORMAL then state
    else state.update name fun mx => { mx with recursive_count := 1 }).robustMutexAdd self name

/-- The thread holds the mutex already, and the mutex is recursive. -/
def recurse : State Name Thread :=
  state.update name fun mx => { mx with recursive_count := mx.recursive_count + 1 }

def setLock (lock_idx : Int) : State Name Thread :=
  state.update name fun mx => { mx with lock_idx := lock_idx }

def trylock : Result × State Name Thread :=
  let state := state.checkNeedInit name
  let mx := state.mutex name
  if 0 ≤ mx.kind then
    if mx.lock_idx = 0 then
      (.ok, (state.setLock name 1).take self name)
    else if mx.kind = PTHREAD_MUTEX_RECURSIVE ∧ mx.ownerThread = some self then
      (.ok, state.recurse name)
    else
      (.EBUSY, state)
  else if mx.stateInconsistent = .notRecoverable then
    (.ENOTRECOVERABLE, state)
  else if mx.lock_idx = 0 then
    (.ok, (state.setLock name 1).take self name)
  else if -mx.kind - 1 = PTHREAD_MUTEX_RECURSIVE ∧ mx.ownerThread = some self then
    (.ok, state.recurse name)
  else
    let inherited := state.robustMutexInherit name
    if inherited.1 = .EOWNERDEAD then
      let counted := inherited.2.update name fun mx => { mx with recursive_count := 1 }
      (.EOWNERDEAD, counted.robustMutexAdd self name)
    else if inherited.1 = .ok then
      (.EBUSY, inherited.2)
    else
      inherited

/-- One turn of the loop that waits for the mutex, to its end or to the next wait. -/
def lockLoop : Option Result × State Name Thread :=
  let mx := state.mutex name
  if 0 ≤ mx.kind then
    let marked := state.setLock name (-1)
    if mx.lock_idx ≠ 0 then (none, marked) else (some .ok, marked.take self name)
  else
    let inherited := state.robustMutexInherit name
    if inherited.1 = .ok then
      let marked := inherited.2.setLock name (-1)
      if mx.lock_idx ≠ 0 then (none, marked) else (some .ok, marked.take self name)
    else if inherited.1 = .EOWNERDEAD then
      (some .EOWNERDEAD, inherited.2.take self name)
    else
      (some inherited.1, inherited.2)

/-- A call of `pthread_mutex_lock` to its end or to its first wait. -/
def lock : Option Result × State Name Thread :=
  if state.pointer name = .null then (some .EINVAL, state) else
  let state := state.checkNeedInit name
  let mx := state.mutex name
  if mx.kind < 0 ∧ mx.stateInconsistent = .notRecoverable then
    (some .ENOTRECOVERABLE, state)
  else if mx.nonRobustKind = PTHREAD_MUTEX_NORMAL then
    let exchanged := state.setLock name 1
    if mx.lock_idx ≠ 0 then exchanged.lockLoop self name
    else (some .ok, exchanged.take self name)
  else if mx.lock_idx = 0 then
    (some .ok, (state.setLock name 1).take self name)
  else if mx.ownerThread = some self then
    if mx.nonRobustKind = PTHREAD_MUTEX_RECURSIVE then
      (some .ok, state.recurse name)
    else
      (some .EDEADLK, state)
  else
    state.lockLoop self name

/-- The wait ends and resets the event. -/
def wake : Option Result × State Name Thread :=
  let state := state.update name fun mx => { mx with event := false }
  let mx := state.mutex name
  if mx.kind < 0 ∧ mx.stateInconsistent = .notRecoverable then
    (some .ENOTRECOVERABLE, state.update name fun mx => { mx with event := true })
  else
    state.lockLoop self name

/-- The lock word is exchanged with 0, and a waiting thread is woken. -/
def release : State Name Thread :=
  state.update name fun mx =>
    { mx with lock_idx := 0, event := if mx.lock_idx < 0 then true else mx.event }

/-- A call of `pthread_mutex_unlock` on a mutex that has been initialised. -/
def unlockObject : Result × State Name Thread :=
  let mx := state.mutex name
  if 0 ≤ mx.kind then
    if mx.kind = PTHREAD_MUTEX_NORMAL then
      (.ok, state.release name)
    else if mx.ownerThread = some self then
      let counted := if mx.kind = PTHREAD_MUTEX_RECURSIVE then
        state.update name fun mx => { mx with recursive_count := mx.recursive_count - 1 } else state
      if mx.kind ≠ PTHREAD_MUTEX_RECURSIVE ∨ (counted.mutex name).recursive_count = 0 then
        (.ok, (counted.update name fun mx => { mx with ownerThread := none }).release name)
      else
        (.ok, counted)
    else
      (.EPERM, state)
  else if mx.ownerThread = some self then
    let spoiled := state.update name fun mx => { mx with stateInconsistent :=
      if mx.stateInconsistent = .inconsistent then .notRecoverable else mx.stateInconsistent }
    let counted := if -mx.kind - 1 = PTHREAD_MUTEX_RECURSIVE then
      spoiled.update name fun mx => { mx with recursive_count := mx.recursive_count - 1 } else spoiled
    if -mx.kind - 1 ≠ PTHREAD_MUTEX_RECURSIVE ∨ (counted.mutex name).recursive_count = 0 then
      (.ok, (counted.robustMutexRemove name none).release name)
    else
      (.ok, counted)
  else
    (.EPERM, state)

def unlock : Result × State Name Thread :=
  match state.pointer name with
  | .initializer kind => (if kind = PTHREAD_MUTEX_NORMAL then .ok else .EINVAL, state)
  | .null | .object => state.unlockObject self name

/-- This is `pthread_mutex_consistent` on a mutex that has been initialised. -/
def consistent : Result × State Name Thread :=
  let mx := state.mutex name
  if 0 ≤ mx.kind ∨ mx.stateInconsistent ≠ .inconsistent then
    (.EINVAL, state)
  else
    (.ok, state.update name fun mx => { mx with stateInconsistent := .consistent })

/-- One mutex of a thread that exits is left to the next owner. -/
def orphan : State Name Thread :=
  (state.robustMutexRemove name (some self)).update name fun mx =>
    { mx with stateInconsistent := .terminated, event := true }

/-- The mutexes are taken from the head of the list; it has at most this number of them. -/
def exit (self : Thread) : Nat → State Name Thread → State Name Thread
  | 0, state => state
  | fuel + 1, state =>
      match state.robustMxList self with
      | [] => state
      | name :: _ => exit self fuel (state.orphan self name)

/-- The mutex is probed with a copy of the pointer; its memory is given back when all goes well. -/
def destroy : Result × State Name Thread :=
  match state.pointer name with
  | .initializer _ =>
      (.ok, { state with pointer := Function.update state.pointer name .null })
  | .null | .object =>
      let probed := state.trylock self name
      if probed.1 = .ok ∨ probed.1 = .ENOTRECOVERABLE then
        let mx := probed.2.mutex name
        if mx.kind ≠ PTHREAD_MUTEX_RECURSIVE ∨ mx.recursive_count = 1 then
          let unlocked := if probed.1 = .ok then probed.2.unlockObject self name else (.ok, probed.2)
          if unlocked.1 = .ok then
            (.ok, { unlocked.2 with pointer := Function.update unlocked.2.pointer name .null })
          else
            unlocked
        else
          (.EBUSY, probed.2.update name fun mx =>
            { mx with recursive_count := mx.recursive_count - 1 })
      else
        probed

end Calls

end State

/-- Whoever holds a mutex has locked it more often than unlocked; `waiting` says which mutex a thread
waits for inside `pthread_mutex_lock`. -/
structure World (Name Thread : Type) where
  state : State Name Thread
  holder : Name → Option (Thread × Nat)
  waiting : Thread → Option Name
  exited : Thread → Bool

inductive Label (Name Thread : Type) where
  | lock (self : Thread) (name : Name)
  | wake (self : Thread)
  | trylock (self : Thread) (name : Name)
  | unlock (self : Thread) (name : Name)
  | consistent (self : Thread) (name : Name)
  | exit (self : Thread)

/-- A lock-type call has succeeded. -/
def Succeeded (result : Result) : Prop := result = .ok ∨ result = .EOWNERDEAD

instance (result : Result) : Decidable (Succeeded result) :=
  inferInstanceAs (Decidable (_ ∨ _))

/-- The holder locks once more, or another thread becomes the holder. -/
def acquire (self : Thread) : Option (Thread × Nat) → Option (Thread × Nat)
  | some (thread, depth) => if thread = self then some (self, depth + 1) else some (self, 1)
  | none => some (self, 1)

/-- The holder unlocks once; a normal mutex is released by whoever unlocks it. -/
def unlocked (self : Thread) : Option (Thread × Nat) → Option (Thread × Nat)
  | some (thread, depth) =>
      if thread = self ∧ 1 < depth then some (thread, depth - 1) else none
  | none => none

namespace World

/-- The thread can call: it has not exited and does not wait in a call. -/
def Ready (world : World Name Thread) (self : Thread) : Prop :=
  world.waiting self = none ∧ world.exited self = false

omit [DecidableEq Thread] in
instance (world : World Name Thread) (self : Thread) : Decidable (world.Ready self) :=
  inferInstanceAs (Decidable (_ ∧ _))

/-- What is known when a lock-type call has come to its end or to a wait. -/
def locking (world : World Name Thread) (self : Thread) (name : Name)
    (outcome : Option Result × State Name Thread) : World Name Thread :=
  match outcome.1 with
  | none => { world with
      state := outcome.2
      waiting := Function.update world.waiting self (some name) }
  | some result => { world with
      state := outcome.2
      holder := if Succeeded result then
        Function.update world.holder name (acquire self (world.holder name)) else world.holder
      waiting := Function.update world.waiting self none }

/-- A thread calls, a waiting call goes on after its event, or a thread exits. -/
def step (world : World Name Thread) : Label Name Thread → Option (World Name Thread)
  | .lock self name =>
      if world.Ready self then some (world.locking self name (world.state.lock self name)) else none
  | .wake self =>
      match world.waiting self with
      | none => none
      | some name =>
          if (world.state.mutex name).event then
            some (world.locking self name (world.state.wake self name))
          else
            none
  | .trylock self name =>
      if world.Ready self then
        some (world.locking self name
          (some (world.state.trylock self name).1, (world.state.trylock self name).2))
      else
        none
  | .unlock self name =>
      if world.Ready self then
        let outcome := world.state.unlock self name
        some { world with
          state := outcome.2
          holder := if outcome.1 = .ok then
            Function.update world.holder name (unlocked self (world.holder name)) else world.holder }
      else
        none
  | .consistent self name =>
      if world.Ready self ∧ world.state.pointer name = .object then
        some { world with state := (world.state.consistent name).2 }
      else
        none
  | .exit self =>
      if world.Ready self then
        some { world with
          state := world.state.exit self (world.state.robustMxList self).length
          exited := Function.update world.exited self true }
      else
        none

/-- Some mutexes have been initialised with one of the six kinds, and others have a static
initializer. -/
structure Fresh (state : State Name Thread) : Prop where
  pointer : ∀ name, state.pointer name = .object ∨ ∃ kind ∈ [PTHREAD_MUTEX_NORMAL,
    PTHREAD_MUTEX_RECURSIVE, PTHREAD_MUTEX_ERRORCHECK], state.pointer name = .initializer kind
  mutex : ∀ name, ∃ kind, -3 ≤ kind ∧ kind ≤ 2 ∧ state.mutex name = initialised Thread kind
  robustMxList : ∀ thread, state.robustMxList thread = []

/-- The calls on mutexes that are fresh at first. -/
def system (state : State Name Thread) : System (World Name Thread) (Label Name Thread) where
  initial := ⟨state, fun _ => none, fun _ => none, fun _ => false⟩
  next := step

end World

end MutexDestroy

end CodeCollect.Pthreads
