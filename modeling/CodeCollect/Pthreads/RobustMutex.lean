import CodeCollect.Pthreads.Mutex

namespace CodeCollect.Pthreads

open CodeCollect.Library

namespace RobustMutex

/-- The state is -1 after its owner has terminated, and else one of the enumeration. -/
inductive RobustState where
  | terminated
  | consistent
  | inconsistent
  | notRecoverable
deriving DecidableEq

/-- These are the results of the calls. -/
inductive Result where
  | ok
  | EPERM
  | EBUSY
  | EINVAL
  | EDEADLK
  | ETIMEDOUT
  | EOWNERDEAD
  | ENOTRECOVERABLE
deriving DecidableEq

/-- The fields of one mutex without the links of its node. -/
structure Memory (Thread : Type) where
  lock_idx : Int
  recursive_count : Int
  ownerThread : Option Thread
  stateInconsistent : RobustState
  event : Bool

/-- `ptw32_robust_mutex_add` sets the owner and then links the node in front of the list. -/
inductive AddPoint where
  | owner
  | prev
  | next
  | back
  | head
deriving DecidableEq

/-- `ptw32_robust_mutex_remove` closes the gap in the list behind, before and at its start. -/
inductive RemovePoint where
  | next
  | prev
  | head
deriving DecidableEq

/-- These are the points of the code, each before one access to a field that is shared. -/
inductive Point (Thread : Type) where
  | idle
  | leaving
  | gone
  | returning (result : Result)
  | flagTest (timed : Bool)
  | exchanging (timed : Bool)
  | comparing (timed : Bool)
  | ownerTest (timed : Bool)
  | counting
  | inheriting (timed : Bool)
  | marking (timed : Bool)
  | waiting (timed : Bool)
  | retesting (timed : Bool)
  | unblocking
  | rechecking (result : Result)
  | assigningCount (result : Result)
  | adding (result : Result) (stage : AddPoint)
  | tryFlagTest
  | trying
  | tryOwnerTest
  | tryInheriting
  | unlockTest
  | spoiling
  | decrementing
  | removing (exiting : Bool)
  | unlinking (exiting : Bool) (list : Thread) (stage : RemovePoint)
  | releasing
  | signalling
  | repairing
  | orphaning
  | mourning
deriving DecidableEq

/-- A thread has a depth: how many of its lock-type calls have succeeded and are not unlocked. -/
structure Place (Thread : Type) where
  depth : Nat
  point : Point Thread

/-- These calls are made on a mutex. -/
inductive Request where
  | lock (timed : Bool)
  | trylock
  | unlock
  | consistent
deriving DecidableEq

/-- A thread that exits takes the mutexes from its list one by one. -/
inductive Label where
  | call (request : Request)
  | exit
  | take
  | go
  | timeout
deriving DecidableEq

variable {Thread : Type} [DecidableEq Thread]

omit [DecidableEq Thread] in
/-- A call starts at its first shared access. -/
def Request.start : Request → Point Thread
  | .lock timed => .flagTest timed
  | .trylock => .tryFlagTest
  | .unlock => .unlockTest
  | .consistent => .repairing

/-- `ptw32_robust_mutex_inherit` takes a mutex whose owner has terminated. -/
def inherit : RobustState → RobustState × Result
  | .terminated => (.inconsistent, .EOWNERDEAD)
  | .notRecoverable => (.notRecoverable, .ENOTRECOVERABLE)
  | state => (state, .ok)

omit [DecidableEq Thread] in
/-- The lock word is taken, and the count and the list follow. -/
def acquired (kind : MutexKind) (result : Result) : Point Thread :=
  if kind = .normal then .adding result .owner else .assigningCount result

omit [DecidableEq Thread] in
/-- The timed call of the other kinds tests the flag behind its loop and not inside. -/
def afterLoop (kind : MutexKind) (timed : Bool) (result : Result) : Point Thread :=
  if timed ∧ kind ≠ .normal then .rechecking result
  else if result = .ENOTRECOVERABLE then .returning result else acquired kind result

/-- These are the steps of one thread at one robust mutex. The timed lock of a normal mutex that
it finds free does not add the mutex to the list. -/
def step (kind : MutexKind) (self : Thread) (memory : Memory Thread) (place : Place Thread)
    (label : Label) : Option (Memory Thread × Place Thread) :=
  match place, label with
  | ⟨depth, .idle⟩, .call request => some (memory, ⟨depth, request.start⟩)
  | ⟨depth, .idle⟩, .exit => some (memory, ⟨depth, .leaving⟩)
  | ⟨depth, .leaving⟩, .take =>
      if depth ≠ 0 then some (memory, ⟨depth, .removing true⟩) else none
  | ⟨depth, .leaving⟩, .go => if depth = 0 then some (memory, ⟨depth, .gone⟩) else none
  | ⟨depth, .returning _⟩, .go => some (memory, ⟨depth, .idle⟩)
  | ⟨depth, .flagTest timed⟩, .go =>
      some (memory, ⟨depth, if memory.stateInconsistent = .notRecoverable then
        .returning .ENOTRECOVERABLE
      else if kind = .normal then .exchanging timed else .comparing timed⟩)
  | ⟨depth, .exchanging timed⟩, .go =>
      if memory.lock_idx = 0 then
        if timed then some ({ memory with lock_idx := 1 }, ⟨depth + 1, .returning .ok⟩)
        else some ({ memory with lock_idx := 1 }, ⟨depth, .adding .ok .owner⟩)
      else some ({ memory with lock_idx := 1 }, ⟨depth, .inheriting timed⟩)
  | ⟨depth, .comparing timed⟩, .go =>
      if memory.lock_idx = 0 then
        some ({ memory with lock_idx := 1 }, ⟨depth, .assigningCount .ok⟩)
      else some (memory, ⟨depth, .ownerTest timed⟩)
  | ⟨depth, .ownerTest timed⟩, .go =>
      some (memory, ⟨depth, if memory.ownerThread = some self then
        if kind = .recursive then .counting else .returning .EDEADLK
      else .inheriting timed⟩)
  | ⟨depth, .counting⟩, .go =>
      some ({ memory with recursive_count := memory.recursive_count + 1 },
        ⟨depth + 1, .returning .ok⟩)
  | ⟨depth, .inheriting timed⟩, .go =>
      some ({ memory with stateInconsistent := (inherit memory.stateInconsistent).1 },
        ⟨depth, if (inherit memory.stateInconsistent).2 = .ok then .marking timed
        else afterLoop kind timed (inherit memory.stateInconsistent).2⟩)
  | ⟨depth, .marking timed⟩, .go =>
      some ({ memory with lock_idx := -1 },
        ⟨depth, if memory.lock_idx = 0 then afterLoop kind timed .ok else .waiting timed⟩)
  | ⟨depth, .waiting timed⟩, .go =>
      if memory.event then
        some ({ memory with event := false },
          ⟨depth, if timed ∧ kind ≠ .normal then .inheriting timed else .retesting timed⟩)
      else none
  | ⟨depth, .waiting true⟩, .timeout => some (memory, ⟨depth, .returning .ETIMEDOUT⟩)
  | ⟨depth, .retesting timed⟩, .go =>
      some (memory, ⟨depth, if memory.stateInconsistent = .notRecoverable then .unblocking
        else .inheriting timed⟩)
  | ⟨depth, .unblocking⟩, .go =>
      some ({ memory with event := true }, ⟨depth, .returning .ENOTRECOVERABLE⟩)
  | ⟨depth, .rechecking result⟩, .go =>
      some (memory, ⟨depth, if memory.stateInconsistent = .notRecoverable then .unblocking
        else if result = .ok ∨ result = .EOWNERDEAD then .assigningCount result
        else .returning result⟩)
  | ⟨depth, .assigningCount result⟩, .go =>
      some ({ memory with recursive_count := 1 }, ⟨depth, .adding result .owner⟩)
  | ⟨depth, .adding result .owner⟩, .go =>
      some ({ memory with ownerThread := some self }, ⟨depth, .adding result .prev⟩)
  | ⟨depth, .adding result .prev⟩, .go => some (memory, ⟨depth, .adding result .next⟩)
  | ⟨depth, .adding result .next⟩, .go => some (memory, ⟨depth, .adding result .back⟩)
  | ⟨depth, .adding result .back⟩, .go => some (memory, ⟨depth, .adding result .head⟩)
  | ⟨depth, .adding result .head⟩, .go => some (memory, ⟨depth + 1, .returning result⟩)
  | ⟨depth, .tryFlagTest⟩, .go =>
      some (memory, ⟨depth, if memory.stateInconsistent = .notRecoverable then
        .returning .ENOTRECOVERABLE else .trying⟩)
  | ⟨depth, .trying⟩, .go =>
      if memory.lock_idx = 0 then
        some ({ memory with lock_idx := 1 }, ⟨depth, acquired kind .ok⟩)
      else some (memory, ⟨depth, if kind = .recursive then .tryOwnerTest else .tryInheriting⟩)
  | ⟨depth, .tryOwnerTest⟩, .go =>
      some (memory, ⟨depth, if memory.ownerThread = some self then .counting
        else .tryInheriting⟩)
  | ⟨depth, .tryInheriting⟩, .go =>
      some ({ memory with stateInconsistent := (inherit memory.stateInconsistent).1 },
        ⟨depth, if (inherit memory.stateInconsistent).2 = .EOWNERDEAD then
          .assigningCount .EOWNERDEAD
        else if (inherit memory.stateInconsistent).2 = .ok then .returning .EBUSY
        else .returning (inherit memory.stateInconsistent).2⟩)
  | ⟨depth, .unlockTest⟩, .go =>
      some (memory, ⟨depth, if memory.ownerThread = some self then .spoiling
        else .returning .EPERM⟩)
  | ⟨depth, .spoiling⟩, .go =>
      some ({ memory with stateInconsistent :=
          if memory.stateInconsistent = .inconsistent then .notRecoverable
          else memory.stateInconsistent },
        ⟨depth, if kind = .recursive then .decrementing else .removing false⟩)
  | ⟨depth, .decrementing⟩, .go =>
      if memory.recursive_count - 1 = 0 then
        some ({ memory with recursive_count := memory.recursive_count - 1 },
          ⟨depth, .removing false⟩)
      else some ({ memory with recursive_count := memory.recursive_count - 1 },
        ⟨depth - 1, .returning .ok⟩)
  | ⟨depth, .removing exiting⟩, .go =>
      memory.ownerThread.map fun list =>
        ({ memory with ownerThread := if exiting then some self else none },
          ⟨if exiting then 0 else depth - 1, .unlinking exiting list .next⟩)
  | ⟨depth, .unlinking exiting list .next⟩, .go =>
      some (memory, ⟨depth, .unlinking exiting list .prev⟩)
  | ⟨depth, .unlinking exiting list .prev⟩, .go =>
      some (memory, ⟨depth, .unlinking exiting list .head⟩)
  | ⟨depth, .unlinking exiting _ .head⟩, .go =>
      some (memory, ⟨depth, if exiting then .orphaning else .releasing⟩)
  | ⟨depth, .releasing⟩, .go =>
      some ({ memory with lock_idx := 0 },
        ⟨depth, if memory.lock_idx < 0 then .signalling else .returning .ok⟩)
  | ⟨depth, .signalling⟩, .go =>
      some ({ memory with event := true }, ⟨depth, .returning .ok⟩)
  | ⟨depth, .repairing⟩, .go =>
      if memory.stateInconsistent = .inconsistent then
        some ({ memory with stateInconsistent := .consistent }, ⟨depth, .returning .ok⟩)
      else some (memory, ⟨depth, .returning .EINVAL⟩)
  | ⟨depth, .orphaning⟩, .go =>
      some ({ memory with stateInconsistent := .terminated }, ⟨depth, .mourning⟩)
  | ⟨depth, .mourning⟩, .go => some ({ memory with event := true }, ⟨depth, .leaving⟩)
  | _, _ => none

/-- `pthread_mutex_init` leaves the mutex free and consistent. -/
def free (Thread : Type) : Memory Thread := ⟨0, 0, none, .consistent, false⟩

end RobustMutex

end CodeCollect.Pthreads
