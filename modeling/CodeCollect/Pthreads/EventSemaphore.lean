import CodeCollect.Pthreads.Semaphore

namespace CodeCollect.Pthreads

open CodeCollect.Library

namespace EventSemaphore

/-- These calls wait without a time limit. -/
inductive Call where
  | sem_wait
  | ptw32_semwait
deriving DecidableEq

/-- The event is reset when one thread has waited for it. -/
structure Memory where
  value : Int
  lock : Bool
  event : Bool
  leftToUnblock : Int

/-- A call remembers in its last section whether it was released from a wait. -/
inductive Place where
  | outside
  | decrementing (call : Call)
  | waiting
  | returning (released : Bool)
  | handing (released : Bool)
  | posting
  | setting
  | postingMultiple (count : ℕ+)
  | settingMultiple (waiters : Int) (count : ℕ+)
deriving DecidableEq

inductive Label where
  | wait (call : Call)
  | post
  | postMultiple (count : Int)
  | go
deriving DecidableEq

namespace Memory

def acquire (self : Memory) (place : Place) : Option (Memory × Place) :=
  if self.lock then none else some ({ self with lock := true }, place)

def unlock (self : Memory) : Memory := { self with lock := false }

/-- Only `sem_wait` goes on to its last section when it need not wait. -/
def decrement (self : Memory) (call : Call) : Memory × Place :=
  ({ self with value := self.value - 1 }.unlock,
    if self.value - 1 < 0 then .waiting
    else if call = .sem_wait then .returning false else .outside)

/-- A thread that leaves sets the event for the next one that is left to unblock. -/
def hand (self : Memory) : Memory :=
  if 0 < self.leftToUnblock then
    { self with leftToUnblock := self.leftToUnblock - 1, event := true }
  else self

def post (self : Memory) : Memory × Place :=
  if self.value < Semaphore.SEM_VALUE_MAX then
    if self.value + 1 ≤ 0 then ({ self with value := self.value + 1 }, .setting)
    else ({ self with value := self.value + 1 }.unlock, .outside)
  else (self.unlock, .outside)

/-- The waiters are those that the value shows before the posts. -/
def postMultiple (self : Memory) (count : ℕ+) : Memory × Place :=
  if self.value ≤ Semaphore.SEM_VALUE_MAX - count then
    if 0 < -self.value then
      ({ self with value := self.value + count }, .settingMultiple (-self.value) count)
    else ({ self with value := self.value + count }.unlock, .outside)
  else (self.unlock, .outside)

/-- The first waiter is released by the event and the others by the threads before them. -/
def setMultiple (self : Memory) (waiters : Int) (count : ℕ+) : Memory :=
  { self with
    event := true
    leftToUnblock := if waiters - 1 < self.leftToUnblock + (count - 1) then waiters - 1
      else self.leftToUnblock + (count - 1) }

end Memory

/-- These are the critical sections and the waits of the build with an event, as they are without
time limits and cancellations. A section that sets the event does so after it has changed the
value. -/
def step (memory : Memory) (place : Place) (label : Label) : Option (Memory × Place) :=
  match place, label with
  | .outside, .wait call => memory.acquire (.decrementing call)
  | .outside, .post => memory.acquire .posting
  | .outside, .postMultiple count =>
      if positive : 0 < count then
        memory.acquire (.postingMultiple ⟨count.toNat, Int.pos_iff_toNat_pos.mp positive⟩)
      else some (memory, .outside)
  | .decrementing call, .go => some (memory.decrement call)
  | .waiting, .go =>
      if memory.event then some ({ memory with event := false }, .returning true) else none
  | .returning released, .go => memory.acquire (.handing released)
  | .handing _, .go => some (memory.hand.unlock, .outside)
  | .posting, .go => some memory.post
  | .setting, .go => some ({ memory with event := true }.unlock, .outside)
  | .postingMultiple count, .go => some (memory.postMultiple count)
  | .settingMultiple waiters count, .go =>
      some ((memory.setMultiple waiters count).unlock, .outside)
  | _, _ => none

/-- `sem_init` creates a reset event, and nobody is left to unblock. -/
def program (value : Nat) (Thread : Type) : Program Thread Memory Place Label where
  memory := ⟨value, false, false, 0⟩
  entry := .outside
  step _ := step

end EventSemaphore

end CodeCollect.Pthreads
