import CodeCollect.Pthreads.Cond

namespace CodeCollect.Pthreads

open CodeCollect.Library

namespace Semaphore

def SEM_VALUE_MAX : Int := INT_MAX

/-- These are the calls that wait. -/
inductive Call where
  | sem_wait
  | sem_timedwait
  | ptw32_semwait
deriving DecidableEq

/-- The semaphore of the kernel counts the releases that no waiter has taken. The last two fields
are history and are never read by a step. -/
structure Memory where
  value : Int
  lock : Bool
  sem : Nat
  posts : Nat
  waits : Nat

inductive Place where
  | outside
  | decrementing (call : Call)
  | waiting (call : Call)
  | cleaning (call : Call)
  | withdrawing (call : Call)
  | trying
  | posting
  | postingMultiple (count : Nat)
  | releasing (released : Nat)
deriving DecidableEq

inductive Label where
  | wait (call : Call)
  | trywait
  | post
  | postMultiple (count : Int)
  | go
  | timeout
  | cancel
deriving DecidableEq

namespace Memory

def acquire (self : Memory) (place : Place) : Option (Memory × Place) :=
  if self.lock then none else some ({ self with lock := true }, place)

def unlock (self : Memory) : Memory := { self with lock := false }

/-- A waiter without a post counts down, and a thread that need not wait has waited. -/
def decrement (self : Memory) (call : Call) : Memory × Place :=
  if self.value - 1 < 0 then ({ self with value := self.value - 1 }, .waiting call)
  else ({ self with value := self.value - 1, waits := self.waits + 1 }, .outside)

/-- A wait takes one release of the kernel semaphore. -/
def take (self : Memory) : Memory := { self with sem := self.sem - 1, waits := self.waits + 1 }

/-- The handlers take a release that has come in the meantime or are no longer waiting.
`sem_wait` passes the semaphore to its handler and not the variable that holds it, so that the
test for a destroyed semaphore reads the first word of the semaphore, which is its value. -/
def cleanup (self : Memory) (call : Call) : Memory :=
  if call = .sem_wait ∧ self.value = 0 then self
  else if 0 < self.sem then self.take
  else { self with value := self.value + 1 }

def trywait (self : Memory) : Memory :=
  if 0 < self.value then { self with value := self.value - 1, waits := self.waits + 1 } else self

/-- A post releases a waiter when the value shows that there is one. -/
def post (self : Memory) : Memory × Place :=
  if self.value < SEM_VALUE_MAX then
    ({ self with value := self.value + 1, posts := self.posts + 1 },
      .releasing (if self.value + 1 ≤ 0 then 1 else 0))
  else (self, .releasing 0)

/-- The waiters are those that the value shows before the posts. -/
def postMultiple (self : Memory) (count : Nat) : Memory × Place :=
  if self.value ≤ SEM_VALUE_MAX - count then
    ({ self with value := self.value + count, posts := self.posts + count },
      .releasing (if 0 < -self.value then
        (if -self.value ≤ count then -self.value else count).toNat else 0))
  else (self, .releasing 0)

end Memory

/-- These are the critical sections and the kernel waits of the build with a kernel semaphore. A
section that releases waiters does so after it has changed the value. -/
def step (memory : Memory) (place : Place) (label : Label) : Option (Memory × Place) :=
  match place, label with
  | .outside, .wait call => memory.acquire (.decrementing call)
  | .outside, .trywait => memory.acquire .trying
  | .outside, .post => memory.acquire .posting
  | .outside, .postMultiple count =>
      if count ≤ 0 then some (memory, .outside) else memory.acquire (.postingMultiple count.toNat)
  | .decrementing call, .go =>
      some ((memory.decrement call).1.unlock, (memory.decrement call).2)
  | .waiting _, .go => if 0 < memory.sem then some (memory.take, .outside) else none
  | .waiting .sem_timedwait, .timeout => some (memory, .cleaning .sem_timedwait)
  | .waiting call, .cancel =>
      if call = .ptw32_semwait then none else some (memory, .cleaning call)
  | .cleaning call, .go => memory.acquire (.withdrawing call)
  | .withdrawing call, .go => some ((memory.cleanup call).unlock, .outside)
  | .trying, .go => some (memory.trywait.unlock, .outside)
  | .posting, .go => some memory.post
  | .postingMultiple count, .go => some (memory.postMultiple count)
  | .releasing released, .go =>
      some ({ memory with sem := memory.sem + released }.unlock, .outside)
  | _, _ => none

/-- `sem_init` creates a kernel semaphore without releases. -/
def program (value : Nat) (Thread : Type) : Program Thread Memory Place Label where
  memory := ⟨value, false, 0, 0, 0⟩
  entry := .outside
  step _ := step

end Semaphore

end CodeCollect.Pthreads
