import CodeCollect.Pthreads.Semaphore

namespace CodeCollect.Pthreads

open CodeCollect.Library

def PTHREAD_BARRIER_SERIAL_THREAD : Int := -1

namespace Barrier

/-- The lock is held through the node of the thread that has acquired it or through the node of
the barrier. -/
inductive Node where
  | node
  | proxynode
deriving DecidableEq

/-- The calls are numbered in the order in which they count the height down. A call that counts it
up again passes with the new height. -/
inductive Event where
  | arrived (call : Nat)
  | passed (call : Nat) (height : Int)
  | returned (call : Nat) (result : Int)
deriving DecidableEq

/-- The latest event of the history comes first, and no step reads the history. -/
structure Memory where
  nCurrentBarrierHeight : Int
  lock : Option Node
  semBarrierBreeched : Nat
  history : List Event

inductive Place where
  | outside
  | entered
  | transferring (call : Nat)
  | posting (call : Nat)
  | releasing (call : Nat)
  | waiting (call : Nat)
  | crossing (call : Nat) (result : Int)
  | opening (call : Nat) (result : Int)
  | returning (call : Nat) (result : Int)
deriving DecidableEq

/-- So many calls have arrived. -/
def arrivals : List Event → Nat
  | [] => 0
  | .arrived _ :: before => arrivals before + 1
  | _ :: before => arrivals before

/-- So many calls have passed. -/
def passes : List Event → Nat
  | [] => 0
  | .passed _ _ :: before => passes before + 1
  | _ :: before => passes before

namespace Memory

/-- The last thread to arrive keeps the lock, and the other ones release it. -/
def arrive (self : Memory) : Memory × Place :=
  ({ self with
    nCurrentBarrierHeight := self.nCurrentBarrierHeight - 1
    history := .arrived (arrivals self.history) :: self.history },
    if self.nCurrentBarrierHeight - 1 = 0 then .transferring (arrivals self.history)
    else .releasing (arrivals self.history))

/-- `sem_post_multiple` refuses a count that is not a positive `int`. -/
def post (self : Memory) (height : Nat) : Memory × Int :=
  if 1 < height then
    if height - 1 ≤ Semaphore.SEM_VALUE_MAX.toNat then
      ({ self with semBarrierBreeched := self.semBarrierBreeched + (height - 1) }, 0)
    else (self, -1)
  else (self, 0)

/-- The last thread to cross opens the barrier for the next round. -/
def cross (self : Memory) (height call : Nat) (result : Int) : Memory × Place :=
  ({ self with
    nCurrentBarrierHeight := self.nCurrentBarrierHeight + 1
    history := .passed call (self.nCurrentBarrierHeight + 1) :: self.history },
    if self.nCurrentBarrierHeight + 1 = height then .opening call result
    else .returning call result)

end Memory

/-- These are the steps of `pthread_barrier_wait` for a barrier of this height. -/
def step (height : Nat) (memory : Memory) : Place → Option (Memory × Place)
  | .outside =>
      if memory.lock = none then some ({ memory with lock := some .node }, .entered) else none
  | .entered => some memory.arrive
  | .transferring call => some ({ memory with lock := some .proxynode }, .posting call)
  | .posting call => some ((memory.post height).1, .crossing call (memory.post height).2)
  | .releasing call => some ({ memory with lock := none }, .waiting call)
  | .waiting call =>
      if 0 < memory.semBarrierBreeched then
        some ({ memory with semBarrierBreeched := memory.semBarrierBreeched - 1 },
          .crossing call 0)
      else none
  | .crossing call result => some (memory.cross height call result)
  | .opening call result => some ({ memory with lock := none },
      .returning call (if result = 0 then PTHREAD_BARRIER_SERIAL_THREAD else result))
  | .returning call result =>
      some ({ memory with history := .returned call result :: memory.history }, .outside)

/-- `pthread_barrier_init` sets the height and leaves the lock free. -/
def program (height : Nat) (Thread : Type) : Program Thread Memory Place Unit where
  memory := ⟨height, none, 0, []⟩
  entry := .outside
  step _ memory place _ := step height memory place

end Barrier

end CodeCollect.Pthreads
