import CodeCollect.Library.Interleaving

namespace CodeCollect.Pthreads

open CodeCollect.Library

/-- This is the largest `int`. -/
def INT_MAX : Int := 2147483647

namespace Cond

/-- Each token of the queue remembers the time of the critical section that issued it. The last
four fields are history and are never read by a step. -/
structure Memory where
  nWaitersBlocked : Int
  nWaitersGone : Int
  nWaitersToUnblock : Int
  semBlockQueue : List Nat
  semBlockLock : Nat
  mtxUnblockLock : Bool
  clock : Nat
  lastBroadcast : Nat
  issued : Nat
  returned : Nat

/-- A waiter remembers when it registered and which token it took. The external mutex is locked
by the caller, and nothing is assumed about who else locks it. -/
inductive Place where
  | idle
  | entering
  | counting
  | posting (since : Nat)
  | unlocking (since : Nat)
  | blocked (since : Nat)
  | cleaning (since : Nat) (token : Option Nat)
  | adjusting (since : Nat) (token : Option Nat)
  | overflowing (since : Nat) (token : Option Nat)
  | resetting (since : Nat) (token : Option Nat)
  | reopening (since : Nat) (token : Option Nat)
  | releasing (nSignalsWasLeft : Int) (since : Nat) (token : Option Nat)
  | opening (since : Nat) (token : Option Nat)
  | relocking (since : Nat) (token : Option Nat)
  | unblocking (unblockAll : Bool)
  | testing (unblockAll : Bool)
  | closing (unblockAll : Bool)
  | assigning (unblockAll : Bool)
  | issuing (nSignalsToIssue : Int) (stamp : Nat)
  | signalling (nSignalsToIssue : Int) (stamp : Nat)
  | yielding
deriving DecidableEq

/-- A blocked waiter takes any token of the queue, or it stops to wait. -/
inductive Label where
  | wait
  | unblock (unblockAll : Bool)
  | go
  | take (index : Nat)
  | timeout
  | cancel
deriving DecidableEq

namespace Memory

/-- The clock counts the registrations and the signals. -/
def tick (self : Memory) : Memory := { self with clock := self.clock + 1 }

/-- The counts of `ptw32_cond_wait_cleanup` are adjusted under the unblock lock. -/
def adjust (self : Memory) (since : Nat) (token : Option Nat) : Memory × Place :=
  if self.nWaitersToUnblock ≠ 0 then
    ({ self with nWaitersToUnblock := self.nWaitersToUnblock - 1 },
      .releasing self.nWaitersToUnblock since token)
  else
    ({ self with nWaitersGone := self.nWaitersGone + 1 },
      if INT_MAX / 2 = self.nWaitersGone + 1 then .overflowing since token
      else .releasing 0 since token)

/-- Waiters that have gone are taken out of the blocked ones. -/
def settle (self : Memory) : Memory :=
  { self with
    nWaitersBlocked := self.nWaitersBlocked - self.nWaitersGone
    nWaitersGone := 0 }

/-- A signal or a broadcast moves waiters from the blocked ones to those to unblock. The last
argument is what is already to unblock. -/
def assign (self : Memory) (unblockAll : Bool) (nWaitersToUnblock : Int) : Memory × Place :=
  if unblockAll then
    ({ self.tick with
      nWaitersToUnblock := nWaitersToUnblock + self.nWaitersBlocked
      nWaitersBlocked := 0
      lastBroadcast := self.clock
      issued := self.issued + self.nWaitersBlocked.toNat }, .issuing self.nWaitersBlocked self.clock)
  else
    ({ self.tick with
      nWaitersToUnblock := nWaitersToUnblock + 1
      nWaitersBlocked := self.nWaitersBlocked - 1
      issued := self.issued + 1 }, .issuing 1 self.clock)

/-- This is the branch taken by `ptw32_cond_unblock` under the unblock lock. -/
def test (self : Memory) (unblockAll : Bool) : Memory × Place :=
  if self.nWaitersToUnblock ≠ 0 then
    if self.nWaitersBlocked = 0 then (self, .yielding)
    else self.assign unblockAll self.nWaitersToUnblock
  else if self.nWaitersBlocked > self.nWaitersGone then (self, .closing unblockAll)
  else (self, .yielding)

def lock (self : Memory) (place : Place) : Option (Memory × Place) :=
  if self.mtxUnblockLock then none else some ({ self with mtxUnblockLock := true }, place)

def unlock (self : Memory) : Memory := { self with mtxUnblockLock := false }

/-- This is `sem_wait` on the gate. -/
def close (self : Memory) (place : Place) : Option (Memory × Place) :=
  if 0 < self.semBlockLock then
    some ({ self with semBlockLock := self.semBlockLock - 1 }, place)
  else none

/-- This is `sem_post` on the gate. -/
def post (self : Memory) : Memory := { self with semBlockLock := self.semBlockLock + 1 }

end Memory

/-- These are the steps of `ptw32_cond_timedwait`, of its cleanup and of `ptw32_cond_unblock`. -/
def step (memory : Memory) (place : Place) (label : Label) : Option (Memory × Place) :=
  match place, label with
  | .idle, .wait => some (memory, .entering)
  | .idle, .unblock unblockAll => some (memory, .unblocking unblockAll)
  | .entering, .go => memory.close .counting
  | .entering, .cancel => some (memory, .idle)
  | .counting, .go =>
      some ({ memory.tick with nWaitersBlocked := memory.nWaitersBlocked + 1 },
        .posting memory.clock)
  | .posting since, .go => some (memory.post, .unlocking since)
  | .unlocking since, .go => some (memory, .blocked since)
  | .blocked since, .take index =>
      memory.semBlockQueue[index]?.map fun token =>
        ({ memory with semBlockQueue := memory.semBlockQueue.eraseIdx index },
          .cleaning since (some token))
  | .blocked since, .timeout => some (memory, .cleaning since none)
  | .blocked since, .cancel => some (memory, .cleaning since none)
  | .cleaning since token, .go => memory.lock (.adjusting since token)
  | .adjusting since token, .go => some (memory.adjust since token)
  | .overflowing since token, .go => memory.close (.resetting since token)
  | .resetting since token, .go => some (memory.settle, .reopening since token)
  | .reopening since token, .go => some (memory.post, .releasing 0 since token)
  | .releasing nSignalsWasLeft since token, .go =>
      some (memory.unlock, if 1 = nSignalsWasLeft then .opening since token
        else .relocking since token)
  | .opening since token, .go => some (memory.post, .relocking since token)
  | .relocking _ token, .go =>
      some ({ memory with returned := memory.returned + if token.isSome then 1 else 0 }, .idle)
  | .unblocking unblockAll, .go => memory.lock (.testing unblockAll)
  | .testing unblockAll, .go => some (memory.test unblockAll)
  | .closing unblockAll, .go => memory.close (.assigning unblockAll)
  | .assigning unblockAll, .go => some (memory.settle.assign unblockAll 0)
  | .issuing nSignalsToIssue stamp, .go =>
      some (memory.unlock, .signalling nSignalsToIssue stamp)
  | .signalling nSignalsToIssue stamp, .go =>
      some ({ memory with
        semBlockQueue := memory.semBlockQueue ++ List.replicate nSignalsToIssue.toNat stamp }, .idle)
  | .yielding, .go => some (memory.unlock, .idle)
  | _, _ => none

/-- `pthread_cond_init` opens the gate and leaves the queue empty. -/
def program (Thread : Type) : Program Thread Memory Place Label where
  memory := ⟨0, 0, 0, [], 1, false, 0, 0, 0, 0⟩
  entry := .idle
  step _ := step

end Cond

end CodeCollect.Pthreads
