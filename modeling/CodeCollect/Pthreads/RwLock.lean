import CodeCollect.Library.Interleaving

namespace CodeCollect.Pthreads

open CodeCollect.Library Program

namespace RwLock

/-- This is the greatest `int`. -/
def INT_MAX : Int := 2 ^ 31 - 1

inductive Result where
  | success
  | EBUSY
  | ETIMEDOUT
deriving DecidableEq

/-- The plain functions wait for ever, the `try` functions not at all, and the `timed` functions up to
some time. -/
inductive Wait where
  | forever
  | never
  | limited
deriving DecidableEq

/-- What a call returns that does not get a mutex. -/
def Wait.failure : Wait → Result
  | .limited => .ETIMEDOUT
  | _ => .EBUSY

/-- A wait for the condition ends early when its time is up or its thread is cancelled. -/
inductive Interrupt where
  | timeout
  | cancel
deriving DecidableEq

/-- The mutexes record their owners, and the condition the thread that is blocked on it. -/
structure Memory (Thread : Type) where
  nSharedAccessCount : Int
  nExclusiveAccessCount : Int
  nCompletedSharedAccessCount : Int
  mtxExclusiveAccess : Option Thread
  mtxSharedAccessCompleted : Option Thread
  cndSharedAccessCompleted : Option Thread

inductive Phase where
  | outside
  | counting (wait : Wait)
  | overflowing (wait : Wait)
  | resetting
  | counted
  | entering (wait : Wait)
  | deciding (wait : Wait)
  | blocked
  | woken (interrupt : Option Interrupt)
  | checking (interrupt : Option Interrupt)
  | cancelling (interrupt : Interrupt)
  | refusing
  | leaving (result : Result)
  | writing
  | completing
  | completed
  | releasing
  | returned (result : Result)
  | exited
deriving DecidableEq

/-- A thread holds so many read locks, whatever else it does. -/
structure Place where
  reads : Nat
  phase : Phase
deriving DecidableEq

inductive Label where
  | rdlock (wait : Wait)
  | wrlock (wait : Wait)
  | unlock
  | interrupt (interrupt : Interrupt)
  | wake
  | go
deriving DecidableEq

variable {Thread : Type} [DecidableEq Thread]

namespace Memory

variable (self : Memory Thread)

def lockExclusive (thread : Thread) : Memory Thread :=
  { self with mtxExclusiveAccess := some thread }

def unlockExclusive : Memory Thread := { self with mtxExclusiveAccess := none }

def lockCompleted (thread : Thread) : Memory Thread :=
  { self with mtxSharedAccessCompleted := some thread }

def unlockCompleted : Memory Thread := { self with mtxSharedAccessCompleted := none }

/-- The finished read locks are not counted any more. -/
def settle : Memory Thread :=
  { self with
    nSharedAccessCount := self.nSharedAccessCount - self.nCompletedSharedAccessCount
    nCompletedSharedAccessCount := 0 }

def settlePositive : Memory Thread :=
  if self.nCompletedSharedAccessCount > 0 then self.settle else self

def enterExclusive : Memory Thread :=
  { self with nExclusiveAccessCount := self.nExclusiveAccessCount + 1 }

/-- The wait unlocks the mutex and blocks in one step. -/
def wait (thread : Thread) : Memory Thread :=
  { self.unlockCompleted with cndSharedAccessCompleted := some thread }

/-- A signal, a time-out and a cancellation all end the wait. -/
def signal : Memory Thread := { self with cndSharedAccessCompleted := none }

/-- The count of finished read locks runs up to zero while a writer waits. -/
def awaitReaders : Memory Thread :=
  { self with nCompletedSharedAccessCount := -self.nSharedAccessCount }

/-- A read lock is given back. -/
def complete : Memory Thread :=
  let counted := { self with
    nCompletedSharedAccessCount := self.nCompletedSharedAccessCount + 1 }
  if self.nCompletedSharedAccessCount + 1 = 0 then counted.signal else counted

/-- This undoes the wait of a writer. -/
def ptw32_rwlock_cancelwrwait : Memory Thread :=
  { self with
    nSharedAccessCount := -self.nCompletedSharedAccessCount
    nCompletedSharedAccessCount := 0 }

/-- The choice of `pthread_rwlock_wrlock` and its variants with both mutexes locked. -/
def decide (thread : Thread) (wait : Wait) : Memory Thread × Phase :=
  if self.nExclusiveAccessCount = 0 then
    let settled := self.settlePositive
    if settled.nSharedAccessCount > 0 then
      if wait = .never then (settled, .refusing) else (settled.awaitReaders.wait thread, .blocked)
    else if wait = .never then ({ settled with nExclusiveAccessCount := 1 }, .writing)
    else (settled.enterExclusive, .writing)
  else if wait = .never then (self, .returned .EBUSY)
  else (self.enterExclusive, .writing)

/-- `pthread_rwlock_unlock` reads the count of writers without a lock. -/
def unlock (reads : Nat) : Memory Thread × Place :=
  if self.nExclusiveAccessCount = 0 then (self, ⟨reads, .completing⟩)
  else ({ self with nExclusiveAccessCount := self.nExclusiveAccessCount - 1 }.unlockCompleted,
    ⟨reads, .releasing⟩)

/-- The end of a wait that was not interrupted. -/
def resume (thread : Thread) : Memory Thread × Phase :=
  if self.nCompletedSharedAccessCount < 0 then (self.wait thread, .blocked)
  else ({ self with nSharedAccessCount := 0 }.enterExclusive, .writing)

end Memory

/-- Calls start here. A thread gives back what it holds only. -/
def enter (self : Thread) (memory : Memory Thread) (reads : Nat) :
    Label → Option (Memory Thread × Place)
  | .rdlock wait =>
      if memory.mtxExclusiveAccess = none then
        some (memory.lockExclusive self, ⟨reads, .counting wait⟩)
      else if wait = .forever then none
      else some (memory, ⟨reads, .returned wait.failure⟩)
  | .wrlock wait =>
      if memory.mtxExclusiveAccess = none then
        some (memory.lockExclusive self, ⟨reads, .entering wait⟩)
      else if wait = .forever then none
      else some (memory, ⟨reads, .returned wait.failure⟩)
  | .unlock => if 0 < reads then some (memory.unlock reads) else none
  | _ => none

/-- The next step of a call. -/
def proceed (self : Thread) (memory : Memory Thread) (reads : Nat) :
    Phase → Option (Memory Thread × Place)
  | .counting wait =>
      some ({ memory with nSharedAccessCount := memory.nSharedAccessCount + 1 },
        ⟨reads + 1, if memory.nSharedAccessCount + 1 = INT_MAX then .overflowing wait else .counted⟩)
  | .overflowing _ =>
      if memory.mtxSharedAccessCompleted = none then
        some (memory.lockCompleted self, ⟨reads, .resetting⟩)
      else none
  | .resetting => some (memory.settle.unlockCompleted, ⟨reads, .counted⟩)
  | .counted => some (memory.unlockExclusive, ⟨reads, .returned .success⟩)
  | .entering wait =>
      if memory.mtxSharedAccessCompleted = none then
        some (memory.lockCompleted self, ⟨reads, .deciding wait⟩)
      else if wait = .never then some (memory, ⟨reads, .leaving .EBUSY⟩)
      else none
  | .deciding wait =>
      some ((memory.decide self wait).1, ⟨reads, (memory.decide self wait).2⟩)
  | .blocked =>
      if memory.cndSharedAccessCompleted = some self then none
      else some (memory, ⟨reads, .woken none⟩)
  | .woken interrupt =>
      if memory.mtxSharedAccessCompleted = none then
        some (memory.lockCompleted self, ⟨reads, .checking interrupt⟩)
      else none
  | .checking none => some ((memory.resume self).1, ⟨reads, (memory.resume self).2⟩)
  | .checking (some interrupt) =>
      some (memory.ptw32_rwlock_cancelwrwait.unlockCompleted, ⟨reads, .cancelling interrupt⟩)
  | .cancelling .timeout => some (memory.unlockExclusive, ⟨reads, .returned .ETIMEDOUT⟩)
  | .cancelling .cancel => some (memory.unlockExclusive, ⟨reads, .exited⟩)
  | .refusing => some (memory.unlockCompleted, ⟨reads, .leaving .EBUSY⟩)
  | .leaving result => some (memory.unlockExclusive, ⟨reads, .returned result⟩)
  | .completing =>
      if memory.mtxSharedAccessCompleted = none then
        some (memory.lockCompleted self, ⟨reads, .completed⟩)
      else none
  | .completed => some (memory.complete.unlockCompleted, ⟨reads - 1, .returned .success⟩)
  | .releasing => some (memory.unlockExclusive, ⟨reads, .returned .success⟩)
  | .returned _ => some (memory, ⟨reads, .outside⟩)
  | .outside | .writing | .exited => none

/-- The steps of all functions of one read-write lock. -/
def step (self : Thread) (memory : Memory Thread) (place : Place) :
    Label → Option (Memory Thread × Place)
  | .go => proceed self memory place.reads place.phase
  | .wake =>
      if place.phase = .blocked then some (memory.signal, ⟨place.reads, .woken none⟩) else none
  | .interrupt interrupt =>
      match place.phase with
      | .blocked => some (memory.signal, ⟨place.reads, .woken (some interrupt)⟩)
      | .entering .limited =>
          if interrupt = .timeout ∧ memory.mtxSharedAccessCompleted ≠ none then
            some (memory, ⟨place.reads, .leaving .ETIMEDOUT⟩)
          else none
      -- the count of finished read locks goes up without its mutex here
      | .overflowing .limited =>
          if interrupt = .timeout ∧ memory.mtxSharedAccessCompleted ≠ none then
            some ({ memory with
              nCompletedSharedAccessCount := memory.nCompletedSharedAccessCount + 1 },
              ⟨place.reads - 1, .leaving .ETIMEDOUT⟩)
          else none
      | _ => none
  | label =>
      match place.phase with
      | .outside => enter self memory place.reads label
      | .writing => if label = .unlock then some (memory.unlock place.reads) else none
      | _ => none

/-- A lock that nobody has used yet. -/
def program (Thread : Type) [DecidableEq Thread] : Program Thread (Memory Thread) Place Label where
  memory := ⟨0, 0, 0, none, none, none⟩
  entry := ⟨0, .outside⟩
  step := step

/-- A timed call does not give up while it settles the counts. -/
def Patient (place : Place) (label : Label) : Prop :=
  ∀ wait, place.phase = .overflowing wait → label = .go

/-- These are all other moves of one thread, each with what it needs and what it changes. -/
inductive Moves (self : Thread) : Memory Thread → Place → Memory Thread → Place → Prop
  | lockRead {memory reads wait} : memory.mtxExclusiveAccess = none →
      Moves self memory ⟨reads, .outside⟩ (memory.lockExclusive self) ⟨reads, .counting wait⟩
  | lockWrite {memory reads wait} : memory.mtxExclusiveAccess = none →
      Moves self memory ⟨reads, .outside⟩ (memory.lockExclusive self) ⟨reads, .entering wait⟩
  | refuse {memory reads result} :
      Moves self memory ⟨reads, .outside⟩ memory ⟨reads, .returned result⟩
  | unlock {memory reads phase} : phase = .outside ∧ 0 < reads ∨ phase = .writing →
      Moves self memory ⟨reads, phase⟩ (memory.unlock reads).1 (memory.unlock reads).2
  | countLast {memory reads wait} : memory.nSharedAccessCount + 1 = INT_MAX →
      Moves self memory ⟨reads, .counting wait⟩
        { memory with nSharedAccessCount := memory.nSharedAccessCount + 1 }
        ⟨reads + 1, .overflowing wait⟩
  | count {memory reads wait} : memory.nSharedAccessCount + 1 ≠ INT_MAX →
      Moves self memory ⟨reads, .counting wait⟩
        { memory with nSharedAccessCount := memory.nSharedAccessCount + 1 } ⟨reads + 1, .counted⟩
  | lockOverflow {memory reads wait} : memory.mtxSharedAccessCompleted = none →
      Moves self memory ⟨reads, .overflowing wait⟩ (memory.lockCompleted self) ⟨reads, .resetting⟩
  | reset {memory reads} :
      Moves self memory ⟨reads, .resetting⟩ memory.settle.unlockCompleted ⟨reads, .counted⟩
  | counted {memory reads} :
      Moves self memory ⟨reads, .counted⟩ memory.unlockExclusive ⟨reads, .returned .success⟩
  | lockEntering {memory reads wait} : memory.mtxSharedAccessCompleted = none →
      Moves self memory ⟨reads, .entering wait⟩ (memory.lockCompleted self) ⟨reads, .deciding wait⟩
  | leave {memory reads wait result} :
      Moves self memory ⟨reads, .entering wait⟩ memory ⟨reads, .leaving result⟩
  | decide {memory reads wait} :
      Moves self memory ⟨reads, .deciding wait⟩ (memory.decide self wait).1
        ⟨reads, (memory.decide self wait).2⟩
  | awake {memory reads} : memory.cndSharedAccessCompleted ≠ some self →
      Moves self memory ⟨reads, .blocked⟩ memory ⟨reads, .woken none⟩
  | wake {memory reads interrupt} :
      Moves self memory ⟨reads, .blocked⟩ memory.signal ⟨reads, .woken interrupt⟩
  | lockWoken {memory reads interrupt} : memory.mtxSharedAccessCompleted = none →
      Moves self memory ⟨reads, .woken interrupt⟩ (memory.lockCompleted self)
        ⟨reads, .checking interrupt⟩
  | resume {memory reads} :
      Moves self memory ⟨reads, .checking none⟩ (memory.resume self).1
        ⟨reads, (memory.resume self).2⟩
  | cancel {memory reads interrupt} :
      Moves self memory ⟨reads, .checking (some interrupt)⟩
        memory.ptw32_rwlock_cancelwrwait.unlockCompleted ⟨reads, .cancelling interrupt⟩
  | cancelled {memory reads interrupt phase} : phase = .returned .ETIMEDOUT ∨ phase = .exited →
      Moves self memory ⟨reads, .cancelling interrupt⟩ memory.unlockExclusive ⟨reads, phase⟩
  | refusing {memory reads} :
      Moves self memory ⟨reads, .refusing⟩ memory.unlockCompleted ⟨reads, .leaving .EBUSY⟩
  | leaving {memory reads result} :
      Moves self memory ⟨reads, .leaving result⟩ memory.unlockExclusive ⟨reads, .returned result⟩
  | lockComplete {memory reads} : memory.mtxSharedAccessCompleted = none →
      Moves self memory ⟨reads, .completing⟩ (memory.lockCompleted self) ⟨reads, .completed⟩
  | complete {memory reads} :
      Moves self memory ⟨reads, .completed⟩ memory.complete.unlockCompleted
        ⟨reads - 1, .returned .success⟩
  | release {memory reads} :
      Moves self memory ⟨reads, .releasing⟩ memory.unlockExclusive ⟨reads, .returned .success⟩
  | done {memory reads result} :
      Moves self memory ⟨reads, .returned result⟩ memory ⟨reads, .outside⟩

variable {self : Thread} {memory next : Memory Thread} {reads : Nat} {phase : Phase}
  {place reached : Place} {label : Label}

omit [DecidableEq Thread] in
theorem moves_of_enter (taken : enter self memory reads label = some (next, reached)) :
    Moves self memory ⟨reads, .outside⟩ next reached := by
  unfold enter at taken
  split at taken
  · split at taken
    · rename_i free
      exact step_some taken (.lockRead free)
    · split at taken
      · exact absurd taken nofun
      · exact step_some taken .refuse
  · split at taken
    · rename_i free
      exact step_some taken (.lockWrite free)
    · split at taken
      · exact absurd taken nofun
      · exact step_some taken .refuse
  · split at taken
    · rename_i holds
      exact step_some taken (.unlock (.inl ⟨rfl, holds⟩))
    · exact absurd taken nofun
  · exact absurd taken nofun

theorem moves_of_proceed (taken : proceed self memory reads phase = some (next, reached)) :
    Moves self memory ⟨reads, phase⟩ next reached := by
  unfold proceed at taken
  split at taken
  case h_1 =>
    split_ifs at taken with last
    · exact step_some taken (.countLast last)
    · exact step_some taken (.count last)
  case h_2 => exact step_when taken .lockOverflow
  case h_3 => exact step_some taken .reset
  case h_4 => exact step_some taken .counted
  case h_5 =>
    split at taken
    · rename_i free
      exact step_some taken (.lockEntering free)
    · exact step_when taken fun _ => .leave
  case h_6 => exact step_some taken .decide
  case h_7 =>
    split at taken
    · exact absurd taken nofun
    · rename_i signalled
      exact step_some taken (.awake signalled)
  case h_8 => exact step_when taken .lockWoken
  case h_9 => exact step_some taken .resume
  case h_10 => exact step_some taken .cancel
  case h_11 => exact step_some taken (.cancelled (.inl rfl))
  case h_12 => exact step_some taken (.cancelled (.inr rfl))
  case h_13 => exact step_some taken .refusing
  case h_14 => exact step_some taken .leaving
  case h_15 => exact step_when taken .lockComplete
  case h_16 => exact step_some taken .complete
  case h_17 => exact step_some taken .release
  case h_18 => exact step_some taken .done
  all_goals exact absurd taken nofun

/-- Every other step of the functions is one of the moves. -/
theorem moves_of_step (taken : step self memory place label = some (next, reached))
    (patient : Patient place label) :
    Moves self memory place next reached := by
  obtain ⟨reads, phase⟩ := place
  unfold step at taken
  split at taken
  · exact moves_of_proceed taken
  · split at taken
    · rename_i blocked
      obtain rfl : phase = .blocked := blocked
      exact step_some taken .wake
    · exact absurd taken nofun
  · split at taken
    · rename_i blocked
      obtain rfl : phase = .blocked := blocked
      exact step_some taken .wake
    · rename_i entering
      obtain rfl : phase = .entering .limited := entering
      exact step_when taken fun _ => .leave
    · rename_i overflowing
      exact absurd (patient _ overflowing) nofun
    · exact absurd taken nofun
  · split at taken
    · rename_i outside
      obtain rfl : phase = .outside := outside
      exact moves_of_enter taken
    · rename_i writing
      obtain rfl : phase = .writing := writing
      exact step_when taken fun _ => .unlock (.inr rfl)
    · exact absurd taken nofun

end RwLock

end CodeCollect.Pthreads
