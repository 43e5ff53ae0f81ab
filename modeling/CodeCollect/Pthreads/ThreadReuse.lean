import CodeCollect.Library.Interleaving
import CodeCollect.Library.LinkedQueue

namespace CodeCollect.Pthreads

open CodeCollect.Library Program

namespace ThreadReuse

/-- This address stands for no structure in the reuse queue. -/
def PTW32_THREAD_REUSE_EMPTY : Nat := 1

/-- The reuse counter has this many values. -/
def COUNTER_VALUES : Nat := 2 ^ 32

structure PthreadT where
  p : Nat
  x : Nat
deriving DecidableEq

inductive PThreadState where
  | Initial
  | Running
  | Exiting
  | Last
  | Reuse
deriving DecidableEq

/-- `pthread_self` returns a null identifier when it fails. -/
inductive Result where
  | success
  | ESRCH
  | EINVAL
  | EDEADLK
  | ENOENT
  | EAGAIN
  | nil
deriving DecidableEq

/-- A Win32 thread may have a POSIX structure, which it finds by its thread-specific key. -/
inductive Kernel where
  | unborn
  | created (p : Nat)
  | posix (p : Nat)
  | win32
  | ended
deriving DecidableEq

/-- A structure is made for a new thread or for a Win32 thread that has none, which may be about to
join another thread. -/
inductive Origin where
  | create (detached : Bool)
  | implicit (join : Option PthreadT)
deriving DecidableEq

/-- A structure is destroyed when its thread exits, when it is detached, or when no thread could be
made for it. -/
inductive Reason where
  | exited
  | detached
  | failed (result : Result)
deriving DecidableEq

/-- The fields of all structures are kept by address, and what has happened is recorded. -/
structure Memory (Thread : Type) where
  reuseLock : Option Thread
  reuse : LinkedQueue Nat
  brk : Nat
  x : Nat → Nat
  state : Nat → PThreadState
  detachState : Nat → Bool
  threadH : Nat → Option Thread
  stateLock : Nat → Option Thread
  kernel : Thread → Kernel
  issued : List (Thread × PthreadT)
  released : List Thread
  last : List Thread
  pushed : List (Nat × Option Thread)
  popped : List Nat

inductive Place where
  | outside
  | starting
  | popping (origin : Origin)
  | allocating (origin : Origin)
  | initialising (origin : Origin) (thread : PthreadT)
  | attributes (origin : Origin) (thread : PthreadT)
  | spawning (origin : Origin) (thread : PthreadT)
  | exiting
  | cleaning
  | clearing
  | detaching (thread : PthreadT)
  | locking (thread : PthreadT)
  | deciding (thread : PthreadT)
  | releasing (thread : PthreadT) (destroyIt : Bool)
  | waiting (thread : PthreadT)
  | joining (thread : PthreadT)
  | joinSelf (thread : PthreadT)
  | joinWaiting (thread : PthreadT)
  | joined (thread : PthreadT)
  | destroying (thread : PthreadT) (reason : Reason)
  | pushing (thread : PthreadT) (reason : Reason)
  | killing (thread : PthreadT)
  | returned (result : Result)
deriving DecidableEq

inductive Label (Thread : Type) where
  | attach
  | start
  | throw
  | exit
  | create (detached : Bool)
  | self
  | detach (thread : PthreadT)
  | join (thread : PthreadT)
  | kill (thread : PthreadT)
  | spawn (threadH : Thread)
  | fail
  | cancel
  | go

namespace Memory

variable {Thread : Type} [DecidableEq Thread] (self : Memory Thread)

/-- The structure at an address has this identifier. -/
def ptHandle (p : Nat) : PthreadT := ⟨p, self.x p⟩

/-- The identifier names no structure or was reclaimed. -/
def Stale (thread : PthreadT) : Prop := thread.p = 0 ∨ thread.x ≠ self.x thread.p

instance (thread : PthreadT) : Decidable (self.Stale thread) :=
  inferInstanceAs (Decidable (_ ∨ _))

def acquire (thread : Thread) (place : Place) : Option (Memory Thread × Place) :=
  if self.reuseLock = none then some ({ self with reuseLock := some thread }, place) else none

def unlock : Memory Thread := { self with reuseLock := none }

def acquireState (thread : Thread) (p : Nat) (place : Place) : Option (Memory Thread × Place) :=
  if self.stateLock p = none then
    some ({ self with stateLock := Function.update self.stateLock p (some thread) }, place)
  else none

def unlockState (p : Nat) : Memory Thread :=
  { self with stateLock := Function.update self.stateLock p none }

def setState (p : Nat) (state : PThreadState) : Memory Thread :=
  { self with state := Function.update self.state p state }

def setDetachState (p : Nat) (detached : Bool) : Memory Thread :=
  { self with detachState := Function.update self.detachState p detached }

def setKernel (thread : Thread) (kernel : Kernel) : Memory Thread :=
  { self with kernel := Function.update self.kernel thread kernel }

/-- The first structure of the queue is reused. -/
def ptw32_threadReusePop (origin : Origin) : Memory Thread × Place :=
  match self.reuse.pop PTW32_THREAD_REUSE_EMPTY 0 with
  | none => (self.unlock, .allocating origin)
  | some (p, reuse) =>
      ({ self.unlock with reuse := reuse, popped := self.popped ++ [p] },
        .initialising origin (self.ptHandle p))

/-- A structure is wiped, and its counter tells it from the thread that it was for. The record keeps
the thread that it was for. -/
def ptw32_threadReusePush (p : Nat) : Memory Thread :=
  { self.unlock with
    reuse := self.reuse.push PTW32_THREAD_REUSE_EMPTY p
    x := Function.update self.x p ((self.x p + 1) % COUNTER_VALUES)
    state := Function.update self.state p .Reuse
    detachState := Function.update self.detachState p false
    threadH := Function.update self.threadH p none
    stateLock := Function.update self.stateLock p none
    pushed := self.pushed ++ [(p, self.threadH p)] }

/-- New structures are all zero. -/
def calloc : Memory Thread :=
  { self with
    brk := self.brk + 1
    x := Function.update self.x self.brk 0
    state := Function.update self.state self.brk .Initial
    detachState := Function.update self.detachState self.brk false
    threadH := Function.update self.threadH self.brk none
    stateLock := Function.update self.stateLock self.brk none }

/-- The defaults of a structure. -/
def ptw32_new (p : Nat) : Memory Thread := (self.setDetachState p false).unlockState p

/-- A thread gets its structure, which is released from the start when it is detached. -/
def issue (threadH : Thread) (kernel : Kernel) (thread : PthreadT) (detached : Bool) :
    Memory Thread :=
  { self.setKernel threadH kernel with
    threadH := Function.update self.threadH thread.p (some threadH)
    issued := self.issued ++ [(threadH, thread)]
    released := if detached then self.released ++ [threadH] else self.released }

/-- A thread that has exited is destroyed by whoever detaches it, and otherwise it destroys itself
when it exits. -/
def decide (thread : PthreadT) : Memory Thread × Place :=
  let decided := { self.unlockState thread.p with
    released := self.released ++ (self.threadH thread.p).toList }
  if self.state thread.p ≠ .Last then
    (decided.setDetachState thread.p true, .releasing thread false)
  else (decided, .releasing thread (!self.detachState thread.p))

/-- Both functions check the identifier first. -/
def check (thread : PthreadT) (joinable : Memory Thread × Place) : Memory Thread × Place :=
  if self.Stale thread then (self.unlock, .returned .ESRCH)
  else if self.detachState thread.p then (self.unlock, .returned .EINVAL)
  else joinable

/-- The thread of a structure has ended, or there is no thread to wait for. -/
def Ended (p : Nat) : Prop := ∀ threadH ∈ self.threadH p, self.kernel threadH = .ended

instance (p : Nat) : Decidable (self.Ended p) := inferInstanceAs (Decidable (∀ _ ∈ _, _ = _))

end Memory

/-- A destroyed structure is left in different places. -/
def Reason.next : Reason → Place
  | .exited => .clearing
  | .detached => .returned .success
  | .failed result => .returned result

/-- A Win32 thread goes on to join when it has its structure. -/
def Origin.next : Origin → Place
  | .create _ | .implicit none => .returned .success
  | .implicit (some thread) => .joinWaiting thread

def Origin.failure : Origin → Result
  | .create _ => .EAGAIN
  | .implicit none => .nil
  | .implicit (some _) => .ENOENT

variable {Thread : Type} [DecidableEq Thread]

/-- Calls are taken by threads that run. -/
def enter (self : Thread) (memory : Memory Thread) (label : Label Thread) :
    Option (Memory Thread × Place) :=
  match memory.kernel self, label with
  | .unborn, .attach => some (memory.setKernel self .win32, .outside)
  | .created p, .start => memory.acquireState self p .starting
  | .posix p, .throw => some (memory.setState p .Exiting, .outside)
  | .posix p, .exit => memory.acquireState self p .exiting
  | .win32, .exit => some (memory.setKernel self .ended, .outside)
  | .win32, .self => memory.acquire self (.popping (.implicit none))
  | .posix _, .join thread | .win32, .join thread => memory.acquire self (.joining thread)
  | .posix _, .create detached | .win32, .create detached =>
      memory.acquire self (.popping (.create detached))
  | .posix _, .detach thread | .win32, .detach thread => memory.acquire self (.detaching thread)
  | .posix _, .kill thread | .win32, .kill thread => memory.acquire self (.killing thread)
  | _, _ => none

/-- A step that goes on in a call. Each critical section is one step after the lock was acquired. -/
def proceed (self : Thread) (memory : Memory Thread) : Place → Option (Memory Thread × Place)
  | .outside => none
  | .starting =>
      match memory.kernel self with
      | .created p =>
          some (((memory.setState p .Running).unlockState p).setKernel self (.posix p), .outside)
      | _ => none
  | .popping origin => some (memory.ptw32_threadReusePop origin)
  | .allocating origin => some (memory.calloc, .initialising origin ⟨memory.brk, 0⟩)
  | .initialising origin thread => some (memory.ptw32_new thread.p, .attributes origin thread)
  | .attributes (.create detached) thread =>
      some ((memory.setDetachState thread.p detached).setState thread.p .Initial,
        .spawning (.create detached) thread)
  | .attributes (.implicit join) thread =>
      some (memory.setDetachState thread.p true, .spawning (.implicit join) thread)
  | .spawning (.create _) _ => none
  | .spawning (.implicit join) thread =>
      some (memory.issue self (.posix thread.p) thread true, Origin.next (.implicit join))
  | .exiting =>
      match memory.kernel self with
      | .posix p =>
          some ({ (memory.setState p .Last).unlockState p with
            last := memory.last ++ [self] }, .cleaning)
      | _ => none
  | .cleaning =>
      match memory.kernel self with
      | .posix p =>
          if memory.detachState p then some (memory, .destroying (memory.ptHandle p) .exited)
          else some (memory.setKernel self .ended, .outside)
      | _ => none
  | .clearing => some (memory.setKernel self .ended, .outside)
  | .detaching thread => some (memory.check thread (memory, .locking thread))
  | .locking thread => memory.acquireState self thread.p (.deciding thread)
  | .deciding thread => some (memory.decide thread)
  | .releasing thread destroyIt =>
      some (memory.unlock, if destroyIt then .waiting thread else .returned .success)
  | .waiting thread =>
      if memory.Ended thread.p then some (memory, .destroying thread .detached) else none
  | .joining thread => some (memory.check thread (memory.unlock, .joinSelf thread))
  | .joinSelf thread =>
      match memory.kernel self with
      | .posix p =>
          some (memory, if memory.ptHandle p = thread then .returned .EDEADLK
            else .joinWaiting thread)
      | .win32 => memory.acquire self (.popping (.implicit (some thread)))
      | _ => none
  | .joinWaiting thread => if memory.Ended thread.p then some (memory, .joined thread) else none
  | .joined thread => memory.acquire self (.detaching thread)
  | .destroying thread reason => memory.acquire self (.pushing thread reason)
  | .pushing thread reason => some (memory.ptw32_threadReusePush thread.p, reason.next)
  | .killing thread =>
      some (memory.unlock,
        .returned (if memory.Stale thread ∨ memory.threadH thread.p = none then .ESRCH
          else .success))
  | .returned _ => some (memory, .outside)

/-- No memory, no event or no thread can be had. -/
def fail (memory : Memory Thread) : Place → Option (Memory Thread × Place)
  | .allocating origin => some (memory, .returned origin.failure)
  | .initialising origin thread =>
      some (memory.ptw32_new thread.p, .destroying thread (.failed origin.failure))
  | .attributes (.create detached) thread =>
      some (memory, .destroying thread (.failed (Origin.create detached).failure))
  | .spawning origin thread => some (memory, .destroying thread (.failed origin.failure))
  | _ => none

def spawn (memory : Memory Thread) (threadH : Thread) : Place → Option (Memory Thread × Place)
  | .spawning (.create detached) thread =>
      if memory.kernel threadH = .unborn then
        some (memory.issue threadH (.created thread.p) thread detached, .returned .success)
      else none
  | _ => none

/-- A thread that waits for another one can be cancelled. -/
def cancel (memory : Memory Thread) : Place → Option (Memory Thread × Place)
  | .joinWaiting _ => some (memory, .outside)
  | _ => none

/-- Cleanup handlers, destructors of thread-specific data, robust mutexes and inherited scheduling
parameters are left out. -/
def step (self : Thread) (memory : Memory Thread) (place : Place) :
    Label Thread → Option (Memory Thread × Place)
  | .go => proceed self memory place
  | .fail => fail memory place
  | .spawn threadH => spawn memory threadH place
  | .cancel => cancel memory place
  | label => if place = .outside then enter self memory label else none

/-- The first address that is not special is the first one to be allocated. -/
def program (Thread : Type) [DecidableEq Thread] : Program Thread (Memory Thread) Place (Label Thread)
    where
  memory :=
    { reuseLock := none
      reuse := ⟨PTW32_THREAD_REUSE_EMPTY, PTW32_THREAD_REUSE_EMPTY, fun _ => 0⟩
      brk := 2
      x := fun _ => 0
      state := fun _ => .Initial
      detachState := fun _ => false
      threadH := fun _ => none
      stateLock := fun _ => none
      kernel := fun _ => .unborn
      issued := []
      released := []
      last := []
      pushed := []
      popped := [] }
  entry := .outside
  step := step

/-- A structure that a thread has in hand is being made, with or without a choice of its detach
state, or destroyed by its own thread, or checked, or reclaimed from another thread, which may be
known to have ended. -/
inductive Role where
  | creates (detached : Option Bool)
  | dies
  | checks
  | reclaims (ended : Bool)
deriving DecidableEq

def role : Place → Option (Role × PthreadT)
  | .initialising _ thread | .attributes _ thread | .destroying thread (.failed _)
  | .pushing thread (.failed _) => some (.creates none, thread)
  | .spawning (.create detached) thread => some (.creates (some detached), thread)
  | .spawning (.implicit _) thread => some (.creates (some true), thread)
  | .destroying thread .exited | .pushing thread .exited => some (.dies, thread)
  | .locking thread | .deciding thread => some (.checks, thread)
  | .releasing thread true | .waiting thread => some (.reclaims false, thread)
  | .destroying thread .detached | .pushing thread .detached => some (.reclaims true, thread)
  | _ => none

/-- The lock of the reuse queue is held in these places. -/
def holds : Place → Bool
  | .popping _ | .detaching _ | .locking _ | .deciding _ | .releasing _ _ | .joining _
  | .pushing _ _ | .killing _ => true
  | _ => false

def Locks (place : Place) : Prop := holds place = true

theorem locks_congr {place reached : Place} (same : holds reached = holds place) :
    Locks reached ↔ Locks place := by
  rw [Locks, Locks, same]

/-- A structure is made for the thread itself in these places. -/
def implicit : Place → Bool
  | .popping (.implicit _) | .allocating (.implicit _) | .initialising (.implicit _) _
  | .attributes (.implicit _) _ | .spawning (.implicit _) _ => true
  | _ => false

/-- A thread has reached its last state in these places. -/
def late : Place → Bool
  | .cleaning | .destroying _ .exited | .pushing _ .exited | .clearing => true
  | _ => false

/-- A thread has no structure in hand and has not reached its last state. -/
def Idle (place : Place) : Prop := role place = none ∧ late place = false

/-- These are all moves of one thread, each with what it needs and what it changes. -/
inductive Moves (self : Thread) (memory : Memory Thread) : Place → Memory Thread → Place → Prop
  | attach : memory.kernel self = .unborn →
      Moves self memory .outside (memory.setKernel self .win32) .outside
  | leave : memory.kernel self = .win32 →
      Moves self memory .outside (memory.setKernel self .ended) .outside
  | lockState {p : Nat} {locks : Nat → Option Thread} {place : Place} :
      memory.kernel self = .created p ∨ memory.kernel self = .posix p →
      place = .starting ∨ place = .exiting →
      Moves self memory .outside { memory with stateLock := locks } place
  | throw {p : Nat} : memory.kernel self = .posix p →
      Moves self memory .outside (memory.setState p .Exiting) .outside
  | lock {place reached : Place} : memory.reuseLock = none →
      (place = .outside → memory.kernel self ≠ .unborn) → Idle place → Idle reached →
      holds reached = true → (implicit reached = true → memory.kernel self = .win32) →
      Moves self memory place { memory with reuseLock := some self } reached
  | unlock {place reached : Place} : holds place = true → Idle place → Idle reached →
      place ≠ .outside → holds reached = false → implicit reached = implicit place →
      Moves self memory place memory.unlock reached
  | walk {place reached : Place} : Idle place → Idle reached → place ≠ .outside →
      holds place = false → holds reached = false → implicit reached = false →
      Moves self memory place memory reached
  | start {p : Nat} : memory.kernel self = .created p →
      Moves self memory .starting
        (((memory.setState p .Running).unlockState p).setKernel self (.posix p)) .outside
  | pop {origin : Origin} {p : Nat} {reuse : LinkedQueue Nat} :
      memory.reuse.pop PTW32_THREAD_REUSE_EMPTY 0 = some (p, reuse) →
      Moves self memory (.popping origin)
        { memory.unlock with reuse := reuse, popped := memory.popped ++ [p] }
        (.initialising origin (memory.ptHandle p))
  | calloc {origin : Origin} :
      Moves self memory (.allocating origin) memory.calloc (.initialising origin ⟨memory.brk, 0⟩)
  | initialise {origin : Origin} {thread : PthreadT} {place : Place} :
      place = .attributes origin thread ∨ (∃ result, place = .destroying thread (.failed result)) →
      Moves self memory (.initialising origin thread) (memory.ptw32_new thread.p) place
  | attributes {detached : Bool} {thread : PthreadT} :
      Moves self memory (.attributes (.create detached) thread)
        ((memory.setDetachState thread.p detached).setState thread.p .Initial)
        (.spawning (.create detached) thread)
  | attributesImplicit {join : Option PthreadT} {thread : PthreadT} :
      Moves self memory (.attributes (.implicit join) thread) (memory.setDetachState thread.p true)
        (.spawning (.implicit join) thread)
  | fail {place : Place} {chosen : Option Bool} {thread : PthreadT} {result : Result} :
      role place = some (.creates chosen, thread) → holds place = false →
      Moves self memory place memory (.destroying thread (.failed result))
  | spawn {detached : Bool} {thread : PthreadT} {threadH : Thread} :
      memory.kernel threadH = .unborn →
      Moves self memory (.spawning (.create detached) thread)
        (memory.issue threadH (.created thread.p) thread detached) (.returned .success)
  | spawnImplicit {join : Option PthreadT} {thread : PthreadT} :
      Moves self memory (.spawning (.implicit join) thread)
        (memory.issue self (.posix thread.p) thread true) (Origin.next (.implicit join))
  | last {p : Nat} : memory.kernel self = .posix p →
      Moves self memory .exiting
        { (memory.setState p .Last).unlockState p with last := memory.last ++ [self] } .cleaning
  | die {p : Nat} : memory.kernel self = .posix p → memory.detachState p = true →
      Moves self memory .cleaning memory (.destroying (memory.ptHandle p) .exited)
  | finish {p : Nat} : memory.kernel self = .posix p → memory.detachState p = false →
      Moves self memory .cleaning (memory.setKernel self .ended) .outside
  | clear : Moves self memory .clearing (memory.setKernel self .ended) .outside
  | check {thread : PthreadT} : ¬ memory.Stale thread → memory.detachState thread.p = false →
      Moves self memory (.detaching thread) memory (.locking thread)
  | lockDecide {thread : PthreadT} {locks : Nat → Option Thread} :
      Moves self memory (.locking thread) { memory with stateLock := locks } (.deciding thread)
  | detach {thread : PthreadT} : memory.state thread.p ≠ .Last →
      Moves self memory (.deciding thread)
        (({ memory.unlockState thread.p with
          released := memory.released ++ (memory.threadH thread.p).toList } :
            Memory Thread).setDetachState thread.p true)
        (.releasing thread false)
  | reclaim {thread : PthreadT} {destroyIt : Bool} : memory.state thread.p = .Last →
      destroyIt = !memory.detachState thread.p →
      Moves self memory (.deciding thread)
        { memory.unlockState thread.p with
          released := memory.released ++ (memory.threadH thread.p).toList }
        (.releasing thread destroyIt)
  | releaseWait {thread : PthreadT} :
      Moves self memory (.releasing thread true) memory.unlock (.waiting thread)
  | wait {thread : PthreadT} : memory.Ended thread.p →
      Moves self memory (.waiting thread) memory (.destroying thread .detached)
  | lockPush {thread : PthreadT} {reason : Reason} : memory.reuseLock = none →
      Moves self memory (.destroying thread reason) { memory with reuseLock := some self }
        (.pushing thread reason)
  | push {thread : PthreadT} {reason : Reason} :
      Moves self memory (.pushing thread reason) (memory.ptw32_threadReusePush thread.p) reason.next

section Steps

variable {self : Thread} {memory next : Memory Thread} {place reached : Place}

theorem moves_of_acquire {target : Place}
    (taken : memory.acquire self target = some (next, reached))
    (moves : memory.reuseLock = none →
      Moves self memory place { memory with reuseLock := some self } target) :
    Moves self memory place next reached := by
  unfold Memory.acquire at taken
  split at taken
  · rename_i free
    exact step_some taken (moves free)
  · exact absurd taken (by simp)

theorem moves_of_acquireState {p : Nat} {target : Place}
    (taken : memory.acquireState self p target = some (next, reached))
    (moves : ∀ locks, Moves self memory place { memory with stateLock := locks } target) :
    Moves self memory place next reached := by
  unfold Memory.acquireState at taken
  split at taken
  · exact step_some taken (moves _)
  · exact absurd taken (by simp)

theorem moves_of_check {thread : PthreadT} {joinable : Memory Thread × Place}
    (taken : some (memory.check thread joinable) = some (next, reached))
    (refused : ∀ result, Moves self memory place memory.unlock (.returned result))
    (moves : ¬ memory.Stale thread → memory.detachState thread.p = false →
      Moves self memory place joinable.1 joinable.2) : Moves self memory place next reached := by
  unfold Memory.check at taken
  split at taken
  · exact step_some taken (refused _)
  · split at taken
    · exact step_some taken (refused _)
    · rename_i valid joins
      exact step_some taken (moves valid (by simpa using joins))

/-- A call begins with the lock of the reuse queue. -/
theorem moves_of_call {kernel : Kernel} (here : memory.kernel self = kernel)
    (born : kernel ≠ .unborn) {target : Place} (idle : Idle target) (inside : holds target = true)
    (own : implicit target = true → kernel = .win32)
    (taken : memory.acquire self target = some (next, reached)) :
    Moves self memory .outside next reached := by
  subst here
  exact moves_of_acquire taken fun free =>
    .lock free (fun _ => born) ⟨rfl, rfl⟩ idle inside own

theorem moves_of_enter {label : Label Thread}
    (taken : enter self memory label = some (next, reached)) :
    Moves self memory .outside next reached := by
  cases kernel : memory.kernel self with
  | unborn =>
      cases label with
      | attach =>
          simp only [enter, kernel] at taken
          exact step_some taken (.attach kernel)
      | _ => simp [enter, kernel] at taken
  | created p =>
      cases label with
      | start =>
          simp only [enter, kernel] at taken
          exact moves_of_acquireState taken fun locks => .lockState (Or.inl kernel) (Or.inl rfl)
      | _ => simp [enter, kernel] at taken
  | posix p =>
      cases label with
      | throw =>
          simp only [enter, kernel] at taken
          exact step_some taken (.throw kernel)
      | exit =>
          simp only [enter, kernel] at taken
          exact moves_of_acquireState taken fun locks => .lockState (Or.inr kernel) (Or.inr rfl)
      | create _ | detach _ | join _ | kill _ =>
          simp only [enter, kernel] at taken
          exact moves_of_call kernel nofun ⟨rfl, rfl⟩ rfl (by nofun) taken
      | _ => simp [enter, kernel] at taken
  | win32 =>
      cases label with
      | exit =>
          simp only [enter, kernel] at taken
          exact step_some taken (.leave kernel)
      | self | create _ | detach _ | join _ | kill _ =>
          simp only [enter, kernel] at taken
          exact moves_of_call kernel nofun ⟨rfl, rfl⟩ rfl (fun _ => rfl) taken
      | _ => simp [enter, kernel] at taken
  | ended => cases label <;> simp [enter, kernel] at taken

theorem moves_of_refuse {place : Place} (idle : Idle place) (inside : holds place = true)
    (plain : implicit place = false) (elsewhere : place ≠ .outside) (result : Result) :
    Moves self memory place memory.unlock (.returned result) :=
  .unlock inside idle ⟨rfl, rfl⟩ elsewhere rfl plain.symm

theorem moves_of_proceed (taken : proceed self memory place = some (next, reached)) :
    Moves self memory place next reached := by
  cases place with
  | outside => exact absurd taken nofun
  | starting =>
      rw [proceed] at taken
      split at taken
      · exact step_some taken (.start ‹_›)
      · exact absurd taken nofun
  | popping origin =>
      rw [proceed, Memory.ptw32_threadReusePop] at taken
      split at taken
      · refine step_some taken (.unlock rfl ⟨rfl, rfl⟩ ⟨rfl, rfl⟩ nofun rfl ?_)
        cases origin <;> rfl
      · exact step_some taken (.pop ‹_›)
  | allocating origin => exact step_some taken .calloc
  | initialising origin thread => exact step_some taken (.initialise (Or.inl rfl))
  | attributes origin thread =>
      cases origin with
      | create detached => exact step_some taken .attributes
      | implicit join => exact step_some taken .attributesImplicit
  | spawning origin thread =>
      cases origin with
      | create detached => exact absurd taken nofun
      | implicit join => exact step_some taken .spawnImplicit
  | exiting =>
      rw [proceed] at taken
      split at taken
      · exact step_some taken (.last ‹_›)
      · exact absurd taken nofun
  | cleaning =>
      rw [proceed] at taken
      split at taken
      · rename_i kernel
        exact step_ite taken (.die kernel) fun kept => .finish kernel (by simpa using kept)
      · exact absurd taken nofun
  | clearing => exact step_some taken .clear
  | detaching thread =>
      exact moves_of_check taken (moves_of_refuse ⟨rfl, rfl⟩ rfl rfl nofun) .check
  | locking thread => exact moves_of_acquireState taken fun _ => .lockDecide
  | deciding thread =>
      rw [proceed, Memory.decide] at taken
      dsimp only at taken
      split at taken
      · exact step_some taken (.detach ‹_›)
      · rename_i last
        exact step_some taken (.reclaim (not_not.mp last) rfl)
  | releasing thread destroyIt =>
      cases destroyIt with
      | true => exact step_some taken .releaseWait
      | false => exact step_some taken (.unlock rfl ⟨rfl, rfl⟩ ⟨rfl, rfl⟩ (by nofun) rfl rfl)
  | waiting thread => exact step_when taken .wait
  | joining thread =>
      exact moves_of_check taken (moves_of_refuse ⟨rfl, rfl⟩ rfl rfl nofun) fun _ _ =>
        .unlock rfl ⟨rfl, rfl⟩ ⟨rfl, rfl⟩ nofun rfl rfl
  | joinSelf thread =>
      rw [proceed] at taken
      split at taken
      · exact step_choose taken (fun _ => .walk ⟨rfl, rfl⟩ ⟨rfl, rfl⟩ nofun rfl rfl rfl) fun _ =>
          .walk ⟨rfl, rfl⟩ ⟨rfl, rfl⟩ nofun rfl rfl rfl
      · rename_i kernel
        exact moves_of_acquire taken fun free =>
          .lock free nofun ⟨rfl, rfl⟩ ⟨rfl, rfl⟩ rfl fun _ => kernel
      · exact absurd taken nofun
  | joinWaiting thread =>
      exact step_when taken fun _ => .walk ⟨rfl, rfl⟩ ⟨rfl, rfl⟩ nofun rfl rfl rfl
  | joined thread =>
      exact moves_of_acquire taken fun free => .lock free nofun ⟨rfl, rfl⟩ ⟨rfl, rfl⟩ rfl nofun
  | destroying thread reason => exact moves_of_acquire taken .lockPush
  | pushing thread reason => exact step_some taken .push
  | killing thread => exact step_some taken (.unlock rfl ⟨rfl, rfl⟩ ⟨rfl, rfl⟩ (by nofun) rfl rfl)
  | returned result => exact step_some taken (.walk ⟨rfl, rfl⟩ ⟨rfl, rfl⟩ nofun rfl rfl rfl)

theorem moves_of_fail (taken : fail memory place = some (next, reached)) :
    Moves self memory place next reached := by
  unfold fail at taken
  split at taken
  case h_1 => exact step_some taken (.walk ⟨rfl, rfl⟩ ⟨rfl, rfl⟩ nofun rfl rfl rfl)
  case h_2 => exact step_some taken (.initialise (Or.inr ⟨_, rfl⟩))
  case h_3 => exact step_some taken (.fail rfl rfl)
  case h_4 origin thread =>
      cases origin with
      | create detached => exact step_some taken (.fail rfl rfl)
      | implicit join => exact step_some taken (.fail rfl rfl)
  case h_5 => exact absurd taken nofun

theorem moves_of_spawn {threadH : Thread}
    (taken : spawn memory threadH place = some (next, reached)) :
    Moves self memory place next reached := by
  unfold spawn at taken
  split at taken
  · exact step_when taken .spawn
  · exact absurd taken nofun

theorem moves_of_cancel (taken : cancel memory place = some (next, reached)) :
    Moves self memory place next reached := by
  unfold cancel at taken
  split at taken
  · exact step_some taken (.walk ⟨rfl, rfl⟩ ⟨rfl, rfl⟩ nofun rfl rfl rfl)
  · exact absurd taken nofun

theorem moves_of_step {label : Label Thread}
    (taken : step self memory place label = some (next, reached)) :
    Moves self memory place next reached := by
  have entered : ∀ label, (if place = .outside then enter self memory label else none) =
      some (next, reached) → Moves self memory place next reached := by
    intro label ran
    split at ran
    · rename_i outside
      subst outside
      exact moves_of_enter ran
    · exact absurd ran nofun
  cases label with
  | go => exact moves_of_proceed taken
  | fail => exact moves_of_fail taken
  | spawn threadH => exact moves_of_spawn taken
  | cancel => exact moves_of_cancel taken
  | attach | start | throw | exit | create | self | detach | join | kill => exact entered _ taken

end Steps

end ThreadReuse

end CodeCollect.Pthreads
