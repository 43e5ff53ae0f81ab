import CodeCollect.Library.DoublyLinkedList
import CodeCollect.Pthreads.RobustMutexOwner

namespace CodeCollect.Pthreads

open CodeCollect.Library Program

namespace RobustMutexes

open RobustMutex (Point Request Result Moves)

/-- Each mutex has a node, and each thread has a list of nodes. -/
structure Memory (Mutex Thread : Type) where
  mutexes : Mutex → RobustMutex.Memory Thread
  links : Links Mutex
  robustMxList : Thread → Option Mutex

/-- A thread is in a call on one mutex, or it removes one mutex while it exits. -/
inductive Task (Mutex Thread : Type) where
  | idle
  | leaving
  | gone
  | busy (mutex : Mutex) (point : Point Thread)
deriving DecidableEq

/-- For each mutex, `held` counts the lock-type calls that have succeeded and are not unlocked. -/
structure Place (Mutex Thread : Type) where
  held : Mutex → Nat
  task : Task Mutex Thread

/-- A thread calls any mutex, or it exits. -/
inductive Label (Mutex : Type) where
  | call (mutex : Mutex) (request : Request)
  | exit
  | go
  | timeout
deriving DecidableEq

variable {Mutex Thread : Type} [DecidableEq Mutex] [DecidableEq Thread]

omit [DecidableEq Mutex] [DecidableEq Thread] in
/-- A call ends at the idle point, and the removal of one mutex ends at the next one. -/
def Task.of (mutex : Mutex) : Point Thread → Task Mutex Thread
  | .idle => .idle
  | .leaving => .leaving
  | .gone => .gone
  | point => .busy mutex point

omit [DecidableEq Thread] in
/-- These are the writes to the nodes. -/
def relink (self : Thread) (mutex : Mutex) (lists : Thread → Option Mutex) (links : Links Mutex) :
    Point Thread → Links Mutex
  | .adding _ .prev => links.setPrev (some mutex) none
  | .adding _ .next => links.setNext (some mutex) (lists self)
  | .adding _ .back => links.setPrev (lists self) (some mutex)
  | .unlinking _ _ .next => links.setPrev (links.next mutex) (links.prev mutex)
  | .unlinking _ _ .prev => links.setNext (links.prev mutex) (links.next mutex)
  | _ => links

/-- These are the writes to the heads of the lists. -/
def rehead (self : Thread) (mutex : Mutex) (lists : Thread → Option Mutex) (links : Links Mutex) :
    Point Thread → Thread → Option Mutex
  | .adding _ .head => Function.update lists self (some mutex)
  | .unlinking _ list .head =>
      if lists list = some mutex then Function.update lists list (links.next mutex) else lists
  | _ => lists

/-- A thread that exits removes the first mutex of its list until the list is empty. -/
def step (kind : Mutex → MutexKind) (self : Thread) (memory : Memory Mutex Thread)
    (place : Place Mutex Thread) (label : Label Mutex) :
    Option (Memory Mutex Thread × Place Mutex Thread) :=
  match place.task, label with
  | .idle, .call mutex request =>
      some (memory, { place with task := .busy mutex request.start })
  | .idle, .exit => some (memory, { place with task := .leaving })
  | .leaving, .go =>
      some (memory, { place with task := match memory.robustMxList self with
        | none => .gone
        | some mutex => .busy mutex (.removing true) })
  | .busy mutex point, .go => inside mutex point .go
  | .busy mutex point, .timeout => inside mutex point .timeout
  | _, _ => none
where
  inside (mutex : Mutex) (point : Point Thread) (label : RobustMutex.Label) :=
    (RobustMutex.step (kind mutex) self (memory.mutexes mutex) ⟨place.held mutex, point⟩
      label).map fun reached =>
        (⟨Function.update memory.mutexes mutex reached.1,
          relink self mutex memory.robustMxList memory.links point,
          rehead self mutex memory.robustMxList memory.links point⟩,
        ⟨Function.update place.held mutex reached.2.depth, Task.of mutex reached.2.point⟩)

/-- All mutexes are free and all lists are empty. -/
def program (kind : Mutex → MutexKind) (Thread : Type) [DecidableEq Thread] :
    Program Thread (Memory Mutex Thread) (Place Mutex Thread) (Label Mutex) where
  memory := ⟨fun _ => RobustMutex.free Thread, ⟨fun _ => none, fun _ => none⟩, fun _ => none⟩
  entry := ⟨fun _ => 0, .idle⟩
  step := step kind

end RobustMutexes

end CodeCollect.Pthreads
