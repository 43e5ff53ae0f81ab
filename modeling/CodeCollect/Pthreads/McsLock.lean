import CodeCollect.Library.Interleaving

namespace CodeCollect.Pthreads

open CodeCollect.Library

namespace McsLock

/-- A flag is 0, -1 or the handle of the event that its waiter has created, which is signalled or
not. -/
inductive Word where
  | unset
  | set
  | event (signalled : Bool)
deriving DecidableEq

/-- A caller is one use of the lock, from its acquisition to its release, whichever threads make the
calls. It has a fresh node for the acquisition and one for each transfer. -/
structure Node (Caller : Type) where
  owner : Caller
  generation : Nat
deriving DecidableEq

/-- Both flags of a node. -/
inductive Flag (Caller : Type) where
  | nextFlag (node : Node Caller)
  | readyFlag (node : Node Caller)
deriving DecidableEq

/-- The exchanges on the lock word are numbered, and so are the hand-overs and releases. The list has
the numbers of the callers that got the lock. These three are not in the code. -/
structure Memory (Caller : Type) where
  lock : Option (Node Caller)
  next : Node Caller → Option (Node Caller)
  flag : Flag Caller → Word
  tickets : Nat
  serving : Nat
  obtained : List Nat

/-- What comes after a flag is set or has been waited for. -/
inductive After where
  | wait
  | obtain
  | pass
  | finish
deriving DecidableEq

inductive Phase (Caller : Type) where
  | outside
  | queueing
  | trying
  | refused
  | linking (pred : Node Caller)
  | setting (flag : Flag Caller) (after : After)
  | signalling (flag : Flag Caller) (after : After)
  | testing (flag : Flag Caller) (after : After)
  | storing (flag : Flag Caller) (after : After)
  | blocked (flag : Flag Caller) (after : After)
  | holding
  | releasing
  | freeing
  | rereading
  | crashed
  | moving
  | spinning
  | copying
  | released
deriving DecidableEq

structure Place (Caller : Type) where
  generation : Nat
  ticket : Nat
  phase : Phase Caller
deriving DecidableEq

inductive Label where
  | acquire
  | tryAcquire
  | release
  | transfer
  | go
deriving DecidableEq

variable {Caller : Type} [DecidableEq Caller]

namespace Memory

variable (self : Memory Caller)

/-- All fields of a new node are 0. -/
def initialise (node : Node Caller) : Memory Caller :=
  { self with
    next := Function.update self.next node none
    flag := Function.update (Function.update self.flag (.nextFlag node) .unset)
      (.readyFlag node) .unset }

def link (node : Node Caller) (next : Option (Node Caller)) : Memory Caller :=
  { self with next := Function.update self.next node next }

def write (flag : Flag Caller) (word : Word) : Memory Caller :=
  { self with flag := Function.update self.flag flag word }

/-- The exchange on the lock word. -/
def enqueue (node : Node Caller) : Memory Caller :=
  { self with lock := some node, tickets := self.tickets + 1 }

def obtain (ticket : Nat) : Memory Caller :=
  { self with obtained := self.obtained ++ [ticket] }

def serve : Memory Caller := { self with serving := self.serving + 1 }

/-- An event is signalled. Another word is not a handle, and nothing happens. -/
def SetEvent (flag : Flag Caller) : Memory Caller :=
  match self.flag flag with
  | .event _ => self.write flag (.event true)
  | _ => self

section Fields

variable {self} {flag other : Flag Caller} {word : Word} {node place : Node Caller}

@[simp] theorem write_same : (self.write flag word).flag flag = word := Function.update_self _ _ _

theorem write_other (differ : other ≠ flag) :
    (self.write flag word).flag other = self.flag other := Function.update_of_ne differ _ _

theorem write_readyFlag (node place : Node Caller) :
    (self.write (.readyFlag node) word).flag (.nextFlag place) = self.flag (.nextFlag place) :=
  write_other (by exact nofun)

theorem write_nextFlag (node place : Node Caller) :
    (self.write (.nextFlag node) word).flag (.readyFlag place) = self.flag (.readyFlag place) :=
  write_other (by exact nofun)

@[simp] theorem write_next : (self.write flag word).next = self.next := rfl

@[simp] theorem link_same {next : Option (Node Caller)} : (self.link node next).next node = next :=
  Function.update_self _ _ _

theorem link_other {next : Option (Node Caller)} (differ : place ≠ node) :
    (self.link node next).next place = self.next place := Function.update_of_ne differ _ _

@[simp] theorem link_flag {next : Option (Node Caller)} : (self.link node next).flag = self.flag :=
  rfl

@[simp] theorem initialise_nextFlag : (self.initialise node).flag (.nextFlag node) = .unset := by
  simp [initialise]

@[simp] theorem initialise_readyFlag : (self.initialise node).flag (.readyFlag node) = .unset :=
  Function.update_self _ _ _

theorem initialise_other (one : flag ≠ .nextFlag node) (both : flag ≠ .readyFlag node) :
    (self.initialise node).flag flag = self.flag flag :=
  (Function.update_of_ne both _ _).trans (Function.update_of_ne one _ _)

end Fields

end Memory

namespace Place

variable (self : Caller) (place : Place Caller)

def node : Node Caller := ⟨self, place.generation⟩

/-- The node that a transfer goes to. -/
def new_node : Node Caller := ⟨self, place.generation + 1⟩

def moved (phase : Phase Caller) : Place Caller := { place with phase := phase }

end Place

/-- The call goes on after a flag was set or waited for. -/
def resume (self : Caller) (memory : Memory Caller) (place : Place Caller) :
    After → Memory Caller × Place Caller
  | .wait => (memory, place.moved (.testing (.readyFlag (place.node self)) .obtain))
  | .obtain => (memory.obtain place.ticket, place.moved .holding)
  | .pass => (memory, place.moved .rereading)
  | .finish => (memory.serve, place.moved .released)

/-- The first step of `ptw32_mcs_flag_set`, a compare-exchange. -/
def ptw32_mcs_flag_set (self : Caller) (memory : Memory Caller) (place : Place Caller)
    (flag : Flag Caller) (after : After) : Memory Caller × Place Caller :=
  if memory.flag flag = .unset then resume self (memory.write flag .set) place after
  else (memory, place.moved (.signalling flag after))

/-- The second step of `ptw32_mcs_flag_wait`, also a compare-exchange. -/
def ptw32_mcs_flag_wait (self : Caller) (memory : Memory Caller) (place : Place Caller)
    (flag : Flag Caller) (after : After) : Memory Caller × Place Caller :=
  if memory.flag flag = .unset then
    (memory.write flag (.event false), place.moved (.blocked flag after))
  else resume self memory place after

/-- The next step of a call. -/
def proceed (self : Caller) (memory : Memory Caller) (place : Place Caller) :
    Phase Caller → Option (Memory Caller × Place Caller)
  | .queueing =>
      let queued := { place with ticket := memory.tickets }
      match memory.lock with
      | none => some (resume self (memory.enqueue (place.node self)) queued .obtain)
      | some pred => some (memory.enqueue (place.node self), queued.moved (.linking pred))
  | .trying =>
      if memory.lock = none then
        some (resume self (memory.enqueue (place.node self))
          { place with ticket := memory.tickets } .obtain)
      else some (memory, place.moved .refused)
  | .linking pred =>
      some (memory.link pred (some (place.node self)), place.moved (.setting (.nextFlag pred) .wait))
  | .setting flag after => some (ptw32_mcs_flag_set self memory place flag after)
  | .signalling flag after => some (resume self (memory.SetEvent flag) place after)
  | .testing flag after =>
      if memory.flag flag = .unset then some (memory, place.moved (.storing flag after))
      else some (resume self memory place after)
  | .storing flag after => some (ptw32_mcs_flag_wait self memory place flag after)
  | .blocked flag after =>
      if memory.flag flag = .event true then
        some (resume self (memory.write flag (.event false)) place after)
      else none
  | .releasing =>
      match memory.next (place.node self) with
      | none => some (memory, place.moved .freeing)
      | some next => some (memory, place.moved (.setting (.readyFlag next) .finish))
  | .freeing =>
      if memory.lock = some (place.node self) then
        some (resume self { memory with lock := none } place .finish)
      else some (memory, place.moved (.testing (.nextFlag (place.node self)) .pass))
  | .rereading =>
      match memory.next (place.node self) with
      | none => some (memory, place.moved .crashed)
      | some next => some (memory, place.moved (.setting (.readyFlag next) .finish))
  | .moving =>
      if memory.lock = some (place.node self) then
        some ({ memory with lock := some (place.new_node self) },
          ⟨place.generation + 1, place.ticket, .holding⟩)
      else some (memory, place.moved .spinning)
  -- the loop yields until there is a next node
  | .spinning =>
      if memory.next (place.node self) = none then none else some (memory, place.moved .copying)
  | .copying =>
      some (memory.link (place.new_node self) (memory.next (place.node self)),
        ⟨place.generation + 1, place.ticket, .holding⟩)
  | .outside | .refused | .holding | .crashed | .released => none

/-- The steps of all functions on one lock. Only a caller that has the lock releases or transfers
it. -/
def step (self : Caller) (memory : Memory Caller) (place : Place Caller) :
    Label → Option (Memory Caller × Place Caller)
  | .acquire =>
      if place.phase = .outside then
        some (memory.initialise (place.node self), place.moved .queueing)
      else none
  | .tryAcquire =>
      if place.phase = .outside then
        some (memory.initialise (place.node self), place.moved .trying)
      else none
  | .release => if place.phase = .holding then some (memory, place.moved .releasing) else none
  | .transfer =>
      if place.phase = .holding then
        some (memory.initialise (place.new_node self), place.moved .moving)
      else none
  | .go => proceed self memory place place.phase

/-- A lock that is free. What new nodes hold does not matter. -/
def program (Caller : Type) [DecidableEq Caller] (next : Node Caller → Option (Node Caller))
    (flag : Flag Caller → Word) : Program Caller (Memory Caller) (Place Caller) Label where
  memory := ⟨none, next, flag, 0, 0, []⟩
  entry := ⟨0, 0, .outside⟩
  step := step

end McsLock

end CodeCollect.Pthreads
