import CodeCollect.Library.Interleaving

namespace CodeCollect.Pthreads

open CodeCollect.Library Program

/-- These are the kinds of a mutex. -/
inductive MutexKind where
  | normal
  | recursive
  | errorcheck
deriving DecidableEq

namespace Mutex

/-- The lock word is 0 when free, 1 when locked and -1 when locked with possible waiters. The
event is reset when one thread has waited for it. -/
structure Memory (Thread : Type) where
  lock_idx : Int
  recursive_count : Int
  ownerThread : Option Thread
  event : Bool

/-- A thread knows how often it has acquired the mutex, also inside its calls. -/
inductive Place where
  | outside (depth : Nat)
  | exchanging (timed : Bool) (depth : Nat)
  | comparing (timed : Bool) (depth : Nat)
  | ownerTest (timed : Bool) (depth : Nat)
  | marking (timed : Bool) (depth : Nat)
  | waiting (timed : Bool) (depth : Nat)
  | trying (depth : Nat)
  | tryTest (depth : Nat)
  | counting (depth : Nat)
  | assigningCount (depth : Nat)
  | assigningOwner (depth : Nat)
  | unlockTest (depth : Nat)
  | decrementing (depth : Nat)
  | clearing (depth : Nat)
  | releasing (depth : Nat)
  | signalling (depth : Nat)
deriving DecidableEq

/-- Only an owner unlocks a normal mutex. -/
inductive Label where
  | lock (timed : Bool)
  | trylock
  | unlock
  | go
  | timeout
deriving DecidableEq

variable {Thread : Type} [DecidableEq Thread]

/-- The interlocked exchange has found the mutex free. -/
def acquired (kind : MutexKind) (depth : Nat) : Place :=
  if kind = .normal then .outside (depth + 1) else .assigningCount depth

/-- These are the steps of a mutex that is not robust. The timed calls differ in that their waits
may time out, and `depth` is 0 for a thread that does not hold the mutex. -/
def step (kind : MutexKind) (self : Thread) (memory : Memory Thread) (place : Place)
    (label : Label) : Option (Memory Thread × Place) :=
  match place, label with
  | .outside depth, .lock timed =>
      some (memory, if kind = .normal then .exchanging timed depth else .comparing timed depth)
  | .outside depth, .trylock => some (memory, .trying depth)
  | .outside depth, .unlock =>
      if kind = .normal then if depth = 0 then none else some (memory, .releasing depth)
      else some (memory, .unlockTest depth)
  | .exchanging timed depth, .go =>
      some ({ memory with lock_idx := 1 },
        if memory.lock_idx = 0 then .outside (depth + 1) else .marking timed depth)
  | .comparing timed depth, .go =>
      if memory.lock_idx = 0 then some ({ memory with lock_idx := 1 }, .assigningCount depth)
      else some (memory, .ownerTest timed depth)
  | .ownerTest timed depth, .go =>
      some (memory, if memory.ownerThread = some self then
        if kind = .recursive then .counting depth else .outside depth
      else .marking timed depth)
  | .marking timed depth, .go =>
      some ({ memory with lock_idx := -1 },
        if memory.lock_idx = 0 then acquired kind depth else .waiting timed depth)
  | .waiting timed depth, .go =>
      if memory.event then some ({ memory with event := false }, .marking timed depth) else none
  | .waiting true depth, .timeout => some (memory, .outside depth)
  | .trying depth, .go =>
      if memory.lock_idx = 0 then some ({ memory with lock_idx := 1 }, acquired kind depth)
      else some (memory, if kind = .recursive then .tryTest depth else .outside depth)
  | .tryTest depth, .go =>
      some (memory, if memory.ownerThread = some self then .counting depth else .outside depth)
  | .counting depth, .go =>
      some ({ memory with recursive_count := memory.recursive_count + 1 }, .outside (depth + 1))
  | .assigningCount depth, .go =>
      some ({ memory with recursive_count := 1 }, .assigningOwner depth)
  | .assigningOwner depth, .go =>
      some ({ memory with ownerThread := some self }, .outside (depth + 1))
  | .unlockTest depth, .go =>
      some (memory, if memory.ownerThread = some self then
        if kind = .recursive then .decrementing depth else .clearing depth
      else .outside depth)
  | .decrementing depth, .go =>
      some ({ memory with recursive_count := memory.recursive_count - 1 },
        if memory.recursive_count - 1 = 0 then .clearing depth else .outside (depth - 1))
  | .clearing depth, .go => some ({ memory with ownerThread := none }, .releasing depth)
  | .releasing depth, .go =>
      some ({ memory with lock_idx := 0 },
        if memory.lock_idx < 0 then .signalling (depth - 1) else .outside (depth - 1))
  | .signalling depth, .go => some ({ memory with event := true }, .outside depth)
  | _, _ => none

/-- `pthread_mutex_init` leaves the mutex free, without an owner and with a reset event. -/
def program (kind : MutexKind) (Thread : Type) [DecidableEq Thread] :
    Program Thread (Memory Thread) Place Label where
  memory := ⟨0, 0, none, false⟩
  entry := .outside 0
  step := step kind

/-- These are all moves of one thread, each with what it needs and what it changes. -/
inductive Moves (kind : MutexKind) (self : Thread) :
    Memory Thread → Place → Memory Thread → Place → Prop
  | lockNormal {memory timed depth} : kind = .normal →
      Moves kind self memory (.outside depth) memory (.exchanging timed depth)
  | lock {memory timed depth} : kind ≠ .normal →
      Moves kind self memory (.outside depth) memory (.comparing timed depth)
  | trylock {memory depth} : Moves kind self memory (.outside depth) memory (.trying depth)
  | unlockNormal {memory depth} : kind = .normal → depth ≠ 0 →
      Moves kind self memory (.outside depth) memory (.releasing depth)
  | unlock {memory depth} : kind ≠ .normal →
      Moves kind self memory (.outside depth) memory (.unlockTest depth)
  | exchange {memory timed depth} : memory.lock_idx = 0 → Moves kind self memory
      (.exchanging timed depth) { memory with lock_idx := 1 } (.outside (depth + 1))
  | erase {memory timed depth} : memory.lock_idx ≠ 0 → Moves kind self memory
      (.exchanging timed depth) { memory with lock_idx := 1 } (.marking timed depth)
  | compare {memory timed depth} : memory.lock_idx = 0 → Moves kind self memory
      (.comparing timed depth) { memory with lock_idx := 1 } (.assigningCount depth)
  | busy {memory timed depth} : memory.lock_idx ≠ 0 → Moves kind self memory
      (.comparing timed depth) memory (.ownerTest timed depth)
  | relock {memory timed depth} : memory.ownerThread = some self → kind = .recursive →
      Moves kind self memory (.ownerTest timed depth) memory (.counting depth)
  | deadlock {memory timed depth} : memory.ownerThread = some self → kind ≠ .recursive →
      Moves kind self memory (.ownerTest timed depth) memory (.outside depth)
  | contend {memory timed depth} : memory.ownerThread ≠ some self →
      Moves kind self memory (.ownerTest timed depth) memory (.marking timed depth)
  | acquire {memory timed depth} : memory.lock_idx = 0 → Moves kind self memory
      (.marking timed depth) { memory with lock_idx := -1 } (acquired kind depth)
  | mark {memory timed depth} : memory.lock_idx ≠ 0 → Moves kind self memory
      (.marking timed depth) { memory with lock_idx := -1 } (.waiting timed depth)
  | wake {memory timed depth} : memory.event = true → Moves kind self memory
      (.waiting timed depth) { memory with event := false } (.marking timed depth)
  | timeout {memory depth} : Moves kind self memory (.waiting true depth) memory (.outside depth)
  | tryAcquire {memory depth} : memory.lock_idx = 0 → Moves kind self memory
      (.trying depth) { memory with lock_idx := 1 } (acquired kind depth)
  | tryOwner {memory depth} : memory.lock_idx ≠ 0 → kind = .recursive →
      Moves kind self memory (.trying depth) memory (.tryTest depth)
  | tryBusy {memory depth} : memory.lock_idx ≠ 0 → kind ≠ .recursive →
      Moves kind self memory (.trying depth) memory (.outside depth)
  | tryAgain {memory depth} : memory.ownerThread = some self →
      Moves kind self memory (.tryTest depth) memory (.counting depth)
  | tryOther {memory depth} : memory.ownerThread ≠ some self →
      Moves kind self memory (.tryTest depth) memory (.outside depth)
  | count {memory depth} : Moves kind self memory (.counting depth)
      { memory with recursive_count := memory.recursive_count + 1 } (.outside (depth + 1))
  | assignCount {memory depth} : Moves kind self memory (.assigningCount depth)
      { memory with recursive_count := 1 } (.assigningOwner depth)
  | assignOwner {memory depth} : Moves kind self memory (.assigningOwner depth)
      { memory with ownerThread := some self } (.outside (depth + 1))
  | decrement {memory depth} : memory.ownerThread = some self → kind = .recursive →
      Moves kind self memory (.unlockTest depth) memory (.decrementing depth)
  | owned {memory depth} : memory.ownerThread = some self → kind ≠ .recursive →
      Moves kind self memory (.unlockTest depth) memory (.clearing depth)
  | forbidden {memory depth} : memory.ownerThread ≠ some self →
      Moves kind self memory (.unlockTest depth) memory (.outside depth)
  | last {memory depth} : memory.recursive_count - 1 = 0 → Moves kind self memory
      (.decrementing depth) { memory with recursive_count := memory.recursive_count - 1 }
      (.clearing depth)
  | inner {memory depth} : memory.recursive_count - 1 ≠ 0 → Moves kind self memory
      (.decrementing depth) { memory with recursive_count := memory.recursive_count - 1 }
      (.outside (depth - 1))
  | clear {memory depth} : Moves kind self memory (.clearing depth)
      { memory with ownerThread := none } (.releasing depth)
  | releaseMarked {memory depth} : memory.lock_idx < 0 → Moves kind self memory
      (.releasing depth) { memory with lock_idx := 0 } (.signalling (depth - 1))
  | release {memory depth} : 0 ≤ memory.lock_idx → Moves kind self memory
      (.releasing depth) { memory with lock_idx := 0 } (.outside (depth - 1))
  | signal {memory depth} : Moves kind self memory (.signalling depth)
      { memory with event := true } (.outside depth)

variable {kind : MutexKind} {self : Thread} {memory next : Memory Thread} {place reached : Place}
  {label : Label}

/-- The owner of a mutex that is tested goes one of two ways. -/
theorem moves_of_owner {first second other : Place}
    (taken : some (memory, if memory.ownerThread = some self then
      if kind = .recursive then first else second else other) = some (next, reached))
    (recursive : memory.ownerThread = some self → kind = .recursive →
      Moves kind self memory place memory first)
    (plain : memory.ownerThread = some self → kind ≠ .recursive →
      Moves kind self memory place memory second)
    (foreign : memory.ownerThread ≠ some self → Moves kind self memory place memory other) :
    Moves kind self memory place next reached := by
  obtain ⟨rfl, rfl⟩ := Prod.mk.inj (Option.some.inj taken)
  split
  · rename_i owned
    split
    · rename_i same
      exact recursive owned same
    · rename_i differs
      exact plain owned differs
  · rename_i foreigner
    exact foreign foreigner

/-- A step is one of the moves. -/
theorem moves_of_step (taken : step kind self memory place label = some (next, reached)) :
    Moves kind self memory place next reached := by
  unfold step at taken
  split at taken
  case h_1 => exact step_choose taken .lockNormal .lock
  case h_2 => exact step_some taken .trylock
  case h_3 =>
    split at taken
    · rename_i normal
      split at taken
      · exact absurd taken (by simp)
      · rename_i owns
        exact step_some taken (.unlockNormal normal owns)
    · rename_i differs
      exact step_some taken (.unlock differs)
  case h_4 => exact step_choose taken .exchange .erase
  case h_5 => exact step_ite taken .compare .busy
  case h_6 => exact moves_of_owner taken .relock .deadlock .contend
  case h_7 => exact step_choose taken .acquire .mark
  case h_8 =>
    exact step_when taken .wake
  case h_9 => exact step_some taken .timeout
  case h_10 =>
    split at taken
    · rename_i free
      exact step_some taken (.tryAcquire free)
    · rename_i held
      exact step_choose taken (.tryOwner held) (.tryBusy held)
  case h_11 => exact step_choose taken .tryAgain .tryOther
  case h_12 => exact step_some taken .count
  case h_13 => exact step_some taken .assignCount
  case h_14 => exact step_some taken .assignOwner
  case h_15 => exact moves_of_owner taken .decrement .owned .forbidden
  case h_16 => exact step_choose taken .last .inner
  case h_17 => exact step_some taken .clear
  case h_18 =>
    exact step_choose taken .releaseMarked fun unmarked => .release (not_lt.mp unmarked)
  case h_19 => exact step_some taken .signal
  case h_20 => exact absurd taken (by simp)

end Mutex

end CodeCollect.Pthreads
