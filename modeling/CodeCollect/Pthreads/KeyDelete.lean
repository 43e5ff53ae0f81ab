import CodeCollect.Pthreads.ThreadKeys

namespace CodeCollect.Pthreads

open Library

namespace KeyDelete

variable {Thread Key Value : Type} [DecidableEq Thread] [DecidableEq Key]

/-- Each key and each thread has a lock. -/
inductive Lock (Thread Key : Type) where
  | keyLock (key : Key)
  | threadLock (thread : Thread)
deriving DecidableEq

/-- The function has two local nodes, which are named as the locks that they queue for. -/
inductive Node where
  | keyLock
  | threadLock
deriving DecidableEq

inductive Event (Thread Key : Type) where
  | acquire (lock : Lock Thread Key)
  | release (lock : Lock Thread Key)
deriving DecidableEq

/-- A lock is the last node of its queue; each node knows its lock and its successor. The history
lists what the function has done to the locks. -/
structure State (Thread Key Value : Type) where
  memory : ThreadKeys Thread Key Value
  tails : Lock Thread Key → Option Node
  lock : Node → Option (Lock Thread Key)
  next : Node → Option Node
  history : List (Event Thread Key)

/-- This is `ptw32_mcs_lock_acquire`, which waits for ever where no other thread releases a lock that
is taken. -/
def mcsLockAcquire (state : State Thread Key Value) (lock : Lock Thread Key) (node : Node) :
    Option (State Thread Key Value) :=
  match state.tails lock with
  | some _ => none
  | none =>
      some { state with
        tails := Function.update state.tails lock (some node)
        lock := Function.update state.lock node (some lock)
        next := Function.update state.next node none
        history := state.history ++ [.acquire lock] }

/-- This is `ptw32_mcs_lock_release`. A node that has no successor and is not the last one waits for
ever where no other thread links itself behind it. -/
def mcsLockRelease (state : State Thread Key Value) (node : Node) :
    Option (State Thread Key Value) :=
  (state.lock node).bind fun lock =>
    let released := { state with history := state.history ++ [.release lock] }
    match state.next node with
    -- The lock is passed to the successor.
    | some _ => some released
    | none =>
        if state.tails lock = some node then
          some { released with tails := Function.update state.tails lock none }
        else none

/-- This is the loop of `pthread_key_delete`, which may take at most `fuel` rounds. -/
def deleteLoop (key : Key) : Nat → State Thread Key Value → Option (State Thread Key Value)
  | 0, _ => none
  | fuel + 1, state =>
      match state.memory.threads key with
      | none => some state
      | some assoc => do
          let state ← mcsLockAcquire state (.threadLock (state.memory.thread assoc)) .threadLock
          let state := { state with memory := state.memory.tkAssocDestroy assoc }
          let state ← mcsLockRelease state .threadLock
          let state ← mcsLockRelease state .keyLock
          deleteLoop key fuel state

/-- This is the part of `pthread_key_delete` that runs through the associations of the key. -/
def deleteAssociations (hasDestructor : Key → Bool) (key : Key) (fuel : Nat)
    (state : State Thread Key Value) : Option (State Thread Key Value) :=
  if (state.memory.threads key).isSome && hasDestructor key then do
    let state ← mcsLockAcquire state (.keyLock key) .keyLock
    deleteLoop key fuel state
  else some state

/-- This is `pthread_key_delete` without the release of the storage of the key itself. -/
def keyDelete (hasDestructor : Key → Bool) (key : Key) (fuel : Nat)
    (state : State Thread Key Value) : Option (State Thread Key Value) := do
  let state ← deleteAssociations hasDestructor key fuel state
  if hasDestructor key then do
    -- A thread could be holding the lock of the key.
    let state ← mcsLockAcquire state (.keyLock key) .keyLock
    mcsLockRelease state .keyLock
  else some state

/-- Each lock that is released is held, each one is released once, and none is held at the end. -/
def Balanced : List (Lock Thread Key) → List (Event Thread Key) → Prop
  | held, [] => held = []
  | held, .acquire lock :: events => lock ∉ held ∧ Balanced (lock :: held) events
  | held, .release lock :: events => lock ∈ held ∧ Balanced (held.erase lock) events

/-- No thread holds a lock, and the function has not begun. -/
structure Idle (state : State Thread Key Value) : Prop where
  chained : ThreadKeys.Chained state.memory
  free : ∀ lock, state.tails lock = none
  fresh : state.history = []

/-- The deletion ends with balanced locks; nothing of the key is on any chain of a thread, and all
other associations keep their order. -/
def Deletes (hasDestructor : Key → Bool) (key : Key) (state : State Thread Key Value) : Prop :=
  ∃ fuel final, keyDelete hasDestructor key fuel state = some final ∧
    Balanced [] final.history ∧ ThreadKeys.Chained final.memory ∧
    (∀ thread, final.memory.keyChain thread =
      (state.memory.keyChain thread).filter fun assoc => state.memory.key assoc ≠ key) ∧
    (∀ assoc, final.memory.key assoc = state.memory.key assoc) ∧
    final.memory.threadChain key = [] ∧
    ∀ other ≠ key, final.memory.threadChain other = state.memory.threadChain other

section Rounds

variable {state : State Thread Key Value} {key : Key} {assoc : Nat} {lock : Lock Thread Key}
  {node : Node}

/-- A free lock is acquired. -/
def acquired (state : State Thread Key Value) (lock : Lock Thread Key) (node : Node) :
    State Thread Key Value :=
  { state with
    tails := Function.update state.tails lock (some node)
    lock := Function.update state.lock node (some lock)
    next := Function.update state.next node none
    history := state.history ++ [.acquire lock] }

/-- A lock that no one else queues for is released. -/
def released (state : State Thread Key Value) (lock : Lock Thread Key) : State Thread Key Value :=
  { state with
    tails := Function.update state.tails lock none
    history := state.history ++ [.release lock] }

/-- The state behind a round that has destroyed this association. -/
def afterRound (state : State Thread Key Value) (key : Key) (assoc : Nat) :
    State Thread Key Value :=
  let thread := state.memory.thread assoc
  let locked := acquired state (.threadLock thread) .threadLock
  released (released { locked with memory := state.memory.tkAssocDestroy assoc }
    (.threadLock thread)) (.keyLock key)

omit [DecidableEq Thread] [DecidableEq Key] in
theorem keyLock_ne (key : Key) (thread : Thread) :
    (.keyLock key : Lock Thread Key) ≠ .threadLock thread := by
  simp

theorem mcsLockAcquire_free (free : state.tails lock = none) :
    mcsLockAcquire state lock node = some (acquired state lock node) := by
  rw [mcsLockAcquire, free]
  rfl

/-- A node without a successor releases its lock or waits for ever. -/
theorem mcsLockRelease_last (queued : state.lock node = some lock)
    (alone : state.next node = none) :
    mcsLockRelease state node =
      if state.tails lock = some node then some (released state lock) else none := by
  rw [mcsLockRelease, queued, Option.bind_some]
  dsimp only
  rw [alone]
  rfl

/-- A round destroys the first association, but only the first round holds the lock of the key. -/
theorem deleteLoop_round (fuel : Nat) (here : state.memory.threads key = some assoc)
    (free : state.tails (.threadLock (state.memory.thread assoc)) = none)
    (queued : state.lock .keyLock = some (.keyLock key)) (alone : state.next .keyLock = none) :
    deleteLoop key (fuel + 1) state =
      if state.tails (.keyLock key) = some .keyLock then
        deleteLoop key fuel (afterRound state key assoc)
      else none := by
  let thread := state.memory.thread assoc
  let locked := acquired state (.threadLock thread) .threadLock
  let destroyed : State Thread Key Value :=
    { locked with memory := state.memory.tkAssocDestroy assoc }
  have unlocked : mcsLockRelease destroyed .threadLock =
      some (released destroyed (.threadLock thread)) := by
    have named : destroyed.lock .threadLock = some (.threadLock thread) := by
      simp [destroyed, locked, acquired]
    have last : destroyed.next .threadLock = none := by
      simp [destroyed, locked, acquired]
    have tail : destroyed.tails (.threadLock thread) = some .threadLock := by
      simp [destroyed, locked, acquired]
    rw [mcsLockRelease_last named last, if_pos tail]
  have again : mcsLockRelease (released destroyed (.threadLock thread)) .keyLock =
      if state.tails (.keyLock key) = some .keyLock then some (afterRound state key assoc)
      else none := by
    have named : (released destroyed (.threadLock thread)).lock .keyLock = some (.keyLock key) := by
      simp [released, destroyed, locked, acquired, queued]
    have last : (released destroyed (.threadLock thread)).next .keyLock = none := by
      simp [released, destroyed, locked, acquired, alone]
    have tail : (released destroyed (.threadLock thread)).tails (.keyLock key) =
        state.tails (.keyLock key) := by
      simp [released, destroyed, locked, acquired]
    rw [mcsLockRelease_last named last, tail]
    rfl
  rw [deleteLoop, here]
  dsimp only [Option.bind_eq_bind]
  rw [mcsLockAcquire_free free, Option.bind_some]
  change (mcsLockRelease destroyed .threadLock).bind _ = _
  rw [unlocked, Option.bind_some, again]
  split <;> rfl

/-- A free lock is taken and released. -/
theorem acquire_release (free : state.tails lock = none) :
    (mcsLockAcquire state lock node).bind (mcsLockRelease · node) =
      some (released (acquired state lock node) lock) := by
  have named : (acquired state lock node).lock node = some lock := by
    simp [acquired]
  have last : (acquired state lock node).next node = none := by
    simp [acquired]
  have tail : (acquired state lock node).tails lock = some node := by
    simp [acquired]
  rw [mcsLockAcquire_free free, Option.bind_some, mcsLockRelease_last named last, if_pos tail]

/-- With the lock of the key the first association is destroyed; a second one is never finished. -/
theorem deleteLoop_acquired (fuel : Nat) (here : state.memory.threads key = some assoc)
    (free : ∀ lock, state.tails lock = none) :
    deleteLoop key (fuel + 2) (acquired state (.keyLock key) .keyLock) =
      if ((state.memory.tkAssocDestroy assoc).threads key).isSome then none
      else some (afterRound (acquired state (.keyLock key) .keyLock) key assoc) := by
  let locked := acquired state (.keyLock key) .keyLock
  have freeThread : ∀ thread, locked.tails (.threadLock thread) = none := by
    intro thread
    simp [locked, acquired, free]
  have named : locked.lock .keyLock = some (.keyLock key) := by
    simp [locked, acquired]
  have last : locked.next .keyLock = none := by
    simp [locked, acquired]
  have tail : locked.tails (.keyLock key) = some .keyLock := by
    simp [locked, acquired]
  have first : deleteLoop key (fuel + 2) locked = _ :=
    deleteLoop_round (fuel + 1) here (freeThread _) named last
  rw [first, if_pos tail]
  cases second : (state.memory.tkAssocDestroy assoc).threads key with
  | none =>
      rw [deleteLoop, show (afterRound locked key assoc).memory.threads key = none from second]
      rfl
  | some other =>
      have freeAgain : ∀ thread, (afterRound locked key assoc).tails (.threadLock thread) = none := by
        intro thread
        simp only [afterRound, released, acquired]
        rw [Function.update_of_ne (keyLock_ne key thread).symm]
        by_cases same : thread = locked.memory.thread assoc
        · rw [same, Function.update_self]
        · rw [Function.update_of_ne (by simpa using same), Function.update_of_ne (by simpa using same)]
          exact freeThread thread
      have namedAgain : (afterRound locked key assoc).lock .keyLock = some (.keyLock key) := by
        simp [afterRound, released, acquired, named]
      have lastAgain : (afterRound locked key assoc).next .keyLock = none := by
        simp [afterRound, released, acquired, last]
      have gone : (afterRound locked key assoc).tails (.keyLock key) = none := by
        simp [afterRound, released]
      have next : deleteLoop key (fuel + 1) (afterRound locked key assoc) = _ :=
        deleteLoop_round fuel second (freeAgain _) namedAgain lastAgain
      rw [next, gone]
      rfl

/-- Without associations the lock of the key is taken and released once. -/
theorem keyDelete_none {hasDestructor : Key → Bool} (destructor : hasDestructor key = true)
    (free : ∀ lock, state.tails lock = none) (nothing : state.memory.threads key = none)
    (fuel : Nat) :
    keyDelete hasDestructor key fuel state =
      some (released (acquired state (.keyLock key) .keyLock) (.keyLock key)) := by
  rw [keyDelete, deleteAssociations, nothing, destructor]
  exact acquire_release (free _)

/-- A single association is destroyed; behind another one the loop waits for ever. -/
theorem keyDelete_some {hasDestructor : Key → Bool} (destructor : hasDestructor key = true)
    (free : ∀ lock, state.tails lock = none) (here : state.memory.threads key = some assoc)
    (fuel : Nat) :
    keyDelete hasDestructor key (fuel + 2) state =
      if ((state.memory.tkAssocDestroy assoc).threads key).isSome then none
      else
        let deleted := afterRound (acquired state (.keyLock key) .keyLock) key assoc
        some (released (acquired deleted (.keyLock key) .keyLock) (.keyLock key)) := by
  have through : deleteAssociations hasDestructor key (fuel + 2) state =
      if ((state.memory.tkAssocDestroy assoc).threads key).isSome then none
      else some (afterRound (acquired state (.keyLock key) .keyLock) key assoc) := by
    rw [deleteAssociations, here, destructor, ← deleteLoop_acquired fuel here free]
    change (mcsLockAcquire state (.keyLock key) .keyLock).bind (deleteLoop key (fuel + 2)) = _
    rw [mcsLockAcquire_free (free _), Option.bind_some]
  rw [keyDelete, through, destructor]
  split
  · rfl
  · apply acquire_release
    simp [afterRound, released]

end Rounds

section Results

/-- More rounds do not change an outcome. -/
theorem deleteLoop_mono {key : Key} {fuel more : Nat} {state final : State Thread Key Value}
    (enough : fuel ≤ more) (ended : deleteLoop key fuel state = some final) :
    deleteLoop key more state = some final := by
  induction fuel generalizing more state with
  | zero => exact absurd ended (by simp [deleteLoop])
  | succ fuel ih =>
      obtain ⟨more, rfl⟩ : ∃ rest, more = rest + 1 := ⟨more - 1, by omega⟩
      rw [deleteLoop] at ended ⊢
      cases here : state.memory.threads key with
      | none =>
          rw [here] at ended
          exact ended
      | some assoc =>
          rw [here] at ended
          obtain ⟨locked, acquire, ended⟩ := Option.bind_eq_some_iff.mp ended
          obtain ⟨unlocked, release, ended⟩ := Option.bind_eq_some_iff.mp ended
          obtain ⟨released, again, ended⟩ := Option.bind_eq_some_iff.mp ended
          apply Option.bind_eq_some_iff.mpr ⟨locked, acquire, ?_⟩
          apply Option.bind_eq_some_iff.mpr ⟨unlocked, release, ?_⟩
          exact Option.bind_eq_some_iff.mpr ⟨released, again, ih (by omega) ended⟩

theorem keyDelete_mono {hasDestructor : Key → Bool} {key : Key} {fuel more : Nat}
    {state final : State Thread Key Value} (enough : fuel ≤ more)
    (ended : keyDelete hasDestructor key fuel state = some final) :
    keyDelete hasDestructor key more state = some final := by
  obtain ⟨deleted, through, last⟩ := Option.bind_eq_some_iff.mp ended
  apply Option.bind_eq_some_iff.mpr ⟨deleted, ?_, last⟩
  unfold deleteAssociations at through ⊢
  split at through
  · rename_i needed
    rw [if_pos needed]
    obtain ⟨locked, acquire, looped⟩ := Option.bind_eq_some_iff.mp through
    exact Option.bind_eq_some_iff.mpr ⟨locked, acquire, deleteLoop_mono enough looped⟩
  · rename_i needless
    rw [if_neg needless]
    exact through

variable {state : State Thread Key Value} {key : Key} {hasDestructor : Key → Bool}

/-- A key without associations is deleted. -/
theorem deletes_none (destructor : hasDestructor key = true) (idle : Idle state)
    (nothing : state.memory.threadChain key = []) : Deletes hasDestructor key state := by
  have start : state.memory.threads key = none := by
    rw [(idle.chained.threads key).start_eq, nothing, List.head?_nil]
  refine ⟨0, _, keyDelete_none destructor idle.free start 0, ?_, idle.chained, fun thread => ?_,
    fun _ => rfl, nothing, fun _ _ => rfl⟩
  · simp [released, acquired, idle.fresh, Balanced]
  · symm
    apply List.filter_eq_self.mpr
    intro assoc member
    obtain ⟨used, -⟩ := idle.chained.mem_keys.mp member
    have elsewhere : state.memory.key assoc ≠ key := by
      intro same
      have found := idle.chained.mem_threads.mpr ⟨used, same⟩
      rw [nothing] at found
      exact absurd found List.not_mem_nil
    exact decide_eq_true elsewhere

/-- A key with one association is deleted. -/
theorem deletes_one (destructor : hasDestructor key = true) (idle : Idle state) {assoc : Nat}
    (only : state.memory.threadChain key = [assoc]) : Deletes hasDestructor key state := by
  have start : state.memory.threads key = some assoc := by
    rw [(idle.chained.threads key).start_eq, only, List.head?_cons]
  obtain ⟨used, named⟩ : assoc ∈ state.memory.used ∧ state.memory.key assoc = key := by
    rw [← idle.chained.mem_threads, only]
    exact List.mem_singleton_self assoc
  have alone : ∀ other ∈ state.memory.used, state.memory.key other = key → other = assoc := by
    intro other within same
    have found := idle.chained.mem_threads.mpr ⟨within, same⟩
    rw [only] at found
    exact List.mem_singleton.mp found
  have destroyed := idle.chained.tkAssocDestroy used
  rw [named] at destroyed
  have empty : (state.memory.tkAssocDestroy assoc).threadChain key = [] := by
    rw [destroyed.threadChain_eq, Function.update_self, only, List.erase_cons_head]
  have nothing : (state.memory.tkAssocDestroy assoc).threads key = none := by
    rw [(destroyed.chained.threads key).start_eq, empty, List.head?_nil]
  have deleted := keyDelete_some destructor idle.free start 0
  rw [nothing, Option.isSome_none, if_neg (by simp)] at deleted
  refine ⟨_, _, deleted, ?_, destroyed.chained, fun thread => ?_, fun _ => rfl, empty,
    fun other apart => ?_⟩
  · simp [released, acquired, afterRound, idle.fresh, Balanced]
  · change (state.memory.tkAssocDestroy assoc).keyChain thread = _
    rw [destroyed.keyChain_eq]
    by_cases same : thread = state.memory.thread assoc
    · rw [same, Function.update_self, (idle.chained.distinctKeys _).erase_eq_filter]
      apply List.filter_congr
      intro other member
      have within := (idle.chained.mem_keys.mp member).1
      by_cases here : other = assoc
      · simp [here, named]
      · have apart : state.memory.key other ≠ key := fun same => here (alone other within same)
        simp [here, apart]
    · rw [Function.update_of_ne same]
      symm
      apply List.filter_eq_self.mpr
      intro other member
      obtain ⟨within, owned⟩ := idle.chained.mem_keys.mp member
      apply decide_eq_true
      intro here
      rw [alone other within here] at owned
      exact same owned.symm
  · change (state.memory.tkAssocDestroy assoc).threadChain other = _
    rw [destroyed.threadChain_eq, Function.update_of_ne apart]

/-- A key with two associations is never deleted. -/
theorem not_deletes (destructor : hasDestructor key = true) (idle : Idle state)
    {assoc other : Nat} {rest : List Nat}
    (several : state.memory.threadChain key = assoc :: other :: rest) (fuel : Nat) :
    keyDelete hasDestructor key fuel state = none := by
  have start : state.memory.threads key = some assoc := by
    rw [(idle.chained.threads key).start_eq, several, List.head?_cons]
  obtain ⟨used, named⟩ : assoc ∈ state.memory.used ∧ state.memory.key assoc = key := by
    rw [← idle.chained.mem_threads, several]
    exact List.mem_cons_self
  have destroyed := idle.chained.tkAssocDestroy used
  rw [named] at destroyed
  have another : (state.memory.tkAssocDestroy assoc).threads key = some other := by
    rw [(destroyed.chained.threads key).start_eq, destroyed.threadChain_eq, Function.update_self,
      several, List.erase_cons_head, List.head?_cons]
  have hangs := keyDelete_some destructor idle.free start fuel
  rw [another, Option.isSome_some, if_pos rfl] at hangs
  cases ended : keyDelete hasDestructor key fuel state with
  | none => rfl
  | some final => exact absurd (hangs.symm.trans (keyDelete_mono (by omega) ended)) (by simp)

/-- A key with a destructor is deleted, with balanced locks and in a bounded time, exactly when at
most one thread is associated with it. -/
theorem keyDelete_deletes (destructor : hasDestructor key = true) (idle : Idle state) :
    Deletes hasDestructor key state ↔ (state.memory.threadChain key).length ≤ 1 := by
  cases chain : state.memory.threadChain key with
  | nil => exact iff_of_true (deletes_none destructor idle chain) (by simp)
  | cons assoc rest =>
      cases rest with
      | nil => exact iff_of_true (deletes_one destructor idle chain) (by simp)
      | cons other rest =>
          apply iff_of_false
          · rintro ⟨fuel, final, ended, -⟩
            exact absurd ((not_deletes destructor idle chain fuel).symm.trans ended) (by simp)
          · simp

end Results

section Examples

/-- These threads have each set a value of the only key. -/
def setBy : List (Bool) → ThreadKeys (Bool) Unit Unit
  | [] => ThreadKeys.initial false ()
  | thread :: threads =>
      ((setBy threads).setspecific thread () ThreadKeys.counting (fun _ => true) (some ())).getD
        (setBy threads)

def idleState (threads : List (Bool)) : State (Bool) Unit Unit :=
  ⟨setBy threads, fun _ => none, fun _ => none, fun _ => none, []⟩

theorem idle_idleState (threads : List (Bool)) : Idle (idleState threads) where
  chained := by
    change ThreadKeys.Chained (setBy threads)
    induction threads with
    | nil => exact ThreadKeys.chained_initial false ()
    | cons thread threads ih =>
        rw [setBy]
        cases success : (setBy threads).setspecific thread () ThreadKeys.counting (fun _ => true)
            (some ()) with
        | none => exact ih
        | some changed => exact ih.setspecific success
  free _ := rfl
  fresh := rfl

/-- The key of a single thread is deleted. -/
theorem single_deletes : Deletes (fun _ => true) () (idleState [false]) :=
  (keyDelete_deletes rfl (idle_idleState [false])).mpr (by decide)

/-- Two threads have a value of the key, and its deletion never ends. -/
theorem two_never_end : ¬ Deletes (fun _ => true) () (idleState [true, false]) := by
  rintro ⟨fuel, final, ended, -⟩
  have several : (idleState [true, false]).memory.threadChain () = [2, 1] := by decide
  exact absurd ((not_deletes rfl (idle_idleState [true, false]) several fuel).symm.trans ended) (by simp)

end Examples

end KeyDelete

end CodeCollect.Pthreads
