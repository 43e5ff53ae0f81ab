import CodeCollect.Pthreads.RobustMutexRecords
import CodeCollect.Pthreads.RobustMutexWaiters

namespace CodeCollect.Pthreads

open CodeCollect.Library Program

namespace RobustMutexes

open RobustMutex (Point Request Moves Watched Guarded firm owns alert poised resets mortal)

variable {Mutex Thread : Type} [DecidableEq Mutex] [DecidableEq Thread]

/-- A thread is in no call on the mutex but blocked on its event, and it is not exiting. -/
def Quiet (mutex : Mutex) : Task Mutex Thread → Prop
  | .idle | .gone => True
  | .leaving => False
  | .busy other point => mortal point = false ∧ (other = mutex → ∃ timed, point = .waiting timed)

/-- A thread owns the mutex and is not in its last unlock. -/
def Holds (mutex : Mutex) (place : Place Mutex Thread) : Prop := firm (view mutex place) = true

/-- A mutex that is not recoverable is not held, and a thread that is blocked while nobody moves
is blocked by a live owner. -/
structure Recovered (config : Configuration Thread (Memory Mutex Thread) (Place Mutex Thread)) :
    Prop where
  unheld : ∀ mutex, (config.memory.mutexes mutex).stateInconsistent = .notRecoverable →
    ∀ thread, ¬ Holds mutex (config.places thread)
  blocked : ∀ mutex, (∀ thread, Quiet mutex (config.places thread).task) →
    (config.memory.mutexes mutex).event = false →
      ∀ thread timed, (config.places thread).task = .busy mutex (.waiting timed) →
        ∃ owner, (config.places owner).held mutex ≠ 0 ∧ (config.places owner).task ≠ .gone

/-- Each step is careful with each mutex. -/
def Careful (kind : Mutex → MutexKind)
    (config : Configuration Thread (Memory Mutex Thread) (Place Mutex Thread))
    (action : Thread × Label Mutex) : Prop :=
  ∀ mutex, RobustMutex.Careful (kind mutex) (config.memory.mutexes mutex)
    (views mutex config.places) action.1

variable {kind : Mutex → MutexKind}
  {config after : Configuration Thread (Memory Mutex Thread) (Place Mutex Thread)}

omit [DecidableEq Thread] in
/-- A quiet thread has no duty, and it owns the mutex when it holds it. -/
theorem weights_of_quiet (kind : Mutex → MutexKind) {mutex : Mutex} {place : Place Mutex Thread}
    (quiet : Quiet mutex place.task) :
    alert (view mutex place) = 0 ∧ poised (view mutex place) = 0 ∧
      resets (kind mutex) (view mutex place) = 0 ∧
        owns (view mutex place) = Pthreads.Mutex.holds (place.held mutex) := by
  obtain ⟨held, task⟩ := place
  cases task with
  | idle => exact ⟨rfl, rfl, rfl, rfl⟩
  | gone => exact ⟨rfl, rfl, rfl, rfl⟩
  | leaving => exact quiet.elim
  | busy other point =>
      obtain ⟨alive, waiting⟩ := quiet
      by_cases same : other = mutex
      · subst same
        obtain ⟨timed, rfl⟩ := waiting rfl
        rw [view_busy]
        exact ⟨rfl, rfl, rfl, rfl⟩
      · rw [view_other same, shadow, if_neg (by rw [alive]; decide)]
        exact ⟨rfl, rfl, rfl, rfl⟩

variable [Fintype Thread]

/-- Careful steps record the owners and forget no waiter. -/
theorem Kept.careful_step (kept : Kept kind config) {action : Thread × Label Mutex}
    (careful : Careful kind config action)
    (watched : ∀ mutex, Watched (kind mutex) (config.memory.mutexes mutex)
      (views mutex config.places))
    (taken : (program kind Thread).system.next config action = some after) :
    Kept kind after ∧ ∀ mutex, Watched (kind mutex) (after.memory.mutexes mutex)
      (views mutex after.places) := by
  have recording : Recording config action := fun _ mutex here =>
    (careful mutex).recorded (by rw [views, view_of_task here])
  refine ⟨kept.step recording taken, fun mutex => ?_⟩
  obtain ⟨memory, place, stepped, rfl⟩ := next_iff.mp taken
  exact kept.linked.view_step (turns_of_step stepped) mutex (Watched (kind mutex)) (watched mutex)
    fun _ _ moves => (watched mutex).step (kept.linked.guarded mutex) (careful mutex) moves

theorem watched_of_reachable
    (reached : (program kind Thread).system.Reachable (Careful kind) config) :
    Kept kind config ∧ ∀ mutex, Watched (kind mutex) (config.memory.mutexes mutex)
      (views mutex config.places) := by
  refine reached.invariant (fun config => Kept kind config ∧ ∀ mutex,
    Watched (kind mutex) (config.memory.mutexes mutex) (views mutex config.places)) ?_ ?_
  · exact ⟨kept_initial, fun _ => RobustMutex.watched_initial⟩
  · intro before action after ⟨kept, watched⟩ careful taken
    exact kept.careful_step careful watched taken

/-- In every run of careful steps a mutex that is not recoverable is never held and strands
nobody. -/
theorem recovered (reached : (program kind Thread).system.Reachable (Careful kind) config) :
    Recovered config := by
  obtain ⟨kept, watched⟩ := watched_of_reachable reached
  refine ⟨fun mutex unrecoverable thread holds => ?_, fun mutex quiet idle thread timed here => ?_⟩
  · have unheld := (watched mutex).unheld unrecoverable thread
    exact absurd (unheld.symm.trans holds) (by decide)
  · have waiting : 0 < RobustMutex.waits (views mutex config.places thread) := by
      rw [views, view_of_task here]
      exact Nat.one_pos
    obtain ⟨owner, own⟩ := (watched mutex).owner idle (fun other => by
      obtain ⟨noAlert, noPoised, noReset, _⟩ := weights_of_quiet kind (quiet other)
      exact ⟨noAlert, noPoised, noReset⟩) waiting
    rw [views, (weights_of_quiet kind (quiet owner)).2.2.2] at own
    refine ⟨owner, fun nothing => ?_, fun gone => ?_⟩
    · rw [nothing] at own
      exact absurd own (lt_irrefl 0)
    · have nothing := (kept.recorded.departed owner mutex gone).1
      rw [nothing] at own
      exact absurd own (lt_irrefl 0)

/-- One thread of two locks a mutex of one kind while the owners stay alive. -/
def Simple (config : Configuration Bool (Memory Unit Bool) (Place Unit Bool))
    (action : Bool × Label Unit) : Bool :=
  (config.memory.mutexes ()).stateInconsistent = .consistent ∧
    (config.places action.1).task ≠ .busy () (.exchanging true)

theorem careful_of_simple {kind : Unit → MutexKind}
    (config : Configuration Bool (Memory Unit Bool) (Place Unit Bool))
    (action : Bool × Label Unit) (simple : Simple config action = true) :
    Careful kind config action := by
  obtain ⟨consistent, plain⟩ := of_decide_eq_true simple
  intro mutex
  exact {
    recorded := fun here => absurd (busy_of_view here ⟨nofun, nofun, nofun⟩) plain
    last := fun _ inconsistent => nomatch consistent.symm.trans inconsistent
    recoverable := fun _ _ unrecoverable => nomatch consistent.symm.trans unrecoverable
    marked := by
      rintro timed - (terminated | ⟨unrecoverable, -⟩)
      · exact nomatch consistent.symm.trans terminated
      · exact nomatch consistent.symm.trans unrecoverable }

/-- A number of steps of one thread. -/
def going (thread : Bool) (count : Nat) : List (Bool × Label Unit) :=
  List.replicate count (thread, .go)

/-- One thread locks a normal mutex, and another one blocks on its event. -/
def blockedRun : List (Bool × Label Unit) :=
  (false, .call () (.lock false)) :: going false 8 ++
    (true, .call () (.lock false)) :: going true 4

theorem blockedRun_recovered : ∃ config,
    (program (fun _ : Unit => .normal) Bool).system.run blockedRun = some config ∧
      (config.places true).task = .busy () (.waiting false) ∧ Recovered config := by
  obtain ⟨config, ran, blocks⟩ : ∃ config,
      (program (fun _ : Unit => .normal) Bool).system.run blockedRun = some config ∧
        (config.places true).task = .busy () (.waiting false) := ⟨_, rfl, rfl⟩
  exact ⟨config, ran, blocks, recovered (System.reachable_of_along
    (System.along_of_tested careful_of_simple (by decide)) ran)⟩

/-- A recursive mutex is taken over, locked once more and unlocked once. -/
def innerUnlockRun : List (Bool × Label Unit) :=
  (false, .call () (.lock false)) :: going false 9 ++ (false, .exit) :: going false 8 ++
    (true, .call () (.lock false)) :: going true 11 ++
      (true, .call () (.lock false)) :: going true 5 ++ (true, .call () .unlock) :: going true 4

theorem held_not_recoverable : ∃ config,
    (program (fun _ : Unit => .recursive) Bool).system.run innerUnlockRun = some config ∧
      (config.memory.mutexes ()).stateInconsistent = .notRecoverable ∧
        (config.places true).task = .idle ∧ (config.places true).held () = 1 ∧
          ¬ Recovered config :=
  ⟨_, rfl, rfl, rfl, rfl, fun recovered => recovered.unheld () rfl true rfl⟩

end RobustMutexes

end CodeCollect.Pthreads
