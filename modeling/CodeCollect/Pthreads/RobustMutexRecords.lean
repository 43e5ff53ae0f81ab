import CodeCollect.Pthreads.RobustMutexBequest
import CodeCollect.Pthreads.RobustMutexLists

namespace CodeCollect.Pthreads

open CodeCollect.Library Program Links

namespace RobustMutexes

open RobustMutex (Point Request Result Moves heir Bequeathed)

variable {Mutex Thread : Type} [DecidableEq Mutex]

/-- A thread has taken the mutex over and is going to return `EOWNERDEAD`. -/
def Inherits (mutex : Mutex) (task : Task Mutex Thread) : Prop :=
  ∃ point, task = .busy mutex point ∧ heir point = true

/-- The mutexes that a thread holds name it and make up its list. It may unlock them, and those
that it holds when it exits are passed on. -/
structure OwnersRecorded [DecidableEq Thread] (kind : Mutex → MutexKind)
    (config : Configuration Thread (Memory Mutex Thread) (Place Mutex Thread)) : Prop where
  owner : ∀ thread mutex, (config.places thread).held mutex ≠ 0 →
    (config.memory.mutexes mutex).ownerThread = some thread
  list : ∀ thread, Settled (config.places thread).task → ∃ nodes : List Mutex, nodes.Nodup ∧
    (∀ mutex, mutex ∈ nodes ↔ (config.places thread).held mutex ≠ 0) ∧
      config.memory.links.Segment none (config.memory.robustMxList thread) nodes none
  permitted : ∀ thread mutex after, (config.places thread).task = .busy mutex .unlockTest →
    (config.places thread).held mutex ≠ 0 →
      (program kind Thread).system.next config (thread, .go) = some after →
        (after.places thread).task = .busy mutex .spoiling
  departed : ∀ thread mutex, (config.places thread).task = .gone →
    (config.places thread).held mutex = 0 ∧
      ((config.memory.mutexes mutex).ownerThread = some thread →
        (config.memory.mutexes mutex).stateInconsistent = .terminated ∨
          ∃ other, Inherits mutex (config.places other).task)
  passedOn : ∀ mutex, (config.memory.mutexes mutex).stateInconsistent = .terminated →
    (config.memory.mutexes mutex).lock_idx ≠ 0 ∧
      (∀ thread, (config.places thread).held mutex = 0) ∧
        ∀ action after, (program kind Thread).system.next config action = some after →
          (after.memory.mutexes mutex).stateInconsistent = .terminated ∨
            Inherits mutex (after.places action.1).task
  completed : ∀ thread mutex label after, Inherits mutex (config.places thread).task →
    (program kind Thread).system.next config (thread, label) = some after →
      Inherits mutex (after.places thread).task ∨
        (after.places thread).task = .busy mutex (.returning .EOWNERDEAD)

/-- This is what every step keeps. -/
structure Kept [Fintype Thread] (kind : Mutex → MutexKind)
    (config : Configuration Thread (Memory Mutex Thread) (Place Mutex Thread)) : Prop where
  linked : Linked kind config.memory config.places
  bequeathed : ∀ mutex, Bequeathed (config.memory.mutexes mutex) (views mutex config.places)

section Views

variable {mutex : Mutex} {place : Place Mutex Thread}

theorem inner_of_heir {point : Point Thread} (inherits : heir point = true) : Inner point := by
  refine ⟨?_, ?_, ?_⟩ <;> rintro rfl <;> exact nomatch inherits

theorem inherits_of_view (inherits : heir (view mutex place).point = true) :
    Inherits mutex place.task :=
  ⟨_, busy_of_view rfl (inner_of_heir inherits), inherits⟩

theorem view_of_task {point : Point Thread} (here : place.task = .busy mutex point) :
    view mutex place = ⟨place.held mutex, point⟩ := by
  obtain ⟨held, task⟩ := place
  obtain rfl : task = .busy mutex point := here
  exact view_busy

end Views

variable [Fintype Thread] [DecidableEq Thread] {kind : Mutex → MutexKind}
  {config after : Configuration Thread (Memory Mutex Thread) (Place Mutex Thread)}

omit [Fintype Thread] in
/-- A timed lock goes on at its exchange by the exchange. -/
theorem go_of_exchanging {self : Thread} {memory : Memory Mutex Thread}
    {place : Place Mutex Thread} {label : Label Mutex}
    {reached : Memory Mutex Thread × Place Mutex Thread} {mutex : Mutex} {timed : Bool}
    (taken : step kind self memory place label = some reached)
    (here : place.task = .busy mutex (.exchanging timed)) : label = .go := by
  obtain ⟨held, task⟩ := place
  obtain rfl : task = .busy mutex (.exchanging timed) := here
  cases label with
  | go => rfl
  | timeout => exact nomatch taken
  | call => exact nomatch taken
  | exit => exact nomatch taken

/-- Every step keeps the lists and the records, if no timed lock takes a free normal mutex. -/
theorem Kept.step (kept : Kept kind config) {action : Thread × Label Mutex}
    (good : Recording config action)
    (taken : (program kind Thread).system.next config action = some after) : Kept kind after := by
  obtain ⟨memory, place, stepped, rfl⟩ := next_iff.mp taken
  have turns := turns_of_step stepped
  have linked := kept.linked
  refine ⟨linked.step (fun mutex here => ?_) turns, fun mutex => ?_⟩
  · exact good (go_of_exchanging stepped here) mutex here
  · exact linked.view_step turns mutex Bequeathed (kept.bequeathed mutex)
      fun _ _ moves => (kept.bequeathed mutex).step (linked.guarded mutex) moves

/-- To each mutex, a step is one of its own moves or it changes nothing. -/
theorem Kept.moves (kept : Kept kind config) {action : Thread × Label Mutex}
    (taken : (program kind Thread).system.next config action = some after) (mutex : Mutex) :
    Moves (kind mutex) action.1 (config.memory.mutexes mutex)
        (view mutex (config.places action.1)) (after.memory.mutexes mutex)
          (view mutex (after.places action.1)) ∨
      after.memory.mutexes mutex = config.memory.mutexes mutex ∧
        view mutex (after.places action.1) = view mutex (config.places action.1) := by
  obtain ⟨memory, place, stepped, rfl⟩ := next_iff.mp taken
  dsimp only
  rw [Function.update_self]
  rcases (kept.linked.listed action.1).view_step (turns_of_step stepped) mutex with
    ⟨label, moved⟩ | same
  · exact Or.inl (RobustMutex.moves_of_step moved)
  · exact Or.inr same

omit [Fintype Thread] in
/-- A step inside a call on a mutex is a move on it. -/
theorem moves_of_busy {thread : Thread} {label : Label Mutex}
    (taken : (program kind Thread).system.next config (thread, label) = some after)
    {mutex : Mutex} {point : Point Thread} (here : (config.places thread).task = .busy mutex point) :
    Moves (kind mutex) thread (config.memory.mutexes mutex)
      ⟨(config.places thread).held mutex, point⟩ (after.memory.mutexes mutex)
        (view mutex (after.places thread)) := by
  obtain ⟨memory, place, stepped, rfl⟩ := next_iff.mp taken
  dsimp only
  rw [Function.update_self]
  have turns := turns_of_step stepped
  generalize config.places thread = left at turns here
  cases turns with
  | call => exact nomatch here
  | exit => exact nomatch here
  | finish => exact nomatch here
  | take => exact nomatch here
  | inside moved =>
      obtain ⟨rfl, rfl⟩ := Task.busy.inj here
      rw [Memory.after_self, view_of, Function.update_self]
      exact RobustMutex.moves_of_step moved

omit [Fintype Thread] [DecidableEq Thread] [DecidableEq Mutex] in
/-- The list of a thread that is at no open step is a whole segment. -/
theorem segment_of_settled {links : Links Mutex} {lists : Thread → Option Mutex} {self : Thread}
    {nodes : List Mutex} {task : Task Mutex Thread} [DecidableEq Mutex]
    (shape : Shape links lists self nodes task) (settled : Settled task) :
    links.Segment none (lists self) nodes none := by
  unfold Shape at shape
  split at shape
  · exact shape.1
  · exact shape.1
  · exact settled.elim
  · exact settled.elim
  · exact settled.elim
  · exact settled.elim
  · exact shape

/-- The invariant says that owners are recorded. -/
theorem Kept.recorded (kept : Kept kind config) : OwnersRecorded kind config where
  owner thread mutex held := (kept.linked.guarded mutex).owner_of_depth held
  list thread settled := by
    obtain ⟨nodes, distinct, members, shape⟩ := (kept.linked.listed thread).shape
    exact ⟨nodes, distinct, members, segment_of_settled shape settled⟩
  permitted thread mutex after here held taken := by
    have owned : (config.memory.mutexes mutex).ownerThread = some thread :=
      (kept.linked.guarded mutex).owner_of_depth held
    have moves := moves_of_busy taken here
    generalize after.memory.mutexes mutex = fields at moves
    generalize reached : view mutex (after.places thread) = place at moves
    cases moves with
    | owned => exact busy_of_view (by rw [reached]) ⟨by simp, by simp, by simp⟩
    | forbidden foreign => exact absurd owned foreign
  departed thread mutex here := by
    have guarded := kept.linked.guarded mutex
    have seen : views mutex config.places thread = ⟨(config.places thread).held mutex, .gone⟩ := by
      rw [views, view, here]
      rfl
    have suits := (guarded.fits thread).suits
    rw [seen] at suits
    refine ⟨suits, fun owned => ?_⟩
    rcases (kept.bequeathed mutex).left thread owned (by rw [seen]; exact decide_eq_true suits) with
      terminated | ⟨other, inherits⟩
    · exact Or.inl terminated
    · exact Or.inr ⟨other, inherits_of_view inherits⟩
  passedOn mutex terminated := by
    have guarded := kept.linked.guarded mutex
    refine ⟨fun idle => ?_, fun thread => ?_, fun action after taken => ?_⟩
    · have nothing := guarded.free idle
      rw [terminated] at nothing
      exact absurd nothing (by simp [RobustMutex.orphaned])
    · exact guarded.depth_of_terminated terminated (rfl : views mutex config.places thread = _)
    · rcases kept.moves taken mutex with moves | ⟨same, _⟩
      · rcases RobustMutex.orphan_of_moves moves terminated with still | inherits
        · exact Or.inl still
        · exact Or.inr (inherits_of_view inherits)
      · exact Or.inl (by rw [same, terminated])
  completed thread mutex label after inherits taken := by
    obtain ⟨point, here, onWay⟩ := inherits
    have moves := moves_of_busy taken here
    have recoverable := (kept.bequeathed mutex).kept thread
    rw [views, view_of_task here] at recoverable
    rcases RobustMutex.heir_of_moves moves onWay recoverable with onward | ⟨_, done⟩
    · exact Or.inl (inherits_of_view onward)
    · exact Or.inr (busy_of_view done ⟨by simp, by simp, by simp⟩)

/-- At the start all mutexes are free. -/
theorem kept_initial : Kept kind (program kind Thread).system.initial where
  linked := linked_initial
  bequeathed _ := ⟨nofun, nofun⟩

/-- A timed lock that finds a normal mutex free returns without a record of its owner. -/
theorem Kept.unrecorded (kept : Kept kind config) {action : Thread × Label Mutex}
    (bad : ¬ Recording config action) : ∃ after,
      (program kind Thread).system.next config action = some after ∧
        ¬ OwnersRecorded kind after := by
  obtain ⟨thread, label⟩ := action
  obtain ⟨rfl, mutex, here, idle⟩ : label = .go ∧ ∃ mutex,
      (config.places thread).task = .busy mutex (.exchanging true) ∧
        (config.memory.mutexes mutex).lock_idx = 0 := by
    simpa [Recording] using bad
  have guarded := kept.linked.guarded mutex
  have seen : views mutex config.places thread =
      ⟨(config.places thread).held mutex, .exchanging true⟩ := view_of_task here
  have nothing := guarded.depth_eq_zero idle seen
  have foreign : (config.memory.mutexes mutex).ownerThread ≠ some thread := fun owned =>
    guarded.depth_ne owned (by rw [seen]; rfl) nothing
  have entered : RobustMutex.step (kind mutex) thread (config.memory.mutexes mutex)
      ⟨(config.places thread).held mutex, .exchanging true⟩ .go =
        some ({ config.memory.mutexes mutex with lock_idx := 1 },
          ⟨(config.places thread).held mutex + 1, .returning .ok⟩) := if_pos idle
  have stepped : (program kind Thread).step thread config.memory (config.places thread) .go =
      some (config.memory.after thread mutex { config.memory.mutexes mutex with lock_idx := 1 }
          (.exchanging true),
        ⟨Function.update (config.places thread).held mutex
          ((config.places thread).held mutex + 1), .busy mutex (.returning .ok)⟩) := by
    generalize config.places thread = place at here entered
    obtain ⟨held, task⟩ := place
    obtain rfl : task = .busy mutex (.exchanging true) := here
    exact congrArg (Option.map _) entered
  refine ⟨_, next_of_step stepped, fun recorded => foreign ?_⟩
  have owned := recorded.owner thread mutex
  simpa using owned

/-- In every run, owners are recorded throughout exactly when no timed lock takes a free normal
mutex. -/
theorem recorded_iff (kind : Mutex → MutexKind) (actions : List (Thread × Label Mutex)) :
    (program kind Thread).system.Throughout (OwnersRecorded kind)
        (program kind Thread).system.initial actions ↔
      (program kind Thread).system.Along Recording (program kind Thread).system.initial actions :=
  System.throughout_iff_along _ (Kept kind) (fun _ kept => kept.recorded)
    (fun _ _ _ kept good taken => kept.step good taken)
    (fun _ _ kept bad => kept.unrecorded bad) kept_initial actions

/-- A timed lock takes a free normal mutex, and its unlock is refused. -/
def lockThenUnlock : List (Bool × Label Unit) :=
  [(false, .call () (.lock true)), (false, .go), (false, .go), (false, .go),
    (false, .call () .unlock), (false, .go)]

theorem owner_unlock_refused : ∃ config,
    (program (fun _ : Unit => .normal) Bool).system.run lockThenUnlock = some config ∧
      (config.places false).held () = 1 ∧
        (config.places false).task = .busy () (.returning .EPERM) ∧
          ¬ OwnersRecorded (fun _ : Unit => .normal) config :=
  ⟨_, rfl, rfl, rfl, fun recorded => nomatch recorded.owner false () nofun⟩

end RobustMutexes

end CodeCollect.Pthreads
