import CodeCollect.Pthreads.RobustMutexOwner

namespace CodeCollect.Pthreads

open CodeCollect.Library Program

namespace RobustMutex

open Mutex (holds holds_zero holds_succ holds_of_ne eq_zero_of_holds)

variable {Thread : Type}

/-- A thread owns the mutex and is not in its last unlock. -/
def firm : Place Thread → Bool
  | ⟨_, .assigningCount _⟩ | ⟨_, .adding _ _⟩ | ⟨_, .unlinking true _ _⟩ | ⟨_, .orphaning⟩ => true
  | ⟨_, .removing false⟩ => false
  | ⟨depth, .decrementing⟩ => 1 < depth
  | ⟨depth, _⟩ => depth ≠ 0

/-- A mutex that is not recoverable stays so. -/
def lost : RobustState → Nat
  | .notRecoverable => 1
  | _ => 0

/-- A thread waits for the event. -/
def waits : Place Thread → Nat
  | ⟨_, .waiting _⟩ => 1
  | _ => 0

/-- A thread is going to take over a mutex whose owner has terminated, or to wake another one. -/
def alert : Place Thread → Nat
  | ⟨_, .mourning⟩ | ⟨_, .retesting _⟩ | ⟨_, .inheriting _⟩ => 1
  | _ => 0

/-- A thread is going to mark the lock word or to set the event. -/
def poised : Place Thread → Nat
  | ⟨_, .inheriting _⟩ | ⟨_, .marking _⟩ | ⟨_, .retesting _⟩ | ⟨_, .unblocking⟩
  | ⟨_, .rechecking .ENOTRECOVERABLE⟩ | ⟨_, .signalling⟩ | ⟨_, .mourning⟩ => 1
  | _ => 0

/-- A thread that finds the mutex not recoverable is going to set the event again. -/
def resets (kind : MutexKind) : Place Thread → Nat
  | ⟨_, .inheriting true⟩ => if kind = .normal then 0 else 1
  | ⟨_, .retesting _⟩ | ⟨_, .unblocking⟩ | ⟨_, .rechecking .ENOTRECOVERABLE⟩
  | ⟨_, .signalling⟩ | ⟨_, .mourning⟩ => 1
  | _ => 0

/-- At these points a lock-type call takes the lock word when it is 0. -/
def Grabs (kind : MutexKind) : Point Thread → Prop
  | .exchanging _ | .comparing _ | .trying => True
  | .marking timed => timed = true → kind = .normal
  | _ => False

/-- These conditions keep a mutex that is not recoverable from being held and its waiters from
being forgotten. -/
structure Careful (kind : MutexKind) (memory : Memory Thread) (places : Thread → Place Thread)
    (thread : Thread) : Prop where
  recorded : (places thread).point = .exchanging true → memory.lock_idx ≠ 0
  last : (places thread).point = .spoiling → memory.stateInconsistent = .inconsistent →
    kind = .recursive → memory.recursive_count = 1
  recoverable : memory.lock_idx = 0 → Grabs kind (places thread).point →
    memory.stateInconsistent ≠ .notRecoverable
  marked : ∀ timed, (places thread).point = .inheriting timed →
    memory.stateInconsistent = .terminated ∨
      memory.stateInconsistent = .notRecoverable ∧ (timed = true → kind = .normal) →
        (∃ other, 0 < waits (places other)) →
          memory.lock_idx = -1 ∨ memory.event = true ∨
            ∃ other, other ≠ thread ∧ 0 < poised (places other)

/-- This is what every careful step keeps. -/
structure Watched [Fintype Thread] (kind : MutexKind) (memory : Memory Thread)
    (places : Thread → Place Thread) : Prop where
  unheld : memory.stateInconsistent = .notRecoverable → ∀ thread, firm (places thread) = false
  refused : ∀ thread, (places thread).point = .rechecking .ENOTRECOVERABLE →
    memory.stateInconsistent = .notRecoverable
  locked : memory.lock_idx ≠ 0 →
    0 < total owns places + orphaned memory.stateInconsistent + lost memory.stateInconsistent
  awake : orphaned memory.stateInconsistent ≤ memory.event.toNat + total alert places
  wakeful : 0 < total waits places →
    memory.lock_idx = -1 ∨ 0 < memory.event.toNat + total poised places
  reset : memory.lock_idx ≠ 0 → lost memory.stateInconsistent ≤
    total owns places + memory.event.toNat + total (resets kind) places

section Places

variable {kind : MutexKind} {depth : Nat}

theorem weights_acquired (result : Result) :
    waits (⟨depth, acquired kind result⟩ : Place Thread) = 0 ∧
      alert (⟨depth, acquired kind result⟩ : Place Thread) = 0 ∧
        poised (⟨depth, acquired kind result⟩ : Place Thread) = 0 ∧
          resets kind (⟨depth, acquired kind result⟩ : Place Thread) = 0 := by
  unfold acquired
  split <;> exact ⟨rfl, rfl, rfl, rfl⟩

/-- Behind a loop that has acquired the mutex, nobody has to be woken. -/
theorem weights_afterLoop (timed : Bool) {result : Result}
    (taken : result = .ok ∨ result = .EOWNERDEAD) :
    waits (⟨depth, afterLoop kind timed result⟩ : Place Thread) = 0 ∧
      alert (⟨depth, afterLoop kind timed result⟩ : Place Thread) = 0 ∧
        poised (⟨depth, afterLoop kind timed result⟩ : Place Thread) = 0 ∧
          resets kind (⟨depth, afterLoop kind timed result⟩ : Place Thread) = 0 := by
  unfold afterLoop
  split
  · rcases taken with rfl | rfl <;> exact ⟨rfl, rfl, rfl, rfl⟩
  · rw [if_neg (by rcases taken with rfl | rfl <;> decide)]
    exact weights_acquired result

theorem weights_spoil :
    waits (⟨depth, if kind = .recursive then .decrementing else .removing false⟩ :
        Place Thread) = 0 ∧
      alert (⟨depth, if kind = .recursive then .decrementing else .removing false⟩ :
          Place Thread) = 0 ∧
        poised (⟨depth, if kind = .recursive then .decrementing else .removing false⟩ :
            Place Thread) = 0 ∧
          resets kind (⟨depth, if kind = .recursive then .decrementing else .removing false⟩ :
            Place Thread) = 0 := by
  split <;> exact ⟨rfl, rfl, rfl, rfl⟩

/-- The timed call of the other kinds wakes the next thread behind its loop. -/
theorem afterLoop_lost (Thread : Type) (kind : MutexKind) (timed : Bool) :
    (timed = true ∧ kind ≠ .normal) ∧
        (afterLoop kind timed .ENOTRECOVERABLE : Point Thread) = .rechecking .ENOTRECOVERABLE ∨
      (timed = true → kind = .normal) ∧
        (afterLoop kind timed .ENOTRECOVERABLE : Point Thread) = .returning .ENOTRECOVERABLE := by
  unfold afterLoop
  by_cases behind : timed = true ∧ kind ≠ .normal
  · rw [if_pos behind]
    exact Or.inl ⟨behind, rfl⟩
  · rw [if_neg behind]
    exact Or.inr ⟨fun is_timed => by_contra fun differs => behind ⟨is_timed, differs⟩, rfl⟩

theorem poised_rechecking {result : Result} (known : result ≠ .ENOTRECOVERABLE) :
    poised (⟨depth, .rechecking result⟩ : Place Thread) = 0 := by
  cases result <;> first | rfl | exact absurd rfl known

theorem owns_of_firm {place : Place Thread} (holds : firm place = true) : 0 < owns place := by
  obtain ⟨depth, point⟩ := place
  by_cases held : depth = 0
  · subst held
    cases point <;> first | exact Nat.one_pos | simp [firm] at holds
  · exact owns_of_depth held

end Places

variable {kind : MutexKind} {memory next : Memory Thread} {places : Thread → Place Thread}
  {thread : Thread} {place left : Place Thread} {depth : Nat}

section Steps

variable [Fintype Thread] [DecidableEq Thread]

/-- A lock word that is not 0 has an owner, or it waits for one, or the mutex is lost. -/
theorem Watched.locked_step (watched : Watched kind memory places)
    (guarded : Guarded kind memory places) (here : places thread = left)
    (moves : Moves kind thread memory left next place) :
    next.lock_idx ≠ 0 → 0 < total owns (Function.update places thread place) +
      orphaned next.stateInconsistent + lost next.stateInconsistent := by
  have changes := total_update owns places thread place
  have after := le_total owns (Function.update places thread place) thread
  have locked := watched.locked
  have kept := holds_le_owns left
  have suits := here ▸ (guarded.fits thread).suits
  rw [Function.update_self] at after
  rw [here] at changes
  cases moves
  case takeOver depth timed terminated =>
    rw [owns_afterLoop timed (by decide)] at after
    omega
  case giveUp depth timed unrecoverable =>
    rw [owns_afterLoop_lost] at changes
    simp only [owns] at *
    omega
  case acquire depth timed idle =>
    rw [owns_afterLoop timed (by decide)] at after
    omega
  case tryAcquire depth idle =>
    rw [owns_acquired] at after
    omega
  case count depth =>
    simp only [owns, holds_succ] at *
    omega
  case recheckFails depth result unrecoverable =>
    simp only [unrecoverable, lost]
    omega
  case recheckOther depth result recoverable other =>
    rw [owns_rechecking_other other] at changes
    simp only [owns] at *
    omega
  case spoil depth =>
    have kept : owns (⟨depth, if kind = .recursive then .decrementing else .removing false⟩ :
        Place Thread) = 1 := by
      split
      · exact holds_of_ne suits
      · rfl
    omega
  case inner depth more =>
    have held := guarded.depth_sub_ne here more
    simp only [owns, holds_of_ne held] at *
    omega
  case repair depth inconsistent =>
    rw [inconsistent] at locked
    simp only [owns, orphaned, lost] at *
    omega
  case call depth request =>
    cases request <;>
    · simp only [owns, Request.start] at *
      omega
  all_goals
    simp only [owns, orphaned, lost, holds_succ] at *
    omega

omit [Fintype Thread] [DecidableEq Thread] in
theorem orphaned_le_one (state : RobustState) : orphaned state ≤ 1 := by
  cases state <;> decide

omit [Fintype Thread] [DecidableEq Thread] in
theorem lost_le_one (state : RobustState) : lost state ≤ 1 := by
  cases state <;> decide

/-- A mutex whose owner has terminated is taken over by a thread that is on its way or woken. -/
theorem Watched.awake_step (watched : Watched kind memory places) (here : places thread = left)
    (moves : Moves kind thread memory left next place) :
    orphaned next.stateInconsistent ≤
      next.event.toNat + total alert (Function.update places thread place) := by
  have changes := total_update alert places thread place
  have awake := watched.awake
  rw [here] at changes
  cases moves
  case takeOver depth timed terminated =>
    simp only [orphaned]
    omega
  case giveUp depth timed unrecoverable =>
    simp only [unrecoverable, orphaned]
    omega
  case acquire depth timed idle =>
    rw [(weights_afterLoop timed (by decide)).2.1] at changes
    simp only [alert] at *
    omega
  case tryAcquire depth idle =>
    rw [(weights_acquired .ok).2.1] at changes
    simp only [alert] at *
    omega
  case persist depth timed alive recoverable =>
    have nothing : orphaned memory.stateInconsistent = 0 := by
      cases same : memory.stateInconsistent <;> first | rfl | exact absurd same alive
    omega
  case retestFails depth timed unrecoverable =>
    simp only [unrecoverable, orphaned]
    omega
  case tryTakeOver depth terminated =>
    simp only [orphaned]
    omega
  case repair depth inconsistent =>
    simp only [orphaned]
    omega
  case spoil depth =>
    rw [weights_spoil.2.1] at changes
    simp only [alert, orphaned_spoil] at *
    omega
  case orphan depth =>
    simp only [alert, orphaned] at *
    omega
  case call depth request =>
    cases request <;>
    · simp only [alert, Request.start] at *
      omega
  all_goals
    have once := orphaned_le_one memory.stateInconsistent
    simp only [alert, Bool.toNat_true, Bool.toNat_false] at *
    omega

omit [DecidableEq Thread] in
/-- A careful thread that leaves the loop leaves nobody waiting for ever. -/
theorem Careful.kept (careful : Careful kind memory places thread) {timed : Bool}
    (here : places thread = ⟨depth, .inheriting timed⟩)
    (leaves : memory.stateInconsistent = .terminated ∨
      memory.stateInconsistent = .notRecoverable ∧ (timed = true → kind = .normal))
    (waiting : 0 < total waits places) :
    memory.lock_idx = -1 ∨ 1 < memory.event.toNat + total poised places := by
  have self := le_total poised places thread
  have marked := careful.marked timed (by rw [here]) leaves (exists_of_total_pos waiting)
  rw [here] at self
  simp only [poised] at self
  rcases marked with marked | set | ⟨other, differs, ready⟩
  · exact Or.inl marked
  · rw [set, Bool.toNat_true]
    omega
  · have both := add_le_total poised places differs
    rw [here] at both
    simp only [poised] at both ready
    omega

/-- A waiter is not forgotten, if who leaves the loop leaves a mark or somebody to wake it. -/
theorem Watched.wakeful_step (watched : Watched kind memory places)
    (careful : Careful kind memory places thread) (here : places thread = left)
    (moves : Moves kind thread memory left next place) :
    0 < total waits (Function.update places thread place) → next.lock_idx = -1 ∨
      0 < next.event.toNat + total poised (Function.update places thread place) := by
  have waitsMove := total_update waits places thread place
  have poisedMove := total_update poised places thread place
  have waitsHere := le_total waits places thread
  have wakeful := watched.wakeful
  have poisedAfter := le_total poised (Function.update places thread place) thread
  rw [here] at waitsMove poisedMove waitsHere
  rw [Function.update_self] at poisedAfter
  cases moves
  case takeOver depth timed terminated =>
    have kept := careful.kept here (Or.inl terminated)
    rw [(weights_afterLoop timed (by decide)).1] at waitsMove
    rw [(weights_afterLoop timed (by decide)).2.2.1] at poisedMove
    simp only [waits, poised] at *
    omega
  case giveUp depth timed unrecoverable =>
    rcases afterLoop_lost Thread kind timed with ⟨behind, reached⟩ | ⟨inside, reached⟩
    · rw [reached] at waitsMove poisedMove ⊢
      simp only [waits, poised] at *
      omega
    · have kept := careful.kept here (Or.inr ⟨unrecoverable, inside⟩)
      rw [reached] at waitsMove poisedMove ⊢
      simp only [waits, poised] at *
      omega
  case acquire depth timed idle => exact fun _ => Or.inl rfl
  case mark depth timed held => exact fun _ => Or.inl rfl
  case tryAcquire depth idle =>
    rw [(weights_acquired .ok).1] at waitsMove
    rw [(weights_acquired .ok).2.2.1] at poisedMove
    simp only [waits, poised] at *
    omega
  case spoil depth =>
    rw [weights_spoil.1] at waitsMove
    rw [weights_spoil.2.2.1] at poisedMove
    simp only [waits, poised] at *
    omega
  case recheckFails depth result unrecoverable =>
    simp only [waits, poised] at *
    omega
  case recheck depth result recoverable acquired =>
    have known : result ≠ .ENOTRECOVERABLE := by rcases acquired with rfl | rfl <;> decide
    rw [poised_rechecking known] at poisedMove
    simp only [waits, poised] at *
    omega
  case recheckOther depth result recoverable other =>
    have known : result ≠ .ENOTRECOVERABLE := fun same =>
      recoverable (watched.refused thread (by rw [here, same]))
    rw [poised_rechecking known] at poisedMove
    simp only [waits, poised] at *
    omega
  case call depth request =>
    cases request <;>
    · simp only [waits, poised, Request.start] at *
      omega
  all_goals
    simp only [waits, poised, Bool.toNat_true, Bool.toNat_false] at *
    omega

omit [Fintype Thread] [DecidableEq Thread] in
theorem lost_eq_zero {state : RobustState} (recoverable : state ≠ .notRecoverable) :
    lost state = 0 := by
  cases state <;> first | rfl | exact absurd rfl recoverable

/-- When the mutex is lost and nobody owns its lock word, the event is set again and again. -/
theorem Watched.reset_step (watched : Watched kind memory places)
    (guarded : Guarded kind memory places) (here : places thread = left)
    (moves : Moves kind thread memory left next place) :
    next.lock_idx ≠ 0 → lost next.stateInconsistent ≤
      total owns (Function.update places thread place) + next.event.toNat +
        total (resets kind) (Function.update places thread place) := by
  have ownsMove := total_update owns places thread place
  have ownsAfter := le_total owns (Function.update places thread place) thread
  have resetsMove := total_update (resets kind) places thread place
  have resetsAfter := le_total (resets kind) (Function.update places thread place) thread
  have reset := watched.reset
  have once := lost_le_one next.stateInconsistent
  have suits := here ▸ (guarded.fits thread).suits
  rw [here] at ownsMove resetsMove
  rw [Function.update_self] at ownsAfter resetsAfter
  cases moves
  case takeOver depth timed terminated =>
    simp only [lost]
    omega
  case tryTakeOver depth terminated =>
    simp only [lost]
    omega
  case repair depth inconsistent =>
    simp only [lost]
    omega
  case orphan depth =>
    simp only [lost]
    omega
  case giveUp depth timed unrecoverable =>
    rcases afterLoop_lost Thread kind timed with ⟨behind, reached⟩ | ⟨inside, reached⟩
    · rw [reached] at resetsAfter ⊢
      simp only [resets] at resetsAfter
      omega
    · rw [reached] at ownsMove resetsMove ⊢
      have none : resets kind (⟨depth, .inheriting timed⟩ : Place Thread) = 0 := by
        cases timed with
        | false => rfl
        | true => exact if_pos (inside rfl)
      rw [none] at resetsMove
      simp only [owns, resets] at *
      omega
  case persist depth timed alive recoverable =>
    rw [lost_eq_zero recoverable]
    omega
  case retest depth timed recoverable =>
    rw [lost_eq_zero recoverable]
    omega
  case recheck depth result recoverable acquired =>
    rw [lost_eq_zero recoverable]
    omega
  case recheckOther depth result recoverable other =>
    rw [lost_eq_zero recoverable]
    omega
  case acquire depth timed idle =>
    rw [owns_afterLoop timed (by decide)] at ownsAfter
    omega
  case tryAcquire depth idle =>
    rw [owns_acquired] at ownsAfter
    omega
  case wakeTimed depth set differs =>
    simp only [resets, if_neg differs] at resetsAfter
    omega
  case spoil depth =>
    have kept : owns (⟨depth, if kind = .recursive then .decrementing else .removing false⟩ :
        Place Thread) = 1 := by
      split
      · exact holds_of_ne suits
      · rfl
    omega
  case count depth =>
    simp only [owns, holds_succ] at *
    omega
  case inner depth more =>
    have held := guarded.depth_sub_ne here more
    simp only [owns, holds_of_ne held] at *
    omega
  case call depth request =>
    cases request <;>
    · simp only [owns, resets, Request.start] at *
      omega
  all_goals
    simp only [owns, resets, holds_succ, Bool.toNat_true, Bool.toNat_false] at *
    omega

omit [DecidableEq Thread] in
/-- A careful thread that does not own a lost mutex does not come to own it. -/
theorem Careful.firm_step (careful : Careful kind memory places thread)
    (guarded : Guarded kind memory places) (here : places thread = left)
    (moves : Moves kind thread memory left next place)
    (unrecoverable : memory.stateInconsistent = .notRecoverable) (hold : firm left = false) :
    firm place = false := by
  have suits := here ▸ (guarded.fits thread).suits
  have grabs (idle : memory.lock_idx = 0) : ¬ Grabs kind left.point := fun grabs =>
    careful.recoverable idle (here ▸ grabs) unrecoverable
  cases moves
  case call depth request => cases request <;> exact hold
  case take depth held => exact absurd held (of_decide_eq_false hold)
  case unlisted depth idle => exact absurd trivial (grabs idle)
  case exchange depth idle => exact absurd trivial (grabs idle)
  case compare depth timed idle => exact absurd trivial (grabs idle)
  case tryAcquire depth idle => exact absurd trivial (grabs idle)
  case count depth => exact absurd suits.2 (of_decide_eq_false hold)
  case takeOver depth timed terminated => exact nomatch terminated.symm.trans unrecoverable
  case tryTakeOver depth terminated => exact nomatch terminated.symm.trans unrecoverable
  case giveUp depth timed _ =>
    rcases afterLoop_lost Thread kind timed with ⟨_, reached⟩ | ⟨_, reached⟩ <;>
    · rw [reached]
      exact hold
  case acquire depth timed idle =>
    obtain rfl : depth = 0 := guarded.depth_eq_zero idle here
    by_cases behind : timed = true ∧ kind ≠ .normal
    · rw [afterLoop, if_pos behind]
      rfl
    · exact absurd (fun is_timed => by_contra fun differs => behind ⟨is_timed, differs⟩) (grabs idle)
  case recheck depth result recoverable _ => exact absurd unrecoverable recoverable
  case assignCount => exact nomatch hold
  case assignOwner => exact nomatch hold
  case addPrev => exact nomatch hold
  case addNext => exact nomatch hold
  case addBack => exact nomatch hold
  case addHead => exact nomatch hold
  case spoil depth => exact absurd (show depth ≠ 0 from suits) (of_decide_eq_false hold)
  case last => rfl
  case inner depth more =>
    have held := guarded.depth_sub_ne here more
    have single : ¬ 1 < depth := of_decide_eq_false hold
    omega
  case disown depth list owned =>
    obtain rfl : depth = 1 := suits
    rfl
  case bequeath depth list owned => exact absurd (show depth ≠ 0 from suits) (of_decide_eq_false hold)
  case unlinkNext depth exiting list =>
    cases exiting with
    | false => exact hold
    | true => exact nomatch hold
  case unlinkPrev depth exiting list =>
    cases exiting with
    | false => exact hold
    | true => exact nomatch hold
  case unlinkLast => exact nomatch hold
  case orphan => exact nomatch hold
  all_goals exact hold

omit [DecidableEq Thread] in
/-- The last unlock of a careful thread leaves the mutex unheld. -/
theorem Careful.firm_spoil (careful : Careful kind memory places thread)
    (guarded : Guarded kind memory places) (here : places thread = ⟨depth, .spoiling⟩)
    (inconsistent : memory.stateInconsistent = .inconsistent) :
    firm (⟨depth, if kind = .recursive then .decrementing else .removing false⟩ :
      Place Thread) = false := by
  have suits : Suits kind ⟨depth, .spoiling⟩ := here ▸ (guarded.fits thread).suits
  split
  · rename_i recursive
    have last := careful.last (by rw [here]) inconsistent recursive
    have count := guarded.records.count recursive thread depth
    rw [here] at count
    have same := count (if_neg suits)
    exact decide_eq_false (by omega)
  · rfl

/-- No thread comes to own a mutex that is not recoverable. -/
theorem Watched.unheld_step (watched : Watched kind memory places)
    (guarded : Guarded kind memory places) (careful : Careful kind memory places thread)
    (here : places thread = left) (moves : Moves kind thread memory left next place)
    (unrecoverable : next.stateInconsistent = .notRecoverable) (other : Thread) :
    firm (Function.update places thread place other) = false := by
  by_cases before : memory.stateInconsistent = .notRecoverable
  · have hold := watched.unheld before
    by_cases self : other = thread
    · rw [self, Function.update_self]
      exact careful.firm_step guarded here moves before (here ▸ hold thread)
    · rw [Function.update_of_ne self]
      exact hold other
  · cases moves
    case spoil depth =>
      have suits : Suits kind ⟨depth, .spoiling⟩ := here ▸ (guarded.fits thread).suits
      have inconsistent : memory.stateInconsistent = .inconsistent := by
        by_contra differs
        exact before ((if_neg differs).symm.trans unrecoverable)
      by_cases self : other = thread
      · rw [self, Function.update_self]
        exact careful.firm_spoil guarded here inconsistent
      · rw [Function.update_of_ne self]
        by_contra holds
        have own := owns_of_firm (by simpa using holds)
        have mine : 0 < owns (places thread) := here ▸ owns_of_depth suits
        exact self (eq_of_total_le_one guarded.owned own mine)
    all_goals first | exact absurd unrecoverable before | exact nomatch unrecoverable

/-- A thread that has given up rechecks a mutex that stays not recoverable. -/
theorem Watched.refused_step (watched : Watched kind memory places)
    (here : places thread = left) (moves : Moves kind thread memory left next place)
    (other : Thread)
    (given : (Function.update places thread place other).point = .rechecking .ENOTRECOVERABLE) :
    next.stateInconsistent = .notRecoverable := by
  have unheld (unrecoverable : memory.stateInconsistent = .notRecoverable) : firm left = false :=
    here ▸ watched.unheld unrecoverable thread
  by_cases self : other = thread
  · rw [self, Function.update_self] at given
    cases moves
    case call depth request => cases request <;> exact nomatch given
    case takeOver => exact nomatch result_of_afterLoop given
    case giveUp depth timed unrecoverable => exact unrecoverable
    case acquire => exact nomatch result_of_afterLoop given
    case tryAcquire =>
      unfold acquired at given
      split at given <;> exact nomatch given
    case spoil => split at given <;> exact nomatch given
    all_goals exact nomatch given
  · rw [Function.update_of_ne self] at given
    have unrecoverable := watched.refused other given
    cases moves
    case takeOver depth timed terminated => exact nomatch terminated.symm.trans unrecoverable
    case tryTakeOver depth terminated => exact nomatch terminated.symm.trans unrecoverable
    case repair depth inconsistent => exact nomatch inconsistent.symm.trans unrecoverable
    case orphan => exact nomatch unheld unrecoverable
    case spoil => simp [unrecoverable]
    all_goals exact unrecoverable

/-- Every careful step keeps the invariant. -/
theorem Watched.step (watched : Watched kind memory places) (guarded : Guarded kind memory places)
    (careful : Careful kind memory places thread)
    (moves : Moves kind thread memory (places thread) next place) :
    Watched kind next (Function.update places thread place) where
  unheld := watched.unheld_step guarded careful rfl moves
  refused := watched.refused_step rfl moves
  locked := watched.locked_step guarded rfl moves
  awake := watched.awake_step rfl moves
  wakeful := watched.wakeful_step careful rfl moves
  reset := watched.reset_step guarded rfl moves

omit [DecidableEq Thread] in
theorem watched_initial : Watched kind (free Thread) fun _ => ⟨0, .idle⟩ where
  unheld := nofun
  refused := nofun
  locked held := absurd rfl held
  awake := Nat.zero_le _
  wakeful waiting := by
    have nobody : total waits (fun _ : Thread => (⟨0, .idle⟩ : Place Thread)) = 0 :=
      total_entry rfl
    exact absurd nobody waiting.ne'
  reset held := absurd rfl held

omit [DecidableEq Thread] in
/-- A thread that waits while nobody is in a step waits for an owner. -/
theorem Watched.owner (watched : Watched kind memory places) (idle : memory.event = false)
    (quiet : ∀ thread, alert (places thread) = 0 ∧ poised (places thread) = 0 ∧
      resets kind (places thread) = 0)
    (waiting : 0 < waits (places thread)) : ∃ owner, 0 < owns (places owner) := by
  have noAlert : total alert places = 0 := total_eq_zero.mpr fun other => (quiet other).1
  have noPoised : total poised places = 0 := total_eq_zero.mpr fun other => (quiet other).2.1
  have noReset : total (resets kind) places = 0 := total_eq_zero.mpr fun other => (quiet other).2.2
  have self := le_total waits places thread
  have awake := watched.awake
  have wakeful := watched.wakeful (by omega)
  have locked := watched.locked
  have reset := watched.reset
  rw [idle, Bool.toNat_false] at awake wakeful reset
  exact exists_of_total_pos (by omega)

end Steps

end RobustMutex

end CodeCollect.Pthreads
