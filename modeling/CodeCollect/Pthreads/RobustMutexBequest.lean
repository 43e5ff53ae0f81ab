import CodeCollect.Pthreads.RobustMutexOwner

namespace CodeCollect.Pthreads

open CodeCollect.Library Program

namespace RobustMutex

variable {Thread : Type}

/-- A thread that has taken the mutex over is on the way to `EOWNERDEAD`. -/
def heir : Point Thread → Bool
  | .rechecking .EOWNERDEAD | .assigningCount .EOWNERDEAD | .adding .EOWNERDEAD _ => true
  | _ => false

/-- A thread that exits has left the mutex. -/
def departed : Place Thread → Bool
  | ⟨_, .mourning⟩ => true
  | ⟨depth, .leaving⟩ | ⟨depth, .gone⟩ => depth = 0
  | _ => false

/-- A mutex that a terminated thread has left is passed on. -/
structure Bequeathed (memory : Memory Thread) (places : Thread → Place Thread) : Prop where
  kept : ∀ thread, (places thread).point = .rechecking .EOWNERDEAD →
    memory.stateInconsistent ≠ .notRecoverable
  left : ∀ thread, memory.ownerThread = some thread → departed (places thread) = true →
    memory.stateInconsistent = .terminated ∨ ∃ other, heir (places other).point = true

theorem heir_afterLoop (kind : MutexKind) (timed : Bool) :
    heir (afterLoop kind timed .EOWNERDEAD : Point Thread) = true := by
  unfold afterLoop acquired
  split
  · rfl
  · rw [if_neg (by decide)]
    split <;> rfl

theorem departed_acquired (kind : MutexKind) (depth : Nat) (result : Result) :
    departed (⟨depth, acquired kind result⟩ : Place Thread) = false := by
  unfold acquired
  split <;> rfl

theorem departed_afterLoop (kind : MutexKind) (depth : Nat) (timed : Bool) (result : Result) :
    departed (⟨depth, afterLoop kind timed result⟩ : Place Thread) = false := by
  unfold afterLoop
  split
  · rfl
  · split
    · rfl
    · exact departed_acquired kind depth result

theorem recorded_of_head {place : Place Thread} {result : Result}
    (here : place.point = .adding result .head) : recorded place = true := by
  obtain ⟨depth, point⟩ := place
  obtain rfl : point = .adding result .head := here
  rfl

theorem departed_of_returning {place : Place Thread} {result : Result}
    (here : place.point = .returning result) : departed place = false := by
  obtain ⟨depth, point⟩ := place
  obtain rfl : point = .returning result := here
  rfl

theorem owns_of_heir {place : Place Thread} (inherits : heir place.point = true) :
    owns place = 1 := by
  obtain ⟨depth, point⟩ := place
  unfold heir at inherits
  split at inherits
  case h_4 => exact nomatch inherits
  all_goals
    rename_i same
    dsimp only at same
    subst same
    rfl

variable {kind : MutexKind} {memory next : Memory Thread}
  {places : Thread → Place Thread} {thread other : Thread} {place left : Place Thread}

/-- Only an unlock makes a mutex not recoverable. -/
theorem spoiling_of_moves (moves : Moves kind thread memory left next place)
    (lost : next.stateInconsistent = .notRecoverable) :
    memory.stateInconsistent = .notRecoverable ∨ left.point = .spoiling := by
  cases moves
  case spoil => exact Or.inr rfl
  all_goals first | exact Or.inl lost | exact nomatch lost

/-- Only the owner records another owner. -/
theorem owner_of_moves (moves : Moves kind thread memory left next place) (differs : other ≠ thread)
    (owned : next.ownerThread = some other) : memory.ownerThread = some other := by
  cases moves
  case assignOwner => exact absurd (Option.some.inj owned).symm differs
  case bequeath => exact absurd (Option.some.inj owned).symm differs
  case disown => exact nomatch owned
  all_goals exact owned

/-- Who finds the owner terminated takes the mutex over. -/
theorem orphan_of_moves (moves : Moves kind thread memory left next place)
    (terminated : memory.stateInconsistent = .terminated) :
    next.stateInconsistent = .terminated ∨ heir place.point = true := by
  cases moves
  case takeOver depth timed _ => exact Or.inr (heir_afterLoop kind timed)
  case tryTakeOver => exact Or.inr rfl
  case spoil => exact Or.inl (by rw [terminated]; rfl)
  case repair inconsistent => exact absurd (terminated.symm.trans inconsistent) (by decide)
  case orphan => exact Or.inl rfl
  all_goals exact Or.inl terminated

/-- An heir goes on until its call returns `EOWNERDEAD`. -/
theorem heir_of_moves (moves : Moves kind thread memory left next place)
    (inherits : heir left.point = true)
    (kept : left.point = .rechecking .EOWNERDEAD → memory.stateInconsistent ≠ .notRecoverable) :
    heir place.point = true ∨
      left.point = .adding .EOWNERDEAD .head ∧ place.point = .returning .EOWNERDEAD := by
  cases moves
  case recheckFails depth result lost =>
    cases result <;> first | exact absurd lost (kept rfl) | cases inherits
  case recheck depth result recoverable acquired =>
    cases result <;> first | exact Or.inl rfl | cases inherits
  case recheckOther depth result recoverable other =>
    cases result <;> first | exact absurd (by decide) other | cases inherits
  case assignCount depth result =>
    cases result <;> first | exact Or.inl rfl | cases inherits
  case assignOwner depth result =>
    cases result <;> first | exact Or.inl rfl | cases inherits
  case addPrev depth result =>
    cases result <;> first | exact Or.inl rfl | cases inherits
  case addNext depth result =>
    cases result <;> first | exact Or.inl rfl | cases inherits
  case addBack depth result =>
    cases result <;> first | exact Or.inl rfl | cases inherits
  case addHead depth result =>
    cases result <;> first | exact Or.inr ⟨rfl, rfl⟩ | cases inherits
  all_goals exact nomatch inherits

/-- A thread that departs with its name on the mutex has left before, or it leaves it now. -/
theorem departed_of_moves (moves : Moves kind thread memory left next place)
    (traced : memory.ownerThread = some thread → traced left = true)
    (owned : next.ownerThread = some thread) (departs : departed place = true) :
    memory.ownerThread = some thread ∧ departed left = true ∨
      next.stateInconsistent = .terminated := by
  cases moves
  case call depth request => cases request <;> exact nomatch departs
  case exit depth =>
    have held : depth ≠ 0 := of_decide_eq_true (traced owned)
    exact absurd (of_decide_eq_true departs) held
  case vanish depth nothing =>
    subst nothing
    exact Or.inl ⟨owned, rfl⟩
  case takeOver depth timed _ => exact absurd departs (by rw [departed_afterLoop]; decide)
  case giveUp depth timed _ => exact absurd departs (by rw [departed_afterLoop]; decide)
  case acquire depth timed _ => exact absurd departs (by rw [departed_afterLoop]; decide)
  case tryAcquire depth _ => exact absurd departs (by rw [departed_acquired]; decide)
  case spoil depth =>
    split at departs <;> exact nomatch departs
  case orphan => exact Or.inr rfl
  case mourn => exact Or.inl ⟨owned, rfl⟩
  all_goals exact nomatch departs

/-- A thread that has just taken the mutex over finds it inconsistent. -/
theorem inconsistent_of_moves (moves : Moves kind thread memory left next place)
    (here : place.point = .rechecking .EOWNERDEAD) :
    next.stateInconsistent ≠ .notRecoverable := by
  cases moves
  case call depth request => cases request <;> exact nomatch here
  case takeOver => exact nofun
  case giveUp => exact nomatch result_of_afterLoop here
  case acquire => exact nomatch result_of_afterLoop here
  case tryAcquire =>
    unfold acquired at here
    split at here <;> exact nomatch here
  case spoil => split at here <;> exact nomatch here
  all_goals exact nomatch here

variable [Fintype Thread] [DecidableEq Thread]

omit [DecidableEq Thread] in
/-- While one thread takes the mutex over, no other thread unlocks it. -/
theorem Guarded.not_spoiling (guarded : Guarded kind memory places) (differs : other ≠ thread)
    (inherits : heir (places other).point = true) : (places thread).point ≠ .spoiling := by
  intro spoils
  have suits := (guarded.fits thread).suits
  have own := owns_of_heir inherits
  have second : 0 < owns (places thread) := by
    generalize places thread = place at spoils suits
    obtain ⟨depth, point⟩ := place
    obtain rfl : point = .spoiling := spoils
    exact owns_of_depth suits
  exact differs (eq_of_total_le_one guarded.owned (by omega) second)

/-- Every step keeps what terminated threads have left. -/
theorem Bequeathed.step (bequeathed : Bequeathed memory places)
    (guarded : Guarded kind memory places)
    (moves : Moves kind thread memory (places thread) next place) :
    Bequeathed next (Function.update places thread place) where
  kept := by
    intro other here lost
    by_cases self : other = thread
    · rw [self, Function.update_self] at here
      exact inconsistent_of_moves moves here lost
    · rw [Function.update_of_ne self] at here
      rcases spoiling_of_moves moves lost with before | spoils
      · exact bequeathed.kept other here before
      · exact guarded.not_spoiling self (by rw [here]; rfl) spoils
  left := by
    intro other owned departs
    have before : memory.ownerThread = some other ∧ departed (places other) = true ∨
        next.stateInconsistent = .terminated := by
      by_cases self : other = thread
      · subst self
        rw [Function.update_self] at departs
        exact departed_of_moves moves (guarded.records.traced other) owned departs
      · rw [Function.update_of_ne self] at departs
        exact Or.inl ⟨owner_of_moves moves self owned, departs⟩
    rcases before with ⟨named, gone⟩ | terminated
    · rcases bequeathed.left other named gone with terminated | ⟨taker, inherits⟩
      · rcases orphan_of_moves moves terminated with still | inherits
        · exact Or.inl still
        · exact Or.inr ⟨thread, by rwa [Function.update_self]⟩
      · by_cases self : taker = thread
        · subst self
          rcases heir_of_moves moves inherits (bequeathed.kept taker) with onward | ⟨last, done⟩
          · exact Or.inr ⟨taker, by rwa [Function.update_self]⟩
          · have known : recorded (places taker) = true := recorded_of_head last
            obtain rfl := Option.some.inj ((guarded.records.owner taker known).symm.trans named)
            rw [Function.update_self] at departs
            exact absurd departs (by rw [departed_of_returning done]; decide)
        · exact Or.inr ⟨taker, by rwa [Function.update_of_ne self]⟩
    · exact Or.inl terminated

end RobustMutex

end CodeCollect.Pthreads
