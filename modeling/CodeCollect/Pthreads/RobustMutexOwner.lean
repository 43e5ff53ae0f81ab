import CodeCollect.Pthreads.MutexSafety
import CodeCollect.Pthreads.RobustMutexSteps

namespace CodeCollect.Pthreads

open CodeCollect.Library Program

namespace RobustMutex

open Mutex (holds holds_zero holds_succ holds_of_ne eq_zero_of_holds)

variable {Thread : Type}

/-- A thread owns the mutex from its successful acquire to the step that releases it. -/
def owns : Place Thread → Nat
  | ⟨_, .rechecking .ok⟩ | ⟨_, .rechecking .EOWNERDEAD⟩ | ⟨_, .assigningCount _⟩
  | ⟨_, .adding _ _⟩ | ⟨_, .removing _⟩ | ⟨_, .unlinking _ _ _⟩ | ⟨_, .releasing⟩
  | ⟨_, .orphaning⟩ => 1
  | ⟨depth, _⟩ => holds depth

/-- A mutex whose owner has terminated waits for the thread that takes it over. -/
def orphaned : RobustState → Nat
  | .terminated => 1
  | _ => 0

/-- In these places the mutex records its owner. -/
def recorded : Place Thread → Bool
  | ⟨_, .adding _ .owner⟩ => false
  | ⟨_, .adding _ _⟩ => true
  | ⟨depth, _⟩ => depth ≠ 0

/-- A thread that exits makes no more calls, and a mutex may keep its name. -/
def mortal : Point Thread → Bool
  | .leaving | .gone | .removing true | .unlinking true _ _ | .orphaning | .mourning => true
  | _ => false

/-- In these places the thread may be named as the owner. -/
def traced (place : Place Thread) : Bool := mortal place.point || recorded place

/-- In these places the mutex records how often it was acquired. -/
def countOf : Place Thread → Option Nat
  | ⟨_, .adding _ _⟩ => some 1
  | ⟨_, .removing _⟩ => none
  | ⟨depth, _⟩ => if depth = 0 then none else some depth

/-- These points are only reached with some depths and for some kinds. -/
def Suits (kind : MutexKind) : Place Thread → Prop
  | ⟨depth, .gone⟩ | ⟨depth, .assigningCount _⟩ | ⟨depth, .adding _ _⟩
  | ⟨depth, .unlinking _ _ _⟩ | ⟨depth, .releasing⟩ | ⟨depth, .signalling⟩
  | ⟨depth, .orphaning⟩ | ⟨depth, .mourning⟩ => depth = 0
  | ⟨depth, .rechecking result⟩ => result = .ok ∨ result = .EOWNERDEAD → depth = 0
  | ⟨depth, .counting⟩ | ⟨depth, .decrementing⟩ => kind = .recursive ∧ depth ≠ 0
  | ⟨depth, .spoiling⟩ | ⟨depth, .removing true⟩ => depth ≠ 0
  | ⟨depth, .removing false⟩ => depth = 1
  | ⟨_, .exchanging _⟩ => kind = .normal
  | ⟨_, .comparing _⟩ | ⟨_, .ownerTest _⟩ => kind ≠ .normal
  | ⟨_, .tryOwnerTest⟩ => kind = .recursive
  | _ => True

/-- Only a recursive mutex is acquired again by its owner. -/
structure Fits (kind : MutexKind) (place : Place Thread) : Prop where
  suits : Suits kind place
  once : kind ≠ .recursive → place.depth ≤ 1

/-- The mutex has been acquired as often as it records for this place. -/
def Counts (memory : Memory Thread) (place : Place Thread) : Prop :=
  ∀ depth, countOf place = some depth → memory.recursive_count = depth

/-- The owner is recorded, and so is the count of a recursive mutex. -/
structure Recorded (kind : MutexKind) (memory : Memory Thread) (places : Thread → Place Thread) :
    Prop where
  owner : ∀ thread, recorded (places thread) = true → memory.ownerThread = some thread
  traced : ∀ thread, memory.ownerThread = some thread → traced (places thread) = true
  count : kind = .recursive → ∀ thread, Counts memory (places thread)

/-- This is what every step keeps. -/
structure Guarded [Fintype Thread] (kind : MutexKind) (memory : Memory Thread)
    (places : Thread → Place Thread) : Prop where
  single : total owns places + orphaned memory.stateInconsistent ≤ 1
  free : memory.lock_idx = 0 → total owns places + orphaned memory.stateInconsistent = 0
  fits : ∀ thread, Fits kind (places thread)
  records : Recorded kind memory places

section Places

variable {kind : MutexKind} {depth : Nat}

theorem holds_le_owns (place : Place Thread) : holds place.depth ≤ owns place := by
  obtain ⟨depth, point⟩ := place
  have single : holds depth ≤ 1 := by unfold holds; split <;> omega
  cases point
  case rechecking result => cases result <;> first | exact single | exact Nat.le_refl _
  all_goals first | exact single | exact Nat.le_refl _

theorem owns_of_depth {place : Place Thread} (held : place.depth ≠ 0) : 0 < owns place := by
  have owned := holds_le_owns place
  rwa [holds_of_ne held] at owned

theorem owns_of_recorded {place : Place Thread} (known : recorded place = true) :
    0 < owns place := by
  obtain ⟨depth, point⟩ := place
  by_cases held : depth = 0
  · subst held
    cases point <;> first | exact Nat.one_pos | simp [recorded] at known
  · exact owns_of_depth held

theorem owns_of_countOf {place : Place Thread} {depth : Nat} (known : countOf place = some depth) :
    0 < owns place := by
  obtain ⟨held, point⟩ := place
  by_cases none : held = 0
  · subst none
    cases point <;> first | exact Nat.one_pos | simp [countOf] at known
  · exact owns_of_depth none

theorem owns_acquired (result : Result) :
    owns (⟨depth, acquired kind result⟩ : Place Thread) = 1 := by
  unfold acquired
  split <;> rfl

/-- Behind the loop a thread owns the mutex when the loop has acquired it. -/
theorem owns_afterLoop (timed : Bool) {result : Result}
    (taken : result = .ok ∨ result = .EOWNERDEAD) :
    owns (⟨depth, afterLoop kind timed result⟩ : Place Thread) = 1 := by
  unfold afterLoop
  split
  · rcases taken with rfl | rfl <;> rfl
  · rw [if_neg (by rcases taken with rfl | rfl <;> decide)]
    exact owns_acquired result

theorem owns_afterLoop_lost (timed : Bool) :
    owns (⟨depth, afterLoop kind timed .ENOTRECOVERABLE⟩ : Place Thread) = holds depth := by
  unfold afterLoop
  split <;> rfl

theorem owns_rechecking {result : Result} (taken : result = .ok ∨ result = .EOWNERDEAD) :
    owns (⟨depth, .rechecking result⟩ : Place Thread) = 1 := by
  rcases taken with rfl | rfl <;> rfl

theorem owns_rechecking_other {result : Result} (other : ¬ (result = .ok ∨ result = .EOWNERDEAD)) :
    owns (⟨depth, .rechecking result⟩ : Place Thread) = holds depth := by
  cases result <;> first | rfl | exact absurd (by simp) other

theorem orphaned_spoil (state : RobustState) :
    orphaned (if state = .inconsistent then .notRecoverable else state) = orphaned state := by
  cases state <;> rfl

theorem fits_acquired (kind : MutexKind) (result : Result) :
    Fits kind (⟨0, acquired kind result⟩ : Place Thread) := by
  unfold acquired
  split <;> exact ⟨rfl, fun _ => zero_le_one⟩

/-- Behind the loop a thread that has acquired the mutex has depth 0. -/
theorem fits_afterLoop (timed : Bool) (result : Result) :
    Fits kind (⟨0, afterLoop kind timed result⟩ : Place Thread) := by
  unfold afterLoop
  split
  · exact ⟨fun _ => rfl, fun _ => zero_le_one⟩
  · split
    · exact ⟨trivial, fun _ => zero_le_one⟩
    · exact fits_acquired kind result

theorem fits_afterLoop_lost (timed : Bool) (once : kind ≠ .recursive → depth ≤ 1) :
    Fits kind (⟨depth, afterLoop kind timed .ENOTRECOVERABLE⟩ : Place Thread) := by
  unfold afterLoop
  split
  · exact ⟨fun taken => absurd taken (by decide), once⟩
  · exact ⟨trivial, once⟩

theorem depth_of_recorded_afterLoop (timed : Bool) {result : Result}
    (known : recorded (⟨depth, afterLoop kind timed result⟩ : Place Thread) = true) :
    depth ≠ 0 := by
  unfold afterLoop acquired at known
  split at known
  · exact of_decide_eq_true known
  · split at known
    · exact of_decide_eq_true known
    · split at known
      · exact absurd known (by simp [recorded])
      · exact of_decide_eq_true known

theorem result_of_afterLoop {timed : Bool} {result other : Result}
    (same : (afterLoop kind timed result : Point Thread) = .rechecking other) : result = other := by
  unfold afterLoop acquired at same
  split at same
  · exact Point.rechecking.inj same
  · split at same
    · exact nomatch same
    · split at same <;> exact nomatch same

theorem countOf_acquired (recursive : kind = .recursive) (result : Result) :
    countOf (⟨0, acquired kind result⟩ : Place Thread) = none := by
  subst recursive
  rfl

/-- Behind the loop nothing is counted yet. -/
theorem countOf_afterLoop (recursive : kind = .recursive) (timed : Bool) (result : Result) :
    countOf (⟨0, afterLoop kind timed result⟩ : Place Thread) = none := by
  unfold afterLoop
  split
  · rfl
  · split
    · rfl
    · exact countOf_acquired recursive result

end Places

variable {kind : MutexKind} {memory next : Memory Thread} {places : Thread → Place Thread}
  {thread : Thread} {place left : Place Thread} {depth : Nat}

section Steps

variable [Fintype Thread]

theorem Guarded.owned (guarded : Guarded kind memory places) : total owns places ≤ 1 := by
  have single := guarded.single
  omega

/-- A thread that finds the lock word 0 does not hold the mutex. -/
theorem Guarded.nothing (guarded : Guarded kind memory places) (idle : memory.lock_idx = 0)
    (thread : Thread) : owns (places thread) = 0 := by
  have free := guarded.free idle
  exact total_eq_zero.mp (by omega) thread

/-- The depth of a thread is positive when the mutex names it as the owner. -/
theorem Guarded.depth_ne (guarded : Guarded kind memory places)
    (owned : memory.ownerThread = some thread)
    (known : traced (places thread) = decide (depth ≠ 0)) : depth ≠ 0 := by
  have traced := guarded.records.traced thread owned
  rwa [known, decide_eq_true_iff] at traced

/-- The mutex names a thread that holds it. -/
theorem Guarded.owner_of_depth (guarded : Guarded kind memory places)
    (held : (places thread).depth ≠ 0) : memory.ownerThread = some thread := by
  apply guarded.records.owner thread
  have suits := (guarded.fits thread).suits
  generalize places thread = place at held suits
  obtain ⟨depth, point⟩ := place
  cases point
  case adding result stage =>
    cases stage <;> first | rfl | exact absurd suits held
  all_goals exact decide_eq_true held

variable [DecidableEq Thread]

omit [DecidableEq Thread] in
/-- The inner unlock of a recursive mutex leaves it acquired. -/
theorem Guarded.depth_sub_ne (guarded : Guarded kind memory places)
    (here : places thread = ⟨depth, .decrementing⟩) (more : memory.recursive_count - 1 ≠ 0) :
    depth - 1 ≠ 0 := by
  have suits : Suits kind ⟨depth, .decrementing⟩ := here ▸ (guarded.fits thread).suits
  obtain ⟨recursive, held⟩ := suits
  have count := guarded.records.count recursive thread depth
  rw [here] at count
  have same := count (if_neg held)
  omega

/-- The mutex keeps at most one owner, and none when the lock word is 0. -/
theorem Guarded.exclusive_step (guarded : Guarded kind memory places)
    (here : places thread = left) (moves : Moves kind thread memory left next place) :
    total owns (Function.update places thread place) + orphaned next.stateInconsistent ≤ 1 ∧
      (next.lock_idx = 0 → total owns (Function.update places thread place) +
        orphaned next.stateInconsistent = 0) := by
  have changes := total_update owns places thread place
  have owner := le_total owns places thread
  have single := guarded.single
  have free := guarded.free
  have suits := here ▸ (guarded.fits thread).suits
  rw [here] at changes owner
  cases moves
  case take depth held =>
    simp only [owns, holds_of_ne held] at *
    omega
  case takeOver depth timed terminated =>
    rw [owns_afterLoop timed (by decide)] at changes
    rw [terminated] at single free
    simp only [owns, orphaned] at *
    omega
  case tryTakeOver depth terminated =>
    rw [terminated] at single free
    simp only [owns, orphaned] at *
    omega
  case giveUp depth timed lost =>
    rw [owns_afterLoop_lost] at changes
    simp only [owns] at *
    omega
  case acquire depth timed idle =>
    rw [owns_afterLoop timed (by decide)] at changes
    simp only [owns] at *
    omega
  case tryAcquire depth idle =>
    rw [owns_acquired] at changes
    simp only [owns] at *
    omega
  case count depth =>
    have held := suits.2
    simp only [owns, holds_of_ne held, holds_succ] at *
    omega
  case recheckFails depth result lost =>
    have kept := holds_le_owns (⟨depth, .rechecking result⟩ : Place Thread)
    simp only [owns] at *
    omega
  case recheck depth result recoverable acquired =>
    rw [owns_rechecking acquired] at changes
    simp only [owns] at *
    omega
  case recheckOther depth result recoverable other =>
    rw [owns_rechecking_other other] at changes
    simp only [owns] at *
    omega
  case spoil depth =>
    have held : depth ≠ 0 := suits
    have kept : owns (⟨depth, if kind = .recursive then .decrementing else .removing false⟩ :
        Place Thread) = 1 := by
      split
      · exact holds_of_ne held
      · rfl
    rw [kept] at changes
    simp only [owns, holds_of_ne held, orphaned_spoil] at *
    omega
  case last depth final =>
    simp only [owns, holds_of_ne suits.2] at *
    omega
  case inner depth more =>
    have held := guarded.depth_sub_ne here more
    simp only [owns, holds_of_ne held, holds_of_ne suits.2] at *
    omega
  case releaseMarked depth marked =>
    obtain rfl : depth = 0 := suits
    simp only [owns, holds_zero] at *
    omega
  case release depth unmarked =>
    obtain rfl : depth = 0 := suits
    simp only [owns, holds_zero] at *
    omega
  case orphan depth =>
    obtain rfl : depth = 0 := suits
    simp only [owns, orphaned, holds_zero] at *
    omega
  case call depth request =>
    cases request <;>
    · simp only [owns, Request.start] at *
      omega
  all_goals
    simp only [owns, orphaned, holds_succ] at *
    omega

omit [DecidableEq Thread] in
/-- A thread that finds the lock word 0 has depth 0. -/
theorem Guarded.depth_eq_zero (guarded : Guarded kind memory places)
    (idle : memory.lock_idx = 0) (here : places thread = left) : left.depth = 0 := by
  have nothing := guarded.nothing idle thread
  have kept := holds_le_owns (places thread)
  rw [nothing, here] at kept
  exact eq_zero_of_holds (Nat.le_zero.mp kept)

omit [DecidableEq Thread] in
/-- A thread that finds the owner terminated has depth 0. -/
theorem Guarded.depth_of_terminated (guarded : Guarded kind memory places)
    (terminated : memory.stateInconsistent = .terminated) (here : places thread = left) :
    left.depth = 0 := by
  have single := guarded.single
  have owner := le_total owns places thread
  have kept := holds_le_owns (places thread)
  rw [terminated] at single
  simp only [orphaned] at single
  rw [here] at kept owner
  exact eq_zero_of_holds (by omega)

omit [DecidableEq Thread] in
/-- A thread only goes to places that suit the kind and its depth. -/
theorem Guarded.fits_step (guarded : Guarded kind memory places)
    (here : places thread = left) (moves : Moves kind thread memory left next place) :
    Fits kind place := by
  obtain ⟨suits, once⟩ := here ▸ guarded.fits thread
  cases moves
  case call depth request => cases request <;> exact ⟨trivial, once⟩
  case take depth held => exact ⟨held, once⟩
  case vanish depth nothing => exact ⟨nothing, once⟩
  case passNormal depth timed recoverable normal => exact ⟨normal, once⟩
  case pass depth timed recoverable differs => exact ⟨differs, once⟩
  case unlisted depth idle =>
    obtain rfl : depth = 0 := guarded.depth_eq_zero idle here
    exact ⟨trivial, fun _ => le_refl 1⟩
  case exchange depth idle => exact ⟨guarded.depth_eq_zero idle here, once⟩
  case compare depth timed idle => exact ⟨guarded.depth_eq_zero idle here, once⟩
  case busy depth timed held => exact ⟨suits, once⟩
  case relock depth timed owned recursive =>
    exact ⟨⟨recursive, guarded.depth_ne owned (by rw [here]; rfl)⟩, once⟩
  case count depth => exact ⟨trivial, fun differs => absurd suits.1 differs⟩
  case takeOver depth timed terminated =>
    obtain rfl : depth = 0 := guarded.depth_of_terminated terminated here
    exact fits_afterLoop timed .EOWNERDEAD
  case giveUp depth timed lost => exact fits_afterLoop_lost timed once
  case acquire depth timed idle =>
    obtain rfl : depth = 0 := guarded.depth_eq_zero idle here
    exact fits_afterLoop timed .ok
  case recheck depth result recoverable acquired => exact ⟨suits acquired, once⟩
  case assignCount depth result => exact ⟨suits, once⟩
  case assignOwner depth result => exact ⟨suits, once⟩
  case addPrev depth result => exact ⟨suits, once⟩
  case addNext depth result => exact ⟨suits, once⟩
  case addBack depth result => exact ⟨suits, once⟩
  case addHead depth result =>
    obtain rfl : depth = 0 := suits
    exact ⟨trivial, fun _ => le_refl 1⟩
  case tryAcquire depth idle =>
    obtain rfl : depth = 0 := guarded.depth_eq_zero idle here
    exact fits_acquired kind .ok
  case tryOwner depth held recursive => exact ⟨recursive, once⟩
  case tryAgain depth owned =>
    exact ⟨⟨suits, guarded.depth_ne owned (by rw [here]; rfl)⟩, once⟩
  case tryTakeOver depth terminated =>
    exact ⟨guarded.depth_of_terminated terminated here, once⟩
  case owned depth owned => exact ⟨guarded.depth_ne owned (by rw [here]; rfl), once⟩
  case spoil depth =>
    have held : depth ≠ 0 := suits
    split
    · rename_i recursive
      exact ⟨⟨recursive, held⟩, once⟩
    · rename_i differs
      have single : depth ≤ 1 := once differs
      exact ⟨show depth = 1 by omega, once⟩
  case last depth final =>
    obtain ⟨recursive, held⟩ := suits
    have count := guarded.records.count recursive thread depth
    rw [here] at count
    have same := count (if_neg held)
    exact ⟨show depth = 1 by omega, once⟩
  case inner depth more => exact ⟨trivial, fun differs => absurd suits.1 differs⟩
  case disown depth list owned =>
    obtain rfl : depth = 1 := suits
    exact ⟨rfl, fun _ => zero_le_one⟩
  case bequeath depth list owned => exact ⟨rfl, fun _ => zero_le_one⟩
  case unlinkNext depth exiting list => exact ⟨suits, once⟩
  case unlinkPrev depth exiting list => exact ⟨suits, once⟩
  case unlinkHead depth list => exact ⟨suits, once⟩
  case unlinkLast depth list => exact ⟨suits, once⟩
  case releaseMarked depth marked => exact ⟨suits, once⟩
  case orphan depth => exact ⟨suits, once⟩
  all_goals exact ⟨trivial, once⟩

omit [Fintype Thread] in
/-- A move that leaves the record as it is, and the place of the thread in it, keeps the record. -/
theorem Recorded.keeps (records : Recorded kind memory places) (here : places thread = left)
    (owner : next.ownerThread = memory.ownerThread)
    (count : next.recursive_count = memory.recursive_count)
    (known : recorded place = true → recorded left = true)
    (named : RobustMutex.traced left = true → RobustMutex.traced place = true)
    (counts : kind = .recursive → ∀ depth, countOf place = some depth → countOf left = some depth) :
    Recorded kind next (Function.update places thread place) where
  owner := by
    intro other
    rw [owner]
    by_cases self : other = thread
    · rw [self, Function.update_self]
      exact fun now => records.owner thread (here ▸ known now)
    · rw [Function.update_of_ne self]
      exact records.owner other
  traced := by
    intro other
    rw [owner]
    by_cases self : other = thread
    · rw [self, Function.update_self]
      exact fun owned => named (here ▸ records.traced thread owned)
    · rw [Function.update_of_ne self]
      exact records.traced other
  count recursive := by
    have still : ∀ other, Counts next (places other) := by
      intro other depth known
      rw [count]
      exact records.count recursive other depth known
    refine forall_update still fun depth known => still thread depth ?_
    rw [here]
    exact counts recursive depth known

omit [DecidableEq Thread] in
/-- No thread but the owner relies on what is recorded. -/
theorem Guarded.not_recorded (guarded : Guarded kind memory places) (here : places thread = left)
    (own : 0 < owns left) {other : Thread} (self : other ≠ thread) :
    recorded (places other) = false ∧ countOf (places other) = none := by
  have alone : ¬ 0 < owns (places other) := fun owned =>
    self (eq_of_total_le_one guarded.owned owned (here ▸ own))
  constructor
  · by_contra known
    exact alone (owns_of_recorded (by simpa using known))
  · by_contra known
    obtain ⟨depth, same⟩ := Option.ne_none_iff_exists'.mp known
    exact alone (owns_of_countOf same)

/-- The owner of the lock word changes what is recorded. -/
theorem Guarded.rerecord (guarded : Guarded kind memory places) (here : places thread = left)
    (own : 0 < owns left) (known : recorded place = true → next.ownerThread = some thread)
    (named : ∀ other, next.ownerThread = some other → other = thread ∧
      RobustMutex.traced place = true ∨ memory.ownerThread = some other ∧ other ≠ thread)
    (counts : kind = .recursive → Counts next place) :
    Recorded kind next (Function.update places thread place) where
  owner := by
    intro other
    by_cases self : other = thread
    · rw [self, Function.update_self]
      exact known
    · rw [Function.update_of_ne self]
      exact fun now => absurd now (by rw [(guarded.not_recorded here own self).1]; decide)
  traced := by
    intro other owned
    rcases named other owned with ⟨rfl, traced⟩ | ⟨owned, self⟩
    · rwa [Function.update_self]
    · rw [Function.update_of_ne self]
      exact guarded.records.traced other owned
  count recursive other depth := by
    by_cases self : other = thread
    · rw [self, Function.update_self]
      exact counts recursive depth
    · rw [Function.update_of_ne self, (guarded.not_recorded here own self).2]
      exact nofun

/-- The owner of the lock word changes the count. -/
theorem Guarded.recount (guarded : Guarded kind memory places) (here : places thread = left)
    (own : 0 < owns left) (owner : next.ownerThread = memory.ownerThread)
    (known : recorded place = true → recorded left = true)
    (named : RobustMutex.traced left = true → RobustMutex.traced place = true)
    (counts : kind = .recursive → Counts next place) :
    Recorded kind next (Function.update places thread place) := by
  refine guarded.rerecord here own ?_ ?_ counts
  · rw [owner]
    exact fun now => guarded.records.owner thread (here ▸ known now)
  · rw [owner]
    intro other owned
    by_cases self : other = thread
    · subst self
      exact Or.inl ⟨rfl, named (here ▸ guarded.records.traced other owned)⟩
    · exact Or.inr ⟨owned, self⟩

/-- A thread of depth 0 that goes on to record the owner is not named yet. -/
theorem Guarded.enters (guarded : Guarded kind memory places)
    (here : places thread = left) (owner : next.ownerThread = memory.ownerThread)
    (count : next.recursive_count = memory.recursive_count) (unnamed : traced left = false)
    (known : recorded place = false) (counts : kind = .recursive → countOf place = none) :
    Recorded kind next (Function.update places thread place) := by
  refine guarded.records.keeps here owner count ?_ ?_ ?_
  · exact fun now => absurd now (by rw [known]; decide)
  · exact fun named => absurd named (by rw [unnamed]; decide)
  · intro recursive depth now
    rw [counts recursive] at now
    exact absurd now nofun

/-- The owner and the count stay recorded, if no timed lock takes a free normal mutex. -/
theorem Guarded.records_step (guarded : Guarded kind memory places)
    (here : places thread = left) (good : left.point = .exchanging true → memory.lock_idx ≠ 0)
    (moves : Moves kind thread memory left next place) :
    Recorded kind next (Function.update places thread place) := by
  have records := guarded.records
  have suits := here ▸ (guarded.fits thread).suits
  have nothing (idle : memory.lock_idx = 0) := guarded.depth_eq_zero idle here
  have freed (terminated : memory.stateInconsistent = .terminated) :=
    guarded.depth_of_terminated terminated here
  cases moves
  case call depth request =>
    cases request <;> exact records.keeps here rfl rfl id id fun _ _ known => known
  case exit depth =>
    exact records.keeps here rfl rfl id (fun _ => rfl) fun _ _ known => known
  case take depth held =>
    exact records.keeps here rfl rfl id (fun _ => rfl) nofun
  case vanish depth nothing =>
    exact records.keeps here rfl rfl id (fun _ => rfl) fun _ _ known => known
  case unlisted depth idle => exact absurd idle (good rfl)
  case exchange depth idle =>
    obtain rfl : depth = 0 := nothing idle
    refine guarded.enters here rfl rfl rfl rfl fun recursive => ?_
    exact absurd (suits.symm.trans recursive) (by decide)
  case count depth =>
    obtain ⟨recursive, held⟩ := suits
    have count := guarded.records.count recursive thread depth
    rw [here] at count
    have same := count (if_neg held)
    have own : owns (⟨depth, .counting⟩ : Place Thread) = 1 := holds_of_ne held
    refine guarded.recount here (by omega) rfl ?_ (fun _ => rfl) ?_
    · exact fun _ => decide_eq_true held
    · rintro _ _ ⟨⟩
      exact_mod_cast congrArg (· + 1) same
  case takeOver depth timed terminated =>
    obtain rfl : depth = 0 := freed terminated
    refine guarded.enters here rfl rfl rfl ?_ fun recursive => countOf_afterLoop recursive timed _
    by_contra known
    exact depth_of_recorded_afterLoop timed (by simpa using known) rfl
  case giveUp depth timed lost =>
    unfold afterLoop
    split
    · exact records.keeps here rfl rfl id id fun _ _ known => known
    · exact records.keeps here rfl rfl id id fun _ _ known => known
  case acquire depth timed idle =>
    obtain rfl : depth = 0 := nothing idle
    refine guarded.enters here rfl rfl rfl ?_ fun recursive => countOf_afterLoop recursive timed _
    by_contra known
    exact depth_of_recorded_afterLoop timed (by simpa using known) rfl
  case assignCount depth result =>
    obtain rfl : depth = 0 := suits
    refine guarded.recount here Nat.one_pos rfl nofun nofun ?_
    rintro _ _ ⟨⟩
    rfl
  case assignOwner depth result =>
    refine guarded.rerecord here Nat.one_pos (fun _ => rfl) ?_ ?_
    · rintro _ ⟨⟩
      exact Or.inl ⟨rfl, rfl⟩
    · rintro recursive _ ⟨⟩
      have count := guarded.records.count recursive thread 1
      rw [here] at count
      exact count rfl
  case addHead depth result =>
    obtain rfl : depth = 0 := suits
    exact records.keeps here rfl rfl (fun _ => rfl) (fun _ => rfl) fun _ _ known => known
  case tryAcquire depth idle =>
    obtain rfl : depth = 0 := nothing idle
    refine guarded.enters here rfl rfl rfl ?_ fun recursive => countOf_acquired recursive .ok
    unfold acquired
    split <;> rfl
  case spoil depth =>
    by_cases recursive : kind = .recursive
    · rw [if_pos recursive]
      exact records.keeps here rfl rfl id id fun _ _ known => known
    · rw [if_neg recursive]
      exact records.keeps here rfl rfl id id nofun
  case last depth final =>
    have own : owns (⟨depth, .decrementing⟩ : Place Thread) = 1 := holds_of_ne suits.2
    exact guarded.recount here (by omega) rfl id id nofun
  case inner depth more =>
    have held := guarded.depth_sub_ne here more
    obtain ⟨recursive, positive⟩ := suits
    have count := guarded.records.count recursive thread depth
    rw [here] at count
    have same := count (if_neg positive)
    have own : owns (⟨depth, .decrementing⟩ : Place Thread) = 1 := holds_of_ne positive
    refine guarded.recount here (by omega) rfl ?_ ?_ ?_
    · exact fun _ => decide_eq_true positive
    · exact fun _ => decide_eq_true held
    · intro _ _ known
      obtain rfl : depth - 1 = _ := by simpa [countOf, held] using known
      dsimp only
      omega
  case disown depth list owned =>
    obtain rfl : depth = 1 := suits
    exact guarded.rerecord here Nat.one_pos nofun nofun nofun
  case bequeath depth list owned =>
    refine guarded.rerecord here Nat.one_pos nofun ?_ nofun
    rintro _ ⟨⟩
    exact Or.inl ⟨rfl, rfl⟩
  case unlinkNext depth exiting list =>
    cases exiting <;> exact records.keeps here rfl rfl id id fun _ _ known => known
  case unlinkPrev depth exiting list =>
    cases exiting <;> exact records.keeps here rfl rfl id id fun _ _ known => known
  all_goals exact records.keeps here rfl rfl id id fun _ _ known => known

/-- Every step of every thread keeps the invariant, if no timed lock takes a free normal mutex. -/
theorem Guarded.step (guarded : Guarded kind memory places)
    (good : (places thread).point = .exchanging true → memory.lock_idx ≠ 0)
    (moves : Moves kind thread memory (places thread) next place) :
    Guarded kind next (Function.update places thread place) where
  single := (guarded.exclusive_step rfl moves).1
  free := (guarded.exclusive_step rfl moves).2
  fits := forall_update guarded.fits (guarded.fits_step rfl moves)
  records := guarded.records_step rfl good moves

omit [DecidableEq Thread] in
theorem guarded_initial : Guarded kind (free Thread) fun _ => ⟨0, .idle⟩ where
  single := by
    have nobody : total owns (fun _ : Thread => (⟨0, .idle⟩ : Place Thread)) = 0 :=
      total_entry rfl
    simp [nobody, free, orphaned]
  free _ := by
    have nobody : total owns (fun _ : Thread => (⟨0, .idle⟩ : Place Thread)) = 0 :=
      total_entry rfl
    simp [nobody, free, orphaned]
  fits _ := ⟨trivial, fun _ => zero_le_one⟩
  records := ⟨nofun, nofun, nofun⟩

end Steps

end RobustMutex

end CodeCollect.Pthreads
