import CodeCollect.Pthreads.Mutex

namespace CodeCollect.Pthreads

open CodeCollect.Library Program

namespace Mutex

/-- A thread that has acquired the mutex some times holds it once. -/
def holds (depth : Nat) : Nat := if depth = 0 then 0 else 1

@[simp] theorem holds_zero : holds 0 = 0 := rfl

@[simp] theorem holds_succ (depth : Nat) : holds (depth + 1) = 1 := rfl

theorem holds_of_ne {depth : Nat} (some_held : depth ≠ 0) : holds depth = 1 := if_neg some_held

theorem eq_zero_of_holds {depth : Nat} (nothing : holds depth = 0) : depth = 0 := by
  by_contra some_held
  simp [holds_of_ne some_held] at nothing

/-- A thread owns the mutex from its successful acquire to the exchange that releases it. -/
def owns : Place → Nat
  | .outside depth | .exchanging _ depth | .comparing _ depth | .ownerTest _ depth
  | .marking _ depth | .waiting _ depth | .trying depth | .tryTest depth | .unlockTest depth
  | .signalling depth => holds depth
  | _ => 1

/-- This is how often the thread has acquired the mutex. -/
def depthOf : Place → Nat
  | .outside depth | .exchanging _ depth | .comparing _ depth | .ownerTest _ depth
  | .marking _ depth | .waiting _ depth | .trying depth | .tryTest depth | .counting depth
  | .assigningCount depth | .assigningOwner depth | .unlockTest depth | .decrementing depth
  | .clearing depth | .releasing depth | .signalling depth => depth

/-- In these places the mutex records its owner. -/
def recorded : Place → Bool
  | .outside depth | .exchanging _ depth | .comparing _ depth | .ownerTest _ depth
  | .marking _ depth | .waiting _ depth | .trying depth | .tryTest depth | .unlockTest depth
  | .signalling depth => depth ≠ 0
  | .counting _ | .decrementing _ | .clearing _ => true
  | .assigningCount _ | .assigningOwner _ | .releasing _ => false

/-- In these places the mutex records how often it was acquired. -/
def countOf : Place → Option Nat
  | .outside depth | .exchanging _ depth | .comparing _ depth | .ownerTest _ depth
  | .marking _ depth | .waiting _ depth | .trying depth | .tryTest depth | .unlockTest depth
  | .signalling depth => if depth = 0 then none else some depth
  | .counting depth | .decrementing depth => some depth
  | .assigningOwner _ => some 1
  | .assigningCount _ | .clearing _ | .releasing _ => none

/-- A thread waits for the event. -/
def waits : Place → Nat
  | .waiting _ _ => 1
  | _ => 0

/-- A thread is going to mark the lock word or to set the event. -/
def poised : Place → Nat
  | .marking _ _ | .signalling _ => 1
  | _ => 0

/-- These places are only reached with some depths and for some kinds. -/
def Suits (kind : MutexKind) : Place → Prop
  | .counting depth | .decrementing depth => kind = .recursive ∧ depth ≠ 0
  | .assigningCount depth | .assigningOwner depth => kind ≠ .normal ∧ depth = 0
  | .clearing depth => kind ≠ .normal ∧ depth = 1
  | .releasing depth => depth = 1
  | .exchanging _ _ => kind = .normal
  | .comparing _ _ | .ownerTest _ _ | .unlockTest _ => kind ≠ .normal
  | .tryTest _ => kind = .recursive
  | _ => True

/-- Only a recursive mutex is acquired again by its owner. -/
structure Fits (kind : MutexKind) (place : Place) : Prop where
  suits : Suits kind place
  once : kind ≠ .recursive → depthOf place ≤ 1

variable {Thread : Type} {kind : MutexKind} {memory next : Memory Thread} {places : Thread → Place}

/-- The mutex has been acquired as often as it records for this place. -/
def Counts (memory : Memory Thread) (place : Place) : Prop :=
  ∀ depth, countOf place = some depth → memory.recursive_count = depth

/-- The owner and the count are recorded for the kinds that are not normal. -/
structure Recorded (memory : Memory Thread) (places : Thread → Place) : Prop where
  owner : ∀ thread, memory.ownerThread = some thread ↔ recorded (places thread) = true
  count : ∀ thread, Counts memory (places thread)

/-- A waiter is woken when the event is set, and somebody sets it or marks the lock word. -/
def Wakeful [Fintype Thread] (memory : Memory Thread) (places : Thread → Place) : Prop :=
  0 < total waits places → memory.lock_idx = -1 ∨ 0 < memory.event.toNat + total poised places

/-- This is what every step keeps. -/
structure Guarded [Fintype Thread] (kind : MutexKind) (memory : Memory Thread)
    (places : Thread → Place) : Prop where
  free : memory.lock_idx = 0 → total owns places = 0
  locked : memory.lock_idx ≠ 0 → total owns places = 1
  fits : ∀ thread, Fits kind (places thread)
  records : kind ≠ .normal → Recorded memory places
  wakeful : Wakeful memory places

theorem owns_of_recorded {place : Place} (known : recorded place = true) : 0 < owns place := by
  cases place <;> simp_all [recorded, owns, holds]

theorem owns_acquired (kind : MutexKind) (depth : Nat) : owns (acquired kind depth) = 1 := by
  unfold acquired
  split <;> rfl

theorem waits_acquired (kind : MutexKind) (depth : Nat) : waits (acquired kind depth) = 0 := by
  unfold acquired
  split <;> rfl

theorem owns_of_countOf {place : Place} {depth : Nat} (known : countOf place = some depth) :
    0 < owns place := by
  cases place <;> grind [countOf, owns, holds]

section Steps

variable [Fintype Thread] [DecidableEq Thread]

omit [DecidableEq Thread] in
/-- The owner of the lock word is the only one. -/
theorem Guarded.single (guarded : Guarded kind memory places) : total owns places ≤ 1 := by
  have free := guarded.free
  have locked := guarded.locked
  omega

variable {thread : Thread} {place left : Place}

omit [Fintype Thread] in
/-- A move that leaves the record as it is, and the place of the thread in it, keeps the record. -/
theorem Recorded.keeps (records : Recorded memory places) (here : places thread = left)
    (owner : next.ownerThread = memory.ownerThread)
    (count : next.recursive_count = memory.recursive_count)
    (same : recorded place = recorded left)
    (counts : ∀ depth, countOf place = some depth → countOf left = some depth) :
    Recorded next (Function.update places thread place) where
  owner other := by
    rw [owner, records.owner]
    by_cases self : other = thread
    · rw [self, Function.update_self, same, here]
    · rw [Function.update_of_ne self]
  count := by
    have still : ∀ other, Counts next (places other) := by
      intro other depth known
      rw [count]
      exact records.count other depth known
    refine forall_update still fun depth known => still thread depth ?_
    rw [here]
    exact counts depth known

/-- No thread but the owner relies on the count. -/
theorem counts_update (single : total owns places ≤ 1) (own : 0 < owns (places thread))
    (counts : Counts next place) (other : Thread) :
    Counts next (Function.update places thread place other) := by
  intro depth known
  by_cases self : other = thread
  · rw [self, Function.update_self] at known
    exact counts depth known
  · rw [Function.update_of_ne self] at known
    exact absurd (eq_of_total_le_one single (owns_of_countOf known) own) self

/-- The owner changes the count. -/
theorem Recorded.recount (records : Recorded memory places) (single : total owns places ≤ 1)
    (here : places thread = left) (own : 0 < owns left)
    (owner : next.ownerThread = memory.ownerThread) (same : recorded place = recorded left)
    (counts : Counts next place) : Recorded next (Function.update places thread place) where
  owner other := by
    rw [owner, records.owner]
    by_cases self : other = thread
    · rw [self, Function.update_self, same, here]
    · rw [Function.update_of_ne self]
  count := counts_update single (here ▸ own) counts

/-- The owner records or removes itself, and no other thread was recorded. -/
theorem recorded_change (single : total owns places ≤ 1) (here : places thread = left)
    (own : 0 < owns left)
    (owner : ∀ other, next.ownerThread = some other ↔ other = thread ∧ recorded place = true)
    (counts : Counts next place) : Recorded next (Function.update places thread place) where
  owner other := by
    rw [owner]
    by_cases self : other = thread
    · rw [self, Function.update_self]
      exact and_iff_right rfl
    · rw [Function.update_of_ne self]
      constructor
      · rintro ⟨same, _⟩
        exact absurd same self
      · intro known
        exact absurd (eq_of_total_le_one single (owns_of_recorded known) (here ▸ own)) self
  count := counts_update single (here ▸ own) counts

omit [DecidableEq Thread] in
/-- The depth of an owner that the mutex records is positive, and that of another thread is 0. -/
theorem Guarded.depth_of_owner (guarded : Guarded kind memory places) (kinds : kind ≠ .normal)
    {depth : Nat} (known : recorded (places thread) = decide (depth ≠ 0)) :
    memory.ownerThread = some thread ↔ depth ≠ 0 := by
  rw [(guarded.records kinds).owner, known, decide_eq_true_iff]

/-- The lock word is 0 exactly when no thread owns the mutex. -/
theorem Guarded.exclusive_step (guarded : Guarded kind memory places)
    (moves : Moves kind thread memory (places thread) next place) :
    (next.lock_idx = 0 → total owns (Function.update places thread place) = 0) ∧
      (next.lock_idx ≠ 0 → total owns (Function.update places thread place) = 1) := by
  have changes := total_update owns places thread place
  have owner := le_total owns places thread
  have free := guarded.free
  have locked := guarded.locked
  have suits := (guarded.fits thread).suits
  have known (kinds : kind ≠ .normal) (depth : Nat)
      (same : recorded (places thread) = decide (depth ≠ 0)) := guarded.depth_of_owner kinds same
  have counts (kinds : kind ≠ .normal) := (guarded.records kinds).count thread
  generalize here : places thread = left at *
  cases moves
  case unlockNormal depth normal held =>
    simp only [owns, holds_of_ne held] at *
    omega
  case acquire timed depth idle =>
    rw [owns_acquired] at changes
    simp only [owns] at *
    omega
  case tryAcquire depth idle =>
    rw [owns_acquired] at changes
    simp only [owns] at *
    omega
  case relock timed depth owned recursive =>
    have held := (known suits depth rfl).mp owned
    simp only [owns, holds_of_ne held] at *
    omega
  case tryAgain depth owned =>
    have kinds : kind ≠ .normal := ne_of_eq_of_ne suits (by decide)
    have held := (known kinds depth rfl).mp owned
    simp only [owns, holds_of_ne held] at *
    omega
  case decrement depth owned recursive =>
    have held := (known suits depth rfl).mp owned
    simp only [owns, holds_of_ne held] at *
    omega
  case owned depth owned differs =>
    have held := (known suits depth rfl).mp owned
    simp only [owns, holds_of_ne held] at *
    omega
  case inner depth more =>
    obtain ⟨recursive, _⟩ := suits
    have count := counts (by simp [recursive]) depth rfl
    have held : depth - 1 ≠ 0 := by omega
    simp only [owns, holds_of_ne held] at *
    omega
  case releaseMarked depth marked =>
    obtain rfl : depth = 1 := suits
    simp only [owns, Nat.sub_self, holds_zero] at *
    omega
  case release depth unmarked =>
    obtain rfl : depth = 1 := suits
    simp only [owns, Nat.sub_self, holds_zero] at *
    omega
  all_goals
    simp only [owns, holds_succ] at *
    omega

omit [DecidableEq Thread] in
/-- A thread that finds the lock word 0 does not hold the mutex. -/
theorem Guarded.nothing (guarded : Guarded kind memory places) (idle : memory.lock_idx = 0)
    (thread : Thread) : owns (places thread) = 0 :=
  total_eq_zero.mp (guarded.free idle) thread

theorem fits_acquired (kind : MutexKind) : Fits kind (acquired kind 0) := by
  by_cases normal : kind = .normal
  · rw [acquired, if_pos normal]
    exact ⟨trivial, fun _ => le_refl 1⟩
  · rw [acquired, if_neg normal]
    exact ⟨⟨normal, rfl⟩, fun _ => zero_le_one⟩

omit [DecidableEq Thread] in
/-- A thread only goes to places that suit the kind and its depth. -/
theorem Guarded.fits_step (guarded : Guarded kind memory places)
    (moves : Moves kind thread memory (places thread) next place) : Fits kind place := by
  obtain ⟨suits, once⟩ := guarded.fits thread
  have nothing (idle : memory.lock_idx = 0) := guarded.nothing idle thread
  have known (kinds : kind ≠ .normal) (depth : Nat)
      (same : recorded (places thread) = decide (depth ≠ 0)) := guarded.depth_of_owner kinds same
  have counts (kinds : kind ≠ .normal) := (guarded.records kinds).count thread
  generalize places thread = left at *
  cases moves
  case lockNormal timed depth normal => exact ⟨normal, once⟩
  case lock timed depth differs => exact ⟨differs, once⟩
  case unlockNormal depth normal held =>
    have single : depth ≤ 1 := once (by simp [normal])
    exact ⟨show depth = 1 by omega, once⟩
  case unlock depth differs => exact ⟨differs, once⟩
  case exchange timed depth idle =>
    obtain rfl := eq_zero_of_holds (nothing idle)
    exact ⟨trivial, fun _ => le_refl 1⟩
  case compare timed depth idle =>
    exact ⟨⟨suits, eq_zero_of_holds (nothing idle)⟩, once⟩
  case busy timed depth held => exact ⟨suits, once⟩
  case relock timed depth owned recursive =>
    exact ⟨⟨recursive, (known suits depth rfl).mp owned⟩, once⟩
  case acquire timed depth idle =>
    obtain rfl := eq_zero_of_holds (nothing idle)
    exact fits_acquired kind
  case tryAcquire depth idle =>
    obtain rfl := eq_zero_of_holds (nothing idle)
    exact fits_acquired kind
  case tryOwner depth held recursive => exact ⟨recursive, once⟩
  case tryAgain depth owned =>
    have kinds : kind ≠ .normal := ne_of_eq_of_ne suits (by decide)
    exact ⟨⟨suits, (known kinds depth rfl).mp owned⟩, once⟩
  case count depth => exact ⟨trivial, fun differs => absurd suits.1 differs⟩
  case assignCount depth => exact ⟨suits, once⟩
  case assignOwner depth =>
    obtain ⟨differs, rfl⟩ := suits
    exact ⟨trivial, fun _ => le_refl 1⟩
  case decrement depth owned recursive =>
    exact ⟨⟨recursive, (known suits depth rfl).mp owned⟩, once⟩
  case owned depth owned differs =>
    have held := (known suits depth rfl).mp owned
    have single : depth ≤ 1 := once differs
    exact ⟨⟨suits, show depth = 1 by omega⟩, once⟩
  case last depth final =>
    obtain ⟨recursive, held⟩ := suits
    have kinds : kind ≠ .normal := ne_of_eq_of_ne recursive (by decide)
    have count := counts kinds depth rfl
    exact ⟨⟨kinds, show depth = 1 by omega⟩, once⟩
  case inner depth more => exact ⟨trivial, fun differs => absurd suits.1 differs⟩
  case clear depth => exact ⟨suits.2, once⟩
  case releaseMarked depth marked =>
    obtain rfl : depth = 1 := suits
    exact ⟨trivial, fun _ => zero_le_one⟩
  case release depth unmarked =>
    obtain rfl : depth = 1 := suits
    exact ⟨trivial, fun _ => zero_le_one⟩
  all_goals exact ⟨trivial, once⟩

theorem acquired_of_ne (kinds : kind ≠ .normal) (depth : Nat) :
    acquired kind depth = .assigningCount depth := if_neg kinds

/-- The owner and the count stay recorded. -/
theorem Guarded.records_step (guarded : Guarded kind memory places) (kinds : kind ≠ .normal)
    (here : places thread = left) (moves : Moves kind thread memory left next place) :
    Recorded next (Function.update places thread place) := by
  have records := guarded.records kinds
  have single := guarded.single
  have suits := here ▸ (guarded.fits thread).suits
  have nothing (idle : memory.lock_idx = 0) := here ▸ guarded.nothing idle thread
  have counts := here ▸ records.count thread
  cases moves
  case lockNormal timed depth normal => exact absurd normal kinds
  case unlockNormal depth normal held => exact absurd normal kinds
  case exchange timed depth idle => exact absurd suits kinds
  case compare timed depth idle =>
    obtain rfl := eq_zero_of_holds (nothing idle)
    exact records.keeps here rfl rfl rfl nofun
  case acquire timed depth idle =>
    obtain rfl := eq_zero_of_holds (nothing idle)
    rw [acquired_of_ne kinds]
    exact records.keeps here rfl rfl rfl nofun
  case tryAcquire depth idle =>
    obtain rfl := eq_zero_of_holds (nothing idle)
    rw [acquired_of_ne kinds]
    exact records.keeps here rfl rfl rfl nofun
  case relock timed depth owned recursive =>
    have held := (guarded.depth_of_owner kinds (by rw [here]; rfl)).mp owned
    exact records.keeps here rfl rfl (by simp [recorded, held]) (by simp [countOf, held])
  case tryAgain depth owned =>
    have held := (guarded.depth_of_owner kinds (by rw [here]; rfl)).mp owned
    exact records.keeps here rfl rfl (by simp [recorded, held]) (by simp [countOf, held])
  case decrement depth owned recursive =>
    have held := (guarded.depth_of_owner kinds (by rw [here]; rfl)).mp owned
    exact records.keeps here rfl rfl (by simp [recorded, held]) (by simp [countOf, held])
  case owned depth owned differs =>
    have held := (guarded.depth_of_owner kinds (by rw [here]; rfl)).mp owned
    exact records.keeps here rfl rfl (by simp [recorded, held]) nofun
  case count depth =>
    have count := counts depth rfl
    refine records.recount single here Nat.one_pos rfl (by simp [recorded]) fun _ known => ?_
    obtain rfl : depth + 1 = _ := by simpa [countOf] using known
    exact_mod_cast congrArg (· + 1) count
  case assignCount depth =>
    refine records.recount single here Nat.one_pos rfl rfl fun _ known => ?_
    obtain rfl : 1 = _ := Option.some.inj known
    rfl
  case assignOwner depth =>
    obtain ⟨_, rfl⟩ := suits
    have count := counts 1 rfl
    refine recorded_change single here Nat.one_pos (fun other => ?_) fun _ known => ?_
    · simp [recorded, eq_comm]
    · obtain rfl : 1 = _ := by simpa [countOf] using known
      exact count
  case last depth final =>
    refine records.recount single here Nat.one_pos rfl rfl nofun
  case inner depth more =>
    have count := counts depth rfl
    have positive := suits.2
    have held : depth - 1 ≠ 0 := by omega
    refine records.recount single here Nat.one_pos rfl (by simp [recorded, held]) fun _ known => ?_
    obtain rfl : depth - 1 = _ := by simpa [countOf, held] using known
    dsimp only
    omega
  case clear depth =>
    exact recorded_change single here Nat.one_pos (fun other => by simp [recorded]) nofun
  case releaseMarked depth marked =>
    obtain rfl : depth = 1 := suits
    exact records.keeps here rfl rfl rfl nofun
  case release depth unmarked =>
    obtain rfl : depth = 1 := suits
    exact records.keeps here rfl rfl rfl nofun
  all_goals exact records.keeps here rfl rfl rfl fun _ known => known

/-- A waiter is not forgotten: who erases the mark waits or marks again. -/
theorem Guarded.wakeful_step (guarded : Guarded kind memory places)
    (here : places thread = left) (moves : Moves kind thread memory left next place) :
    Wakeful next (Function.update places thread place) := by
  have wakeful := guarded.wakeful
  have waitsMove := total_update waits places thread place
  have poisedMove := total_update poised places thread place
  have waitsHere := le_total waits places thread
  have poisedHere := le_total poised places thread
  rw [here] at waitsMove poisedMove waitsHere poisedHere
  unfold Wakeful at *
  cases moves
  case acquire timed depth idle => exact fun _ => Or.inl rfl
  case mark timed depth held => exact fun _ => Or.inl rfl
  case tryAcquire depth idle =>
    rw [waits_acquired] at waitsMove
    simp only [waits, poised] at *
    omega
  all_goals
    simp only [waits, poised, Bool.toNat_true, Bool.toNat_false] at *
    omega

/-- Every step of every thread keeps the invariant. -/
theorem Guarded.step (guarded : Guarded kind memory places)
    (moves : Moves kind thread memory (places thread) next place) :
    Guarded kind next (Function.update places thread place) where
  free := (guarded.exclusive_step moves).1
  locked := (guarded.exclusive_step moves).2
  fits := forall_update guarded.fits (guarded.fits_step moves)
  records kinds := guarded.records_step kinds rfl moves
  wakeful := guarded.wakeful_step rfl moves

/-- The invariant holds in every reachable configuration. -/
theorem guarded_of_reachable {config : Configuration Thread (Memory Thread) Place}
    {Good : Configuration Thread (Memory Thread) Place → Thread × Label → Prop}
    (reached : (program kind Thread).system.Reachable Good config) :
    Guarded kind config.memory config.places := by
  apply invariant reached (Guarded kind)
  · exact {
      free := fun _ => total_entry rfl
      locked := fun held => absurd rfl held
      fits := fun _ => ⟨trivial, fun _ => zero_le_one⟩
      records := fun _ => ⟨fun _ => by simp [program, recorded], fun _ => nofun⟩
      wakeful := by
        have nobody : total waits (fun _ : Thread => (program kind Thread).entry) = 0 :=
          total_entry rfl
        exact fun waiting => absurd nobody waiting.ne' }
  · intro memory places thread label next place guarded _ stepped
    exact guarded.step (moves_of_step stepped)

end Steps

/-- A thread is not in a call, or it is blocked on the event. -/
def Quiet : Place → Prop
  | .outside _ | .waiting _ _ => True
  | _ => False

/-- At most one thread has the mutex, its owner and depth are recorded, and a thread that is
blocked while nobody moves is blocked by an owner that will set the event. -/
structure Safe (kind : MutexKind) (config : Configuration Thread (Memory Thread) Place) :
    Prop where
  exclusive : ∀ first second, 0 < owns (config.places first) → 0 < owns (config.places second) →
    first = second
  recorded : kind ≠ .normal → ∀ thread depth, config.places thread = .outside depth →
    (config.memory.ownerThread = some thread ↔ depth ≠ 0) ∧
      (depth ≠ 0 → config.memory.recursive_count = depth)
  awake : (∀ thread, Quiet (config.places thread)) → config.memory.event = false →
    ∀ thread timed depth, config.places thread = .waiting timed depth →
      config.memory.lock_idx = -1 ∧ ∃ owner, 0 < owns (config.places owner)

theorem poised_of_quiet {place : Place} (quiet : Quiet place) : poised place = 0 := by
  cases place <;> first | rfl | exact quiet.elim

variable [Fintype Thread] [DecidableEq Thread]

/-- One thread locks a recursive mutex twice, and another one waits for it. -/
def contended : List (Bool × Label) :=
  [(false, .lock false), (false, .go), (false, .go), (false, .go), (false, .trylock), (false, .go),
    (false, .go), (false, .go), (true, .lock true), (true, .go), (true, .go), (true, .go)]

end Mutex

end CodeCollect.Pthreads
