import CodeCollect.Pthreads.Semaphore

namespace CodeCollect.Pthreads

open CodeCollect.Library Program

namespace Semaphore

/-- These are all moves of one thread, each with what it needs and what it changes. -/
inductive Moves : Memory → Place → Memory → Place → Prop
  | enter {memory : Memory} {call : Call} : memory.lock = false →
      Moves memory .outside { memory with lock := true } (.decrementing call)
  | enterTrywait {memory : Memory} : memory.lock = false →
      Moves memory .outside { memory with lock := true } .trying
  | enterPost {memory : Memory} : memory.lock = false →
      Moves memory .outside { memory with lock := true } .posting
  | refuse {memory : Memory} : Moves memory .outside memory .outside
  | enterMultiple {memory : Memory} {count : Nat} : memory.lock = false →
      Moves memory .outside { memory with lock := true } (.postingMultiple count)
  | queue {memory : Memory} {call : Call} : memory.value - 1 < 0 →
      Moves memory (.decrementing call) { memory with value := memory.value - 1 }.unlock
        (.waiting call)
  | decrement {memory : Memory} {call : Call} : ¬ memory.value - 1 < 0 →
      Moves memory (.decrementing call)
        { memory with value := memory.value - 1, waits := memory.waits + 1 }.unlock .outside
  | take {memory : Memory} {call : Call} : 0 < memory.sem →
      Moves memory (.waiting call) memory.take .outside
  | abandon {memory : Memory} {call : Call} : Moves memory (.waiting call) memory (.cleaning call)
  | enterCleanup {memory : Memory} {call : Call} : memory.lock = false →
      Moves memory (.cleaning call) { memory with lock := true } (.withdrawing call)
  | mistake {memory : Memory} : memory.value = 0 →
      Moves memory (.withdrawing .sem_wait) memory.unlock .outside
  | consume {memory : Memory} {call : Call} : 0 < memory.sem →
      Moves memory (.withdrawing call) memory.take.unlock .outside
  | withdraw {memory : Memory} {call : Call} : ¬ 0 < memory.sem →
      Moves memory (.withdrawing call) { memory with value := memory.value + 1 }.unlock .outside
  | trywait {memory : Memory} : 0 < memory.value →
      Moves memory .trying
        { memory with value := memory.value - 1, waits := memory.waits + 1 }.unlock .outside
  | again {memory : Memory} : Moves memory .trying memory.unlock .outside
  | post {memory : Memory} {released : Nat} : (released : Int) = min (max 0 (-memory.value)) 1 →
      Moves memory .posting { memory with value := memory.value + 1, posts := memory.posts + 1 }
        (.releasing released)
  | postMultiple {memory : Memory} {count released : Nat} :
      (released : Int) = min (max 0 (-memory.value)) count →
      Moves memory (.postingMultiple count)
        { memory with value := memory.value + count, posts := memory.posts + count }
        (.releasing released)
  | full {memory : Memory} : Moves memory .posting memory (.releasing 0)
  | fullMultiple {memory : Memory} {count : Nat} :
      Moves memory (.postingMultiple count) memory (.releasing 0)
  | release {memory : Memory} {released : Nat} :
      Moves memory (.releasing released) { memory with sem := memory.sem + released }.unlock
        .outside

/-- The lock is taken when it is free. -/
theorem moves_of_acquire {memory next : Memory} {left target place : Place}
    (taken : memory.acquire target = some (next, place))
    (moves : memory.lock = false → Moves memory left { memory with lock := true } target) :
    Moves memory left next place := by
  unfold Memory.acquire at taken
  split at taken
  · exact absurd taken (by simp)
  · rename_i free
    exact step_some taken (moves (by simpa using free))

theorem moves_of_decrement {memory : Memory} {call : Call} :
    Moves memory (.decrementing call) (memory.decrement call).1.unlock
      (memory.decrement call).2 := by
  unfold Memory.decrement
  split
  · exact .queue ‹_›
  · exact .decrement ‹_›

theorem moves_of_cleanup {memory : Memory} {call : Call} :
    Moves memory (.withdrawing call) (memory.cleanup call).unlock .outside := by
  unfold Memory.cleanup
  split
  · rename_i mistaken
    obtain ⟨rfl, zero⟩ := mistaken
    exact .mistake zero
  · split
    · exact .consume ‹_›
    · exact .withdraw ‹_›

theorem moves_of_post {memory : Memory} :
    Moves memory .posting memory.post.1 memory.post.2 := by
  unfold Memory.post
  split
  · apply Moves.post
    split <;> omega
  · exact .full

theorem moves_of_postMultiple {memory : Memory} {count : Nat} :
    Moves memory (.postingMultiple count) (memory.postMultiple count).1
      (memory.postMultiple count).2 := by
  unfold Memory.postMultiple
  split
  · apply Moves.postMultiple
    split
    · split <;> omega
    · omega
  · exact .fullMultiple

/-- Every step is one of the moves. -/
theorem moves_of_step {memory next : Memory} {place reached : Place} {label : Label}
    (taken : step memory place label = some (next, reached)) :
    Moves memory place next reached := by
  unfold step at taken
  split at taken
  case h_1 => exact moves_of_acquire taken .enter
  case h_2 => exact moves_of_acquire taken .enterTrywait
  case h_3 => exact moves_of_acquire taken .enterPost
  case h_4 =>
      split at taken
      · exact step_some taken .refuse
      · exact moves_of_acquire taken .enterMultiple
  case h_5 => exact step_some taken moves_of_decrement
  case h_6 => exact step_when taken .take
  case h_7 => exact step_some taken .abandon
  case h_8 =>
      split at taken
      · exact absurd taken (by simp)
      · exact step_some taken .abandon
  case h_9 => exact moves_of_acquire taken .enterCleanup
  case h_10 => exact step_some taken moves_of_cleanup
  case h_11 =>
      unfold Memory.trywait at taken
      split at taken
      · exact step_some taken (.trywait ‹_›)
      · exact step_some taken .again
  case h_12 => exact step_some taken moves_of_post
  case h_13 => exact step_some taken moves_of_postMultiple
  case h_14 => exact step_some taken .release
  case h_15 => exact absurd taken (by simp)

/-- A thread waits from its decrement until it takes a release or withdraws. -/
def waiting : Place → Nat
  | .waiting _ | .cleaning _ | .withdrawing _ => 1
  | _ => 0

/-- A thread is inside a critical section. -/
def holding : Place → Nat
  | .decrementing _ | .withdrawing _ | .trying | .posting | .postingMultiple _ | .releasing _ => 1
  | _ => 0

/-- A thread is about to release some waiters. -/
def releasing : Place → Nat
  | .releasing released => released
  | _ => 0

variable {Thread : Type} [Fintype Thread] {value : Nat} {memory next : Memory}
  {places : Thread → Place}

/-- Inside a critical section the releases that are about to be made are counted too. -/
structure Balanced (value : Nat) (memory : Memory) (places : Thread → Place) : Prop where
  locked : total holding places = memory.lock.toNat
  balance : (total waiting places : Int) - memory.sem - total releasing places =
    max 0 (-memory.value)
  ledger : (value : Int) + memory.posts = memory.waits + memory.value + total waiting places

/-- The handler of `sem_wait` does not find the value 0. -/
def Recognized (place : Place) (memory : Memory) : Prop :=
  place = .withdrawing .sem_wait → memory.value ≠ 0

theorem holding_of_releasing (place : Place) (some_released : 0 < releasing place) :
    0 < holding place := by
  cases place <;> simp_all [releasing, holding]

/-- Each move keeps the balance when the handler recognizes the semaphore. -/
theorem Balanced.step [DecidableEq Thread] (balanced : Balanced value memory places)
    {thread : Thread} {place : Place} (recognized : Recognized (places thread) memory)
    (moves : Moves memory (places thread) next place) :
    Balanced value next (Function.update places thread place) := by
  obtain ⟨locked, balance, ledger⟩ := balanced
  have holds := total_update holding places thread place
  have waits := total_update waiting places thread place
  have releases := total_update releasing places thread place
  have present := le_total holding places thread
  have single := Bool.toNat_le memory.lock
  have alone : 0 < holding (places thread) → total releasing places = releasing (places thread) :=
    total_of_single holding_of_releasing (locked.le.trans single)
  generalize places thread = left at *
  cases moves
  case mistake zero => exact absurd zero (recognized rfl)
  case enter free | enterTrywait free | enterPost free | enterMultiple free | enterCleanup free =>
    rw [free] at locked
    simp only [holding, waiting, releasing, Bool.toNat_false] at *
    exact ⟨by simp only [Bool.toNat_true]; omega, by dsimp only; omega, by dsimp only; omega⟩
  case refuse | abandon | full | fullMultiple =>
    simp only [holding, waiting, releasing] at *
    exact ⟨by omega, by omega, by omega⟩
  all_goals
    simp only [holding, waiting, releasing, Memory.unlock, Memory.take] at *
    exact ⟨by simp only [Bool.toNat_false]; omega, by dsimp only; omega, by dsimp only; omega⟩

theorem balanced_start (value : Nat) :
    Balanced value (program value Thread).memory fun _ : Thread => (program value Thread).entry where
  locked := total_entry rfl
  balance := by
    have nobody : total waiting (fun _ : Thread => Place.outside) = 0 := total_entry rfl
    have nothing : total releasing (fun _ : Thread => Place.outside) = 0 := total_entry rfl
    simp only [program, nobody, nothing]
    omega
  ledger := by
    have nobody : total waiting (fun _ : Thread => Place.outside) = 0 := total_entry rfl
    simp only [program, nobody]
    omega

/-- No post is lost or doubled, and nobody waits for a post that is there. -/
structure Conserved (value : Nat) (config : Configuration Thread Memory Place) : Prop where
  balance : (total waiting config.places : Int) - config.memory.sem = max 0 (-config.memory.value)
  ledger : (value : Int) + config.memory.posts =
    config.memory.waits + config.memory.value + total waiting config.places
  served : 0 ≤ config.memory.value → config.memory.sem = 0 → total waiting config.places = 0

/-- The lock is free and the posts are conserved, or the lock is held. -/
def Sound (value : Nat) (config : Configuration Thread Memory Place) : Prop :=
  config.memory.lock = false → Conserved value config

/-- A step is not a handler of `sem_wait` that finds the value 0. -/
def Good (config : Configuration Thread Memory Place) (action : Thread × Label) : Prop :=
  action.2 = .go → Recognized (config.places action.1) config.memory

theorem Balanced.sound {config : Configuration Thread Memory Place}
    (balanced : Balanced value config.memory config.places) : Sound value config := by
  intro free
  have unlocked := balanced.locked
  rw [free] at unlocked
  have nothing := total_eq_zero_of_unmarked holding_of_releasing unlocked
  have balance := balanced.balance
  rw [nothing] at balance
  refine ⟨by omega, balanced.ledger, fun _ _ => by omega⟩

section Runs

variable [DecidableEq Thread]

/-- The handler that finds the value 0 leaves a release behind that nobody waits for. -/
theorem Balanced.broken {config : Configuration Thread Memory Place} {action : Thread × Label}
    (balanced : Balanced value config.memory config.places) (bad : ¬ Good config action) :
    ∃ after, (program value Thread).system.next config action = some after ∧
      ¬ Sound value after := by
  obtain ⟨memory, places⟩ := config
  obtain ⟨thread, label⟩ := action
  obtain ⟨rfl, mistaken⟩ := Classical.not_imp.mp bad
  obtain ⟨here, zero⟩ := Classical.not_imp.mp mistaken
  dsimp only at balanced here zero
  have zero : memory.value = 0 := not_not.mp zero
  have recognized : memory.cleanup .sem_wait = memory := if_pos ⟨rfl, zero⟩
  have stepped : (program value Thread).step thread memory (places thread) .go =
      some (memory.unlock, .outside) := by
    rw [here]
    exact congrArg (fun reached : Memory => some (reached.unlock, Place.outside)) recognized
  refine ⟨_, next_of_step stepped, fun sound => ?_⟩
  have after := (sound rfl).balance
  have waits := total_update waiting places thread .outside
  have holder : 0 < holding (places thread) := by
    rw [here]
    exact Nat.one_pos
  have alone := total_of_single holding_of_releasing
    (balanced.locked.le.trans (Bool.toNat_le memory.lock)) holder
  have before := balanced.balance
  rw [here] at waits alone
  simp only [waiting, releasing, Memory.unlock] at waits alone after
  omega

/-- In every run the posts are conserved whenever the lock is free exactly when no handler of
`sem_wait` finds the value 0. -/
theorem conserved_iff (value : Nat) (actions : List (Thread × Label)) :
    (program value Thread).system.Throughout (Sound value) (program value Thread).system.initial
        actions ↔
      (program value Thread).system.Along Good (program value Thread).system.initial actions := by
  apply System.throughout_iff_along _ fun config => Balanced value config.memory config.places
  · exact fun config => Balanced.sound
  · intro before action after balanced good taken
    obtain ⟨memory, place, stepped, rfl⟩ := next_iff.mp taken
    by_cases going : action.2 = .go
    · exact balanced.step (good going) (moves_of_step stepped)
    · apply balanced.step _ (moves_of_step stepped)
      intro here
      rw [here] at stepped
      cases label : action.2 <;> simp_all [program, Semaphore.step]
  · exact fun before action => Balanced.broken
  · exact balanced_start value

end Runs

/-- A waiter is cancelled, a post comes before its handler has the lock, and the handler takes the
semaphore for a destroyed one. -/
def forgotten : List (Bool × Label) :=
  [(true, .wait .sem_wait), (true, .go), (true, .cancel), (false, .post), (false, .go),
    (false, .go), (true, .go), (true, .go)]

/-- Then the post is left in the kernel semaphore although nobody waits. -/
theorem forgotten_not_conserved : ∃ config, (program 0 Bool).system.run forgotten = some config ∧
    config.memory.sem = 1 ∧ ¬ Sound 0 config :=
  ⟨_, rfl, rfl, fun sound => absurd (sound rfl).balance (by decide)⟩

end Semaphore

end CodeCollect.Pthreads
