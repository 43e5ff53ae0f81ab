import CodeCollect.Pthreads.EventSemaphore

namespace CodeCollect.Pthreads

open CodeCollect.Library Program

namespace EventSemaphore

/-- These are all moves of one thread, each with what it needs and what it changes. -/
inductive Moves : Memory → Place → Memory → Place → Prop
  | enter {memory : Memory} {call : Call} : memory.lock = false →
      Moves memory .outside { memory with lock := true } (.decrementing call)
  | enterPost {memory : Memory} : memory.lock = false →
      Moves memory .outside { memory with lock := true } .posting
  | enterMultiple {memory : Memory} {count : ℕ+} : memory.lock = false →
      Moves memory .outside { memory with lock := true } (.postingMultiple count)
  | refuse {memory : Memory} : Moves memory .outside memory .outside
  | queue {memory : Memory} {call : Call} : memory.value - 1 < 0 →
      Moves memory (.decrementing call) { memory with value := memory.value - 1 }.unlock .waiting
  | pass {memory : Memory} : ¬ memory.value - 1 < 0 →
      Moves memory (.decrementing .sem_wait) { memory with value := memory.value - 1 }.unlock
        (.returning false)
  | decrement {memory : Memory} {call : Call} : ¬ memory.value - 1 < 0 →
      Moves memory (.decrementing call) { memory with value := memory.value - 1 }.unlock .outside
  | wake {memory : Memory} : memory.event = true →
      Moves memory .waiting { memory with event := false } (.returning true)
  | enterLast {memory : Memory} {released : Bool} : memory.lock = false →
      Moves memory (.returning released) { memory with lock := true } (.handing released)
  | hand {memory : Memory} {released : Bool} : 0 < memory.leftToUnblock →
      Moves memory (.handing released)
        { memory with leftToUnblock := memory.leftToUnblock - 1, event := true }.unlock .outside
  | leave {memory : Memory} {released : Bool} : ¬ 0 < memory.leftToUnblock →
      Moves memory (.handing released) memory.unlock .outside
  | post {memory : Memory} : memory.value + 1 ≤ 0 →
      Moves memory .posting { memory with value := memory.value + 1 } .setting
  | raise {memory : Memory} : ¬ memory.value + 1 ≤ 0 →
      Moves memory .posting { memory with value := memory.value + 1 }.unlock .outside
  | full {memory : Memory} : Moves memory .posting memory.unlock .outside
  | set {memory : Memory} :
      Moves memory .setting { memory with event := true }.unlock .outside
  | postMultiple {memory : Memory} {count : ℕ+} : 0 < -memory.value →
      Moves memory (.postingMultiple count) { memory with value := memory.value + count }
        (.settingMultiple (-memory.value) count)
  | raiseMultiple {memory : Memory} {count : ℕ+} : ¬ 0 < -memory.value →
      Moves memory (.postingMultiple count) { memory with value := memory.value + count }.unlock
        .outside
  | fullMultiple {memory : Memory} {count : ℕ+} :
      Moves memory (.postingMultiple count) memory.unlock .outside
  | setMultiple {memory : Memory} {waiters left : Int} {count : ℕ+} :
      left = min (waiters - 1) (memory.leftToUnblock + (count - 1)) →
      Moves memory (.settingMultiple waiters count)
        { memory with event := true, leftToUnblock := left }.unlock .outside

/-- The lock is taken when it is free. -/
theorem moves_of_acquire {memory next : Memory} {left target place : Place}
    (taken : memory.acquire target = some (next, place))
    (moves : memory.lock = false → Moves memory left { memory with lock := true } target) :
    Moves memory left next place := by
  unfold Memory.acquire at taken
  split at taken
  · exact absurd taken (by simp)
  · rename_i free
    exact step_some taken (moves (by simpa using free))

theorem moves_of_decrement {memory : Memory} {call : Call} :
    Moves memory (.decrementing call) (memory.decrement call).1 (memory.decrement call).2 := by
  unfold Memory.decrement
  split
  · exact .queue ‹_›
  · split
    · rename_i called
      subst called
      exact .pass ‹_›
    · exact .decrement ‹_›

theorem moves_of_hand {memory : Memory} {released : Bool} :
    Moves memory (.handing released) memory.hand.unlock .outside := by
  unfold Memory.hand
  split
  · exact .hand ‹_›
  · exact .leave ‹_›

theorem moves_of_post {memory : Memory} :
    Moves memory .posting memory.post.1 memory.post.2 := by
  unfold Memory.post
  split
  · split
    · exact .post ‹_›
    · exact .raise ‹_›
  · exact .full

theorem moves_of_postMultiple {memory : Memory} {count : ℕ+} :
    Moves memory (.postingMultiple count) (memory.postMultiple count).1
      (memory.postMultiple count).2 := by
  unfold Memory.postMultiple
  split
  · split
    · exact .postMultiple ‹_›
    · exact .raiseMultiple ‹_›
  · exact .fullMultiple

/-- Every step is one of the moves. -/
theorem moves_of_step {memory next : Memory} {place reached : Place} {label : Label}
    (taken : step memory place label = some (next, reached)) :
    Moves memory place next reached := by
  unfold step at taken
  split at taken
  case h_1 => exact moves_of_acquire taken .enter
  case h_2 => exact moves_of_acquire taken .enterPost
  case h_3 =>
      split at taken
      · exact moves_of_acquire taken .enterMultiple
      · exact step_some taken .refuse
  case h_4 => exact step_some taken moves_of_decrement
  case h_5 => exact step_when taken .wake
  case h_6 => exact moves_of_acquire taken .enterLast
  case h_7 => exact step_some taken moves_of_hand
  case h_8 => exact step_some taken moves_of_post
  case h_9 => exact step_some taken .set
  case h_10 => exact step_some taken moves_of_postMultiple
  case h_11 =>
      refine step_some taken (.setMultiple ?_)
      split <;> omega
  case h_12 => exact absurd taken (by simp)

/-- A thread is blocked on the event from its decrement until it takes the event. -/
def waiting : Place → Nat
  | .waiting => 1
  | _ => 0

/-- A released waiter is still in its call. -/
def released : Place → Nat
  | .returning woken | .handing woken => woken.toNat
  | _ => 0

/-- A thread is inside a critical section. -/
def holding : Place → Nat
  | .decrementing _ | .handing _ | .posting | .setting | .postingMultiple _
  | .settingMultiple _ _ => 1
  | _ => 0

/-- The value shows these waiters as released, but the event is not set yet. -/
def owed : Place → Nat
  | .setting => 1
  | .settingMultiple waiters count => (min waiters count).toNat
  | _ => 0

/-- The value had shown some waiter when the section began. -/
def Waited : Place → Prop
  | .settingMultiple waiters _ => 0 < waiters
  | _ => True

variable {Thread : Type} [Fintype Thread] {memory next : Memory} {places : Thread → Place}

/-- Some waiters are lost, and each other one is blocked for a reason. -/
structure Counted (lost : Nat) (memory : Memory) (places : Thread → Place) : Prop where
  locked : total holding places = memory.lock.toNat
  balance : (total waiting places : Int) = memory.event.toNat + memory.leftToUnblock +
    total owed places + max 0 (-memory.value) + lost
  leftNonneg : 0 ≤ memory.leftToUnblock
  chained : 0 < memory.leftToUnblock → 0 < memory.event.toNat + total released places
  waited : ∀ thread, Waited (places thread)

/-- The event is reset when it is set, and no waiter is already left to unblock when more are
released than the event can tell. -/
def Heard (place : Place) (memory : Memory) : Prop :=
  match place with
  | .handing _ => 0 < memory.leftToUnblock → memory.event = false
  | .setting => memory.event = false
  | .settingMultiple waiters count => memory.event = false ∧
      (memory.leftToUnblock = 0 ∨ memory.leftToUnblock + count ≤ waiters)
  | _ => True

theorem holding_of_owed (place : Place) (some_owed : 0 < owed place) : 0 < holding place := by
  cases place <;> simp_all [owed, holding]

/-- No waiter is lost when the event is reset. -/
theorem lost_iff (lost : Nat) (event : Bool) : lost + event.toNat = lost ↔ event = false := by
  cases event <;> simp

/-- No waiter is lost when the event is reset and the cap on those left to unblock does not bite. -/
theorem lost_multiple_iff (lost : Nat) (event : Bool) (waiters count : Int) {left : Int}
    (leftNonneg : 0 ≤ left) :
    lost + (event.toNat + (left + min waiters count - min waiters (left + count))).toNat = lost ↔
      event = false ∧ (left = 0 ∨ left + count ≤ waiters) := by
  cases event with
  | false =>
      simp only [Bool.toNat_false, true_and]
      omega
  | true =>
      simp only [Bool.toNat_true, Bool.true_eq_false, false_and, iff_false]
      omega

section Steps

variable [DecidableEq Thread] {lost : Nat} {thread : Thread} {place : Place}

/-- Each move keeps the reasons, and it loses a waiter exactly when the event cannot tell of all
that are released. -/
theorem Counted.step (counted : Counted lost memory places)
    (moves : Moves memory (places thread) next place) :
    ∃ more, lost ≤ more ∧ Counted more next (Function.update places thread place) ∧
      (more = lost ↔ Heard (places thread) memory) := by
  obtain ⟨locked, balance, leftNonneg, chained, waited⟩ := counted
  have here := waited thread
  have holds := total_update holding places thread place
  have waits := total_update waiting places thread place
  have releases := total_update released places thread place
  have owes := total_update owed places thread place
  have present := le_total holding places thread
  have single := Bool.toNat_le memory.lock
  have known : Waited place → ∀ other, Waited (Function.update places thread place other) :=
    forall_update waited
  generalize places thread = left at *
  cases moves
  case enter free | enterPost free | enterMultiple free | enterLast free =>
    rw [free] at locked
    refine ⟨lost, le_rfl, ⟨?_, ?_, leftNonneg, ?_, known trivial⟩, by simp [Heard]⟩
    all_goals
      simp only [holding, waiting, released, owed, Bool.toNat_true, Bool.toNat_false] at *
      omega
  case refuse =>
    refine ⟨lost, le_rfl, ⟨?_, ?_, leftNonneg, ?_, known trivial⟩, by simp [Heard]⟩
    all_goals
      simp only [holding, waiting, released, owed] at *
      omega
  case wake set =>
    rw [set] at balance chained
    refine ⟨lost, le_rfl, ⟨?_, ?_, leftNonneg, ?_, known trivial⟩, by simp [Heard]⟩
    all_goals
      simp only [holding, waiting, released, owed, Bool.toNat_true, Bool.toNat_false] at *
      omega
  case hand some_left =>
    refine ⟨lost + memory.event.toNat, by omega, ⟨?_, ?_, ?_, ?_, known trivial⟩, ?_⟩
    case refine_5 =>
      rw [lost_iff]
      exact ⟨fun reset _ => reset, fun heard => heard some_left⟩
    all_goals
      simp only [holding, waiting, released, owed, Memory.unlock, Bool.toNat_true,
        Bool.toNat_false] at *
      omega
  case leave nothing =>
    refine ⟨lost, le_rfl, ⟨?_, ?_, leftNonneg, ?_, known trivial⟩,
      fun _ some_left => absurd some_left nothing, fun _ => rfl⟩
    all_goals
      simp only [holding, waiting, released, owed, Memory.unlock, Bool.toNat_false] at *
      omega
  case set =>
    refine ⟨lost + memory.event.toNat, by omega, ⟨?_, ?_, leftNonneg, ?_, known trivial⟩, ?_⟩
    case refine_4 => exact lost_iff lost memory.event
    all_goals
      simp only [holding, waiting, released, owed, Memory.unlock, Bool.toNat_true,
        Bool.toNat_false] at *
      omega
  case postMultiple count some_wait =>
    have positive := count.pos
    refine ⟨lost, le_rfl, ⟨?_, ?_, leftNonneg, ?_, known some_wait⟩, by simp [Heard]⟩
    all_goals
      simp only [holding, waiting, released, owed] at *
      omega
  case setMultiple waiters left count capped =>
    have positive := count.pos
    simp only [Waited] at here
    refine ⟨lost + (memory.event.toNat + (memory.leftToUnblock + min waiters count -
      min waiters (memory.leftToUnblock + count))).toNat, by omega,
      ⟨?_, ?_, ?_, ?_, known trivial⟩, ?_⟩
    case refine_5 =>
      exact lost_multiple_iff lost memory.event waiters count leftNonneg
    all_goals
      simp only [holding, waiting, released, owed, Memory.unlock, Bool.toNat_true,
        Bool.toNat_false] at *
      omega
  all_goals
    refine ⟨lost, le_rfl, ⟨?_, ?_, leftNonneg, ?_, known trivial⟩, by simp [Heard]⟩
    all_goals
      simp only [holding, waiting, released, owed, Memory.unlock, Bool.toNat_false] at *
      omega

omit [DecidableEq Thread] in
theorem counted_start (value : Nat) : Counted 0 (program value Thread).memory
    fun _ : Thread => (program value Thread).entry where
  locked := total_entry rfl
  balance := by
    have nobody : total waiting (fun _ : Thread => Place.outside) = 0 := total_entry rfl
    have nothing : total owed (fun _ : Thread => Place.outside) = 0 := total_entry rfl
    simp only [program, nobody, nothing, Bool.toNat_false]
    omega
  leftNonneg := le_rfl
  chained nothing := absurd nothing (lt_irrefl _)
  waited _ := trivial

/-- The lock is free, no released waiter is in its call and the event is reset. -/
structure Quiet (config : Configuration Thread Memory Place) : Prop where
  free : config.memory.lock = false
  nobody : ∀ thread, released (config.places thread) = 0
  reset : config.memory.event = false

/-- As many threads are blocked on the event as the value says. -/
def Served (config : Configuration Thread Memory Place) : Prop :=
  (total waiting config.places : Int) = max 0 (-config.memory.value)

/-- The event can tell of all waiters that a step releases. -/
def Good (config : Configuration Thread Memory Place) (action : Thread × Label) : Prop :=
  Heard (config.places action.1) config.memory

omit [DecidableEq Thread] in
/-- When everything is quiet, the lost waiters are those that the value does not show. -/
theorem Counted.lost_eq {config : Configuration Thread Memory Place}
    (counted : Counted lost config.memory config.places) (quiet : Quiet config) :
    (total waiting config.places : Int) = max 0 (-config.memory.value) + lost := by
  have unlocked := counted.locked
  rw [quiet.free] at unlocked
  have nothing := total_eq_zero_of_unmarked holding_of_owed unlocked
  have nobody : total released config.places = 0 := total_eq_zero.mpr quiet.nobody
  have balance := counted.balance
  have chained := counted.chained
  have leftNonneg := counted.leftNonneg
  rw [quiet.reset] at balance chained
  simp only [nothing, nobody, Bool.toNat_false] at balance chained
  omega

/-- A run that ends quietly strands no waiter exactly when the event could tell of all waiters
that were released. -/
theorem served_iff (value : Nat) {actions : List (Thread × Label)}
    {config : Configuration Thread Memory Place}
    (ran : (program value Thread).system.run actions = some config) (quiet : Quiet config) :
    Served config ↔
      (program value Thread).system.Along Good (program value Thread).system.initial actions := by
  obtain ⟨lost, -, counted, good⟩ : ∃ lost, 0 ≤ lost ∧
      Counted lost config.memory config.places ∧ (lost = 0 ↔
        (program value Thread).system.Along Good (program value Thread).system.initial actions) := by
    apply System.along_iff_kept _ (fun lost config => Counted lost config.memory config.places) _
      (counted_start value) ran
    intro lost before action after counted taken
    obtain ⟨memory, place, stepped, rfl⟩ := next_iff.mp taken
    exact counted.step (moves_of_step stepped)
  have stranded := counted.lost_eq quiet
  rw [← good, Served]
  omega

end Steps

local instance threads_ne_zero : NeZero 3 := ⟨by decide⟩

/-- Two threads wait and one of them is served by a post. -/
def handedOn : List (Fin 3 × Label) :=
  [(0, .wait .sem_wait), (0, .go), (1, .wait .ptw32_semwait), (1, .go), (2, .postMultiple 2),
    (2, .go), (2, .go), (0, .go), (0, .go), (0, .go), (1, .go), (1, .go), (1, .go)]

/-- Two waiters are released by one call, and each of them sets the event for the next one. -/
theorem handedOn_served : ∃ config, (program 0 (Fin 3)).system.run handedOn = some config ∧
    Quiet config ∧ (Served config ↔
      (program 0 (Fin 3)).system.Along Good (program 0 (Fin 3)).system.initial handedOn) :=
  ⟨_, rfl, ⟨rfl, by decide, rfl⟩, served_iff 0 rfl ⟨rfl, by decide, rfl⟩⟩

/-- Two threads wait and two posts come before one of them runs. -/
def merged : List (Fin 3 × Label) :=
  [(0, .wait .sem_wait), (0, .go), (1, .wait .sem_wait), (1, .go), (2, .post), (2, .go), (2, .go),
    (2, .post), (2, .go), (2, .go), (0, .go), (0, .go), (0, .go)]

/-- The event has told of one post only, and one thread stays blocked although the value is 0. -/
theorem merged_not_served : ∃ config, (program 0 (Fin 3)).system.run merged = some config ∧
    Quiet config ∧ ¬ Served config :=
  ⟨_, rfl, ⟨rfl, by decide, rfl⟩, by unfold Served; decide⟩

end EventSemaphore

end CodeCollect.Pthreads
