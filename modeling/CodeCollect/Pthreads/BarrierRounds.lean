import CodeCollect.Pthreads.BarrierHistory

namespace CodeCollect.Pthreads

open CodeCollect.Library Program

namespace Barrier

variable {Thread : Type} {height base : Nat} {history : List Event} {memory next : Memory}

/-- A round is completed when the height is full again, and one call sees this. -/
structure Closed (height : Nat) (history : List Event) : Prop where
  complete : ∀ call, .passed call height ∈ history →
    height * (call / height + 1) ≤ passes history
  closer : ∀ round, height * (round + 1) ≤ passes history →
    ∃ call, call / height = round ∧ .passed call height ∈ history
  unique : ∀ call other, .passed call height ∈ history → .passed other height ∈ history →
    call / height = other / height → call = other

namespace Closed

theorem start (positive : 0 < height) : Closed height [] where
  complete _ passed := by simp at passed
  closer round full :=
    absurd (Nat.mul_pos positive (Nat.succ_pos round)) (not_lt.mpr full)
  unique _ _ passed := by simp at passed

theorem congr (closed : Closed height history) {later : List Event}
    (same : passes later = passes history)
    (passed : ∀ call current, Event.passed call current ∈ later ↔ .passed call current ∈ history) :
    Closed height later where
  complete call member := by
    rw [same]
    exact closed.complete call ((passed call height).mp member)
  closer round full := by
    rw [same] at full
    obtain ⟨call, within, member⟩ := closed.closer round full
    exact ⟨call, within, (passed call height).mpr member⟩
  unique call other member again :=
    closed.unique call other ((passed call height).mp member) ((passed other height).mp again)

/-- The call that finds the height full completes its round. -/
theorem pass (closed : Closed height history) {round call : Nat}
    {current : Int} (within : call / height = round)
    (begun : height * round ≤ passes history) (rest : passes history < height * round + height)
    (counted : current = passes history + 1 - height * round) :
    Closed height (.passed call current :: history) where
  complete other member := by
    rw [passes_passed]
    simp only [List.mem_cons, Event.passed.injEq] at member
    rcases member with ⟨rfl, full⟩ | earlier
    · rw [within, Nat.mul_succ]
      have base : ((height * round : Nat) : Int) = height * round := Nat.cast_mul height round
      omega
    · exact (closed.complete other earlier).trans (Nat.le_succ _)
  closer other full := by
    rw [passes_passed, Nat.mul_succ] at full
    by_cases earlier : height * other + height ≤ passes history
    · obtain ⟨closing, inside, member⟩ := closed.closer other (by rw [Nat.mul_succ]; exact earlier)
      exact ⟨closing, inside, List.mem_cons_of_mem _ member⟩
    · have same : other = round := by
        apply Nat.le_antisymm
        · by_contra later
          have above := Nat.mul_le_mul_left height (not_le.mp later)
          rw [Nat.succ_eq_add_one, Nat.mul_succ] at above
          omega
        · by_contra before
          have above := Nat.mul_le_mul_left height (not_le.mp before)
          rw [Nat.succ_eq_add_one, Nat.mul_succ] at above
          omega
      subst same
      refine ⟨call, within, List.mem_cons.mpr (Or.inl ?_)⟩
      rw [Event.passed.injEq]
      have base : ((height * other : Nat) : Int) = height * other := Nat.cast_mul height other
      omega
  unique first second one two same := by
    have open_ : ∀ other, .passed other height ∈ history → other / height ≠ round := by
      intro other member inside
      have full := closed.complete other member
      rw [inside, Nat.mul_succ] at full
      omega
    simp only [List.mem_cons, Event.passed.injEq] at one two
    rcases one with ⟨rfl, -⟩ | one
    · rcases two with ⟨rfl, -⟩ | two
      · rfl
      · exact absurd (same.symm.trans within) (open_ second two)
    · rcases two with ⟨rfl, -⟩ | two
      · exact absurd (same.trans within) (open_ first one)
      · exact closed.unique first second one two same

end Closed

/-- The result of a call tells whether it passed with the full height. -/
def Outcome (height : Nat) (history : List Event) (call : Nat) (result : Int) : Prop :=
  ∃ current : Int, .passed call current ∈ history ∧
    (Refused height ∨ (result = PTHREAD_BARRIER_SERIAL_THREAD ↔ current = height))

/-- The result of a call is known from the place of its thread. -/
def Settled (height : Nat) (history : List Event) : Place → Prop
  | .crossing _ result => Refused height ∨ result = 0
  | .opening call result => .passed call height ∈ history ∧ (Refused height ∨ result = 0)
  | .returning call result => Outcome height history call result
  | _ => True

theorem Outcome.mono {later : List Event} {call : Nat} {result : Int}
    (outcome : Outcome height history call result) (more : history ⊆ later) :
    Outcome height later call result := by
  obtain ⟨current, passed, told⟩ := outcome
  exact ⟨current, more passed, told⟩

theorem Settled.mono {later : List Event} {place : Place} (settled : Settled height history place)
    (more : history ⊆ later) : Settled height later place := by
  cases place with
  | opening => exact ⟨more settled.1, settled.2⟩
  | returning => exact Outcome.mono settled more
  | crossing => exact settled
  | _ => trivial

/-- Each move adds to the history and settles the place that it reaches. -/
theorem settled_of_moves {left place : Place} (settled : Settled height memory.history left)
    (moves : Moves height memory left next place) :
    memory.history ⊆ next.history ∧ Settled height next.history place := by
  cases moves with
  | arriveLast | arrive => exact ⟨List.subset_cons_self _ _, trivial⟩
  | leave => exact ⟨List.subset_cons_self _ _, trivial⟩
  | post | take => exact ⟨List.Subset.refl _, Or.inr rfl⟩
  | postFails refused => exact ⟨List.Subset.refl _, Or.inl refused⟩
  | crossLast last =>
      refine ⟨List.subset_cons_self _ _, List.mem_cons.mpr (Or.inl ?_), settled⟩
      rw [last]
  | cross more =>
      refine ⟨List.subset_cons_self _ _, memory.nCurrentBarrierHeight + 1, List.mem_cons_self,
        settled.imp_right fun good => ?_⟩
      subst good
      exact iff_of_false (by decide) more
  | openNext =>
      refine ⟨List.Subset.refl _, _, settled.1, settled.2.imp_right fun good => ?_⟩
      rw [if_pos good]
      exact iff_of_true rfl rfl
  | _ => exact ⟨List.Subset.refl _, trivial⟩

/-- This is what every step keeps. -/
structure Kept [Fintype Thread] (height round : Nat) (memory : Memory) (places : Thread → Place) :
    Prop where
  counted : Counted height (height * round) memory places
  stuck : Refused height → Stuck height (height * round) memory places
  traced : Traced (height * round) (fun thread => callOf (places thread)) memory.history
  closed : Closed height memory.history
  settled : ∀ thread, Settled height memory.history (places thread)
  returned : ∀ call result, .returned call result ∈ memory.history →
    Outcome height memory.history call result
  separated : Separated height memory.history

section Steps

variable [Fintype Thread] {round : Nat} {places : Thread → Place}

/-- A thread that crosses does so while the calls of the round pass. -/
theorem Counted.leaving (counted : Counted height base memory places) {thread : Thread}
    (here : 0 < crossing (places thread)) : Leaving height base memory places := by
  have present := le_total crossing places thread
  cases counted.phase with
  | filling phase =>
      have nobody := phase.nobody
      omega
  | starting phase =>
      have nobody := phase.nobody
      omega
  | leaving phase => exact phase
  | ending phase =>
      have balance := counted.balance
      have passed := phase.passed
      have full := phase.full
      omega

/-- A thread that arrives does so while the calls of the round arrive. -/
theorem Counted.filling (counted : Counted height base memory places) {thread : Thread}
    (here : 0 < acquiring (places thread)) : Filling height base memory places := by
  have present := le_total acquiring places thread
  have held := counted.held
  have one := one_holder memory.lock
  cases counted.phase with
  | filling phase => exact phase
  | starting phase | leaving phase | ending phase =>
      have kept := phase.kept
      omega

/-- A thread that opens the barrier does so after all calls of the round have passed. -/
theorem Counted.ending (counted : Counted height base memory places) {thread : Thread}
    (here : 0 < opening (places thread)) : Ending height base memory places := by
  have present := le_total opening places thread
  cases counted.phase with
  | filling phase | starting phase | leaving phase =>
      have nobody := phase.nobody
      omega
  | ending phase => exact phase

theorem inside_of_callOf {place : Place} {call : Nat} (here : callOf place = some call) :
    0 < transferring place + posting place + behind place + crossing place := by
  cases place <;> simp_all [callOf, transferring, posting, behind, crossing]

/-- Nobody is in a call when as many calls have passed as have arrived. -/
theorem Counted.nobody (counted : Counted height base memory places)
    (same : passes memory.history = arrivals memory.history) (thread : Thread) :
    callOf (places thread) = none := by
  by_contra some_call
  obtain ⟨call, here⟩ := Option.ne_none_iff_exists'.mp some_call
  have inside := inside_of_callOf here
  have balance := counted.balance
  have transferer := le_total transferring places thread
  have poster := le_total posting places thread
  have blocked := le_total behind places thread
  have crosser := le_total crossing places thread
  omega

/-- A call of an earlier round has passed. -/
theorem Kept.passed_of_lt (kept : Kept height round memory places) {earlier : Nat}
    (before : earlier < height * round) : Passed memory.history earlier := by
  have begun : height * round ≤ arrivals memory.history := by
    have balance := kept.counted.balance
    cases kept.counted.phase with
    | filling phase | starting phase =>
        have passed := phase.passed
        omega
    | leaving phase | ending phase =>
        have full := phase.full
        omega
  rcases kept.traced.known earlier (by omega) with passed | ⟨thread, here⟩
  · exact passed
  · have recent := kept.traced.recent thread earlier here
    omega

/-- The calls of this round have numbers below those of the next round. -/
theorem div_eq_round {call round : Nat} (low : height * round ≤ call)
    (high : call < height * round + height) : call / height = round := by
  apply Nat.div_eq_of_lt_le
  · rwa [Nat.mul_comm]
  · rw [Nat.succ_mul, Nat.mul_comm round]
    exact high

/-- All numbers of this round are below those of the next round. -/
theorem lt_of_div_le {call round : Nat} (positive : 0 < height) (within : call / height ≤ round) :
    call < height * round + height := by
  have below := (Nat.div_lt_iff_lt_mul positive).mp (Nat.lt_succ_of_le within)
  rwa [Nat.succ_mul, Nat.mul_comm round] at below

variable {thread : Thread} {place : Place}

/-- Each move keeps the rounds that are complete. -/
theorem Kept.closed_step (kept : Kept height round memory places)
    (moves : Moves height memory (places thread) next place) : Closed height next.history := by
  generalize here : places thread = left at moves
  cases moves with
  | arriveLast | arrive => exact kept.closed.congr (by simp [Memory.arrive]) (by simp [Memory.arrive])
  | leave => exact kept.closed.congr (by simp) (by simp)
  | crossLast | cross =>
      rename_i call result _
      have leaving := kept.counted.leaving
        (show 0 < crossing (places thread) by rw [here]; exact Nat.one_pos)
      have own : callOf (places thread) = some call := by rw [here, callOf]
      have recent := kept.traced.recent thread call own
      have inside := kept.traced.inside thread call own
      rw [leaving.full] at inside
      apply kept.closed.pass (div_eq_round recent inside) leaving.begun leaving.rest
      have current := leaving.current
      push_cast at current
      omega
  | _ => exact kept.closed

/-- Each move is allowed after the events before it. -/
theorem Kept.separated_step (kept : Kept height round memory places) (positive : 0 < height)
    (moves : Moves height memory (places thread) next place) :
    Separated height next.history := by
  generalize here : places thread = left at moves
  cases moves with
  | arriveLast | arrive =>
      have filling := kept.counted.filling
        (show 0 < acquiring (places thread) by rw [here]; exact Nat.one_pos)
      have balance := kept.counted.balance
      have passed := filling.passed
      have within : arrivals memory.history / height = round :=
        div_eq_round (by omega) filling.room
      refine ⟨⟨rfl, fun earlier before => kept.passed_of_lt ?_⟩, kept.separated⟩
      rw [within, Nat.div_lt_iff_lt_mul positive] at before
      rwa [Nat.mul_comm] at before
  | leave =>
      have settled := kept.settled thread
      rw [here] at settled
      obtain ⟨current, member, _⟩ := settled
      exact ⟨fun other same => kept.separated.arrived_of_passed ⟨current, member⟩ same,
        kept.separated⟩
  | crossLast | cross =>
      rename_i call result _
      have leaving := kept.counted.leaving
        (show 0 < crossing (places thread) by rw [here]; exact Nat.one_pos)
      have own : callOf (places thread) = some call := by rw [here, callOf]
      have recent := kept.traced.recent thread call own
      have inside := kept.traced.inside thread call own
      rw [leaving.full] at inside
      refine ⟨fun other same => kept.traced.arrived other ?_, kept.separated⟩
      rw [leaving.full]
      exact lt_of_div_le positive (same.trans (div_eq_round recent inside)).le
  | _ => exact kept.separated

/-- Each move keeps the results of the calls that have returned. -/
theorem Kept.returned_step (kept : Kept height round memory places)
    (moves : Moves height memory (places thread) next place) (call : Nat) (result : Int)
    (member : .returned call result ∈ next.history) :
    Outcome height next.history call result := by
  have settled := kept.settled thread
  have more := (settled_of_moves settled moves).1
  generalize here : places thread = left at moves settled
  suffices earlier : Outcome height memory.history call result from earlier.mono more
  cases moves with
  | arriveLast | arrive | crossLast | cross =>
      simp only [Memory.arrive, Memory.cross, List.mem_cons, reduceCtorEq, false_or] at member
      exact kept.returned call result member
  | leave =>
      simp only [List.mem_cons, Event.returned.injEq] at member
      rcases member with ⟨rfl, rfl⟩ | earlier
      · exact settled
      · exact kept.returned call result earlier
  | _ => exact kept.returned call result member

variable [DecidableEq Thread]

omit [Fintype Thread] in
theorem calls_update (places : Thread → Place) (thread : Thread) (place : Place) :
    (fun other => callOf (Function.update places thread place other)) =
      Function.update (fun other => callOf (places other)) thread (callOf place) := by
  funext other
  by_cases same : other = thread
  · subst same
    simp
  · simp [same]

omit [Fintype Thread] in
/-- A thread that stays in its call leaves all calls as they are. -/
theorem calls_same (same : callOf place = callOf (places thread)) :
    (fun other => callOf (Function.update places thread place other)) =
      fun other => callOf (places other) := by
  rw [calls_update, same, Function.update_eq_self_iff]

/-- Each move keeps the trace of the calls. -/
theorem Kept.traced_step (kept : Kept height round memory places)
    (moves : Moves height memory (places thread) next place) :
    Traced (height * (round + opening (places thread)))
      (fun other => callOf (Function.update places thread place other)) next.history := by
  generalize here : places thread = left at moves
  have advanced : opening left = 0 → height * (round + opening left) = height * round := by
    intro zero
    rw [zero, Nat.add_zero]
  cases moves with
  | arriveLast | arrive =>
      have filling := kept.counted.filling
        (show 0 < acquiring (places thread) by rw [here]; exact Nat.one_pos)
      have balance := kept.counted.balance
      rw [advanced rfl, calls_update]
      apply kept.traced.arrive
      · rw [here]
        rfl
      · have passed := filling.passed
        omega
  | crossLast | cross =>
      rw [advanced rfl, calls_update]
      exact kept.traced.pass (by rw [here, callOf]) _
  | leave =>
      rw [advanced rfl, calls_same (by rw [here]; rfl)]
      exact kept.traced.leave _ _
  | openNext =>
      have ending := kept.counted.ending
        (show 0 < opening (places thread) by rw [here]; exact Nat.one_pos)
      rw [calls_same (by rw [here]; rfl)]
      exact kept.traced.advance (kept.counted.nobody (ending.passed.trans ending.full.symm)) _
  | _ =>
      rw [advanced rfl, calls_same (by rw [here]; rfl)]
      exact kept.traced

/-- Each move keeps everything, and the move that releases the lock begins the next round. -/
theorem Kept.step (kept : Kept height round memory places) (positive : 0 < height)
    (moves : Moves height memory (places thread) next place) :
    Kept height (round + opening (places thread)) next (Function.update places thread place) where
  counted := by
    rw [Nat.mul_add]
    exact kept.counted.step positive moves
  stuck refused := by
    obtain ⟨same, stuck⟩ := (kept.stuck refused).step refused kept.counted moves
    rwa [same, Nat.add_zero]
  traced := kept.traced_step moves
  closed := kept.closed_step moves
  settled := by
    obtain ⟨more, settled⟩ := settled_of_moves (kept.settled thread) moves
    exact forall_update (fun other => (kept.settled other).mono more) settled
  returned := kept.returned_step moves
  separated := kept.separated_step positive moves

end Steps

section Results

variable [Fintype Thread] {round : Nat} {places : Thread → Place}

theorem Counted.bounds (counted : Counted height base memory places) :
    base ≤ passes memory.history ∧ arrivals memory.history ≤ base + height ∧
      0 ≤ memory.nCurrentBarrierHeight ∧ memory.nCurrentBarrierHeight ≤ height := by
  have balance := counted.balance
  cases counted.phase with
  | filling phase =>
      obtain ⟨nobody, passed, room, current, unposted⟩ := phase
      omega
  | starting phase =>
      obtain ⟨last, kept, nobody, passed, full, current, unposted⟩ := phase
      omega
  | leaving phase =>
      obtain ⟨nobody, kept, begun, rest, full, current, enough⟩ := phase
      omega
  | ending phase =>
      obtain ⟨last, kept, passed, full, current, unposted⟩ := phase
      omega

theorem callOf_of_inside {place : Place} (nothing : callOf place = none) :
    transferring place + posting place + behind place + crossing place = 0 := by
  cases place <;> simp_all [callOf, transferring, posting, behind, crossing]

/-- As many calls have passed as have arrived when nobody is in a call. -/
theorem Counted.all_passed (counted : Counted height base memory places)
    (nobody : ∀ thread, callOf (places thread) = none) :
    passes memory.history = arrivals memory.history := by
  have balance := counted.balance
  have transferred : total transferring places = 0 := total_eq_zero.mpr fun thread => by
    have nothing := callOf_of_inside (nobody thread)
    omega
  have posted : total posting places = 0 := total_eq_zero.mpr fun thread => by
    have nothing := callOf_of_inside (nobody thread)
    omega
  have unblocked : total behind places = 0 := total_eq_zero.mpr fun thread => by
    have nothing := callOf_of_inside (nobody thread)
    omega
  have crossed : total crossing places = 0 := total_eq_zero.mpr fun thread => by
    have nothing := callOf_of_inside (nobody thread)
    omega
  omega

/-- A round whose calls have all passed is complete. -/
theorem Kept.complete (kept : Kept height round memory places) (positive : 0 < height)
    {done : Nat} (passed : ∀ call, call / height = done → Passed memory.history call) :
    height * (done + 1) ≤ passes memory.history := by
  obtain ⟨begun, room, -, -⟩ := kept.counted.bounds
  rcases Nat.lt_or_ge done round with earlier | late
  · exact (Nat.mul_le_mul_left height earlier).trans begun
  · have last : height * done + height - 1 < arrivals memory.history :=
      kept.traced.passed _ (passed _ (div_eq_round (by omega) (by omega)))
    have same : done = round := by
      by_contra differ
      have later := Nat.mul_le_mul_left height
        (show round + 1 ≤ done from lt_of_le_of_ne late (Ne.symm differ))
      rw [Nat.mul_succ] at later
      omega
    subst same
    have nobody : ∀ thread, callOf (places thread) = none := by
      intro thread
      by_contra some_call
      obtain ⟨call, here⟩ := Option.ne_none_iff_exists'.mp some_call
      have recent := kept.traced.recent thread call here
      have inside := kept.traced.inside thread call here
      exact kept.traced.fresh thread call here (passed call (div_eq_round recent (by omega)))
    have all := kept.counted.all_passed nobody
    rw [Nat.mul_succ]
    omega

/-- No round is complete when the semaphore refuses the posts. -/
theorem Kept.not_refused (kept : Kept height round memory places) {done : Nat}
    (complete : height * (done + 1) ≤ passes memory.history) : ¬ Refused height := by
  intro refused
  obtain ⟨first, -, blocked⟩ := kept.stuck refused
  obtain ⟨begun, room, -, -⟩ := kept.counted.bounds
  have balance := kept.counted.balance
  have full : height ≤ height * (done + 1) := Nat.le_mul_of_pos_right height (Nat.succ_pos done)
  have rest := blocked (by omega)
  unfold Refused at refused
  omega

/-- Rounds do not overlap, one call of each round is told, and the height stays in its range. -/
structure Rounds (height : Nat) (memory : Memory) : Prop where
  separated : Separated height memory.history
  serial : ∀ round,
    (∀ call, call / height = round → ∃ result, .returned call result ∈ memory.history) →
      ∃! call, call / height = round ∧
        .returned call PTHREAD_BARRIER_SERIAL_THREAD ∈ memory.history
  within : 0 ≤ memory.nCurrentBarrierHeight ∧ memory.nCurrentBarrierHeight ≤ height

theorem Kept.round_counts (kept : Kept height round memory places) (positive : 0 < height) :
    Rounds height memory where
  separated := kept.separated
  serial done returned := by
    have complete := kept.complete positive fun call within => by
      obtain ⟨result, member⟩ := returned call within
      obtain ⟨current, passed, _⟩ := kept.returned call result member
      exact ⟨current, passed⟩
    have permitted := kept.not_refused complete
    obtain ⟨call, within, closing⟩ := kept.closed.closer done complete
    have told : ∀ other result, .returned other result ∈ memory.history →
        (result = PTHREAD_BARRIER_SERIAL_THREAD ↔ .passed other height ∈ memory.history) := by
      intro other result member
      obtain ⟨current, passed, refused | serial⟩ := kept.returned other result member
      · exact absurd refused permitted
      · rw [serial]
        constructor
        · rintro rfl
          exact passed
        · exact kept.traced.once other current height passed
    obtain ⟨result, member⟩ := returned call within
    have serial := (told call result member).mpr closing
    subst serial
    refine ⟨call, ⟨within, member⟩, fun other again => ?_⟩
    have also := (told other _ again.2).mp rfl
    exact kept.closed.unique other call also closing (again.1.trans within.symm)
  within := kept.counted.bounds.2.2

theorem kept_start (positive : 0 < height) :
    Kept height 0 (program height Thread).memory fun _ : Thread => (program height Thread).entry := by
  have transferred : total transferring (fun _ : Thread => Place.outside) = 0 := total_entry rfl
  have posted : total posting (fun _ : Thread => Place.outside) = 0 := total_entry rfl
  have unblocked : total behind (fun _ : Thread => Place.outside) = 0 := total_entry rfl
  have crossed : total crossing (fun _ : Thread => Place.outside) = 0 := total_entry rfl
  have opened : total opening (fun _ : Thread => Place.outside) = 0 := total_entry rfl
  have acquired : total acquiring (fun _ : Thread => Place.outside) = 0 := total_entry rfl
  constructor
  case counted =>
    refine ⟨?_, ?_, .filling ⟨?_, rfl, ?_, ?_, rfl⟩⟩
    all_goals simp only [program, transferred, posted, unblocked, crossed, opened, acquired,
      arrivals, passes, byThread_none, byBarrier_none]
    all_goals omega
  case stuck =>
    intro refused
    refine ⟨Nat.mul_zero height, rfl, fun full => ?_⟩
    simp only [program, arrivals] at full
    omega
  case traced => exact Traced.start
  case closed => exact Closed.start positive
  case settled => exact fun _ => trivial
  case returned => exact fun _ _ member => absurd member (by simp [program])
  case separated => trivial

variable [DecidableEq Thread]

/-- In every reachable state of a barrier of any height, used by any threads, the rounds are
separated. -/
theorem rounds {config : Configuration Thread Memory Place} (positive : 0 < height)
    (reached : (program height Thread).system.Reachable System.Always config) :
    Rounds height config.memory := by
  obtain ⟨round, kept⟩ : ∃ round, Kept height round config.memory config.places := by
    apply Program.invariant reached fun memory places => ∃ round, Kept height round memory places
    · exact ⟨0, kept_start positive⟩
    · rintro memory places thread label next place ⟨round, kept⟩ - taken
      exact ⟨_, kept.step positive (moves_of_step taken)⟩
  exact kept.round_counts positive

end Results

local instance threads_ne_zero : NeZero 3 := ⟨by decide⟩

/-- Two threads meet at a barrier of height 2, and a third one comes for the next round. -/
def meeting : List (Fin 3 × Unit) :=
  [(0, ()), (0, ()), (0, ()), (1, ()), (1, ()), (1, ()), (1, ()), (1, ()), (0, ()), (0, ()),
    (0, ()), (0, ()), (2, ()), (2, ()), (1, ())]

theorem meeting_rounds : ∃ config, (program 2 (Fin 3)).system.run meeting = some config ∧
    .returned 0 PTHREAD_BARRIER_SERIAL_THREAD ∈ config.memory.history ∧
      .arrived 2 ∈ config.memory.history ∧ Rounds 2 config.memory := by
  obtain ⟨config, ran, serial, again⟩ : ∃ config,
      (program 2 (Fin 3)).system.run meeting = some config ∧
        .returned 0 PTHREAD_BARRIER_SERIAL_THREAD ∈ config.memory.history ∧
          .arrived 2 ∈ config.memory.history :=
    ⟨_, rfl, by decide, by decide⟩
  exact ⟨config, ran, serial, again, rounds Nat.two_pos (System.reachable_of_run ran)⟩

end Barrier

end CodeCollect.Pthreads
