import CodeCollect.Pthreads.Barrier

namespace CodeCollect.Pthreads

open CodeCollect.Library Program

namespace Barrier

@[simp] theorem arrivals_arrived (call : Nat) (before : List Event) :
    arrivals (.arrived call :: before) = arrivals before + 1 := rfl

@[simp] theorem arrivals_passed (call : Nat) (height : Int) (before : List Event) :
    arrivals (.passed call height :: before) = arrivals before := rfl

@[simp] theorem arrivals_returned (call : Nat) (result : Int) (before : List Event) :
    arrivals (.returned call result :: before) = arrivals before := rfl

@[simp] theorem passes_arrived (call : Nat) (before : List Event) :
    passes (.arrived call :: before) = passes before := rfl

@[simp] theorem passes_passed (call : Nat) (height : Int) (before : List Event) :
    passes (.passed call height :: before) = passes before + 1 := rfl

@[simp] theorem passes_returned (call : Nat) (result : Int) (before : List Event) :
    passes (.returned call result :: before) = passes before := rfl

/-- `sem_post_multiple` refuses to release so many threads. -/
def Refused (height : Nat) : Prop := Semaphore.SEM_VALUE_MAX.toNat < height - 1

/-- These are all moves of one thread, each with what it needs and what it changes. -/
inductive Moves (height : Nat) : Memory → Place → Memory → Place → Prop
  | enter {memory : Memory} : memory.lock = none →
      Moves height memory .outside { memory with lock := some .node } .entered
  | arriveLast {memory : Memory} : memory.nCurrentBarrierHeight - 1 = 0 →
      Moves height memory .entered memory.arrive.1 (.transferring (arrivals memory.history))
  | arrive {memory : Memory} : memory.nCurrentBarrierHeight - 1 ≠ 0 →
      Moves height memory .entered memory.arrive.1 (.releasing (arrivals memory.history))
  | transfer {memory : Memory} {call : Nat} :
      Moves height memory (.transferring call) { memory with lock := some .proxynode }
        (.posting call)
  | post {memory : Memory} {call : Nat} : ¬ Refused height →
      Moves height memory (.posting call)
        { memory with semBarrierBreeched := memory.semBarrierBreeched + (height - 1) }
        (.crossing call 0)
  | postFails {memory : Memory} {call : Nat} : Refused height →
      Moves height memory (.posting call) memory (.crossing call (-1))
  | release {memory : Memory} {call : Nat} :
      Moves height memory (.releasing call) { memory with lock := none } (.waiting call)
  | take {memory : Memory} {call : Nat} : 0 < memory.semBarrierBreeched →
      Moves height memory (.waiting call)
        { memory with semBarrierBreeched := memory.semBarrierBreeched - 1 } (.crossing call 0)
  | crossLast {memory : Memory} {call : Nat} {result : Int} :
      memory.nCurrentBarrierHeight + 1 = height →
      Moves height memory (.crossing call result) (memory.cross height call result).1
        (.opening call result)
  | cross {memory : Memory} {call : Nat} {result : Int} :
      memory.nCurrentBarrierHeight + 1 ≠ height →
      Moves height memory (.crossing call result) (memory.cross height call result).1
        (.returning call result)
  | openNext {memory : Memory} {call : Nat} {result : Int} :
      Moves height memory (.opening call result) { memory with lock := none }
        (.returning call (if result = 0 then PTHREAD_BARRIER_SERIAL_THREAD else result))
  | leave {memory : Memory} {call : Nat} {result : Int} :
      Moves height memory (.returning call result)
        { memory with history := .returned call result :: memory.history } .outside

theorem moves_of_post {height : Nat} {memory : Memory} {call : Nat} :
    Moves height memory (.posting call) (memory.post height).1
      (.crossing call (memory.post height).2) := by
  unfold Memory.post
  split
  · split
    · exact .post (by unfold Refused; omega)
    · exact .postFails (by unfold Refused; omega)
  · have single : height - 1 = 0 := by omega
    have permitted : ¬ Refused height := by
      unfold Refused
      omega
    have posted : Moves height memory (.posting call) _ _ := .post permitted
    rwa [single] at posted

/-- Every step is one of the moves. -/
theorem moves_of_step {height : Nat} {memory next : Memory} {place reached : Place}
    (taken : step height memory place = some (next, reached)) :
    Moves height memory place next reached := by
  cases place with
  | outside => exact step_when taken .enter
  | entered =>
      by_cases last : memory.nCurrentBarrierHeight - 1 = 0
      · rw [step, Memory.arrive, if_pos last] at taken
        exact step_some taken (.arriveLast last)
      · rw [step, Memory.arrive, if_neg last] at taken
        exact step_some taken (.arrive last)
  | transferring call => exact step_some taken .transfer
  | posting call => exact step_some taken moves_of_post
  | releasing call => exact step_some taken .release
  | waiting call => exact step_when taken .take
  | crossing call result =>
      by_cases last : memory.nCurrentBarrierHeight + 1 = height
      · rw [step, Memory.cross, if_pos last] at taken
        exact step_some taken (.crossLast last)
      · rw [step, Memory.cross, if_neg last] at taken
        exact step_some taken (.cross last)
  | opening call result => exact step_some taken .openNext
  | returning call result => exact step_some taken .leave

/-- The lock is held through the node of a thread. -/
def byThread : Option Node → Nat
  | some .node => 1
  | _ => 0

/-- The lock is held through the node of the barrier. -/
def byBarrier : Option Node → Nat
  | some .proxynode => 1
  | _ => 0

@[simp] theorem byThread_none : byThread none = 0 := rfl

@[simp] theorem byThread_node : byThread (some .node) = 1 := rfl

@[simp] theorem byThread_proxynode : byThread (some .proxynode) = 0 := rfl

@[simp] theorem byBarrier_none : byBarrier none = 0 := rfl

@[simp] theorem byBarrier_node : byBarrier (some .node) = 0 := rfl

@[simp] theorem byBarrier_proxynode : byBarrier (some .proxynode) = 1 := rfl

theorem one_holder (lock : Option Node) : byThread lock + byBarrier lock ≤ 1 := by
  rcases lock with _ | _ | _ <;> simp

/-- This thread holds the lock to arrive at the barrier. -/
def acquiring : Place → Nat
  | .entered | .releasing _ => 1
  | _ => 0

/-- The last thread to arrive still holds the lock through its own node. -/
def transferring : Place → Nat
  | .transferring _ => 1
  | _ => 0

/-- The last thread to arrive has not posted the semaphore yet. -/
def posting : Place → Nat
  | .posting _ => 1
  | _ => 0

/-- This call needs a post of the semaphore. -/
def behind : Place → Nat
  | .releasing _ | .waiting _ => 1
  | _ => 0

/-- This call counts the height up next. -/
def crossing : Place → Nat
  | .crossing _ _ => 1
  | _ => 0

/-- This call releases the lock for the next round. -/
def opening : Place → Nat
  | .opening _ _ => 1
  | _ => 0

variable {Thread : Type} [Fintype Thread] {height base : Nat} {memory next : Memory}
  {places : Thread → Place}

/-- The calls of a round arrive. -/
structure Filling (height base : Nat) (memory : Memory) (places : Thread → Place) : Prop where
  nobody : byBarrier memory.lock + total transferring places + total posting places +
    total crossing places + total opening places = 0
  passed : passes memory.history = base
  room : arrivals memory.history < base + height
  current : memory.nCurrentBarrierHeight = base + height - arrivals memory.history
  unposted : memory.semBarrierBreeched = 0

/-- All calls of the round have arrived, and the others are to be released. -/
structure Starting (height base : Nat) (memory : Memory) (places : Thread → Place) : Prop where
  last : total transferring places + total posting places = 1
  kept : byBarrier memory.lock + total transferring places = 1
  nobody : total crossing places + total opening places = 0
  passed : passes memory.history = base
  full : arrivals memory.history = base + height
  current : memory.nCurrentBarrierHeight = 0
  unposted : memory.semBarrierBreeched = 0

/-- The calls of the round pass. -/
structure Leaving (height base : Nat) (memory : Memory) (places : Thread → Place) : Prop where
  nobody : total transferring places + total posting places + total opening places = 0
  kept : byBarrier memory.lock = 1
  begun : base ≤ passes memory.history
  rest : passes memory.history < base + height
  full : arrivals memory.history = base + height
  current : memory.nCurrentBarrierHeight = passes memory.history - base
  enough : memory.semBarrierBreeched ≤ total behind places

/-- All calls of the round have passed, and one of them releases the lock. -/
structure Ending (height base : Nat) (memory : Memory) (places : Thread → Place) : Prop where
  last : total opening places = 1
  kept : byBarrier memory.lock = 1
  passed : passes memory.history = base + height
  full : arrivals memory.history = base + height
  current : memory.nCurrentBarrierHeight = height
  unposted : memory.semBarrierBreeched = 0

/-- These are the phases of a round. -/
inductive Phase (height base : Nat) (memory : Memory) (places : Thread → Place) : Prop
  | filling (phase : Filling height base memory places)
  | starting (phase : Starting height base memory places)
  | leaving (phase : Leaving height base memory places)
  | ending (phase : Ending height base memory places)

/-- The lock and the calls are accounted for in each phase. -/
structure Counted (height base : Nat) (memory : Memory) (places : Thread → Place) : Prop where
  held : total acquiring places + total transferring places = byThread memory.lock
  balance : arrivals memory.history = passes memory.history + total transferring places +
    total posting places + total behind places + total crossing places
  phase : Phase height base memory places

/-- When the semaphore refuses the posts, the first round never ends. -/
structure Stuck (height base : Nat) (memory : Memory) (places : Thread → Place) : Prop where
  first : base = 0
  unposted : memory.semBarrierBreeched = 0
  blocked : arrivals memory.history = height → total behind places = height - 1

section Steps

variable [DecidableEq Thread] {thread : Thread} {place : Place}

/-- Each move keeps the counts of the round, or it opens the barrier for the next round. -/
theorem Counted.step (counted : Counted height base memory places) (positive : 0 < height)
    (moves : Moves height memory (places thread) next place) :
    Counted height (base + height * opening (places thread)) next
      (Function.update places thread place) := by
  obtain ⟨held, balance, phase⟩ := counted
  have acquires := total_update acquiring places thread place
  have transfers := total_update transferring places thread place
  have posts := total_update posting places thread place
  have behinds := total_update behind places thread place
  have crosses := total_update crossing places thread place
  have opens := total_update opening places thread place
  have transferer := le_total transferring places thread
  have poster := le_total posting places thread
  have crosser := le_total crossing places thread
  have opener := le_total opening places thread
  have acquirer := le_total acquiring places thread
  have blocked := le_total behind places thread
  have one := one_holder memory.lock
  generalize places thread = left at *
  cases phase with
  | filling phase =>
      obtain ⟨nobody, passed, room, current, unposted⟩ := phase
      cases moves
      all_goals simp only [acquiring, transferring, posting, behind, crossing, opening,
        Nat.mul_zero, Nat.add_zero] at *
      case enter free =>
        rw [free] at held
        refine ⟨?_, ?_, .filling ⟨?_, passed, room, current, unposted⟩⟩
        all_goals
          simp only [byThread_none, byThread_node, byBarrier_node] at *
          omega
      case arriveLast last =>
        refine ⟨?_, ?_, .starting ⟨?_, ?_, ?_, passed, ?_, last, unposted⟩⟩
        all_goals
          try simp only [Memory.arrive, arrivals_arrived, passes_arrived]
          omega
      case arrive more =>
        refine ⟨?_, ?_, .filling ⟨?_, passed, ?_, ?_, unposted⟩⟩
        all_goals
          try simp only [Memory.arrive, arrivals_arrived, passes_arrived]
          omega
      case release =>
        refine ⟨?_, ?_, .filling ⟨?_, passed, room, current, unposted⟩⟩
        all_goals
          simp only [byThread_none, byBarrier_none]
          omega
      case leave =>
        refine ⟨?_, ?_, .filling ⟨?_, passed, room, current, unposted⟩⟩
        all_goals
          simp only [arrivals_returned, passes_returned]
          omega
      all_goals
        exfalso
        omega
  | starting phase =>
      obtain ⟨last, kept, nobody, passed, full, current, unposted⟩ := phase
      cases moves
      all_goals simp only [acquiring, transferring, posting, behind, crossing, opening,
        Nat.mul_zero, Nat.add_zero] at *
      case enter free =>
        rw [free] at held kept
        simp only [byThread_none, byBarrier_none] at held kept
        omega
      case transfer =>
        refine ⟨?_, ?_, .starting ⟨?_, ?_, ?_, passed, full, current, unposted⟩⟩
        all_goals
          try simp only [byThread_proxynode, byBarrier_proxynode]
          omega
      case post =>
        refine ⟨?_, ?_, .leaving ⟨?_, ?_, ?_, ?_, full, ?_, ?_⟩⟩
        all_goals
          try dsimp only
          omega
      case postFails =>
        refine ⟨?_, ?_, .leaving ⟨?_, ?_, ?_, ?_, full, ?_, ?_⟩⟩
        all_goals omega
      case leave =>
        refine ⟨?_, ?_, .starting ⟨?_, ?_, ?_, passed, full, current, unposted⟩⟩
        all_goals
          try simp only [arrivals_returned, passes_returned]
          omega
      all_goals
        exfalso
        omega
  | leaving phase =>
      obtain ⟨nobody, kept, begun, rest, full, current, enough⟩ := phase
      cases moves
      all_goals simp only [acquiring, transferring, posting, behind, crossing, opening,
        Nat.mul_zero, Nat.add_zero] at *
      case enter free => exact absurd kept (by simp only [free, byBarrier_none]; omega)
      case take =>
        refine ⟨?_, ?_, .leaving ⟨?_, kept, begun, rest, full, current, ?_⟩⟩
        all_goals
          try dsimp only
          omega
      case crossLast last =>
        refine ⟨?_, ?_, .ending ⟨?_, kept, ?_, full, last, ?_⟩⟩
        all_goals
          try simp only [Memory.cross, arrivals_passed, passes_passed]
          omega
      case cross more =>
        refine ⟨?_, ?_, .leaving ⟨?_, kept, ?_, ?_, full, ?_, ?_⟩⟩
        all_goals
          try simp only [Memory.cross, arrivals_passed, passes_passed]
          omega
      case leave =>
        refine ⟨?_, ?_, .leaving ⟨?_, kept, begun, rest, full, current, ?_⟩⟩
        all_goals
          try simp only [arrivals_returned, passes_returned]
          omega
      all_goals
        exfalso
        omega
  | ending phase =>
      obtain ⟨last, kept, passed, full, current, unposted⟩ := phase
      cases moves
      all_goals simp only [acquiring, transferring, posting, behind, crossing, opening,
        Nat.mul_zero, Nat.mul_one, Nat.add_zero] at *
      case enter free => exact absurd kept (by simp only [free, byBarrier_none]; omega)
      case openNext =>
        refine ⟨?_, ?_, .filling ⟨?_, passed, ?_, ?_, unposted⟩⟩
        all_goals
          try simp only [byThread_none, byBarrier_none]
          omega
      case leave =>
        refine ⟨?_, ?_, .ending ⟨?_, kept, passed, full, current, unposted⟩⟩
        all_goals
          try simp only [arrivals_returned, passes_returned]
          omega
      all_goals
        exfalso
        omega

/-- Each move keeps the first round from ending when the semaphore refuses the posts. -/
theorem Stuck.step (stuck : Stuck height base memory places) (refused : Refused height)
    (counted : Counted height base memory places)
    (moves : Moves height memory (places thread) next place) :
    opening (places thread) = 0 ∧ Stuck height base next (Function.update places thread place) := by
  obtain ⟨first, unposted, blocked⟩ := stuck
  have balance := counted.balance
  have behinds := total_update behind places thread place
  have crosser := le_total crossing places thread
  have opener := le_total opening places thread
  have acquirer := le_total acquiring places thread
  have more : 1 < height := by
    unfold Refused at refused
    omega
  have held := counted.held
  have one := one_holder memory.lock
  have phases := counted.phase
  generalize places thread = left at *
  cases moves
  all_goals simp only [behind, crossing, opening, acquiring] at *
  case openNext =>
    exfalso
    cases phases with
    | filling phase | starting phase | leaving phase =>
        have nobody := phase.nobody
        omega
    | ending phase =>
        have passed := phase.passed
        have full := phase.full
        have rest := blocked (by omega)
        omega
  case arriveLast last =>
    cases phases with
    | filling phase =>
        obtain ⟨nobody, passed, room, current, _⟩ := phase
        refine ⟨trivial, first, unposted, fun _ => ?_⟩
        omega
    | starting phase | leaving phase | ending phase =>
        have kept := phase.kept
        omega
  case arrive more =>
    cases phases with
    | filling phase =>
        obtain ⟨nobody, passed, room, current, _⟩ := phase
        refine ⟨trivial, first, unposted, fun full => ?_⟩
        simp only [Memory.arrive, arrivals_arrived] at full
        omega
    | starting phase | leaving phase | ending phase =>
        have kept := phase.kept
        omega
  case take posted => omega
  case post permitted => exact absurd refused permitted
  all_goals
    refine ⟨trivial, first, unposted, fun full => ?_⟩
    have rest := blocked full
    omega

end Steps

end Barrier

end CodeCollect.Pthreads
