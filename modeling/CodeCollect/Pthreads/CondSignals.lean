import CodeCollect.Pthreads.CondAccounting

namespace CodeCollect.Pthreads

open CodeCollect.Library Program

namespace Cond

/-- This is when a waiter registered that is not yet through its cleanup. -/
def since? : Place → Option Nat
  | .posting since | .unlocking since | .blocked since | .cleaning since _ | .adjusting since _ =>
      some since
  | _ => none

/-- These are the signals that are about to be posted, with the time of their critical section. -/
def issue? : Place → Option (Int × Nat)
  | .issuing nSignalsToIssue stamp | .signalling nSignalsToIssue stamp =>
      some (nSignalsToIssue, stamp)
  | _ => none

/-- This is when a waiter registered that no longer waits, and the token it took. -/
def took? : Place → Option (Nat × Option Nat)
  | .cleaning since token | .adjusting since token | .overflowing since token
  | .resetting since token | .reopening since token | .releasing _ since token
  | .opening since token | .relocking since token => some (since, token)
  | _ => none

/-- These waiters have been woken and have not returned yet. -/
def inside (place : Place) : Nat := if (took? place).isSome then 1 else 0

/-- No wait times out or is cancelled. -/
def Patient {Thread : Type} (_ : Configuration Thread Memory Place) (action : Thread × Label) :
    Prop :=
  action.2 ≠ .timeout ∧ action.2 ≠ .cancel

variable {Thread : Type} {memory next : Memory} {places : Thread → Place}

/-- A waiter has registered in the past. -/
def Past (memory : Memory) (place : Place) : Prop :=
  ∀ since, since? place = some since → since < memory.clock

/-- A waiter registered before the signals of all posted tokens. -/
def Posted (memory : Memory) (place : Place) : Prop :=
  ∀ since, since? place = some since → ∀ token ∈ memory.semBlockQueue, since < token

/-- A waiter registered before the signals that another thread is about to post. -/
def Unposted (place other : Place) : Prop :=
  ∀ since, since? place = some since →
    ∀ signals stamp, issue? other = some (signals, stamp) → since < stamp

/-- What is about to be posted is at least one signal. -/
def Positive (place : Place) : Prop :=
  ∀ signals stamp, issue? place = some (signals, stamp) → 0 < signals

/-- A woken waiter has taken a token of a signal that came after its registration. -/
def Taken (place : Place) : Prop :=
  ∀ since token, took? place = some (since, token) → ∃ stamp, token = some stamp ∧ since < stamp

/-- A waiter registered before each signal whose token it can take or has taken. -/
structure Ordered (memory : Memory) (places : Thread → Place) : Prop where
  past : ∀ thread, Past memory (places thread)
  posted : ∀ thread, Posted memory (places thread)
  unposted : ∀ thread other, Unposted (places thread) (places other)
  positive : ∀ thread, Positive (places thread)
  taken : ∀ thread, Taken (places thread)

section Places

variable [DecidableEq Thread] {thread : Thread} {place : Place}

/-- A move that registers nothing and issues nothing keeps the order. -/
theorem Ordered.keeps (ordered : Ordered memory places)
    (registers : ∀ since, since? place = some since → since? (places thread) = some since)
    (issues : ∀ issue, issue? place = some issue → issue? (places thread) = some issue)
    (taken : Taken place) (queue : ∀ token ∈ next.semBlockQueue, token ∈ memory.semBlockQueue)
    (clock : next.clock = memory.clock) :
    Ordered next (Function.update places thread place) where
  past := by
    have past : ∀ other, Past next (places other) := by
      intro other since here
      rw [clock]
      exact ordered.past other since here
    exact forall_update past fun since here => past thread since (registers since here)
  posted := by
    have posted : ∀ other, Posted next (places other) := by
      intro other since here token member
      exact ordered.posted other since here token (queue token member)
    exact forall_update posted fun since here => posted thread since (registers since here)
  unposted := by
    have unposted := ordered.unposted
    apply forall_update_pair unposted
    · exact fun other since here => unposted thread other since (registers since here)
    · exact fun other since here signals stamp there =>
        unposted other thread since here signals stamp (issues _ there)
    · exact fun since here signals stamp there =>
        unposted thread thread since (registers since here) signals stamp (issues _ there)
  positive := forall_update ordered.positive fun signals stamp there =>
    ordered.positive thread signals stamp (issues _ there)
  taken := forall_update ordered.taken taken

/-- The critical section of a signal comes after all registrations. -/
theorem Ordered.issues (ordered : Ordered memory places) {signals : Int} (least : 0 < signals)
    (queue : next.semBlockQueue = memory.semBlockQueue) (clock : next.clock = memory.clock + 1) :
    Ordered next (Function.update places thread (.issuing signals memory.clock)) where
  past := by
    apply forall_update
    · intro other since here
      rw [clock]
      exact Nat.lt_succ_of_lt (ordered.past other since here)
    · exact fun _ => nofun
  posted := by
    apply forall_update
    · intro other since here
      rw [queue]
      exact ordered.posted other since here
    · exact fun _ => nofun
  unposted := by
    apply forall_update_pair ordered.unposted
    · exact fun _ _ => nofun
    · intro other since here signals stamp there
      obtain ⟨rfl, rfl⟩ := Prod.mk.inj (Option.some.inj there)
      exact ordered.past other since here
    · exact fun _ => nofun
  positive := by
    apply forall_update ordered.positive
    intro signals stamp there
    obtain ⟨rfl, rfl⟩ := Prod.mk.inj (Option.some.inj there)
    exact least
  taken := forall_update ordered.taken fun _ _ => nofun

/-- A waiter registers when no token is left. -/
theorem Ordered.registers (ordered : Ordered memory places)
    (empty : memory.semBlockQueue = []) (quiet : ∀ other, issue? (places other) = none)
    (queue : next.semBlockQueue = memory.semBlockQueue) (clock : next.clock = memory.clock + 1) :
    Ordered next (Function.update places thread (.posting memory.clock)) where
  past := by
    apply forall_update
    · intro other since here
      rw [clock]
      exact Nat.lt_succ_of_lt (ordered.past other since here)
    · intro since here
      obtain rfl := Option.some.inj here
      rw [clock]
      exact Nat.lt_succ_self _
  posted := by
    apply forall_update
    · intro other since here
      rw [queue]
      exact ordered.posted other since here
    · intro since _ token member
      rw [queue, empty] at member
      exact absurd member List.not_mem_nil
  unposted := by
    apply forall_update_pair ordered.unposted
    · intro other since _ signals stamp there
      rw [quiet other] at there
      exact absurd there nofun
    · exact fun _ _ _ _ _ => nofun
    · exact fun _ _ _ _ => nofun
  positive := forall_update ordered.positive fun _ _ => nofun
  taken := forall_update ordered.taken fun _ _ => nofun

/-- The signals of a critical section are posted with its time. -/
theorem Ordered.posts (ordered : Ordered memory places) {signals : Int} {stamp : Nat}
    (here : places thread = .signalling signals stamp)
    (queue : next.semBlockQueue = memory.semBlockQueue ++ List.replicate signals.toNat stamp)
    (clock : next.clock = memory.clock) :
    Ordered next (Function.update places thread .idle) where
  past := by
    apply forall_update
    · intro other since there
      rw [clock]
      exact ordered.past other since there
    · exact fun _ => nofun
  posted := by
    apply forall_update
    · intro other since there token member
      rw [queue, List.mem_append] at member
      rcases member with before | new
      · exact ordered.posted other since there token before
      · rw [List.eq_of_mem_replicate new]
        exact ordered.unposted other thread since there signals stamp (by rw [here]; rfl)
    · exact fun _ => nofun
  unposted := by
    apply forall_update_pair ordered.unposted
    · exact fun _ _ => nofun
    · exact fun _ _ _ _ _ => nofun
    · exact fun _ => nofun
  positive := forall_update ordered.positive fun _ _ => nofun
  taken := forall_update ordered.taken fun _ _ => nofun

end Places

theorem pending_eq {place : Place} {issue : Int × Nat} (here : issue? place = some issue) :
    pending place = issue.1.toNat := by
  cases place
  case issuing signals stamp =>
    obtain rfl := Option.some.inj here
    rfl
  case signalling signals stamp =>
    obtain rfl := Option.some.inj here
    rfl
  all_goals exact absurd here (by simp [issue?])

section Sums

variable [Fintype Thread] [DecidableEq Thread]

/-- Without time-outs, each waiter to unblock has one token that it took or is going to take. -/
structure Exact (memory : Memory) (places : Thread → Place) : Prop where
  noneGone : memory.nWaitersGone = 0
  exact : memory.nWaitersToUnblock =
    memory.semBlockQueue.length + total pending places + total cleaningUp places
  conserved : memory.issued = memory.returned + memory.semBlockQueue.length +
    total pending places + total inside places

/-- Each patient move keeps the tokens and the waiters to unblock equal. -/
theorem Exact.step (exact : Exact memory places) (counted : Counted memory places)
    (ordered : Ordered memory places) {thread : Thread} {label : Label} {place : Place}
    (patient : label ≠ .timeout ∧ label ≠ .cancel)
    (moves : Moves memory (places thread) label next place) :
    Exact next (Function.update places thread place) := by
  obtain ⟨noneGone, exact, conserved⟩ := exact
  have pends := total_update pending places thread place
  have cleans := total_update cleaningUp places thread place
  have insides := total_update inside places thread place
  have cleaner := le_total cleaningUp places thread
  have decider := le_total deciding places thread
  have decided := counted.decided
  have blockedNonneg := counted.blockedNonneg
  have taken := ordered.taken thread
  generalize places thread = left at *
  cases moves
  case leave => exact absurd rfl patient.2
  case timeout => exact absurd rfl patient.1
  case cancel => exact absurd rfl patient.2
  case take index token found =>
    obtain ⟨within, _⟩ := List.getElem?_eq_some_iff.mp found
    have fewer := List.length_eraseIdx_of_lt within
    simp only [pending, cleaningUp, inside, took?, Option.isSome_none, Option.isSome_some,
      Bool.false_eq_true, ↓reduceIte] at *
    constructor <;> dsimp only <;> omega
  case finish since token =>
    obtain ⟨stamp, rfl, _⟩ := taken since token rfl
    simp only [pending, cleaningUp, inside, took?, Option.isSome_none, Option.isSome_some,
      Bool.false_eq_true, ↓reduceIte] at *
    constructor <;> dsimp only <;> omega
  case signal signals stamp =>
    simp only [pending, cleaningUp, inside, took?, Option.isSome_none, 
      Bool.false_eq_true, ↓reduceIte] at *
    constructor <;> dsimp only <;> (try rw [List.length_append, List.length_replicate]) <;> omega
  case more all unblocking blocked =>
    have waits : 0 < memory.nWaitersBlocked := by omega
    obtain ⟨least, most⟩ := signals_bounds waits all
    simp only [assign_eq] at *
    generalize signals memory all = issued at *
    simp only [pending, cleaningUp, inside, took?, Option.isSome_none,
      Bool.false_eq_true, ↓reduceIte] at *
    constructor <;> dsimp only <;> omega
  case assign all =>
    have waiting := decided (by simp only [deciding] at decider; omega)
    have blocked : 0 < memory.settle.nWaitersBlocked := by
      simp only [Memory.settle]
      omega
    obtain ⟨least, most⟩ := signals_bounds blocked all
    simp only [assign_eq] at *
    generalize signals memory.settle all = issued at *
    simp only [pending, cleaningUp, inside, took?, Memory.settle, Option.isSome_none,
      Bool.false_eq_true, ↓reduceIte] at *
    constructor <;> dsimp only <;> omega
  all_goals
    simp only [pending, cleaningUp, inside, took?, Memory.tick, Memory.post, Memory.unlock,
      Memory.settle, Option.isSome_none, Option.isSome_some, Bool.false_eq_true, ↓reduceIte] at *
    constructor <;> (try dsimp only) <;> omega

omit [DecidableEq Thread] in
/-- No token is left, and none is about to be posted, while a thread keeps the gate. -/
theorem no_token (counted : Counted memory places) (exact : Exact memory places)
    (ordered : Ordered memory places) {thread : Thread}
    (keeps : 0 < gateKeeper (places thread)) :
    memory.semBlockQueue = [] ∧ ∀ other, issue? (places other) = none := by
  have keeper := le_total gateKeeper places thread
  have shut := counted.shut
  have nonneg := counted.unblockNonneg
  have exact := exact.exact
  refine ⟨List.length_eq_zero_iff.mp (by omega), fun other => ?_⟩
  cases there : issue? (places other) with
  | none => rfl
  | some issue =>
      have positive := ordered.positive other issue.1 issue.2 there
      have pends := le_total pending places other
      rw [pending_eq there] at pends
      omega

/-- Each patient move keeps the order of registrations and signals. -/
theorem Ordered.step (ordered : Ordered memory places) (counted : Counted memory places)
    (exact : Exact memory places) {thread : Thread} {label : Label} {place : Place}
    (patient : label ≠ .timeout ∧ label ≠ .cancel)
    (moves : Moves memory (places thread) label next place) :
    Ordered next (Function.update places thread place) := by
  have taken := ordered.taken thread
  generalize here : places thread = left at moves taken
  cases moves
  case leave => exact absurd rfl patient.2
  case timeout => exact absurd rfl patient.1
  case cancel => exact absurd rfl patient.2
  case count =>
    have keeps : 0 < gateKeeper (places thread) := by simp [here, gateKeeper]
    obtain ⟨empty, quiet⟩ := no_token counted exact ordered keeps
    exact ordered.registers empty quiet rfl rfl
  case take since index token found =>
    have later : since < token :=
      ordered.posted thread since (by rw [here]; rfl) token (List.mem_of_getElem? found)
    apply ordered.keeps
    · simp [here, since?]
    · simp [issue?]
    · rintro _ _ ⟨⟩
      exact ⟨token, rfl, later⟩
    · exact fun token => List.mem_of_mem_eraseIdx
    · rfl
  case more all unblocking blocked =>
    have nonneg := counted.blockedNonneg
    have waits : 0 < memory.nWaitersBlocked := by omega
    rw [assign_eq]
    exact ordered.issues (signals_bounds waits all).1 rfl rfl
  case assign all =>
    have decider := le_total deciding places thread
    have waiting := counted.decided (by rw [here] at decider; exact decider)
    have waits : 0 < memory.settle.nWaitersBlocked := by
      simp only [Memory.settle]
      omega
    rw [assign_eq]
    exact ordered.issues (signals_bounds waits all).1 rfl rfl
  case signal signals stamp => exact ordered.posts here rfl rfl
  all_goals
    refine ordered.keeps ?_ ?_ ?_ (fun _ => id) rfl
    · simp [here, since?]
    · simp [here, issue?]
    · first
      | exact taken
      | exact fun _ _ taken => by cases taken

/-- Counters, tokens and times agree in every configuration that patient moves reach. -/
theorem ordered_of_reachable {config : Configuration Thread Memory Place}
    (reached : (program Thread).system.Reachable Patient config) :
    Counted config.memory config.places ∧ Exact config.memory config.places ∧
      Ordered config.memory config.places := by
  apply Program.invariant reached fun memory places =>
    Counted memory places ∧ Exact memory places ∧ Ordered memory places
  · have empty (weight : Place → Nat) (nothing : weight .idle = 0) :
        total weight (fun _ : Thread => Place.idle) = 0 := total_entry nothing
    refine ⟨.start, ?_, fun _ _ => nofun, fun _ _ => nofun, fun _ _ _ => nofun, fun _ _ => nofun,
      fun _ _ _ => nofun⟩
    constructor <;> simp [program, empty pending rfl, empty cleaningUp rfl, empty inside rfl]
  · rintro memory places thread label next place ⟨counted, exact, ordered⟩ patient taken
    have moves := moves_of_step taken
    exact ⟨counted.step moves, exact.step counted ordered patient moves,
      ordered.step counted exact patient moves⟩

/-- These registered waiters wait, and no token is there for them. -/
def unassigned (config : Configuration Thread Memory Place) : Int :=
  total waiting config.places -
    (config.memory.semBlockQueue.length + total pending config.places)

/-- A signal issues one token, and a broadcast one for each waiter that has none. -/
def Issues (before after : Configuration Thread Memory Place) (thread : Thread)
    (unblockAll : Bool) : Prop :=
  ∃ stamp, after.places thread = .issuing (if unblockAll then unassigned before else 1) stamp

/-- The signals of a condition variable go to waiters that were there before. -/
structure Directed (config : Configuration Thread Memory Place) : Prop where
  early : ∀ thread since token, config.places thread = .relocking since token →
    ∃ stamp, token = some stamp ∧ since < stamp
  covered : config.memory.semBlockQueue.length + total pending config.places ≤
    total waiting config.places
  tested : ∀ thread unblockAll after, config.places thread = .testing unblockAll →
    (program Thread).system.next config (thread, .go) = some after →
      (0 < unassigned config →
        after.places thread = .closing unblockAll ∨ Issues config after thread unblockAll) ∧
      (unassigned config = 0 → after.places thread = .yielding)
  assigned : ∀ thread unblockAll after, config.places thread = .assigning unblockAll →
    (program Thread).system.next config (thread, .go) = some after →
      0 < unassigned config ∧ Issues config after thread unblockAll
  noneGone : config.memory.nWaitersGone = 0
  leftover : config.memory.returned = config.memory.issued →
    config.memory.semBlockQueue = [] ∧ ∀ thread, pending (config.places thread) = 0

omit [DecidableEq Thread] in
/-- The blocked waiters are those that have no token. -/
theorem unassigned_eq {config : Configuration Thread Memory Place}
    (counted : Counted config.memory config.places) (exact : Exact config.memory config.places) :
    unassigned config = config.memory.nWaitersBlocked := by
  have accounted := counted.accounted
  have noneGone := exact.noneGone
  have same := exact.exact
  have split : total registered config.places =
      total waiting config.places + total cleaningUp config.places := by
    rw [← total_add]
    exact congrArg (fun weight => total weight config.places) (funext registered_eq)
  unfold unassigned
  omega

omit [DecidableEq Thread] in
/-- The signals of an assignment are one, or one for each waiter that has none. -/
theorem signals_eq {config : Configuration Thread Memory Place} {memory : Memory}
    (blocked : unassigned config = memory.nWaitersBlocked) (unblockAll : Bool) :
    signals memory unblockAll = if unblockAll then unassigned config else 1 := by
  rw [blocked, signals]

theorem tested_of (counted : Counted memory places) (exact : Exact memory places) {thread : Thread}
    {unblockAll : Bool} {after : Configuration Thread Memory Place}
    (here : places thread = .testing unblockAll)
    (taken : (program Thread).system.next ⟨memory, places⟩ (thread, .go) = some after) :
    (0 < unassigned ⟨memory, places⟩ →
      after.places thread = .closing unblockAll ∨ Issues ⟨memory, places⟩ after thread unblockAll) ∧
    (unassigned ⟨memory, places⟩ = 0 → after.places thread = .yielding) := by
  have blocked : unassigned ⟨memory, places⟩ = memory.nWaitersBlocked := unassigned_eq counted exact
  have noneGone := exact.noneGone
  obtain ⟨next, place, stepped, rfl⟩ := next_iff.mp taken
  simp only [here, Function.update_self, Issues, ← signals_eq blocked] at stepped ⊢
  rw [blocked]
  have stepped : step memory (.testing unblockAll) .go = some (next, place) := stepped
  cases moves_of_step stepped with
  | more unblocking present =>
      rw [assign_eq]
      exact ⟨fun _ => Or.inr ⟨_, rfl⟩, fun none => absurd none present⟩
  | close idle present => exact ⟨fun _ => Or.inl rfl, fun none => by omega⟩
  | nobody unblocking idle =>
      refine ⟨fun present => ?_, fun _ => rfl⟩
      have nonneg := counted.unblockNonneg
      omega

theorem assigned_of (counted : Counted memory places) (exact : Exact memory places)
    {thread : Thread} {unblockAll : Bool} {after : Configuration Thread Memory Place}
    (here : places thread = .assigning unblockAll)
    (taken : (program Thread).system.next ⟨memory, places⟩ (thread, .go) = some after) :
    0 < unassigned ⟨memory, places⟩ ∧ Issues ⟨memory, places⟩ after thread unblockAll := by
  have noneGone := exact.noneGone
  have blocked : unassigned ⟨memory, places⟩ = memory.settle.nWaitersBlocked := by
    rw [unassigned_eq counted exact, Memory.settle, noneGone, sub_zero]
  have decider := le_total deciding places thread
  have waiting := counted.decided (by rw [here] at decider; exact decider)
  have present : unassigned ⟨memory, places⟩ = memory.nWaitersBlocked := unassigned_eq counted exact
  obtain ⟨next, place, stepped, rfl⟩ := next_iff.mp taken
  simp only [here, Function.update_self, Issues, ← signals_eq blocked] at stepped ⊢
  have stepped : step memory (.assigning unblockAll) .go = some (next, place) := stepped
  cases moves_of_step stepped with
  | assign =>
      rw [assign_eq]
      exact ⟨by omega, _, rfl⟩

/-- Without time-outs and cancellations, signals are neither lost nor misdirected. -/
theorem directed {config : Configuration Thread Memory Place}
    (reached : (program Thread).system.Reachable Patient config) : Directed config := by
  obtain ⟨counted, exact, ordered⟩ := ordered_of_reachable reached
  have blocked := unassigned_eq counted exact
  have nonneg := counted.blockedNonneg
  have noneGone := exact.noneGone
  exact {
    early := fun thread since token here =>
      ordered.taken thread since token (by rw [here]; rfl)
    covered := by
      unfold unassigned at blocked
      omega
    tested := fun _ _ _ here taken => tested_of counted exact here taken
    assigned := fun _ _ _ here taken => assigned_of counted exact here taken
    noneGone := noneGone
    leftover := by
      intro same
      have conserved := exact.conserved
      have none_pending : total pending config.places = 0 := by omega
      exact ⟨List.length_eq_zero_iff.mp (by omega), total_eq_zero.mp none_pending⟩ }

end Sums

/-- One thread waits, another one signals, and the waiter is about to return. -/
def signalToOne : List (Bool × Label) :=
  [(false, .wait), (false, .go), (false, .go), (false, .go), (false, .go), (true, .unblock false),
    (true, .go), (true, .go), (true, .go), (true, .go), (true, .go), (true, .go), (false, .take 0),
    (false, .go), (false, .go), (false, .go), (false, .go)]

theorem signalToOne_directed : ∃ config, (program Bool).system.run signalToOne = some config ∧
    config.places false = .relocking 0 (some 1) ∧ Directed config := by
  obtain ⟨config, ran, returns⟩ : ∃ config, (program Bool).system.run signalToOne = some config ∧
      config.places false = .relocking 0 (some 1) := ⟨_, rfl, rfl⟩
  have patient : ∀ action ∈ signalToOne, action.2 ≠ .timeout ∧ action.2 ≠ .cancel := by decide
  exact ⟨config, ran, returns, directed (System.reachable_of_along
    (System.along_of_forall (fun action member _ => patient action member) _) ran)⟩

end Cond

end CodeCollect.Pthreads
