import CodeCollect.Pthreads.CondCounters

namespace CodeCollect.Pthreads

open CodeCollect.Library Program

namespace Cond

/-- A registered waiter waits for a token, or is going to. -/
def waiting : Place → Nat
  | .posting _ | .unlocking _ | .blocked _ => 1
  | _ => 0

/-- A registered waiter no longer waits, and its cleanup has not adjusted the counts yet. -/
def cleaningUp : Place → Nat
  | .cleaning _ _ | .adjusting _ _ => 1
  | _ => 0

/-- A time counts when it is earlier than another one. -/
def earlier (since time : Nat) : Nat := if since < time then 1 else 0

/-- This waiter registered before a time. -/
def registeredBefore (time : Nat) : Place → Nat
  | .posting since | .unlocking since | .blocked since | .cleaning since _ | .adjusting since _ =>
      earlier since time
  | _ => 0

/-- This waiter registered before a time and still waits for a token. -/
def waitingBefore (time : Nat) : Place → Nat
  | .posting since | .unlocking since | .blocked since => earlier since time
  | _ => 0

theorem earlier_le (since time : Nat) : earlier since time ≤ 1 := by
  unfold earlier
  split <;> simp

theorem earlier_eq_zero {since time : Nat} (late : time ≤ since) : earlier since time = 0 := by
  unfold earlier
  exact if_neg (not_lt.mpr late)

theorem registered_eq (place : Place) : registered place = waiting place + cleaningUp place := by
  cases place <;> rfl

theorem registeredBefore_le (time : Nat) (place : Place) :
    registeredBefore time place ≤ registered place := by
  cases place <;> simp [registeredBefore, registered, earlier_le]

theorem waitingBefore_le (time : Nat) (place : Place) :
    waitingBefore time place ≤ waiting place := by
  cases place <;> simp [waitingBefore, waiting, earlier_le]

theorem waitingBefore_le_registeredBefore (time : Nat) (place : Place) :
    waitingBefore time place ≤ registeredBefore time place := by
  cases place <;> simp [waitingBefore, registeredBefore]

theorem woken_le (place : Place) : woken place ≤ cleaningUp place := by
  cases place <;> simp [woken, cleaningUp, held_le]

variable {Thread : Type} [Fintype Thread] {memory next : Memory} {places : Thread → Place}

/-- As long as a waiter of the last broadcast is registered, every registered one is to unblock. -/
structure Entitled (memory : Memory) (places : Thread → Place) : Prop where
  past : memory.lastBroadcast ≤ memory.clock
  complete : 0 < total (registeredBefore memory.lastBroadcast) places →
    memory.nWaitersBlocked = 0 ∧ memory.nWaitersGone = 0

/-- Each move keeps the waiters of the last broadcast to unblock. -/
theorem Entitled.step [DecidableEq Thread] (entitled : Entitled memory places)
    (counted : Counted memory places) {thread : Thread} {label : Label} {place : Place}
    (moves : Moves memory (places thread) label next place) :
    Entitled next (Function.update places thread place) := by
  obtain ⟨past, complete⟩ := entitled
  have olds := total_update (registeredBefore memory.lastBroadcast) places thread place
  have below := total_mono (registeredBefore_le memory.lastBroadcast) places
  have keeper := le_total gateKeeper places thread
  have decides := le_total deciding places thread
  have shut := counted.shut
  have accounted := counted.accounted
  have decided := counted.decided
  have blockedNonneg := counted.blockedNonneg
  have goneNonneg := counted.goneNonneg
  have unblockNonneg := counted.unblockNonneg
  generalize places thread = left at *
  cases moves
  case count =>
    have late := earlier_eq_zero past
    simp only [registeredBefore, gateKeeper, late, Memory.tick] at *
    constructor <;> dsimp only <;> omega
  case more all unblocking blocked =>
    simp only [assign_eq] at olds ⊢
    simp only [registeredBefore] at olds
    cases all with
    | true =>
        have gone := counted.gone (by omega)
        exact ⟨Nat.le_succ _, fun _ => ⟨by simp [signals], gone⟩⟩
    | false => constructor <;> dsimp only <;> simp only [Bool.false_eq_true, ↓reduceIte] <;> omega
  case assign all =>
    simp only [assign_eq] at olds ⊢
    simp only [registeredBefore, deciding] at *
    cases all with
    | true => exact ⟨Nat.le_succ _, fun _ => ⟨by simp [signals], rfl⟩⟩
    | false =>
        simp only [Bool.false_eq_true, ↓reduceIte]
        generalize signals memory.settle false = issued at *
        dsimp only [Memory.settle] at olds ⊢
        constructor <;> dsimp only <;> omega
  all_goals
    simp only [registeredBefore, gateKeeper, deciding, Memory.post, Memory.unlock,
      Memory.settle] at *
    constructor <;> (try dsimp only) <;> omega

theorem Entitled.start :
    Entitled (program Thread).memory fun _ : Thread => (program Thread).entry where
  past := le_rfl
  complete _ := ⟨rfl, rfl⟩

/-- A move is helpful when it brings the end of the round of signals nearer. -/
def remaining : Place → Nat
  | .testing _ => 10
  | .issuing _ _ => 9
  | .signalling _ _ => 8
  | .yielding => 7
  | .unlocking _ => 6
  | .blocked _ => 5
  | .cleaning _ _ => 4
  | .adjusting _ _ => 3
  | .releasing _ _ _ => 2
  | _ => 0

/-- A round goes on, or its last waiter is about to open the gate. -/
def Closing (memory : Memory) (place : Place) : Prop :=
  0 < memory.nWaitersToUnblock ∨ ∃ since token, place = .releasing 1 since token

/-- Some thread can make a helpful move. -/
def Helpful (memory : Memory) (places : Thread → Place) : Prop :=
  ∃ thread label next place, step memory (places thread) label = some (next, place) ∧
    remaining place < remaining (places thread) ∧ Closing next place

/-- The thread that holds the unblock lock in a round can go on. -/
theorem holder_helps (counted : Counted memory places) (unblocking : 0 < memory.nWaitersToUnblock)
    {thread : Thread} (holds : 0 < holding (places thread)) : Helpful memory places := by
  have keeper := le_total gateKeeper places thread
  have shut := counted.shut unblocking
  have positive : memory.nWaitersToUnblock ≠ 0 := by omega
  have apart : gateKeeper (places thread) = 0 := by omega
  cases here : places thread with
  | adjusting since token =>
      have taken : step memory (places thread) .go =
          some ({ memory with nWaitersToUnblock := memory.nWaitersToUnblock - 1 },
            .releasing memory.nWaitersToUnblock since token) := by
        simp [here, step, Memory.adjust, positive]
      refine ⟨thread, .go, _, _, taken, by simp [here, remaining], ?_⟩
      by_cases last : memory.nWaitersToUnblock = 1
      · exact Or.inr ⟨since, token, by rw [last]⟩
      · have more : 0 < memory.nWaitersToUnblock - 1 := by omega
        exact Or.inl more
  | releasing left since token =>
      have more : 1 ≠ left := by
        rintro rfl
        simp [here, gateKeeper] at apart
      have taken : step memory (places thread) .go =
          some (memory.unlock, .relocking since token) := by
        simp [here, step, more]
      exact ⟨thread, .go, _, _, taken, by simp [here, remaining], Or.inl unblocking⟩
  | testing all =>
      by_cases blocked : memory.nWaitersBlocked = 0
      · have taken : step memory (places thread) .go = some (memory, .yielding) := by
          simp [here, step, Memory.test, positive, blocked]
        exact ⟨thread, .go, _, _, taken, by simp [here, remaining], Or.inl unblocking⟩
      · have nonneg := counted.blockedNonneg
        have waits : 0 < memory.nWaitersBlocked := by omega
        obtain ⟨least, _⟩ := signals_bounds waits all
        have taken : step memory (places thread) .go =
            some (memory.assign all memory.nWaitersToUnblock) := by
          simp [here, step, Memory.test, positive, blocked]
        rw [assign_eq] at taken
        have more : 0 < memory.nWaitersToUnblock + signals memory all := by omega
        exact ⟨thread, .go, _, _, taken, by simp [here, remaining], Or.inl more⟩
  | issuing signals stamp =>
      exact ⟨thread, .go, memory.unlock, .signalling signals stamp, by rw [here]; rfl,
        by simp [here, remaining], Or.inl unblocking⟩
  | yielding =>
      exact ⟨thread, .go, memory.unlock, .idle, by rw [here]; rfl, by simp [here, remaining],
        Or.inl unblocking⟩
  | _ => simp [here, holding, gateKeeper] at holds apart

/-- A round always has a registered waiter that is cleaning up or that a token waits for. -/
theorem available (counted : Counted memory places) (unblocking : 0 < memory.nWaitersToUnblock) :
    (∃ thread, 0 < cleaningUp (places thread)) ∨
      (∃ thread, 0 < waiting (places thread)) ∧
        0 < memory.semBlockQueue.length + total pending places := by
  have accounted := counted.accounted
  have tokens := counted.tokens
  have blockedNonneg := counted.blockedNonneg
  have gone := counted.gone unblocking
  have split : total registered places = total waiting places + total cleaningUp places := by
    rw [← total_add]
    exact congrArg (fun weight => total weight places) (funext registered_eq)
  have below := total_mono woken_le places
  by_cases cleaning : 0 < total cleaningUp places
  · exact Or.inl (exists_of_total_pos cleaning)
  · exact Or.inr ⟨exists_of_total_pos (by omega), by omega⟩

omit [Fintype Thread] in
/-- A waiter that is going to clean up can lock the free unblock lock. -/
theorem cleaner_helps (free : memory.mtxUnblockLock = false)
    (unblocking : 0 < memory.nWaitersToUnblock) {thread : Thread}
    (cleaning : 0 < cleaningUp (places thread)) (outside : holding (places thread) = 0) :
    Helpful memory places := by
  cases here : places thread with
  | cleaning since token =>
      have taken : step memory (places thread) .go =
          some ({ memory with mtxUnblockLock := true }, .adjusting since token) := by
        simp [here, step, Memory.lock, free]
      exact ⟨thread, .go, _, _, taken, by simp [here, remaining], Or.inl unblocking⟩
  | _ => simp [here, cleaningUp, holding] at cleaning outside

/-- A waiter can take a posted token, and a signaller can post one that is not posted yet. -/
theorem waiter_helps (unblocking : 0 < memory.nWaitersToUnblock) {thread : Thread}
    (waits : 0 < waiting (places thread))
    (tokens : 0 < memory.semBlockQueue.length + total pending places)
    (apart : gateKeeper (places thread) = 0) (unheld : ∀ other, holding (places other) = 0) :
    Helpful memory places := by
  cases here : places thread with
  | unlocking since =>
      exact ⟨thread, .go, memory, .blocked since, by rw [here]; rfl, by simp [here, remaining],
        Or.inl unblocking⟩
  | blocked since =>
      cases queue : memory.semBlockQueue with
      | cons token rest =>
          have taken : step memory (places thread) (.take 0) =
              some ({ memory with semBlockQueue := rest }, .cleaning since (some token)) := by
            simp [here, step, queue]
          exact ⟨thread, .take 0, _, _, taken, by simp [here, remaining], Or.inl unblocking⟩
      | nil =>
          rw [queue, List.length_nil, Nat.zero_add] at tokens
          obtain ⟨other, pends⟩ := exists_of_total_pos tokens
          have outside := unheld other
          cases there : places other with
          | signalling signals stamp =>
              refine ⟨other, .go, _, .idle, by rw [there]; rfl, by simp [there, remaining], ?_⟩
              exact Or.inl unblocking
          | _ => simp [there, pending, holding] at pends outside
  | _ => simp [here, waiting, gateKeeper] at waits apart

/-- In a round, some thread can make a helpful move. -/
theorem helpful (counted : Counted memory places) (unblocking : 0 < memory.nWaitersToUnblock) :
    Helpful memory places := by
  cases locked : memory.mtxUnblockLock with
  | true =>
      have single := counted.locked
      have decided := counted.decided
      have settled := counted.settled
      rw [locked, Bool.toNat_true] at single
      have holds : 0 < total holding places := by omega
      obtain ⟨thread, holder⟩ := exists_of_total_pos holds
      exact holder_helps counted unblocking holder
  | false =>
      have single := counted.locked
      rw [locked, Bool.toNat_false] at single
      have unheld := total_eq_zero.mp (show total holding places = 0 by omega)
      have shut := counted.shut unblocking
      have unkept := total_eq_zero.mp (show total gateKeeper places = 0 by omega)
      rcases available counted unblocking with ⟨thread, cleaning⟩ | ⟨⟨thread, waits⟩, tokens⟩
      · exact cleaner_helps locked unblocking cleaning (unheld thread)
      · exact waiter_helps unblocking waits tokens (unkept thread) unheld

section Runs

variable [DecidableEq Thread]

omit [Fintype Thread] in
/-- The last waiter of a round opens the gate with its next two steps. -/
theorem last_opens {thread : Thread} {since : Nat} {token : Option Nat}
    (here : places thread = .releasing 1 since token) :
    ∃ after, (program Thread).system.Leads ⟨memory, places⟩ after ∧
      0 < after.memory.semBlockLock := by
  have unlocks : (program Thread).system.next ⟨memory, places⟩ (thread, .go) =
      some ⟨memory.unlock, Function.update places thread (.opening since token)⟩ :=
    next_of_step (by rw [here]; rfl)
  have opens : (program Thread).system.next
      ⟨memory.unlock, Function.update places thread (.opening since token)⟩ (thread, .go) =
        some ⟨memory.unlock.post, Function.update (Function.update places thread
          (.opening since token)) thread (.relocking since token)⟩ :=
    next_of_step (by rw [Function.update_self]; rfl)
  exact ⟨_, .head ⟨_, unlocks⟩ (.single ⟨_, opens⟩), Nat.succ_pos _⟩

/-- A closed gate of a round can be opened again by some steps. -/
theorem reopens (config : Configuration Thread Memory Place)
    (counted : Counted config.memory config.places)
    (unblocking : 0 < config.memory.nWaitersToUnblock) :
    ∃ after, (program Thread).system.Leads config after ∧ 0 < after.memory.semBlockLock := by
  induction measured : total remaining config.places using Nat.strong_induction_on
    generalizing config with
  | _ left ih =>
    obtain ⟨thread, label, next, place, taken, nearer, closing⟩ := helpful counted unblocking
    have moved : (program Thread).system.next config (thread, label) =
        some ⟨next, Function.update config.places thread place⟩ := next_of_step taken
    rcases closing with more | ⟨since, token, rfl⟩
    · have changed := total_update remaining config.places thread place
      have later := counted.step (moves_of_step taken)
      have fewer : total remaining (Function.update config.places thread place) < left := by omega
      obtain ⟨after, leads, ajar⟩ := ih _ fewer ⟨next, _⟩ later more rfl
      exact ⟨after, leads.head ⟨_, moved⟩, ajar⟩
    · have here : Function.update config.places thread (.releasing 1 since token) thread =
          .releasing 1 since token := Function.update_self ..
      obtain ⟨after, leads, ajar⟩ := last_opens here
      exact ⟨after, leads.head ⟨_, moved⟩, ajar⟩

/-- These are the accounts of a condition variable. -/
structure Accounted (config : Configuration Thread Memory Place) : Prop where
  registered : config.memory.nWaitersBlocked - config.memory.nWaitersGone +
    config.memory.nWaitersToUnblock = total Cond.registered config.places
  tokens : config.memory.nWaitersToUnblock ≤ config.memory.semBlockQueue.length +
    total pending config.places + total woken config.places
  gate : config.memory.semBlockLock ≤ 1
  closed : 0 < config.memory.nWaitersToUnblock → config.memory.semBlockLock = 0
  available : 0 < config.memory.nWaitersToUnblock →
    (∃ thread, 0 < cleaningUp (config.places thread)) ∨
      (∃ thread, 0 < waiting (config.places thread)) ∧
        0 < config.memory.semBlockQueue.length + total pending config.places
  reopens : 0 < config.memory.nWaitersToUnblock →
    ∃ after, (program Thread).system.Leads config after ∧ 0 < after.memory.semBlockLock
  broadcast : total (waitingBefore config.memory.lastBroadcast) config.places ≤
    config.memory.semBlockQueue.length + total pending config.places
  excluded : 0 < total (registeredBefore config.memory.lastBroadcast) config.places →
    config.memory.semBlockLock = 0 ∧
      config.memory.nWaitersToUnblock = total Cond.registered config.places

omit [DecidableEq Thread] in
/-- The waiters of the last broadcast that still wait have a token each. -/
theorem broadcast_tokens (counted : Counted memory places) (entitled : Entitled memory places) :
    total (waitingBefore memory.lastBroadcast) places ≤
      memory.semBlockQueue.length + total pending places := by
  have accounted := counted.accounted
  have tokens := counted.tokens
  have split : total registered places = total waiting places + total cleaningUp places := by
    rw [← total_add]
    exact congrArg (fun weight => total weight places) (funext registered_eq)
  have woken := total_mono woken_le places
  have waits := total_mono (waitingBefore_le memory.lastBroadcast) places
  have olds := total_mono (waitingBefore_le_registeredBefore memory.lastBroadcast) places
  by_cases present : 0 < total (registeredBefore memory.lastBroadcast) places
  · have complete := entitled.complete present
    omega
  · omega

/-- No interleaving of waits, time-outs, cancellations, signals and broadcasts breaks the
accounts. -/
theorem accounted {config : Configuration Thread Memory Place}
    (reached : (program Thread).system.Reachable System.Always config) : Accounted config := by
  obtain ⟨counted, entitled⟩ := Program.invariant reached
    (fun memory places => Counted memory places ∧ Entitled memory places) ⟨.start, .start⟩
    fun _ _ _ _ _ _ both _ taken =>
      ⟨both.1.step (moves_of_step taken), both.2.step both.1 (moves_of_step taken)⟩
  have ajar := counted.ajar
  have shut := counted.shut
  have nonneg := counted.unblockNonneg
  have accounted := counted.accounted
  have below := total_mono (registeredBefore_le config.memory.lastBroadcast) config.places
  exact {
    registered := accounted
    tokens := counted.tokens
    gate := by omega
    closed := fun unblocking => by omega
    available := Cond.available counted
    reopens := Cond.reopens config counted
    broadcast := broadcast_tokens counted entitled
    excluded := fun present => by
      have complete := entitled.complete present
      omega }

/-- The counters stay far below the largest `long` with fewer than `INT_MAX / 2` waiters. -/
theorem counters_fit {config : Configuration Thread Memory Place}
    (reached : (program Thread).system.Reachable System.Always config)
    (few : (Fintype.card Thread : Int) < INT_MAX / 2) :
    config.memory.nWaitersBlocked < INT_MAX ∧ config.memory.nWaitersGone < INT_MAX ∧
      config.memory.nWaitersToUnblock < INT_MAX := by
  have counted := counted_of_reachable reached
  have accounted := counted.accounted
  have gone := counted.goneBound
  have blockedNonneg := counted.blockedNonneg
  have unblockNonneg := counted.unblockNonneg
  have idle := counted.gone
  have each : ∀ place, registered place ≤ 1 := by
    intro place
    cases place <;> simp [registered]
  have atMost := Program.total_mono each config.places
  simp only [total, Finset.sum_const, Finset.card_univ, smul_eq_mul, mul_one] at atMost accounted
  have room : 0 < INT_MAX / 2 := by decide
  omega

end Runs

/-- One thread waits and another one broadcasts. -/
def broadcastToOne : List (Bool × Label) :=
  [(false, .wait), (false, .go), (false, .go), (false, .go), (false, .go), (true, .unblock true),
    (true, .go), (true, .go), (true, .go), (true, .go), (true, .go)]

theorem broadcastToOne_accounted : ∃ config, (program Bool).system.run broadcastToOne = some config ∧
    config.memory.nWaitersToUnblock = 1 ∧ Accounted config := by
  obtain ⟨config, ran, toUnblock⟩ : ∃ config, (program Bool).system.run broadcastToOne = some config ∧
      config.memory.nWaitersToUnblock = 1 := ⟨_, rfl, rfl⟩
  exact ⟨config, ran, toUnblock, accounted (System.reachable_of_run ran)⟩

end Cond

end CodeCollect.Pthreads
