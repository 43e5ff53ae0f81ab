import CodeCollect.Pthreads.CondSteps

namespace CodeCollect.Pthreads

open CodeCollect.Library Program

namespace Cond

/-- A waiter is registered from the increment of the blocked ones until its cleanup adjusts. -/
def registered : Place → Nat
  | .posting _ | .unlocking _ | .blocked _ | .cleaning _ _ | .adjusting _ _ => 1
  | _ => 0

/-- These threads have closed the gate and are going to open it again. -/
def gateKeeper : Place → Nat
  | .counting | .posting _ | .resetting _ _ | .reopening _ _ | .opening _ _ | .assigning _ => 1
  | .releasing nSignalsWasLeft _ _ => if nSignalsWasLeft = 1 then 1 else 0
  | _ => 0

/-- These threads hold the unblock lock and have found waiters to unblock. -/
def deciding : Place → Nat
  | .closing _ | .assigning _ => 1
  | _ => 0

/-- These threads hold the unblock lock and settle too many waiters that have gone. -/
def settling : Place → Nat
  | .overflowing _ _ | .resetting _ _ => 1
  | _ => 0

/-- These threads hold the unblock lock in another place. -/
def holding : Place → Nat
  | .adjusting _ _ | .reopening _ _ | .releasing _ _ _ | .testing _ | .issuing _ _ | .yielding => 1
  | _ => 0

/-- These tokens are about to be posted. -/
def pending : Place → Nat
  | .issuing nSignalsToIssue _ | .signalling nSignalsToIssue _ => nSignalsToIssue.toNat
  | _ => 0

/-- A waiter holds one token or none. -/
def held : Option Nat → Nat
  | some _ => 1
  | none => 0

/-- These waiters have taken a token and are not yet through their cleanup. -/
def woken : Place → Nat
  | .cleaning _ token | .adjusting _ token => held token
  | _ => 0

/-- The signals that one critical section issues. -/
def signals (memory : Memory) (unblockAll : Bool) : Int :=
  if unblockAll then memory.nWaitersBlocked else 1

theorem assign_eq (memory : Memory) (unblockAll : Bool) (old : Int) :
    memory.assign unblockAll old =
      ({ memory with
        nWaitersToUnblock := old + signals memory unblockAll
        nWaitersBlocked := memory.nWaitersBlocked - signals memory unblockAll
        clock := memory.clock + 1
        lastBroadcast := if unblockAll then memory.clock else memory.lastBroadcast
        issued := memory.issued + (signals memory unblockAll).toNat },
        .issuing (signals memory unblockAll) memory.clock) := by
  cases unblockAll <;> simp [Memory.assign, Memory.tick, signals]

/-- At least one signal is issued, and never more than there are blocked waiters. -/
theorem signals_bounds {memory : Memory} (blocked : 0 < memory.nWaitersBlocked)
    (unblockAll : Bool) :
    0 < signals memory unblockAll ∧ signals memory unblockAll ≤ memory.nWaitersBlocked := by
  cases unblockAll <;> simp only [signals, Bool.false_eq_true, ↓reduceIte] <;> omega

variable {Thread : Type} [Fintype Thread] {memory next : Memory} {places : Thread → Place}

/-- The counters agree with the places of the threads. -/
structure Counted (memory : Memory) (places : Thread → Place) : Prop where
  accounted : memory.nWaitersBlocked - memory.nWaitersGone + memory.nWaitersToUnblock =
    total registered places
  ajar : memory.nWaitersToUnblock = 0 → memory.semBlockLock + total gateKeeper places = 1
  shut : 0 < memory.nWaitersToUnblock → memory.semBlockLock + total gateKeeper places = 0
  locked : total deciding places + total settling places + total holding places =
    memory.mtxUnblockLock.toNat
  decided : 0 < total deciding places →
    memory.nWaitersToUnblock = 0 ∧ memory.nWaitersGone < memory.nWaitersBlocked
  settled : 0 < total settling places → memory.nWaitersToUnblock = 0
  tokens : memory.nWaitersToUnblock ≤
    memory.semBlockQueue.length + total pending places + total woken places
  gone : 0 < memory.nWaitersToUnblock → memory.nWaitersGone = 0
  blockedNonneg : 0 ≤ memory.nWaitersBlocked
  goneNonneg : 0 ≤ memory.nWaitersGone
  unblockNonneg : 0 ≤ memory.nWaitersToUnblock
  goneBound : memory.nWaitersGone ≤ INT_MAX / 2
  goneBelow : total settling places = 0 → memory.nWaitersGone < INT_MAX / 2

theorem held_le (token : Option Nat) : held token ≤ 1 := by
  cases token <;> simp [held]

/-- Each move keeps the counters in agreement with the places. -/
theorem Counted.step [DecidableEq Thread] (counted : Counted memory places) {thread : Thread}
    {label : Label} {place : Place}
    (moves : Moves memory (places thread) label next place) :
    Counted next (Function.update places thread place) := by
  have registers := total_update registered places thread place
  have keeps := total_update gateKeeper places thread place
  have decides := total_update deciding places thread place
  have settles := total_update settling places thread place
  have holds := total_update holding places thread place
  have pends := total_update pending places thread place
  have wakes := total_update woken places thread place
  have inside := le_total holding places thread
  have decides_inside := le_total deciding places thread
  have single := Bool.toNat_le memory.mtxUnblockLock
  have room : 0 < INT_MAX / 2 := by decide
  obtain ⟨accounted, ajar, shut, locked, decided, settled, tokens, gone, blockedNonneg, goneNonneg,
    unblockNonneg, goneBound, goneBelow⟩ := counted
  generalize places thread = left at *
  cases moves
  case take index token found =>
    obtain ⟨within, _⟩ := List.getElem?_eq_some_iff.mp found
    have fewer := List.length_eraseIdx_of_lt within
    simp only [registered, gateKeeper, deciding, settling, holding, pending, woken, held] at *
    constructor <;> dsimp only <;> omega
  case clean free =>
    simp only [registered, gateKeeper, deciding, settling, holding, pending, woken, free,
      Bool.toNat_false] at *
    constructor <;> dsimp only [Bool.toNat_true] <;> omega
  case begin free =>
    simp only [registered, gateKeeper, deciding, settling, holding, pending, woken, free,
      Bool.toNat_false] at *
    constructor <;> dsimp only [Bool.toNat_true] <;> omega
  case account token _ =>
    have atMost := held_le token
    simp only [registered, gateKeeper, deciding, settling, holding, pending, woken] at *
    -- the waiter that takes the last one to unblock opens the gate again
    split at keeps <;> constructor <;> dsimp only <;> omega
  case release _ more =>
    simp only [registered, gateKeeper, deciding, settling, holding, pending, woken, if_neg more,
      Memory.unlock] at *
    constructor <;> dsimp only [Bool.toNat_false] <;> omega
  case signal signals stamp =>
    simp only [registered, gateKeeper, deciding, settling, holding, pending, woken] at *
    constructor <;> dsimp only <;> (try rw [List.length_append, List.length_replicate]) <;> omega
  case more all unblocking blocked =>
    have waits : 0 < memory.nWaitersBlocked := by omega
    obtain ⟨least, most⟩ := signals_bounds waits all
    simp only [assign_eq] at *
    generalize signals memory all = issued at *
    simp only [registered, gateKeeper, deciding, settling, holding, pending, woken] at *
    constructor <;> dsimp only <;> omega
  case assign all =>
    have waiting := decided (by simp only [deciding] at decides_inside; omega)
    have blocked : 0 < memory.settle.nWaitersBlocked := by
      simp only [Memory.settle]
      omega
    obtain ⟨least, most⟩ := signals_bounds blocked all
    simp only [assign_eq] at *
    generalize signals memory.settle all = issued at *
    simp only [registered, gateKeeper, deciding, settling, holding, pending, woken,
      Memory.settle] at *
    constructor <;> dsimp only <;> omega
  all_goals
    simp only [registered, gateKeeper, deciding, settling, holding, pending, woken, Memory.tick,
      Memory.post, Memory.unlock, Memory.settle, Int.reduceEq, ↓reduceIte] at *
    constructor <;> (try dsimp only [Bool.toNat_false]) <;> omega

theorem Counted.start :
    Counted (program Thread).memory fun _ : Thread => (program Thread).entry := by
  have empty (weight : Place → Nat) (nothing : weight .idle = 0) :
      total weight (fun _ : Thread => Place.idle) = 0 := total_entry nothing
  constructor <;> simp [program, empty registered rfl, empty gateKeeper rfl, empty deciding rfl,
    empty settling rfl, empty holding rfl, empty pending rfl, empty woken rfl, INT_MAX]

/-- The counters agree with the places in every reachable configuration. -/
theorem counted_of_reachable [DecidableEq Thread]
    {Good : Configuration Thread Memory Place → Thread × Label → Prop}
    {config : Configuration Thread Memory Place}
    (reached : (program Thread).system.Reachable Good config) :
    Counted config.memory config.places :=
  Program.invariant reached Counted .start fun _ _ _ _ _ _ counted _ taken =>
    counted.step (moves_of_step taken)

end Cond

end CodeCollect.Pthreads
