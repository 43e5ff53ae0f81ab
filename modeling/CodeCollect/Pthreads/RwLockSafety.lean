import CodeCollect.Pthreads.RwLock

namespace CodeCollect.Pthreads

open CodeCollect.Library Program

namespace RwLock

variable {Thread : Type}

section Phases

/-- In these phases a thread owns the mutex for exclusive access. -/
def Phase.ownsExclusive : Phase → Bool
  | .counting _ | .overflowing _ | .resetting | .counted | .entering _ | .deciding _ | .blocked
  | .woken _ | .checking _ | .cancelling _ | .refusing | .leaving _ | .writing | .releasing => true
  | _ => false

/-- In these phases a thread owns the mutex for the finished read locks. -/
def Phase.ownsCompleted : Phase → Bool
  | .resetting | .deciding _ | .checking _ | .refusing | .writing | .completed => true
  | _ => false

def Place.Exclusive (place : Place) : Prop := place.phase.ownsExclusive = true

def Place.Completing (place : Place) : Prop := place.phase.ownsCompleted = true

/-- In these phases the count of read locks may have reached its limit. -/
def Phase.full : Phase → Bool
  | .overflowing _ | .resetting => true
  | _ => false

/-- The counters are in use in one of three ways. -/
inductive Mode where
  | reading
  | waiting
  | writing
deriving DecidableEq

/-- The thread with exclusive access decides what the counters mean. -/
def Phase.mode : Phase → Mode
  | .blocked | .woken _ | .checking _ => .waiting
  | .writing => .writing
  | _ => .reading

/-- So many read locks are held. -/
def readLocks [Fintype Thread] (places : Thread → Place) : Nat := total Place.reads places

/-- The counters tell how many read locks are held. -/
def Counts (memory : Memory Thread) (locks : Nat) : Mode → Prop
  | .reading => memory.nExclusiveAccessCount = 0 ∧ 0 ≤ memory.nCompletedSharedAccessCount ∧
      memory.nSharedAccessCount = locks + memory.nCompletedSharedAccessCount
  | .waiting => memory.nExclusiveAccessCount = 0 ∧ memory.nCompletedSharedAccessCount = -locks ∧
      locks ≤ memory.nSharedAccessCount
  | .writing => memory.nExclusiveAccessCount = 1 ∧ memory.nCompletedSharedAccessCount = 0 ∧
      memory.nSharedAccessCount = 0 ∧ locks = 0

/-- What the phase of the thread with exclusive access says about the counters. -/
structure Known (memory : Memory Thread) (locks : Nat) (phase : Phase) : Prop where
  counts : Counts memory locks phase.mode
  bounded : memory.nSharedAccessCount ≤ INT_MAX
  room : phase.full = false → memory.nSharedAccessCount < INT_MAX

theorem mode_of_not_exclusive {phase : Phase} (other : ¬ phase.ownsExclusive = true) :
    phase.mode = .reading ∧ phase.full = false := by
  cases phase <;> first | exact ⟨rfl, rfl⟩ | exact absurd rfl other

theorem completing_of_writing {place : Place} (writing : place.phase.mode = .writing) :
    place.Completing := by
  obtain ⟨reads, phase⟩ := place
  cases phase <;> first | rfl | exact absurd writing nofun

section Choices

variable {memory : Memory Thread} {locks : Nat}

/-- Counts without finished read locks are the settled ones. -/
theorem settlePositive_of_reading (counts : Counts memory locks .reading) :
    memory.settlePositive =
      { memory with nSharedAccessCount := locks, nCompletedSharedAccessCount := 0 } := by
  obtain ⟨-, low, shared⟩ := counts
  unfold Memory.settlePositive
  split
  · rw [Memory.settle, shared, add_sub_cancel_right]
  · rename_i none
    have zero : memory.nCompletedSharedAccessCount = 0 := le_antisymm (not_lt.mp none) low
    rw [zero, add_zero] at shared
    rw [← shared, ← zero]

/-- The last reader that a writer waits for signals the condition. -/
theorem complete_eq (memory : Memory Thread) :
    memory.complete = { memory with
      nCompletedSharedAccessCount := memory.nCompletedSharedAccessCount + 1
      cndSharedAccessCompleted :=
        if memory.nCompletedSharedAccessCount + 1 = 0 then none
        else memory.cndSharedAccessCompleted } := by
  unfold Memory.complete
  dsimp only
  split <;> rfl

/-- A read lock that is given back counts as finished. -/
theorem Counts.complete {phase : Phase} {fewer : Nat} (counts : Counts memory locks phase.mode)
    (one : locks = fewer + 1) (quiet : phase.mode ≠ .writing) :
    Counts memory.complete.unlockCompleted fewer phase.mode := by
  rw [complete_eq]
  cases mode : phase.mode with
  | reading =>
      rw [mode] at counts
      obtain ⟨writers, low, shared⟩ := counts
      refine ⟨writers, Int.le_add_one low, ?_⟩
      change memory.nSharedAccessCount = fewer + (memory.nCompletedSharedAccessCount + 1)
      omega
  | waiting =>
      rw [mode] at counts
      obtain ⟨writers, completed, shared⟩ := counts
      refine ⟨writers, ?_, ?_⟩
      · change memory.nCompletedSharedAccessCount + 1 = -(fewer : Int)
        omega
      · change (fewer : Int) ≤ memory.nSharedAccessCount
        omega
  | writing => exact absurd mode quiet

theorem Known.range {phase : Phase} (known : Known memory locks phase) :
    0 ≤ memory.nSharedAccessCount ∧ -INT_MAX ≤ memory.nCompletedSharedAccessCount ∧
      memory.nCompletedSharedAccessCount ≤ INT_MAX := by
  obtain ⟨counts, bounded, -⟩ := known
  have zero : 0 ≤ INT_MAX := by decide
  cases mode : phase.mode with
  | reading =>
      rw [mode] at counts
      obtain ⟨-, low, shared⟩ := counts
      refine ⟨?_, ?_, ?_⟩ <;> omega
  | waiting =>
      rw [mode] at counts
      obtain ⟨-, completed, enough⟩ := counts
      refine ⟨?_, ?_, ?_⟩ <;> omega
  | writing =>
      rw [mode] at counts
      obtain ⟨-, completed, shared, -⟩ := counts
      refine ⟨?_, ?_, ?_⟩ <;> omega

end Choices

end Phases

variable [Fintype Thread]

structure Inv (memory : Memory Thread) (places : Thread → Place) : Prop where
  exclusive : ∀ thread, memory.mtxExclusiveAccess = some thread ↔ (places thread).Exclusive
  completing : ∀ thread, memory.mtxSharedAccessCompleted = some thread ↔ (places thread).Completing
  free : memory.mtxExclusiveAccess = none → Known memory (readLocks places) .outside
  known : ∀ thread, (places thread).Exclusive →
    Known memory (readLocks places) (places thread).phase
  waiter : ∀ thread, memory.cndSharedAccessCompleted = some thread →
    (places thread).phase = .blocked ∧ memory.nCompletedSharedAccessCount < 0
  holder : ∀ thread, (places thread).phase = .completing ∨ (places thread).phase = .completed →
    0 < (places thread).reads

variable {memory next : Memory Thread} {places : Thread → Place}
  {self : Thread} {place : Place}

theorem readLocks_update [DecidableEq Thread] (places : Thread → Place) (self : Thread)
    (place : Place) :
    readLocks (Function.update places self place) + (places self).reads =
      readLocks places + place.reads := total_update Place.reads places self place

namespace Inv

/-- A thread with exclusive access is the only one. -/
theorem alone (inv : Inv memory places) (self : Thread) (owner : (places self).Exclusive)
    (other : Thread)
    (differ : other ≠ self) : ¬ (places other).Exclusive :=
  fun holds => differ (owner_unique inv.exclusive holds owner)

theorem nobody (inv : Inv memory places) (free : memory.mtxExclusiveAccess = none) (other : Thread) :
    ¬ (places other).Exclusive := by
  intro holds
  have owns := (inv.exclusive other).mpr holds
  rw [free] at owns
  exact absurd owns nofun

theorem not_waiter (inv : Inv memory places) (self : Thread) (active : (places self).phase ≠ .blocked) :
    memory.cndSharedAccessCompleted ≠ some self :=
  fun waits => active (inv.waiter self waits).1

/-- Nobody is blocked while a thread with exclusive access runs. -/
theorem no_waiter (inv : Inv memory places) (owner : (places self).Exclusive)
    (active : (places self).phase ≠ .blocked) (thread : Thread) :
    memory.cndSharedAccessCompleted ≠ some thread := by
  intro waits
  obtain ⟨blocked, -⟩ := inv.waiter thread waits
  have exclusive : (places thread).Exclusive := by
    rw [Place.Exclusive, blocked]
    rfl
  obtain rfl := owner_unique inv.exclusive exclusive owner
  exact active blocked

/-- No writer is counted while a read lock is held. -/
theorem nExclusive_of_reads (inv : Inv memory places) (self : Thread) (holds : 0 < (places self).reads) :
    memory.nExclusiveAccessCount = 0 := by
  have held : 0 < readLocks places := holds.trans_le (le_total Place.reads places self)
  cases owner : memory.mtxExclusiveAccess with
  | none => exact (inv.free owner).counts.1
  | some thread =>
      have counts := (inv.known thread ((inv.exclusive thread).mp owner)).counts
      cases mode : (places thread).phase.mode with
      | reading =>
          rw [mode] at counts
          exact counts.1
      | waiting =>
          rw [mode] at counts
          exact counts.1
      | writing =>
          rw [mode] at counts
          exact absurd counts.2.2.2 held.ne'

/-- Some phase, of the thread with exclusive access if there is one, explains the counters. -/
theorem explained (inv : Inv memory places) : ∃ phase, Known memory (readLocks places) phase := by
  cases owner : memory.mtxExclusiveAccess with
  | none => exact ⟨_, inv.free owner⟩
  | some thread => exact ⟨_, inv.known thread ((inv.exclusive thread).mp owner)⟩

variable [DecidableEq Thread]

theorem keep_exclusive (inv : Inv memory places) (self : Thread) ⦃place : Place⦄
    (same : place.Exclusive ↔ (places self).Exclusive) (thread : Thread) :
    memory.mtxExclusiveAccess = some thread ↔
      (Function.update places self place thread).Exclusive := owner_keep inv.exclusive same thread

theorem keep_completing (inv : Inv memory places) (self : Thread) ⦃place : Place⦄
    (same : place.Completing ↔ (places self).Completing) (thread : Thread) :
    memory.mtxSharedAccessCompleted = some thread ↔
      (Function.update places self place thread).Completing := owner_keep inv.completing same thread

theorem release_exclusive (inv : Inv memory places) (self : Thread) ⦃place : Place⦄
    (had : (places self).Exclusive) (now : ¬ place.Exclusive) (thread : Thread) :
    none = some thread ↔ (Function.update places self place thread).Exclusive :=
  owner_release inv.exclusive had now thread

theorem release_completing (inv : Inv memory places) (self : Thread) ⦃place : Place⦄
    (had : (places self).Completing) (now : ¬ place.Completing) (thread : Thread) :
    none = some thread ↔ (Function.update places self place thread).Completing :=
  owner_release inv.completing had now thread

/-- The thread that is blocked on the condition stays there unless it is signalled. -/
theorem waiter_update (inv : Inv memory places)
    (same : next.cndSharedAccessCompleted = memory.cndSharedAccessCompleted)
    (kept : memory.nCompletedSharedAccessCount < 0 → next.cndSharedAccessCompleted ≠ none →
      next.nCompletedSharedAccessCount < 0)
    (other : memory.cndSharedAccessCompleted ≠ some self) (thread : Thread)
    (waits : next.cndSharedAccessCompleted = some thread) :
    (Function.update places self place thread).phase = .blocked ∧
      next.nCompletedSharedAccessCount < 0 := by
  have before := inv.waiter thread (same ▸ waits)
  have differ : thread ≠ self := by
    rintro rfl
    exact other (same ▸ waits)
  rw [Function.update_of_ne differ]
  exact ⟨before.1, kept before.2 (by rw [waits]; exact nofun)⟩

/-- Whoever completes a read lock has one. -/
theorem holder_update (inv : Inv memory places)
    (holder : place.phase = .completing ∨ place.phase = .completed → 0 < place.reads)
    (thread : Thread) : (Function.update places self place thread).phase = .completing ∨
      (Function.update places self place thread).phase = .completed →
        0 < (Function.update places self place thread).reads := by
  by_cases here : thread = self
  · subst here
    rwa [Function.update_self]
  · rw [Function.update_of_ne here]
    exact inv.holder thread

/-- A move of the only thread with exclusive access, or of one that gets it. -/
theorem of_alone (inv : Inv memory places)
    (alone : ∀ other, other ≠ self → ¬ (places other).Exclusive)
    (exclusive : ∀ thread, next.mtxExclusiveAccess = some thread ↔
      (Function.update places self place thread).Exclusive)
    (completing : ∀ thread, next.mtxSharedAccessCompleted = some thread ↔
      (Function.update places self place thread).Completing)
    (here : Known next (readLocks (Function.update places self place)) place.phase)
    (waiter : ∀ thread, next.cndSharedAccessCompleted = some thread →
      (Function.update places self place thread).phase = .blocked ∧
        next.nCompletedSharedAccessCount < 0)
    (holder : place.phase = .completing ∨ place.phase = .completed → 0 < place.reads) :
    Inv next (Function.update places self place) := by
  refine ⟨exclusive, completing, ?_, ?_, waiter, ?_⟩
  · intro free
    have other : ¬ place.Exclusive := by
      intro holds
      have owns := (exclusive self).mpr (by rwa [Function.update_self])
      rw [free] at owns
      exact absurd owns nofun
    obtain ⟨mode, full⟩ := mode_of_not_exclusive other
    obtain ⟨counts, bounded, room⟩ := here
    rw [mode] at counts
    exact ⟨counts, bounded, fun _ => room full⟩
  · intro thread holds
    by_cases same : thread = self
    · subst same
      rwa [Function.update_self]
    · rw [Function.update_of_ne same] at holds
      exact absurd holds (alone thread same)
  · exact inv.holder_update holder

/-- A move of a thread without exclusive access. -/
theorem of_other (inv : Inv memory places) (before : ¬ (places self).Exclusive)
    (after : ¬ place.Exclusive) (same : next.mtxExclusiveAccess = memory.mtxExclusiveAccess)
    (completing : ∀ thread, next.mtxSharedAccessCompleted = some thread ↔
      (Function.update places self place thread).Completing)
    (transfer : ∀ phase, (phase = .outside ∨ ∃ other, other ≠ self ∧ (places other).phase = phase) →
      Known memory (readLocks places) phase →
        Known next (readLocks (Function.update places self place)) phase)
    (waiter : ∀ thread, next.cndSharedAccessCompleted = some thread →
      (Function.update places self place thread).phase = .blocked ∧
        next.nCompletedSharedAccessCount < 0)
    (holder : place.phase = .completing ∨ place.phase = .completed → 0 < place.reads) :
    Inv next (Function.update places self place) := by
  refine ⟨?_, completing, ?_, ?_, waiter, ?_⟩
  · rw [same]
    exact owner_keep inv.exclusive (iff_of_false after before)
  · intro free
    exact transfer _ (.inl rfl) (inv.free (same ▸ free))
  · intro thread holds
    by_cases own : thread = self
    · subst own
      rw [Function.update_self] at holds
      exact absurd holds after
    · rw [Function.update_of_ne own] at holds ⊢
      exact transfer _ (.inr ⟨thread, own, rfl⟩) (inv.known thread holds)
  · exact inv.holder_update holder

/-- Every move keeps the invariant. -/
theorem moves (inv : Inv memory places) (few : (readLocks places : Int) < INT_MAX)
    (moves : Moves self memory (places self) next place) :
    Inv next (Function.update places self place) := by
  have moved := readLocks_update places self place
  have knows := inv.known self
  have active := inv.not_waiter self
  have alone := inv.alone self
  have held := inv.holder self
  have keepE := inv.keep_exclusive self
  have keepS := inv.keep_completing self
  have releaseE := inv.release_exclusive self
  have releaseS := inv.release_completing self
  generalize here : places self = before at moves
  rw [here] at moved knows active alone held
  simp only [here] at keepE keepS releaseE releaseS
  cases moves with
  | lockRead free =>
      have same := Nat.add_right_cancel moved
      refine inv.of_alone (fun other ?_ => inv.nobody free other)
        (owner_acquire inv.exclusive free rfl) (keepS Iff.rfl) ?_
        (inv.waiter_update rfl (fun low ?_ => low) (active nofun)) nofun
      obtain ⟨counts, bounded, room⟩ := inv.free free
      rw [same]
      exact ⟨counts, bounded, fun _ => room rfl⟩
  | lockWrite free =>
      have same := Nat.add_right_cancel moved
      refine inv.of_alone (fun other ?_ => inv.nobody free other)
        (owner_acquire inv.exclusive free rfl) (keepS Iff.rfl) ?_
        (inv.waiter_update rfl (fun low ?_ => low) (active nofun)) nofun
      obtain ⟨counts, bounded, room⟩ := inv.free free
      rw [same]
      exact ⟨counts, bounded, fun _ => room rfl⟩
  | refuse =>
      have same := Nat.add_right_cancel moved
      refine inv.of_other (by rw [here]; exact nofun) nofun rfl (keepS Iff.rfl) ?_
        (inv.waiter_update rfl (fun low ?_ => low) (active nofun)) nofun
      intro phase _ known
      rwa [same]
  | @unlock reads phase holds =>
      rcases holds with ⟨rfl, reader⟩ | rfl
      · have none : memory.nExclusiveAccessCount = 0 := by
          apply inv.nExclusive_of_reads self
          rwa [here]
        rw [Memory.unlock, if_pos none] at moved ⊢
        have same := Nat.add_right_cancel moved
        refine inv.of_other (by rw [here]; exact nofun) nofun rfl (keepS Iff.rfl) ?_
          (inv.waiter_update rfl (fun low _ => low) (active nofun)) (fun _ => reader)
        intro phase _ known
        rwa [same]
      · obtain ⟨⟨nE, nC, nS, nobody⟩, bounded, room⟩ := knows rfl
        have some : memory.nExclusiveAccessCount ≠ 0 := by
          rw [nE]
          exact one_ne_zero
        rw [Memory.unlock, if_neg some] at moved ⊢
        have same := Nat.add_right_cancel moved
        refine inv.of_alone (alone rfl) (keepE Iff.rfl) (releaseS rfl nofun) ?_
          (inv.waiter_update rfl (fun low _ => low) (active nofun)) nofun
        rw [same, nobody]
        refine ⟨⟨?_, nC.ge, ?_⟩, bounded, fun _ => room rfl⟩
        · exact sub_eq_zero.mpr nE
        · rw [Nat.cast_zero, zero_add]
          exact nS.trans nC.symm
  | countLast last =>
      obtain ⟨⟨nE, nC, nS⟩, bounded, room⟩ := knows rfl
      refine inv.of_alone (alone rfl) (keepE Iff.rfl) (keepS Iff.rfl) ?_
        (inv.waiter_update rfl (fun low ?_ => low) (active nofun)) nofun
      refine ⟨⟨nE, nC, ?_⟩, last.le, nofun⟩
      change memory.nSharedAccessCount + 1 = _ + memory.nCompletedSharedAccessCount
      dsimp only at moved
      omega
  | count other =>
      obtain ⟨⟨nE, nC, nS⟩, bounded, room⟩ := knows rfl
      have room := room rfl
      refine inv.of_alone (alone rfl) (keepE Iff.rfl) (keepS Iff.rfl) ?_
        (inv.waiter_update rfl (fun low ?_ => low) (active nofun)) nofun
      refine ⟨⟨nE, nC, ?_⟩, room, fun _ => lt_of_le_of_ne room other⟩
      change memory.nSharedAccessCount + 1 = _ + memory.nCompletedSharedAccessCount
      dsimp only at moved
      omega
  | lockOverflow free =>
      have same := Nat.add_right_cancel moved
      obtain ⟨counts, bounded, room⟩ := knows rfl
      refine inv.of_alone (alone rfl) (keepE Iff.rfl) (owner_acquire inv.completing free rfl) ?_
        (inv.waiter_update rfl (fun low ?_ => low) (active nofun)) nofun
      rw [same]
      exact ⟨counts, bounded, nofun⟩
  | reset =>
      have same := Nat.add_right_cancel moved
      obtain ⟨⟨nE, nC, nS⟩, bounded, room⟩ := knows rfl
      have settled : memory.settle.nSharedAccessCount = readLocks places := by
        rw [Memory.settle, nS]
        exact add_sub_cancel_right _ _
      refine inv.of_alone (alone rfl) (keepE Iff.rfl) (releaseS rfl nofun) ?_
        (inv.waiter_update rfl ?_ (active nofun)) nofun
      · rw [same]
        refine ⟨⟨nE, le_rfl, ?_⟩, ?_, fun _ => ?_⟩
        · exact settled.trans (add_zero _).symm
        · exact settled.trans_le few.le
        · exact settled.trans_lt few
      · intro low
        exact absurd low nC.not_gt
  | counted =>
      have same := Nat.add_right_cancel moved
      obtain ⟨counts, bounded, room⟩ := knows rfl
      refine inv.of_alone (alone rfl) (releaseE rfl nofun) (keepS Iff.rfl) ?_
        (inv.waiter_update rfl (fun low ?_ => low) (active nofun)) nofun
      rw [same]
      exact ⟨counts, bounded, fun _ => room rfl⟩
  | lockEntering free =>
      have same := Nat.add_right_cancel moved
      obtain ⟨counts, bounded, room⟩ := knows rfl
      refine inv.of_alone (alone rfl) (keepE Iff.rfl) (owner_acquire inv.completing free rfl) ?_
        (inv.waiter_update rfl (fun low ?_ => low) (active nofun)) nofun
      rw [same]
      exact ⟨counts, bounded, fun _ => room rfl⟩
  | leave =>
      have same := Nat.add_right_cancel moved
      obtain ⟨counts, bounded, room⟩ := knows rfl
      refine inv.of_alone (alone rfl) (keepE Iff.rfl) (keepS Iff.rfl) ?_
        (inv.waiter_update rfl (fun low ?_ => low) (active nofun)) nofun
      rw [same]
      exact ⟨counts, bounded, fun _ => room rfl⟩
  | @decide reads wait =>
      obtain ⟨counts, bounded, room⟩ := knows rfl
      have idle := inv.no_waiter (by rw [here]; rfl) (by rw [here]; exact nofun)
      have writer : memory.nExclusiveAccessCount = 0 := counts.1
      have settled := settlePositive_of_reading counts
      have same := Nat.add_right_cancel moved
      unfold Memory.decide at same ⊢
      rw [if_pos writer, settled] at same ⊢
      dsimp only at same ⊢
      split
      · rename_i readers
        rw [if_pos readers] at same
        split
        · rename_i never
          rw [if_pos never] at same
          refine inv.of_alone (alone rfl) (keepE Iff.rfl) (keepS Iff.rfl) ?_
            (fun thread waits => absurd waits (idle thread)) nofun
          rw [same]
          exact ⟨⟨writer, le_rfl, (add_zero _).symm⟩, few.le, fun _ => few⟩
        · rename_i limit
          rw [if_neg limit] at same
          refine inv.of_alone (alone rfl) (keepE Iff.rfl) (releaseS rfl nofun) ?_ ?_ nofun
          · rw [same]
            exact ⟨⟨writer, rfl, le_rfl⟩, few.le, fun _ => few⟩
          · intro thread waits
            obtain rfl := Option.some.inj waits
            rw [Function.update_self]
            exact ⟨rfl, neg_lt_zero.mpr readers⟩
      · rename_i none
        rw [if_neg none] at same
        have nobody : readLocks places = 0 := by omega
        have zero : ((0 : Nat) : Int) < INT_MAX := by decide
        rw [nobody] at same ⊢
        split
        · rename_i never
          rw [if_pos never] at same
          refine inv.of_alone (alone rfl) (keepE Iff.rfl) (keepS Iff.rfl) ?_
            (fun thread waits => absurd waits (idle thread)) nofun
          rw [same]
          exact ⟨⟨rfl, rfl, rfl, rfl⟩, zero.le, fun _ => zero⟩
        · rename_i limit
          rw [if_neg limit] at same
          refine inv.of_alone (alone rfl) (keepE Iff.rfl) (keepS Iff.rfl) ?_
            (fun thread waits => absurd waits (idle thread)) nofun
          rw [same]
          refine ⟨⟨?_, rfl, rfl, rfl⟩, zero.le, fun _ => zero⟩
          change memory.nExclusiveAccessCount + 1 = 1
          rw [writer, zero_add]
  | awake signalled =>
      have same := Nat.add_right_cancel moved
      obtain ⟨counts, bounded, room⟩ := knows rfl
      refine inv.of_alone (alone rfl) (keepE Iff.rfl) (keepS Iff.rfl) ?_
        (inv.waiter_update rfl (fun low ?_ => low) signalled) nofun
      rw [same]
      exact ⟨counts, bounded, fun _ => room rfl⟩
  | wake =>
      have same := Nat.add_right_cancel moved
      obtain ⟨counts, bounded, room⟩ := knows rfl
      refine inv.of_alone (alone rfl) (keepE Iff.rfl) (keepS Iff.rfl) ?_ nofun nofun
      rw [same]
      exact ⟨counts, bounded, fun _ => room rfl⟩
  | lockWoken free =>
      have same := Nat.add_right_cancel moved
      obtain ⟨counts, bounded, room⟩ := knows rfl
      refine inv.of_alone (alone rfl) (keepE Iff.rfl) (owner_acquire inv.completing free rfl) ?_
        (inv.waiter_update rfl (fun low ?_ => low) (active nofun)) nofun
      rw [same]
      exact ⟨counts, bounded, fun _ => room rfl⟩
  | resume =>
      obtain ⟨⟨nE, nC, enough⟩, bounded, room⟩ := knows rfl
      have idle := inv.no_waiter (by rw [here]; rfl) (by rw [here]; exact nofun)
      have same := Nat.add_right_cancel moved
      unfold Memory.resume at same ⊢
      split
      · rename_i low
        rw [if_pos low] at same
        refine inv.of_alone (alone rfl) (keepE Iff.rfl) (releaseS rfl nofun) ?_ ?_ nofun
        · rw [same]
          exact ⟨⟨nE, nC, enough⟩, bounded, fun _ => room rfl⟩
        · intro thread waits
          obtain rfl := Option.some.inj waits
          rw [Function.update_self]
          exact ⟨rfl, low⟩
      · rename_i high
        rw [if_neg high] at same
        have nobody : readLocks places = 0 := by omega
        have zero : (0 : Int) < INT_MAX := by decide
        refine inv.of_alone (alone rfl) (keepE Iff.rfl) (keepS Iff.rfl) ?_
          (fun thread waits => absurd waits (idle thread)) nofun
        rw [same, nobody]
        refine ⟨⟨?_, ?_, rfl, rfl⟩, zero.le, fun _ => zero⟩
        · change memory.nExclusiveAccessCount + 1 = 1
          rw [nE, zero_add]
        · rw [nobody] at nC
          exact nC
  | cancel =>
      have same := Nat.add_right_cancel moved
      obtain ⟨⟨nE, nC, enough⟩, bounded, room⟩ := knows rfl
      have undone : memory.ptw32_rwlock_cancelwrwait.nSharedAccessCount = readLocks places := by
        rw [Memory.ptw32_rwlock_cancelwrwait, nC, neg_neg]
      refine inv.of_alone (alone rfl) (keepE Iff.rfl) (releaseS rfl nofun) ?_ ?_ nofun
      · rw [same]
        refine ⟨⟨nE, le_rfl, ?_⟩, ?_, fun _ => ?_⟩
        · exact undone.trans (add_zero _).symm
        · exact undone.trans_le few.le
        · exact undone.trans_lt few
      · intro thread waits
        have owner : (places self).Exclusive := by
          rw [here]
          rfl
        exact absurd waits (inv.no_waiter owner (by rw [here]; exact nofun) thread)
  | cancelled result =>
      have same := Nat.add_right_cancel moved
      obtain ⟨counts, bounded, room⟩ := knows rfl
      rcases result with rfl | rfl <;>
      · refine inv.of_alone (alone rfl) (releaseE rfl nofun) (keepS Iff.rfl) ?_
          (inv.waiter_update rfl (fun low ?_ => low) (active nofun)) nofun
        rw [same]
        exact ⟨counts, bounded, fun _ => room rfl⟩
  | refusing =>
      have same := Nat.add_right_cancel moved
      obtain ⟨counts, bounded, room⟩ := knows rfl
      refine inv.of_alone (alone rfl) (keepE Iff.rfl) (releaseS rfl nofun) ?_
        (inv.waiter_update rfl (fun low ?_ => low) (active nofun)) nofun
      rw [same]
      exact ⟨counts, bounded, fun _ => room rfl⟩
  | leaving =>
      have same := Nat.add_right_cancel moved
      obtain ⟨counts, bounded, room⟩ := knows rfl
      refine inv.of_alone (alone rfl) (releaseE rfl nofun) (keepS Iff.rfl) ?_
        (inv.waiter_update rfl (fun low ?_ => low) (active nofun)) nofun
      rw [same]
      exact ⟨counts, bounded, fun _ => room rfl⟩
  | lockComplete free =>
      have same := Nat.add_right_cancel moved
      refine inv.of_other (by rw [here]; exact nofun) nofun rfl
        (owner_acquire inv.completing free rfl) ?_
        (inv.waiter_update rfl (fun low ?_ => low) (active nofun)) (fun ?_ => held (.inl rfl))
      intro phase _ known
      rw [same]
      exact ⟨known.counts, known.bounded, known.room⟩
  | @complete reads =>
      have positive : 0 < reads := held (.inr rfl)
      have fewer : readLocks places =
          readLocks (Function.update places self ⟨reads - 1, .returned .success⟩) + 1 := by
        dsimp only at moved
        omega
      have exclusive : memory.complete.mtxExclusiveAccess = memory.mtxExclusiveAccess := by
        rw [complete_eq]
      have shared : memory.complete.nSharedAccessCount = memory.nSharedAccessCount := by
        rw [complete_eq]
      refine inv.of_other (by rw [here]; exact nofun) nofun exclusive (releaseS rfl nofun) ?_ ?_
        nofun
      · intro phase busy known
        refine ⟨known.counts.complete fewer ?_, ?_, ?_⟩
        · -- a writer owns the mutex that this thread has
          rcases busy with rfl | ⟨other, differ, rfl⟩
          · exact nofun
          · intro writing
            have completing : (places other).Completing := completing_of_writing writing
            exact differ (owner_unique inv.completing completing (by rw [here]; rfl))
        · exact shared.trans_le known.bounded
        · exact fun room => shared.trans_lt (known.room room)
      · intro thread waits
        rw [complete_eq] at waits ⊢
        change (if memory.nCompletedSharedAccessCount + 1 = 0 then none
          else memory.cndSharedAccessCompleted) = some thread at waits
        split at waits
        · exact absurd waits nofun
        · rename_i still
          obtain ⟨blocked, low⟩ := inv.waiter thread waits
          have differ : thread ≠ self := by
            rintro rfl
            rw [here] at blocked
            exact absurd blocked nofun
          rw [Function.update_of_ne differ]
          refine ⟨blocked, ?_⟩
          change memory.nCompletedSharedAccessCount + 1 < 0
          omega
  | release =>
      have same := Nat.add_right_cancel moved
      obtain ⟨counts, bounded, room⟩ := knows rfl
      refine inv.of_alone (alone rfl) (releaseE rfl nofun) (keepS Iff.rfl) ?_
        (inv.waiter_update rfl (fun low ?_ => low) (active nofun)) nofun
      rw [same]
      exact ⟨counts, bounded, fun _ => room rfl⟩
  | done =>
      have same := Nat.add_right_cancel moved
      refine inv.of_other (by rw [here]; exact nofun) nofun rfl (keepS Iff.rfl) ?_
        (inv.waiter_update rfl (fun low ?_ => low) (active nofun)) nofun
      intro phase _ known
      rwa [same]

end Inv

section Runs

variable [DecidableEq Thread]

/-- There is room for one more read lock, and a timed call does not give up while it settles the
counts. -/
def Good (config : Configuration Thread (Memory Thread) Place) (action : Thread × Label) : Prop :=
  (readLocks config.places : Int) < INT_MAX ∧ Patient (config.places action.1) action.2

theorem inv_start : Inv (program Thread).memory fun _ : Thread => (program Thread).entry where
  exclusive _ := iff_of_false nofun nofun
  completing _ := iff_of_false nofun nofun
  free _ := by
    have nobody : readLocks (fun _ : Thread => (program Thread).entry) = 0 := total_entry rfl
    have zero : (0 : Int) < INT_MAX := by decide
    rw [nobody]
    exact ⟨⟨rfl, le_rfl, rfl⟩, zero.le, fun _ => zero⟩
  known _ := nofun
  waiter _ := nofun
  holder _ := by rintro (completing | completed) <;> contradiction

theorem inv_of_reachable {config : Configuration Thread (Memory Thread) Place}
    (reached : (program Thread).system.Reachable Good config) : Inv config.memory config.places := by
  apply Program.invariant reached Inv inv_start
  intro memory places thread label next place inv good taken
  exact inv.moves good.1 (moves_of_step taken good.2)

omit [DecidableEq Thread] in
/-- A writer that is not signalled waits for a read lock. -/
theorem Inv.awake {memory : Memory Thread} {places : Thread → Place} (inv : Inv memory places)
    {writer : Thread} (waits : memory.cndSharedAccessCompleted = some writer) :
    0 < readLocks places := by
  obtain ⟨blocked, low⟩ := inv.waiter writer waits
  have counts := (inv.known writer (by rw [Place.Exclusive, blocked]; rfl)).counts
  rw [blocked] at counts
  obtain ⟨-, completed, -⟩ := counts
  omega

/-- A writer is alone, the counters tell how many read locks are held, a writer is not blocked
without a reader, and a call that returns has unlocked both mutexes. -/
structure Safe (config : Configuration Thread (Memory Thread) Place) : Prop where
  alone : ∀ writer, (config.places writer).phase = .writing → readLocks config.places = 0 ∧
    ∀ other, (config.places other).phase = .writing → other = writer
  counted : config.memory.mtxExclusiveAccess = none → config.memory.nExclusiveAccessCount = 0 ∧
    config.memory.nSharedAccessCount - config.memory.nCompletedSharedAccessCount =
      readLocks config.places ∧ 0 ≤ config.memory.nCompletedSharedAccessCount
  bounded : config.memory.nSharedAccessCount ≤ INT_MAX ∧ 0 ≤ config.memory.nSharedAccessCount ∧
    -INT_MAX ≤ config.memory.nCompletedSharedAccessCount ∧
      config.memory.nCompletedSharedAccessCount ≤ INT_MAX
  waiting : ∀ writer, (config.places writer).phase = .blocked →
    config.memory.nCompletedSharedAccessCount = -readLocks config.places
  awake : ∀ writer, config.memory.cndSharedAccessCompleted = some writer →
    0 < readLocks config.places
  released : ∀ thread result, (config.places thread).phase = .returned result →
    config.memory.mtxExclusiveAccess ≠ some thread ∧
      config.memory.mtxSharedAccessCompleted ≠ some thread

/-- The lock is safe and its counters stay in the range of an `int`. -/
theorem rwlock_safe {config : Configuration Thread (Memory Thread) Place}
    (reached : (program Thread).system.Reachable Good config) : Safe config := by
  have inv := inv_of_reachable reached
  have exclusive_of_mode : ∀ thread, (config.places thread).phase.mode ≠ .reading →
      (config.places thread).Exclusive := by
    intro thread mode
    by_contra other
    exact mode (mode_of_not_exclusive other).1
  refine ⟨?_, ?_, ?_, ?_, ?_, ?_⟩
  · intro writer writing
    have owner := exclusive_of_mode writer (by rw [writing]; exact nofun)
    have counts := (inv.known writer owner).counts
    rw [writing] at counts
    refine ⟨counts.2.2.2, fun other also => ?_⟩
    exact owner_unique inv.exclusive (exclusive_of_mode other (by rw [also]; exact nofun)) owner
  · intro free
    obtain ⟨writers, low, shared⟩ := (inv.free free).counts
    exact ⟨writers, sub_eq_of_eq_add shared, low⟩
  · obtain ⟨phase, known⟩ := inv.explained
    exact ⟨known.bounded, known.range⟩
  · intro writer blocked
    have counts := (inv.known writer
      (exclusive_of_mode writer (by rw [blocked]; exact nofun))).counts
    rw [blocked] at counts
    exact counts.2.1
  · exact fun writer waits => inv.awake waits
  · intro thread result returned
    constructor
    · intro owns
      have holds := (inv.exclusive thread).mp owns
      rw [Place.Exclusive, returned] at holds
      exact absurd holds nofun
    · intro owns
      have holds := (inv.completing thread).mp owns
      rw [Place.Completing, returned] at holds
      exact absurd holds nofun

end Runs

/-- This tells whether an action is good. -/
def good (config : Configuration Bool (Memory Bool) Place) (action : Bool × Label) : Bool :=
  (readLocks config.places : Int) < INT_MAX && match (config.places action.1).phase with
    | .overflowing _ => action.2 = .go
    | _ => true

theorem good_sound (config : Configuration Bool (Memory Bool) Place) (action : Bool × Label)
    (passed : good config action = true) : Good config action := by
  obtain ⟨few, patient⟩ := Bool.and_eq_true_iff.mp passed
  refine ⟨of_decide_eq_true few, fun wait overflowing => ?_⟩
  rw [overflowing] at patient
  exact of_decide_eq_true patient

/-- A writer waits for the only reader, and it is signalled. -/
def handedOver : List (Bool × Label) :=
  [(false, .rdlock .forever), (false, .go), (false, .go), (false, .go), (true, .wrlock .limited),
    (true, .go), (true, .go), (false, .unlock), (false, .go), (false, .go), (true, .go),
    (true, .go), (true, .go)]

theorem handedOver_counted : ∃ config, (program Bool).system.run handedOver = some config ∧
    (config.places true).phase = .writing ∧ Safe config := by
  obtain ⟨config, ran, writes⟩ : ∃ config, (program Bool).system.run handedOver = some config ∧
      (config.places true).phase = .writing := ⟨_, rfl, rfl⟩
  refine ⟨config, ran, writes, rwlock_safe (System.reachable_of_along ?_ ran)⟩
  exact System.along_of_tested good_sound (by decide)

end RwLock

namespace RwLock

/-- This thread is not in a call and holds nothing, or it has exited. -/
def Idle (place : Place) : Prop := place = ⟨0, .outside⟩ ∨ place.phase = .exited

variable {Thread : Type} [DecidableEq Thread] {self : Thread} {memory : Memory Thread}
  {place : Place}

/-- A thread can go on with its call or give back what it holds. -/
def Able (self : Thread) (memory : Memory Thread) (place : Place) : Prop :=
  step self memory place .go ≠ none ∨ step self memory place .unlock ≠ none

/-- No thread can go on with its call or give back what it holds. -/
def Stuck (config : Configuration Thread (Memory Thread) Place) : Prop :=
  ∀ thread, ¬ Able thread config.memory (config.places thread)

/-- The owner of the mutex for the finished read locks never waits. -/
theorem able_of_completing (owner : place.Completing) : Able self memory place := by
  obtain ⟨reads, phase⟩ := place
  cases phase with
  | writing => exact .inr nofun
  | checking interrupt => cases interrupt <;> exact .inl nofun
  | resetting | deciding _ | refusing | completed => exact .inl nofun
  | _ => exact absurd owner nofun

theorem not_able_of_idle (idle : Idle place) : ¬ Able self memory place := by
  obtain ⟨reads, phase⟩ := place
  rintro (goes | unlocks)
  · rcases idle with same | exited
    · obtain ⟨rfl, rfl⟩ := Place.mk.inj same
      exact goes rfl
    · obtain rfl : phase = .exited := exited
      exact goes rfl
  · rcases idle with same | exited
    · obtain ⟨rfl, rfl⟩ := Place.mk.inj same
      exact unlocks rfl
    · obtain rfl : phase = .exited := exited
      exact unlocks rfl

theorem not_able_of_waiter (blocked : place.phase = .blocked)
    (waits : memory.cndSharedAccessCompleted = some self) : ¬ Able self memory place := by
  obtain ⟨reads, phase⟩ := place
  obtain rfl : phase = .blocked := blocked
  rintro (goes | unlocks)
  · exact goes (if_pos waits)
  · exact unlocks rfl

/-- Only a thread that is blocked on the condition waits when both mutexes can be locked. -/
theorem idle_or_waiter (free : memory.mtxSharedAccessCompleted = none)
    (stuck : ¬ Able self memory place) :
    Idle place ∨ memory.cndSharedAccessCompleted = some self := by
  obtain ⟨reads, phase⟩ := place
  rw [Able, not_or, not_not, not_not] at stuck
  obtain ⟨goes, unlocks⟩ := stuck
  cases phase with
  | outside =>
      refine .inl (.inl ?_)
      change (if 0 < reads then some (memory.unlock reads) else none) = none at unlocks
      split at unlocks
      · exact absurd unlocks nofun
      · rename_i nothing
        rw [Nat.eq_zero_of_not_pos nothing]
  | exited => exact .inl (.inr rfl)
  | blocked =>
      refine .inr ?_
      by_contra signalled
      exact absurd ((if_neg signalled).symm.trans goes) nofun
  | checking interrupt => cases interrupt <;> exact absurd goes nofun
  | cancelling interrupt => cases interrupt <;> exact absurd goes nofun
  | writing => exact absurd unlocks nofun
  | overflowing _ | entering _ | woken _ | completing =>
      exact absurd ((if_pos free).symm.trans goes) nofun
  | _ => exact absurd goes nofun

variable [Fintype Thread]

/-- A thread that holds a read lock asks for the write lock. -/
def upgraded : List (Bool × Label) :=
  [(false, .rdlock .forever), (false, .go), (false, .go), (false, .go), (false, .wrlock .forever),
    (false, .go), (false, .go)]

end RwLock

end CodeCollect.Pthreads
