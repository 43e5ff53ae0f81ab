import CodeCollect.Pthreads.RobustMutex

namespace CodeCollect.Pthreads

open CodeCollect.Library Program

namespace RobustMutex

variable {Thread : Type} [DecidableEq Thread]

/-- These are all moves of one thread, each with what it needs and what it changes. -/
inductive Moves (kind : MutexKind) (self : Thread) :
    Memory Thread → Place Thread → Memory Thread → Place Thread → Prop
  | call {memory depth request} : Moves kind self memory ⟨depth, .idle⟩
      memory ⟨depth, Request.start request⟩
  | exit {memory depth} : Moves kind self memory ⟨depth, .idle⟩ memory ⟨depth, .leaving⟩
  | take {memory depth} : depth ≠ 0 →
      Moves kind self memory ⟨depth, .leaving⟩ memory ⟨depth, .removing true⟩
  | vanish {memory depth} : depth = 0 →
      Moves kind self memory ⟨depth, .leaving⟩ memory ⟨depth, .gone⟩
  | leave {memory depth result} : Moves kind self memory ⟨depth, .returning result⟩
      memory ⟨depth, .idle⟩
  | refuse {memory depth timed} : memory.stateInconsistent = .notRecoverable →
      Moves kind self memory ⟨depth, .flagTest timed⟩ memory ⟨depth, .returning .ENOTRECOVERABLE⟩
  | passNormal {memory depth timed} : memory.stateInconsistent ≠ .notRecoverable →
      kind = .normal →
      Moves kind self memory ⟨depth, .flagTest timed⟩ memory ⟨depth, .exchanging timed⟩
  | pass {memory depth timed} : memory.stateInconsistent ≠ .notRecoverable → kind ≠ .normal →
      Moves kind self memory ⟨depth, .flagTest timed⟩ memory ⟨depth, .comparing timed⟩
  | unlisted {memory depth} : memory.lock_idx = 0 →
      Moves kind self memory ⟨depth, .exchanging true⟩
        { memory with lock_idx := 1 } ⟨depth + 1, .returning .ok⟩
  | exchange {memory depth} : memory.lock_idx = 0 →
      Moves kind self memory ⟨depth, .exchanging false⟩
        { memory with lock_idx := 1 } ⟨depth, .adding .ok .owner⟩
  | erase {memory depth timed} : memory.lock_idx ≠ 0 →
      Moves kind self memory ⟨depth, .exchanging timed⟩
        { memory with lock_idx := 1 } ⟨depth, .inheriting timed⟩
  | compare {memory depth timed} : memory.lock_idx = 0 →
      Moves kind self memory ⟨depth, .comparing timed⟩
        { memory with lock_idx := 1 } ⟨depth, .assigningCount .ok⟩
  | busy {memory depth timed} : memory.lock_idx ≠ 0 →
      Moves kind self memory ⟨depth, .comparing timed⟩ memory ⟨depth, .ownerTest timed⟩
  | relock {memory depth timed} : memory.ownerThread = some self → kind = .recursive →
      Moves kind self memory ⟨depth, .ownerTest timed⟩ memory ⟨depth, .counting⟩
  | deadlock {memory depth timed} : memory.ownerThread = some self → kind ≠ .recursive →
      Moves kind self memory ⟨depth, .ownerTest timed⟩ memory ⟨depth, .returning .EDEADLK⟩
  | contend {memory depth timed} : memory.ownerThread ≠ some self →
      Moves kind self memory ⟨depth, .ownerTest timed⟩ memory ⟨depth, .inheriting timed⟩
  | count {memory depth} : Moves kind self memory ⟨depth, .counting⟩
      { memory with recursive_count := memory.recursive_count + 1 } ⟨depth + 1, .returning .ok⟩
  | takeOver {memory depth timed} : memory.stateInconsistent = .terminated →
      Moves kind self memory ⟨depth, .inheriting timed⟩
        { memory with stateInconsistent := .inconsistent }
        ⟨depth, afterLoop kind timed .EOWNERDEAD⟩
  | giveUp {memory depth timed} : memory.stateInconsistent = .notRecoverable →
      Moves kind self memory ⟨depth, .inheriting timed⟩ memory
        ⟨depth, afterLoop kind timed .ENOTRECOVERABLE⟩
  | persist {memory depth timed} : memory.stateInconsistent ≠ .terminated →
      memory.stateInconsistent ≠ .notRecoverable →
      Moves kind self memory ⟨depth, .inheriting timed⟩ memory ⟨depth, .marking timed⟩
  | acquire {memory depth timed} : memory.lock_idx = 0 →
      Moves kind self memory ⟨depth, .marking timed⟩
        { memory with lock_idx := -1 } ⟨depth, afterLoop kind timed .ok⟩
  | mark {memory depth timed} : memory.lock_idx ≠ 0 →
      Moves kind self memory ⟨depth, .marking timed⟩
        { memory with lock_idx := -1 } ⟨depth, .waiting timed⟩
  | wakeTimed {memory depth} : memory.event = true → kind ≠ .normal →
      Moves kind self memory ⟨depth, .waiting true⟩
        { memory with event := false } ⟨depth, .inheriting true⟩
  | wake {memory depth timed} : memory.event = true → (timed = true → kind = .normal) →
      Moves kind self memory ⟨depth, .waiting timed⟩
        { memory with event := false } ⟨depth, .retesting timed⟩
  | timeout {memory depth} : Moves kind self memory ⟨depth, .waiting true⟩
      memory ⟨depth, .returning .ETIMEDOUT⟩
  | retestFails {memory depth timed} : memory.stateInconsistent = .notRecoverable →
      Moves kind self memory ⟨depth, .retesting timed⟩ memory ⟨depth, .unblocking⟩
  | retest {memory depth timed} : memory.stateInconsistent ≠ .notRecoverable →
      Moves kind self memory ⟨depth, .retesting timed⟩ memory ⟨depth, .inheriting timed⟩
  | unblock {memory depth} : Moves kind self memory ⟨depth, .unblocking⟩
      { memory with event := true } ⟨depth, .returning .ENOTRECOVERABLE⟩
  | recheckFails {memory depth result} : memory.stateInconsistent = .notRecoverable →
      Moves kind self memory ⟨depth, .rechecking result⟩ memory ⟨depth, .unblocking⟩
  | recheck {memory depth result} : memory.stateInconsistent ≠ .notRecoverable →
      result = .ok ∨ result = .EOWNERDEAD →
      Moves kind self memory ⟨depth, .rechecking result⟩ memory ⟨depth, .assigningCount result⟩
  | recheckOther {memory depth result} : memory.stateInconsistent ≠ .notRecoverable →
      ¬ (result = .ok ∨ result = .EOWNERDEAD) →
      Moves kind self memory ⟨depth, .rechecking result⟩ memory ⟨depth, .returning result⟩
  | assignCount {memory depth result} : Moves kind self memory ⟨depth, .assigningCount result⟩
      { memory with recursive_count := 1 } ⟨depth, .adding result .owner⟩
  | assignOwner {memory depth result} : Moves kind self memory ⟨depth, .adding result .owner⟩
      { memory with ownerThread := some self } ⟨depth, .adding result .prev⟩
  | addPrev {memory depth result} : Moves kind self memory ⟨depth, .adding result .prev⟩
      memory ⟨depth, .adding result .next⟩
  | addNext {memory depth result} : Moves kind self memory ⟨depth, .adding result .next⟩
      memory ⟨depth, .adding result .back⟩
  | addBack {memory depth result} : Moves kind self memory ⟨depth, .adding result .back⟩
      memory ⟨depth, .adding result .head⟩
  | addHead {memory depth result} : Moves kind self memory ⟨depth, .adding result .head⟩
      memory ⟨depth + 1, .returning result⟩
  | tryRefuse {memory depth} : memory.stateInconsistent = .notRecoverable →
      Moves kind self memory ⟨depth, .tryFlagTest⟩ memory ⟨depth, .returning .ENOTRECOVERABLE⟩
  | tryPass {memory depth} : memory.stateInconsistent ≠ .notRecoverable →
      Moves kind self memory ⟨depth, .tryFlagTest⟩ memory ⟨depth, .trying⟩
  | tryAcquire {memory depth} : memory.lock_idx = 0 →
      Moves kind self memory ⟨depth, .trying⟩
        { memory with lock_idx := 1 } ⟨depth, acquired kind .ok⟩
  | tryOwner {memory depth} : memory.lock_idx ≠ 0 → kind = .recursive →
      Moves kind self memory ⟨depth, .trying⟩ memory ⟨depth, .tryOwnerTest⟩
  | tryBusy {memory depth} : memory.lock_idx ≠ 0 → kind ≠ .recursive →
      Moves kind self memory ⟨depth, .trying⟩ memory ⟨depth, .tryInheriting⟩
  | tryAgain {memory depth} : memory.ownerThread = some self →
      Moves kind self memory ⟨depth, .tryOwnerTest⟩ memory ⟨depth, .counting⟩
  | tryOther {memory depth} : memory.ownerThread ≠ some self →
      Moves kind self memory ⟨depth, .tryOwnerTest⟩ memory ⟨depth, .tryInheriting⟩
  | tryTakeOver {memory depth} : memory.stateInconsistent = .terminated →
      Moves kind self memory ⟨depth, .tryInheriting⟩
        { memory with stateInconsistent := .inconsistent } ⟨depth, .assigningCount .EOWNERDEAD⟩
  | tryFails {memory depth result} : memory.stateInconsistent ≠ .terminated →
      Moves kind self memory ⟨depth, .tryInheriting⟩ memory ⟨depth, .returning result⟩
  | owned {memory depth} : memory.ownerThread = some self →
      Moves kind self memory ⟨depth, .unlockTest⟩ memory ⟨depth, .spoiling⟩
  | forbidden {memory depth} : memory.ownerThread ≠ some self →
      Moves kind self memory ⟨depth, .unlockTest⟩ memory ⟨depth, .returning .EPERM⟩
  | spoil {memory depth} : Moves kind self memory ⟨depth, .spoiling⟩
      { memory with stateInconsistent :=
          if memory.stateInconsistent = .inconsistent then .notRecoverable
          else memory.stateInconsistent }
        ⟨depth, if kind = .recursive then .decrementing else .removing false⟩
  | last {memory depth} : memory.recursive_count - 1 = 0 →
      Moves kind self memory ⟨depth, .decrementing⟩
        { memory with recursive_count := memory.recursive_count - 1 } ⟨depth, .removing false⟩
  | inner {memory depth} : memory.recursive_count - 1 ≠ 0 →
      Moves kind self memory ⟨depth, .decrementing⟩
        { memory with recursive_count := memory.recursive_count - 1 } ⟨depth - 1, .returning .ok⟩
  | disown {memory depth list} : memory.ownerThread = some list →
      Moves kind self memory ⟨depth, .removing false⟩
        { memory with ownerThread := none } ⟨depth - 1, .unlinking false list .next⟩
  | bequeath {memory depth list} : memory.ownerThread = some list →
      Moves kind self memory ⟨depth, .removing true⟩
        { memory with ownerThread := some self } ⟨0, .unlinking true list .next⟩
  | unlinkNext {memory depth exiting list} :
      Moves kind self memory ⟨depth, .unlinking exiting list .next⟩
        memory ⟨depth, .unlinking exiting list .prev⟩
  | unlinkPrev {memory depth exiting list} :
      Moves kind self memory ⟨depth, .unlinking exiting list .prev⟩
        memory ⟨depth, .unlinking exiting list .head⟩
  | unlinkHead {memory depth list} :
      Moves kind self memory ⟨depth, .unlinking false list .head⟩ memory ⟨depth, .releasing⟩
  | unlinkLast {memory depth list} :
      Moves kind self memory ⟨depth, .unlinking true list .head⟩ memory ⟨depth, .orphaning⟩
  | releaseMarked {memory depth} : memory.lock_idx < 0 →
      Moves kind self memory ⟨depth, .releasing⟩
        { memory with lock_idx := 0 } ⟨depth, .signalling⟩
  | release {memory depth} : 0 ≤ memory.lock_idx →
      Moves kind self memory ⟨depth, .releasing⟩
        { memory with lock_idx := 0 } ⟨depth, .returning .ok⟩
  | signal {memory depth} : Moves kind self memory ⟨depth, .signalling⟩
      { memory with event := true } ⟨depth, .returning .ok⟩
  | repair {memory depth} : memory.stateInconsistent = .inconsistent →
      Moves kind self memory ⟨depth, .repairing⟩
        { memory with stateInconsistent := .consistent } ⟨depth, .returning .ok⟩
  | unneeded {memory depth} : memory.stateInconsistent ≠ .inconsistent →
      Moves kind self memory ⟨depth, .repairing⟩ memory ⟨depth, .returning .EINVAL⟩
  | orphan {memory depth} : Moves kind self memory ⟨depth, .orphaning⟩
      { memory with stateInconsistent := .terminated } ⟨depth, .mourning⟩
  | mourn {memory depth} : Moves kind self memory ⟨depth, .mourning⟩
      { memory with event := true } ⟨depth, .leaving⟩

variable {kind : MutexKind} {self : Thread} {memory next : Memory Thread}
  {place reached : Place Thread} {label : Label}

omit [DecidableEq Thread] in
/-- `ptw32_robust_mutex_inherit` goes one of three ways. -/
theorem moves_of_inherit (Reaches : Memory Thread → Point Thread → Prop)
    (found : Result → Point Thread)
    (terminated : memory.stateInconsistent = .terminated →
      Reaches { memory with stateInconsistent := .inconsistent } (found .EOWNERDEAD))
    (lost : memory.stateInconsistent = .notRecoverable → Reaches memory (found .ENOTRECOVERABLE))
    (other : memory.stateInconsistent ≠ .terminated → memory.stateInconsistent ≠ .notRecoverable →
      Reaches memory (found .ok)) :
    Reaches { memory with stateInconsistent := (inherit memory.stateInconsistent).1 }
      (found (inherit memory.stateInconsistent).2) := by
  obtain ⟨lock_idx, recursive_count, ownerThread, state, event⟩ := memory
  cases state with
  | terminated => exact terminated rfl
  | notRecoverable => exact lost rfl
  | consistent => exact other nofun nofun
  | inconsistent => exact other nofun nofun

/-- A step is one of the moves. -/
theorem moves_of_step (taken : step kind self memory place label = some (next, reached)) :
    Moves kind self memory place next reached := by
  unfold step at taken
  split at taken
  case h_1 => exact step_some taken .call
  case h_2 => exact step_some taken .exit
  case h_3 => exact step_when taken .take
  case h_4 => exact step_when taken .vanish
  case h_5 => exact step_some taken .leave
  case h_6 =>
    refine step_some taken ?_
    split
    · rename_i lost
      exact .refuse lost
    · rename_i recoverable
      split
      · rename_i normal
        exact .passNormal recoverable normal
      · rename_i differs
        exact .pass recoverable differs
  case h_7 depth timed =>
    split at taken
    · rename_i idle
      cases timed with
      | false => exact step_some taken (.exchange idle)
      | true => exact step_some taken (.unlisted idle)
    · rename_i held
      exact step_some taken (.erase held)
  case h_8 => exact step_ite taken .compare .busy
  case h_9 =>
    refine step_some taken ?_
    split
    · rename_i owned
      split
      · rename_i recursive
        exact .relock owned recursive
      · rename_i differs
        exact .deadlock owned differs
    · rename_i foreign
      exact .contend foreign
  case h_10 => exact step_some taken .count
  case h_11 depth timed =>
    refine step_some taken ?_
    exact moves_of_inherit
      (fun next point => Moves kind self memory _ next ⟨depth, point⟩)
      (fun result => if result = .ok then .marking timed else afterLoop kind timed result)
      .takeOver .giveUp .persist
  case h_12 =>
    refine step_some taken ?_
    split
    · rename_i idle
      exact .acquire idle
    · rename_i held
      exact .mark held
  case h_13 depth timed =>
    refine step_when taken fun set => ?_
    split
    · rename_i both
      obtain ⟨rfl, differs⟩ := both
      exact .wakeTimed set differs
    · rename_i others
      exact .wake set fun timed => by simpa [timed] using others
  case h_14 => exact step_some taken .timeout
  case h_15 =>
    refine step_some taken ?_
    split
    · rename_i lost
      exact .retestFails lost
    · rename_i recoverable
      exact .retest recoverable
  case h_16 => exact step_some taken .unblock
  case h_17 =>
    refine step_some taken ?_
    split
    · rename_i lost
      exact .recheckFails lost
    · rename_i recoverable
      split
      · rename_i acquired
        exact .recheck recoverable acquired
      · rename_i other
        exact .recheckOther recoverable other
  case h_18 => exact step_some taken .assignCount
  case h_19 => exact step_some taken .assignOwner
  case h_20 => exact step_some taken .addPrev
  case h_21 => exact step_some taken .addNext
  case h_22 => exact step_some taken .addBack
  case h_23 => exact step_some taken .addHead
  case h_24 =>
    refine step_some taken ?_
    split
    · rename_i lost
      exact .tryRefuse lost
    · rename_i recoverable
      exact .tryPass recoverable
  case h_25 =>
    split at taken
    · rename_i idle
      exact step_some taken (.tryAcquire idle)
    · rename_i held
      refine step_some taken ?_
      split
      · rename_i recursive
        exact .tryOwner held recursive
      · rename_i differs
        exact .tryBusy held differs
  case h_26 =>
    refine step_some taken ?_
    split
    · rename_i owned
      exact .tryAgain owned
    · rename_i foreign
      exact .tryOther foreign
  case h_27 depth =>
    refine step_some taken ?_
    exact moves_of_inherit
      (fun next point => Moves kind self memory _ next ⟨depth, point⟩)
      (fun result => if result = .EOWNERDEAD then .assigningCount .EOWNERDEAD
        else if result = .ok then .returning .EBUSY else .returning result)
      .tryTakeOver (fun lost => .tryFails (by simp [lost])) fun alive _ => .tryFails alive
  case h_28 =>
    refine step_some taken ?_
    split
    · rename_i owned
      exact .owned owned
    · rename_i foreign
      exact .forbidden foreign
  case h_29 => exact step_some taken .spoil
  case h_30 => exact step_ite taken .last .inner
  case h_31 depth exiting =>
    obtain ⟨list, owned, same⟩ := Option.map_eq_some_iff.mp taken
    obtain ⟨rfl, rfl⟩ := Prod.mk.inj same
    cases exiting with
    | false => exact .disown owned
    | true => exact .bequeath owned
  case h_32 => exact step_some taken .unlinkNext
  case h_33 => exact step_some taken .unlinkPrev
  case h_34 depth exiting list =>
    cases exiting with
    | false => exact step_some taken .unlinkHead
    | true => exact step_some taken .unlinkLast
  case h_35 =>
    refine step_some taken ?_
    split
    · rename_i marked
      exact .releaseMarked marked
    · rename_i unmarked
      exact .release (not_lt.mp unmarked)
  case h_36 => exact step_some taken .signal
  case h_37 => exact step_ite taken .repair .unneeded
  case h_38 => exact step_some taken .orphan
  case h_39 => exact step_some taken .mourn
  case h_40 => exact absurd taken (by simp)

end RobustMutex

end CodeCollect.Pthreads
