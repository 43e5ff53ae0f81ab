import CodeCollect.Pthreads.MutexDestroySound

namespace CodeCollect.Pthreads

open CodeCollect.Library

namespace MutexDestroy

open RobustMutex (RobustState Result)

variable {Name Thread : Type} [DecidableEq Name] [DecidableEq Thread]

section Exit

variable {state : State Name Thread} {self : Thread} {name other : Name}

theorem orphan_mutex (owned : (state.mutex name).ownerThread = some self) :
    (state.orphan self name).mutex name =
      { state.mutex name with
        ownerThread := some self, stateInconsistent := .terminated, event := true } := by
  rw [State.orphan, State.update_mutex, State.robustMutexRemove_mutex owned]

theorem orphan_robustMxList (owned : (state.mutex name).ownerThread = some self) :
    (state.orphan self name).robustMxList =
      Function.update state.robustMxList self ((state.robustMxList self).erase name) := by
  rw [State.orphan, State.update_robustMxList, State.robustMutexRemove_robustMxList owned]

theorem only_orphan (owned : (state.mutex name).ownerThread = some self) :
    Only name state (state.orphan self name) :=
  (State.only_robustMutexRemove owned).trans State.only_update

theorem orphan_pointer (owned : (state.mutex name).ownerThread = some self) :
    (state.orphan self name).pointer = state.pointer := by
  rw [State.orphan, State.update_pointer, State.robustMutexRemove_pointer owned]

/-- A thread that exits leaves every mutex of its list to the next owner. -/
theorem exit_spec (distinct : (state.robustMxList self).Nodup)
    (owned : ∀ name ∈ state.robustMxList self, (state.mutex name).ownerThread = some self) :
    (state.exit self (state.robustMxList self).length).pointer = state.pointer ∧
      (state.exit self (state.robustMxList self).length).robustMxList =
        Function.update state.robustMxList self [] ∧
      ∀ name, (state.exit self (state.robustMxList self).length).mutex name =
        if name ∈ state.robustMxList self then
          { state.mutex name with
            ownerThread := some self, stateInconsistent := .terminated, event := true }
        else state.mutex name := by
  generalize listed : state.robustMxList self = names at distinct owned
  induction names generalizing state with
  | nil =>
      refine ⟨rfl, ?_, fun name => (if_neg List.not_mem_nil).symm⟩
      change state.robustMxList = _
      rw [← listed, Function.update_eq_self]
  | cons first names ih =>
      obtain ⟨fresh, distinct⟩ := List.nodup_cons.mp distinct
      have own := owned first List.mem_cons_self
      have rest : (state.orphan self first).robustMxList self = names := by
        rw [orphan_robustMxList own, Function.update_self, listed, List.erase_cons_head]
      have elsewhere : ∀ name ∈ names, (state.orphan self first).mutex name = state.mutex name :=
        fun name member => (only_orphan own).mutex name fun same => fresh (same ▸ member)
      obtain ⟨pointer, lists, mutexes⟩ := ih rest distinct fun name member => by
        rw [elsewhere name member]
        exact owned name (List.mem_cons_of_mem first member)
      rw [List.length_cons, State.exit, listed]
      dsimp only
      refine ⟨pointer.trans (orphan_pointer own), ?_, fun name => ?_⟩
      · rw [lists, orphan_robustMxList own, Function.update_idem]
      · rw [mutexes]
        by_cases same : name = first
        · subst same
          rw [if_neg fresh, if_pos List.mem_cons_self, orphan_mutex own]
        · rw [(only_orphan own).mutex name same]
          simp only [List.mem_cons, same, false_or]

end Exit

/-- Every mutex that has been initialised is right for its holder, and the others are not held. -/
structure World.Kept (world : World Name Thread) : Prop where
  sound : ∀ name, world.state.pointer name = .object →
    Sound world.exited (name ∈ world.state.robustMxList ·) (world.state.mutex name)
      (world.holder name)
  static : ∀ name, world.state.pointer name ≠ .object →
    (∃ kind, world.state.pointer name = .initializer kind ∧ 0 ≤ kind ∧ kind ≤ 2) ∧
      world.holder name = none ∧ ∀ thread, name ∉ world.state.robustMxList thread
  distinct : ∀ thread, (world.state.robustMxList thread).Nodup
  waiting : ∀ thread name, world.waiting thread = some name →
    world.state.pointer name = .object ∧ world.exited thread = false

namespace World

variable {world next : World Name Thread} {self : Thread} {name : Name}

omit [DecidableEq Name] [DecidableEq Thread] in
theorem Kept.at (kept : world.Kept) (pointer : world.state.pointer name = .object) :
    At world.exited world.state name (world.holder name) :=
  ⟨pointer, kept.sound name pointer, kept.distinct⟩

omit [DecidableEq Thread] in
/-- A change of one mutex leaves the others right. -/
theorem Kept.changed (kept : world.Kept) {after : State Name Thread}
    {holder : Option (Thread × Nat)} (leads : Leads world.exited name world.state after holder)
    {waiting : Thread → Option Name} (waits : ∀ thread other, waiting thread = some other →
      world.waiting thread = some other ∨ other = name ∧ world.exited thread = false) :
    Kept { world with
      state := after, holder := Function.update world.holder name holder, waiting := waiting } where
  sound := by
    intro other pointer
    by_cases same : other = name
    · subst same
      dsimp only
      rw [Function.update_self]
      exact leads.there.sound
    · dsimp only at *
      rw [Function.update_of_ne same, leads.only.mutex other same]
      rw [leads.only.pointer other same] at pointer
      have old := kept.sound other pointer
      refine ⟨old.kind, old.free, old.owner, old.depth, fun thread => ?_, old.terminated,
        old.inconsistent⟩
      rw [leads.only.lists thread other same]
      exact old.listed thread
  static := by
    intro other pointer
    have same : other ≠ name := by
      rintro rfl
      exact pointer leads.there.pointer
    dsimp only at *
    rw [leads.only.pointer other same] at pointer ⊢
    rw [Function.update_of_ne same]
    obtain ⟨initializer, unheld, unlisted⟩ := kept.static other pointer
    refine ⟨initializer, unheld, fun thread => ?_⟩
    rw [leads.only.lists thread other same]
    exact unlisted thread
  distinct := leads.there.distinct
  waiting := by
    intro thread other waited
    rcases waits thread other waited with old | ⟨rfl, live⟩
    · obtain ⟨pointer, live⟩ := kept.waiting thread other old
      refine ⟨?_, live⟩
      by_cases same : other = name
      · subst same
        exact leads.there.pointer
      · dsimp only
        rw [leads.only.pointer other same]
        exact pointer
    · exact ⟨leads.there.pointer, live⟩

omit [DecidableEq Thread] in
/-- A static mutex is initialised before it is locked. -/
theorem Kept.checkNeedInit (kept : world.Kept) (name : Name) :
    Leads world.exited name world.state (world.state.checkNeedInit name) (world.holder name) := by
  by_cases object : world.state.pointer name = .object
  · rw [checkNeedInit_object object]
    exact (kept.at object).leads
  · obtain ⟨⟨kind, pointer, positive, small⟩, unheld, unlisted⟩ := kept.static name object
    rw [State.checkNeedInit, pointer, unheld]
    refine ⟨⟨fun other apart => Function.update_of_ne apart ..,
      fun other apart => Function.update_of_ne apart .., fun _ _ _ => Iff.rfl, fun _ => id⟩,
      Function.update_self .., ?_, kept.distinct⟩
    change Sound _ _ ((world.state.update name fun _ => initialised Thread kind).mutex name) none
    rw [State.update_mutex]
    exact Sound.released ⟨by change -3 ≤ kind; omega, small⟩ rfl (fun _ => rfl) unlisted
      fun robust => absurd positive (not_le.mpr robust)

theorem lock_checkNeedInit {state : State Name Thread} (pointer : state.pointer name ≠ .null)
    (object : (state.checkNeedInit name).pointer name = .object) :
    state.lock self name = (state.checkNeedInit name).lock self name := by
  rw [State.lock, if_neg pointer]
  symm
  rw [State.lock, if_neg (by rw [object]; exact Pointer.noConfusion), checkNeedInit_object object]

theorem trylock_checkNeedInit {state : State Name Thread}
    (object : (state.checkNeedInit name).pointer name = .object) :
    state.trylock self name = (state.checkNeedInit name).trylock self name := by
  rw [State.trylock, State.trylock, checkNeedInit_object object]

omit [DecidableEq Name] in
/-- Only the calling thread begins to wait, or ends to wait. -/
theorem waited_before {chosen : Option Name} {thread : Thread} {other : Name}
    (waited : Function.update world.waiting self chosen thread = some other) :
    world.waiting thread = some other ∨ thread = self ∧ chosen = some other := by
  by_cases same : thread = self
  · rw [same, Function.update_self] at waited
    exact Or.inr ⟨same, waited⟩
  · rw [Function.update_of_ne same] at waited
    exact Or.inl waited

/-- A lock-type call ends with a right mutex, or it waits for it. -/
theorem Kept.locking (kept : world.Kept) (live : world.exited self = false)
    {outcome : Option Result × State Name Thread}
    (outcomes : (outcome.1 = none ∧
        Leads world.exited name world.state outcome.2 (world.holder name)) ∨
      ∃ result, outcome.1 = some result ∧ Leads world.exited name world.state outcome.2
        (if Succeeded result then acquire self (world.holder name) else world.holder name)) :
    (world.locking self name outcome).Kept := by
  obtain ⟨result, after⟩ := outcome
  rcases outcomes with ⟨waits, leads⟩ | ⟨value, ended, leads⟩
  · dsimp only at waits leads
    subst waits
    have waiting : ∀ thread other,
        Function.update world.waiting self (some name) thread = some other →
        world.waiting thread = some other ∨ other = name ∧ world.exited thread = false := by
      intro thread other waited
      refine (waited_before waited).imp_right fun ⟨same, chosen⟩ => ?_
      rw [same]
      exact ⟨(Option.some.inj chosen).symm, live⟩
    have changed := kept.changed leads waiting
    rw [Function.update_eq_self] at changed
    exact changed
  · dsimp only at ended leads
    subst ended
    have waiting : ∀ thread other, Function.update world.waiting self none thread = some other →
        world.waiting thread = some other ∨ other = name ∧ world.exited thread = false :=
      fun thread other waited =>
        Or.inl ((waited_before waited).resolve_right fun ⟨_, chosen⟩ => by cases chosen)
    have changed := kept.changed leads waiting
    rw [World.locking]
    dsimp only
    split
    · rename_i succeeded
      rw [if_pos succeeded] at changed
      exact changed
    · rename_i failed
      rw [if_neg failed, Function.update_eq_self] at changed
      exact changed

/-- The exit of a thread leaves its robust mutexes to others. -/
theorem Kept.exit (kept : world.Kept) (idle : world.waiting self = none) :
    Kept { world with
      state := world.state.exit self (world.state.robustMxList self).length
      exited := Function.update world.exited self true } := by
  have owned : ∀ name ∈ world.state.robustMxList self,
      (world.state.mutex name).ownerThread = some self := by
    intro name member
    have pointer : world.state.pointer name = .object := by
      by_contra other
      exact (kept.static name other).2.2 self member
    have sound := kept.sound name pointer
    obtain ⟨robust, ⟨depth, held⟩, -⟩ := (sound.listed self).mp member
    rw [sound.owner (by rw [PTHREAD_MUTEX_NORMAL]; omega), held]
    rfl
  obtain ⟨pointers, lists, mutexes⟩ := exit_spec (kept.distinct self) owned
  have gone : ∀ thread, Function.update world.exited self true thread = true ↔
      thread = self ∨ world.exited thread = true := by
    intro thread
    by_cases same : thread = self
    · simp [same]
    · simp [same]
  constructor
  case sound =>
    intro name pointer
    dsimp only at *
    rw [pointers] at pointer
    have old := kept.sound name pointer
    have listed : ∀ thread, name ∈ Function.update world.state.robustMxList self [] thread ↔
        (world.state.mutex name).kind < 0 ∧ (∃ depth, world.holder name = some (thread, depth)) ∧
          Function.update world.exited self true thread = false := by
      intro thread
      by_cases same : thread = self
      · simp [same]
      · rw [Function.update_of_ne same, Function.update_of_ne same]
        exact old.listed thread
    rw [mutexes, lists]
    by_cases member : name ∈ world.state.robustMxList self
    · rw [if_pos member]
      obtain ⟨robust, ⟨depth, held⟩, -⟩ := (old.listed self).mp member
      refine ⟨old.kind, old.free, fun _ => ?_, old.depth, listed, fun _ => ?_,
        fun _ same => by cases same⟩
      · rw [held]
        rfl
      · refine iff_of_true rfl ⟨self, depth, held, ?_⟩
        rw [Function.update_self]
    · rw [if_neg member]
      refine ⟨old.kind, old.free, old.owner, old.depth, listed, fun robust => ?_, old.inconsistent⟩
      rw [old.terminated robust]
      refine exists_congr fun thread => exists_congr fun depth => and_congr_right fun held => ?_
      rw [gone]
      refine (or_iff_right_of_imp ?_).symm
      rintro rfl
      by_contra alive
      exact member ((old.listed thread).mpr ⟨robust, ⟨depth, held⟩, Bool.not_eq_true _ ▸ alive⟩)
  case static =>
    intro name pointer
    dsimp only at *
    rw [pointers] at pointer ⊢
    obtain ⟨initializer, unheld, unlisted⟩ := kept.static name pointer
    refine ⟨initializer, unheld, fun thread member => ?_⟩
    rw [lists] at member
    by_cases same : thread = self
    · rw [same, Function.update_self] at member
      exact List.not_mem_nil member
    · rw [Function.update_of_ne same] at member
      exact unlisted thread member
  case distinct =>
    intro thread
    dsimp only
    rw [lists]
    by_cases same : thread = self
    · rw [same, Function.update_self]
      exact List.nodup_nil
    · rw [Function.update_of_ne same]
      exact kept.distinct thread
  case waiting =>
    intro thread name waited
    obtain ⟨pointer, live⟩ := kept.waiting thread name waited
    refine ⟨by dsimp only; rw [pointers]; exact pointer, ?_⟩
    dsimp only at *
    rw [Function.update_of_ne, live]
    rintro rfl
    rw [idle] at waited
    cases waited

/-- Every step keeps the mutexes right. -/
theorem Kept.step (kept : world.Kept) {label : Label Name Thread}
    (taken : world.step label = some next) : next.Kept := by
  have known : ∀ name, world.state.pointer name ≠ .null := by
    intro name null
    obtain ⟨⟨kind, pointer, -⟩, -⟩ := kept.static name (by rw [null]; exact Pointer.noConfusion)
    rw [null] at pointer
    cases pointer
  cases label with
  | lock self name =>
      rw [World.step, Option.ite_none_right_eq_some] at taken
      obtain ⟨ready, same⟩ := taken
      rw [← Option.some.inj same]
      have first := kept.checkNeedInit name
      rw [lock_checkNeedInit (known name) first.there.pointer]
      refine kept.locking ready.2 ?_
      rcases first.there.lock ready.2 with ⟨waits, leads⟩ | ⟨result, ended, leads⟩
      · exact .inl ⟨waits, first.only.trans leads.only, leads.there⟩
      · exact .inr ⟨result, ended, first.only.trans leads.only, leads.there⟩
  | wake self =>
      cases waited : world.waiting self with
      | none =>
          rw [World.step, waited] at taken
          cases taken
      | some name =>
          rw [World.step, waited] at taken
          dsimp only at taken
          rw [Option.ite_none_right_eq_some] at taken
          rw [← Option.some.inj taken.2]
          obtain ⟨pointer, live⟩ := kept.waiting self name waited
          exact kept.locking live ((kept.at pointer).wake live)
  | trylock self name =>
      rw [World.step, Option.ite_none_right_eq_some] at taken
      obtain ⟨ready, same⟩ := taken
      rw [← Option.some.inj same]
      have first := kept.checkNeedInit name
      rw [trylock_checkNeedInit first.there.pointer]
      have leads := first.there.trylock ready.2
      exact kept.locking ready.2 (.inr ⟨_, rfl, first.only.trans leads.only, leads.there⟩)
  | unlock self name =>
      rw [World.step, Option.ite_none_right_eq_some] at taken
      obtain ⟨ready, same⟩ := taken
      rw [← Option.some.inj same]
      by_cases object : world.state.pointer name = .object
      · have result : world.state.unlock self name = world.state.unlockObject self name := by
          rw [State.unlock, object]
        rw [result]
        have changed := kept.changed ((kept.at object).unlockObject ready.2)
          fun _ _ waited => .inl waited
        split
        · rename_i ok
          rw [if_pos ok] at changed
          exact changed
        · rename_i failed
          rw [if_neg failed, Function.update_eq_self] at changed
          exact changed
      · obtain ⟨⟨kind, pointer, -⟩, unheld, -⟩ := kept.static name object
        have result : (world.state.unlock self name).2 = world.state := by
          rw [State.unlock, pointer]
        have holder : Function.update world.holder name (unlocked self (world.holder name)) =
            world.holder := by
          rw [unheld, unlocked, ← unheld, Function.update_eq_self]
        rw [result, holder, ite_self]
        exact kept
  | consistent self name =>
      rw [World.step, Option.ite_none_right_eq_some] at taken
      obtain ⟨⟨ready, object⟩, same⟩ := taken
      rw [← Option.some.inj same]
      have changed := kept.changed (kept.at object).consistent fun _ _ waited => .inl waited
      rw [Function.update_eq_self] at changed
      exact changed
  | exit self =>
      rw [World.step, Option.ite_none_right_eq_some] at taken
      obtain ⟨ready, same⟩ := taken
      rw [← Option.some.inj same]
      exact kept.exit ready.1

omit [DecidableEq Name] [DecidableEq Thread] in
theorem kept_initial {state : State Name Thread} (fresh : Fresh state) :
    Kept (⟨state, fun _ => none, fun _ => none, fun _ => false⟩ : World Name Thread) where
  sound := by
    intro name pointer
    obtain ⟨kind, low, high, same⟩ := fresh.mutex name
    dsimp only
    rw [same]
    refine Sound.released ⟨low, high⟩ rfl (fun _ => rfl) (fun thread member => ?_) fun _ => ?_
    · rw [fresh.robustMxList] at member
      exact List.not_mem_nil member
    · exact ⟨fun impossible => (by cases impossible), fun impossible => by cases impossible⟩
  static := by
    intro name pointer
    refine ⟨?_, rfl, fun thread member => ?_⟩
    · obtain ⟨kind, member, same⟩ := (fresh.pointer name).resolve_left pointer
      refine ⟨kind, same, ?_⟩
      simp only [PTHREAD_MUTEX_NORMAL, PTHREAD_MUTEX_RECURSIVE, PTHREAD_MUTEX_ERRORCHECK,
        List.mem_cons, List.not_mem_nil, or_false] at member
      omega
    · dsimp only at member
      rw [fresh.robustMxList] at member
      exact List.not_mem_nil member
  distinct thread := by
    dsimp only
    rw [fresh.robustMxList]
    exact List.nodup_nil
  waiting thread name waited := by cases waited

theorem kept_of_reachable {state : State Name Thread} (fresh : Fresh state)
    (reached : (system state).Reachable System.Always world) : world.Kept :=
  reached.invariant Kept (kept_initial fresh) fun _ _ _ kept _ taken => kept.step taken

/-- A successful destruction has found no live holder and leaves no list with the mutex; a failed one
leaves everything as it was. -/
def Intact (world : World Name Thread) (self : Thread) (name : Name) : Prop :=
  if (world.state.destroy self name).1 = .ok then
    (∀ thread depth, world.holder name = some (thread, depth) → world.exited thread = true) ∧
      ∀ thread, name ∉ (world.state.destroy self name).2.robustMxList thread
  else
    (world.state.destroy self name).2 = world.state

/-- A robust mutex is left by a dead owner, or held though it is not recoverable, or held by the
thread that destroys it and recursive. -/
def Fragile (world : World Name Thread) (self : Thread) (name : Name) : Prop :=
  world.state.pointer name = .object ∧ (world.state.mutex name).kind < 0 ∧
    ((world.state.mutex name).stateInconsistent = .terminated ∨
    ((world.state.mutex name).stateInconsistent = .notRecoverable ∧ world.holder name ≠ none) ∨
    (-(world.state.mutex name).kind - 1 = PTHREAD_MUTEX_RECURSIVE ∧
      ∃ depth, world.holder name = some (self, depth)))

section Destruction

variable {exited : Thread → Bool} {state : State Name Thread} {depth : Nat}

/-- A holder can unlock. -/
theorem unlockObject_ok (there : At exited state name (some (self, depth))) :
    (state.unlockObject self name).1 = .ok := by
  have owned : (state.mutex name).kind ≠ PTHREAD_MUTEX_NORMAL →
      (state.mutex name).ownerThread = some self := there.sound.owner
  rw [State.unlockObject]
  dsimp only
  split
  · split
    · rfl
    · rename_i kind
      rw [if_pos (owned kind), apply_ite Prod.fst, ite_self]
  · rename_i robust
    rw [if_pos (owned (by rw [PTHREAD_MUTEX_NORMAL]; omega)), apply_ite Prod.fst, ite_self]

/-- A mutex that the thread can unlock to the end is destroyed. -/
theorem destroy_unlocks {probed : State Name Thread} (object : state.pointer name = .object)
    (tried : state.trylock self name = (.ok, probed))
    (there : At exited probed name (some (self, depth)))
    (probe : (probed.mutex name).kind ≠ PTHREAD_MUTEX_RECURSIVE ∨
      (probed.mutex name).recursive_count = 1) :
    (state.destroy self name).1 = .ok ∧ (state.destroy self name).2.robustMxList =
      (probed.unlockObject self name).2.robustMxList := by
  have ok := unlockObject_ok there
  rw [State.destroy, object]
  dsimp only
  rw [tried]
  dsimp only
  rw [if_pos (.inl rfl), if_pos probe, if_pos rfl, if_pos ok]
  exact ⟨rfl, rfl⟩

/-- A mutex that is locked more than once is reported as busy. -/
theorem destroy_busy {probed : State Name Thread} (object : state.pointer name = .object)
    (tried : state.trylock self name = (.ok, probed))
    (probe : ¬ ((probed.mutex name).kind ≠ PTHREAD_MUTEX_RECURSIVE ∨
      (probed.mutex name).recursive_count = 1)) :
    state.destroy self name = (.EBUSY, probed.update name fun mx =>
      { mx with recursive_count := mx.recursive_count - 1 }) := by
  rw [State.destroy, object]
  dsimp only
  rw [tried]
  exact (if_pos (.inl rfl)).trans (if_neg probe)

/-- A mutex that is not recoverable is destroyed without being unlocked. -/
theorem destroy_lost {probed : State Name Thread} (object : state.pointer name = .object)
    (tried : state.trylock self name = (.ENOTRECOVERABLE, probed))
    (plain : (probed.mutex name).kind ≠ PTHREAD_MUTEX_RECURSIVE) :
    state.destroy self name =
      (.ok, { probed with pointer := Function.update probed.pointer name .null }) := by
  rw [State.destroy, object]
  dsimp only
  rw [tried]
  exact (if_pos (.inr rfl)).trans (if_pos (.inl plain))

/-- The other results of the probe are returned. -/
theorem destroy_fails {probed : State Name Thread} {result : Result}
    (object : state.pointer name = .object) (tried : state.trylock self name = (result, probed))
    (fails : ¬ (result = .ok ∨ result = .ENOTRECOVERABLE)) :
    state.destroy self name = (result, probed) := by
  rw [State.destroy, object]
  dsimp only
  rw [tried]
  exact if_neg fails

end Destruction

/-- A free mutex is destroyed rightly. -/
theorem intact_free (kept : world.Kept) (object : world.state.pointer name = .object)
    (ready : world.Ready self) (free : world.holder name = none)
    (tried : world.state.trylock self name =
      (.ok, (world.state.setLock name 1).take self name)) : world.Intact self name := by
  have there := kept.at object
  rw [free] at there
  have taken : Leads world.exited name world.state
      ((world.state.setLock name 1).take self name) (some (self, 1)) :=
    there.take ready.2 (by decide)
  have probe : (((world.state.setLock name 1).take self name).mutex name).kind ≠
        PTHREAD_MUTEX_RECURSIVE ∨
      (((world.state.setLock name 1).take self name).mutex name).recursive_count = 1 := by
    by_cases recursive : (((world.state.setLock name 1).take self name).mutex name).kind =
        PTHREAD_MUTEX_RECURSIVE
    · exact .inr ((taken.there.sound.depth self 1 rfl).2.1 (.inl recursive))
    · exact .inl recursive
  obtain ⟨ok, lists⟩ := destroy_unlocks object tried taken.there probe
  have unlocks := taken.there.unlockObject ready.2
  rw [if_pos (unlockObject_ok taken.there), unlocked_last] at unlocks
  rw [Intact, if_pos ok, lists, free]
  exact ⟨fun _ _ impossible => (by cases impossible), unlocks.there.unlisted⟩

omit [DecidableEq Thread] in
theorem recurse_undone {state : State Name Thread} : ((state.recurse name).update name fun mx =>
    { mx with recursive_count := mx.recursive_count - 1 }) = state := by
  have same : ({ state.mutex name with
      recursive_count := (state.mutex name).recursive_count + 1 - 1 } : Mutex Thread) =
      state.mutex name := by
    rw [Int.add_sub_cancel]
  rw [State.update, State.recurse, State.update_mutex, same]
  change { state with
    mutex := Function.update (Function.update state.mutex name _) name (state.mutex name) } = state
  rw [Function.update_idem, Function.update_eq_self]

/-- A recursive mutex that the thread holds is busy, and the probe is undone. -/
theorem intact_plain (kept : world.Kept) (object : world.state.pointer name = .object)
    {depth : Nat} (held : world.holder name = some (self, depth))
    (plain : 0 ≤ (world.state.mutex name).kind) (recursive : (world.state.mutex name).Recursive)
    (tried : world.state.trylock self name = (.ok, world.state.recurse name)) :
    world.Intact self name := by
  have kind : (world.state.mutex name).kind = PTHREAD_MUTEX_RECURSIVE := by
    refine recursive.resolve_right fun same => ?_
    rw [PTHREAD_MUTEX_RECURSIVE] at same
    omega
  obtain ⟨positive, counted, -⟩ := (kept.sound name object).depth self depth held
  have count := counted recursive
  have probe : ¬ (((world.state.recurse name).mutex name).kind ≠ PTHREAD_MUTEX_RECURSIVE ∨
      ((world.state.recurse name).mutex name).recursive_count = 1) := by
    rw [State.recurse, State.update_mutex]
    rintro (other | single)
    · exact other kind
    · dsimp only at single
      omega
  rw [Intact, destroy_busy object tried probe, if_neg fun same => by cases same]
  exact recurse_undone

omit [DecidableEq Name] [DecidableEq Thread] in
theorem not_fragile_free (kept : world.Kept) (object : world.state.pointer name = .object)
    (free : world.holder name = none) : ¬ world.Fragile self name := by
  rintro ⟨-, robust, left | ⟨-, held⟩ | ⟨-, _, held⟩⟩
  · obtain ⟨_, _, held, -⟩ := ((kept.sound name object).terminated robust).mp left
    rw [free] at held
    cases held
  · exact held free
  · rw [free] at held
    cases held

/-- In every state that calls and exits lead to, a thread destroys a mutex rightly exactly when the
mutex is not fragile. -/
theorem destroy_intact_iff {state : State Name Thread} (fresh : Fresh state)
    (reached : (system state).Reachable System.Always world) (ready : world.Ready self)
    (name : Name) : world.Intact self name ↔ ¬ world.Fragile self name := by
  have kept := kept_of_reachable fresh reached
  by_cases object : world.state.pointer name = .object
  · have there := kept.at object
    have sound := there.sound
    have outcomes := @At.trylock_cases _ _ _ _ _ _ _ self _ there
    rcases outcomes with ⟨free, tried⟩ | ⟨⟨depth, held⟩, recursive, tried⟩ | ⟨robust, lost, tried⟩ |
      ⟨robust, left, tried⟩ | ⟨held, sane, tried⟩
    · exact iff_of_true (intact_free kept object ready free tried)
        (not_fragile_free kept object free)
    · rcases lt_or_ge (world.state.mutex name).kind 0 with robust | plain
      · have again : -(world.state.mutex name).kind - 1 = PTHREAD_MUTEX_RECURSIVE := by
          refine recursive.resolve_left fun same => ?_
          rw [PTHREAD_MUTEX_RECURSIVE] at same
          omega
        refine iff_of_false ?_ (not_not.mpr ⟨object, robust, .inr (.inr ⟨again, depth, held⟩)⟩)
        have deeper : Leads world.exited name world.state (world.state.recurse name)
            (some (self, depth + 1)) := (held ▸ there).recurse recursive
        have kind : ((world.state.recurse name).mutex name).kind ≠ PTHREAD_MUTEX_RECURSIVE := by
          rw [State.recurse, State.update_mutex, PTHREAD_MUTEX_RECURSIVE]
          dsimp only
          omega
        obtain ⟨ok, -⟩ := destroy_unlocks object tried deeper.there (.inl kind)
        rw [Intact, if_pos ok]
        intro intact
        have gone := intact.1 self depth held
        rw [ready.2] at gone
        exact Bool.false_ne_true gone
      · refine iff_of_true (intact_plain kept object held plain recursive tried) ?_
        exact fun fragile => absurd plain (not_le.mpr fragile.2.1)
    · have plain : (world.state.mutex name).kind ≠ PTHREAD_MUTEX_RECURSIVE := by
        rw [PTHREAD_MUTEX_RECURSIVE]
        omega
      rw [Intact, destroy_lost object tried plain, if_pos rfl]
      constructor
      · rintro ⟨dead, unlisted⟩ ⟨-, -, left | ⟨-, held⟩ | ⟨-, depth, mine⟩⟩
        · rw [lost] at left
          cases left
        · obtain ⟨⟨thread, depth⟩, held⟩ := Option.ne_none_iff_exists'.mp held
          have left := (sound.terminated robust).mpr ⟨thread, depth, held, dead thread depth held⟩
          rw [lost] at left
          cases left
        · have gone := dead self depth mine
          rw [ready.2] at gone
          exact Bool.false_ne_true gone
      · intro sturdy
        have free : world.holder name = none := by
          by_contra held
          exact sturdy ⟨object, robust, .inr (.inl ⟨lost, held⟩)⟩
        rw [free]
        exact ⟨fun _ _ impossible => (by cases impossible), (free ▸ there).unlisted⟩
    · refine iff_of_false ?_ (not_not.mpr ⟨object, robust, .inl left⟩)
      rw [Intact, destroy_fails object tried (by decide), if_neg fun same => by cases same]
      intro same
      have changed := congrArg (fun state => (state.mutex name).stateInconsistent) same
      dsimp only at changed
      rw [State.robustMutexAdd_mutex, State.update_mutex, State.update_mutex, left] at changed
      cases changed
    · refine iff_of_true ?_ ?_
      · rw [Intact, destroy_fails object tried (by decide), if_neg fun same => by cases same]
      · rintro ⟨-, robust, left | ⟨lost, -⟩ | ⟨recursive, depth, mine⟩⟩
        · exact (sane robust).1 left
        · exact (sane robust).2.1 lost
        · refine (sane robust).2.2 ⟨recursive, ?_⟩
          rw [sound.owner (kind_of_recursive (.inr recursive)), mine]
          rfl
  · obtain ⟨⟨kind, pointer, -⟩, unheld, unlisted⟩ := kept.static name object
    refine iff_of_true ?_ fun fragile => object fragile.1
    rw [Intact, State.destroy, pointer]
    dsimp only
    rw [if_pos rfl]
    refine ⟨fun thread depth held => ?_, unlisted⟩
    rw [unheld] at held
    cases held

/-- A robust recursive mutex. -/
def robustRecursive : State Unit Unit where
  pointer _ := .object
  mutex _ := initialised Unit (-2)
  robustMxList _ := []

theorem fresh_robustRecursive : Fresh robustRecursive where
  pointer _ := .inl rfl
  mutex _ := ⟨-2, by decide, by decide, rfl⟩
  robustMxList _ := rfl

/-- A thread that has locked the mutex once. -/
theorem locked_robustRecursive : ∃ world : World Unit Unit,
    (system robustRecursive).Reachable System.Always world ∧ world.Ready () ∧
      world.holder () = some ((), 1) ∧ (world.state.destroy () ()).1 = .ok := by
  have taken : (system robustRecursive).next (system robustRecursive).initial (.lock () ()) =
      some ((system robustRecursive).initial.locking () () (robustRecursive.lock () ())) := rfl
  exact ⟨_, .step .start trivial taken, ⟨rfl, rfl⟩, rfl, rfl⟩

theorem locked_intact_iff : ∃ world : World Unit Unit,
    (system robustRecursive).Reachable System.Always world ∧ world.Ready () ∧
      (world.Intact () () ↔ ¬ world.Fragile () ()) := by
  obtain ⟨world, reached, ready, -⟩ := locked_robustRecursive
  exact ⟨world, reached, ready, destroy_intact_iff fresh_robustRecursive reached ready ()⟩

/-- The mutex is destroyed with success while the thread holds it. -/
theorem destroyed_while_held : Fresh robustRecursive ∧ ∃ world : World Unit Unit,
    (system robustRecursive).Reachable System.Always world ∧ world.Ready () ∧
      (world.state.destroy () ()).1 = .ok ∧ ¬ world.Intact () () := by
  obtain ⟨world, reached, ready, held, destroyed⟩ := locked_robustRecursive
  refine ⟨fresh_robustRecursive, world, reached, ready, destroyed, fun intact => ?_⟩
  rw [Intact, if_pos destroyed] at intact
  have gone := intact.1 () 1 held
  rw [ready.2] at gone
  exact Bool.false_ne_true gone

end World

end MutexDestroy

end CodeCollect.Pthreads
