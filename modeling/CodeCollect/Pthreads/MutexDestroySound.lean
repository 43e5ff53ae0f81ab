import CodeCollect.Pthreads.MutexDestroy

namespace CodeCollect.Pthreads

open CodeCollect.Library

namespace MutexDestroy

open RobustMutex (RobustState Result inherit)

variable {Name Thread : Type}

/-- The mutex counts how often its owner has locked it. -/
def Mutex.Recursive (mx : Mutex Thread) : Prop :=
  mx.kind = PTHREAD_MUTEX_RECURSIVE ∨ -mx.kind - 1 = PTHREAD_MUTEX_RECURSIVE

/-- What the fields of a mutex say about its holder, and which lists have it. -/
structure Sound (exited : Thread → Bool) (listed : Thread → Prop) (mx : Mutex Thread)
    (holder : Option (Thread × Nat)) : Prop where
  kind : -3 ≤ mx.kind ∧ mx.kind ≤ 2
  free : mx.lock_idx = 0 ↔ holder = none
  owner : mx.kind ≠ PTHREAD_MUTEX_NORMAL → mx.ownerThread = holder.map Prod.fst
  depth : ∀ thread depth, holder = some (thread, depth) → 1 ≤ depth ∧
    (mx.Recursive → mx.recursive_count = depth) ∧ (¬ mx.Recursive → depth = 1)
  listed : ∀ thread, listed thread ↔
    mx.kind < 0 ∧ (∃ depth, holder = some (thread, depth)) ∧ exited thread = false
  terminated : mx.kind < 0 → (mx.stateInconsistent = .terminated ↔
    ∃ thread depth, holder = some (thread, depth) ∧ exited thread = true)
  inconsistent : mx.kind < 0 → mx.stateInconsistent = .inconsistent → holder ≠ none

section Sound

variable {exited : Thread → Bool} {listed : Thread → Prop} {mx : Mutex Thread} {self : Thread}

/-- A mutex that nobody holds. -/
theorem Sound.released (kind : -3 ≤ mx.kind ∧ mx.kind ≤ 2) (free : mx.lock_idx = 0)
    (owner : mx.kind ≠ PTHREAD_MUTEX_NORMAL → mx.ownerThread = none)
    (unlisted : ∀ thread, ¬ listed thread)
    (state : mx.kind < 0 → mx.stateInconsistent ≠ .terminated ∧
      mx.stateInconsistent ≠ .inconsistent) : Sound exited listed mx none where
  kind := kind
  free := iff_of_true free rfl
  owner := owner
  depth _ _ impossible := by cases impossible
  listed thread := by
    refine iff_of_false (unlisted thread) ?_
    rintro ⟨-, ⟨_, impossible⟩, -⟩
    cases impossible
  terminated robust := by
    refine iff_of_false (state robust).1 ?_
    rintro ⟨_, _, impossible, -⟩
    cases impossible
  inconsistent robust same := absurd same (state robust).2

/-- A mutex that a live thread holds. -/
theorem Sound.held {depth : Nat} (kind : -3 ≤ mx.kind ∧ mx.kind ≤ 2) (taken : mx.lock_idx ≠ 0)
    (owner : mx.kind ≠ PTHREAD_MUTEX_NORMAL → mx.ownerThread = some self) (positive : 1 ≤ depth)
    (counted : mx.Recursive → mx.recursive_count = depth) (once : ¬ mx.Recursive → depth = 1)
    (live : exited self = false)
    (inList : ∀ thread, listed thread ↔ mx.kind < 0 ∧ thread = self)
    (state : mx.kind < 0 → mx.stateInconsistent ≠ .terminated) :
    Sound exited listed mx (some (self, depth)) where
  kind := kind
  free := iff_of_false taken (Option.some_ne_none _)
  owner := owner
  depth := by
    intro thread other same
    obtain ⟨rfl, rfl⟩ := Prod.mk.inj (Option.some.inj same)
    exact ⟨positive, counted, once⟩
  listed := by
    intro thread
    rw [inList]
    refine and_congr_right fun _ => ?_
    constructor
    · rintro rfl
      exact ⟨⟨depth, rfl⟩, live⟩
    · rintro ⟨⟨other, same⟩, -⟩
      exact (Prod.mk.inj (Option.some.inj same)).1.symm
  terminated robust := by
    refine iff_of_false (state robust) ?_
    rintro ⟨thread, other, same, gone⟩
    obtain ⟨rfl, rfl⟩ := Prod.mk.inj (Option.some.inj same)
    rw [live] at gone
    exact Bool.false_ne_true gone
  inconsistent _ _ := Option.some_ne_none _

/-- The event, and a lock word that stays taken, say nothing about the holder. -/
theorem Sound.marked {holder : Option (Thread × Nat)} (sound : Sound exited listed mx holder)
    {lock_idx : Int} (same : lock_idx = 0 ↔ mx.lock_idx = 0) (event : Bool) :
    Sound exited listed { mx with lock_idx := lock_idx, event := event } holder where
  kind := sound.kind
  free := same.trans sound.free
  owner := sound.owner
  depth := sound.depth
  listed := sound.listed
  terminated := sound.terminated
  inconsistent := sound.inconsistent

end Sound

variable [DecidableEq Name] [DecidableEq Thread]

/-- Only this mutex is changed, and the lists keep the others. -/
structure Only (name : Name) (before after : State Name Thread) : Prop where
  pointer : ∀ other, other ≠ name → after.pointer other = before.pointer other
  mutex : ∀ other, other ≠ name → after.mutex other = before.mutex other
  lists : ∀ thread other, other ≠ name →
    (other ∈ after.robustMxList thread ↔ other ∈ before.robustMxList thread)
  distinct : ∀ thread, (before.robustMxList thread).Nodup → (after.robustMxList thread).Nodup

section Only

variable {name : Name} {before middle after state : State Name Thread} {self : Thread}

omit [DecidableEq Name] [DecidableEq Thread] in
theorem Only.refl : Only name state state :=
  ⟨fun _ _ => rfl, fun _ _ => rfl, fun _ _ _ => Iff.rfl, fun _ => id⟩

omit [DecidableEq Name] [DecidableEq Thread] in
theorem Only.trans (first : Only name before middle) (second : Only name middle after) :
    Only name before after where
  pointer other apart := (second.pointer other apart).trans (first.pointer other apart)
  mutex other apart := (second.mutex other apart).trans (first.mutex other apart)
  lists thread other apart := (second.lists thread other apart).trans (first.lists thread other apart)
  distinct thread nodup := second.distinct thread (first.distinct thread nodup)

namespace State

variable {change : Mutex Thread → Mutex Thread}

omit [DecidableEq Thread] in
@[simp] theorem update_mutex : (state.update name change).mutex name = change (state.mutex name) :=
  Function.update_self ..

omit [DecidableEq Thread] in
@[simp] theorem update_pointer : (state.update name change).pointer = state.pointer := rfl

omit [DecidableEq Thread] in
@[simp] theorem update_robustMxList :
    (state.update name change).robustMxList = state.robustMxList := rfl

omit [DecidableEq Thread] in
theorem only_update : Only name state (state.update name change) :=
  ⟨fun _ _ => rfl, fun _ apart => Function.update_of_ne apart .., fun _ _ _ => Iff.rfl, fun _ => id⟩

@[simp] theorem robustMutexAdd_mutex : (state.robustMutexAdd self name).mutex name =
    { state.mutex name with ownerThread := some self } :=
  Function.update_self ..

@[simp] theorem robustMutexAdd_pointer : (state.robustMutexAdd self name).pointer = state.pointer :=
  rfl

theorem mem_robustMutexAdd {thread : Thread} {other : Name} :
    other ∈ (state.robustMutexAdd self name).robustMxList thread ↔
      (thread = self ∧ other = name) ∨ other ∈ state.robustMxList thread := by
  change other ∈ Function.update state.robustMxList self _ thread ↔ _
  by_cases same : thread = self
  · subst same
    rw [Function.update_self, List.mem_cons]
    simp
  · rw [Function.update_of_ne same]
    simp [same]

theorem only_robustMutexAdd (unlisted : name ∉ state.robustMxList self) :
    Only name state (state.robustMutexAdd self name) where
  pointer _ _ := rfl
  mutex _ apart := Function.update_of_ne apart ..
  lists thread other apart := by
    rw [mem_robustMutexAdd]
    simp [apart]
  distinct thread nodup := by
    change (Function.update state.robustMxList self _ thread).Nodup
    by_cases same : thread = self
    · subst same
      rw [Function.update_self]
      exact List.nodup_cons.mpr ⟨unlisted, nodup⟩
    · rwa [Function.update_of_ne same]

variable {otp : Option Thread} (owned : (state.mutex name).ownerThread = some self)

include owned

theorem robustMutexRemove_mutex : (state.robustMutexRemove name otp).mutex name =
    { state.mutex name with ownerThread := otp } := by
  rw [robustMutexRemove, owned]
  exact Function.update_self ..

theorem robustMutexRemove_pointer : (state.robustMutexRemove name otp).pointer = state.pointer := by
  rw [robustMutexRemove, owned]
  rfl

theorem robustMutexRemove_robustMxList : (state.robustMutexRemove name otp).robustMxList =
    Function.update state.robustMxList self ((state.robustMxList self).erase name) := by
  rw [robustMutexRemove, owned]

theorem only_robustMutexRemove : Only name state (state.robustMutexRemove name otp) where
  pointer _ _ := by rw [robustMutexRemove_pointer owned]
  mutex other apart := by
    rw [robustMutexRemove, owned]
    exact Function.update_of_ne apart ..
  lists thread other apart := by
    rw [robustMutexRemove_robustMxList owned]
    by_cases same : thread = self
    · subst same
      rw [Function.update_self, List.mem_erase_of_ne apart]
    · rw [Function.update_of_ne same]
  distinct thread nodup := by
    rw [robustMutexRemove_robustMxList owned]
    by_cases same : thread = self
    · subst same
      rw [Function.update_self]
      exact nodup.erase name
    · rwa [Function.update_of_ne same]

/-- The list of the owner does not have the mutex any more. -/
theorem mem_robustMutexRemove (distinct : (state.robustMxList self).Nodup) {thread : Thread} :
    name ∈ (state.robustMutexRemove name otp).robustMxList thread ↔
      thread ≠ self ∧ name ∈ state.robustMxList thread := by
  rw [robustMutexRemove_robustMxList owned]
  by_cases same : thread = self
  · subst same
    rw [Function.update_self]
    simp [distinct.not_mem_erase]
  · rw [Function.update_of_ne same]
    simp [same]

end State

end Only

/-- The mutex has been initialised, and its fields are right for the holder. -/
structure At (exited : Thread → Bool) (state : State Name Thread) (name : Name)
    (holder : Option (Thread × Nat)) : Prop where
  pointer : state.pointer name = .object
  sound : Sound exited (name ∈ state.robustMxList ·) (state.mutex name) holder
  distinct : ∀ thread, (state.robustMxList thread).Nodup

/-- Only this mutex is changed, and it is right for its new holder. -/
structure Leads (exited : Thread → Bool) (name : Name) (before after : State Name Thread)
    (holder : Option (Thread × Nat)) : Prop where
  only : Only name before after
  there : At exited after name holder

section Calls

variable {exited : Thread → Bool} {name : Name} {state middle : State Name Thread} {self : Thread}
  {holder : Option (Thread × Nat)}

omit [DecidableEq Name] [DecidableEq Thread] in
theorem At.leads (there : At exited state name holder) : Leads exited name state state holder :=
  ⟨Only.refl, there⟩

omit [DecidableEq Thread] in
/-- The changes of a mutex that are not seen in the lists. -/
theorem At.update (there : At exited state name holder) {change : Mutex Thread → Mutex Thread}
    {next : Option (Thread × Nat)} (sound : Sound exited (name ∈ state.robustMxList ·)
      (change (state.mutex name)) next) : Leads exited name state (state.update name change) next where
  only := State.only_update
  there := ⟨there.pointer, by rw [State.update_mutex]; exact sound, there.distinct⟩

/-- A thread that has the lock word becomes the holder. -/
theorem take_leads (pointer : state.pointer name = .object)
    (distinct : ∀ thread, (state.robustMxList thread).Nodup)
    (kind : -3 ≤ (state.mutex name).kind ∧ (state.mutex name).kind ≤ 2)
    (taken : (state.mutex name).lock_idx ≠ 0)
    (unlisted : ∀ thread, name ∉ state.robustMxList thread) (live : exited self = false)
    (intact : (state.mutex name).kind < 0 → (state.mutex name).stateInconsistent ≠ .terminated) :
    Leads exited name state (state.take self name) (some (self, 1)) := by
  rw [State.take]
  split
  · rename_i plain
    have nowhere : ∀ thread, name ∈ state.robustMxList thread ↔
        (state.mutex name).kind < 0 ∧ thread = self := fun thread =>
      iff_of_false (unlisted thread) fun robust => absurd plain (not_le.mpr robust.1)
    split
    · rename_i normal
      refine ⟨Only.refl, pointer, ?_, distinct⟩
      refine Sound.held kind taken (fun other => absurd normal other) le_rfl ?_ (fun _ => rfl) live
        nowhere intact
      rintro (recursive | recursive)
      · rw [normal] at recursive
        cases recursive
      · rw [normal] at recursive
        cases recursive
    · refine ⟨State.only_update, pointer, ?_, distinct⟩
      rw [State.update_mutex]
      exact Sound.held kind taken (fun _ => rfl) le_rfl (fun _ => rfl) (fun _ => rfl) live nowhere
        intact
  · rename_i robust
    generalize counted : (if -(state.mutex name).kind - 1 = PTHREAD_MUTEX_NORMAL then state
      else state.update name fun mx => { mx with recursive_count := 1 }) = middle
    obtain ⟨only, same, lists, pointers⟩ : Only name state middle ∧
        (∃ count, middle.mutex name = { state.mutex name with recursive_count := count } ∧
          ((state.mutex name).Recursive → count = 1)) ∧
        middle.robustMxList = state.robustMxList ∧ middle.pointer name = .object := by
      rw [← counted]
      split
      · rename_i normal
        refine ⟨Only.refl, ⟨_, rfl, ?_⟩, rfl, pointer⟩
        rintro (recursive | recursive)
        · rw [recursive] at robust
          exact absurd (by decide) robust
        · rw [normal] at recursive
          cases recursive
      · exact ⟨State.only_update, ⟨1, State.update_mutex, fun _ => rfl⟩, rfl, pointer⟩
    obtain ⟨count, same, one⟩ := same
    refine ⟨only.trans (State.only_robustMutexAdd (lists ▸ unlisted self)), pointers, ?_, ?_⟩
    · rw [State.robustMutexAdd_mutex, same]
      refine Sound.held kind taken (fun _ => rfl) le_rfl one (fun _ => rfl) live (fun thread => ?_)
        intact
      rw [State.mem_robustMutexAdd, lists]
      simp only [unlisted thread, and_true, or_false, not_le.mp robust, true_and]
    · intro thread
      refine (State.only_robustMutexAdd (lists ▸ unlisted self)).distinct thread ?_
      rw [lists]
      exact distinct thread

omit [DecidableEq Name] [DecidableEq Thread] in
theorem At.unlisted (there : At exited state name none) (thread : Thread) :
    name ∉ state.robustMxList thread := by
  intro member
  obtain ⟨-, ⟨_, impossible⟩, -⟩ := (there.sound.listed thread).mp member
  cases impossible

omit [DecidableEq Name] [DecidableEq Thread] in
theorem At.not_terminated (there : At exited state name none)
    (robust : (state.mutex name).kind < 0) :
    (state.mutex name).stateInconsistent ≠ .terminated := by
  intro same
  obtain ⟨_, _, impossible, -⟩ := (there.sound.terminated robust).mp same
  cases impossible

/-- A free mutex is taken. -/
theorem At.take (there : At exited state name none) (live : exited self = false) {lock_idx : Int}
    (taken : lock_idx ≠ 0) :
    Leads exited name state ((state.setLock name lock_idx).take self name) (some (self, 1)) := by
  have leads := @take_leads _ _ _ _ exited name (state.setLock name lock_idx) self there.pointer
    there.distinct (by rw [State.setLock, State.update_mutex]; exact there.sound.kind)
    (by rw [State.setLock, State.update_mutex]; exact taken) there.unlisted live
    (by rw [State.setLock, State.update_mutex]; exact there.not_terminated)
  exact ⟨State.only_update.trans leads.only, leads.there⟩

omit [DecidableEq Thread] in
/-- A recursive mutex is locked once more. -/
theorem At.recurse {depth : Nat} (there : At exited state name (some (self, depth)))
    (recursive : (state.mutex name).Recursive) :
    Leads exited name state (state.recurse name) (some (self, depth + 1)) := by
  have sound := there.sound
  obtain ⟨positive, counted, -⟩ := sound.depth self depth rfl
  refine there.update ⟨sound.kind, ?_, sound.owner, ?_, ?_, ?_, ?_⟩
  · exact iff_of_false (fun zero => Option.some_ne_none _ (sound.free.mp zero))
      (Option.some_ne_none _)
  · intro thread other same
    obtain ⟨rfl, rfl⟩ := Prod.mk.inj (Option.some.inj same)
    refine ⟨Nat.succ_pos _, fun _ => ?_, fun single => absurd recursive single⟩
    change (state.mutex name).recursive_count + 1 = _
    rw [counted recursive]
    rfl
  · intro thread
    rw [sound.listed]
    simp only [Option.some.injEq, Prod.mk.injEq, exists_and_left, exists_eq', and_true]
  · intro robust
    rw [sound.terminated robust]
    simp only [Option.some.injEq, Prod.mk.injEq]
    constructor
    · rintro ⟨thread, _, ⟨rfl, rfl⟩, gone⟩
      exact ⟨self, _, ⟨rfl, rfl⟩, gone⟩
    · rintro ⟨thread, _, ⟨rfl, rfl⟩, gone⟩
      exact ⟨self, _, ⟨rfl, rfl⟩, gone⟩
  · exact fun _ _ => Option.some_ne_none _

omit [DecidableEq Thread] in
/-- Nothing is inherited of a mutex whose owner has not terminated. -/
theorem inherit_ok (ok : (state.robustMutexInherit name).1 = .ok) :
    (state.robustMutexInherit name).2 = state := by
  have same : (inherit (state.mutex name).stateInconsistent).1 =
      (state.mutex name).stateInconsistent := by
    rw [State.robustMutexInherit] at ok
    revert ok
    cases (state.mutex name).stateInconsistent <;> simp [inherit]
  rw [State.robustMutexInherit]
  dsimp only
  rw [same]
  change { state with mutex := Function.update state.mutex name (state.mutex name) } = state
  rw [Function.update_eq_self]

omit [DecidableEq Thread] in
theorem inherit_dead (dead : (state.robustMutexInherit name).1 = .EOWNERDEAD) :
    (state.mutex name).stateInconsistent = .terminated ∧
      (state.robustMutexInherit name).2 =
        state.update name fun mx => { mx with stateInconsistent := .inconsistent } := by
  have same : (state.mutex name).stateInconsistent = .terminated := by
    rw [State.robustMutexInherit] at dead
    revert dead
    cases (state.mutex name).stateInconsistent <;> simp [inherit]
  refine ⟨same, ?_⟩
  rw [State.robustMutexInherit]
  dsimp only
  rw [same]
  rfl

omit [DecidableEq Name] [DecidableEq Thread] in
/-- The holder of a mutex that has been left is not alive, and no list has the mutex. -/
theorem At.left (there : At exited state name holder) (robust : (state.mutex name).kind < 0)
    (left : (state.mutex name).stateInconsistent = .terminated) :
    (∃ thread depth, holder = some (thread, depth) ∧ exited thread = true) ∧
      ∀ thread, name ∉ state.robustMxList thread := by
  obtain ⟨thread, depth, rfl, gone⟩ := (there.sound.terminated robust).mp left
  refine ⟨⟨thread, depth, rfl, gone⟩, fun other member => ?_⟩
  obtain ⟨-, ⟨_, same⟩, alive⟩ := (there.sound.listed other).mp member
  rw [(Prod.mk.inj (Option.some.inj same)).1, alive] at gone
  exact Bool.false_ne_true gone

/-- A mutex whose owner has terminated is taken over. -/
theorem At.takeOver (there : At exited state name holder) (robust : (state.mutex name).kind < 0)
    (live : exited self = false) (left : (state.mutex name).stateInconsistent = .terminated) :
    acquire self holder = some (self, 1) ∧ Leads exited name state
      ((state.update name fun mx => { mx with stateInconsistent := .inconsistent }).take self name)
      (some (self, 1)) := by
  obtain ⟨⟨thread, depth, rfl, gone⟩, unlisted⟩ := there.left robust left
  have other : thread ≠ self := by
    rintro rfl
    rw [live] at gone
    exact Bool.false_ne_true gone
  refine ⟨if_neg other, ?_⟩
  have leads := @take_leads _ _ _ _ exited name
    (state.update name fun mx => { mx with stateInconsistent := .inconsistent }) self there.pointer
    there.distinct (by rw [State.update_mutex]; exact there.sound.kind)
    (by
      rw [State.update_mutex]
      exact fun zero => Option.some_ne_none _ (there.sound.free.mp zero))
    unlisted live (by rw [State.update_mutex]; exact fun _ same => by cases same)
  exact ⟨State.only_update.trans leads.only, leads.there⟩

/-- A turn of the loop waits, or it ends with the mutex or without it. -/
theorem At.lockLoop (there : At exited state name holder) (live : exited self = false) :
    ((state.lockLoop self name).1 = none ∧
      Leads exited name state (state.lockLoop self name).2 holder) ∨
    ∃ result, (state.lockLoop self name).1 = some result ∧
      Leads exited name state (state.lockLoop self name).2
        (if Succeeded result then acquire self holder else holder) := by
  have waits : (state.mutex name).lock_idx ≠ 0 →
      Leads exited name state (state.setLock name (-1)) holder := by
    intro taken
    refine there.update (there.sound.marked ?_ _)
    exact iff_of_false (by decide) taken
  have takes : (state.mutex name).lock_idx = 0 → Leads exited name state
      ((state.setLock name (-1)).take self name) (acquire self holder) := by
    intro zero
    obtain rfl := there.sound.free.mp zero
    exact there.take live (by decide)
  rw [State.lockLoop]
  dsimp only
  split
  · split
    · rename_i taken
      exact .inl ⟨rfl, waits taken⟩
    · rename_i zero
      exact .inr ⟨.ok, rfl, takes (not_not.mp zero)⟩
  · rename_i robust
    split
    · rename_i ok
      rw [inherit_ok ok]
      split
      · rename_i taken
        exact .inl ⟨rfl, waits taken⟩
      · rename_i zero
        exact .inr ⟨.ok, rfl, takes (not_not.mp zero)⟩
    · split
      · rename_i dead
        obtain ⟨left, same⟩ := inherit_dead dead
        obtain ⟨taken, leads⟩ := there.takeOver (not_le.mp robust) live left
        refine .inr ⟨.EOWNERDEAD, rfl, ?_⟩
        rw [if_pos (.inr rfl), taken, same]
        exact leads
      · rename_i notOk notDead
        have same : (inherit (state.mutex name).stateInconsistent).1 =
              (state.mutex name).stateInconsistent ∧
            (state.robustMutexInherit name).1 = .ENOTRECOVERABLE := by
          rw [State.robustMutexInherit] at notOk notDead ⊢
          revert notOk notDead
          cases (state.mutex name).stateInconsistent <;> simp [RobustMutex.inherit]
        refine .inr ⟨_, rfl, ?_⟩
        rw [same.2, if_neg (by rintro (impossible | impossible) <;> cases impossible)]
        rw [State.robustMutexInherit]
        dsimp only
        rw [same.1]
        exact there.update there.sound

omit [DecidableEq Name] [DecidableEq Thread] in
/-- The recorded owner of a mutex that is locked holds it. -/
theorem At.owner (there : At exited state name holder)
    (kind : (state.mutex name).kind ≠ PTHREAD_MUTEX_NORMAL)
    (owned : (state.mutex name).ownerThread = some self) :
    ∃ depth, holder = some (self, depth) := by
  rw [there.sound.owner kind, Option.map_eq_some_iff] at owned
  obtain ⟨⟨thread, depth⟩, same, rfl⟩ := owned
  exact ⟨depth, same⟩

omit [DecidableEq Thread] in
theorem checkNeedInit_object (pointer : state.pointer name = .object) :
    state.checkNeedInit name = state := by
  rw [State.checkNeedInit, pointer]

theorem acquire_self {depth : Nat} :
    acquire self (some (self, depth)) = some (self, depth + 1) :=
  if_pos rfl

omit [DecidableEq Thread] in
theorem kind_of_recursive {mx : Mutex Thread} (recursive : mx.Recursive) :
    mx.kind ≠ PTHREAD_MUTEX_NORMAL := by
  intro normal
  rcases recursive with same | same <;> rw [normal] at same <;> cases same

/-- A call of `pthread_mutex_lock` waits, or it ends with the mutex or without it. -/
theorem At.lock (there : At exited state name holder) (live : exited self = false) :
    ((state.lock self name).1 = none ∧ Leads exited name state (state.lock self name).2 holder) ∨
    ∃ result, (state.lock self name).1 = some result ∧
      Leads exited name state (state.lock self name).2
        (if Succeeded result then acquire self holder else holder) := by
  have takes : (state.mutex name).lock_idx = 0 → Leads exited name state
      ((state.setLock name 1).take self name) (acquire self holder) := by
    intro zero
    obtain rfl := there.sound.free.mp zero
    exact there.take live (by decide)
  have robustKind : (state.mutex name).nonRobustKind = PTHREAD_MUTEX_RECURSIVE →
      (state.mutex name).Recursive := by
    intro recursive
    rw [Mutex.nonRobustKind] at recursive
    split at recursive
    · exact .inl recursive
    · exact .inr recursive
  rw [State.lock, if_neg (by rw [there.pointer]; exact Pointer.noConfusion),
    checkNeedInit_object there.pointer]
  dsimp only
  split
  · exact .inr ⟨_, rfl, there.leads⟩
  · split
    · split
      · rename_i taken
        have marked : Leads exited name state (state.setLock name 1) holder := by
          refine there.update (there.sound.marked ?_ _)
          exact iff_of_false (by decide) taken
        rcases marked.there.lockLoop live with ⟨waits, leads⟩ | ⟨result, ended, leads⟩
        · exact .inl ⟨waits, marked.only.trans leads.only, leads.there⟩
        · exact .inr ⟨result, ended, marked.only.trans leads.only, leads.there⟩
      · rename_i zero
        exact .inr ⟨.ok, rfl, takes (not_not.mp zero)⟩
    · split
      · rename_i zero
        exact .inr ⟨.ok, rfl, takes zero⟩
      · split
        · split
          · rename_i owned recursive
            obtain ⟨depth, rfl⟩ := there.owner (kind_of_recursive (robustKind recursive)) owned
            refine .inr ⟨.ok, rfl, ?_⟩
            rw [if_pos (.inl rfl), acquire_self]
            exact there.recurse (robustKind recursive)
          · exact .inr ⟨.EDEADLK, rfl, there.leads⟩
        · exact there.lockLoop live

theorem At.wake (there : At exited state name holder) (live : exited self = false) :
    ((state.wake self name).1 = none ∧ Leads exited name state (state.wake self name).2 holder) ∨
    ∃ result, (state.wake self name).1 = some result ∧
      Leads exited name state (state.wake self name).2
        (if Succeeded result then acquire self holder else holder) := by
  have reset : Leads exited name state
      (state.update name fun mx => { mx with event := false }) holder :=
    there.update (there.sound.marked Iff.rfl false)
  rw [State.wake]
  split
  · have again : Leads exited name _ ((state.update name fun mx =>
        { mx with event := false }).update name fun mx => { mx with event := true }) holder :=
      reset.there.update (reset.there.sound.marked Iff.rfl true)
    exact .inr ⟨_, rfl, reset.only.trans again.only, again.there⟩
  · rcases reset.there.lockLoop live with ⟨waits, leads⟩ | ⟨result, ended, leads⟩
    · exact .inl ⟨waits, reset.only.trans leads.only, leads.there⟩
    · exact .inr ⟨result, ended, reset.only.trans leads.only, leads.there⟩

/-- The five outcomes of `pthread_mutex_trylock`. -/
theorem At.trylock_cases (there : At exited state name holder) :
    (holder = none ∧ state.trylock self name = (.ok, (state.setLock name 1).take self name)) ∨
    ((∃ depth, holder = some (self, depth)) ∧ (state.mutex name).Recursive ∧
      state.trylock self name = (.ok, state.recurse name)) ∨
    ((state.mutex name).kind < 0 ∧ (state.mutex name).stateInconsistent = .notRecoverable ∧
      state.trylock self name = (.ENOTRECOVERABLE, state)) ∨
    ((state.mutex name).kind < 0 ∧ (state.mutex name).stateInconsistent = .terminated ∧
      state.trylock self name = (.EOWNERDEAD,
        ((state.update name fun mx => { mx with stateInconsistent := .inconsistent }).update name
          fun mx => { mx with recursive_count := 1 }).robustMutexAdd self name)) ∨
    (holder ≠ none ∧ ((state.mutex name).kind < 0 →
        (state.mutex name).stateInconsistent ≠ .terminated ∧
        (state.mutex name).stateInconsistent ≠ .notRecoverable ∧
        ¬ (-(state.mutex name).kind - 1 = PTHREAD_MUTEX_RECURSIVE ∧
          (state.mutex name).ownerThread = some self)) ∧
      state.trylock self name = (.EBUSY, state)) := by
  have taken : (state.mutex name).lock_idx ≠ 0 → holder ≠ none := fun zero none =>
    zero (there.sound.free.mpr none)
  rw [State.trylock, checkNeedInit_object there.pointer]
  dsimp only
  split
  · rename_i plain
    split
    · rename_i zero
      exact .inl ⟨there.sound.free.mp zero, rfl⟩
    · rename_i locked
      split
      · rename_i mine
        have recursive : (state.mutex name).Recursive := .inl mine.1
        exact .inr (.inl ⟨there.owner (kind_of_recursive recursive) mine.2, recursive, rfl⟩)
      · exact .inr (.inr (.inr (.inr ⟨taken locked, fun robust => absurd plain (not_le.mpr robust),
          rfl⟩)))
  · rename_i robust
    split
    · rename_i lost
      exact .inr (.inr (.inl ⟨not_le.mp robust, lost, rfl⟩))
    · rename_i notLost
      split
      · rename_i zero
        exact .inl ⟨there.sound.free.mp zero, rfl⟩
      · rename_i locked
        split
        · rename_i mine
          have recursive : (state.mutex name).Recursive := .inr mine.1
          exact .inr (.inl ⟨there.owner (kind_of_recursive recursive) mine.2, recursive, rfl⟩)
        · split
          · rename_i dead
            obtain ⟨left, same⟩ := inherit_dead dead
            rw [same]
            exact .inr (.inr (.inr (.inl ⟨not_le.mp robust, left, rfl⟩)))
          · split
            · rename_i notMine _ ok
              rw [inherit_ok ok]
              refine .inr (.inr (.inr (.inr ⟨taken locked, fun _ => ⟨?_, notLost, notMine⟩, rfl⟩)))
              intro left
              rw [State.robustMutexInherit, left] at ok
              cases ok
            · rename_i notDead notOk
              rw [State.robustMutexInherit] at notDead notOk
              revert notDead notOk notLost
              cases (state.mutex name).stateInconsistent <;> simp [RobustMutex.inherit]

theorem At.trylock (there : At exited state name holder) (live : exited self = false) :
    Leads exited name state (state.trylock self name).2
      (if Succeeded (state.trylock self name).1 then acquire self holder else holder) := by
  rcases @At.trylock_cases _ _ _ _ _ _ _ self _ there with ⟨rfl, same⟩ |
    ⟨⟨depth, rfl⟩, recursive, same⟩ | ⟨-, -, same⟩ | ⟨robust, left, same⟩ | ⟨-, -, same⟩
  · rw [same]
    exact there.take live (by decide)
  · rw [same, if_pos (.inl rfl), acquire_self]
    exact there.recurse recursive
  · rw [same]
    exact there.leads
  · rw [same, if_pos (.inr rfl)]
    obtain ⟨⟨thread, depth, rfl, gone⟩, unlisted⟩ := there.left robust left
    have other : thread ≠ self := by
      rintro rfl
      rw [live] at gone
      exact Bool.false_ne_true gone
    rw [show acquire self (some (thread, depth)) = some (self, 1) from if_neg other]
    refine ⟨(State.only_update.trans State.only_update).trans
      (State.only_robustMutexAdd (unlisted self)), there.pointer, ?_, ?_⟩
    · rw [State.robustMutexAdd_mutex, State.update_mutex, State.update_mutex]
      refine Sound.held there.sound.kind
        (fun zero => Option.some_ne_none _ (there.sound.free.mp zero)) (fun _ => rfl) le_rfl
        (fun _ => rfl) (fun _ => rfl) live (fun thread => ?_) (fun _ same => by cases same)
      rw [State.mem_robustMutexAdd]
      have nowhere := unlisted thread
      simp only [State.update_robustMxList, nowhere, robust, and_true, or_false, true_and]
    · intro thread
      exact (State.only_robustMutexAdd (unlisted self)).distinct thread (there.distinct thread)
  · rw [same]
    exact there.leads

omit [DecidableEq Name] in
theorem unlocked_single (holder : Option (Thread × Nat))
    (once : ∀ thread depth, holder = some (thread, depth) → depth = 1) :
    unlocked self holder = none := by
  rcases holder with _ | ⟨thread, depth⟩
  · rfl
  · rw [once thread depth rfl]
    exact if_neg fun impossible => Nat.lt_irrefl 1 impossible.2

omit [DecidableEq Name] in
theorem unlocked_last : unlocked self (some (self, 1)) = none :=
  if_neg fun impossible => Nat.lt_irrefl 1 impossible.2

omit [DecidableEq Name] in
theorem unlocked_deeper {depth : Nat} (deep : 1 < depth) :
    unlocked self (some (self, depth)) = some (self, depth - 1) :=
  if_pos ⟨rfl, deep⟩

omit [DecidableEq Thread] in
/-- A recursive mutex that stays locked is locked once less. -/
theorem Sound.unlockedOnce {listed : Thread → Prop} {mx : Mutex Thread} {depth : Nat}
    (sound : Sound exited listed mx (some (self, depth))) (recursive : mx.Recursive)
    (deep : 1 < depth) {stateInconsistent : RobustState}
    (intact : mx.kind < 0 → (stateInconsistent = .terminated ↔ mx.stateInconsistent = .terminated)) :
    Sound exited listed { mx with
      recursive_count := mx.recursive_count - 1, stateInconsistent := stateInconsistent }
      (some (self, depth - 1)) where
  kind := sound.kind
  free := iff_of_false (fun zero => Option.some_ne_none _ (sound.free.mp zero))
    (Option.some_ne_none _)
  owner := sound.owner
  depth := by
    intro thread other same
    obtain ⟨rfl, rfl⟩ := Prod.mk.inj (Option.some.inj same)
    refine ⟨by omega, fun _ => ?_, fun single => absurd recursive single⟩
    change mx.recursive_count - 1 = _
    rw [(sound.depth self depth rfl).2.1 recursive]
    omega
  listed thread := by
    rw [sound.listed]
    simp only [Option.some.injEq, Prod.mk.injEq, exists_and_left, exists_eq', and_true]
  terminated robust := by
    rw [intact robust, sound.terminated robust]
    constructor
    · rintro ⟨thread, _, same, gone⟩
      obtain ⟨rfl, rfl⟩ := Prod.mk.inj (Option.some.inj same)
      exact ⟨_, _, rfl, gone⟩
    · rintro ⟨thread, _, same, gone⟩
      obtain ⟨rfl, rfl⟩ := Prod.mk.inj (Option.some.inj same)
      exact ⟨_, _, rfl, gone⟩
  inconsistent _ _ := Option.some_ne_none _

omit [DecidableEq Name] [DecidableEq Thread] in
/-- The count of a mutex that its holder unlocks is the depth, so it falls to zero at the last time. -/
theorem At.lastTime {depth : Nat} (there : At exited state name (some (self, depth)))
    (last : ¬ (state.mutex name).Recursive ∨ (state.mutex name).recursive_count - 1 = 0) :
    depth = 1 := by
  obtain ⟨-, counted, once⟩ := there.sound.depth self depth rfl
  by_cases recursive : (state.mutex name).Recursive
  · have count := counted recursive
    have zero := last.resolve_left (not_not.mpr recursive)
    omega
  · exact once recursive

omit [DecidableEq Thread] in
/-- The lock word is released when the mutex has no owner any more. -/
theorem release_leads (only : Only name state middle) (pointer : middle.pointer name = .object)
    (distinct : ∀ thread, (middle.robustMxList thread).Nodup)
    (kind : -3 ≤ (middle.mutex name).kind ∧ (middle.mutex name).kind ≤ 2)
    (owner : (middle.mutex name).kind ≠ PTHREAD_MUTEX_NORMAL →
      (middle.mutex name).ownerThread = none)
    (unlisted : ∀ thread, name ∉ middle.robustMxList thread)
    (intact : (middle.mutex name).kind < 0 → (middle.mutex name).stateInconsistent ≠ .terminated ∧
      (middle.mutex name).stateInconsistent ≠ .inconsistent) :
    Leads exited name state (middle.release name) none where
  only := only.trans State.only_update
  there := by
    refine ⟨pointer, ?_, distinct⟩
    rw [State.release, State.update_mutex]
    exact Sound.released kind rfl owner unlisted intact

/-- A mutex without a robust node is unlocked. -/
theorem At.unlockPlain (there : At exited state name holder)
    (plain : 0 ≤ (state.mutex name).kind) :
    Leads exited name state (state.unlockObject self name).2
      (if (state.unlockObject self name).1 = .ok then unlocked self holder else holder) := by
  have sound := there.sound
  have nowhere : ∀ thread, name ∉ state.robustMxList thread := fun thread member =>
    absurd plain (not_le.mpr ((sound.listed thread).mp member).1)
  rw [State.unlockObject]
  dsimp only
  rw [if_pos plain]
  split
  · rename_i normal
    have single : ¬ (state.mutex name).Recursive := fun recursive =>
      kind_of_recursive recursive normal
    rw [if_pos rfl, unlocked_single holder fun thread depth same =>
      (sound.depth thread depth same).2.2 single]
    exact release_leads Only.refl there.pointer there.distinct sound.kind
      (fun other => absurd normal other) nowhere fun robust => absurd plain (not_le.mpr robust)
  · rename_i kind
    split
    · rename_i owned
      obtain ⟨depth, rfl⟩ := there.owner kind owned
      by_cases recursive : (state.mutex name).kind = PTHREAD_MUTEX_RECURSIVE
      · rw [if_pos recursive]
        simp only [State.update_mutex, recursive, ne_eq, not_true_eq_false, false_or]
        split
        · rename_i last
          obtain rfl := there.lastTime (.inr last)
          rw [if_pos rfl, unlocked_last]
          refine release_leads (State.only_update.trans State.only_update) there.pointer
            there.distinct ?_ (fun _ => ?_) nowhere ?_
          · rw [State.update_mutex, State.update_mutex]
            exact sound.kind
          · rw [State.update_mutex]
          · rw [State.update_mutex, State.update_mutex]
            exact fun robust => absurd plain (not_le.mpr robust)
        · rename_i deep
          have count := (sound.depth self depth rfl).2.1 (.inl recursive)
          have more : 1 < depth := by
            have positive := (sound.depth self depth rfl).1
            omega
          rw [if_pos rfl, unlocked_deeper more]
          dsimp only
          refine ⟨State.only_update, there.pointer, ?_, there.distinct⟩
          rw [State.update_mutex]
          exact sound.unlockedOnce (.inl recursive) more fun _ => Iff.rfl
      · rw [if_neg recursive, if_pos (.inl recursive)]
        have single : ¬ (state.mutex name).Recursive := by
          rintro (same | same)
          · exact recursive same
          · rw [PTHREAD_MUTEX_RECURSIVE] at same
            omega
        obtain rfl := there.lastTime (.inl single)
        rw [if_pos rfl, unlocked_last]
        refine release_leads State.only_update there.pointer there.distinct ?_ (fun _ => ?_) nowhere
          ?_
        · rw [State.update_mutex]
          exact sound.kind
        · rw [State.update_mutex]
        · rw [State.update_mutex]
          exact fun robust => absurd plain (not_le.mpr robust)
    · exact there.leads

/-- A robust mutex is unlocked by its holder. -/
theorem At.unlockRobust (there : At exited state name holder) (live : exited self = false)
    (robust : (state.mutex name).kind < 0) :
    Leads exited name state (state.unlockObject self name).2
      (if (state.unlockObject self name).1 = .ok then unlocked self holder else holder) := by
  have sound := there.sound
  have kind : (state.mutex name).kind ≠ PTHREAD_MUTEX_NORMAL := by
    rw [PTHREAD_MUTEX_NORMAL]
    omega
  rw [State.unlockObject]
  dsimp only
  rw [if_neg (not_le.mpr robust)]
  split
  · rename_i owned
    obtain ⟨depth, rfl⟩ := there.owner kind owned
    have alive : (state.mutex name).stateInconsistent ≠ .terminated := by
      intro same
      obtain ⟨thread, _, equal, gone⟩ := (sound.terminated robust).mp same
      rw [← (Prod.mk.inj (Option.some.inj equal)).1, live] at gone
      exact Bool.false_ne_true gone
    generalize spoiling : (state.update name fun mx => { mx with stateInconsistent :=
      if mx.stateInconsistent = .inconsistent then .notRecoverable else mx.stateInconsistent }) =
        spoiled
    obtain ⟨next, same, intact⟩ : ∃ next,
        spoiled.mutex name = { state.mutex name with stateInconsistent := next } ∧
          next ≠ .terminated ∧ next ≠ .inconsistent := by
      rw [← spoiling]
      refine ⟨_, State.update_mutex, ?_⟩
      by_cases broken : (state.mutex name).stateInconsistent = .inconsistent
      · rw [if_pos broken]
        exact ⟨by decide, by decide⟩
      · rw [if_neg broken]
        exact ⟨alive, broken⟩
    have only : Only name state spoiled := spoiling ▸ State.only_update
    have lists : spoiled.robustMxList = state.robustMxList := spoiling ▸ rfl
    have pointer : spoiled.pointer name = .object := spoiling ▸ there.pointer
    have distinct : ∀ thread, (spoiled.robustMxList thread).Nodup := lists ▸ there.distinct
    -- The list of the owner gives the mutex up, and then the lock word is released.
    have last : ∀ middle, Only name spoiled middle → middle.robustMxList = spoiled.robustMxList →
        middle.pointer name = .object → (∃ count, middle.mutex name =
          { state.mutex name with stateInconsistent := next, recursive_count := count }) →
        Leads exited name state ((middle.robustMutexRemove name none).release name) none := by
      rintro middle onward sameLists there' ⟨count, fields⟩
      have own : (middle.mutex name).ownerThread = some self := by
        rw [fields]
        exact owned
      have removal : Only name middle (middle.robustMutexRemove name none) :=
        State.only_robustMutexRemove own
      have nodup : ∀ thread, (middle.robustMxList thread).Nodup :=
        fun thread => sameLists ▸ distinct thread
      refine release_leads ((only.trans onward).trans removal) ?_
        (fun thread => removal.distinct thread (nodup thread)) ?_ (fun _ => ?_) (fun thread member => ?_)
        fun _ => ?_
      · rw [State.robustMutexRemove_pointer own]
        exact there'
      · rw [State.robustMutexRemove_mutex own, fields]
        exact sound.kind
      · rw [State.robustMutexRemove_mutex own]
      · rw [State.mem_robustMutexRemove own (nodup self), sameLists, lists] at member
        obtain ⟨-, ⟨_, equal⟩, -⟩ := (sound.listed thread).mp member.2
        exact member.1 (Prod.mk.inj (Option.some.inj equal)).1.symm
      · rw [State.robustMutexRemove_mutex own, fields]
        exact intact
    by_cases recursive : -(state.mutex name).kind - 1 = PTHREAD_MUTEX_RECURSIVE
    · rw [if_pos recursive]
      simp only [State.update_mutex, recursive, ne_eq, not_true_eq_false, false_or, same]
      split
      · rename_i zero
        obtain rfl := there.lastTime (.inr zero)
        rw [if_pos rfl, unlocked_last]
        refine last _ State.only_update rfl pointer ⟨(state.mutex name).recursive_count - 1, ?_⟩
        rw [State.update_mutex, same]
      · rename_i deep
        have count := (sound.depth self depth rfl).2.1 (.inr recursive)
        have more : 1 < depth := by
          have positive := (sound.depth self depth rfl).1
          omega
        rw [if_pos rfl, unlocked_deeper more]
        dsimp only
        refine ⟨only.trans State.only_update, pointer, ?_, distinct⟩
        rw [State.update_mutex, same, State.update_robustMxList, lists]
        exact sound.unlockedOnce (.inr recursive) more fun _ => iff_of_false intact.1 alive
    · rw [if_neg recursive, if_pos (.inl recursive)]
      have single : ¬ (state.mutex name).Recursive := by
        rintro (same | same)
        · rw [PTHREAD_MUTEX_RECURSIVE] at same
          omega
        · exact recursive same
      obtain rfl := there.lastTime (.inl single)
      rw [if_pos rfl, unlocked_last]
      exact last spoiled Only.refl rfl pointer ⟨(state.mutex name).recursive_count, same⟩
  · exact there.leads

theorem At.unlockObject (there : At exited state name holder) (live : exited self = false) :
    Leads exited name state (state.unlockObject self name).2
      (if (state.unlockObject self name).1 = .ok then unlocked self holder else holder) := by
  rcases lt_or_ge (state.mutex name).kind 0 with robust | plain
  · exact there.unlockRobust live robust
  · exact there.unlockPlain plain

omit [DecidableEq Thread] in
theorem At.consistent (there : At exited state name holder) :
    Leads exited name state (state.consistent name).2 holder := by
  have sound := there.sound
  rw [State.consistent]
  split
  · exact there.leads
  · rename_i broken
    rw [not_or, not_le, not_not] at broken
    dsimp only
    refine ⟨State.only_update, there.pointer, ?_, there.distinct⟩
    rw [State.update_mutex]
    refine ⟨sound.kind, sound.free, sound.owner, sound.depth, sound.listed, fun robust => ?_,
      fun _ same => by cases same⟩
    rw [← sound.terminated robust, broken.2]
    exact iff_of_false (fun same => by cases same) (fun same => by cases same)

end Calls

end MutexDestroy

end CodeCollect.Pthreads
