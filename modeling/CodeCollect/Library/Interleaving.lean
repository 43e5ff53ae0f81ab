import CodeCollect.Library.System

namespace CodeCollect.Library

/-- Threads take turns. A step reads and writes the memory and moves the thread that takes it. -/
structure Program (Thread Memory Place Label : Type*) where
  memory : Memory
  entry : Place
  step : Thread → Memory → Place → Label → Option (Memory × Place)

/-- A configuration is a memory and the place of each thread. -/
structure Configuration (Thread Memory Place : Type*) where
  memory : Memory
  places : Thread → Place

namespace Program

variable {Thread Memory Place Label : Type*}

section Choices

variable {Moves : Memory → Place → Prop} {test : Prop} [Decidable test] {next : Memory}
  {reached : Place}

/-- A step without a choice is one move. -/
theorem step_some {memory : Memory} {place : Place}
    (taken : some (memory, place) = some (next, reached)) (moves : Moves memory place) :
    Moves next reached := by
  obtain ⟨rfl, rfl⟩ := Prod.mk.inj (Option.some.inj taken)
  exact moves

/-- A branch of the code is one of two moves. -/
theorem step_ite {first second : Memory × Place}
    (taken : (if test then some first else some second) = some (next, reached))
    (yes : test → Moves first.1 first.2) (no : ¬ test → Moves second.1 second.2) :
    Moves next reached := by
  split at taken
  · rename_i holds
    exact step_some taken (yes holds)
  · rename_i fails
    exact step_some taken (no fails)

/-- A step that only chooses its next place is one of two moves. -/
theorem step_choose {memory : Memory} {first second : Place}
    (taken : some (memory, if test then first else second) = some (next, reached))
    (yes : test → Moves memory first) (no : ¬ test → Moves memory second) :
    Moves next reached := by
  by_cases holds : test
  · rw [if_pos holds] at taken
    exact step_some taken (yes holds)
  · rw [if_neg holds] at taken
    exact step_some taken (no holds)

/-- A step that waits for a condition is a move that has it. -/
theorem step_when {memory : Memory} {place : Place}
    (taken : (if test then some (memory, place) else none) = some (next, reached))
    (moves : test → Moves memory place) : Moves next reached := by
  split at taken
  · rename_i holds
    exact step_some taken (moves holds)
  · exact absurd taken (by simp)

end Choices

section Steps

variable [DecidableEq Thread]

/-- The system of a program lets any thread take the next step. -/
def system (program : Program Thread Memory Place Label) :
    System (Configuration Thread Memory Place) (Thread × Label) where
  initial := ⟨program.memory, fun _ => program.entry⟩
  next config action :=
    (program.step action.1 config.memory (config.places action.1) action.2).map fun reached =>
      ⟨reached.1, Function.update config.places action.1 reached.2⟩

variable {program : Program Thread Memory Place Label}

theorem next_iff {config after : Configuration Thread Memory Place} {action : Thread × Label} :
    program.system.next config action = some after ↔
      ∃ memory place, program.step action.1 config.memory (config.places action.1) action.2 =
        some (memory, place) ∧ after = ⟨memory, Function.update config.places action.1 place⟩ := by
  constructor
  · intro taken
    obtain ⟨⟨memory, place⟩, stepped, same⟩ := Option.map_eq_some_iff.mp taken
    exact ⟨memory, place, stepped, same.symm⟩
  · rintro ⟨memory, place, stepped, rfl⟩
    exact Option.map_eq_some_iff.mpr ⟨(memory, place), stepped, rfl⟩

theorem next_of_step {memory next : Memory} {places : Thread → Place} {thread : Thread}
    {label : Label} {place : Place}
    (stepped : program.step thread memory (places thread) label = some (next, place)) :
    program.system.next ⟨memory, places⟩ (thread, label) =
      some ⟨next, Function.update places thread place⟩ :=
  next_iff.mpr ⟨next, place, stepped, rfl⟩

/-- An invariant of memory and places holds when each good step of one thread keeps it. -/
theorem invariant {Good : Configuration Thread Memory Place → Thread × Label → Prop}
    {config : Configuration Thread Memory Place} (reached : program.system.Reachable Good config)
    (Invariant : Memory → (Thread → Place) → Prop)
    (start : Invariant program.memory fun _ => program.entry)
    (preserved : ∀ memory places thread label next place, Invariant memory places →
      Good ⟨memory, places⟩ (thread, label) →
        program.step thread memory (places thread) label = some (next, place) →
          Invariant next (Function.update places thread place)) :
    Invariant config.memory config.places := by
  apply reached.invariant (fun config => Invariant config.memory config.places) start
  intro before action after invariant good taken
  obtain ⟨memory, place, stepped, rfl⟩ := next_iff.mp taken
  exact preserved before.memory before.places action.1 action.2 memory place invariant good stepped

/-- What is known about the place of each thread is known after a move of one of them. -/
theorem forall_update {places : Thread → Place} {thread : Thread} {place : Place}
    {Known : Place → Prop} (known : ∀ thread, Known (places thread))
    (here : Known place) (other : Thread) : Known (Function.update places thread place other) := by
  by_cases same : other = thread
  · subst same
    rwa [Function.update_self]
  · rw [Function.update_of_ne same]
    exact known other

/-- What is known about each two threads is known after a move of one of them. -/
theorem forall_update_pair {places : Thread → Place} {thread : Thread} {place : Place}
    {Known : Place → Place → Prop}
    (known : ∀ thread other, Known (places thread) (places other))
    (first : ∀ other, Known place (places other)) (second : ∀ other, Known (places other) place)
    (both : Known place place) (one other : Thread) :
    Known (Function.update places thread place one) (Function.update places thread place other) := by
  by_cases same : one = thread
  · subst same
    rw [Function.update_self]
    by_cases again : other = one
    · rw [again, Function.update_self]
      exact both
    · rw [Function.update_of_ne again]
      exact first other
  · rw [Function.update_of_ne same]
    by_cases again : other = thread
    · rw [again, Function.update_self]
      exact second one
    · rw [Function.update_of_ne again]
      exact known one other

end Steps

section Owners

variable {owner : Option Thread} {places : Thread → Place} {self : Thread} {place : Place}
  {Owns : Place → Prop}

/-- A mutex has one owner at most. -/
theorem owner_unique (owned : ∀ thread, owner = some thread ↔ Owns (places thread))
    {one other : Thread} (first : Owns (places one)) (second : Owns (places other)) :
    one = other := by
  have both := (owned one).mpr first
  rw [(owned other).mpr second] at both
  exact (Option.some.inj both).symm

variable [DecidableEq Thread]

/-- A mutex keeps its owner over a move that changes nothing about it. -/
theorem owner_keep (owned : ∀ thread, owner = some thread ↔ Owns (places thread))
    (same : Owns place ↔ Owns (places self)) (thread : Thread) :
    owner = some thread ↔ Owns (Function.update places self place thread) := by
  by_cases here : thread = self
  · subst here
    rw [Function.update_self, same]
    exact owned thread
  · rw [Function.update_of_ne here]
    exact owned thread

/-- A thread locks a mutex that has no owner. -/
theorem owner_acquire (owned : ∀ thread, owner = some thread ↔ Owns (places thread))
    (free : owner = none) (now : Owns place) (thread : Thread) :
    some self = some thread ↔ Owns (Function.update places self place thread) := by
  by_cases here : thread = self
  · subst here
    rw [Function.update_self]
    exact iff_of_true rfl now
  · rw [Function.update_of_ne here, ← owned thread, free]
    exact iff_of_false (fun same => here (Option.some.inj same).symm) nofun

/-- The owner of a mutex unlocks it. -/
theorem owner_release (owned : ∀ thread, owner = some thread ↔ Owns (places thread))
    (had : Owns (places self)) (now : ¬ Owns place) (thread : Thread) :
    none = some thread ↔ Owns (Function.update places self place thread) := by
  by_cases here : thread = self
  · subst here
    rw [Function.update_self]
    exact iff_of_false nofun now
  · rw [Function.update_of_ne here]
    apply iff_of_false nofun
    intro holds
    have other := (owned thread).mpr holds
    rw [(owned self).mpr had] at other
    exact here (Option.some.inj other).symm

end Owners

section Totals

variable [Fintype Thread]

/-- Each place has a weight, and this is the weight of all threads. -/
def total (weight : Place → Nat) (places : Thread → Place) : Nat :=
  ∑ thread, weight (places thread)

/-- A total changes by the weights of the places that one thread leaves and reaches. -/
theorem total_update [DecidableEq Thread] (weight : Place → Nat) (places : Thread → Place)
    (thread : Thread) (place : Place) :
    total weight (Function.update places thread place) + weight (places thread) =
      total weight places + weight place := by
  have updated : ∀ other, weight (Function.update places thread place other) =
      Function.update (fun other => weight (places other)) thread (weight place) other := by
    intro other
    by_cases same : other = thread
    · subst same
      simp
    · simp [same]
  have moved := Finset.sum_update_of_mem (Finset.mem_univ thread)
    (fun other => weight (places other)) (weight place)
  have stayed := Finset.add_sum_erase Finset.univ (fun other => weight (places other))
    (Finset.mem_univ thread)
  rw [Finset.sdiff_singleton_eq_erase] at moved
  simp only [total, updated, moved, ← stayed]
  omega

theorem le_total (weight : Place → Nat) (places : Thread → Place) (thread : Thread) :
    weight (places thread) ≤ total weight places :=
  Finset.single_le_sum (fun other _ => Nat.zero_le (weight (places other)))
    (Finset.mem_univ thread)

theorem total_mono {weight other : Place → Nat} (below : ∀ place, weight place ≤ other place)
    (places : Thread → Place) : total weight places ≤ total other places :=
  Finset.sum_le_sum fun thread _ => below (places thread)

theorem total_add (weight other : Place → Nat) (places : Thread → Place) :
    total (fun place => weight place + other place) places =
      total weight places + total other places :=
  Finset.sum_add_distrib

/-- Threads that have no weight at the entry have no weight at the start. -/
theorem total_entry {weight : Place → Nat} {entry : Place} (nothing : weight entry = 0) :
    total weight (fun _ : Thread => entry) = 0 := by
  simp [total, nothing]

theorem total_eq_zero {weight : Place → Nat} {places : Thread → Place} :
    total weight places = 0 ↔ ∀ thread, weight (places thread) = 0 := by
  simp [total]

/-- Some thread has a weight when all threads together have one. -/
theorem exists_of_total_pos {weight : Place → Nat} {places : Thread → Place}
    (positive : 0 < total weight places) : ∃ thread, 0 < weight (places thread) := by
  by_contra nothing
  have zero := total_eq_zero.mpr fun thread => Nat.eq_zero_of_not_pos fun present =>
    nothing ⟨thread, present⟩
  omega

/-- Two different threads have no more weight than all threads together. -/
theorem add_le_total (weight : Place → Nat) (places : Thread → Place) {first second : Thread}
    (differ : first ≠ second) :
    weight (places first) + weight (places second) ≤ total weight places := by
  classical
  have pair := Finset.sum_le_sum_of_subset (f := fun thread => weight (places thread))
    (Finset.subset_univ {first, second})
  rwa [Finset.sum_pair differ] at pair

/-- Two threads with a weight are the same thread when all threads together weigh at most one. -/
theorem eq_of_total_le_one {weight : Place → Nat} {places : Thread → Place}
    (single : total weight places ≤ 1) {first second : Thread}
    (firstHas : 0 < weight (places first)) (secondHas : 0 < weight (places second)) :
    first = second := by
  by_contra differ
  have both := add_le_total weight places differ
  omega

/-- When one thread has a mark, it alone has a weight that only marked places have. -/
theorem total_of_single {weight mark : Place → Nat} {places : Thread → Place}
    (marked : ∀ place, 0 < weight place → 0 < mark place) (single : total mark places ≤ 1)
    {thread : Thread} (here : 0 < mark (places thread)) :
    total weight places = weight (places thread) := by
  apply Finset.sum_eq_single thread
  · intro other _ differ
    by_contra present
    have both := marked _ (Nat.pos_of_ne_zero present)
    exact differ (eq_of_total_le_one single both here)
  · intro absent
    exact absurd (Finset.mem_univ thread) absent

/-- Nothing has a weight that only marked places have when nothing is marked. -/
theorem total_eq_zero_of_unmarked {weight mark : Place → Nat} {places : Thread → Place}
    (marked : ∀ place, 0 < weight place → 0 < mark place) (nothing : total mark places = 0) :
    total weight places = 0 := by
  rw [total_eq_zero] at nothing ⊢
  intro thread
  by_contra present
  have found := marked _ (Nat.pos_of_ne_zero present)
  have unmarked := nothing thread
  omega

end Totals

end Program

end CodeCollect.Library
