import CodeCollect.Library.DoublyLinkedList
import Mathlib

namespace CodeCollect.Pthreads

open Library

/-- A `ThreadKeyAssoc` is known by its address. It lies on the chain of the keys of its thread and on
the chain of the threads of its key; the values are those of the thread local storage. -/
structure ThreadKeys (Thread Key Value : Type) where
  used : List Nat
  thread : Nat → Thread
  key : Nat → Key
  keyLinks : Links Nat
  threadLinks : Links Nat
  keys : Thread → Option Nat
  nextAssoc : Thread → Option Nat
  threads : Key → Option Nat
  values : Thread → Key → Option Value

/-- An address that is not in use, unless there is no memory left. -/
structure Allocator where
  calloc : List Nat → Option Nat
  unused : ∀ used assoc, calloc used = some assoc → assoc ∉ used

namespace ThreadKeys

variable {Thread Key Value : Type} [DecidableEq Thread] [DecidableEq Key]

section Operations

variable (memory : ThreadKeys Thread Key Value) (thread : Thread) (key : Key)

/-- This is `TlsSetValue` of this thread. -/
def tlsSetValue (value : Option Value) : ThreadKeys Thread Key Value :=
  { memory with
    values := Function.update memory.values thread
      (Function.update (memory.values thread) key value) }

/-- This is `ptw32_tkAssocCreate`, which fails with `ENOMEM`. -/
def tkAssocCreate (allocator : Allocator) : Option (ThreadKeys Thread Key Value) :=
  (allocator.calloc memory.used).map fun assoc =>
    { memory with
      used := assoc :: memory.used
      thread := Function.update memory.thread assoc thread
      key := Function.update memory.key assoc key
      threadLinks := memory.threadLinks.push assoc (memory.threads key)
      threads := Function.update memory.threads key (some assoc)
      keyLinks := memory.keyLinks.push assoc (memory.keys thread)
      keys := Function.update memory.keys thread (some assoc) }

/-- This is `ptw32_tkAssocDestroy`. -/
def tkAssocDestroy (assoc : Nat) : ThreadKeys Thread Key Value :=
  { memory with
    used := memory.used.erase assoc
    keyLinks := memory.keyLinks.unlink assoc
    keys := Function.update memory.keys (memory.thread assoc)
      (memory.keyLinks.startWithout assoc (memory.keys (memory.thread assoc)))
    nextAssoc := Function.update memory.nextAssoc (memory.thread assoc)
      (memory.keyLinks.startWithout assoc (memory.nextAssoc (memory.thread assoc)))
    threadLinks := memory.threadLinks.unlink assoc
    threads := Function.update memory.threads (memory.key assoc)
      (memory.threadLinks.startWithout assoc (memory.threads (memory.key assoc))) }

/-- The chain of the keys of a thread, which is no longer than there are associations. -/
def keyChain : List Nat := memory.keyLinks.walk memory.used.length (memory.keys thread)

/-- The chain of the threads of a key. -/
def threadChain : List Nat := memory.threadLinks.walk memory.used.length (memory.threads key)

/-- This is `pthread_setspecific`, which may fail. Only keys with a destructor are associated. -/
def setspecific (allocator : Allocator) (hasDestructor : Key → Bool) (value : Option Value) :
    Option (ThreadKeys Thread Key Value) :=
  if hasDestructor key && value.isSome then
    if ((memory.keyChain thread).find? fun assoc => memory.key assoc = key).isSome then
      some (memory.tlsSetValue thread key value)
    else (memory.tkAssocCreate thread key allocator).map (tlsSetValue · thread key value)
  else some (memory.tlsSetValue thread key value)

end Operations

/-- The two families of chains hold the associations in use, each under its thread and under its
key, and a thread and a key have at most one association. -/
structure Chains (memory : ThreadKeys Thread Key Value) (keyChains : Thread → List Nat)
    (threadChains : Key → List Nat) : Prop where
  used : memory.used.Nodup
  keys : ∀ thread, memory.keyLinks.Segment none (memory.keys thread) (keyChains thread) none
  threads : ∀ key, memory.threadLinks.Segment none (memory.threads key) (threadChains key) none
  distinctKeys : ∀ thread, (keyChains thread).Nodup
  distinctThreads : ∀ key, (threadChains key).Nodup
  mem_keys : ∀ {thread assoc}, assoc ∈ keyChains thread ↔
    assoc ∈ memory.used ∧ memory.thread assoc = thread
  mem_threads : ∀ {key assoc}, assoc ∈ threadChains key ↔
    assoc ∈ memory.used ∧ memory.key assoc = key
  unique : ∀ {assoc other}, assoc ∈ memory.used → other ∈ memory.used →
    memory.thread assoc = memory.thread other → memory.key assoc = memory.key other →
      assoc = other

/-- The chains that start at the threads and at the keys are those of the associations. -/
def Chained (memory : ThreadKeys Thread Key Value) : Prop :=
  Chains memory memory.keyChain memory.threadChain

section Destroying

variable {memory : ThreadKeys Thread Key Value} {keyChains : Thread → List Nat}
  {threadChains : Key → List Nat} {thread : Thread} {key : Key} {assoc : Nat}

omit [DecidableEq Thread] [DecidableEq Key] in
theorem Chains.keyChain_eq (chains : Chains memory keyChains threadChains) :
    memory.keyChain = keyChains := by
  funext thread
  apply (chains.keys thread).walk
  apply ((chains.distinctKeys thread).subperm _).length_le
  exact fun assoc member => (chains.mem_keys.mp member).1

omit [DecidableEq Thread] [DecidableEq Key] in
theorem Chains.threadChain_eq (chains : Chains memory keyChains threadChains) :
    memory.threadChain = threadChains := by
  funext key
  apply (chains.threads key).walk
  apply ((chains.distinctThreads key).subperm _).length_le
  exact fun assoc member => (chains.mem_threads.mp member).1

omit [DecidableEq Thread] [DecidableEq Key] in
theorem Chains.chained (chains : Chains memory keyChains threadChains) : Chained memory := by
  rw [Chained, chains.keyChain_eq, chains.threadChain_eq]
  exact chains

/-- The values are no part of the chains. -/
theorem Chains.tlsSetValue (chains : Chains memory keyChains threadChains) (thread : Thread)
    (key : Key) (value : Option Value) :
    Chains (memory.tlsSetValue thread key value) keyChains threadChains :=
  ⟨chains.used, chains.keys, chains.threads, chains.distinctKeys, chains.distinctThreads,
    chains.mem_keys, chains.mem_threads, chains.unique⟩

omit [DecidableEq Thread] [DecidableEq Key] in
/-- The cursors are no part of the chains. -/
theorem Chains.nextAssoc (chains : Chains memory keyChains threadChains)
    (nextAssoc : Thread → Option Nat) :
    Chains { memory with nextAssoc := nextAssoc } keyChains threadChains :=
  ⟨chains.used, chains.keys, chains.threads, chains.distinctKeys, chains.distinctThreads,
    chains.mem_keys, chains.mem_threads, chains.unique⟩

/-- A row of distinct nodes is the row without a node and the two parts around it. -/
theorem erase_parts {front back : List Nat} (distinct : (front ++ assoc :: back).Nodup) :
    (front ++ assoc :: back).erase assoc = front ++ back := by
  have outside : assoc ∉ front := fun member =>
    (List.nodup_append.mp distinct).2.2 assoc member assoc List.mem_cons_self rfl
  rw [List.erase_append_right _ outside, List.erase_cons_head]

/-- A family of rows from which one node is taken out. -/
theorem segments_unlink {Name : Type} [DecidableEq Name] {links : Links Nat}
    {starts : Name → Option Nat} {rows : Name → List Nat} {owner : Nat → Name}
    (segments : ∀ name, links.Segment none (starts name) (rows name) none)
    (distinct : ∀ name, (rows name).Nodup)
    (owned : ∀ {name node}, node ∈ rows name → owner node = name)
    (member : assoc ∈ rows (owner assoc)) (here : Name) :
    (links.unlink assoc).Segment none
      (Function.update starts (owner assoc) (links.startWithout assoc (starts (owner assoc))) here)
      (Function.update rows (owner assoc) ((rows (owner assoc)).erase assoc) here) none := by
  obtain ⟨front, back, parts⟩ := List.append_of_mem member
  have segment := segments (owner assoc)
  have distinctRow := distinct (owner assoc)
  rw [parts] at segment distinctRow
  by_cases same : here = owner assoc
  · subst same
    rw [Function.update_self, Function.update_self, parts, erase_parts distinctRow]
    exact segment.unlink distinctRow
  · rw [Function.update_of_ne same, Function.update_of_ne same]
    apply segment.unlink_other (segments here)
    intro other within elsewhere
    rw [← parts] at elsewhere
    exact same ((owned within).symm.trans (owned elsewhere))

/-- A family of rows in which one node is put in front. -/
theorem segments_push {Name : Type} [DecidableEq Name] {links : Links Nat}
    {starts : Name → Option Nat} {rows : Name → List Nat} {owner : Nat → Name}
    (segments : ∀ name, links.Segment none (starts name) (rows name) none)
    (distinct : ∀ name, (rows name).Nodup)
    (owned : ∀ {name node}, node ∈ rows name → owner node = name)
    (fresh : ∀ name, assoc ∉ rows name) (name here : Name) :
    (links.push assoc (starts name)).Segment none
      (Function.update starts name (some assoc) here)
      (Function.update rows name (assoc :: rows name) here) none := by
  by_cases same : here = name
  · subst same
    rw [Function.update_self, Function.update_self]
    exact (segments here).push (distinct here) (fresh here)
  · rw [Function.update_of_ne same, Function.update_of_ne same]
    apply (segments name).push_other (segments here) _ (fresh here)
    intro other within elsewhere
    exact same ((owned within).symm.trans (owned elsewhere))

theorem mem_update_erase {Name : Type} [DecidableEq Name] {rows : Name → List Nat}
    {owner : Nat → Name} {used : List Nat} {name : Name} {node : Nat}
    (distinctUsed : used.Nodup) (distinct : ∀ name, (rows name).Nodup)
    (mem : ∀ {name node}, node ∈ rows name ↔ node ∈ used ∧ owner node = name) :
    node ∈ Function.update rows (owner assoc) ((rows (owner assoc)).erase assoc) name ↔
      node ∈ used.erase assoc ∧ owner node = name := by
  rw [distinctUsed.mem_erase_iff]
  by_cases same : name = owner assoc
  · subst same
    rw [Function.update_self, (distinct _).mem_erase_iff, mem, and_assoc]
  · rw [Function.update_of_ne same, mem]
    constructor
    · rintro ⟨within, owned⟩
      exact ⟨⟨fun here => same (here ▸ owned.symm), within⟩, owned⟩
    · rintro ⟨⟨-, within⟩, owned⟩
      exact ⟨within, owned⟩

theorem mem_update_cons {Name : Type} [DecidableEq Name] {rows : Name → List Nat}
    {owner : Nat → Name} {used : List Nat} {name here : Name} {node : Nat} (fresh : assoc ∉ used)
    (mem : ∀ {name node}, node ∈ rows name ↔ node ∈ used ∧ owner node = name) :
    node ∈ Function.update rows name (assoc :: rows name) here ↔
      node ∈ assoc :: used ∧ Function.update owner assoc name node = here := by
  by_cases new : node = assoc
  · subst new
    rw [Function.update_self]
    by_cases same : here = name
    · subst same
      simp
    · rw [Function.update_of_ne same, mem]
      exact iff_of_false (fun within => fresh within.1) fun within => same within.2.symm
  · rw [Function.update_of_ne new, List.mem_cons, or_iff_right new]
    by_cases same : here = name
    · subst same
      rw [Function.update_self, List.mem_cons, or_iff_right new, mem]
    · rw [Function.update_of_ne same, mem]

/-- An association leaves its two chains. -/
theorem Chains.tkAssocDestroy (chains : Chains memory keyChains threadChains)
    (present : assoc ∈ memory.used) :
    Chains (memory.tkAssocDestroy assoc)
      (Function.update keyChains (memory.thread assoc)
        ((keyChains (memory.thread assoc)).erase assoc))
      (Function.update threadChains (memory.key assoc)
        ((threadChains (memory.key assoc)).erase assoc)) where
  used := chains.used.erase assoc
  keys := segments_unlink chains.keys chains.distinctKeys
    (fun member => (chains.mem_keys.mp member).2) (chains.mem_keys.mpr ⟨present, rfl⟩)
  threads := segments_unlink chains.threads chains.distinctThreads
    (fun member => (chains.mem_threads.mp member).2) (chains.mem_threads.mpr ⟨present, rfl⟩)
  distinctKeys := by
    intro thread
    by_cases same : thread = memory.thread assoc
    · rw [same, Function.update_self]
      exact (chains.distinctKeys _).erase assoc
    · rw [Function.update_of_ne same]
      exact chains.distinctKeys thread
  distinctThreads := by
    intro key
    by_cases same : key = memory.key assoc
    · rw [same, Function.update_self]
      exact (chains.distinctThreads _).erase assoc
    · rw [Function.update_of_ne same]
      exact chains.distinctThreads key
  mem_keys := mem_update_erase chains.used chains.distinctKeys chains.mem_keys
  mem_threads := mem_update_erase chains.used chains.distinctThreads chains.mem_threads
  unique left right := chains.unique (List.mem_of_mem_erase left) (List.mem_of_mem_erase right)

/-- The association that is created is in front of its two chains. -/
theorem Chains.tkAssocCreate {allocator : Allocator} {created : ThreadKeys Thread Key Value}
    (chains : Chains memory keyChains threadChains)
    (made : memory.tkAssocCreate thread key allocator = some created)
    (absent : ∀ assoc ∈ keyChains thread, memory.key assoc ≠ key) :
    ∃ assoc, created.key assoc = key ∧ assoc ∉ memory.used ∧
      (∀ other, other ≠ assoc → created.key other = memory.key other) ∧
      created.values = memory.values ∧ created.nextAssoc = memory.nextAssoc ∧
      Chains created (Function.update keyChains thread (assoc :: keyChains thread))
        (Function.update threadChains key (assoc :: threadChains key)) := by
  obtain ⟨assoc, allocated, rfl⟩ := Option.map_eq_some_iff.mp made
  have fresh := allocator.unused _ assoc allocated
  have freshKeys : ∀ thread, assoc ∉ keyChains thread :=
    fun thread member => fresh (chains.mem_keys.mp member).1
  have freshThreads : ∀ key, assoc ∉ threadChains key :=
    fun key member => fresh (chains.mem_threads.mp member).1
  refine ⟨assoc, Function.update_self .., fresh, fun other apart => Function.update_of_ne apart ..,
    rfl, rfl, ?_⟩
  constructor
  case used => exact List.nodup_cons.mpr ⟨fresh, chains.used⟩
  case keys =>
    exact segments_push chains.keys chains.distinctKeys
      (fun member => (chains.mem_keys.mp member).2) freshKeys thread
  case threads =>
    exact segments_push chains.threads chains.distinctThreads
      (fun member => (chains.mem_threads.mp member).2) freshThreads key
  case distinctKeys =>
    intro here
    by_cases same : here = thread
    · rw [same, Function.update_self]
      exact List.nodup_cons.mpr ⟨freshKeys thread, chains.distinctKeys thread⟩
    · rw [Function.update_of_ne same]
      exact chains.distinctKeys here
  case distinctThreads =>
    intro here
    by_cases same : here = key
    · rw [same, Function.update_self]
      exact List.nodup_cons.mpr ⟨freshThreads key, chains.distinctThreads key⟩
    · rw [Function.update_of_ne same]
      exact chains.distinctThreads here
  case mem_keys => exact mem_update_cons fresh chains.mem_keys
  case mem_threads => exact mem_update_cons fresh chains.mem_threads
  case unique =>
    have elsewhere : ∀ other ∈ memory.used, memory.thread other = thread →
        memory.key other ≠ key := by
      intro other within owned
      exact absent other (chains.mem_keys.mpr ⟨within, owned⟩)
    intro left right leftUsed rightUsed sameThread sameKey
    dsimp only at sameThread sameKey
    by_cases leftNew : left = assoc <;> by_cases rightNew : right = assoc
    · exact leftNew.trans rightNew.symm
    · rw [leftNew, Function.update_self, Function.update_of_ne rightNew] at sameThread sameKey
      exact absurd sameKey.symm
        (elsewhere right (List.mem_of_ne_of_mem rightNew rightUsed) sameThread.symm)
    · rw [rightNew, Function.update_self, Function.update_of_ne leftNew] at sameThread sameKey
      exact absurd sameKey
        (elsewhere left (List.mem_of_ne_of_mem leftNew leftUsed) sameThread)
    · rw [Function.update_of_ne leftNew, Function.update_of_ne rightNew] at sameThread sameKey
      exact chains.unique (List.mem_of_ne_of_mem leftNew leftUsed)
        (List.mem_of_ne_of_mem rightNew rightUsed) sameThread sameKey

/-- The new chain of the thread has at most one association more in front, and after a value that is
not `NULL` the key is associated when it has a destructor. -/
theorem Chains.setspecific {allocator : Allocator} {hasDestructor : Key → Bool}
    {value : Option Value} {changed : ThreadKeys Thread Key Value}
    (chains : Chains memory keyChains threadChains)
    (success : memory.setspecific thread key allocator hasDestructor value = some changed) :
    ∃ pushed keyChains' threadChains', Chains changed keyChains' threadChains' ∧
      keyChains' thread = pushed ++ keyChains thread ∧
      (∀ other ≠ thread, keyChains' other = keyChains other) ∧
      (∀ other ∈ memory.used, changed.key other = memory.key other) ∧
      changed.nextAssoc = memory.nextAssoc ∧
      changed.values = Function.update memory.values thread
        (Function.update (memory.values thread) key value) ∧
      (hasDestructor key = true → value ≠ none →
        ∃ assoc ∈ keyChains' thread, changed.key assoc = key) := by
  unfold ThreadKeys.setspecific at success
  split at success
  · rename_i needed
    split at success
    · rename_i found
      rw [← Option.some.inj success]
      refine ⟨[], keyChains, threadChains, chains.tlsSetValue thread key value, rfl, fun _ _ => rfl,
        fun _ _ => rfl, rfl, rfl, fun _ _ => ?_⟩
      rw [List.find?_isSome, chains.keyChain_eq] at found
      obtain ⟨assoc, member, same⟩ := found
      exact ⟨assoc, member, of_decide_eq_true same⟩
    · rename_i missing
      obtain ⟨created, made, rfl⟩ := Option.map_eq_some_iff.mp success
      have absent : ∀ assoc ∈ keyChains thread, memory.key assoc ≠ key := by
        intro assoc member same
        apply missing
        rw [List.find?_isSome, chains.keyChain_eq]
        exact ⟨assoc, member, decide_eq_true same⟩
      obtain ⟨assoc, named, fresh, others, values, cursor, made⟩ :=
        chains.tkAssocCreate made absent
      refine ⟨[assoc], _, _, made.tlsSetValue thread key value, Function.update_self ..,
        fun other apart => Function.update_of_ne apart .., fun other within => ?_, cursor, ?_,
        fun _ _ => ⟨assoc, ?_, named⟩⟩
      · exact others other fun same => fresh (same ▸ within)
      · rw [ThreadKeys.tlsSetValue, values]
      · rw [Function.update_self]
        exact List.mem_cons_self
  · rename_i needless
    rw [← Option.some.inj success]
    refine ⟨[], keyChains, threadChains, chains.tlsSetValue thread key value, rfl, fun _ _ => rfl,
      fun _ _ => rfl, rfl, rfl, fun destructor valued => ?_⟩
    rw [destructor, Bool.true_and] at needless
    exact absurd (Option.ne_none_iff_isSome.mp valued) needless

theorem Chained.setspecific {allocator : Allocator} {hasDestructor : Key → Bool}
    {value : Option Value} {changed : ThreadKeys Thread Key Value} (chained : Chained memory)
    (success : memory.setspecific thread key allocator hasDestructor value = some changed) :
    Chained changed := by
  obtain ⟨_, _, _, chains, -⟩ := Chains.setspecific chained success
  exact chains.chained

end Destroying

section Initial

/-- No key has a value and nothing is associated. -/
def initial (thread : Thread) (key : Key) : ThreadKeys Thread Key Value where
  used := []
  thread _ := thread
  key _ := key
  keyLinks := ⟨fun _ => none, fun _ => none⟩
  threadLinks := ⟨fun _ => none, fun _ => none⟩
  keys _ := none
  nextAssoc _ := none
  threads _ := none
  values _ _ := none

omit [DecidableEq Thread] [DecidableEq Key] in
theorem chained_initial (thread : Thread) (key : Key) :
    Chained (initial thread key : ThreadKeys Thread Key Value) := by
  have chains : Chains (initial thread key : ThreadKeys Thread Key Value) (fun _ => []) fun _ => [] := by
    constructor
    case keys => exact fun _ => rfl
    case threads => exact fun _ => rfl
    all_goals simp [initial]
  exact chains.chained

/-- The addresses are given out in their order. -/
def counting : Allocator where
  calloc used := some (used.sum + 1)
  unused used assoc allocated := by
    intro member
    have below := List.single_le_sum (fun _ _ => Nat.zero_le _) assoc member
    have above := Option.some.inj allocated
    omega

end Initial

end ThreadKeys

end CodeCollect.Pthreads
