import CodeCollect.Pthreads.ThreadKeys

namespace CodeCollect.Pthreads

namespace ThreadExit

variable {Thread Key Value : Type}

def PTHREAD_DESTRUCTOR_ITERATIONS : Nat := 4

/-- A pass begins, a destructor is called, the association of a key without a value is removed, a
value is given up, or a destructor stores a value. -/
inductive Event (Key Value : Type) where
  | pass
  | called (key : Key) (value : Value)
  | removed (key : Key)
  | dropped (key : Key) (value : Value)
  | stored (key : Key) (value : Option Value)

/-- The newest event comes first. -/
abbrev History (Key Value : Type) := List (Event Key Value)

structure State (Thread Key Value : Type) where
  memory : ThreadKeys Thread Key Value
  history : History Key Value

/-- What surrounds the exit of a thread. What a destructor stores may depend on all that has
happened and on the value that it is called with. -/
structure Process (Key Value : Type) where
  allocator : Allocator
  hasDestructor : Key → Bool
  destructor : History Key Value → Key → Value → List (Key × Option Value)

section Code

variable [DecidableEq Thread] [DecidableEq Key] (process : Process Key Value) (thread : Thread)

/-- A call of `pthread_setspecific` that fails stores nothing. -/
def store (state : State Thread Key Value) (key : Key) (value : Option Value) :
    State Thread Key Value :=
  ((state.memory.setspecific thread key process.allocator process.hasDestructor value).map
    fun memory => ⟨memory, .stored key value :: state.history⟩).getD state

/-- The destructor of this key is called with this value. -/
def call (state : State Thread Key Value) (key : Key) (value : Value) : State Thread Key Value :=
  (process.destructor state.history key value).foldl
    (fun state stored => store process thread state stored.1 stored.2)
    { state with history := .called key value :: state.history }

/-- The cursor moves to the next association, and the value of this one is cleared. -/
def advance (memory : ThreadKeys Thread Key Value) (assoc : Nat) : ThreadKeys Thread Key Value :=
  ({ memory with
    nextAssoc := Function.update memory.nextAssoc thread (memory.keyLinks.next assoc) } :
      ThreadKeys Thread Key Value).tlsSetValue thread (memory.key assoc) none

/-- This is the loop over the associations, which counts those that remain. -/
def passLoop : Nat → Nat → Nat → State Thread Key Value → Option (Nat × State Thread Key Value)
  | 0, _, _, _ => none
  | fuel + 1, iterations, assocsRemaining, state =>
      match state.memory.nextAssoc thread with
      | none => some (assocsRemaining, state)
      | some assoc =>
          let key := state.memory.key assoc
          let cleared := advance thread state.memory assoc
          match state.memory.values thread key with
          | none =>
              passLoop fuel iterations assocsRemaining
                ⟨cleared.tkAssocDestroy assoc, .removed key :: state.history⟩
          | some value =>
              if iterations ≤ PTHREAD_DESTRUCTOR_ITERATIONS then
                passLoop fuel iterations (assocsRemaining + 1)
                  (call process thread ⟨cleared, state.history⟩ key value)
              else
                passLoop fuel iterations assocsRemaining
                  ⟨cleared.tkAssocDestroy assoc, .dropped key value :: state.history⟩

/-- A pass begins at the head of the chain of the thread. -/
def beginPass (state : State Thread Key Value) : State Thread Key Value where
  memory := { state.memory with
    nextAssoc := Function.update state.memory.nextAssoc thread (state.memory.keys thread) }
  history := .pass :: state.history

/-- The passes go on while associations remain. -/
def passLoops : Nat → Nat → State Thread Key Value → Option (State Thread Key Value)
  | 0, _, _ => none
  | fuel + 1, iterations, state =>
      (passLoop process thread fuel (iterations + 1) 0 (beginPass thread state)).bind fun outcome =>
        if outcome.1 ≠ 0 then passLoops fuel (iterations + 1) outcome.2 else some outcome.2

/-- This is `ptw32_callUserDestroyRoutines` without its locks. -/
def callUserDestroyRoutines (fuel : Nat) (memory : ThreadKeys Thread Key Value) :
    Option (State Thread Key Value) :=
  passLoops process thread fuel 0 ⟨memory, []⟩

end Code

section Histories

variable [DecidableEq Key] {initial : Key → Option Value}

/-- The value that was stored last for a key; a call and a loss clear it. -/
def lastStored (initial : Key → Option Value) : History Key Value → Key → Option Value
  | [], key => initial key
  | .pass :: before, key => lastStored initial before key
  | .called other _ :: before, key => if other = key then none else lastStored initial before key
  | .removed _ :: before, key => lastStored initial before key
  | .dropped other _ :: before, key => if other = key then none else lastStored initial before key
  | .stored other value :: before, key =>
      if other = key then value else lastStored initial before key

/-- The number of passes that have begun. -/
def passes : History Key Value → Nat
  | [] => 0
  | .pass :: before => passes before + 1
  | .called .. :: before | .removed _ :: before | .dropped .. :: before | .stored .. :: before =>
      passes before

/-- The events of the pass that has begun last. -/
def current : History Key Value → History Key Value
  | [] => []
  | .pass :: _ => []
  | .called key value :: before => .called key value :: current before
  | .removed key :: before => .removed key :: current before
  | .dropped key value :: before => .dropped key value :: current before
  | .stored key value :: before => .stored key value :: current before

/-- What had happened when the last pass began. -/
def passStart : History Key Value → History Key Value
  | [] => []
  | .pass :: before => before
  | .called .. :: before | .removed _ :: before | .dropped .. :: before | .stored .. :: before =>
      passStart before

/-- The destructor of the key was called in this pass. -/
def CalledIn (events : History Key Value) (key : Key) : Prop :=
  ∃ value, Event.called key value ∈ events

/-- A key that had a value when the pass began was called, or its association was removed. -/
def Served (process : Process Key Value) (initial : Key → Option Value)
    (history : History Key Value) (key : Key) : Prop :=
  process.hasDestructor key = true → lastStored initial (passStart history) key ≠ none →
    CalledIn (current history) key ∨ .removed key ∈ current history

/-- While passes remain, the last one has served every key. -/
def AllServed (process : Process Key Value) (initial : Key → Option Value)
    (history : History Key Value) : Prop :=
  0 < passes history → passes history ≤ PTHREAD_DESTRUCTOR_ITERATIONS →
    ∀ key, Served process initial history key

/-- A destructor is called with the value stored last, once in a pass and in the first passes only; an
association is removed only without a value; a value is given up only behind those passes; and a pass
begins only when the last one has served all. -/
def Allowed (process : Process Key Value) (initial : Key → Option Value)
    (before : History Key Value) : Event Key Value → Prop
  | .pass => passes before ≤ PTHREAD_DESTRUCTOR_ITERATIONS ∧ AllServed process initial before
  | .called key value => lastStored initial before key = some value ∧ 0 < passes before ∧
      passes before ≤ PTHREAD_DESTRUCTOR_ITERATIONS ∧ ¬ CalledIn (current before) key
  | .removed key => lastStored initial before key = none
  | .dropped _ _ => passes before = PTHREAD_DESTRUCTOR_ITERATIONS + 1
  | .stored _ _ => True

/-- Each event is allowed after those before it. -/
def Regular (process : Process Key Value) (initial : Key → Option Value) :
    History Key Value → Prop
  | [] => True
  | event :: before => Allowed process initial before event ∧ Regular process initial before

/-- The number of calls of the destructor of a key. -/
def calls (history : History Key Value) (key : Key) : Nat :=
  match history with
  | [] => 0
  | .called other _ :: before => calls before key + if other = key then 1 else 0
  | .pass :: before | .removed _ :: before | .dropped .. :: before | .stored .. :: before =>
      calls before key

variable {process : Process Key Value} {history : History Key Value} {key other : Key}
  {value : Value} {stored : Option Value}

omit [DecidableEq Key] in
@[simp] theorem calledIn_nil : ¬ CalledIn ([] : History Key Value) key := by
  simp [CalledIn]

omit [DecidableEq Key] in
@[simp] theorem calledIn_called :
    CalledIn (.called other value :: history) key ↔ key = other ∨ CalledIn history key := by
  simp [CalledIn, exists_or]

omit [DecidableEq Key] in
@[simp] theorem calledIn_removed :
    CalledIn (.removed other :: history) key ↔ CalledIn history key := by
  simp [CalledIn]

omit [DecidableEq Key] in
@[simp] theorem calledIn_dropped :
    CalledIn (.dropped other value :: history) key ↔ CalledIn history key := by
  simp [CalledIn]

omit [DecidableEq Key] in
@[simp] theorem calledIn_stored :
    CalledIn (.stored other stored :: history) key ↔ CalledIn history key := by
  simp [CalledIn]

/-- There is at most one call in each of the first passes. -/
theorem Regular.calls_le (regular : Regular process initial history) (key : Key) :
    calls history key ≤ passes history ∧ calls history key ≤ PTHREAD_DESTRUCTOR_ITERATIONS ∧
      (¬ CalledIn (current history) key → calls history key ≤ passes history - 1) := by
  induction history with
  | nil => simp [calls, passes]
  | cons event before ih =>
      obtain ⟨allowed, earlier⟩ := regular
      obtain ⟨bounded, few, fewer⟩ := ih earlier
      cases event with
      | pass =>
          simp only [calls, passes]
          omega
      | removed other => simpa only [calls, passes, current, calledIn_removed] using ih earlier
      | dropped other value => simpa only [calls, passes, current, calledIn_dropped] using ih earlier
      | stored other stored => simpa only [calls, passes, current, calledIn_stored] using ih earlier
      | called other value =>
          simp only [calls, passes, current, calledIn_called]
          obtain ⟨-, begun, early, uncalled⟩ := allowed
          by_cases same : other = key
          · subst same
            have less := fewer uncalled
            simp only [if_true, true_or, not_true_eq_false, false_implies, and_true]
            omega
          · have apart : key ≠ other := fun equal => same equal.symm
            simp only [if_neg same, apart, false_or, add_zero]
            exact ⟨bounded, few, fewer⟩

end Histories

section Passes

variable [DecidableEq Thread] [DecidableEq Key] {process : Process Key Value} {thread : Thread}
  {initial : Key → Option Value} {iterations assocsRemaining : Nat}
  {state : State Thread Key Value} {rest : List Nat} {assoc : Nat}

/-- The memory is in order, and the values are those that were stored last; the keys with values are
associated with the thread. -/
structure Kept (process : Process Key Value) (thread : Thread) (initial : Key → Option Value)
    (iterations : Nat) (state : State Thread Key Value) : Prop where
  chained : ThreadKeys.Chained state.memory
  values : ∀ key, state.memory.values thread key = lastStored initial state.history key
  associated : ∀ key, process.hasDestructor key = true → state.memory.values thread key ≠ none →
    ∃ assoc ∈ state.memory.keyChain thread, state.memory.key assoc = key
  regular : Regular process initial state.history
  begun : passes state.history = iterations

/-- In a pass the cursor has come to this rest of the chain. The keys of the rest are not called yet,
and the other keys are served. -/
structure InPass (process : Process Key Value) (thread : Thread) (initial : Key → Option Value)
    (iterations assocsRemaining : Nat) (rest : List Nat) (state : State Thread Key Value) : Prop
    extends Kept process thread initial iterations state where
  some_pass : 0 < iterations
  last_pass : iterations ≤ PTHREAD_DESTRUCTOR_ITERATIONS + 1
  cursor : state.memory.nextAssoc thread = rest.head?
  chain : ∃ passed, state.memory.keyChain thread = passed ++ rest
  uncalled : ∀ assoc ∈ rest, ¬ CalledIn (current state.history) (state.memory.key assoc)
  waiting : iterations ≤ PTHREAD_DESTRUCTOR_ITERATIONS → ∀ key,
    Served process initial state.history key ∨
      ∃ assoc ∈ rest, state.memory.key assoc = key
  none_remains : assocsRemaining = 0 → state.memory.keyChain thread = rest
  late : PTHREAD_DESTRUCTOR_ITERATIONS < iterations → assocsRemaining = 0

/-- A pass begins with the whole chain before it. -/
theorem Kept.beginPass (kept : Kept process thread initial iterations state)
    (more : iterations ≤ PTHREAD_DESTRUCTOR_ITERATIONS)
    (served : AllServed process initial state.history) :
    InPass process thread initial (iterations + 1) 0 (state.memory.keyChain thread)
      (beginPass thread state) where
  chained := kept.chained.nextAssoc _
  values := kept.values
  associated := kept.associated
  regular := ⟨⟨by rw [kept.begun]; exact more, served⟩, kept.regular⟩
  begun := by rw [ThreadExit.beginPass, passes, kept.begun]
  some_pass := Nat.succ_pos _
  last_pass := Nat.succ_le_succ more
  cursor := by
    rw [← (kept.chained.keys thread).start_eq]
    exact Function.update_self ..
  chain := ⟨[], rfl⟩
  uncalled _ _ := calledIn_nil
  waiting _ key := by
    by_cases valued : process.hasDestructor key = true ∧ state.memory.values thread key ≠ none
    · obtain ⟨assoc, member, same⟩ := kept.associated key valued.1 valued.2
      exact .inr ⟨assoc, member, same⟩
    · refine .inl fun destructor stored => absurd ⟨destructor, ?_⟩ valued
      rw [kept.values]
      exact stored
  none_remains _ := rfl
  late _ := rfl

/-- What was served stays served. -/
theorem Served.mono {history : History Key Value} {event : Event Key Value} {key : Key}
    (served : Served process initial history key)
    (inside : passStart (event :: history) = passStart history ∧
      current (event :: history) = event :: current history) :
    Served process initial (event :: history) key := by
  intro destructor valued
  rw [inside.1] at valued
  rw [inside.2]
  rcases served destructor valued with ⟨value, called⟩ | removed
  · exact .inl ⟨value, List.mem_cons_of_mem event called⟩
  · exact .inr (List.mem_cons_of_mem event removed)

/-- A destructor may store any value under any key. -/
theorem InPass.store (inPass : InPass process thread initial iterations assocsRemaining rest state)
    (remaining : assocsRemaining ≠ 0) (early : iterations ≤ PTHREAD_DESTRUCTOR_ITERATIONS)
    (key : Key) (value : Option Value) :
    InPass process thread initial iterations assocsRemaining rest
      (store process thread state key value) := by
  unfold ThreadExit.store
  cases success : state.memory.setspecific thread key process.allocator process.hasDestructor
      value with
  | none => exact inPass
  | some changed =>
      obtain ⟨pushed, keyChains, threadChains, chains, extended, -, named, cursor, values,
        associates⟩ := ThreadKeys.Chains.setspecific inPass.chained success
      have chain : changed.keyChain thread = pushed ++ state.memory.keyChain thread := by
        rw [chains.keyChain_eq, extended]
      have used : ∀ assoc ∈ state.memory.keyChain thread, assoc ∈ state.memory.used :=
        fun assoc member => (inPass.chained.mem_keys.mp member).1
      obtain ⟨passed, parts⟩ := inPass.chain
      have inside : ∀ assoc ∈ rest, assoc ∈ state.memory.keyChain thread := by
        intro assoc member
        rw [parts]
        exact List.mem_append_right passed member
      have new : ∀ other, changed.values thread other =
          if key = other then value else state.memory.values thread other := by
        intro other
        rw [values, Function.update_self]
        by_cases same : key = other
        · rw [if_pos same, same, Function.update_self]
        · rw [if_neg same, Function.update_of_ne (Ne.symm same)]
      constructor
      case toKept =>
        constructor
        case chained => exact chains.chained
        case values =>
          intro other
          rw [Option.map_some, Option.getD_some, new, lastStored, inPass.values]
        case associated =>
          intro other destructor valued
          change ∃ assoc ∈ changed.keyChain thread, changed.key assoc = other
          change changed.values thread other ≠ none at valued
          rw [new] at valued
          by_cases same : key = other
          · subst same
            rw [if_pos rfl] at valued
            obtain ⟨assoc, member, same⟩ := associates destructor valued
            exact ⟨assoc, chains.keyChain_eq ▸ member, same⟩
          · rw [if_neg same] at valued
            obtain ⟨assoc, member, same⟩ := inPass.associated other destructor valued
            refine ⟨assoc, ?_, (named assoc (used assoc member)).trans same⟩
            rw [chain]
            exact List.mem_append_right pushed member
        case regular => exact ⟨trivial, inPass.regular⟩
        case begun => exact inPass.begun
      case some_pass => exact inPass.some_pass
      case last_pass => exact inPass.last_pass
      case cursor => exact (congrFun cursor thread).trans inPass.cursor
      case chain =>
        refine ⟨pushed ++ passed, ?_⟩
        change changed.keyChain thread = _
        rw [chain, parts, List.append_assoc]
      case uncalled =>
        intro assoc member
        change ¬ CalledIn (current (.stored key value :: state.history)) (changed.key assoc)
        rw [named assoc (used assoc (inside assoc member)), current, calledIn_stored]
        exact inPass.uncalled assoc member
      case waiting =>
        intro early other
        rcases inPass.waiting early other with served | ⟨assoc, member, same⟩
        · exact .inl (served.mono ⟨rfl, rfl⟩)
        · exact .inr ⟨assoc, member, (named assoc (used assoc (inside assoc member))).trans same⟩
      case none_remains => exact fun none_remains => absurd none_remains remaining
      case late => exact fun late => absurd early (not_le.mpr late)

/-- Whatever a destructor stores, the rest of the chain is left. -/
theorem InPass.stores (inPass : InPass process thread initial iterations assocsRemaining rest state)
    (remaining : assocsRemaining ≠ 0) (early : iterations ≤ PTHREAD_DESTRUCTOR_ITERATIONS)
    (sets : List (Key × Option Value)) :
    InPass process thread initial iterations assocsRemaining rest
      (sets.foldl (fun state stored => ThreadExit.store process thread state stored.1 stored.2)
        state) := by
  induction sets generalizing state with
  | nil => exact inPass
  | cons stored sets ih => exact ih (inPass.store remaining early stored.1 stored.2)

section Visit

variable (inPass : InPass process thread initial iterations assocsRemaining (assoc :: rest) state)

include inPass

omit [DecidableEq Thread] in
/-- Behind the first association of the rest lies the rest behind it. -/
theorem InPass.next : state.memory.keyLinks.next assoc = rest.head? := by
  obtain ⟨passed, parts⟩ := inPass.chain
  have segment := inPass.chained.keys thread
  rw [parts] at segment
  exact segment.neighbours.2

omit [DecidableEq Thread] in
theorem InPass.here : assoc ∈ state.memory.used ∧ state.memory.thread assoc = thread := by
  obtain ⟨passed, parts⟩ := inPass.chain
  apply inPass.chained.mem_keys.mp
  rw [parts]
  exact List.mem_append_right passed List.mem_cons_self

omit [DecidableEq Thread] in
/-- The associations of the rest have other keys than the first one. -/
theorem InPass.other_keys : ∀ other ∈ rest, state.memory.key other ≠ state.memory.key assoc := by
  intro other member same
  obtain ⟨passed, parts⟩ := inPass.chain
  have distinct := inPass.chained.distinctKeys thread
  rw [parts] at distinct
  obtain ⟨fresh, -⟩ := List.nodup_cons.mp (List.nodup_append.mp distinct).2.1
  obtain ⟨used, owned⟩ := inPass.chained.mem_keys.mp (parts ▸
    List.mem_append_right passed (List.mem_cons_of_mem assoc member))
  obtain ⟨present, own⟩ := inPass.here
  exact fresh (inPass.chained.unique used present (owned.trans own.symm) same ▸ member)

omit inPass in
theorem values_advance (key : Key) :
    (advance thread state.memory assoc).values thread key =
      if state.memory.key assoc = key then none else state.memory.values thread key := by
  rw [advance, ThreadKeys.tlsSetValue]
  dsimp only
  rw [Function.update_self]
  by_cases same : state.memory.key assoc = key
  · rw [if_pos same, same, Function.update_self]
  · rw [if_neg same, Function.update_of_ne (Ne.symm same)]

/-- A key with a value is called, and its association stays on the chain. -/
theorem InPass.called {value : Value} (early : iterations ≤ PTHREAD_DESTRUCTOR_ITERATIONS)
    (valued : state.memory.values thread (state.memory.key assoc) = some value) :
    InPass process thread initial iterations (assocsRemaining + 1) rest
      ⟨advance thread state.memory assoc,
        .called (state.memory.key assoc) value :: state.history⟩ := by
  have others := inPass.other_keys
  constructor
  case toKept =>
    constructor
    case chained => exact (inPass.chained.nextAssoc _).tlsSetValue ..
    case values =>
      intro key
      rw [values_advance, lastStored, inPass.values]
    case associated =>
      intro key destructor kept
      change (advance thread state.memory assoc).values thread key ≠ none at kept
      rw [values_advance] at kept
      by_cases same : state.memory.key assoc = key
      · rw [if_pos same] at kept
        exact absurd rfl kept
      · rw [if_neg same] at kept
        exact inPass.associated key destructor kept
    case regular =>
      refine ⟨⟨?_, ?_, ?_, ?_⟩, inPass.regular⟩
      · rw [← inPass.values, valued]
      · rw [inPass.begun]
        exact inPass.some_pass
      · rw [inPass.begun]
        exact early
      · exact inPass.uncalled assoc List.mem_cons_self
    case begun => exact inPass.begun
  case some_pass => exact inPass.some_pass
  case last_pass => exact inPass.last_pass
  case cursor =>
    rw [← inPass.next]
    exact Function.update_self ..
  case chain =>
    obtain ⟨passed, parts⟩ := inPass.chain
    refine ⟨passed ++ [assoc], ?_⟩
    rw [List.append_assoc, List.singleton_append]
    exact parts
  case uncalled =>
    intro other member
    rw [current, calledIn_called, not_or]
    exact ⟨others other member, inPass.uncalled other (List.mem_cons_of_mem assoc member)⟩
  case waiting =>
    intro early key
    by_cases same : state.memory.key assoc = key
    · refine .inl fun _ _ => .inl ?_
      rw [current, calledIn_called]
      exact .inl same.symm
    · rcases inPass.waiting early key with served | ⟨other, member, named⟩
      · exact .inl (served.mono ⟨rfl, rfl⟩)
      · rcases List.mem_cons.mp member with rfl | within
        · exact absurd named same
        · exact .inr ⟨other, within, named⟩
  case none_remains => exact fun impossible => absurd impossible (Nat.succ_ne_zero _)
  case late => exact fun late => absurd early (not_le.mpr late)

/-- A key without a value, or one whose value is given up, loses its association. -/
theorem InPass.destroyed {event : Event Key Value}
    (inside : passes (event :: state.history) = passes state.history ∧
      passStart (event :: state.history) = passStart state.history ∧
      current (event :: state.history) = event :: current state.history)
    (clears : ∀ key, lastStored initial (event :: state.history) key =
      if state.memory.key assoc = key then none else lastStored initial state.history key)
    (calls : ∀ key, CalledIn (event :: current state.history) key ↔
      CalledIn (current state.history) key)
    (allowed : Allowed process initial state.history event)
    (early : iterations ≤ PTHREAD_DESTRUCTOR_ITERATIONS →
      event = .removed (state.memory.key assoc)) :
    InPass process thread initial iterations assocsRemaining rest
      ⟨(advance thread state.memory assoc).tkAssocDestroy assoc, event :: state.history⟩ := by
  obtain ⟨present, own⟩ := inPass.here
  obtain ⟨passed, parts⟩ := inPass.chain
  have others := inPass.other_keys
  have advanced : ThreadKeys.Chains (advance thread state.memory assoc) state.memory.keyChain
      state.memory.threadChain := (inPass.chained.nextAssoc _).tlsSetValue ..
  have chains := advanced.tkAssocDestroy present
  have distinct := inPass.chained.distinctKeys thread
  have chain : ((advance thread state.memory assoc).tkAssocDestroy assoc).keyChain thread =
      passed ++ rest := by
    rw [chains.keyChain_eq, show (advance thread state.memory assoc).thread assoc = thread from own,
      Function.update_self, parts]
    rw [parts] at distinct
    exact ThreadKeys.erase_parts distinct
  have fresh : assoc ∉ rest := by
    rw [parts] at distinct
    exact (List.nodup_cons.mp (List.nodup_append.mp distinct).2.1).1
  constructor
  case toKept =>
    constructor
    case chained => exact chains.chained
    case values =>
      intro key
      rw [clears, ← inPass.values]
      exact values_advance key
    case associated =>
      intro key destructor kept
      change (advance thread state.memory assoc).values thread key ≠ none at kept
      rw [values_advance] at kept
      by_cases here : state.memory.key assoc = key
      · rw [if_pos here] at kept
        exact absurd rfl kept
      · rw [if_neg here] at kept
        obtain ⟨other, member, named⟩ := inPass.associated key destructor kept
        refine ⟨other, ?_, named⟩
        rw [chain]
        rw [parts] at member
        rcases List.mem_append.mp member with before | behind
        · exact List.mem_append_left rest before
        · rcases List.mem_cons.mp behind with rfl | after
          · exact absurd named here
          · exact List.mem_append_right passed after
    case regular => exact ⟨allowed, inPass.regular⟩
    case begun => exact inside.1.trans inPass.begun
  case some_pass => exact inPass.some_pass
  case last_pass => exact inPass.last_pass
  case cursor =>
    have cursor : (advance thread state.memory assoc).nextAssoc thread = rest.head? := by
      rw [← inPass.next]
      exact Function.update_self ..
    have onward : (advance thread state.memory assoc).nextAssoc thread ≠ some assoc := by
      rw [cursor]
      exact fun first => fresh (List.mem_of_mem_head? first)
    rw [← cursor]
    change Function.update (advance thread state.memory assoc).nextAssoc
      (state.memory.thread assoc) _ thread = _
    rw [own, Function.update_self, show (advance thread state.memory assoc).thread assoc = thread
      from own]
    exact if_neg onward
  case chain => exact ⟨passed, chain⟩
  case uncalled =>
    intro other member
    rw [inside.2.2, calls]
    exact inPass.uncalled other (List.mem_cons_of_mem assoc member)
  case waiting =>
    intro passing key
    rcases inPass.waiting passing key with served | ⟨other, member, named⟩
    · exact .inl (served.mono inside.2)
    · rcases List.mem_cons.mp member with rfl | within
      · refine .inl fun _ _ => .inr ?_
        rw [inside.2.2, early passing, named]
        exact List.mem_cons_self
      · exact .inr ⟨other, within, named⟩
  case none_remains =>
    intro nothing
    have whole := inPass.none_remains nothing
    have front : passed = [] := by
      rw [parts] at whole
      have same := congrArg List.length whole
      rw [List.length_append] at same
      exact List.length_eq_zero_iff.mp (by omega)
    rw [chain, front, List.nil_append]
  case late => exact inPass.late

/-- The value of a key that is not called is given up behind the passes that call. -/
theorem InPass.dropped (value : Value) (late : PTHREAD_DESTRUCTOR_ITERATIONS < iterations) :
    InPass process thread initial iterations assocsRemaining rest
      ⟨(advance thread state.memory assoc).tkAssocDestroy assoc,
        .dropped (state.memory.key assoc) value :: state.history⟩ := by
  refine inPass.destroyed ⟨rfl, rfl, rfl⟩ (fun _ => rfl) (fun _ => calledIn_dropped) ?_
    fun early => absurd late (not_lt.mpr early)
  have last := inPass.last_pass
  rw [Allowed, inPass.begun]
  omega

/-- A key without a value is not associated any more. -/
theorem InPass.cleared (nothing : state.memory.values thread (state.memory.key assoc) = none) :
    InPass process thread initial iterations assocsRemaining rest
      ⟨(advance thread state.memory assoc).tkAssocDestroy assoc,
        .removed (state.memory.key assoc) :: state.history⟩ := by
  have unstored : lastStored initial state.history (state.memory.key assoc) = none := by
    rw [← inPass.values, nothing]
  refine inPass.destroyed ⟨rfl, rfl, rfl⟩ (fun key => ?_) (fun _ => calledIn_removed) unstored
    fun _ => rfl
  by_cases same : state.memory.key assoc = key
  · rw [if_pos same, lastStored, ← same, unstored]
  · rw [if_neg same, lastStored]

end Visit

/-- A pass goes through the rest of the chain, one round for each association. -/
theorem InPass.passLoop
    (inPass : InPass process thread initial iterations assocsRemaining rest state) :
    ∃ remaining final, InPass process thread initial iterations remaining [] final ∧
      ∀ fuel, rest.length < fuel →
        passLoop process thread fuel iterations assocsRemaining state = some (remaining, final) := by
  induction rest generalizing assocsRemaining state with
  | nil =>
      refine ⟨assocsRemaining, state, inPass, fun fuel enough => ?_⟩
      obtain ⟨fuel, rfl⟩ : ∃ less, fuel = less + 1 := ⟨fuel - 1, by simp at enough; omega⟩
      rw [ThreadExit.passLoop, inPass.cursor]
      rfl
  | cons assoc rest ih =>
      have turn : ∃ remaining next, InPass process thread initial iterations remaining rest next ∧
          ∀ fuel, ThreadExit.passLoop process thread (fuel + 1) iterations assocsRemaining state =
            ThreadExit.passLoop process thread fuel iterations remaining next := by
        have cursor : state.memory.nextAssoc thread = some assoc := inPass.cursor
        cases valued : state.memory.values thread (state.memory.key assoc) with
        | none =>
            refine ⟨_, _, inPass.cleared valued, fun fuel => ?_⟩
            rw [ThreadExit.passLoop, cursor]
            dsimp only
            rw [valued]
        | some value =>
            by_cases early : iterations ≤ PTHREAD_DESTRUCTOR_ITERATIONS
            · refine ⟨_, _, (inPass.called early valued).stores (Nat.succ_ne_zero _) early
                (process.destructor state.history (state.memory.key assoc) value), fun fuel => ?_⟩
              rw [ThreadExit.passLoop, cursor]
              dsimp only
              rw [valued]
              dsimp only
              rw [if_pos early]
              rfl
            · refine ⟨_, _, inPass.dropped value (not_le.mp early), fun fuel => ?_⟩
              rw [ThreadExit.passLoop, cursor]
              dsimp only
              rw [valued]
              dsimp only
              rw [if_neg early]
      obtain ⟨remaining, next, onward, equal⟩ := turn
      obtain ⟨last, final, ended, looped⟩ := ih onward
      refine ⟨last, final, ended, fun fuel enough => ?_⟩
      rw [List.length_cons] at enough
      obtain ⟨fuel, rfl⟩ : ∃ less, fuel = less + 1 := ⟨fuel - 1, by omega⟩
      rw [equal, looped fuel (by omega)]

omit [DecidableEq Thread] in
/-- The keys were served when a pass has come to the end of the chain. -/
theorem InPass.allServed {remaining : Nat} {final : State Thread Key Value}
    (inPass : InPass process thread initial iterations remaining [] final) :
    AllServed process initial final.history := by
  intro _ early key
  rw [inPass.begun] at early
  rcases inPass.waiting early key with served | ⟨_, member, _⟩
  · exact served
  · exact absurd member List.not_mem_nil

/-- All events were allowed, the passes are few and nothing is left on the chain of the thread. -/
structure Finished (process : Process Key Value) (thread : Thread) (initial : Key → Option Value)
    (final : State Thread Key Value) : Prop where
  regular : Regular process initial final.history
  served : AllServed process initial final.history
  bounded : passes final.history ≤ PTHREAD_DESTRUCTOR_ITERATIONS + 1
  empty : final.memory.keyChain thread = []

/-- The passes that are left end the exit of the thread. -/
theorem Kept.passLoops (kept : Kept process thread initial iterations state)
    (served : AllServed process initial state.history) {left : Nat}
    (more : iterations + left = PTHREAD_DESTRUCTOR_ITERATIONS) :
    ∃ enough final, Finished process thread initial final ∧
      ∀ fuel, enough ≤ fuel → passLoops process thread fuel iterations state = some final := by
  induction left generalizing iterations state with
  | zero =>
      obtain ⟨remaining, final, ended, looped⟩ := (kept.beginPass (by omega) served).passLoop
      have nothing : remaining = 0 := ended.late (by omega)
      refine ⟨(state.memory.keyChain thread).length + 2, final, ⟨ended.regular, ended.allServed, ?_,
        ended.none_remains nothing⟩, fun fuel enough => ?_⟩
      · rw [ended.begun]
        exact ended.last_pass
      · obtain ⟨fuel, rfl⟩ : ∃ less, fuel = less + 1 := ⟨fuel - 1, by omega⟩
        rw [ThreadExit.passLoops, looped fuel (by omega), Option.bind_some, nothing]
        rfl
  | succ left ih =>
      obtain ⟨remaining, middle, ended, looped⟩ := (kept.beginPass (by omega) served).passLoop
      by_cases nothing : remaining = 0
      · refine ⟨(state.memory.keyChain thread).length + 2, middle, ⟨ended.regular, ended.allServed,
          ?_, ended.none_remains nothing⟩, fun fuel enough => ?_⟩
        · rw [ended.begun]
          exact ended.last_pass
        · obtain ⟨fuel, rfl⟩ : ∃ less, fuel = less + 1 := ⟨fuel - 1, by omega⟩
          rw [ThreadExit.passLoops, looped fuel (by omega), Option.bind_some, nothing]
          rfl
      · obtain ⟨enough, final, finished, later⟩ :=
          ih ended.toKept ended.allServed (by omega)
        refine ⟨max enough ((state.memory.keyChain thread).length + 1) + 1, final, finished,
          fun fuel within => ?_⟩
        obtain ⟨fuel, rfl⟩ : ∃ less, fuel = less + 1 := ⟨fuel - 1, by omega⟩
        rw [ThreadExit.passLoops, looped fuel (by omega), Option.bind_some, if_pos nothing]
        exact later fuel (by omega)

/-- The chains are in order, and every thread is associated with the keys that it has values of. -/
structure WellFormed (process : Process Key Value) (memory : ThreadKeys Thread Key Value) : Prop where
  chained : ThreadKeys.Chained memory
  associated : ∀ thread key, process.hasDestructor key = true →
    memory.values thread key ≠ none → ∃ assoc ∈ memory.keyChain thread, memory.key assoc = key

omit [DecidableEq Thread] [DecidableEq Key] in
theorem wellFormed_initial (process : Process Key Value) (thread : Thread) (key : Key) :
    WellFormed process (ThreadKeys.initial thread key) where
  chained := ThreadKeys.chained_initial thread key
  associated _ _ _ valued := absurd rfl valued

/-- Storing values keeps the memory well formed. -/
theorem WellFormed.setspecific {memory changed : ThreadKeys Thread Key Value} {key : Key}
    {value : Option Value} (wellFormed : WellFormed process memory)
    (success : memory.setspecific thread key process.allocator process.hasDestructor value =
      some changed) : WellFormed process changed where
  chained := wellFormed.chained.setspecific success
  associated := by
    obtain ⟨pushed, keyChains, threadChains, chains, extended, others, named, -, values,
      associates⟩ := ThreadKeys.Chains.setspecific wellFormed.chained success
    intro other here destructor valued
    have old : memory.values other here ≠ none →
        ∃ assoc ∈ changed.keyChain other, changed.key assoc = here := by
      intro before
      obtain ⟨assoc, member, same⟩ := wellFormed.associated other here destructor before
      refine ⟨assoc, ?_, (named assoc (wellFormed.chained.mem_keys.mp member).1).trans same⟩
      rw [chains.keyChain_eq]
      by_cases own : other = thread
      · rw [own, extended]
        exact List.mem_append_right pushed (own ▸ member)
      · rw [others other own]
        exact member
    rw [values] at valued
    by_cases own : other = thread
    · subst own
      rw [Function.update_self] at valued
      by_cases same : here = key
      · subst same
        rw [Function.update_self] at valued
        obtain ⟨assoc, member, same⟩ := associates destructor valued
        exact ⟨assoc, chains.keyChain_eq ▸ member, same⟩
      · rw [Function.update_of_ne same] at valued
        exact old valued
    · rw [Function.update_of_ne own] at valued
      exact old valued

end Passes

/-- The destructor of the only key stores its value again. -/
def stubborn : Process Unit Unit where
  allocator := ThreadKeys.counting
  hasDestructor _ := true
  destructor _ key value := [(key, some value)]

end ThreadExit

end CodeCollect.Pthreads
