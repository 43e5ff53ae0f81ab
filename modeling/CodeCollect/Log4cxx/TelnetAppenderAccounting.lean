import CodeCollect.Log4cxx.TelnetAppender

namespace CodeCollect.Log4cxx

open CodeCollect.Library

namespace TelnetAppender

variable {Caller Client : Type}

/-- These places of a call are inside its critical section. -/
def Call.holds : Call → Bool
  | .idle | .activating | .doAppend | .close => false
  | _ => true

/-- These places of the accept thread are inside its critical section. -/
def Acceptor.holds : Acceptor Client → Bool
  | .assigning _ _ | .welcoming _ => true
  | _ => false

/-- This is the place of the call that holds the mutex. -/
def State.holder (self : State Caller Client) : Call :=
  match self.mutex with
  | some (.caller caller) => self.calls caller
  | _ => .idle

/-- While `close` clears the slots, the counter still counts the cleared ones. -/
def Ledger (state : State Caller Client) : Call → Prop
  | .closing iter cleared =>
      state.activeConnections = state.occupied + cleared ∧
        (∀ slot ∈ state.connections.take iter, slot = none) ∧ state.closed = true
  | .closingServer | .joining => state.occupied = 0 ∧ state.closed = true ∧ ¬ Entering state
  | _ => state.activeConnections = state.occupied

/-- This is what every step keeps. -/
structure Sound (state : State Caller Client) : Prop where
  caller : ∀ caller, (state.calls caller).holds = true ↔ state.mutex = some (.caller caller)
  acceptor : state.sh.holds = true ↔ state.mutex = some .acceptor
  ledger : Ledger state state.holder

theorem countP_assign {newClient : Client} {connections assigned : List (Option Client)}
    (found : assign newClient connections = some assigned) :
    assigned.countP Option.isSome = connections.countP Option.isSome + 1 := by
  induction connections generalizing assigned with
  | nil => exact absurd found (by simp [assign])
  | cons slot rest ih =>
      cases slot with
      | none =>
          obtain rfl := Option.some.inj found
          simp
      | some other =>
          obtain ⟨tail, taken, rfl⟩ := Option.map_eq_some_iff.mp found
          simp [ih taken]

/-- An occupied slot that is cleared is one occupied slot less. -/
theorem countP_set {connections : List (Option Client)} {iter : Nat} {client : Client}
    (occupied : connections[iter]? = some (some client)) :
    connections.countP Option.isSome =
      (connections.set iter none).countP Option.isSome + 1 := by
  induction connections generalizing iter with
  | nil => exact absurd occupied (by simp)
  | cons slot rest ih =>
      cases iter with
      | zero =>
          obtain rfl : slot = some client := by simpa using occupied
          simp
      | succ iter =>
          have later := ih (by simpa using occupied)
          simp only [List.set_cons_succ, List.countP_cons]
          omega

/-- All slots before the next one are empty when the slots before this one and it are. -/
theorem empty_succ {connections : List (Option Client)} {iter : Nat}
    (empty : ∀ slot ∈ connections.take iter, slot = none)
    (here : ∀ client, connections[iter]? ≠ some (some client)) :
    ∀ slot ∈ connections.take (iter + 1), slot = none := by
  intro slot member
  rw [List.take_add_one, List.mem_append] at member
  rcases member with before | same
  · exact empty slot before
  · cases slot with
    | none => rfl
    | some client => exact absurd (by simpa using same) (here client)

theorem empty_set {connections : List (Option Client)} {iter : Nat}
    (empty : ∀ slot ∈ connections.take iter, slot = none) :
    ∀ slot ∈ (connections.set iter none).take (iter + 1), slot = none := by
  apply empty_succ
  · rw [List.take_set_of_le le_rfl]
    exact empty
  · intro client
    rw [List.getElem?_set]
    simp

/-- The loop has left no slot occupied at its end. -/
theorem occupied_eq_zero {connections : List (Option Client)} {iter : Nat}
    (empty : ∀ slot ∈ connections.take iter, slot = none) (passed : connections[iter]? = none) :
    connections.countP Option.isSome = 0 := by
  rw [List.getElem?_eq_none_iff] at passed
  rw [List.take_of_length_le passed] at empty
  rw [List.countP_eq_zero]
  intro slot member
  rw [empty slot member]
  simp

/-- A ledger speaks only of the connections, their counter, the flag and the accept thread. -/
theorem Ledger.congr {state other : State Caller Client} {place : Call}
    (ledger : Ledger state place) (connections : other.connections = state.connections)
    (active : other.activeConnections = state.activeConnections)
    (closed : other.closed = state.closed)
    (entering : state.closed = true → ¬ Entering state → ¬ Entering other) :
    Ledger other place := by
  unfold Ledger State.occupied at ledger ⊢
  rw [connections, active, closed]
  split at ledger
  · exact ledger
  · exact ⟨ledger.1, ledger.2.1, entering ledger.2.1 ledger.2.2⟩
  · exact ⟨ledger.1, ledger.2.1, entering ledger.2.1 ledger.2.2⟩
  · simpa using ledger

namespace Sound

variable {state : State Caller Client}

theorem acceptor_free (sound : Sound state) (outside : state.sh.holds = false) :
    state.mutex ≠ some .acceptor := by
  intro held
  have inside := sound.acceptor.mpr held
  simp [outside] at inside

/-- The accept thread moves outside its critical section. -/
theorem acceptorMoves (sound : Sound state) {place : Acceptor Client}
    (before : state.sh.holds = false) (after : place.holds = false)
    (entering : state.closed = true → ¬ Entering state → ¬ Entering (state.acceptor place)) :
    Sound (state.acceptor place) where
  caller := sound.caller
  acceptor := by
    have free := sound.acceptor_free before
    simp [State.acceptor, after, free]
  ledger := sound.ledger.congr rfl rfl rfl entering

section Calls

variable {caller : Caller}

theorem owner_eq (sound : Sound state) (inside : (state.calls caller).holds = true) :
    state.mutex = some (.caller caller) := (sound.caller caller).mp inside

/-- A call outside its critical section is not the holder. -/
theorem owner_ne (sound : Sound state) (outside : (state.calls caller).holds = false) :
    state.mutex ≠ some (.caller caller) := by
  intro held
  have inside := (sound.caller caller).mpr held
  simp [outside] at inside

theorem holder_eq (held : state.mutex = some (.caller caller)) :
    state.holder = state.calls caller := by
  simp [State.holder, held]

/-- The holder's own ledger is the one that stands. -/
theorem ledger_of (sound : Sound state) {place : Call} (here : state.calls caller = place)
    (inside : place.holds = true) : Ledger state place := by
  have ledger := sound.ledger
  rw [holder_eq (sound.owner_eq (by rw [here]; exact inside)), here] at ledger
  exact ledger

variable [DecidableEq Caller]

/-- A call moves outside its critical section, and the holder of the mutex stays where it is. -/
theorem callMoves (sound : Sound state) {place : Call}
    (before : (state.calls caller).holds = false) (after : place.holds = false) :
    Sound (state.goto caller place) where
  caller other := by
    by_cases same : other = caller
    · subst same
      have free := sound.owner_ne before
      simp [State.goto, after, free]
    · simpa [State.goto, same] using sound.caller other
  acceptor := sound.acceptor
  ledger := by
    have holder : (state.goto caller place).holder = state.holder := by
      unfold State.holder State.goto
      cases owner : state.mutex with
      | none => rfl
      | some owned =>
          cases owned with
          | acceptor => rfl
          | caller other =>
              have different : other ≠ caller := by
                rintro rfl
                exact sound.owner_ne before owner
              simp [different]
    rw [holder]
    exact sound.ledger.congr rfl rfl rfl fun _ => id

/-- A call enters its critical section when no thread is in one. -/
theorem locks (sound : Sound state) {place : Call} {after : State Caller Client}
    (plain : place = .filtering ∨ place = .closeEntered)
    (taken : state.lock caller place = some after) : Sound after := by
  unfold State.lock at taken
  split at taken
  · rename_i free
    obtain rfl := Option.some.inj taken
    have ledger := sound.ledger
    simp only [State.holder, free] at ledger
    refine ⟨fun other => ?_, ?_, ?_⟩
    · by_cases same : other = caller
      · subst same
        rcases plain with rfl | rfl <;> simp [State.goto, Call.holds]
      · have outside := sound.caller other
        simp only [free, reduceCtorEq, iff_false] at outside
        simp [State.goto, same, outside, Ne.symm same]
    · have outside := sound.acceptor
      simp only [free, reduceCtorEq, iff_false] at outside
      simp [State.goto, outside]
    · rw [show _ = (State.goto _ caller place).calls caller from holder_eq rfl]
      simp only [State.goto, Function.update_self]
      rcases plain with rfl | rfl <;> exact ledger
  · exact absurd taken (by simp)

/-- The holder moves inside its critical section and may change what the mutex protects. -/
theorem holderMoves (sound : Sound state) {changed : State Caller Client} {place : Call}
    (held : state.mutex = some (.caller caller)) (inside : place.holds = true)
    (mutex : changed.mutex = state.mutex) (calls : changed.calls = state.calls)
    (sh : changed.sh.holds = state.sh.holds) (ledger : Ledger changed place) :
    Sound (changed.goto caller place) where
  caller other := by
    by_cases same : other = caller
    · subst same
      simp [State.goto, inside, mutex, held]
    · simpa [State.goto, same, calls, mutex] using sound.caller other
  acceptor := by simpa [State.goto, sh, mutex] using sound.acceptor
  ledger := by
    have owner : (changed.goto caller place).mutex = some (.caller caller) := mutex.trans held
    rw [holder_eq owner]
    simp only [State.goto, Function.update_self]
    exact ledger.congr rfl rfl rfl fun _ => id

/-- The holder leaves with the counter equal to the occupied slots. -/
theorem leaves (sound : Sound state) {changed : State Caller Client}
    (held : state.mutex = some (.caller caller)) (calls : changed.calls = state.calls)
    (sh : changed.sh.holds = state.sh.holds)
    (accounted : changed.activeConnections = changed.occupied) :
    Sound (changed.leave caller) where
  caller other := by
    by_cases same : other = caller
    · subst same
      simp [State.leave, State.goto, Call.holds]
    · have outside := sound.caller other
      simp only [held, Option.some.injEq, Owner.caller.injEq, Ne.symm same, iff_false] at outside
      simp [State.leave, State.goto, same, calls, outside]
  acceptor := by
    have outside := sound.acceptor
    simp only [held, Option.some.injEq, reduceCtorEq, iff_false] at outside
    simp [State.leave, State.goto, sh, outside]
  ledger := accounted

end Calls

/-- The accept thread keeps the invariant. -/
theorem acceptConnections (sound : Sound state) {success : Bool} {after : State Caller Client}
    (taken : state.acceptConnections success = some after) : Sound after := by
  unfold State.acceptConnections at taken
  split at taken
  case h_1 => exact absurd taken (by simp)
  case h_2 => exact absurd taken (by simp)
  case h_3 here =>
      split at taken
      · exact absurd taken (by simp)
      · obtain rfl := Option.some.inj taken
        exact sound.acceptorMoves (by rw [here]; rfl) rfl fun _ _ => id
  case h_4 newClient here =>
      obtain rfl := Option.some.inj taken
      apply sound.acceptorMoves (by rw [here]; rfl) (by split <;> rfl)
      intro closed _
      rw [if_pos closed]
      exact id
  case h_5 newClient here =>
      obtain rfl := Option.some.inj taken
      apply sound.acceptorMoves (by rw [here]; rfl) (by split <;> rfl)
      intro _ waits
      simp only [Entering, here, not_lt] at waits
      rw [if_pos waits]
      exact id
  case h_6 newClient count here =>
      split at taken
      · rename_i free
        obtain rfl := Option.some.inj taken
        refine ⟨fun caller => ?_, by simp [Acceptor.holds], ?_⟩
        · simpa [free] using sound.caller caller
        · have ledger := sound.ledger
          simp only [State.holder, free] at ledger
          exact ledger
      · exact absurd taken (by simp)
  case h_7 newClient count here =>
      obtain rfl := Option.some.inj taken
      have held := sound.acceptor.mp (by rw [here]; rfl)
      have ledger := sound.ledger
      simp only [State.holder, held] at ledger
      unfold State.assignSlot
      split
      · refine ⟨sound.caller, by simpa [State.acceptor, Acceptor.holds] using held, ?_⟩
        simp only [State.holder, State.acceptor, held]
        exact ledger
      · rename_i assigned found
        refine ⟨sound.caller, by simpa [Acceptor.holds] using held, ?_⟩
        simp only [State.holder, held, Ledger, State.occupied, countP_assign found]
        exact congrArg (· + 1) ledger
  case h_8 count here =>
      obtain rfl := Option.some.inj taken
      have held := sound.acceptor.mp (by rw [here]; rfl)
      have ledger := sound.ledger
      simp only [State.holder, held] at ledger
      refine ⟨fun caller => ?_, ?_, ledger⟩
      · simpa [held] using sound.caller caller
      · cases success <;> simp [Acceptor.holds]
  case h_9 here =>
      obtain rfl := Option.some.inj taken
      apply sound.acceptorMoves (by rw [here]; rfl) (by split <;> rfl)
      intro _ _
      cases success <;> exact id
  case h_10 here =>
      obtain rfl := Option.some.inj taken
      apply sound.acceptorMoves (by rw [here]; rfl) (by split <;> rfl)
      intro _ _
      cases success <;> exact id
  case h_11 here =>
      obtain rfl := Option.some.inj taken
      apply sound.acceptorMoves (by rw [here]; rfl) (by split <;> rfl)
      intro closed _
      rw [if_pos closed]
      exact id

section Calls

variable [DecidableEq Caller] {caller : Caller}

/-- The write to one client keeps the counter equal to the occupied slots. -/
theorem write (sound : Sound state) {iter : Nat} (here : state.calls caller = .writing iter)
    (success : Bool) : Sound (state.write caller iter success) := by
  have held : state.mutex = some (.caller caller) := sound.owner_eq (by rw [here]; rfl)
  have ledger : state.activeConnections = state.occupied := sound.ledger_of here rfl
  unfold State.write
  split
  · exact sound.holderMoves held rfl rfl rfl rfl ledger
  · exact sound.holderMoves held rfl rfl rfl rfl ledger
  · rename_i client occupied
    split
    · exact sound.holderMoves held rfl rfl rfl rfl ledger
    · have fewer := countP_set occupied
      have counted : state.activeConnections - 1 =
          (state.connections.set iter none).countP Option.isSome := by
        simp only [State.occupied] at ledger
        omega
      exact sound.holderMoves held rfl rfl rfl rfl counted

/-- The loop of `close` throws only when no slot was cleared before. -/
theorem closeClient (sound : Sound state) {iter cleared : Nat}
    (here : state.calls caller = .closing iter cleared) {success : Bool}
    (undisturbed : Undisturbed state (.caller caller success)) :
    Sound (state.closeClient caller iter cleared success) := by
  have held : state.mutex = some (.caller caller) := sound.owner_eq (by rw [here]; rfl)
  obtain ⟨counted, empty, closed⟩ := sound.ledger_of here rfl
  obtain ⟨outside, first⟩ := undisturbed caller success rfl iter cleared here
  unfold State.closeClient
  split
  · rename_i passed
    exact sound.holderMoves held rfl rfl rfl rfl
      ⟨occupied_eq_zero empty passed, closed, outside passed⟩
  · rename_i free
    exact sound.holderMoves held rfl rfl rfl rfl
      ⟨counted, empty_succ empty (by simp [free]), closed⟩
  · rename_i client occupied
    split
    · have fewer := countP_set occupied
      have recounted : state.activeConnections =
          (state.connections.set iter none).countP Option.isSome + (cleared + 1) := by
        simp only [State.occupied] at counted
        omega
      exact sound.holderMoves held rfl rfl rfl rfl ⟨recounted, empty_set empty, closed⟩
    · rename_i failed
      have none_cleared := first ⟨client, occupied⟩ (by simpa using failed)
      exact sound.leaves held rfl rfl (by omega)

/-- Each undisturbed step of a call keeps the invariant. -/
theorem proceed (sound : Sound state) {success : Bool} {after : State Caller Client}
    (undisturbed : Undisturbed state (.caller caller success))
    (taken : state.proceed caller success = some after) : Sound after := by
  unfold State.proceed at taken
  split at taken
  case h_1 => exact absurd taken (by simp)
  case h_2 here =>
      have outside : (state.calls caller).holds = false := by rw [here]; rfl
      split at taken
      · obtain rfl := Option.some.inj taken
        exact sound.callMoves outside rfl
      · obtain rfl := Option.some.inj taken
        have moved : Sound (state.goto caller .activating) := sound.callMoves outside rfl
        exact ⟨moved.caller, moved.acceptor, moved.ledger.congr rfl rfl rfl fun _ => id⟩
      · obtain rfl := Option.some.inj taken
        unfold State.runThread
        split
        · rename_i absent
          have started : Sound (state.acceptor .accepting) :=
            sound.acceptorMoves (by rw [absent]; rfl) rfl fun _ _ => id
          exact started.callMoves outside rfl
        · exact sound.callMoves outside rfl
  case h_3 here => exact sound.locks (Or.inl rfl) taken
  case h_4 here =>
      obtain rfl := Option.some.inj taken
      have held : state.mutex = some (.caller caller) := sound.owner_eq (by rw [here]; rfl)
      have ledger : state.activeConnections = state.occupied := sound.ledger_of here rfl
      split
      · exact sound.leaves held rfl rfl ledger
      · exact sound.holderMoves held rfl rfl rfl rfl ledger
  case h_5 here =>
      obtain rfl := Option.some.inj taken
      have held : state.mutex = some (.caller caller) := sound.owner_eq (by rw [here]; rfl)
      have ledger : state.activeConnections = state.occupied := sound.ledger_of here rfl
      split
      · exact sound.leaves held rfl rfl ledger
      · exact sound.holderMoves held rfl rfl rfl rfl ledger
  case h_6 here =>
      obtain rfl := Option.some.inj taken
      have held : state.mutex = some (.caller caller) := sound.owner_eq (by rw [here]; rfl)
      have ledger : state.activeConnections = state.occupied := sound.ledger_of here rfl
      split
      · exact sound.holderMoves held rfl rfl rfl rfl ledger
      · exact sound.leaves held rfl rfl ledger
  case h_7 iter here =>
      obtain rfl := Option.some.inj taken
      exact sound.write here success
  case h_8 here => exact sound.locks (Or.inr rfl) taken
  case h_9 here =>
      obtain rfl := Option.some.inj taken
      have held : state.mutex = some (.caller caller) := sound.owner_eq (by rw [here]; rfl)
      have ledger : state.activeConnections = state.occupied := sound.ledger_of here rfl
      split
      · exact sound.leaves held rfl rfl ledger
      · exact sound.holderMoves held rfl rfl rfl rfl ⟨ledger, by simp, rfl⟩
  case h_10 iter cleared here =>
      obtain rfl := Option.some.inj taken
      exact sound.closeClient here undisturbed
  case h_11 here =>
      obtain rfl := Option.some.inj taken
      have held : state.mutex = some (.caller caller) := sound.owner_eq (by rw [here]; rfl)
      obtain ⟨empty, closed, outside⟩ := sound.ledger_of here rfl
      exact sound.holderMoves held rfl rfl rfl rfl ⟨empty, closed, outside⟩
  case h_12 here =>
      have held : state.mutex = some (.caller caller) := sound.owner_eq (by rw [here]; rfl)
      obtain ⟨empty, _, _⟩ := sound.ledger_of here rfl
      split at taken
      · rename_i absent
        obtain rfl := Option.some.inj taken
        exact sound.leaves held rfl (by rw [absent]) empty.symm
      · rename_i returned
        obtain rfl := Option.some.inj taken
        exact sound.leaves held rfl (by rw [returned]; rfl) empty.symm
      · exact absurd taken (by simp)

theorem call (sound : Sound state) {entry : Call} {after : State Caller Client}
    (taken : state.call caller entry = some after) : Sound after := by
  unfold State.call at taken
  split at taken
  · rename_i here
    obtain rfl := Option.some.inj taken
    exact sound.callMoves (by rw [here]; rfl) rfl
  · rename_i here
    obtain rfl := Option.some.inj taken
    exact sound.callMoves (by rw [here]; rfl) rfl
  · rename_i here
    obtain rfl := Option.some.inj taken
    exact sound.callMoves (by rw [here]; rfl) rfl
  · exact absurd taken (by simp)

end Calls

/-- The invariant gives both parts of the accounting. -/
theorem consistent (sound : Sound state) : Consistent state where
  accounted free := by
    have ledger := sound.ledger
    simp only [State.holder, free] at ledger
    exact ledger
  noCircularWait caller newClient count here _ locking := by
    obtain ⟨_, _, outside⟩ := sound.ledger_of here rfl
    exact outside (by simp [Entering, locking])

end Sound

section Runs

variable [DecidableEq Caller]

/-- Each undisturbed step keeps the invariant. -/
theorem sound_step {state after : State Caller Client} {action : Action Caller Client}
    (sound : Sound state) (undisturbed : Undisturbed state action)
    (taken : (system Caller Client).next state action = some after) : Sound after := by
  cases action with
  | connect newClient =>
      change state.accept newClient = some after at taken
      unfold State.accept at taken
      split at taken
      · rename_i here _
        obtain rfl := Option.some.inj taken
        exact sound.acceptorMoves (by rw [here]; rfl) rfl fun _ _ => id
      · exact absurd taken (by simp)
  | acceptor success => exact sound.acceptConnections taken
  | call caller entry => exact sound.call taken
  | caller caller success => exact sound.proceed undisturbed taken

theorem sound_initial : Sound (system Caller Client).initial where
  caller _ := by simp [system, Call.holds]
  acceptor := by simp [system, Acceptor.holds]
  ledger := by simp [system, State.holder, Ledger, State.occupied, List.countP_replicate]

/-- A run whose steps are undisturbed reaches only consistent states. -/
theorem consistent_of_undisturbed {state : State Caller Client}
    (reached : (system Caller Client).Reachable Undisturbed state) : Consistent state :=
  (reached.invariant Sound sound_initial
    fun _ _ _ sound undisturbed taken => sound_step sound undisturbed taken).consistent

end Runs

/-- A client connects and its status message fails. -/
def rejected : List (Action Unit Unit) :=
  [.call () .activating, .caller () true, .caller () true, .connect (), .acceptor true,
    .acceptor true, .acceptor true, .acceptor true, .acceptor false]

theorem rejected_consistent : ∃ state, (system Unit Unit).run rejected = some state ∧
    state.activeConnections = 1 ∧ Consistent state := by
  obtain ⟨state, ran, counted⟩ : ∃ state, (system Unit Unit).run rejected = some state ∧
      state.activeConnections = 1 := ⟨_, rfl, rfl⟩
  refine ⟨state, ran, counted, consistent_of_undisturbed (System.reachable_of_along ?_ ran)⟩
  refine ⟨nofun, ?_⟩
  rintro _ ⟨⟩
  refine ⟨by rintro _ _ ⟨⟩ _ _ ⟨⟩, ?_⟩
  rintro _ ⟨⟩
  refine ⟨by rintro _ _ ⟨⟩ _ _ ⟨⟩, ?_⟩
  rintro _ ⟨⟩
  exact ⟨nofun, fun _ _ => ⟨nofun, fun _ _ => ⟨nofun, fun _ _ => ⟨nofun, fun _ _ =>
    ⟨nofun, fun _ _ => ⟨nofun, fun _ _ => trivial⟩⟩⟩⟩⟩⟩

/-- The accept thread has found the appender open when `close` locks the mutex. -/
def circle : List (Action Unit Unit) :=
  [.call () .activating, .caller () true, .caller () true, .connect (), .acceptor true,
    .acceptor true, .call () .close] ++
      List.replicate (MAX_CONNECTIONS + 4) (.caller () true)

theorem close_waits_in_circle : ¬ ∀ state,
    (system Unit Unit).Reachable System.Always state → Consistent state := by
  intro all
  obtain ⟨state, ran, joining, held, locking⟩ : ∃ state, (system Unit Unit).run circle = some state ∧
      state.calls () = .joining ∧ state.mutex = some (.caller ()) ∧ state.sh = .locking () 0 :=
    ⟨_, rfl, rfl, rfl, rfl⟩
  exact (all state (System.reachable_of_run ran)).noCircularWait () () 0 joining held locking

/-- The socket of the second of two clients can not be closed. -/
def miscounted : List (Action Unit Unit) :=
  [.call () .activating, .caller () true, .caller () true] ++
    [.connect ()] ++ List.replicate 5 (.acceptor true) ++
    [.connect ()] ++ List.replicate 5 (.acceptor true) ++
    [.call () .close, .caller () true, .caller () true, .caller () true, .caller () false]

example : ∃ state, (system Unit Unit).run miscounted = some state ∧ state.mutex = none ∧
    state.activeConnections = 2 ∧ state.occupied = 1 :=
  ⟨_, rfl, rfl, rfl, rfl⟩

end TelnetAppender

end CodeCollect.Log4cxx
