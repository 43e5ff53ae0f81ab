import CodeCollect.Pthreads.McsLockSteps

namespace CodeCollect.Pthreads

open CodeCollect.Library Program

namespace McsLock

variable {Caller : Type} [DecidableEq Caller] {memory next : Memory Caller}
  {places : Caller → Place Caller} {self : Caller} {phase : Phase Caller}

namespace Inv

section Waiting

variable {flag : Flag Caller} {after : After}

omit [DecidableEq Caller] in
/-- A caller waits for one of the flags of its node. -/
theorem waits_for (inv : Inv memory places)
    (here : (places self).phase = .testing flag after ∨ (places self).phase = .storing flag after ∨
      (places self).phase = .blocked flag after) :
    (after = .obtain ∧ flag = .readyFlag ((places self).node self)) ∨
      (after = .pass ∧ flag = .nextFlag ((places self).node self) ∧
        (places self).phase.owning = true) := by
  have queued : (places self).phase.queued = true := by
    rcases here with same | same | same <;> rw [same] <;> rfl
  have alive : (places self).phase ≠ .released := by
    rcases here with same | same | same <;> rw [same] <;> exact nofun
  rcases inv.role queued alive with ⟨-, waits⟩ | ⟨-, leads⟩
  · rcases here with same | same | same <;> rw [same] at waits <;> cases waits <;>
      exact .inl ⟨rfl, rfl⟩
  · rcases here with same | same | same <;> rw [same] at leads ⊢ <;> cases leads <;>
      first | exact .inl ⟨rfl, rfl⟩ | exact .inr ⟨rfl, rfl, rfl⟩

/-- The flag that is waited for is not set yet. -/
theorem step_testing (inv : Inv memory places) (here : (places self).phase = .testing flag after)
    (unset : memory.flag flag = .unset) :
    Inv memory (Function.update places self ((places self).moved (.storing flag after))) := by
  have queued : (places self).phase.queued = true := by rw [here]; rfl
  have alive : (places self).phase ≠ .released := by rw [here]; exact nofun
  rcases inv.waits_for (.inl here) with ⟨rfl, rfl⟩ | ⟨rfl, rfl, owning⟩
  · apply inv.approach .refl rfl rfl rfl rfl queued alive (by rw [here]; rfl) rfl rfl
    · rcases inv.role queued alive with ⟨later, -⟩ | ⟨-, leads⟩
      · exact .inl ⟨later, .storing unset⟩
      · rw [here] at leads
        cases leads with
        | testing set =>
            rw [unset] at set
            exact absurd set nofun
    · intro a _ _ _ pair
      rw [here] at pair
      exact pair.approach nofun nofun
    · exact nofun
    · exact nofun
  · apply inv.lead .refl rfl rfl rfl rfl owning rfl .storingNext
    · intro b _ _ pair
      rw [here] at pair
      exact pair.ask .testing .storing
    · intro _ _ ends _
      rw [here] at ends
      exact absurd ends nofun
    · exact nofun

/-- The event of a waiter is stored. -/
theorem step_storing (inv : Inv memory places) (here : (places self).phase = .storing flag after)
    (unset : memory.flag flag = .unset) :
    Inv (memory.write flag (.event false))
      (Function.update places self ((places self).moved (.blocked flag after))) := by
  have queued : (places self).phase.queued = true := by rw [here]; rfl
  have alive : (places self).phase ≠ .released := by rw [here]; exact nofun
  rcases inv.waits_for (.inr (.inl here)) with ⟨rfl, rfl⟩ | ⟨rfl, rfl, owning⟩
  · apply inv.approach (.own (.inr rfl)) rfl rfl rfl rfl queued alive (by rw [here]; rfl) rfl
      (Memory.write_readyFlag _ _)
    · rcases inv.role queued alive with ⟨later, -⟩ | ⟨-, leads⟩
      · exact .inl ⟨later, .blocked Memory.write_same⟩
      · rw [here] at leads
        cases leads with
        | storing set =>
            rw [unset] at set
            exact absurd set nofun
    · intro a _ _ _ pair
      rw [here] at pair
      have silent : ∀ pred, ¬ Notifies pred
          (.blocked (.readyFlag ((places self).node self)) .obtain) := nofun
      exact (pair.approach nofun silent).of_same rfl (Memory.write_readyFlag _ _)
        fun _ => Memory.write_same
    · exact nofun
    · exact nofun
  · apply inv.lead (.own (.inl rfl)) rfl rfl rfl rfl owning rfl .blockedNext
    · intro b _ _ pair
      rw [here] at pair
      exact pair.sleep unset
    · intro _ _ ends _
      rw [here] at ends
      exact absurd ends nofun
    · exact nofun

/-- The flag is set, or its event is signalled, and the waiter goes on. -/
theorem step_waited (inv : Inv memory places)
    (here : (places self).phase = .testing flag after ∨ (places self).phase = .storing flag after)
    (set : memory.flag flag ≠ .unset) :
    Inv (resume self memory (places self) after).1
      (Function.update places self (resume self memory (places self) after).2) := by
  have queued : (places self).phase.queued = true := by
    rcases here with same | same <;> rw [same] <;> rfl
  have alive : (places self).phase ≠ .released := by
    rcases here with same | same <;> rw [same] <;> exact nofun
  have owns := inv.waits_for (here.imp id .inl)
  rcases owns with ⟨rfl, rfl⟩ | ⟨rfl, rfl, owning⟩
  · have turn : (places self).ticket = memory.serving := by
      refine ((inv.role queued alive).resolve_left ?_).1
      rintro ⟨-, waits⟩
      rcases here with same | same <;> rw [same] at waits <;> cases waits <;> contradiction
    have early : (places self).phase.owning = false := by
      rcases here with same | same <;> rw [same] <;> rfl
    exact inv.take ⟨fun _ _ => rfl, fun _ _ _ => ⟨rfl, rfl⟩, fun _ _ _ => rfl⟩ rfl rfl rfl rfl
      queued alive early turn rfl rfl
  · have asks : Asks ((places self).node self) (places self).phase := by
      rcases here with same | same <;> rw [same] <;> constructor
    apply inv.lead .refl rfl rfl rfl rfl owning rfl .rereading
    · intro b _ _ pair
      exact pair.told asks set
    · intro _ _ ends _
      rcases here with same | same <;> rw [same] at ends <;> exact absurd ends nofun
    · exact nofun

/-- The event of a waiter is signalled. -/
theorem step_blocked (inv : Inv memory places) (here : (places self).phase = .blocked flag after)
    (signalled : memory.flag flag = .event true) :
    Inv (resume self (memory.write flag (.event false)) (places self) after).1
      (Function.update places self
        (resume self (memory.write flag (.event false)) (places self) after).2) := by
  have queued : (places self).phase.queued = true := by rw [here]; rfl
  have alive : (places self).phase ≠ .released := by rw [here]; exact nofun
  rcases inv.waits_for (.inr (.inr here)) with ⟨rfl, rfl⟩ | ⟨rfl, rfl, owning⟩
  · have turn : (places self).ticket = memory.serving := by
      refine ((inv.role queued alive).resolve_left ?_).1
      rintro ⟨-, waits⟩
      rw [here] at waits
      cases waits with
      | blocked event =>
          rw [signalled] at event
          exact absurd (Word.event.inj event) nofun
    have frame : Frame memory (memory.write (.readyFlag ((places self).node self)) (.event false))
        self (places self) := .own (.inr rfl)
    have nextFlag : (memory.write (.readyFlag ((places self).node self)) (.event false)).flag
        (.nextFlag ((places self).node self)) = memory.flag (.nextFlag ((places self).node self)) :=
      Memory.write_readyFlag _ _
    exact inv.take ⟨frame.ready, frame.others, frame.old⟩ rfl rfl rfl rfl queued alive
      (by rw [here]; rfl) turn rfl nextFlag
  · apply inv.lead (.own (.inl rfl)) rfl rfl rfl rfl owning rfl .rereading
    · intro b _ _ pair
      rw [here] at pair
      exact pair.woken signalled
    · intro _ _ ends _
      rw [here] at ends
      exact absurd ends nofun
    · exact nofun

end Waiting

section Turns

omit [DecidableEq Caller] in
/-- The lock word is not the node of a caller that has a next one. -/
theorem next_of_lock (inv : Inv memory places) (owning : (places self).phase.owning = true)
    (other : memory.lock ≠ some ((places self).node self)) :
    (places self).ticket + 1 ≠ memory.tickets := fun final =>
  other ((inv.tail self (queued_of_owning owning)).mpr ⟨(inv.turn_of_owning owning).1.ge, final⟩)

/-- A caller starts to release the lock. -/
theorem step_release (inv : Inv memory places) (here : (places self).phase = .holding) :
    Inv memory (Function.update places self ((places self).moved .releasing)) := by
  apply inv.lead .refl rfl rfl rfl rfl (by rw [here]; rfl) rfl .releasing
  · intro b _ _ pair
    exact pair.plain (by rw [here]; exact nofun) rfl
  · exact fun _ empty _ unset => ⟨empty, unset, rfl⟩
  · exact nofun

/-- A caller starts to transfer its node. -/
theorem step_transfer (inv : Inv memory places) (here : (places self).phase = .holding) :
    Inv (memory.initialise ((places self).new_node self))
      (Function.update places self ((places self).moved .moving)) := by
  have frame : Frame memory (memory.initialise ((places self).new_node self)) self (places self) :=
    .initialise rfl (Nat.le_succ _)
  have differ : (places self).node self ≠ (places self).new_node self := by
    intro same
    exact absurd (congrArg Node.generation same) (Nat.succ_ne_self _).symm
  have link : (memory.initialise ((places self).new_node self)).next ((places self).node self) =
      memory.next ((places self).node self) := Function.update_of_ne differ _ _
  have nextFlag : (memory.initialise ((places self).new_node self)).flag
      (.nextFlag ((places self).node self)) = memory.flag (.nextFlag ((places self).node self)) :=
    Memory.initialise_other (fun same => differ (Flag.nextFlag.inj same)) nofun
  apply inv.lead frame rfl rfl rfl rfl (by rw [here]; rfl) rfl .moving
  · intro b _ follows pair
    have other : b ≠ self := by
      rintro rfl
      exact absurd follows (Nat.succ_ne_self _).symm
    have awake : (places self).phase ≠ .blocked (.nextFlag ((places self).node self)) .pass := by
      rw [here]
      exact nofun
    have plain : (Phase.moving : Phase Caller).plain = true := rfl
    exact (pair.plain awake plain).congr link nextFlag (frame.ready _ other)
  · exact fun _ empty _ unset => ⟨link.trans empty, nextFlag.trans unset, rfl⟩
  · exact fun _ => clean_initialise _

/-- No successor is known. -/
theorem step_unlinked (inv : Inv memory places) (here : (places self).phase = .releasing)
    (empty : memory.next ((places self).node self) = none) :
    Inv memory (Function.update places self ((places self).moved .freeing)) := by
  apply inv.lead .refl rfl rfl rfl rfl (by rw [here]; rfl) rfl .freeing
  · intro b _ _ pair
    exact pair.free (by rw [here]; exact nofun) empty
  · exact fun _ empty _ unset => ⟨empty, unset, rfl⟩
  · exact nofun

/-- The successor is known. -/
theorem step_linked (inv : Inv memory places) {link : Node Caller}
    (here : (places self).phase = .releasing ∨ (places self).phase = .rereading)
    (found : memory.next ((places self).node self) = some link) :
    Inv memory (Function.update places self
      ((places self).moved (.setting (.readyFlag link) .finish))) := by
  have owning : (places self).phase.owning = true := by
    rcases here with same | same <;> rw [same] <;> rfl
  apply inv.lead .refl rfl rfl rfl rfl owning rfl .passing
  · intro b _ _ pair
    refine pair.pass ?_ found
    rcases here with same | same <;> rw [same] <;> exact nofun
  · intro _ empty _ _
    rw [found] at empty
    exact absurd empty nofun
  · exact nofun

omit [DecidableEq Caller] in
/-- A caller that was told of its successor finds it. -/
theorem exists_link (inv : Inv memory places) (here : (places self).phase = .rereading) :
    memory.next ((places self).node self) ≠ none := by
  have owning : (places self).phase.owning = true := by rw [here]; rfl
  have queued := queued_of_owning owning
  have low := (inv.turn_of_owning owning).1.ge
  obtain ⟨b, present, follows⟩ := inv.exists_next queued low (by rw [here]; rfl)
  have pair := inv.pairs self b queued present low follows
  intro empty
  exact (pair.pending (.inl (pair.unlinked.mpr empty))).1 here

/-- Nobody follows, and the lock is free. -/
theorem step_free (inv : Inv memory places) (here : (places self).phase = .freeing)
    (mine : memory.lock = some ((places self).node self)) :
    Inv ({ memory with lock := none } : Memory Caller).serve
      (Function.update places self ((places self).moved .released)) := by
  have owning : (places self).phase.owning = true := by rw [here]; rfl
  have queued := queued_of_owning owning
  obtain ⟨turn, -⟩ := inv.turn_of_owning owning
  obtain ⟨-, final⟩ := (inv.tail self queued).mp mine
  refine inv.leave queued turn owning (by rw [here]; exact nofun) rfl rfl rfl rfl (fun _ => rfl)
    (fun _ _ _ _ _ => rfl) (fun _ _ _ _ => rfl) (.inl ⟨by omega, rfl⟩) ?_
  intro b present second
  have below := inv.below b present
  omega

/-- Somebody follows but has not been seen. -/
theorem step_await (inv : Inv memory places) (here : (places self).phase = .freeing)
    (other : memory.lock ≠ some ((places self).node self)) :
    Inv memory (Function.update places self
      ((places self).moved (.testing (.nextFlag ((places self).node self)) .pass))) := by
  have owning : (places self).phase.owning = true := by rw [here]; rfl
  apply inv.lead .refl rfl rfl rfl rfl owning rfl .testingNext
  · intro b _ _ pair
    rw [here] at pair
    exact pair.ask .freeing .testing
  · intro final
    exact absurd final (inv.next_of_lock owning other)
  · exact nofun

/-- The lock word is the node that is transferred. -/
theorem step_moved (inv : Inv memory places) (here : (places self).phase = .moving)
    (mine : memory.lock = some ((places self).node self)) :
    Inv { memory with lock := some ((places self).new_node self) } (Function.update places self
      ⟨(places self).generation + 1, (places self).ticket, .holding⟩) := by
  have moving : (places self).phase.transferring = true := by rw [here]; rfl
  exact inv.transfer moving rfl rfl rfl rfl (fun _ _ => rfl)
    (.inl ⟨mine, rfl, (inv.cleanNew self moving).next⟩)

/-- A transfer has to wait for the link of a successor. -/
theorem step_spin (inv : Inv memory places) (here : (places self).phase = .moving)
    (other : memory.lock ≠ some ((places self).node self)) :
    Inv memory (Function.update places self ((places self).moved .spinning)) := by
  have owning : (places self).phase.owning = true := by rw [here]; rfl
  apply inv.lead .refl rfl rfl rfl rfl owning rfl .spinning
  · intro b _ _ pair
    exact pair.plain (by rw [here]; exact nofun) rfl
  · intro final
    exact absurd final (inv.next_of_lock owning other)
  · intro _
    exact inv.cleanNew self (by rw [here]; rfl)

/-- The link of the successor is there. -/
theorem step_seen (inv : Inv memory places) (here : (places self).phase = .spinning)
    (found : memory.next ((places self).node self) ≠ none) :
    Inv memory (Function.update places self ((places self).moved .copying)) := by
  apply inv.lead .refl rfl rfl rfl rfl (by rw [here]; rfl) rfl .copying
  · intro b _ _ pair
    exact pair.copy (by rw [here]; exact nofun) found
  · exact fun _ empty => absurd empty found
  · intro _
    exact inv.cleanNew self (by rw [here]; rfl)

/-- The link of the successor is copied to the new node. -/
theorem step_copying (inv : Inv memory places) (here : (places self).phase = .copying) :
    Inv (memory.link ((places self).new_node self) (memory.next ((places self).node self)))
      (Function.update places self
        ⟨(places self).generation + 1, (places self).ticket, .holding⟩) := by
  have owning : (places self).phase.owning = true := by rw [here]; rfl
  have queued := queued_of_owning owning
  have low := (inv.turn_of_owning owning).1.ge
  obtain ⟨b, present, follows⟩ := inv.exists_next queued low (by rw [here]; rfl)
  have pair := inv.pairs self b queued present low follows
  have below := inv.below b present
  refine inv.transfer (by rw [here]; rfl) rfl rfl rfl rfl (fun _ => Memory.link_other)
    (.inr ⟨?_, rfl, Memory.link_same, pair.copying here⟩)
  intro mine
  have final := (inv.tail self queued).mp mine
  omega

end Turns

omit [DecidableEq Caller] in
/-- A caller sets the flag of its predecessor or of its successor. -/
inductive Sets : Flag Caller → After → Prop
  | notify (pred : Node Caller) : Sets (.nextFlag pred) .wait
  | pass (link : Node Caller) : Sets (.readyFlag link) .finish

omit [DecidableEq Caller] in
theorem sets (inv : Inv memory places) {flag : Flag Caller} {after : After}
    (here : (places self).phase = .setting flag after) : Sets flag after := by
  rcases inv.role (by rw [here]; rfl) (by rw [here]; exact nofun) with ⟨-, waits⟩ | ⟨-, leads⟩
  · rw [here] at waits
    cases waits with
    | setting _ => exact .notify _
  · rw [here] at leads
    cases leads with
    | setting _ => exact .notify _
    | passing => exact .pass _

omit [DecidableEq Caller] in
theorem signals (inv : Inv memory places) {flag : Flag Caller} {after : After}
    (here : (places self).phase = .signalling flag after) : Sets flag after := by
  rcases inv.role (by rw [here]; rfl) (by rw [here]; exact nofun) with ⟨-, waits⟩ | ⟨-, leads⟩
  · rw [here] at waits
    cases waits with
    | signalling _ => exact .notify _
  · rw [here] at leads
    cases leads with
    | waking => exact .pass _

/-- The line is kept by a move of one caller. -/
def Keeps (places : Caller → Place Caller) (self : Caller) (next : Memory Caller)
    (place : Place Caller) : Prop := Inv next (Function.update places self place)

variable {place : Place Caller} {label : Label}

/-- The next step of a call. -/
theorem proceed (inv : Inv memory places) (here : (places self).phase = phase)
    (taken : McsLock.proceed self memory (places self) phase = some (next, place)) :
    Keeps places self next place := by
  cases phase with
  | queueing =>
      dsimp only [McsLock.proceed] at taken
      split at taken
      · rename_i free
        exact step_some taken
          (inv.join (.inl here) rfl rfl rfl rfl rfl (.inl ⟨free, rfl, rfl⟩))
      · rename_i pred found
        exact step_some taken
          (inv.join (.inl here) rfl rfl rfl rfl rfl (.inr ⟨pred, found, rfl, rfl⟩))
  | trying =>
      dsimp only [McsLock.proceed] at taken
      split at taken
      · rename_i free
        exact step_some taken
          (inv.join (.inr here) rfl rfl rfl rfl rfl (.inl ⟨free, rfl, rfl⟩))
      · have absent : (places self).phase.queued = false := by rw [here]; rfl
        refine step_some taken ?_
        apply inv.aside (fun _ _ => rfl) (fun _ _ => ⟨rfl, rfl⟩) rfl rfl rfl rfl absent rfl
        rintro (same | same) <;> exact absurd same nofun
  | linking pred => exact step_some taken (inv.step_linking here)
  | setting flag after =>
      dsimp only [McsLock.proceed, ptw32_mcs_flag_set] at taken
      split at taken
      · rename_i unset
        cases inv.sets here with
        | notify pred => exact step_some taken (inv.step_notify here unset)
        | pass link => exact step_some taken (inv.step_pass here unset)
      · rename_i event
        cases inv.sets here with
        | notify pred => exact step_some taken (inv.step_findEvent here event)
        | pass link => exact step_some taken (inv.step_findWaiter here event)
  | signalling flag after =>
      cases inv.signals here with
      | notify pred => exact step_some taken (inv.step_notifyEvent here)
      | pass link => exact step_some taken (inv.step_wake here)
  | testing flag after =>
      dsimp only [McsLock.proceed] at taken
      split at taken
      · rename_i unset
        exact step_some taken (inv.step_testing here unset)
      · rename_i set
        exact step_some taken (inv.step_waited (.inl here) set)
  | storing flag after =>
      dsimp only [McsLock.proceed, ptw32_mcs_flag_wait] at taken
      split at taken
      · rename_i unset
        exact step_some taken (inv.step_storing here unset)
      · rename_i set
        exact step_some taken (inv.step_waited (.inr here) set)
  | blocked flag after => exact step_when taken (inv.step_blocked here)
  | releasing =>
      dsimp only [McsLock.proceed] at taken
      split at taken
      · rename_i empty
        exact step_some taken (inv.step_unlinked here empty)
      · rename_i link found
        exact step_some taken (inv.step_linked (.inl here) found)
  | freeing =>
      dsimp only [McsLock.proceed] at taken
      split at taken
      · rename_i mine
        exact step_some taken (inv.step_free here mine)
      · rename_i other
        exact step_some taken (inv.step_await here other)
  | rereading =>
      dsimp only [McsLock.proceed] at taken
      split at taken
      · rename_i empty
        exact absurd empty (inv.exists_link here)
      · rename_i link found
        exact step_some taken (inv.step_linked (.inr here) found)
  | moving =>
      dsimp only [McsLock.proceed] at taken
      split at taken
      · rename_i mine
        exact step_some taken (inv.step_moved here mine)
      · rename_i other
        exact step_some taken (inv.step_spin here other)
  | spinning =>
      dsimp only [McsLock.proceed] at taken
      split at taken
      · exact absurd taken nofun
      · rename_i found
        exact step_some taken (inv.step_seen here found)
  | copying => exact step_some taken (inv.step_copying here)
  | _ => exact absurd taken nofun

/-- Every step keeps the line. -/
theorem step (inv : Inv memory places)
    (taken : McsLock.step self memory (places self) label = some (next, place)) :
    Keeps places self next place := by
  cases label with
  | acquire =>
      refine step_when taken fun outside => ?_
      have frame : Frame memory (memory.initialise ((places self).node self)) self (places self) :=
        .initialise rfl le_rfl
      have silent : ∀ node, ¬ Notifies node (places self).phase := by
        rw [outside]
        exact nofun
      have absent : (places self).phase.queued = false := by rw [outside]; rfl
      exact inv.aside (fun node other => (frame.others node other (silent node)).1)
        (fun node other => ⟨(frame.others node other (silent node)).2, frame.ready node other⟩)
        rfl rfl rfl rfl absent rfl fun _ => clean_initialise _
  | tryAcquire =>
      refine step_when taken fun outside => ?_
      have frame : Frame memory (memory.initialise ((places self).node self)) self (places self) :=
        .initialise rfl le_rfl
      have silent : ∀ node, ¬ Notifies node (places self).phase := by
        rw [outside]
        exact nofun
      have absent : (places self).phase.queued = false := by rw [outside]; rfl
      exact inv.aside (fun node other => (frame.others node other (silent node)).1)
        (fun node other => ⟨(frame.others node other (silent node)).2, frame.ready node other⟩)
        rfl rfl rfl rfl absent rfl fun _ => clean_initialise _
  | release => exact step_when taken inv.step_release
  | transfer => exact step_when taken inv.step_transfer
  | go => exact inv.proceed rfl taken

end Inv

end McsLock

namespace McsLock

variable {Caller : Type} [DecidableEq Caller] {next : Node Caller → Option (Node Caller)}
  {flag : Flag Caller → Word} {config : Configuration Caller (Memory Caller) (Place Caller)}

theorem inv_start : Inv (program Caller next flag).memory
    fun _ : Caller => (program Caller next flag).entry where
  ahead := le_rfl
  below := nofun
  unique := nofun
  found ticket low := absurd low (Nat.not_lt_zero ticket)
  gone := nofun
  free := iff_of_true rfl rfl
  tail := nofun
  waits := nofun
  leads := nofun
  pairs := nofun
  last := nofun
  clean a begins := by rcases begins with same | same <;> exact absurd same nofun
  cleanNew := nofun
  behind := nofun
  stale := nofun
  order := nofun
  idle _ := rfl

theorem inv_of_reachable (reached : (program Caller next flag).system.Reachable System.Always config) :
    Inv config.memory config.places := by
  apply Program.invariant reached Inv inv_start
  intro memory places caller label after place inv _ taken
  exact inv.step taken

/-- One caller at most has the lock, the callers get it in the order of their exchanges on the lock
word, nobody follows a null pointer, and whoever is blocked has somebody who will set its event. -/
structure Safe (config : Configuration Caller (Memory Caller) (Place Caller)) : Prop where
  exclusive : ∀ a b, (config.places a).phase.owning = true →
    (config.places b).phase.owning = true → a = b
  ordered : ∃ count, config.memory.obtained = List.range count ∧ count ≤ config.memory.tickets
  sound : ∀ a, (config.places a).phase ≠ .crashed
  ready : ∀ a, (config.places a).phase =
      .blocked (.readyFlag ((config.places a).node a)) .obtain →
    config.memory.flag (.readyFlag ((config.places a).node a)) ≠ .event true →
      ∃ b, (config.places b).phase.queued = true ∧ (config.places b).phase ≠ .released ∧
        (config.places b).ticket + 1 = (config.places a).ticket
  next : ∀ a, (config.places a).phase = .blocked (.nextFlag ((config.places a).node a)) .pass →
    config.memory.flag (.nextFlag ((config.places a).node a)) ≠ .event true →
      ∃ b, Notifies ((config.places a).node a) (config.places b).phase

omit [DecidableEq Caller] in
/-- Everybody in the line but the first has somebody before it. -/
theorem Inv.exists_before {memory : Memory Caller} {places : Caller → Place Caller}
    (inv : Inv memory places) {a : Caller} (queued : (places a).phase.queued = true)
    (later : memory.serving < (places a).ticket) :
    ∃ b, (places b).phase.queued = true ∧ (places b).phase ≠ .released ∧
      (places b).ticket + 1 = (places a).ticket := by
  have below := inv.below a queued
  obtain ⟨b, present, ticket⟩ := inv.found ((places a).ticket - 1) (by omega)
  refine ⟨b, present, fun gone => ?_, by omega⟩
  have low := (inv.gone b present).mpr gone
  omega

omit [DecidableEq Caller] in
/-- Somebody will set the event of a caller that waits for its successor. -/
theorem Inv.exists_notifier {memory : Memory Caller} {places : Caller → Place Caller}
    (inv : Inv memory places) {a : Caller}
    (blocked : (places a).phase = .blocked (.nextFlag ((places a).node a)) .pass)
    (silent : memory.flag (.nextFlag ((places a).node a)) ≠ .event true) :
    ∃ b, Notifies ((places a).node a) (places b).phase := by
  have owning : (places a).phase.owning = true := by rw [blocked]; rfl
  have queued := queued_of_owning owning
  have low := (inv.turn_of_owning owning).1.ge
  obtain ⟨b, present, follows⟩ := inv.exists_next queued low (by rw [blocked]; rfl)
  have pair := inv.pairs a b queued present low follows
  refine ⟨b, ?_⟩
  by_contra quiet
  exact silent ((pair.notified quiet).2 blocked)

theorem mcs_lock_safe (reached : (program Caller next flag).system.Reachable System.Always config) :
    Safe config := by
  have inv := inv_of_reachable reached
  refine ⟨?_, ?_, ?_, ?_, ?_⟩
  · intro a b one other
    apply inv.unique a b (queued_of_owning one) (queued_of_owning other)
    rw [(inv.turn_of_owning one).1, (inv.turn_of_owning other).1]
  · rcases inv.ahead.lt_or_eq with busy | idle
    · obtain ⟨a, present, turn⟩ := inv.found _ busy
      refine ⟨_, inv.order a present turn, ?_⟩
      split <;> omega
    · exact ⟨_, inv.idle idle, inv.ahead⟩
  · intro a crashed
    rcases inv.role (by rw [crashed]; rfl) (by rw [crashed]; exact nofun) with ⟨-, waits⟩ | ⟨-, leads⟩
    · rw [crashed] at waits
      exact absurd waits nofun
    · rw [crashed] at leads
      exact absurd leads nofun
  · intro a blocked silent
    have queued : (config.places a).phase.queued = true := by rw [blocked]; rfl
    rcases inv.role queued (by rw [blocked]; exact nofun) with ⟨later, -⟩ | ⟨-, leads⟩
    · exact inv.exists_before queued later
    · rw [blocked] at leads
      cases leads with
      | blocked event => exact absurd event silent
  · exact fun a => inv.exists_notifier

/-- One caller gets the lock and transfers its node, and the other one waits for its event. -/
def contended : List (Bool × Label) :=
  [(false, .acquire), (false, .go), (true, .acquire), (true, .go), (true, .go), (true, .go),
    (false, .transfer), (false, .go), (false, .go), (false, .go), (true, .go), (true, .go)]

theorem contended_ordered : ∃ config,
    (program Bool (fun _ => none) fun _ => .unset).system.run contended = some config ∧
      (config.places true).phase = .blocked (.readyFlag ⟨true, 0⟩) .obtain ∧ Safe config := by
  obtain ⟨config, ran, blocked⟩ : ∃ config,
      (program Bool (fun _ => none) fun _ => .unset).system.run contended = some config ∧
        (config.places true).phase = .blocked (.readyFlag ⟨true, 0⟩) .obtain := ⟨_, rfl, rfl⟩
  exact ⟨config, ran, blocked, mcs_lock_safe (System.reachable_of_run ran)⟩

/-- No caller can go on with its call. -/
def Stuck (config : Configuration Caller (Memory Caller) (Place Caller)) : Prop :=
  ∀ a, proceed a config.memory (config.places a) (config.places a).phase = none

/-- A caller that notifies another one does not wait. -/
theorem can_notify {pred : Node Caller} {self : Caller} {memory : Memory Caller}
    {place : Place Caller} (notifies : Notifies pred place.phase) :
    proceed self memory place place.phase ≠ none := by
  generalize place.phase = phase at notifies
  cases notifies <;> exact nofun

/-- When nobody can go on, the line is empty or its first caller has the lock and uses it. -/
theorem holding_of_stuck
    (reached : (program Caller next flag).system.Reachable System.Always config)
    (stuck : Stuck config) :
    config.memory.lock = none ∨ ∃ a, (config.places a).phase = .holding ∧
      (config.places a).ticket = config.memory.serving := by
  have inv := inv_of_reachable reached
  rcases inv.ahead.lt_or_eq with busy | idle
  · right
    obtain ⟨a, present, turn⟩ := inv.found _ busy
    refine ⟨a, ?_, turn⟩
    have leads := inv.leads a present turn
    have stays := stuck a
    generalize here : (config.places a).phase = phase at leads stays
    cases leads with
    | holding => rfl
    | testing _ | testingNext | freeing | moving | releasing | rereading =>
        dsimp only [proceed] at stays
        split at stays <;> exact absurd stays nofun
    | blocked event => exact absurd ((if_pos event).symm.trans stays) nofun
    | blockedNext =>
        by_cases event : config.memory.flag (.nextFlag ((config.places a).node a)) = .event true
        · exact absurd ((if_pos event).symm.trans stays) nofun
        · obtain ⟨b, notifies⟩ := inv.exists_notifier here event
          exact absurd (stuck b) (can_notify notifies)
    | spinning =>
        by_cases empty : config.memory.next ((config.places a).node a) = none
        · obtain ⟨b, follower, follows⟩ := inv.exists_next present turn.ge (by rw [here]; rfl)
          have pair := inv.pairs a b present follower turn.ge follows
          have notifies : Notifies ((config.places a).node a) (config.places b).phase := by
            rw [pair.unlinked.mpr empty]
            exact .linking
          exact absurd (stuck b) (can_notify notifies)
        · exact absurd ((if_neg empty).symm.trans stays) nofun
    | _ => exact absurd stays nofun
  · exact .inl (inv.free.mpr idle)

theorem contended_stuck : ∃ config,
    (program Bool (fun _ => none) fun _ => .unset).system.run contended = some config ∧
      config.memory.lock ≠ none ∧ ∃ a, (config.places a).phase = .holding := by
  obtain ⟨config, ran, taken, stuck⟩ : ∃ config,
      (program Bool (fun _ => none) fun _ => .unset).system.run contended = some config ∧
        config.memory.lock = some ⟨true, 0⟩ ∧ Stuck config :=
    ⟨_, rfl, rfl, by intro a; cases a <;> rfl⟩
  have busy : config.memory.lock ≠ none := by
    rw [taken]
    exact nofun
  obtain ⟨a, holds, -⟩ :=
    (holding_of_stuck (System.reachable_of_run ran) stuck).resolve_left busy
  exact ⟨config, ran, busy, a, holds⟩

/-- The node that a flag is a field of. -/
def Flag.node : Flag Caller → Node Caller
  | .nextFlag node => node
  | .readyFlag node => node

/-- The nodes with a field that the next step of a call reads or writes. An event is no field. -/
def touched (self : Caller) (place : Place Caller) : Phase Caller → List (Node Caller)
  | .linking pred => [pred]
  | .setting flag _ | .testing flag _ | .storing flag _ => [flag.node]
  | .releasing | .rereading | .spinning => [place.node self]
  | .moving => [place.new_node self]
  | .copying => [place.new_node self, place.node self]
  | _ => []

/-- The call that releases or transfers the node has returned. -/
def Finished (config : Configuration Caller (Memory Caller) (Place Caller)) (node : Node Caller) :
    Prop :=
  (config.places node.owner).phase = .released ∨
    node.generation < (config.places node.owner).generation

omit [DecidableEq Caller] in
theorem not_finished {self : Caller} (alive : (config.places self).phase ≠ .released) :
    ¬ Finished config ((config.places self).node self) := by
  rintro (gone | older)
  · exact alive gone
  · exact lt_irrefl _ older

/-- The only step that touches a node after its owner is done is the notification by the caller that
came next, and the flag is not set yet. -/
theorem touched_finished
    (reached : (program Caller next flag).system.Reachable System.Always config) {a : Caller}
    {node : Node Caller}
    (touches : node ∈ touched a (config.places a) (config.places a).phase)
    (finished : Finished config node) :
    (config.places a).phase = .setting (.nextFlag node) .wait ∧
      config.memory.flag (.nextFlag node) = .unset ∧
        (config.places node.owner).ticket + 1 = (config.places a).ticket := by
  have inv := inv_of_reachable reached
  have standing : ∀ b, (config.places b).phase.queued = true →
      config.memory.serving ≤ (config.places b).ticket →
        ¬ Finished config ((config.places b).node b) := fun b present low =>
    not_finished fun gone => low.not_gt ((inv.gone b present).mpr gone)
  have own : (config.places a).phase ≠ .released →
      ¬ Finished config ((config.places a).new_node a) := by
    rintro alive (gone | older)
    · exact alive gone
    · exact absurd older (Nat.lt_irrefl _ ∘ (Nat.lt_succ_self _).trans)
  generalize here : (config.places a).phase = phase at touches own
  cases phase with
  | linking pred =>
      obtain rfl := List.mem_singleton.mp touches
      have queued : (config.places a).phase.queued = true := by rw [here]; rfl
      have notifies : Notifies node (config.places a).phase := by rw [here]; exact .linking
      obtain ⟨present, follows, -⟩ := inv.behind a node notifies
      have low : config.memory.serving ≤ (config.places node.owner).ticket := by
        rcases inv.role queued (by rw [here]; exact nofun) with ⟨later, -⟩ | ⟨-, leads⟩
        · omega
        · rw [here] at leads
          exact absurd leads nofun
      have live := (inv.pairs _ a present queued low follows.symm).target node here
      rw [live] at finished
      exact absurd finished (standing _ present low)
  | setting flag after =>
      obtain rfl := List.mem_singleton.mp touches
      cases inv.sets here with
      | notify pred =>
          have notifies : Notifies pred (config.places a).phase := by rw [here]; exact .setting
          obtain ⟨present, follows, -⟩ := inv.behind a pred notifies
          refine ⟨rfl, ?_, follows⟩
          refine (inv.stale a pred here).resolve_left ?_
          rintro ⟨low, live⟩
          have gone : Finished config pred := finished
          rw [live] at gone
          exact standing _ present low gone
      | pass link =>
          have owning : (config.places a).phase.owning = true := by rw [here]; rfl
          have queued := queued_of_owning owning
          have low := (inv.turn_of_owning owning).1.ge
          obtain ⟨b, present, follows⟩ := inv.exists_next queued low (by rw [here]; rfl)
          obtain ⟨rfl, -⟩ := (inv.pairs a b queued present low follows).passing link here
          exact absurd finished (standing b present (by omega))
  | testing flag after =>
      obtain rfl := List.mem_singleton.mp touches
      have mine : flag.node = (config.places a).node a := by
        rcases inv.waits_for (.inl here) with ⟨-, rfl⟩ | ⟨-, rfl, -⟩ <;> rfl
      rw [mine] at finished
      exact absurd finished (not_finished (by rw [here]; exact nofun))
  | storing flag after =>
      obtain rfl := List.mem_singleton.mp touches
      have mine : flag.node = (config.places a).node a := by
        rcases inv.waits_for (.inr (.inl here)) with ⟨-, rfl⟩ | ⟨-, rfl, -⟩ <;> rfl
      rw [mine] at finished
      exact absurd finished (not_finished (by rw [here]; exact nofun))
  | releasing | rereading | spinning =>
      obtain rfl := List.mem_singleton.mp touches
      exact absurd finished (not_finished (by rw [here]; exact nofun))
  | moving =>
      obtain rfl := List.mem_singleton.mp touches
      exact absurd finished (own nofun)
  | copying =>
      rcases List.mem_pair.mp touches with rfl | rfl
      · exact absurd finished (own nofun)
      · exact absurd finished (not_finished (by rw [here]; exact nofun))
  | _ => exact absurd touches List.not_mem_nil

/-- One caller links its node, and the other one releases the lock before the flag is set. -/
def overtaken : List (Bool × Label) :=
  [(false, .acquire), (false, .go), (true, .acquire), (true, .go), (true, .go), (false, .release),
    (false, .go), (false, .go)]

theorem overtaken_touched : ∃ config,
    (program Bool (fun _ => none) fun _ => .unset).system.run overtaken = some config ∧
      Finished config ⟨false, 0⟩ ∧
        (config.places true).phase = .setting (.nextFlag ⟨false, 0⟩) .wait := by
  obtain ⟨config, ran, gone, touches⟩ : ∃ config,
      (program Bool (fun _ => none) fun _ => .unset).system.run overtaken = some config ∧
        (config.places false).phase = .released ∧
          ⟨false, 0⟩ ∈ touched true (config.places true) (config.places true).phase :=
    ⟨_, rfl, rfl, List.mem_singleton.mpr rfl⟩
  have finished : Finished config ⟨false, 0⟩ := .inl gone
  exact ⟨config, ran, finished,
    (touched_finished (System.reachable_of_run ran) touches finished).1⟩

end McsLock

end CodeCollect.Pthreads
