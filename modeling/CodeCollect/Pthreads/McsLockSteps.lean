import CodeCollect.Pthreads.McsLockTurns

namespace CodeCollect.Pthreads

open CodeCollect.Library Program

namespace McsLock

variable {Caller : Type} [DecidableEq Caller] {memory next : Memory Caller}
  {places : Caller → Place Caller} {self : Caller} {phase : Phase Caller}

namespace Inv

omit [DecidableEq Caller] in
/-- A caller in the line waits or has its turn. -/
theorem role (inv : Inv memory places) (queued : (places self).phase.queued = true)
    (alive : (places self).phase ≠ .released) :
    memory.serving < (places self).ticket ∧
        Waits memory ((places self).node self) (places self).phase ∨
      (places self).ticket = memory.serving ∧
        Leads memory ((places self).node self) (places self).phase := by
  have reached : memory.serving ≤ (places self).ticket :=
    not_lt.mp fun low => alive ((inv.gone self queued).mp low)
  rcases reached.lt_or_eq with later | now
  · exact .inl ⟨later, inv.waits self queued later⟩
  · exact .inr ⟨now.symm, inv.leads self queued now.symm⟩

omit [DecidableEq Caller] in
theorem turn_of_owning (inv : Inv memory places) (owning : (places self).phase.owning = true) :
    (places self).ticket = memory.serving ∧
      Leads memory ((places self).node self) (places self).phase := by
  refine (inv.role (queued_of_owning owning) ?_).resolve_left ?_
  · intro gone
    rw [gone] at owning
    exact absurd owning nofun
  · rintro ⟨-, waits⟩
    exact absurd (owning.symm.trans waits.owning.1) nofun

omit [DecidableEq Caller] in
/-- A caller that knows of a next one is not the last one. -/
theorem exists_next (inv : Inv memory places) (queued : (places self).phase.queued = true)
    (reached : memory.serving ≤ (places self).ticket)
    (followed : (places self).phase.followed = true) :
    ∃ b, (places b).phase.queued = true ∧ (places b).ticket = (places self).ticket + 1 := by
  have more : (places self).ticket + 1 ≠ memory.tickets := fun final =>
    absurd (followed.symm.trans (inv.last self queued reached final).2.2) nofun
  have below := inv.below self queued
  exact inv.found _ (by omega)

/-- A caller that has the lock goes on. -/
theorem lead (inv : Inv memory places) (frame : Frame memory next self (places self))
    (lock : next.lock = memory.lock) (tickets : next.tickets = memory.tickets)
    (serving : next.serving = memory.serving) (obtained : next.obtained = memory.obtained)
    (before : (places self).phase.owning = true) (owning : phase.owning = true)
    (leads : Leads next ((places self).node self) phase)
    (first : ∀ b, (places b).phase.queued = true → (places b).ticket = (places self).ticket + 1 →
      Pair memory ((places self).node self) ((places b).node b) (places self).phase
          (places b).phase →
        Pair next ((places self).node self) ((places b).node b) phase (places b).phase)
    (last : (places self).ticket + 1 = memory.tickets → memory.next ((places self).node self) = none →
      (places self).phase.followed = false →
        memory.flag (.nextFlag ((places self).node self)) = .unset →
      next.next ((places self).node self) = none ∧
        next.flag (.nextFlag ((places self).node self)) = .unset ∧ phase.followed = false)
    (cleanNew : phase.transferring = true → Clean next ((places self).new_node self)) :
    Inv next (Function.update places self ((places self).moved phase)) := by
  obtain ⟨turn, -⟩ := inv.turn_of_owning before
  have queued := queued_of_owning before
  apply inv.quiet frame lock tickets serving queued
  · intro gone
    rw [gone] at before
    exact absurd before nofun
  · exact queued_of_owning owning
  · rintro rfl
    exact absurd owning nofun
  · intro later
    exact absurd turn later.ne'
  · exact fun _ => leads
  · intro b present follows
    exact first b present follows (inv.pairs self b queued present turn.ge follows)
  · intro a _ low follows
    omega
  · intro final
    obtain ⟨empty, unset, ends⟩ := inv.last self queued turn.ge final
    exact last final empty ends unset
  · exact cleanNew
  · intro pred notifies
    exact absurd notifies (not_notifies_of_owning owning)
  · rintro pred rfl
    exact absurd owning nofun
  · intro later
    exact absurd turn later.ne'
  · intro _
    rw [obtained, inv.order self queued turn, if_pos before, if_pos owning]

/-- A caller on its way to the lock goes on. -/
theorem approach (inv : Inv memory places) (frame : Frame memory next self (places self))
    (lock : next.lock = memory.lock) (tickets : next.tickets = memory.tickets)
    (serving : next.serving = memory.serving) (obtained : next.obtained = memory.obtained)
    (queued : (places self).phase.queued = true) (alive : (places self).phase ≠ .released)
    (before : (places self).phase.owning = false)
    (link : next.next ((places self).node self) = memory.next ((places self).node self))
    (nextFlag : next.flag (.nextFlag ((places self).node self)) =
      memory.flag (.nextFlag ((places self).node self)))
    (reaches : memory.serving < (places self).ticket ∧
        Waits next ((places self).node self) phase ∨
      (places self).ticket = memory.serving ∧ phase.owning = false ∧
        Leads next ((places self).node self) phase)
    (second : ∀ a, (places a).phase.queued = true → memory.serving ≤ (places a).ticket →
      (places self).ticket = (places a).ticket + 1 →
      Pair memory ((places a).node a) ((places self).node self) (places a).phase
          (places self).phase →
        Pair next ((places a).node a) ((places self).node self) (places a).phase phase)
    (behind : ∀ pred, Notifies pred phase → Notifies pred (places self).phase)
    (stale : ∀ pred, phase = .setting (.nextFlag pred) .wait →
      memory.serving ≤ (places pred.owner).ticket ∧ pred = (places pred.owner).node pred.owner ∨
        next.flag (.nextFlag pred) = .unset) :
    Inv next (Function.update places self ((places self).moved phase)) := by
  have early : phase.owning = false := by
    rcases reaches with ⟨-, waits⟩ | ⟨-, early, -⟩
    · exact waits.owning.1
    · exact early
  have plain : phase.plain = true := by
    rcases reaches with ⟨-, waits⟩ | ⟨-, early, leads⟩
    · exact waits.plain
    · exact leads.plain early
  have fixed : phase.queued = true ∧ phase ≠ .released ∧ phase.transferring = false ∧
      phase.followed = false := by
    rcases reaches with ⟨-, waits⟩ | ⟨-, early, leads⟩
    · cases waits <;> exact ⟨rfl, nofun, rfl, rfl⟩
    · cases leads <;> first | exact ⟨rfl, nofun, rfl, rfl⟩ | exact absurd early nofun
  obtain ⟨still, stays, remains, ends⟩ := fixed
  have reached : memory.serving ≤ (places self).ticket :=
    not_lt.mp fun low => alive ((inv.gone self queued).mp low)
  apply inv.quiet frame lock tickets serving queued alive still stays
  · intro later
    exact (reaches.resolve_right fun now => later.ne' now.1).2
  · intro now
    exact (reaches.resolve_left fun later => later.1.ne' now).2.2
  · intro b present follows
    have differ : b ≠ self := by
      rintro rfl
      exact absurd follows (Nat.succ_ne_self _).symm
    have awake : (places self).phase ≠ .blocked (.nextFlag ((places self).node self)) .pass := by
      intro blocked
      rw [blocked] at before
      exact absurd before nofun
    exact ((inv.pairs self b queued present reached follows).plain awake plain).congr link nextFlag
      (frame.ready _ differ)
  · intro a present low follows
    exact second a present low follows (inv.pairs a self present queued low follows)
  · intro final
    obtain ⟨empty, unset, -⟩ := inv.last self queued reached final
    exact ⟨link.trans empty, nextFlag.trans unset, ends⟩
  · intro moving
    exact absurd (moving.symm.trans remains) nofun
  · exact behind
  · exact stale
  · exact fun _ => obtained
  · intro now
    rw [obtained, inv.order self queued now, before, early]

/-- A caller gets the lock in its turn. -/
theorem take (inv : Inv memory places) (frame : Frame memory next self (places self))
    (lock : next.lock = memory.lock) (tickets : next.tickets = memory.tickets)
    (serving : next.serving = memory.serving)
    (obtained : next.obtained = memory.obtained ++ [(places self).ticket])
    (queued : (places self).phase.queued = true) (alive : (places self).phase ≠ .released)
    (before : (places self).phase.owning = false) (turn : (places self).ticket = memory.serving)
    (link : next.next ((places self).node self) = memory.next ((places self).node self))
    (nextFlag : next.flag (.nextFlag ((places self).node self)) =
      memory.flag (.nextFlag ((places self).node self))) :
    Inv next (Function.update places self ((places self).moved .holding)) := by
  have stays : (Phase.holding : Phase Caller) ≠ .released := nofun
  apply inv.quiet frame lock tickets serving queued alive rfl stays
  · intro later
    exact absurd turn later.ne'
  · exact fun _ => .holding
  · intro b present follows
    have differ : b ≠ self := by
      rintro rfl
      exact absurd follows (Nat.succ_ne_self _).symm
    have awake : (places self).phase ≠ .blocked (.nextFlag ((places self).node self)) .pass := by
      intro blocked
      rw [blocked] at before
      exact absurd before nofun
    exact ((inv.pairs self b queued present turn.ge follows).plain awake rfl).congr link nextFlag
      (frame.ready _ differ)
  · intro a _ low follows
    omega
  · intro final
    obtain ⟨empty, unset, -⟩ := inv.last self queued turn.ge final
    exact ⟨link.trans empty, nextFlag.trans unset, rfl⟩
  · exact nofun
  · exact nofun
  · exact nofun
  · intro later
    exact absurd turn later.ne'
  · intro _
    rw [obtained, inv.order self queued turn, before, turn]
    exact List.range_succ.symm

section Steps

variable {place : Place Caller}

/-- The link to the predecessor. -/
theorem step_linking (inv : Inv memory places) {pred : Node Caller}
    (here : (places self).phase = .linking pred) :
    Inv (memory.link pred (some ((places self).node self)))
      (Function.update places self ((places self).moved (.setting (.nextFlag pred) .wait))) := by
  have queued : (places self).phase.queued = true := by rw [here]; rfl
  have alive : (places self).phase ≠ .released := by rw [here]; exact nofun
  have notifies : Notifies pred (places self).phase := by rw [here]; exact .linking
  have differ := inv.behind_ne notifies
  obtain ⟨present, follows, -⟩ := inv.behind self pred notifies
  have waits : memory.serving < (places self).ticket ∧
      memory.flag (.readyFlag ((places self).node self)) = .unset := by
    rcases inv.role queued alive with ⟨later, waits⟩ | ⟨-, leads⟩
    · rw [here] at waits
      cases waits with
      | linking unset => exact ⟨later, unset⟩
    · rw [here] at leads
      exact absurd leads nofun
  have low : memory.serving ≤ (places pred.owner).ticket := by omega
  have target := (inv.pairs _ self present queued low follows.symm).target pred here
  have apart : (places self).node self ≠ pred := by
    rintro same
    rw [← same] at differ
    exact differ rfl
  apply inv.approach (.link notifies) rfl rfl rfl rfl queued alive (by rw [here]; rfl)
  · exact Memory.link_other apart
  · rfl
  · exact .inl ⟨waits.1, .setting waits.2⟩
  · intro a also _ after pair
    obtain rfl : a = pred.owner := inv.unique a _ also present (by omega)
    rw [here] at pair
    rw [← target] at pair ⊢
    exact pair.link (Memory.link_same) rfl rfl
  · intro other sets
    cases sets with
    | setting => exact notifies
  · intro other same
    obtain rfl := Flag.nextFlag.inj (Phase.setting.inj same).1
    exact .inl ⟨low, target⟩

/-- A notification that finds the flag unset, by a caller whose predecessor may be gone. -/
theorem step_notify (inv : Inv memory places) {pred : Node Caller}
    (here : (places self).phase = .setting (.nextFlag pred) .wait)
    (unset : memory.flag (.nextFlag pred) = .unset) :
    Inv (memory.write (.nextFlag pred) .set) (Function.update places self
      ((places self).moved (.testing (.readyFlag ((places self).node self)) .obtain))) := by
  have queued : (places self).phase.queued = true := by rw [here]; rfl
  have alive : (places self).phase ≠ .released := by rw [here]; exact nofun
  have notifies : Notifies pred (places self).phase := by rw [here]; exact .setting
  have differ := inv.behind_ne notifies
  have apart : Flag.nextFlag ((places self).node self) ≠ .nextFlag pred := by
    intro same
    rw [← Flag.nextFlag.inj same] at differ
    exact differ rfl
  have ready : ∀ node : Node Caller, (memory.write (.nextFlag pred) .set).flag (.readyFlag node) =
      memory.flag (.readyFlag node) := Memory.write_nextFlag pred
  apply inv.approach (.notify notifies differ) rfl rfl rfl rfl queued alive (by rw [here]; rfl) rfl
    (Memory.write_other apart)
  · rcases inv.role queued alive with ⟨later, waits⟩ | ⟨now, leads⟩
    · rw [here] at waits
      cases waits with
      | setting still => exact .inl ⟨later, .testing ((ready _).trans still)⟩
    · rw [here] at leads
      cases leads with
      | setting set => exact .inr ⟨now, rfl, .testing ((ready _).trans set)⟩
  · intro a _ _ _ pair
    rw [here] at pair
    by_cases live : (places a).node a = pred
    · rw [← live] at pair unset ready ⊢
      exact pair.notify unset nofun rfl Memory.write_same (ready _)
    · have other : ¬ Notifies ((places a).node a) (.setting (.nextFlag pred) .wait) := by
        intro same
        cases same
        exact live rfl
      have silent : ∀ pred, ¬ Notifies pred
          (.testing (.readyFlag ((places self).node self)) .obtain) := nofun
      refine (pair.approach other silent).congr rfl (Memory.write_other ?_) (ready _)
      exact fun same => live (Flag.nextFlag.inj same)
  · exact nofun
  · exact nofun

/-- A notification that finds an event. -/
theorem step_findEvent (inv : Inv memory places) {pred : Node Caller}
    (here : (places self).phase = .setting (.nextFlag pred) .wait)
    (event : memory.flag (.nextFlag pred) ≠ .unset) :
    Inv memory (Function.update places self
      ((places self).moved (.signalling (.nextFlag pred) .wait))) := by
  have queued : (places self).phase.queued = true := by rw [here]; rfl
  have alive : (places self).phase ≠ .released := by rw [here]; exact nofun
  have notifies : Notifies pred (places self).phase := by rw [here]; exact .setting
  obtain ⟨present, follows, -⟩ := inv.behind self pred notifies
  obtain ⟨low, live⟩ := (inv.stale self pred here).resolve_right event
  apply inv.approach .refl rfl rfl rfl rfl queued alive (by rw [here]; rfl) rfl rfl
  · rcases inv.role queued alive with ⟨later, waits⟩ | ⟨now, -⟩
    · rw [here] at waits
      cases waits with
      | setting still => exact .inl ⟨later, .signalling still⟩
    · omega
  · intro a also _ after pair
    obtain rfl : a = pred.owner := inv.unique a _ also present (by omega)
    rw [here] at pair
    rw [← live] at pair ⊢
    exact pair.findEvent event
  · intro other same
    cases same with
    | signalling => exact notifies
  · exact nofun

/-- A notification by an event. -/
theorem step_notifyEvent (inv : Inv memory places) {pred : Node Caller}
    (here : (places self).phase = .signalling (.nextFlag pred) .wait) :
    Inv (memory.SetEvent (.nextFlag pred)) (Function.update places self
      ((places self).moved (.testing (.readyFlag ((places self).node self)) .obtain))) := by
  have queued : (places self).phase.queued = true := by rw [here]; rfl
  have alive : (places self).phase ≠ .released := by rw [here]; exact nofun
  have notifies : Notifies pred (places self).phase := by rw [here]; exact .signalling
  have differ := inv.behind_ne notifies
  obtain ⟨present, follows, -⟩ := inv.behind self pred notifies
  have waits : memory.serving < (places self).ticket ∧
      memory.flag (.readyFlag ((places self).node self)) = .unset := by
    rcases inv.role queued alive with ⟨later, waits⟩ | ⟨-, leads⟩
    · rw [here] at waits
      cases waits with
      | signalling unset => exact ⟨later, unset⟩
    · rw [here] at leads
      exact absurd leads nofun
  have low : memory.serving ≤ (places pred.owner).ticket := by omega
  have pair := inv.pairs _ self present queued low follows.symm
  obtain ⟨live, -, event⟩ := pair.signalling pred here
  rw [← live] at event
  have signalled : memory.SetEvent (.nextFlag pred) =
      memory.write (.nextFlag pred) (.event true) := by
    unfold Memory.SetEvent
    rw [event]
  rw [signalled]
  have apart : Flag.nextFlag ((places self).node self) ≠ .nextFlag pred := by
    intro same
    rw [← Flag.nextFlag.inj same] at differ
    exact differ rfl
  have ready : (memory.write (.nextFlag pred) (.event true)).flag
      (.readyFlag ((places self).node self)) =
        memory.flag (.readyFlag ((places self).node self)) := Memory.write_nextFlag _ _
  apply inv.approach (.notify notifies differ) rfl rfl rfl rfl queued alive (by rw [here]; rfl) rfl
    (Memory.write_other apart)
  · exact .inl ⟨waits.1, .testing (ready.trans waits.2)⟩
  · intro a also _ after pair
    obtain rfl : a = pred.owner := inv.unique a _ also present (by omega)
    rw [here] at pair
    rw [← live]
    rw [← live] at pair
    exact pair.notifyEvent nofun rfl Memory.write_same ready
  · exact nofun
  · exact nofun

/-- The caller with the lock writes the flag that the next caller waits for. -/
theorem hand_over (inv : Inv memory places) {b : Caller} {word : Word}
    (owning : (places self).phase.owning = true)
    (awake : (places self).phase ≠ .blocked (.nextFlag ((places self).node self)) .pass)
    (present : (places b).phase.queued = true)
    (follows : (places b).ticket = (places self).ticket + 1)
    (leads : Leads (memory.write (.readyFlag ((places b).node b)) word) ((places b).node b)
      (places b).phase) :
    Inv (memory.write (.readyFlag ((places b).node b)) word).serve
      (Function.update places self ((places self).moved .released)) := by
  obtain ⟨turn, -⟩ := inv.turn_of_owning owning
  have below := inv.below b present
  have elsewhere : ∀ node : Node Caller, node.owner ≠ b →
      (memory.write (.readyFlag ((places b).node b)) word).flag (.readyFlag node) =
        memory.flag (.readyFlag node) := by
    intro node differ
    refine Memory.write_other fun same => differ ?_
    rw [Flag.readyFlag.inj same]
    rfl
  have nextFlag : ∀ node : Node Caller,
      (memory.write (.readyFlag ((places b).node b)) word).flag (.nextFlag node) =
        memory.flag (.nextFlag node) := Memory.write_readyFlag _
  refine inv.leave (queued_of_owning owning) turn owning awake rfl rfl rfl rfl nextFlag ?_ ?_ ?_ ?_
  · rintro a also other node rfl
    refine elsewhere node ?_
    rintro rfl
    exact other (by omega)
  · rintro a absent node rfl
    refine elsewhere node ?_
    rintro rfl
    exact absurd (absent.symm.trans present) nofun
  · exact .inr ⟨by omega, rfl⟩
  · intro c also second
    obtain rfl := inv.unique b c present also (by omega)
    exact leads.congr rfl

/-- The caller with the lock passes it on, and the next caller has not stored an event. -/
theorem step_pass (inv : Inv memory places) {link : Node Caller}
    (here : (places self).phase = .setting (.readyFlag link) .finish)
    (unset : memory.flag (.readyFlag link) = .unset) :
    Inv (memory.write (.readyFlag link) .set).serve
      (Function.update places self ((places self).moved .released)) := by
  have owning : (places self).phase.owning = true := by rw [here]; rfl
  have queued := queued_of_owning owning
  obtain ⟨turn, -⟩ := inv.turn_of_owning owning
  obtain ⟨b, present, follows⟩ := inv.exists_next queued turn.ge (by rw [here]; rfl)
  have pair := inv.pairs self b queued present turn.ge follows
  obtain ⟨rfl, linked⟩ := pair.passing link here
  apply inv.hand_over owning (by rw [here]; exact nofun) present follows
  have waits := inv.waits b present (by omega)
  have set : (memory.write (.readyFlag ((places b).node b)) .set).flag
      (.readyFlag ((places b).node b)) = .set := Memory.write_same
  generalize position : (places b).phase = phase at waits
  cases waits with
  | linking _ =>
      obtain rfl := pair.target _ position
      exact absurd (pair.unlinked.mp position) linked
  | setting _ => exact .setting set
  | signalling _ =>
      obtain ⟨-, blocked, -⟩ := pair.signalling _ position
      rw [here] at blocked
      exact absurd blocked nofun
  | testing _ => exact .testing set
  | storing _ => exact .storing set
  | blocked event =>
      rw [unset] at event
      exact absurd event nofun

/-- The caller with the lock finds the event of the next one. -/
theorem step_findWaiter (inv : Inv memory places) {link : Node Caller}
    (here : (places self).phase = .setting (.readyFlag link) .finish)
    (event : memory.flag (.readyFlag link) ≠ .unset) :
    Inv memory (Function.update places self
      ((places self).moved (.signalling (.readyFlag link) .finish))) := by
  have owning : (places self).phase.owning = true := by rw [here]; rfl
  have queued := queued_of_owning owning
  obtain ⟨turn, -⟩ := inv.turn_of_owning owning
  apply inv.lead .refl rfl rfl rfl rfl owning rfl .waking
  · intro b present follows pair
    rw [here] at pair
    obtain ⟨rfl, -⟩ := pair.passing link rfl
    apply pair.signal
    have waits := inv.waits b present (by omega)
    generalize (places b).phase = phase at waits
    cases waits with
    | blocked found => exact found
    | _ unset => exact absurd unset event
  · intro _ _ ends _
    rw [here] at ends
    exact absurd ends nofun
  · exact nofun

/-- The caller with the lock wakes the next one. -/
theorem step_wake (inv : Inv memory places) {link : Node Caller}
    (here : (places self).phase = .signalling (.readyFlag link) .finish) :
    Inv (memory.SetEvent (.readyFlag link)).serve
      (Function.update places self ((places self).moved .released)) := by
  have owning : (places self).phase.owning = true := by rw [here]; rfl
  have queued := queued_of_owning owning
  obtain ⟨turn, -⟩ := inv.turn_of_owning owning
  obtain ⟨b, present, follows⟩ := inv.exists_next queued turn.ge (by rw [here]; rfl)
  have pair := inv.pairs self b queued present turn.ge follows
  obtain ⟨rfl, event⟩ := pair.waking link here
  have signalled : memory.SetEvent (.readyFlag ((places b).node b)) =
      memory.write (.readyFlag ((places b).node b)) (.event true) := by
    unfold Memory.SetEvent
    rw [event]
  rw [signalled]
  apply inv.hand_over owning (by rw [here]; exact nofun) present follows
  have waits := inv.waits b present (by omega)
  generalize (places b).phase = phase at waits
  cases waits with
  | blocked _ => exact .blocked Memory.write_same
  | _ unset =>
      rw [unset] at event
      exact absurd event nofun

end Steps

end Inv

end McsLock

end CodeCollect.Pthreads
