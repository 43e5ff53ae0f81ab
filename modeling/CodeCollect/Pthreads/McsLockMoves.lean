import CodeCollect.Pthreads.McsLockLine

namespace CodeCollect.Pthreads

open CodeCollect.Library Program

namespace McsLock

variable {Caller : Type} {memory next : Memory Caller} {places : Caller → Place Caller}
  {self : Caller} {phase : Phase Caller}

section Frames

theorem keep_update [DecidableEq Caller] {β : Type*} (places : Caller → Place Caller)
    (self : Caller) (place : Place Caller) (part : Place Caller → β)
    (same : part place = part (places self)) (a : Caller) :
    part (Function.update places self place a) = part (places a) := by
  by_cases here : a = self
  · subst here
    rwa [Function.update_self]
  · rw [Function.update_of_ne here]

/-- A caller writes only to its own nodes and to the one that it still has to notify. -/
structure Frame (memory next : Memory Caller) (writer : Caller) (place : Place Caller) :
    Prop where
  ready : ∀ node, node.owner ≠ writer → next.flag (.readyFlag node) = memory.flag (.readyFlag node)
  others : ∀ node, node.owner ≠ writer → ¬ Notifies node place.phase →
    next.next node = memory.next node ∧ next.flag (.nextFlag node) = memory.flag (.nextFlag node)
  old : ∀ node, node.owner = writer → node.generation < place.generation →
    next.flag (.nextFlag node) = memory.flag (.nextFlag node)

variable {place : Place Caller}

theorem Frame.refl : Frame memory memory self place :=
  ⟨fun _ _ => rfl, fun _ _ _ => ⟨rfl, rfl⟩, fun _ _ _ => rfl⟩

variable [DecidableEq Caller]

/-- A caller writes to a flag of its node. -/
theorem Frame.own {flag : Flag Caller} {word : Word}
    (mine : flag = .nextFlag (place.node self) ∨ flag = .readyFlag (place.node self)) :
    Frame memory (memory.write flag word) self place := by
  have readyFlag : ∀ node : Node Caller, node.owner ≠ self → Flag.readyFlag node ≠ flag := by
    rintro node differ rfl
    rcases mine with same | same
    · exact absurd same nofun
    · rw [Flag.readyFlag.inj same] at differ
      exact differ rfl
  have nextFlag : ∀ node : Node Caller, node ≠ place.node self → Flag.nextFlag node ≠ flag := by
    rintro node differ rfl
    rcases mine with same | same
    · exact differ (Flag.nextFlag.inj same)
    · exact absurd same nofun
  constructor
  · intro node differ
    exact Memory.write_other (readyFlag node differ)
  · intro node differ _
    refine ⟨rfl, Memory.write_other (nextFlag node ?_)⟩
    rintro rfl
    exact differ rfl
  · intro node same older
    refine Memory.write_other (nextFlag node ?_)
    rintro rfl
    exact lt_irrefl _ older

/-- A caller writes to the flag of the node that it notifies. -/
theorem Frame.notify {pred : Node Caller} {word : Word} (notifies : Notifies pred place.phase)
    (differ : pred.owner ≠ self) :
    Frame memory (memory.write (.nextFlag pred) word) self place := by
  constructor
  · intro node _
    exact Memory.write_nextFlag _ _
  · intro node _ other
    refine ⟨rfl, Memory.write_other ?_⟩
    intro same
    obtain rfl := Flag.nextFlag.inj same
    exact other notifies
  · intro node same _
    refine Memory.write_other ?_
    intro also
    obtain rfl := Flag.nextFlag.inj also
    exact differ same

/-- A caller links its node behind the one that it notifies. -/
theorem Frame.link {pred : Node Caller} {link : Option (Node Caller)}
    (notifies : Notifies pred place.phase) : Frame memory (memory.link pred link) self place := by
  refine ⟨fun _ _ => rfl, ?_, fun _ _ _ => rfl⟩
  intro node _ other
  refine ⟨Memory.link_other ?_, rfl⟩
  rintro rfl
  exact other notifies

/-- A new node is a node of the caller. -/
theorem Frame.initialise {node : Node Caller} (mine : node.owner = self)
    (young : place.generation ≤ node.generation) :
    Frame memory (memory.initialise node) self place := by
  have nextFlag : ∀ m : Node Caller, m ≠ node →
      (memory.initialise node).flag (.nextFlag m) = memory.flag (.nextFlag m) := fun m differ =>
    Memory.initialise_other (fun same => differ (Flag.nextFlag.inj same)) nofun
  constructor
  · intro m differ
    refine Memory.initialise_other nofun fun same => differ ?_
    rw [Flag.readyFlag.inj same, mine]
  · intro m differ _
    have apart : m ≠ node := by
      rintro rfl
      exact differ mine
    exact ⟨Function.update_of_ne apart _ _, nextFlag m apart⟩
  · intro m _ older
    refine nextFlag m ?_
    rintro rfl
    exact young.not_gt older

theorem clean_initialise (node : Node Caller) : Clean (memory.initialise node) node :=
  ⟨Function.update_self _ _ _, Memory.initialise_nextFlag, Memory.initialise_readyFlag⟩

end Frames

namespace Inv

/-- A caller does not notify a node of itself. -/
theorem behind_ne (inv : Inv memory places) {pred : Node Caller}
    (notifies : Notifies pred (places self).phase) : pred.owner ≠ self := by
  intro same
  obtain ⟨-, follows, -⟩ := inv.behind self pred notifies
  rw [same] at follows
  exact absurd follows (Nat.succ_ne_self _)

theorem queued_of_notifies {pred : Node Caller} (notifies : Notifies pred phase) :
    phase.queued = true := by
  cases notifies <;> rfl

/-- Two callers do not notify nodes of one owner. -/
theorem notifier_unique (inv : Inv memory places) {a b : Caller} {first second : Node Caller}
    (one : Notifies first (places a).phase) (other : Notifies second (places b).phase)
    (owner : first.owner = second.owner) : a = b := by
  obtain ⟨-, follows, -⟩ := inv.behind a first one
  obtain ⟨-, also, -⟩ := inv.behind b second other
  apply inv.unique a b (queued_of_notifies one) (queued_of_notifies other)
  rw [← follows, ← also, owner]

variable [DecidableEq Caller]

/-- A move within the line that hands nothing over. -/
theorem quiet (inv : Inv memory places) (frame : Frame memory next self (places self))
    (lock : next.lock = memory.lock) (tickets : next.tickets = memory.tickets)
    (serving : next.serving = memory.serving)
    (queued : (places self).phase.queued = true) (alive : (places self).phase ≠ .released)
    (still : phase.queued = true) (stays : phase ≠ .released)
    (waits : memory.serving < (places self).ticket → Waits next ((places self).node self) phase)
    (leads : (places self).ticket = memory.serving → Leads next ((places self).node self) phase)
    (first : ∀ b, (places b).phase.queued = true →
      (places b).ticket = (places self).ticket + 1 →
        Pair next ((places self).node self) ((places b).node b) phase (places b).phase)
    (second : ∀ a, (places a).phase.queued = true → memory.serving ≤ (places a).ticket →
      (places self).ticket = (places a).ticket + 1 →
        Pair next ((places a).node a) ((places self).node self) (places a).phase phase)
    (last : (places self).ticket + 1 = memory.tickets →
      next.next ((places self).node self) = none ∧
        next.flag (.nextFlag ((places self).node self)) = .unset ∧ phase.followed = false)
    (cleanNew : phase.transferring = true → Clean next ((places self).new_node self))
    (behind : ∀ pred, Notifies pred phase → Notifies pred (places self).phase)
    (stale : ∀ pred, phase = .setting (.nextFlag pred) .wait →
      memory.serving ≤ (places pred.owner).ticket ∧ pred = (places pred.owner).node pred.owner ∨
        next.flag (.nextFlag pred) = .unset)
    (kept : memory.serving < (places self).ticket → next.obtained = memory.obtained)
    (turn : (places self).ticket = memory.serving → next.obtained =
      List.range (if phase.owning then memory.serving + 1 else memory.serving)) :
    Inv next (Function.update places self ((places self).moved phase)) := by
  have reached : memory.serving ≤ (places self).ticket :=
    not_lt.mp fun low => alive ((inv.gone self queued).mp low)
  have inLine : (places self).ticket < memory.tickets := inv.below self queued
  have ticket := keep_update places self ((places self).moved phase) Place.ticket rfl
  have generation := keep_update places self ((places self).moved phase) Place.generation rfl
  have node := fun a => keep_update places self ((places self).moved phase) (Place.node a) rfl a
  have fresh := fun a =>
    keep_update places self ((places self).moved phase) (Place.new_node a) rfl a
  have stand := keep_update places self ((places self).moved phase)
    (fun place => place.phase.queued) (still.trans queued.symm)
  have link : ∀ a, a ≠ self → (places a).ticket + 1 ≠ (places self).ticket →
      next.next ((places a).node a) = memory.next ((places a).node a) ∧
        next.flag (.nextFlag ((places a).node a)) = memory.flag (.nextFlag ((places a).node a)) :=
    fun a differ apart =>
      frame.others _ differ fun notifies => apart (inv.behind self _ notifies).2.1
  constructor
  · rw [serving, tickets]
    exact inv.ahead
  · intro a
    rw [stand, ticket, tickets]
    exact inv.below a
  · intro a b
    rw [stand, stand, ticket, ticket]
    exact inv.unique a b
  · intro number low
    obtain ⟨a, found, same⟩ := inv.found number (tickets ▸ low)
    exact ⟨a, (stand a).trans found, (ticket a).trans same⟩
  · intro a present
    rw [ticket, serving]
    by_cases here : a = self
    · subst here
      rw [Function.update_self]
      exact iff_of_false reached.not_gt stays
    · rw [Function.update_of_ne here]
      exact inv.gone a (stand a ▸ present)
  · rw [lock, serving, tickets]
    exact inv.free
  · intro a present
    rw [lock, node, serving, ticket, tickets]
    exact inv.tail a (stand a ▸ present)
  · intro a present later
    rw [serving, ticket] at later
    rw [node]
    by_cases here : a = self
    · subst here
      rw [Function.update_self]
      exact waits later
    · rw [Function.update_of_ne here]
      exact (inv.waits a (stand a ▸ present) later).congr (frame.ready _ here)
  · intro a present now
    rw [serving, ticket] at now
    rw [node]
    by_cases here : a = self
    · subst here
      rw [Function.update_self]
      exact leads now
    · rw [Function.update_of_ne here]
      exact (inv.leads a (stand a ▸ present) now).congr (frame.ready _ here)
  · intro a b present follower low follows
    rw [serving, ticket] at low
    rw [ticket, ticket] at follows
    rw [stand] at present follower
    rw [node, node]
    by_cases here : a = self
    · subst here
      have differ : b ≠ a := by
        rintro rfl
        exact absurd follows (Nat.succ_ne_self _).symm
      rw [Function.update_self, Function.update_of_ne differ]
      exact first b follower follows
    · by_cases there : b = self
      · subst there
        rw [Function.update_self, Function.update_of_ne here]
        exact second a present low follows
      · rw [Function.update_of_ne here, Function.update_of_ne there]
        have apart : (places a).ticket + 1 ≠ (places self).ticket := fun same =>
          there (inv.unique b self follower queued (follows.trans same))
        obtain ⟨same, flag⟩ := link a here apart
        exact (inv.pairs a b present follower low follows).congr same flag (frame.ready _ there)
  · intro a present low final
    rw [serving, ticket] at low
    rw [ticket, tickets] at final
    rw [stand] at present
    rw [node]
    by_cases here : a = self
    · subst here
      rw [Function.update_self]
      exact last final
    · rw [Function.update_of_ne here]
      obtain ⟨same, flag⟩ := link a here (by omega)
      rw [same, flag]
      exact inv.last a present low final
  · intro a begins
    rw [node]
    by_cases here : a = self
    · subst here
      rw [Function.update_self] at begins
      rcases begins with same | same <;>
      · change phase = _ at same
        rw [same] at still
        exact absurd still nofun
    · rw [Function.update_of_ne here] at begins
      have outside : (places a).phase.queued = false := by
        rcases begins with same | same <;> rw [same] <;> rfl
      have apart : ¬ Notifies ((places a).node a) (places self).phase := by
        intro notifies
        have present := (inv.behind self _ notifies).1
        change (places a).phase.queued = true at present
        rw [outside] at present
        exact absurd present nofun
      obtain ⟨same, flag⟩ := frame.others _ here apart
      exact (inv.clean a begins).congr same flag (frame.ready _ here)
  · intro a moving
    rw [fresh]
    by_cases here : a = self
    · subst here
      rw [Function.update_self] at moving
      exact cleanNew moving
    · rw [Function.update_of_ne here] at moving
      have apart : ¬ Notifies ((places a).new_node a) (places self).phase := fun notifies =>
        (Nat.lt_irrefl _) (inv.behind self _ notifies).2.2
      obtain ⟨same, flag⟩ := frame.others _ here apart
      exact (inv.cleanNew a moving).congr same flag (frame.ready _ here)
  · intro a pred notifies
    rw [stand, ticket, ticket, generation]
    apply inv.behind a pred
    by_cases here : a = self
    · subst here
      rw [Function.update_self] at notifies
      exact behind pred notifies
    · rwa [Function.update_of_ne here] at notifies
  · intro a pred sets
    rw [serving, ticket, node]
    by_cases here : a = self
    · subst here
      rw [Function.update_self] at sets
      exact stale pred sets
    · rw [Function.update_of_ne here] at sets
      have notifies : Notifies pred (places a).phase := by
        rw [sets]
        exact .setting
      rcases inv.stale a pred sets with live | unset
      · exact .inl live
      · obtain ⟨-, follows, older⟩ := inv.behind a pred notifies
        by_cases mine : pred.owner = self
        · rcases older.lt_or_eq with less | equal
          · exact .inr ((frame.old pred mine (mine ▸ less)).trans unset)
          · left
            rw [mine] at equal ⊢
            exact ⟨reached, by rw [Place.node, ← equal, ← mine]⟩
        · refine .inr ((frame.others pred mine fun also => ?_).2.trans unset)
          exact here (inv.notifier_unique notifies also rfl)
  · intro a present now
    rw [serving, ticket] at now
    rw [stand] at present
    by_cases here : a = self
    · subst here
      rw [Function.update_self, serving]
      exact turn now
    · rw [Function.update_of_ne here, serving]
      have later : memory.serving < (places self).ticket := by
        refine lt_of_le_of_ne reached fun same => here ?_
        exact inv.unique a self present queued (now.trans same)
      rw [kept later]
      exact inv.order a present now
  · intro all
    rw [serving, tickets] at all
    omega

/-- A move outside of the line. -/
theorem aside (inv : Inv memory places)
    (link : ∀ node, node.owner ≠ self → next.next node = memory.next node)
    (flags : ∀ node, node.owner ≠ self →
      next.flag (.nextFlag node) = memory.flag (.nextFlag node) ∧
        next.flag (.readyFlag node) = memory.flag (.readyFlag node))
    (lock : next.lock = memory.lock) (tickets : next.tickets = memory.tickets)
    (serving : next.serving = memory.serving) (obtained : next.obtained = memory.obtained)
    (absent : (places self).phase.queued = false) (away : phase.queued = false)
    (clean : phase = .queueing ∨ phase = .trying → Clean next ((places self).node self)) :
    Inv next (Function.update places self ((places self).moved phase)) := by
  have stand : ∀ a, (Function.update places self ((places self).moved phase) a).phase.queued =
      true → a ≠ self ∧ (places a).phase.queued = true := by
    intro a present
    by_cases here : a = self
    · subst here
      rw [Function.update_self] at present
      exact absurd (present.symm.trans away) nofun
    · rw [Function.update_of_ne here] at present
      exact ⟨here, present⟩
  have node := fun a => keep_update places self ((places self).moved phase) (Place.node a) rfl a
  have fresh := fun a =>
    keep_update places self ((places self).moved phase) (Place.new_node a) rfl a
  have unmoved : ∀ a, (places a).phase.queued = true → a ≠ self := by
    rintro a present rfl
    exact absurd (present.symm.trans absent) nofun
  have idle : ∀ pred, ¬ Notifies pred phase := by
    intro pred notifies
    exact absurd ((queued_of_notifies notifies).symm.trans away) nofun
  constructor
  · rw [serving, tickets]
    exact inv.ahead
  · intro a present
    obtain ⟨here, present⟩ := stand a present
    rw [Function.update_of_ne here, tickets]
    exact inv.below a present
  · intro a b present also
    obtain ⟨here, present⟩ := stand a present
    obtain ⟨there, also⟩ := stand b also
    rw [Function.update_of_ne here, Function.update_of_ne there]
    exact inv.unique a b present also
  · intro number low
    obtain ⟨a, found, same⟩ := inv.found number (tickets ▸ low)
    refine ⟨a, ?_⟩
    rw [Function.update_of_ne (unmoved a found)]
    exact ⟨found, same⟩
  · intro a present
    obtain ⟨here, present⟩ := stand a present
    rw [Function.update_of_ne here, serving]
    exact inv.gone a present
  · rw [lock, serving, tickets]
    exact inv.free
  · intro a present
    obtain ⟨here, present⟩ := stand a present
    rw [Function.update_of_ne here, lock, serving, tickets]
    exact inv.tail a present
  · intro a present
    obtain ⟨here, present⟩ := stand a present
    rw [Function.update_of_ne here, serving]
    intro later
    exact (inv.waits a present later).congr (flags _ here).2
  · intro a present
    obtain ⟨here, present⟩ := stand a present
    rw [Function.update_of_ne here, serving]
    intro now
    exact (inv.leads a present now).congr (flags _ here).2
  · intro a b present also
    obtain ⟨here, present⟩ := stand a present
    obtain ⟨there, also⟩ := stand b also
    rw [Function.update_of_ne here, Function.update_of_ne there, serving]
    intro low follows
    exact (inv.pairs a b present also low follows).congr (link _ here) (flags _ here).1
      (flags _ there).2
  · intro a present
    obtain ⟨here, present⟩ := stand a present
    rw [Function.update_of_ne here, serving, tickets, link _ here, (flags _ here).1]
    exact inv.last a present
  · intro a begins
    rw [node]
    by_cases here : a = self
    · subst here
      rw [Function.update_self] at begins
      exact clean begins
    · rw [Function.update_of_ne here] at begins
      exact (inv.clean a begins).congr (link _ here) (flags _ here).1 (flags _ here).2
  · intro a moving
    rw [fresh]
    by_cases here : a = self
    · subst here
      rw [Function.update_self] at moving
      have still : phase.queued = true := by
        change phase.transferring = true at moving
        cases phase <;> first | rfl | exact absurd moving nofun
      exact absurd (still.symm.trans away) nofun
    · rw [Function.update_of_ne here] at moving
      exact (inv.cleanNew a moving).congr (link _ here) (flags _ here).1 (flags _ here).2
  · intro a pred notifies
    by_cases here : a = self
    · subst here
      rw [Function.update_self] at notifies
      exact absurd notifies (idle pred)
    · rw [Function.update_of_ne here] at notifies ⊢
      have behind := inv.behind a pred notifies
      rwa [Function.update_of_ne (unmoved _ behind.1)]
  · intro a pred sets
    by_cases here : a = self
    · subst here
      rw [Function.update_self] at sets
      change phase = _ at sets
      exact absurd (sets ▸ .setting) (idle pred)
    · rw [Function.update_of_ne here] at sets
      have notifies : Notifies pred (places a).phase := by
        rw [sets]
        exact .setting
      have apart := unmoved _ (inv.behind a pred notifies).1
      rw [Function.update_of_ne apart, serving, (flags _ apart).1]
      exact inv.stale a pred sets
  · intro a present
    obtain ⟨here, present⟩ := stand a present
    rw [Function.update_of_ne here, serving, obtained]
    exact inv.order a present
  · rw [serving, tickets, obtained]
    exact inv.idle

end Inv

end McsLock

end CodeCollect.Pthreads
