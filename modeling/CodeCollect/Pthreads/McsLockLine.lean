import CodeCollect.Pthreads.McsLock

namespace CodeCollect.Pthreads

open CodeCollect.Library Program

namespace McsLock

section Phases

variable {Caller : Type}

/-- In these phases a caller has not exchanged the lock word. -/
def Phase.queued : Phase Caller → Bool
  | .outside | .queueing | .trying | .refused => false
  | _ => true

/-- In these phases a caller has the lock or is about to give it up. -/
def Phase.owning : Phase Caller → Bool
  | .holding | .releasing | .freeing | .rereading | .moving | .spinning | .copying => true
  | .testing _ .pass | .storing _ .pass | .blocked _ .pass => true
  | .setting _ .finish | .signalling _ .finish => true
  | _ => false

/-- In these phases a caller knows that there is a caller behind it. -/
def Phase.followed : Phase Caller → Bool
  | .rereading | .spinning | .copying => true
  | .testing _ .pass | .storing _ .pass | .blocked _ .pass => true
  | .setting _ .finish | .signalling _ .finish => true
  | _ => false

/-- In these phases a transfer is on its way. -/
def Phase.transferring : Phase Caller → Bool
  | .moving | .spinning | .copying => true
  | _ => false

/-- This caller will still write to the node of its predecessor. -/
inductive Notifies (pred : Node Caller) : Phase Caller → Prop
  | linking : Notifies pred (.linking pred)
  | setting : Notifies pred (.setting (.nextFlag pred) .wait)
  | signalling : Notifies pred (.signalling (.nextFlag pred) .wait)

/-- This caller has seen that the lock word is not its node, and it waits for its successor. -/
inductive Asks (node : Node Caller) : Phase Caller → Prop
  | freeing : Asks node .freeing
  | testing : Asks node (.testing (.nextFlag node) .pass)
  | storing : Asks node (.storing (.nextFlag node) .pass)

/-- A caller that waits for the lock, and the flag of its node. -/
inductive Waits (memory : Memory Caller) (node : Node Caller) : Phase Caller → Prop
  | linking {pred} : memory.flag (.readyFlag node) = .unset → Waits memory node (.linking pred)
  | setting {pred} : memory.flag (.readyFlag node) = .unset →
      Waits memory node (.setting (.nextFlag pred) .wait)
  | signalling {pred} : memory.flag (.readyFlag node) = .unset →
      Waits memory node (.signalling (.nextFlag pred) .wait)
  | testing : memory.flag (.readyFlag node) = .unset →
      Waits memory node (.testing (.readyFlag node) .obtain)
  | storing : memory.flag (.readyFlag node) = .unset →
      Waits memory node (.storing (.readyFlag node) .obtain)
  | blocked : memory.flag (.readyFlag node) = .event false →
      Waits memory node (.blocked (.readyFlag node) .obtain)

/-- A caller whose turn it is. -/
inductive Leads (memory : Memory Caller) (node : Node Caller) : Phase Caller → Prop
  | setting {pred} : memory.flag (.readyFlag node) = .set →
      Leads memory node (.setting (.nextFlag pred) .wait)
  | testing : memory.flag (.readyFlag node) = .set →
      Leads memory node (.testing (.readyFlag node) .obtain)
  | storing : memory.flag (.readyFlag node) = .set →
      Leads memory node (.storing (.readyFlag node) .obtain)
  | blocked : memory.flag (.readyFlag node) = .event true →
      Leads memory node (.blocked (.readyFlag node) .obtain)
  | holding : Leads memory node .holding
  | releasing : Leads memory node .releasing
  | freeing : Leads memory node .freeing
  | testingNext : Leads memory node (.testing (.nextFlag node) .pass)
  | storingNext : Leads memory node (.storing (.nextFlag node) .pass)
  | blockedNext : Leads memory node (.blocked (.nextFlag node) .pass)
  | rereading : Leads memory node .rereading
  | passing {next} : Leads memory node (.setting (.readyFlag next) .finish)
  | waking {next} : Leads memory node (.signalling (.readyFlag next) .finish)
  | moving : Leads memory node .moving
  | spinning : Leads memory node .spinning
  | copying : Leads memory node .copying

/-- Two callers that are next to each other in the line. -/
structure Pair (memory : Memory Caller) (first second : Node Caller) (before after : Phase Caller) :
    Prop where
  target : ∀ pred, after = .linking pred → pred = first
  unlinked : after = .linking first ↔ memory.next first = none
  linked : ∀ next, memory.next first = some next → next = second
  pending : after = .linking first ∨ after = .setting (.nextFlag first) .wait →
    before ≠ .rereading ∧
      (before = .blocked (.nextFlag first) .pass → memory.flag (.nextFlag first) = .event false) ∧
      (before ≠ .blocked (.nextFlag first) .pass → memory.flag (.nextFlag first) = .unset)
  signalling : ∀ pred, after = .signalling (.nextFlag pred) .wait → pred = first ∧
    before = .blocked (.nextFlag first) .pass ∧ memory.flag (.nextFlag first) = .event false
  notified : ¬ Notifies first after →
    (Asks first before → memory.flag (.nextFlag first) = .set) ∧
      (before = .blocked (.nextFlag first) .pass → memory.flag (.nextFlag first) = .event true)
  passing : ∀ next, before = .setting (.readyFlag next) .finish →
    next = second ∧ memory.next first ≠ none
  waking : ∀ next, before = .signalling (.readyFlag next) .finish →
    next = second ∧ memory.flag (.readyFlag second) = .event false
  copying : before = .copying → memory.next first ≠ none

/-- All fields of a node are 0. -/
structure Clean (memory : Memory Caller) (node : Node Caller) : Prop where
  next : memory.next node = none
  nextFlag : memory.flag (.nextFlag node) = .unset
  readyFlag : memory.flag (.readyFlag node) = .unset

end Phases

variable {Caller : Type}

/-- The callers that have exchanged the lock word stand in a line, in the order of their tickets. -/
structure Inv (memory : Memory Caller) (places : Caller → Place Caller) : Prop where
  ahead : memory.serving ≤ memory.tickets
  below : ∀ a, (places a).phase.queued = true → (places a).ticket < memory.tickets
  unique : ∀ a b, (places a).phase.queued = true → (places b).phase.queued = true →
    (places a).ticket = (places b).ticket → a = b
  found : ∀ ticket < memory.tickets, ∃ a, (places a).phase.queued = true ∧
    (places a).ticket = ticket
  gone : ∀ a, (places a).phase.queued = true →
    ((places a).ticket < memory.serving ↔ (places a).phase = .released)
  free : memory.lock = none ↔ memory.serving = memory.tickets
  tail : ∀ a, (places a).phase.queued = true → (memory.lock = some ((places a).node a) ↔
    memory.serving ≤ (places a).ticket ∧ (places a).ticket + 1 = memory.tickets)
  waits : ∀ a, (places a).phase.queued = true → memory.serving < (places a).ticket →
    Waits memory ((places a).node a) (places a).phase
  leads : ∀ a, (places a).phase.queued = true → (places a).ticket = memory.serving →
    Leads memory ((places a).node a) (places a).phase
  pairs : ∀ a b, (places a).phase.queued = true → (places b).phase.queued = true →
    memory.serving ≤ (places a).ticket → (places b).ticket = (places a).ticket + 1 →
      Pair memory ((places a).node a) ((places b).node b) (places a).phase (places b).phase
  last : ∀ a, (places a).phase.queued = true → memory.serving ≤ (places a).ticket →
    (places a).ticket + 1 = memory.tickets → memory.next ((places a).node a) = none ∧
      memory.flag (.nextFlag ((places a).node a)) = .unset ∧ (places a).phase.followed = false
  clean : ∀ a, (places a).phase = .queueing ∨ (places a).phase = .trying →
    Clean memory ((places a).node a)
  cleanNew : ∀ a, (places a).phase.transferring = true → Clean memory ((places a).new_node a)
  behind : ∀ a pred, Notifies pred (places a).phase → (places pred.owner).phase.queued = true ∧
    (places pred.owner).ticket + 1 = (places a).ticket ∧
      pred.generation ≤ (places pred.owner).generation
  stale : ∀ a pred, (places a).phase = .setting (.nextFlag pred) .wait →
    memory.serving ≤ (places pred.owner).ticket ∧ pred = (places pred.owner).node pred.owner ∨
      memory.flag (.nextFlag pred) = .unset
  order : ∀ a, (places a).phase.queued = true → (places a).ticket = memory.serving →
    memory.obtained =
      List.range (if (places a).phase.owning then memory.serving + 1 else memory.serving)
  idle : memory.serving = memory.tickets → memory.obtained = List.range memory.serving

section Pairs

variable {memory next : Memory Caller} {phase before after : Phase Caller}
  {first second : Node Caller}

theorem Clean.congr {node : Node Caller} (clean : Clean memory node)
    (link : next.next node = memory.next node)
    (nextFlag : next.flag (.nextFlag node) = memory.flag (.nextFlag node))
    (readyFlag : next.flag (.readyFlag node) = memory.flag (.readyFlag node)) : Clean next node :=
  ⟨link.trans clean.next, nextFlag.trans clean.nextFlag, readyFlag.trans clean.readyFlag⟩

theorem Waits.congr {node : Node Caller} (waits : Waits memory node phase)
    (same : next.flag (.readyFlag node) = memory.flag (.readyFlag node)) : Waits next node phase := by
  cases waits with
  | linking unset => exact .linking (same.trans unset)
  | setting unset => exact .setting (same.trans unset)
  | signalling unset => exact .signalling (same.trans unset)
  | testing unset => exact .testing (same.trans unset)
  | storing unset => exact .storing (same.trans unset)
  | blocked event => exact .blocked (same.trans event)

theorem Leads.congr {node : Node Caller} (leads : Leads memory node phase)
    (same : next.flag (.readyFlag node) = memory.flag (.readyFlag node)) : Leads next node phase := by
  cases leads with
  | setting set => exact .setting (same.trans set)
  | testing set => exact .testing (same.trans set)
  | storing set => exact .storing (same.trans set)
  | blocked event => exact .blocked (same.trans event)
  | _ => constructor

/-- A pair looks at the second node only while its event is signalled. -/
theorem Pair.of_same {first second : Node Caller} {before after : Phase Caller}
    (pair : Pair memory first second before after) (link : next.next first = memory.next first)
    (nextFlag : next.flag (.nextFlag first) = memory.flag (.nextFlag first))
    (readyFlag : memory.flag (.readyFlag second) = .event false →
      next.flag (.readyFlag second) = .event false) :
    Pair next first second before after := by
  obtain ⟨target, unlinked, linked, pending, signalling, notified, passing, waking, copying⟩ := pair
  constructor
  · exact target
  · rwa [link]
  · rwa [link]
  · rwa [nextFlag]
  · rwa [nextFlag]
  · rwa [nextFlag]
  · rwa [link]
  · intro other same
    exact ⟨(waking other same).1, readyFlag (waking other same).2⟩
  · rwa [link]

theorem Pair.congr {first second : Node Caller} {before after : Phase Caller}
    (pair : Pair memory first second before after) (link : next.next first = memory.next first)
    (nextFlag : next.flag (.nextFlag first) = memory.flag (.nextFlag first))
    (readyFlag : next.flag (.readyFlag second) = memory.flag (.readyFlag second)) :
    Pair next first second before after := pair.of_same link nextFlag readyFlag.trans

/-- In these phases it does not matter how far the next caller has come. -/
def Phase.plain : Phase Caller → Bool
  | .freeing | .rereading | .copying => false
  | .testing _ .pass | .storing _ .pass | .blocked _ .pass => false
  | .setting _ .finish | .signalling _ .finish => false
  | _ => true

/-- The next caller does not notice a move between such phases. -/
theorem Pair.plain (pair : Pair memory first second before after)
    (awake : before ≠ .blocked (.nextFlag first) .pass) (plain : phase.plain = true) :
    Pair memory first second phase after := by
  obtain ⟨target, unlinked, linked, pending, signalling, notified, passing, waking, copying⟩ := pair
  refine ⟨target, unlinked, linked, ?_, ?_, ?_, ?_, ?_, ?_⟩
  · intro notifies
    refine ⟨?_, ?_, fun _ => (pending notifies).2.2 awake⟩ <;>
    · rintro rfl
      exact absurd plain nofun
  · intro pred same
    exact absurd (signalling pred same).2.1 awake
  · intro _
    constructor
    · intro asks
      cases asks <;> exact absurd plain nofun
    · rintro rfl
      exact absurd plain nofun
  · rintro next rfl
    exact absurd plain nofun
  · rintro next rfl
    exact absurd plain nofun
  · rintro rfl
    exact absurd plain nofun

/-- A caller that notifies nobody is in none of three phases. -/
theorem silent_ne (silent : ∀ pred, ¬ Notifies pred phase) (pred : Node Caller) :
    phase ≠ .linking pred ∧ phase ≠ .setting (.nextFlag pred) .wait ∧
      phase ≠ .signalling (.nextFlag pred) .wait := by
  refine ⟨?_, ?_, ?_⟩ <;> rintro rfl
  · exact silent pred .linking
  · exact silent pred .setting
  · exact silent pred .signalling

theorem Asks.awake (asks : Asks first before) : before ≠ .blocked (.nextFlag first) .pass := by
  rintro rfl
  exact absurd asks nofun

/-- The first caller goes on to look for a second one. -/
theorem Pair.ask (pair : Pair memory first second before after) (asks : Asks first before)
    (still : Asks first phase) : Pair memory first second phase after := by
  obtain ⟨target, unlinked, linked, pending, signalling, notified, passing, waking, copying⟩ := pair
  refine ⟨target, unlinked, linked, ?_, ?_, ?_, ?_, ?_, ?_⟩
  · intro notifies
    refine ⟨?_, fun blocked => absurd blocked still.awake,
      fun _ => (pending notifies).2.2 asks.awake⟩
    rintro rfl
    exact absurd still nofun
  · intro pred same
    exact absurd (signalling pred same).2.1 asks.awake
  · intro quiet
    exact ⟨fun _ => (notified quiet).1 asks, fun blocked => absurd blocked still.awake⟩
  · rintro next rfl
    exact absurd still nofun
  · rintro next rfl
    exact absurd still nofun
  · rintro rfl
    exact absurd still nofun

/-- The first caller has not found a second one. -/
theorem Pair.free (pair : Pair memory first second before after)
    (awake : before ≠ .blocked (.nextFlag first) .pass) (empty : memory.next first = none) :
    Pair memory first second .freeing after := by
  obtain ⟨target, unlinked, linked, pending, signalling, notified, passing, waking, copying⟩ := pair
  obtain rfl := unlinked.mpr empty
  refine ⟨target, unlinked, linked, ?_, nofun, ?_, nofun, nofun, nofun⟩
  · intro notifies
    exact ⟨nofun, nofun, fun _ => (pending notifies).2.2 awake⟩
  · intro quiet
    exact absurd .linking quiet

/-- The second caller has told the first one of its link. -/
theorem Pair.told (pair : Pair memory first second before after) (asks : Asks first before)
    (set : memory.flag (.nextFlag first) ≠ .unset) : Pair memory first second .rereading after := by
  obtain ⟨target, unlinked, linked, pending, signalling, notified, passing, waking, copying⟩ := pair
  refine ⟨target, unlinked, linked, ?_, ?_, ?_, nofun, nofun, nofun⟩
  · intro notifies
    exact absurd ((pending notifies).2.2 asks.awake) set
  · intro pred same
    exact absurd (signalling pred same).2.1 asks.awake
  · exact fun _ => ⟨nofun, nofun⟩

section Events

variable [DecidableEq Caller]

/-- The first caller stores its event before the second one has told it of its link. -/
theorem Pair.sleep
    (pair : Pair memory first second (.storing (.nextFlag first) .pass) after)
    (unset : memory.flag (.nextFlag first) = .unset) :
    Pair (memory.write (.nextFlag first) (.event false)) first second
      (.blocked (.nextFlag first) .pass) after := by
  obtain ⟨target, unlinked, linked, pending, signalling, notified, passing, waking, copying⟩ := pair
  refine ⟨target, unlinked, linked, ?_, ?_, ?_, nofun, nofun, nofun⟩
  · intro notifies
    exact ⟨nofun, fun _ => Memory.write_same, fun other => absurd rfl other⟩
  · intro pred same
    exact absurd (signalling pred same).2.1 nofun
  · intro quiet
    have set := (notified quiet).1 .storing
    rw [unset] at set
    exact absurd set nofun

/-- The event of the first caller was signalled by the second one. -/
theorem Pair.woken
    (pair : Pair memory first second (.blocked (.nextFlag first) .pass) after)
    (signalled : memory.flag (.nextFlag first) = .event true) :
    Pair (memory.write (.nextFlag first) (.event false)) first second .rereading after := by
  obtain ⟨target, unlinked, linked, pending, signalling, notified, passing, waking, copying⟩ := pair
  have differ : memory.flag (.nextFlag first) ≠ .event false := by
    rw [signalled]
    exact nofun
  refine ⟨target, unlinked, linked, ?_, ?_, ?_, nofun, nofun, nofun⟩
  · intro notifies
    exact absurd ((pending notifies).2.1 rfl) differ
  · intro pred same
    exact absurd (signalling pred same).2.2 differ
  · exact fun _ => ⟨nofun, nofun⟩

end Events

/-- The first caller knows the second one. -/
theorem Pair.pass {link : Node Caller} (pair : Pair memory first second before after)
    (awake : before ≠ .blocked (.nextFlag first) .pass) (found : memory.next first = some link) :
    Pair memory first second (.setting (.readyFlag link) .finish) after := by
  obtain ⟨target, unlinked, linked, pending, signalling, notified, passing, waking, copying⟩ := pair
  refine ⟨target, unlinked, linked, ?_, ?_, ?_, ?_, nofun, nofun⟩
  · intro notifies
    exact ⟨nofun, nofun, fun _ => (pending notifies).2.2 awake⟩
  · intro pred same
    exact absurd (signalling pred same).2.1 awake
  · exact fun _ => ⟨nofun, nofun⟩
  · intro next same
    obtain rfl := Flag.readyFlag.inj (Phase.setting.inj same).1
    refine ⟨linked _ found, ?_⟩
    rw [found]
    exact nofun

/-- The first caller has seen the second one that a transfer has to wait for. -/
theorem Pair.copy (pair : Pair memory first second before after)
    (awake : before ≠ .blocked (.nextFlag first) .pass) (found : memory.next first ≠ none) :
    Pair memory first second .copying after := by
  obtain ⟨target, unlinked, linked, pending, signalling, notified, passing, waking, copying⟩ := pair
  refine ⟨target, unlinked, linked, ?_, ?_, ?_, nofun, nofun, fun _ => found⟩
  · intro notifies
    exact ⟨nofun, nofun, fun _ => (pending notifies).2.2 awake⟩
  · intro pred same
    exact absurd (signalling pred same).2.1 awake
  · exact fun _ => ⟨nofun, nofun⟩

/-- The first caller finds the event of the second one. -/
theorem Pair.signal {link : Node Caller}
    (pair : Pair memory first second (.setting (.readyFlag link) .finish) after)
    (event : memory.flag (.readyFlag second) = .event false) :
    Pair memory first second (.signalling (.readyFlag link) .finish) after := by
  obtain ⟨target, unlinked, linked, pending, signalling, notified, passing, waking, copying⟩ := pair
  refine ⟨target, unlinked, linked, ?_, ?_, ?_, nofun, ?_, nofun⟩
  · intro notifies
    exact ⟨nofun, nofun, fun _ => (pending notifies).2.2 nofun⟩
  · intro pred same
    exact absurd (signalling pred same).2.1 nofun
  · exact fun _ => ⟨nofun, nofun⟩
  · intro next same
    obtain rfl := Flag.readyFlag.inj (Phase.signalling.inj same).1
    exact ⟨(passing _ rfl).1, event⟩

/-- The second caller links its node behind the first one. -/
theorem Pair.link (pair : Pair memory first second before (.linking first))
    (link : next.next first = some second)
    (nextFlag : next.flag (.nextFlag first) = memory.flag (.nextFlag first))
    (readyFlag : next.flag (.readyFlag second) = memory.flag (.readyFlag second)) :
    Pair next first second before (.setting (.nextFlag first) .wait) := by
  obtain ⟨target, unlinked, linked, pending, signalling, notified, passing, waking, copying⟩ := pair
  have linked : next.next first ≠ none := by
    rw [link]
    exact nofun
  refine ⟨nofun, iff_of_false nofun linked, ?_, ?_, nofun, ?_, ?_, ?_, fun _ => linked⟩
  · intro other found
    rw [link] at found
    exact (Option.some.inj found).symm
  · intro _
    rw [nextFlag]
    exact pending (.inl rfl)
  · intro quiet
    exact absurd .setting quiet
  · intro other same
    exact ⟨(passing other same).1, linked⟩
  · rw [readyFlag]
    exact waking

/-- The second caller has set the flag of the first one before that one waits for it. -/
theorem Pair.notify {reached : Phase Caller}
    (pair : Pair memory first second before (.setting (.nextFlag first) .wait))
    (unset : memory.flag (.nextFlag first) = .unset) (quiet : ∀ pred, ¬ Notifies pred reached)
    (link : next.next first = memory.next first) (set : next.flag (.nextFlag first) = .set)
    (readyFlag : next.flag (.readyFlag second) = memory.flag (.readyFlag second)) :
    Pair next first second before reached := by
  obtain ⟨target, unlinked, linked, pending, signalling, notified, passing, waking, copying⟩ := pair
  have bound := silent_ne quiet
  have found : memory.next first ≠ none := fun empty => absurd (unlinked.mpr empty) nofun
  refine ⟨fun pred same => absurd same (bound pred).1, ?_, ?_, ?_, ?_, ?_, ?_, ?_, ?_⟩
  · rw [link]
    exact iff_of_false (bound first).1 found
  · rwa [link]
  · rintro (same | same)
    · exact absurd same (bound first).1
    · exact absurd same (bound first).2.1
  · intro pred same
    exact absurd same (bound pred).2.2
  · intro _
    refine ⟨fun _ => set, fun blocked => ?_⟩
    have event := (pending (.inr rfl)).2.1 blocked
    rw [unset] at event
    exact absurd event nofun
  · rwa [link]
  · rwa [readyFlag]
  · rwa [link]

/-- The second caller signals the event of the first one. -/
theorem Pair.notifyEvent {pred : Node Caller} {reached : Phase Caller}
    (pair : Pair memory first second before (.signalling (.nextFlag pred) .wait))
    (quiet : ∀ pred, ¬ Notifies pred reached) (link : next.next first = memory.next first)
    (event : next.flag (.nextFlag first) = .event true)
    (readyFlag : next.flag (.readyFlag second) = memory.flag (.readyFlag second)) :
    Pair next first second before reached := by
  obtain ⟨target, unlinked, linked, pending, signalling, notified, passing, waking, copying⟩ := pair
  have bound := silent_ne quiet
  have found : memory.next first ≠ none := fun empty => absurd (unlinked.mpr empty) nofun
  obtain ⟨rfl, blocked, -⟩ := signalling pred rfl
  refine ⟨fun pred same => absurd same (bound pred).1, ?_, ?_, ?_, ?_, ?_, ?_, ?_, ?_⟩
  · rw [link]
    exact iff_of_false (bound pred).1 found
  · rwa [link]
  · rintro (same | same)
    · exact absurd same (bound pred).1
    · exact absurd same (bound pred).2.1
  · intro other same
    exact absurd same (bound other).2.2
  · intro _
    refine ⟨fun asks => absurd blocked asks.awake, fun _ => event⟩
  · rwa [link]
  · rwa [readyFlag]
  · rwa [link]

/-- The second caller finds the event of the first one. -/
theorem Pair.findEvent (pair : Pair memory first second before (.setting (.nextFlag first) .wait))
    (event : memory.flag (.nextFlag first) ≠ .unset) :
    Pair memory first second before (.signalling (.nextFlag first) .wait) := by
  obtain ⟨target, unlinked, linked, pending, signalling, notified, passing, waking, copying⟩ := pair
  have found : memory.next first ≠ none := fun empty => absurd (unlinked.mpr empty) nofun
  obtain ⟨-, asleep, awake⟩ := pending (.inr rfl)
  have blocked : before = .blocked (.nextFlag first) .pass := by
    by_contra other
    exact event (awake other)
  refine ⟨nofun, iff_of_false nofun found, linked, ?_, ?_, ?_, passing, waking, copying⟩
  · rintro (same | same) <;> exact absurd same nofun
  · intro pred same
    obtain rfl := Flag.nextFlag.inj (Phase.signalling.inj same).1
    exact ⟨rfl, blocked, asleep blocked⟩
  · intro quiet
    exact absurd .signalling quiet

/-- The second caller goes on without a word to the first one. -/
theorem Pair.approach {reached : Phase Caller} (pair : Pair memory first second before after)
    (quiet : ¬ Notifies first after) (still : ∀ pred, ¬ Notifies pred reached) :
    Pair memory first second before reached := by
  obtain ⟨target, unlinked, linked, pending, signalling, notified, passing, waking, copying⟩ := pair
  have bound := silent_ne still
  have found : memory.next first ≠ none := by
    intro empty
    obtain rfl := unlinked.mpr empty
    exact quiet .linking
  refine ⟨fun pred same => absurd same (bound pred).1, iff_of_false (bound first).1 found, linked,
    ?_, ?_, fun _ => notified quiet, passing, waking, copying⟩
  · rintro (same | same)
    · exact absurd same (bound first).1
    · exact absurd same (bound first).2.1
  · intro pred same
    exact absurd same (bound pred).2.2

theorem Leads.plain {node : Node Caller} (leads : Leads memory node phase)
    (early : phase.owning = false) : phase.plain = true := by
  cases leads <;> first | rfl | exact absurd early nofun

theorem Waits.plain {node : Node Caller} (waits : Waits memory node phase) :
    phase.plain = true := by
  cases waits <;> rfl

theorem not_notifies_of_owning {pred : Node Caller} (owning : phase.owning = true) :
    ¬ Notifies pred phase := by
  intro notifies
  cases notifies <;> exact absurd owning nofun

theorem queued_of_owning (owning : phase.owning = true) : phase.queued = true := by
  cases phase <;> first | rfl | exact absurd owning nofun

end Pairs

end McsLock

end CodeCollect.Pthreads
