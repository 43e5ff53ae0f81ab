import CodeCollect.Pthreads.McsLockMoves

namespace CodeCollect.Pthreads

open CodeCollect.Library Program

namespace McsLock

variable {Caller : Type} [DecidableEq Caller] {memory next : Memory Caller}
  {places : Caller → Place Caller} {self : Caller} {phase : Phase Caller}

omit [DecidableEq Caller] in
/-- A caller that has exchanged the lock word is behind the one that was the last. -/
theorem pair_linking {first second : Node Caller} {before : Phase Caller}
    (empty : memory.next first = none) (unset : memory.flag (.nextFlag first) = .unset)
    (ends : before.followed = false) : Pair memory first second before (.linking first) := by
  constructor
  · intro pred same
    exact (Phase.linking.inj same).symm
  · exact iff_of_true rfl empty
  · intro next taken
    exact absurd (empty.symm.trans taken) nofun
  · intro _
    refine ⟨?_, ?_, fun _ => unset⟩
    · rintro rfl
      exact absurd ends nofun
    · rintro rfl
      exact absurd ends nofun
  · exact nofun
  · intro other
    exact absurd .linking other
  · rintro next rfl
    exact absurd ends nofun
  · rintro next rfl
    exact absurd ends nofun
  · rintro rfl
    exact absurd ends nofun

omit [DecidableEq Caller] in
theorem queued_of_transferring (moving : phase.transferring = true) : phase.queued = true := by
  cases phase <;> first | rfl | exact absurd moving nofun

omit [DecidableEq Caller] in
/-- A caller that waits does not have the lock. -/
theorem Waits.owning {node : Node Caller} (waits : Waits memory node phase) :
    phase.owning = false ∧ phase.transferring = false := by
  cases waits <;> exact ⟨rfl, rfl⟩

omit [DecidableEq Caller] in
/-- The new node of a transfer takes the place of the old one. -/
theorem Pair.copied {first second new : Node Caller} {before after : Phase Caller}
    (pair : Pair memory first second before after) (unknown : ¬ Notifies new after)
    (moving : before.transferring = true) (copied : next.next new = memory.next first)
    (linked : memory.next first ≠ none) : Pair next new second .holding after := by
  have bound : ∀ pred, after ≠ .linking pred := by
    rintro pred rfl
    obtain rfl := pair.target pred rfl
    exact linked (pair.unlinked.mp rfl)
  constructor
  · intro pred same
    exact absurd same (bound pred)
  · rw [copied]
    exact iff_of_false (bound new) linked
  · rw [copied]
    exact pair.linked
  · rintro (same | same)
    · exact absurd same (bound new)
    · exact absurd (same ▸ .setting) unknown
  · intro pred same
    obtain ⟨-, blocked, -⟩ := pair.signalling pred same
    rw [blocked] at moving
    exact absurd moving nofun
  · exact fun _ => ⟨nofun, nofun⟩
  · exact nofun
  · exact nofun
  · exact nofun

namespace Inv

omit [DecidableEq Caller] in
/-- Somebody is the last caller of a line that is not empty. -/
theorem exists_last (inv : Inv memory places) {pred : Node Caller} (taken : memory.lock = some pred) :
    ∃ a, (places a).phase.queued = true ∧ memory.serving ≤ (places a).ticket ∧
      (places a).ticket + 1 = memory.tickets ∧ pred = (places a).node a := by
  have busy : memory.serving ≠ memory.tickets := by
    intro same
    rw [inv.free.mpr same] at taken
    exact absurd taken nofun
  have ahead := inv.ahead
  obtain ⟨a, present, ticket⟩ := inv.found (memory.tickets - 1) (by omega)
  have final : memory.serving ≤ (places a).ticket ∧ (places a).ticket + 1 = memory.tickets := by
    omega
  have same := taken.symm.trans ((inv.tail a present).mpr final)
  exact ⟨a, present, final.1, final.2, Option.some.inj same⟩

/-- A caller joins the line, with the last caller before it or in an empty line. -/
theorem join (inv : Inv memory places)
    (begins : (places self).phase = .queueing ∨ (places self).phase = .trying)
    (link : next.next = memory.next) (flags : next.flag = memory.flag)
    (lock : next.lock = some ((places self).node self))
    (tickets : next.tickets = memory.tickets + 1) (serving : next.serving = memory.serving)
    (joined : (memory.lock = none ∧ phase = .holding ∧
        next.obtained = memory.obtained ++ [memory.tickets]) ∨
      ∃ pred, memory.lock = some pred ∧ phase = .linking pred ∧
        next.obtained = memory.obtained) :
    Inv next (Function.update places self ⟨(places self).generation, memory.tickets, phase⟩) := by
  have absent : (places self).phase.queued = false := by
    rcases begins with same | same <;> rw [same] <;> rfl
  have still : phase.queued = true := by
    rcases joined with ⟨-, rfl, -⟩ | ⟨pred, -, rfl, -⟩ <;> rfl
  have unmoved : ∀ a, (places a).phase.queued = true → a ≠ self := by
    rintro a present rfl
    exact absurd (present.symm.trans absent) nofun
  have ahead := inv.ahead
  have clean := inv.clean self begins
  have node := fun a => keep_update places self
    ⟨(places self).generation, memory.tickets, phase⟩ (Place.node a) rfl a
  have new := fun a => keep_update places self
    ⟨(places self).generation, memory.tickets, phase⟩ (Place.new_node a) rfl a
  have stand : ∀ a, a ≠ self → (Function.update places self
      ⟨(places self).generation, memory.tickets, phase⟩ a) = places a :=
    fun a here => Function.update_of_ne here _ _
  have own : Function.update places self
      ⟨(places self).generation, memory.tickets, phase⟩ self =
        ⟨(places self).generation, memory.tickets, phase⟩ := Function.update_self _ _ _
  generalize Function.update places self ⟨(places self).generation, memory.tickets, phase⟩ = moved
    at *
  constructor
  · rw [serving, tickets]
    omega
  · intro a present
    rw [tickets]
    by_cases here : a = self
    · subst here
      rw [own]
      exact Nat.lt_succ_self _
    · rw [stand a here] at present ⊢
      exact (inv.below a present).trans (Nat.lt_succ_self _)
  · intro a b present also same
    by_cases here : a = self
    · by_cases there : b = self
      · exact here.trans there.symm
      · rw [stand b there] at also same
        rw [here, own] at same
        exact absurd same (inv.below b also).ne'
    · rw [stand a here] at present same
      by_cases there : b = self
      · rw [there, own] at same
        exact absurd same (inv.below a present).ne
      · rw [stand b there] at also same
        exact inv.unique a b present also same
  · intro number low
    rw [tickets] at low
    rcases Nat.lt_succ_iff_lt_or_eq.mp low with less | rfl
    · obtain ⟨a, found, same⟩ := inv.found number less
      refine ⟨a, ?_⟩
      rw [stand a (unmoved a found)]
      exact ⟨found, same⟩
    · refine ⟨self, ?_⟩
      rw [own]
      exact ⟨still, rfl⟩
  · intro a present
    rw [serving]
    by_cases here : a = self
    · subst here
      rw [own]
      refine iff_of_false ahead.not_gt ?_
      rcases joined with ⟨-, rfl, -⟩ | ⟨pred, -, rfl, -⟩ <;> exact nofun
    · rw [stand a here] at present ⊢
      exact inv.gone a present
  · rw [lock, serving, tickets]
    exact iff_of_false nofun (by omega)
  · intro a present
    rw [lock, serving, tickets, node]
    by_cases here : a = self
    · subst here
      rw [own]
      exact iff_of_true rfl ⟨ahead, rfl⟩
    · rw [stand a here] at present ⊢
      have below := inv.below a present
      refine iff_of_false (fun same => ?_) (by omega)
      exact here (congrArg Node.owner (Option.some.inj same)).symm
  · intro a present later
    rw [node]
    rw [serving] at later
    by_cases here : a = self
    · subst here
      rw [own] at later ⊢
      rcases joined with ⟨nobody, -, -⟩ | ⟨pred, -, rfl, -⟩
      · exact absurd (inv.free.mp nobody) later.ne
      · exact .linking ((congrFun flags _).trans clean.readyFlag)
    · rw [stand a here] at present later ⊢
      exact (inv.waits a present later).congr (congrFun flags _)
  · intro a present now
    rw [node]
    rw [serving] at now
    by_cases here : a = self
    · subst here
      rw [own] at now ⊢
      rcases joined with ⟨-, rfl, -⟩ | ⟨pred, taken, -, -⟩
      · exact .holding
      · rw [inv.free.mpr now.symm] at taken
        exact absurd taken nofun
    · rw [stand a here] at present now ⊢
      exact (inv.leads a present now).congr (congrFun flags _)
  · intro a b present also low follows
    rw [serving] at low
    rw [node, node]
    by_cases here : a = self
    · subst here
      rw [own] at follows
      by_cases there : b = a
      · rw [there, own] at follows
        exact absurd follows (Nat.succ_ne_self _).symm
      · rw [stand b there] at also follows
        have below := inv.below b also
        exact absurd follows (by dsimp only; omega)
    · rw [stand a here] at present low follows ⊢
      by_cases there : b = self
      · subst there
        rw [own] at follows ⊢
        obtain ⟨empty, unset, ends⟩ := inv.last a present low follows.symm
        rcases joined with ⟨nobody, -, -⟩ | ⟨pred, taken, rfl, -⟩
        · have idle := inv.free.mp nobody
          have below := inv.below a present
          omega
        · have same := taken.symm.trans ((inv.tail a present).mpr ⟨low, follows.symm⟩)
          obtain rfl := Option.some.inj same
          exact (pair_linking empty unset ends).congr (congrFun link _) (congrFun flags _)
            (congrFun flags _)
      · rw [stand b there] at also follows ⊢
        exact (inv.pairs a b present also low follows).congr (congrFun link _) (congrFun flags _)
          (congrFun flags _)
  · intro a present low final
    rw [serving] at low
    rw [tickets] at final
    rw [node, link, flags]
    by_cases here : a = self
    · subst here
      rw [own]
      refine ⟨clean.next, clean.nextFlag, ?_⟩
      rcases joined with ⟨-, rfl, -⟩ | ⟨pred, -, rfl, -⟩ <;> rfl
    · rw [stand a here] at present final
      have below := inv.below a present
      omega
  · intro a starts
    rw [node]
    by_cases here : a = self
    · subst here
      rw [own] at starts
      rcases joined with ⟨-, rfl, -⟩ | ⟨pred, -, rfl, -⟩ <;>
        exact absurd starts (by rintro (same | same) <;> exact absurd same nofun)
    · rw [stand a here] at starts
      exact (inv.clean a starts).congr (congrFun link _) (congrFun flags _) (congrFun flags _)
  · intro a moving
    rw [new]
    by_cases here : a = self
    · subst here
      rw [own] at moving
      rcases joined with ⟨-, rfl, -⟩ | ⟨pred, -, rfl, -⟩ <;> exact absurd moving nofun
    · rw [stand a here] at moving
      exact (inv.cleanNew a moving).congr (congrFun link _) (congrFun flags _) (congrFun flags _)
  · intro a pred notifies
    by_cases here : a = self
    · subst here
      rw [own] at notifies ⊢
      rcases joined with ⟨-, rfl, -⟩ | ⟨other, taken, rfl, -⟩
      · exact absurd notifies nofun
      · obtain ⟨last, present, -, final, rfl⟩ := inv.exists_last taken
        obtain rfl : pred = (places last).node last := by
          cases notifies
          rfl
        change (moved last).phase.queued = true ∧ (moved last).ticket + 1 = memory.tickets ∧
          (places last).generation ≤ (moved last).generation
        rw [stand last (unmoved last present)]
        exact ⟨present, final, le_rfl⟩
    · rw [stand a here] at notifies ⊢
      have behind := inv.behind a pred notifies
      rwa [stand _ (unmoved _ behind.1)]
  · intro a pred sets
    by_cases here : a = self
    · subst here
      rw [own] at sets
      rcases joined with ⟨-, rfl, -⟩ | ⟨other, -, rfl, -⟩ <;> exact absurd sets nofun
    · rw [stand a here] at sets
      have notifies : Notifies pred (places a).phase := by
        rw [sets]
        exact .setting
      rw [stand _ (unmoved _ (inv.behind a pred notifies).1), serving, flags]
      exact inv.stale a pred sets
  · intro a present now
    rw [serving] at now ⊢
    by_cases here : a = self
    · subst here
      rw [own] at now ⊢
      rcases joined with ⟨nobody, rfl, obtained⟩ | ⟨pred, taken, -, -⟩
      · have idle := inv.free.mp nobody
        rw [obtained, inv.idle idle, idle]
        exact List.range_succ.symm
      · rw [inv.free.mpr now.symm] at taken
        exact absurd taken nofun
    · rw [stand a here] at present now ⊢
      rcases joined with ⟨nobody, -, -⟩ | ⟨pred, -, -, obtained⟩
      · have below := inv.below a present
        have idle := inv.free.mp nobody
        omega
      · rw [obtained]
        exact inv.order a present now
  · intro all
    rw [serving, tickets] at all
    omega

/-- The caller whose turn it is gives the lock up, to the next caller or to nobody. -/
theorem leave (inv : Inv memory places) (queued : (places self).phase.queued = true)
    (turn : (places self).ticket = memory.serving) (owning : (places self).phase.owning = true)
    (awake : (places self).phase ≠ .blocked (.nextFlag ((places self).node self)) .pass)
    (tickets : next.tickets = memory.tickets) (serving : next.serving = memory.serving + 1)
    (obtained : next.obtained = memory.obtained) (link : next.next = memory.next)
    (nextFlag : ∀ node, next.flag (.nextFlag node) = memory.flag (.nextFlag node))
    (readyFlag : ∀ a, (places a).phase.queued = true → (places a).ticket ≠ memory.serving + 1 →
      ∀ node, node.owner = a → next.flag (.readyFlag node) = memory.flag (.readyFlag node))
    (absent : ∀ a, (places a).phase.queued = false →
      ∀ node, node.owner = a → next.flag (.readyFlag node) = memory.flag (.readyFlag node))
    (lock : memory.serving + 1 = memory.tickets ∧ next.lock = none ∨
      memory.serving + 1 ≠ memory.tickets ∧ next.lock = memory.lock)
    (leads : ∀ b, (places b).phase.queued = true → (places b).ticket = memory.serving + 1 →
      Leads next ((places b).node b) (places b).phase) :
    Inv next (Function.update places self ((places self).moved .released)) := by
  have inLine : (places self).ticket < memory.tickets := inv.below self queued
  have ticket := keep_update places self ((places self).moved .released) Place.ticket rfl
  have generation := keep_update places self ((places self).moved .released) Place.generation rfl
  have node := fun a => keep_update places self ((places self).moved .released) (Place.node a) rfl a
  have fresh := fun a =>
    keep_update places self ((places self).moved .released) (Place.new_node a) rfl a
  have stand := keep_update places self ((places self).moved .released)
    (fun place => place.phase.queued) queued.symm
  have other : ∀ a, a ≠ self →
      (Function.update places self ((places self).moved .released) a) = places a :=
    fun a here => Function.update_of_ne here _ _
  have own : Function.update places self ((places self).moved .released) self =
      (places self).moved .released := Function.update_self _ _ _
  have apart : ∀ a, (places a).ticket ≠ memory.serving → a ≠ self := by
    rintro a differ rfl
    exact differ turn
  generalize Function.update places self ((places self).moved .released) = moved at *
  constructor
  · rw [serving, tickets]
    omega
  · intro a
    rw [stand, ticket, tickets]
    exact inv.below a
  · intro a b
    rw [stand, stand, ticket, ticket]
    exact inv.unique a b
  · intro number low
    obtain ⟨a, found, same⟩ := inv.found number (tickets ▸ low)
    exact ⟨a, (stand a).trans found, (ticket a).trans same⟩
  · intro a present
    rw [ticket, serving]
    rw [stand] at present
    by_cases here : a = self
    · subst here
      rw [own, turn]
      exact iff_of_true (Nat.lt_succ_self _) rfl
    · rw [other a here, ← inv.gone a present]
      have differ : (places a).ticket ≠ memory.serving := fun same =>
        here (inv.unique a self present queued (same.trans turn.symm))
      omega
  · rw [serving, tickets]
    rcases lock with ⟨final, freed⟩ | ⟨more, kept⟩
    · exact iff_of_true freed final
    · rw [kept, inv.free]
      exact iff_of_false (by omega) more
  · intro a present
    rw [stand] at present
    rw [node, serving, ticket, tickets]
    have below := inv.below a present
    rcases lock with ⟨final, freed⟩ | ⟨more, kept⟩
    · rw [freed]
      exact iff_of_false nofun (by omega)
    · rw [kept, inv.tail a present]
      omega
  · intro a present later
    rw [stand] at present
    rw [serving, ticket] at later
    rw [node, other a (apart a (by omega))]
    exact (inv.waits a present (by omega)).congr (readyFlag a present (by omega) _ rfl)
  · intro a present now
    rw [stand] at present
    rw [serving, ticket] at now
    rw [node, other a (apart a (by omega))]
    exact leads a present now
  · intro a b present also low follows
    rw [stand] at present also
    rw [serving, ticket] at low
    rw [ticket, ticket] at follows
    rw [node, node, other a (apart a (by omega)), other b (apart b (by omega))]
    exact (inv.pairs a b present also (by omega) follows).congr (congrFun link _) (nextFlag _)
      (readyFlag b also (by omega) _ rfl)
  · intro a present low final
    rw [stand] at present
    rw [serving, ticket] at low
    rw [ticket, tickets] at final
    rw [node, link, nextFlag, other a (apart a (by omega))]
    exact inv.last a present (by omega) final
  · intro a begins
    rw [node]
    have outside : (moved a).phase.queued = false := by
      rcases begins with same | same <;> rw [same] <;> rfl
    have here : a ≠ self := by
      rintro rfl
      rw [own] at outside
      exact absurd outside nofun
    rw [other a here] at begins outside
    exact (inv.clean a begins).congr (congrFun link _) (nextFlag _) (absent a outside _ rfl)
  · intro a moving
    rw [fresh]
    have here : a ≠ self := by
      rintro rfl
      rw [own] at moving
      exact absurd moving nofun
    rw [other a here] at moving
    have present : (places a).phase.queued = true := queued_of_transferring moving
    have soon : (places a).ticket ≠ memory.serving + 1 := by
      intro second
      have waits := inv.waits a present (by omega)
      exact absurd (moving.symm.trans waits.owning.2) nofun
    exact (inv.cleanNew a moving).congr (congrFun link _) (nextFlag _)
      (readyFlag a present soon _ rfl)
  · intro a pred notifies
    rw [stand, ticket, ticket, generation]
    apply inv.behind a pred
    by_cases here : a = self
    · subst here
      rw [own] at notifies
      exact absurd notifies nofun
    · rwa [other a here] at notifies
  · intro a pred sets
    have here : a ≠ self := by
      rintro rfl
      rw [own] at sets
      exact absurd sets nofun
    rw [other a here] at sets
    rw [ticket, node, serving, nextFlag]
    have notifies : Notifies pred (places a).phase := by
      rw [sets]
      exact .setting
    rcases inv.stale a pred sets with ⟨low, live⟩ | unset
    · rcases low.lt_or_eq with less | first
      · exact .inl ⟨less, live⟩
      · -- the next caller has not yet notified the node that is given up
        right
        obtain ⟨present, follows, -⟩ := inv.behind a pred notifies
        obtain mine : pred.owner = self :=
          inv.unique pred.owner self present queued (first.symm.trans turn.symm)
        have after : (places a).ticket = (places self).ticket + 1 := by
          rw [← follows, mine]
        have pair := inv.pairs self a queued (queued_of_notifies notifies) turn.ge after
        rw [live, mine]
        refine (pair.pending (.inr ?_)).2.2 awake
        rw [sets, live, mine]
    · exact .inr unset
  · intro a present now
    rw [stand] at present
    rw [serving, ticket] at now
    rw [serving, obtained, inv.order self queued turn, if_pos owning,
      other a (apart a (by omega)), (inv.waits a present (by omega)).owning.1]
    rfl
  · intro all
    rw [serving, obtained, inv.order self queued turn, if_pos owning]

/-- A transfer ends with the lock word or the link of the new node in order. -/
theorem transfer (inv : Inv memory places) (moving : (places self).phase.transferring = true)
    (tickets : next.tickets = memory.tickets) (serving : next.serving = memory.serving)
    (obtained : next.obtained = memory.obtained) (flags : next.flag = memory.flag)
    (link : ∀ node, node ≠ (places self).new_node self → next.next node = memory.next node)
    (choice : memory.lock = some ((places self).node self) ∧
        next.lock = some ((places self).new_node self) ∧
          next.next ((places self).new_node self) = none ∨
      memory.lock ≠ some ((places self).node self) ∧ next.lock = memory.lock ∧
        next.next ((places self).new_node self) = memory.next ((places self).node self) ∧
          memory.next ((places self).node self) ≠ none) :
    Inv next (Function.update places self
      ⟨(places self).generation + 1, (places self).ticket, .holding⟩) := by
  have queued := queued_of_transferring moving
  have alive : (places self).phase ≠ .released := by
    intro gone
    rw [gone] at moving
    exact absurd moving nofun
  have reached : memory.serving ≤ (places self).ticket :=
    not_lt.mp fun low => alive ((inv.gone self queued).mp low)
  have turn : (places self).ticket = memory.serving := by
    refine (reached.eq_of_not_lt fun later => ?_).symm
    exact absurd (moving.symm.trans (inv.waits self queued later).owning.2) nofun
  have inLine : (places self).ticket < memory.tickets := inv.below self queued
  have ticket := keep_update places self
    ⟨(places self).generation + 1, (places self).ticket, .holding⟩ Place.ticket rfl
  have stand := keep_update places self
    ⟨(places self).generation + 1, (places self).ticket, .holding⟩
    (fun place => place.phase.queued) queued.symm
  have other : ∀ a, a ≠ self → (Function.update places self
      ⟨(places self).generation + 1, (places self).ticket, .holding⟩ a) = places a :=
    fun a here => Function.update_of_ne here _ _
  have own : Function.update places self
      ⟨(places self).generation + 1, (places self).ticket, .holding⟩ self =
        ⟨(places self).generation + 1, (places self).ticket, .holding⟩ := Function.update_self _ _ _
  have apart : ∀ a, (places a).ticket ≠ memory.serving → a ≠ self := by
    rintro a differ rfl
    exact differ turn
  have older : ∀ a, a ≠ self → (places a).node a ≠ (places self).new_node self :=
    fun a differ same => differ (congrArg Node.owner same)
  generalize Function.update places self
    ⟨(places self).generation + 1, (places self).ticket, .holding⟩ = moved at *
  constructor
  · rw [serving, tickets]
    exact inv.ahead
  · intro a
    rw [stand, ticket, tickets]
    exact inv.below a
  · intro a b
    rw [stand, stand, ticket, ticket]
    exact inv.unique a b
  · intro number low
    obtain ⟨a, found, same⟩ := inv.found number (tickets ▸ low)
    exact ⟨a, (stand a).trans found, (ticket a).trans same⟩
  · intro a present
    rw [stand] at present
    rw [ticket, serving]
    by_cases here : a = self
    · subst here
      rw [own]
      exact iff_of_false reached.not_gt nofun
    · rw [other a here]
      exact inv.gone a present
  · rw [serving, tickets]
    rcases choice with ⟨mine, new, -⟩ | ⟨-, kept, -⟩
    · exact iff_of_false (by rw [new]; exact nofun) (by omega)
    · rw [kept]
      exact inv.free
  · intro a present
    rw [stand] at present
    rw [serving, ticket, tickets]
    by_cases here : a = self
    · subst here
      rw [own]
      rcases choice with ⟨mine, new, -⟩ | ⟨another, kept, -⟩
      · exact iff_of_true new ((inv.tail a present).mp mine)
      · have behind : ¬ (memory.serving ≤ (places a).ticket ∧
            (places a).ticket + 1 = memory.tickets) := fun final =>
          another ((inv.tail a present).mpr final)
        refine iff_of_false (fun same => ?_) behind
        rw [kept] at same
        obtain ⟨last, there, low, final, node⟩ := inv.exists_last same
        obtain rfl : a = last := congrArg Node.owner node
        exact behind ⟨low, final⟩
    · rw [other a here]
      rcases choice with ⟨mine, new, -⟩ | ⟨-, kept, -⟩
      · rw [new]
        obtain ⟨-, final⟩ := (inv.tail self queued).mp mine
        refine iff_of_false (fun same => ?_) ?_
        · exact older a here (Option.some.inj same).symm
        · rintro ⟨-, also⟩
          exact here (inv.unique a self present queued (by omega))
      · rw [kept]
        exact inv.tail a present
  · intro a present later
    rw [stand] at present
    rw [serving, ticket] at later
    rw [other a (apart a (by omega))]
    exact (inv.waits a present later).congr (congrFun flags _)
  · intro a present now
    rw [stand] at present
    rw [serving, ticket] at now
    obtain rfl := inv.unique a self present queued (now.trans turn.symm)
    rw [own]
    exact .holding
  · intro a b present also low follows
    rw [stand] at present also
    rw [serving, ticket] at low
    rw [ticket, ticket] at follows
    rw [other b (apart b (by omega))]
    by_cases here : a = self
    · subst here
      rw [own]
      have pair := inv.pairs a b present also low follows
      rcases choice with ⟨mine, -⟩ | ⟨-, -, copied, linked⟩
      · have final := (inv.tail a present).mp mine
        have below := inv.below b also
        omega
      · refine pair.copied ?_ moving copied linked
        intro notifies
        exact absurd (inv.behind b _ notifies).2.2 (Nat.not_succ_le_self _)
    · rw [other a here]
      exact (inv.pairs a b present also low follows).congr (link _ (older a here))
        (congrFun flags _) (congrFun flags _)
  · intro a present low final
    rw [stand] at present
    rw [serving, ticket] at low
    rw [ticket, tickets] at final
    by_cases here : a = self
    · subst here
      rw [own]
      rcases choice with ⟨-, -, empty⟩ | ⟨another, -⟩
      · exact ⟨empty, (congrFun flags _).trans (inv.cleanNew a moving).nextFlag, rfl⟩
      · exact absurd ((inv.tail a present).mpr ⟨low, final⟩) another
    · rw [other a here, link _ (older a here), flags]
      exact inv.last a present low final
  · intro a begins
    have here : a ≠ self := by
      rintro rfl
      rw [own] at begins
      rcases begins with same | same <;> exact absurd same nofun
    rw [other a here] at begins ⊢
    exact (inv.clean a begins).congr (link _ (older a here)) (congrFun flags _) (congrFun flags _)
  · intro a also
    have here : a ≠ self := by
      rintro rfl
      rw [own] at also
      exact absurd also nofun
    rw [other a here] at also ⊢
    exact (inv.cleanNew a also).congr
      (link _ fun same => here (congrArg Node.owner same)) (congrFun flags _) (congrFun flags _)
  · intro a pred notifies
    have here : a ≠ self := by
      rintro rfl
      rw [own] at notifies
      exact absurd notifies nofun
    rw [stand, ticket, ticket]
    rw [other a here] at notifies
    obtain ⟨present, follows, below⟩ := inv.behind a pred notifies
    refine ⟨present, follows, ?_⟩
    by_cases mine : pred.owner = self
    · rw [mine] at below ⊢
      rw [own]
      exact below.trans (Nat.le_succ _)
    · rwa [other _ mine]
  · intro a pred sets
    have here : a ≠ self := by
      rintro rfl
      rw [own] at sets
      exact absurd sets nofun
    rw [other a here] at sets
    rw [serving, ticket, flags]
    have notifies : Notifies pred (places a).phase := by
      rw [sets]
      exact .setting
    rcases inv.stale a pred sets with ⟨low, live⟩ | unset
    · by_cases mine : pred.owner = self
      · -- the next caller has not yet notified the node that was left
        right
        obtain ⟨present, follows, -⟩ := inv.behind a pred notifies
        have after : (places a).ticket = (places self).ticket + 1 := by
          rw [← follows, mine]
        have pair := inv.pairs self a queued (queued_of_notifies notifies) reached after
        rw [live, mine]
        refine (pair.pending (.inr ?_)).2.2 ?_
        · rw [sets, live, mine]
        · intro blocked
          rw [blocked] at moving
          exact absurd moving nofun
      · left
        rw [other _ mine]
        exact ⟨low, live⟩
    · exact .inr unset
  · intro a present now
    rw [stand] at present
    rw [serving, ticket] at now
    obtain rfl := inv.unique a self present queued (now.trans turn.symm)
    have order := inv.order a present now
    have owning : (places a).phase.owning = true := by
      revert moving
      cases (places a).phase <;> first | exact fun _ => rfl | exact nofun
    rw [if_pos owning] at order
    rw [own, obtained, serving]
    exact order
  · intro all
    rw [serving, tickets] at all
    omega

end Inv

end McsLock

end CodeCollect.Pthreads
