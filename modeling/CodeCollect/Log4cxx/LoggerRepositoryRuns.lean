import CodeCollect.Library.LinkedQueue
import CodeCollect.Log4cxx.LoggerRegistry

namespace CodeCollect.Log4cxx

open CodeCollect.Library

namespace Hierarchy

variable {tree : Hierarchy}

theorem mem_loggers_iff (name : LogString) :
    name ∈ tree.loggers ↔ tree.logger (.named name) ≠ none := LogMap.mem_iff ..

theorem SameLinks.wellParented {before after : Hierarchy} (same : SameLinks before after)
    (wellParented : before.WellParented) : after.WellParented := by
  intro name logger found
  obtain ⟨old, oldFound, -, linked⟩ := same.old found
  obtain ⟨parent, linkedOld, leads⟩ := wellParented name old oldFound
  have names : {other | other ∈ after.loggers} = {other | other ∈ before.loggers} :=
    Set.ext same.mem_iff
  refine ⟨parent, linked.symm.trans linkedOld, ?_⟩
  rw [LeadsTo, names]
  exact leads

/-- The loggers above a logger are its parent and those above it. -/
theorem LeadsTo.above_iff {name : LogString} {parent : LoggerPtr}
    (leads : tree.LeadsTo name parent) {place : LoggerPtr} (present : tree.logger place ≠ none) :
    place.Above (.named name) ↔ place = parent ∨ place.Above parent := by
  cases parent with
  | root =>
      cases place with
      | root => exact iff_of_true trivial (.inl rfl)
      | named upper =>
          exact iff_of_false (leads upper ((mem_loggers_iff upper).mpr present))
            (fun either => either.elim nofun id)
  | named nearest =>
      obtain ⟨-, above, farthest⟩ := leads
      cases place with
      | root => exact iff_of_true trivial (.inr trivial)
      | named upper =>
          constructor
          · intro found
            have longest := farthest upper ((mem_loggers_iff upper).mpr present) found
            rcases longest.lt_or_eq with shorter | same
            · exact .inr (Library.Above.of_length_lt found above shorter)
            · exact .inl (congrArg _ (Library.Above.eq_of_length found above same))
          · rintro (same | found)
            · rw [LoggerPtr.named.inj same]
              exact above
            · exact Library.Above.trans found above

/-- The parents of a logger are exactly the loggers above it, in order. -/
theorem ParentChain.ascends (rooted : tree.Rooted) (wellParented : tree.WellParented)
    {ptr : LoggerPtr} {chain : List LoggerPtr} (up : tree.ParentChain ptr chain) :
    (∀ place, place ∈ chain ↔ tree.logger place ≠ none ∧ (place = ptr ∨ place.Above ptr)) ∧
      chain.Pairwise fun lower upper => upper.Above lower := by
  induction up with
  | root =>
      refine ⟨fun place => ?_, List.pairwise_singleton ..⟩
      rw [List.mem_singleton]
      constructor
      · rintro rfl
        exact ⟨Option.some_ne_none _, .inl rfl⟩
      · rintro ⟨-, rfl | above⟩
        · rfl
        · cases place <;> exact above.elim
  | @parent ptr logger parent chain found linked up ih =>
      obtain ⟨member, ascending⟩ := ih
      cases ptr with
      | root =>
          have missing := rooted.parent
          rw [Option.some.inj found, linked] at missing
          exact absurd missing nofun
      | named name =>
          obtain ⟨nearest, linked', leads⟩ := wellParented name logger found
          have same : nearest = parent := Option.some.inj (linked'.symm.trans linked)
          subst same
          refine ⟨fun place => ?_, List.pairwise_cons.mpr ⟨fun upper inside => ?_, ascending⟩⟩
          · rw [List.mem_cons, member]
            constructor
            · rintro (rfl | ⟨present, above⟩)
              · exact ⟨found ▸ Option.some_ne_none logger, .inl rfl⟩
              · exact ⟨present, .inr ((leads.above_iff present).mpr above)⟩
            · rintro ⟨present, same | above⟩
              · exact .inl same
              · exact .inr ⟨present, (leads.above_iff present).mp above⟩
          · obtain ⟨present, above⟩ := (member upper).mp inside
            exact (leads.above_iff present).mpr above

end Hierarchy

def Logger.entry (self : Logger) : Registry.Entry where
  level := self.level
  additive := self.additive
  appenderList := self.appenderList

namespace LoggerRepository

/-- The links of the filters lead through those that were added, in order. -/
structure Serves (next : FilterPtr → Option FilterPtr) (appender : AppenderSkeleton)
    (subscriber : Registry.Subscriber) : Prop where
  threshold : appender.threshold = subscriber.threshold
  closed : appender.closed = subscriber.closed
  appended : appender.appended = subscriber.appended
  chain : LinkedQueue.Holds none ⟨appender.headFilter, appender.tailFilter, fun f => f.bind next⟩
    (subscriber.filters.map some)

structure Represents (state : LoggerRepository) (registry : Registry) : Prop where
  rooted : state.hierarchy.Rooted
  wellParented : state.hierarchy.WellParented
  entries : ∀ ptr, (state.hierarchy.logger ptr).map Logger.entry = registry.entries ptr
  threshold : state.hierarchy.threshold = registry.threshold
  filters : state.filters = registry.filters
  size : state.appenders.length = registry.subscribers.length
  serves : ∀ (i : AppenderPtr) (appender : AppenderSkeleton) (subscriber : Registry.Subscriber),
    state.appenders[i]? = some appender → registry.subscribers[i]? = some subscriber →
      Serves state.next appender subscriber
  fresh : ∀ f, f ∉ registry.used → state.next f = none
  warned : state.emittedNoAppenderWarning = registry.warned
  valid : registry.Valid

section Filters

variable {self : LoggerRepository} {event : LoggingEvent}

/-- The loop ends with the verdict of the filters that are linked. -/
theorem decideFrom_spec {head : Option FilterPtr} {filters : List FilterPtr}
    (chain : LinkedQueue.Chain none (fun f : Option FilterPtr => f.bind self.next) head
      (filters.map some))
    (known : ∀ f ∈ filters, f < self.filters.length) {fuel : Nat} (enough : filters.length ≤ fuel) :
    self.decideFrom event fuel head =
      some (decide (Registry.verdict event (filters.filterMap (self.filters[·]?)) ≠ .DENY)) := by
  induction filters generalizing head fuel with
  | nil =>
      have ended : head = none := chain
      rw [ended]
      cases fuel <;> rfl
  | cons f filters ih =>
      obtain ⟨rfl, -, chain⟩ := chain
      obtain ⟨inside, known⟩ := List.forall_mem_cons.mp known
      obtain ⟨fuel, rfl⟩ := Nat.exists_eq_add_of_lt (Nat.lt_of_lt_of_le (Nat.succ_pos _) enough)
      rw [Nat.zero_add]
      have rest := ih chain known (Nat.le_of_succ_le_succ (by simpa using enough))
      rw [List.filterMap_cons, List.getElem?_eq_getElem inside]
      simp only [decideFrom, List.getElem?_eq_getElem inside, Option.bind_eq_bind, Option.bind_some,
        Registry.verdict_cons]
      cases (self.filters[f]).decide event with
      | DENY => rfl
      | ACCEPT => rfl
      | NEUTRAL => exact rest

end Filters

section Subscribers

variable {self : LoggerRepository} {registry : Registry} {i : AppenderPtr}

theorem Represents.modifyAppender (represents : self.Represents registry) (i : AppenderPtr)
    {change : AppenderSkeleton → AppenderSkeleton}
    {change' : Registry.Subscriber → Registry.Subscriber}
    (serves : ∀ appender subscriber, Serves self.next appender subscriber →
      Serves self.next (change appender) (change' subscriber))
    (keeps : ∀ subscriber, (change' subscriber).filters ⊆ subscriber.filters) :
    (self.modifyAppender i change).Represents (registry.modifySubscriber i change') := by
  refine ⟨represents.rooted, represents.wellParented, represents.entries, represents.threshold,
    represents.filters, ?_, fun j appender subscriber found present => ?_, represents.fresh,
    represents.warned, represents.valid.modifySubscriber i keeps⟩
  · rw [LoggerRepository.modifyAppender, Registry.modifySubscriber, List.length_modify,
      List.length_modify, represents.size]
  · rw [Registry.modifySubscriber_get] at present
    rw [LoggerRepository.modifyAppender, List.getElem?_modify, Option.map_eq_map] at found
    obtain ⟨before, presentBefore, rfl⟩ := Option.map_eq_some_iff.mp present
    obtain ⟨old, foundOld, rfl⟩ := Option.map_eq_some_iff.mp found
    have both := represents.serves j old before foundOld presentBefore
    split
    · exact serves old before both
    · exact both

theorem Represents.exists_subscriber (represents : self.Represents registry)
    (inside : i < registry.subscribers.length) :
    ∃ appender subscriber, self.appenders[i]? = some appender ∧
      registry.subscribers[i]? = some subscriber ∧ Serves self.next appender subscriber := by
  have bound : i < self.appenders.length := represents.size ▸ inside
  exact ⟨_, _, List.getElem?_eq_getElem bound, List.getElem?_eq_getElem inside,
    represents.serves i _ _ (List.getElem?_eq_getElem bound) (List.getElem?_eq_getElem inside)⟩

/-- One filter has one place, so there are no more places than filters. -/
theorem Represents.filters_length (represents : self.Represents registry)
    {appender : AppenderSkeleton} {subscriber : Registry.Subscriber}
    (found : self.appenders[i]? = some appender)
    (present : registry.subscribers[i]? = some subscriber) :
    subscriber.filters.length ≤ self.filters.length := by
  have nodup := (represents.serves i appender subscriber found present).chain.nodup.of_map _
  rw [← List.toFinset_card_of_nodup nodup, ← Finset.card_range self.filters.length]
  refine Finset.card_le_card fun f member => ?_
  rw [Finset.mem_range, represents.filters]
  exact (represents.valid.used i subscriber present f (List.mem_toFinset.mp member)).2

end Subscribers

section Delivery

variable {self : LoggerRepository} {registry : Registry} {event : LoggingEvent} {i : AppenderPtr}
  {ptr : LoggerPtr}

theorem Represents.says (represents : self.Represents registry) (text : List LogString) :
    ({ self with logLog := text } : LoggerRepository).Represents registry :=
  { represents with }

/-- A call of an appender ends, and the appender takes the event when its filters admit it. -/
theorem Represents.doAppend (represents : self.Represents registry)
    (inside : i < registry.subscribers.length) (event : LoggingEvent) :
    ∃ next, self.doAppend event i = some next ∧ next.hierarchy = self.hierarchy ∧
      next.Represents (registry.deliver event i) := by
  obtain ⟨appender, subscriber, found, present, serves⟩ := represents.exists_subscriber inside
  have refused (refuses : ¬ registry.Admits event subscriber) :
      registry.deliver event i = registry := by
    have same : registry.deliver event i = registry.modifySubscriber i id :=
      Registry.modifySubscriber_congr present (if_neg refuses)
    rw [same, Registry.modifySubscriber_id]
  simp only [LoggerRepository.doAppend, found, Option.bind_eq_bind, Option.bind_some]
  split
  · rename_i closed
    rw [refused fun admits => by rw [serves.closed, admits.1] at closed; exact absurd closed nofun]
    exact ⟨_, rfl, rfl, represents.says _⟩
  · rename_i opened
    rw [Bool.not_eq_true] at opened
    split
    · rename_i below
      have low : ¬ subscriber.threshold.toInt ≤ event.level.toInt := by
        rw [AppenderSkeleton.isAsSevereAsThreshold, Level.isGreaterOrEqual, serves.threshold] at below
        simpa using below
      rw [refused fun admits => low admits.2.1]
      exact ⟨_, rfl, rfl, represents⟩
    · rename_i above
      have high : subscriber.threshold.toInt ≤ event.level.toInt := by
        rw [AppenderSkeleton.isAsSevereAsThreshold, Level.isGreaterOrEqual, serves.threshold] at above
        simpa using above
      have known : ∀ f ∈ subscriber.filters, f < self.filters.length := by
        rw [represents.filters]
        exact fun f member => (represents.valid.used i subscriber present f member).2
      rw [decideFrom_spec serves.chain.chain known (represents.filters_length found present),
        Option.bind_some, represents.filters]
      by_cases accepted : Registry.verdict event
          (subscriber.filters.filterMap (registry.filters[·]?)) ≠ .DENY
      · rw [decide_eq_true accepted, if_pos rfl]
        have admits : registry.Admits event subscriber :=
          ⟨serves.closed.symm.trans opened, high, accepted⟩
        have same : registry.deliver event i = registry.modifySubscriber i fun subscriber =>
            { subscriber with appended := subscriber.appended ++ [event] } :=
          Registry.modifySubscriber_congr present (if_pos admits)
        refine ⟨_, rfl, rfl, ?_⟩
        rw [same]
        refine represents.modifyAppender i (fun appender subscriber serves => ?_)
          fun _ => List.Subset.refl _
        exact ⟨serves.threshold, serves.closed, congrArg (· ++ [event]) serves.appended,
          serves.chain⟩
      · rw [decide_eq_false accepted, if_neg Bool.false_ne_true,
          refused fun admits => accepted admits.2.2]
        exact ⟨_, rfl, rfl, represents⟩

theorem Represents.doAppends (represents : self.Represents registry) (event : LoggingEvent)
    {called : List AppenderPtr} (inside : ∀ i ∈ called, i < registry.subscribers.length) :
    ∃ next, called.foldlM (fun self i => self.doAppend event i) self = some next ∧
      next.hierarchy = self.hierarchy ∧
      next.Represents (called.foldl (fun registry i => registry.deliver event i) registry) := by
  induction called generalizing self registry with
  | nil => exact ⟨self, rfl, rfl, represents⟩
  | cons i called ih =>
      obtain ⟨bound, inside⟩ := List.forall_mem_cons.mp inside
      obtain ⟨middle, called, kept, represents⟩ := represents.doAppend bound event
      obtain ⟨next, rest, kept', represents⟩ := ih represents fun i member => by
        rw [Registry.deliver, Registry.modifySubscriber, List.length_modify]
        exact inside i member
      refine ⟨next, ?_, kept'.trans kept, represents⟩
      rw [List.foldlM_cons, called]
      exact rest

theorem Represents.appendersOf (represents : self.Represents registry) {logger : Logger}
    (found : self.hierarchy.logger ptr = some logger) :
    registry.appendersOf ptr = logger.appenderList := by
  rw [Registry.appendersOf, ← represents.entries, found]
  rfl

theorem Represents.additive (represents : self.Represents registry) {logger : Logger}
    (found : self.hierarchy.logger ptr = some logger) :
    registry.additive ptr = logger.additive := by
  rw [Registry.additive, ← represents.entries, found]
  rfl

/-- The loop visits the loggers up to the first one that is not additive. -/
theorem Represents.callAppendersFrom {tree : Hierarchy} {chain : List LoggerPtr}
    (up : tree.ParentChain ptr chain) (same : self.hierarchy = tree)
    (represents : self.Represents registry) (event : LoggingEvent) {fuel : Nat}
    (enough : chain.length ≤ fuel) (writes : Nat) {called : List AppenderPtr}
    (calls : called = (visited registry.additive chain).flatMap registry.appendersOf) :
    ∃ next, callAppendersFrom event fuel self writes (some ptr) =
        some (next, writes + called.length) ∧
      next.Represents (called.foldl (fun registry i => registry.deliver event i) registry) := by
  induction up generalizing self registry fuel writes called with
  | root =>
      obtain ⟨fuel, rfl⟩ := Nat.exists_eq_add_of_lt (Nat.lt_of_lt_of_le Nat.zero_lt_one enough)
      have found : self.hierarchy.logger .root = some self.hierarchy.root := rfl
      have alone : visited registry.additive [LoggerPtr.root] = [.root] := by
        rw [visited]
        split <;> rfl
      have own : called = self.hierarchy.root.appenderList := by
        rw [calls, alone, List.flatMap_singleton, represents.appendersOf found]
      have inside := (represents.valid.attached .root).2
      rw [represents.appendersOf found, ← own] at inside
      obtain ⟨next, ran, kept, represents'⟩ := represents.doAppends event inside
      refine ⟨next, ?_, represents'⟩
      rw [Nat.zero_add]
      simp only [LoggerRepository.callAppendersFrom, found, appendLoopOnAppenders, ← own, ran,
        Option.bind_eq_bind, Option.bind_some, represents.rooted.parent]
      split
      · rfl
      · cases fuel <;> rfl
  | @parent ptr logger above chain found linked up ih =>
      obtain ⟨fuel, rfl⟩ := Nat.exists_eq_add_of_lt (Nat.lt_of_lt_of_le (Nat.succ_pos _) enough)
      rw [← same] at found
      have inside := (represents.valid.attached ptr).2
      rw [represents.appendersOf found] at inside
      obtain ⟨middle, ran, kept, represents'⟩ := represents.doAppends event inside
      rw [Nat.zero_add]
      simp only [LoggerRepository.callAppendersFrom, found, appendLoopOnAppenders, ran,
        Option.bind_eq_bind, Option.bind_some, ← represents.additive found, linked]
      rw [visited, List.flatMap_cons, represents.appendersOf found] at calls
      cases additive : registry.additive ptr with
      | false =>
          rw [additive, if_neg Bool.false_ne_true, List.flatMap_nil, List.append_nil] at calls
          subst calls
          exact ⟨middle, rfl, represents'⟩
      | true =>
          rw [additive, if_pos rfl] at calls
          rw [Registry.foldl_deliver] at represents'
          obtain ⟨next, rest, represents''⟩ := ih (kept.trans same) represents'
            (Nat.le_of_succ_le_succ (by simpa using enough)) (writes + logger.appenderList.length) rfl
          refine ⟨next, ?_, ?_⟩
          · rw [calls, List.length_append, ← Nat.add_assoc]
            exact rest
          · rw [calls, List.foldl_append, Registry.foldl_deliver registry]
            exact represents''

theorem below_asymm (lower upper : LoggerPtr) (above : upper.Above lower) : ¬ lower.Above upper :=
  above.asymm

section Chain

variable {chain : List LoggerPtr}

theorem Represents.mem_ancestry (represents : self.Represents registry)
    (up : self.hierarchy.ParentChain ptr chain) (place : LoggerPtr) :
    place ∈ chain ↔ place ∈ registry.ancestry ptr := by
  rw [(up.ascends represents.rooted represents.wellParented).1 place]
  change _ ↔ registry.entries place ≠ none ∧ _
  rw [← represents.entries, ne_eq, ne_eq, Option.map_eq_none_iff]

/-- The loggers that the loop visits are those that hear the event. -/
theorem Represents.mem_visited (represents : self.Represents registry)
    (up : self.hierarchy.ParentChain ptr chain) (place : LoggerPtr) :
    place ∈ visited registry.additive chain ↔ registry.Hears ptr place := by
  have ascending := (up.ascends represents.rooted represents.wellParented).2
  rw [Library.mem_visited below_asymm ascending, represents.mem_ancestry up, Registry.Hears]
  simp only [represents.mem_ancestry up]

theorem Represents.count_called (represents : self.Represents registry)
    (up : self.hierarchy.ParentChain ptr chain) (i : AppenderPtr) :
    ((visited registry.additive chain).flatMap registry.appendersOf).count i =
      registry.copies ptr i := by
  have ascending := (up.ascends represents.rooted represents.wellParented).2
  have distinct : chain.Nodup := ascending.imp fun above => by
    rintro rfl
    exact above.asymm above
  rw [count_flatMap registry.appendersOf (distinct.sublist (visited_sublist _ _))
    fun place _ => (represents.valid.attached place).1]
  simp only [represents.mem_visited up]
  rfl

theorem Represents.hasLevel_iff (represents : self.Represents registry)
    (up : self.hierarchy.ParentChain ptr chain) (level : Level) :
    registry.HasLevel ptr level ↔ self.hierarchy.nearestLevel chain = some level := by
  have ascending := (up.ascends represents.rooted represents.wellParented).2
  have same : (fun ptr => (self.hierarchy.logger ptr).bind Logger.level) = registry.levelOf := by
    funext place
    rw [Registry.levelOf, ← represents.entries, Option.bind_map]
    rfl
  rw [Hierarchy.nearestLevel, same, findSome?_ascending below_asymm ascending]
  simp only [represents.mem_ancestry up]
  rfl

end Chain

theorem Represents.withHierarchy (represents : self.Represents registry) {hierarchy : Hierarchy}
    {entries : LoggerPtr → Option Registry.Entry} {threshold : Level} (rooted : hierarchy.Rooted)
    (wellParented : hierarchy.WellParented)
    (entered : ∀ ptr, (hierarchy.logger ptr).map Logger.entry = entries ptr)
    (limit : hierarchy.threshold = threshold)
    (attached : ∀ ptr entry, entries ptr = some entry → entry.appenderList.Nodup ∧
      ∀ i ∈ entry.appenderList, i < registry.subscribers.length) :
    ({ self with hierarchy := hierarchy } : LoggerRepository).Represents
      { registry with entries := entries, threshold := threshold } := by
  refine ⟨rooted, wellParented, entered, limit, represents.filters, represents.size,
    represents.serves, represents.fresh, represents.warned, represents.valid.used,
    represents.valid.apart, fun ptr => ?_⟩
  cases found : entries ptr with
  | none => simp [Registry.appendersOf, found]
  | some entry =>
      simp only [Registry.appendersOf, found, Option.map_some, Option.getD_some]
      exact attached ptr entry found

theorem Represents.entry_attached (represents : self.Represents registry)
    {entry : Registry.Entry} (found : registry.entries ptr = some entry) :
    entry.appenderList.Nodup ∧ ∀ i ∈ entry.appenderList, i < registry.subscribers.length := by
  have attached := represents.valid.attached ptr
  simp only [Registry.appendersOf, found, Option.map_some, Option.getD_some] at attached
  exact attached

theorem Represents.configure (represents : self.Represents registry) :
    ({ self with hierarchy := { self.hierarchy with configured := true } } :
      LoggerRepository).Represents registry := by
  have same : Hierarchy.SameLinks self.hierarchy { self.hierarchy with configured := true } :=
    ⟨fun _ => rfl, rfl, rfl⟩
  refine represents.withHierarchy (same.rooted represents.rooted represents.rooted.level)
    (same.wellParented represents.wellParented) (fun ptr => ?_) represents.threshold
    fun ptr entry found => represents.entry_attached found
  rw [← represents.entries]
  cases ptr <;> rfl

theorem Represents.warn (represents : self.Represents registry) :
    (self.emitNoAppenderWarning ptr).Represents { registry with warned := true } := by
  have warned : ({ self with emittedNoAppenderWarning := true } : LoggerRepository).Represents
      { registry with warned := true } :=
    { represents with
      warned := rfl
      valid := ⟨represents.valid.used, represents.valid.apart, represents.valid.attached⟩ }
  rw [emitNoAppenderWarning]
  split
  · rename_i emitted
    have same : ({ self with emittedNoAppenderWarning := true } : LoggerRepository) = self := by
      rw [← emitted]
    rw [same] at warned
    exact warned
  · exact warned.says _

/-- An enabled event is delivered to the loggers that hear it, and another one is dropped. -/
theorem Represents.log (represents : self.Represents registry)
    (present : registry.entries ptr ≠ none) (level : Level) (message : LogString) :
    ∃ next, self.log ptr level message = some next ∧
      next.Represents (registry.log ptr level message) := by
  classical
  have configured := represents.configure
  generalize middle : ({ self with hierarchy := { self.hierarchy with configured := true } } :
    LoggerRepository) = state at configured
  rw [← configured.entries, ne_eq, Option.map_eq_none_iff] at present
  obtain ⟨logger, found⟩ := Option.ne_none_iff_exists'.mp present
  obtain ⟨chain, own, up, nearest, walk⟩ :=
    configured.rooted.walk _ found (Nat.lt_succ_self _)
  have effective := configured.rooted.effectiveLevel walk
  have enabled : registry.Enabled ptr level ↔
      registry.threshold.toInt ≤ level.toInt ∧ own.toInt ≤ level.toInt := by
    rw [Registry.Enabled]
    refine and_congr_right fun _ => ⟨?_, fun below => ⟨own, ?_, below⟩⟩
    · rintro ⟨other, has, below⟩
      rw [configured.hasLevel_iff up, nearest] at has
      rw [Option.some.inj has]
      exact below
    · exact (configured.hasLevel_iff up own).mpr nearest
  have disabled : (self.isDisabled level.toInt) =
      (state, decide (registry.threshold.toInt > level.toInt)) := by
    rw [isDisabled, middle, represents.threshold]
  simp only [LoggerRepository.log, isEnabledFor, disabled, effective, Option.bind_eq_bind,
    Option.bind_some, decide_eq_true_eq]
  rw [Registry.log]
  by_cases limit : registry.threshold.toInt > level.toInt
  · rw [if_pos limit, if_neg fun able => (enabled.mp able).1.not_gt limit]
    exact ⟨state, rfl, configured⟩
  · rw [if_neg limit]
    by_cases severe : own.toInt ≤ level.toInt
    · have sounds : level.isGreaterOrEqual own = true := decide_eq_true severe
      rw [if_pos (enabled.mpr ⟨not_lt.mp limit, severe⟩), Option.bind_some, sounds, if_pos rfl]
      obtain ⟨next, ran, delivered⟩ := configured.callAppendersFrom up rfl
        ⟨ptr.name, level, message⟩ (up.length_le configured.rooted) 0 rfl
      have silence : 0 + ((visited registry.additive chain).flatMap registry.appendersOf).length =
          0 ↔ ∀ place, registry.Hears ptr place → registry.appendersOf place = [] := by
        rw [Nat.zero_add, List.length_eq_zero_iff, List.flatMap_eq_nil_iff]
        simp only [configured.mem_visited up]
      rw [Registry.foldl_deliver, registry.subscribers_deliver _ _ _ (configured.count_called up)]
        at delivered
      simp only [LoggerRepository.callAppenders, ran, Option.bind_eq_bind, Option.bind_some]
      refine ⟨_, rfl, ?_⟩
      by_cases empty : ∀ place, registry.Hears ptr place → registry.appendersOf place = []
      · rw [if_pos (silence.mpr empty), decide_eq_true empty, Bool.or_true]
        exact delivered.warn
      · rw [if_neg fun none => empty (silence.mp none), decide_eq_false empty, Bool.or_false]
        exact delivered
    · have silent : level.isGreaterOrEqual own = false := decide_eq_false severe
      rw [if_neg fun able => severe (enabled.mp able).2, Option.bind_some, silent,
        if_neg Bool.false_ne_true]
      exact ⟨state, rfl, configured⟩

end Delivery

section Calls

variable {self : LoggerRepository} {registry : Registry} {i : AppenderPtr} {ptr : LoggerPtr}

theorem attached_nil (count : Nat) :
    ([] : List AppenderPtr).Nodup ∧ ∀ i ∈ ([] : List AppenderPtr), i < count :=
  ⟨List.nodup_nil, List.forall_mem_nil _⟩

theorem Represents.modifyLogger (represents : self.Represents registry) (ptr : LoggerPtr)
    (change : Logger → Logger) (change' : Registry.Entry → Registry.Entry)
    (keeps : ∀ logger, (change logger).name = logger.name ∧ (change logger).parent = logger.parent)
    (entered : ∀ logger, (change logger).entry = change' logger.entry)
    (level : ptr = .root → ∀ logger, logger.level ≠ none → (change logger).level ≠ none)
    (attached : ∀ entry, (entry.appenderList.Nodup ∧
        ∀ i ∈ entry.appenderList, i < registry.subscribers.length) →
      (change' entry).appenderList.Nodup ∧
        ∀ i ∈ (change' entry).appenderList, i < registry.subscribers.length) :
    ({ self with hierarchy := self.hierarchy.modifyLogger ptr change } :
      LoggerRepository).Represents (registry.modifyEntry ptr change') := by
  have same := Hierarchy.modifyLogger_sameLinks self.hierarchy ptr keeps
  have root : (self.hierarchy.modifyLogger ptr change).root.level ≠ none := by
    cases ptr with
    | root => exact level rfl _ represents.rooted.level
    | named name => exact represents.rooted.level
  refine represents.withHierarchy (same.rooted represents.rooted root)
    (same.wellParented represents.wellParented) (fun other => ?_) ?_ fun other entry found => ?_
  · rw [Hierarchy.modifyLogger_get, ← represents.entries]
    split
    · rw [Option.map_map, Option.map_map]
      exact congrFun (congrArg _ (funext fun logger => entered logger)) _
    · rfl
  · cases ptr <;> exact represents.threshold
  · split at found
    · obtain ⟨before, present, rfl⟩ := Option.map_eq_some_iff.mp found
      exact attached before (represents.entry_attached present)
    · exact represents.entry_attached found

theorem Represents.close (represents : self.Represents registry) (i : AppenderPtr) :
    (self.close i).Represents
      (registry.modifySubscriber i fun subscriber => { subscriber with closed := true }) :=
  represents.modifyAppender i
    (fun _ _ serves => ⟨serves.threshold, rfl, serves.appended, serves.chain⟩)
    fun _ => List.Subset.refl _

theorem closeAll_cons (registry : Registry) (i : AppenderPtr) (rest : List AppenderPtr) :
    (registry.modifySubscriber i fun subscriber => { subscriber with closed := true }).closeAll
      {j | j ∈ rest} = registry.closeAll {j | j ∈ i :: rest} := by
  rw [Registry.closeAll, Registry.closeAll]
  refine congrArg (fun subscribers => { registry with subscribers := subscribers }) ?_
  refine List.ext_getElem? fun j => ?_
  rw [List.getElem?_mapIdx, List.getElem?_mapIdx, Registry.modifySubscriber_get, Option.map_map]
  refine congrFun (congrArg _ (funext fun subscriber => ?_)) _
  simp only [Function.comp_apply, Set.mem_ofPred_eq, List.mem_cons]
  by_cases here : i = j
  · simp [here]
  · simp [here, Ne.symm here]

theorem closeAll_nil (registry : Registry) : registry.closeAll {j | j ∈ ([] : List AppenderPtr)} =
    registry := by
  have same : registry.subscribers.mapIdx (fun _ subscriber => subscriber) =
      registry.subscribers := by
    refine List.ext_getElem? fun i => ?_
    rw [List.getElem?_mapIdx]
    exact Option.map_id' ..
  simp [Registry.closeAll, same]

/-- All listed appenders are closed, and the hierarchy stays as it is. -/
theorem Represents.closes (represents : self.Represents registry) (listed : List AppenderPtr) :
    (listed.foldl LoggerRepository.close self).hierarchy = self.hierarchy ∧
      (listed.foldl LoggerRepository.close self).Represents (registry.closeAll {i | i ∈ listed}) := by
  induction listed generalizing self registry with
  | nil => exact ⟨rfl, by rw [closeAll_nil]; exact represents⟩
  | cons i listed ih =>
      obtain ⟨kept, closed⟩ := ih (represents.close i)
      rw [closeAll_cons] at closed
      exact ⟨kept, closed⟩

theorem closeNestedAppenders_foldl (loggers : List Logger) (self : LoggerRepository) :
    loggers.foldl closeNestedAppenders self =
      (loggers.flatMap Logger.appenderList).foldl LoggerRepository.close self := by
  induction loggers generalizing self with
  | nil => rfl
  | cons logger loggers ih =>
      rw [List.foldl_cons, ih, List.flatMap_cons, List.foldl_append, closeNestedAppenders]

/-- The appenders of a hierarchy are those of its loggers. -/
theorem Represents.mem_appenders (represents : self.Represents registry) (i : AppenderPtr) :
    i ∈ self.hierarchy.root.appenderList ++
        (self.hierarchy.loggers.toList.map Prod.snd).flatMap Logger.appenderList ↔
      ∃ ptr, i ∈ registry.appendersOf ptr := by
  have root : registry.appendersOf .root = self.hierarchy.root.appenderList :=
    represents.appendersOf rfl
  rw [List.mem_append, List.mem_flatMap]
  constructor
  · rintro (member | ⟨logger, listed, member⟩)
    · exact ⟨.root, root ▸ member⟩
    · obtain ⟨⟨name, other⟩, entry, rfl⟩ := List.mem_map.mp listed
      have found : self.hierarchy.logger (.named name) = some other :=
        Std.ExtTreeMap.mem_toList_iff_getElem?_eq_some.mp entry
      exact ⟨.named name, (represents.appendersOf found).symm ▸ member⟩
  · rintro ⟨ptr, member⟩
    cases ptr with
    | root => exact .inl (root ▸ member)
    | named name =>
        cases found : self.hierarchy.logger (.named name) with
        | none =>
            have absent := represents.entries (.named name)
            rw [found] at absent
            rw [Registry.appendersOf, ← absent] at member
            exact absurd member List.not_mem_nil
        | some logger =>
            rw [represents.appendersOf found] at member
            refine .inr ⟨logger, List.mem_map.mpr ⟨(name, logger), ?_, rfl⟩, member⟩
            exact Std.ExtTreeMap.mem_toList_iff_getElem?_eq_some.mpr found

theorem Represents.removeAllAppenders (represents : self.Represents registry) (ptr : LoggerPtr) :
    (self.removeAllAppenders ptr).Represents (registry.call (.removeAllAppenders ptr)) := by
  rw [LoggerRepository.removeAllAppenders]
  change LoggerRepository.Represents _
    ((registry.closeAll {i | i ∈ registry.appendersOf ptr}).modifyEntry ptr fun entry =>
      { entry with appenderList := [] })
  cases found : self.hierarchy.logger ptr with
  | none =>
      have absent : registry.entries ptr = none := by
        rw [← represents.entries, found]
        rfl
      have free : registry.appendersOf ptr = [] := by
        rw [Registry.appendersOf, absent]
        rfl
      have same : registry.modifyEntry ptr (fun entry => { entry with appenderList := [] }) =
          registry := by
        rw [Registry.modifyEntry]
        refine congrArg (fun entries => { registry with entries := entries }) (funext fun other => ?_)
        split
        · rename_i equal
          rw [equal, absent]
          rfl
        · rfl
      rw [free, closeAll_nil, same]
      exact represents
  | some logger =>
      obtain ⟨kept, closed⟩ := represents.closes logger.appenderList
      rw [represents.appendersOf found]
      have removed := closed.modifyLogger ptr (fun logger => { logger with appenderList := [] })
        (fun entry => { entry with appenderList := [] }) (fun _ => ⟨rfl, rfl⟩) (fun _ => rfl)
        (fun _ _ own => own) fun _ _ => attached_nil _
      rw [kept] at removed
      exact removed

theorem Represents.shutdown (represents : self.Represents registry) :
    self.shutdown.Represents registry.shutdown := by
  obtain ⟨kept, closed⟩ := represents.closes (self.hierarchy.root.appenderList ++
    (self.hierarchy.loggers.toList.map Prod.snd).flatMap Logger.appenderList)
  simp only [represents.mem_appenders] at closed
  rw [List.foldl_append, ← closeNestedAppenders_foldl] at closed
  have same : Hierarchy.SameLinks self.hierarchy self.hierarchy.shutdown := by
    refine ⟨fun other => ?_, rfl, rfl⟩
    rw [Hierarchy.shutdown, LogMap.map_get, Option.map_map]
    rfl
  refine closed.withHierarchy (same.rooted represents.rooted represents.rooted.level)
    (same.wellParented represents.wellParented) (fun ptr => ?_) represents.threshold
    fun ptr entry found => ?_
  · rw [← represents.entries]
    cases ptr with
    | root => rfl
    | named name =>
        change ((self.hierarchy.loggers.map _)[name]?).map _ = _
        rw [LogMap.map_get, Option.map_map, Option.map_map]
        rfl
  · obtain ⟨before, -, rfl⟩ := Option.map_eq_some_iff.mp found
    exact attached_nil _

theorem Represents.resetConfiguration (represents : self.Represents registry) :
    self.resetConfiguration.Represents registry.resetConfiguration := by
  have same : Hierarchy.SameLinks self.hierarchy self.hierarchy.resetConfiguration := by
    refine ⟨fun other => ?_, rfl, rfl⟩
    rw [Hierarchy.resetConfiguration, LogMap.map_get, Hierarchy.shutdown, LogMap.map_get,
      Option.map_map, Option.map_map]
    rfl
  refine represents.shutdown.withHierarchy
    (Hierarchy.resetConfiguration_rooted represents.rooted)
    (same.wellParented represents.wellParented) (fun ptr => ?_) rfl fun ptr entry found => ?_
  · rw [← represents.entries]
    cases ptr with
    | root => rfl
    | named name =>
        change ((self.hierarchy.resetConfiguration.loggers)[name]?).map _ = _
        rw [Hierarchy.resetConfiguration, LogMap.map_get, Hierarchy.shutdown, LogMap.map_get,
          Option.map_map, Option.map_map, Option.map_map]
        rfl
  · obtain ⟨before, -, rfl⟩ := Option.map_eq_some_iff.mp found
    cases ptr <;> exact attached_nil _

theorem update_bind (next : FilterPtr → Option FilterPtr) (f : FilterPtr)
    (after : Option FilterPtr) :
    Function.update (fun g : Option FilterPtr => g.bind next) (some f) after =
      fun g => g.bind (Function.update next f after) := by
  funext g
  cases g with
  | none => rfl
  | some g =>
      by_cases same : g = f
      · rw [same, Function.update_self]
        exact (Function.update_self f after next).symm
      · rw [Function.update_of_ne fun equal => same (Option.some.inj equal)]
        exact (Function.update_of_ne same after next).symm

/-- The pointer of the last filter leads to the new one, which leads to none. -/
theorem Serves.addFilter {next : FilterPtr → Option FilterPtr} {appender : AppenderSkeleton}
    {subscriber : Registry.Subscriber} (serves : Serves next appender subscriber) {f : FilterPtr}
    (absent : f ∉ subscriber.filters) (fresh : next f = none) :
    (appender.headFilter = none ∧ subscriber.filters = [] ∧
        Serves next { appender with headFilter := some f, tailFilter := some f }
          { subscriber with filters := subscriber.filters ++ [f] }) ∨
      ∃ head tail, appender.headFilter = some head ∧ appender.tailFilter = some tail ∧
        tail ∈ subscriber.filters ∧ Serves (Function.update next tail (some f))
          { appender with tailFilter := some f }
          { subscriber with filters := subscriber.filters ++ [f] } := by
  obtain ⟨threshold, closed, appended, holds⟩ := serves
  have ended : Function.update (fun f : Option FilterPtr => f.bind next) (some f) none =
      fun f => f.bind next := by
    rw [Function.update_eq_self_iff]
    exact fresh.symm
  have pushed := holds.push (fun member : some f ∈ _ => absent (by simpa using member)) nofun
  rw [LinkedQueue.push, ended, ← List.map_singleton, ← List.map_append] at pushed
  cases filters : subscriber.filters with
  | nil =>
      rw [filters] at holds
      have empty : appender.headFilter = none := holds.chain
      have last : appender.tailFilter = none := holds.bottom
      rw [last, if_neg (not_not.mpr rfl)] at pushed
      rw [filters] at pushed
      exact .inl ⟨empty, rfl, threshold, closed, appended, pushed⟩
  | cons first rest =>
      rw [filters] at holds
      have start : appender.headFilter = some first := holds.chain.1
      obtain ⟨tail, inside, last⟩ : ∃ tail ∈ first :: rest, appender.tailFilter = some tail := by
        have bottom : appender.tailFilter = _ := holds.bottom
        refine ⟨(first :: rest).getLast (List.cons_ne_nil _ _), List.getLast_mem _, bottom.trans ?_⟩
        rw [List.getLastD_eq_getLast?, List.getLast?_map,
          List.getLast?_eq_some_getLast (List.cons_ne_nil _ _)]
        rfl
      rw [last, if_pos (Option.some_ne_none tail)] at pushed
      have linked : Function.update (fun f : Option FilterPtr => f.bind next) (some tail) (some f) =
          fun g => g.bind (Function.update next tail (some f)) :=
        update_bind next tail (some f)
      rw [linked, filters] at pushed
      exact .inr ⟨first, tail, start, last, inside, threshold, closed, appended, pushed⟩

/-- Links of filters in other places do not matter. -/
theorem Serves.update {next : FilterPtr → Option FilterPtr} {appender : AppenderSkeleton}
    {subscriber : Registry.Subscriber} (serves : Serves next appender subscriber) {f : FilterPtr}
    (absent : f ∉ subscriber.filters) (after : Option FilterPtr) :
    Serves (Function.update next f after) appender subscriber := by
  obtain ⟨threshold, closed, appended, chain, bottom, nodup⟩ := serves
  refine ⟨threshold, closed, appended, ?_, bottom, nodup⟩
  dsimp only
  rw [← update_bind]
  exact chain.update fun member => absent (by simpa using member)

/-- One appender has changed together with the links of the filters. -/
theorem Represents.relink (represents : self.Represents registry) {appender : AppenderSkeleton}
    {subscriber : Registry.Subscriber} (found : self.appenders[i]? = some appender)
    (present : registry.subscribers[i]? = some subscriber)
    (change : AppenderSkeleton → AppenderSkeleton)
    {change' : Registry.Subscriber → Registry.Subscriber} {next : FilterPtr → Option FilterPtr}
    {used : Set FilterPtr} (own : Serves next (change appender) (change' subscriber))
    (others : ∀ (j : AppenderPtr) (appender : AppenderSkeleton) (subscriber : Registry.Subscriber),
      i ≠ j → registry.subscribers[j]? = some subscriber → Serves self.next appender subscriber →
        Serves next appender subscriber)
    (fresh : ∀ f, f ∉ used → next f = none)
    (valid : ({ registry.modifySubscriber i change' with used := used } : Registry).Valid) :
    ({ self.modifyAppender i change with next := next } : LoggerRepository).Represents
      { registry.modifySubscriber i change' with used := used } := by
  refine ⟨represents.rooted, represents.wellParented, represents.entries, represents.threshold,
    represents.filters, ?_, fun j other another foundJ presentJ => ?_, fresh, represents.warned,
    valid⟩
  · change (self.appenders.modify i change).length = (registry.subscribers.modify i change').length
    rw [List.length_modify, List.length_modify, represents.size]
  · change (registry.modifySubscriber i change').subscribers[j]? = _ at presentJ
    change (self.appenders.modify i change)[j]? = _ at foundJ
    rw [Registry.modifySubscriber_get] at presentJ
    rw [List.getElem?_modify, Option.map_eq_map] at foundJ
    obtain ⟨before, presentBefore, rfl⟩ := Option.map_eq_some_iff.mp presentJ
    obtain ⟨old, foundOld, rfl⟩ := Option.map_eq_some_iff.mp foundJ
    by_cases here : i = j
    · rw [if_pos here, if_pos here]
      rw [← here, found] at foundOld
      rw [← here, present] at presentBefore
      rw [← Option.some.inj foundOld, ← Option.some.inj presentBefore]
      exact own
    · rw [if_neg here, if_neg here]
      exact others j old before here presentBefore
        (represents.serves j old before foundOld presentBefore)

theorem Represents.addFilter (represents : self.Represents registry) {f : FilterPtr}
    (inside : i < registry.subscribers.length) (known : f < registry.filters.length)
    (unused : f ∉ registry.used) :
    ∃ next, self.addFilter i f = some next ∧ next.Represents (registry.call (.addFilter i f)) := by
  obtain ⟨appender, subscriber, found, present, serves⟩ := represents.exists_subscriber inside
  have absent : f ∉ subscriber.filters := fun member =>
    unused (represents.valid.used i subscriber present f member).1
  have valid := represents.valid.addFilter i known unused
  have fresh : ∀ g, g ∉ insert f registry.used → self.next g = none := fun g other =>
    represents.fresh g fun member => other (Set.mem_insert_of_mem f member)
  rcases serves.addFilter absent (represents.fresh f unused) with
    ⟨empty, -, pushed⟩ | ⟨head, tail, start, last, member, pushed⟩
  · refine ⟨_, ?_, represents.relink found present
      (fun appender => { appender with headFilter := some f, tailFilter := some f }) pushed
      (fun _ _ _ _ _ serves => serves) fresh valid⟩
    simp only [LoggerRepository.addFilter, found, empty, Option.bind_eq_bind, Option.bind_some]
    rfl
  · refine ⟨_, ?_, represents.relink found present
      (fun appender => { appender with tailFilter := some f }) pushed
      (fun j other another differ presentJ serves => serves.update
        (represents.valid.apart i j subscriber another differ present presentJ tail member) _)
      (fun g other => ?_) valid⟩
    · simp only [LoggerRepository.addFilter, found, start, last, Option.bind_eq_bind,
        Option.bind_some]
    · have differ : g ≠ tail := by
        rintro rfl
        exact other (Set.mem_insert_of_mem f (represents.valid.used i subscriber present g member).1)
      rw [Function.update_of_ne differ]
      exact fresh g other

theorem relinked_entry (name other : LogString) (nodes : ProvisionNode) (logger : Logger) :
    (Hierarchy.relinked name nodes other logger).entry = logger.entry := by
  rw [Hierarchy.relinked]
  split <;> rfl

theorem Represents.getLogger (represents : self.Represents registry) {name : LogString}
    (allowed : registry.Allowed (.getLogger name)) :
    ∃ next, self.call (.getLogger name) = some next ∧
      next.Represents (registry.call (.getLogger name)) := by
  obtain ⟨plain, clear⟩ := allowed
  by_cases known : name ∈ self.hierarchy.loggers
  · refine ⟨self, ?_, ?_⟩
    · simp only [call, Hierarchy.getLogger_known _ name known, Option.bind_eq_bind, Option.bind_some]
    · obtain ⟨logger, found⟩ := Option.ne_none_iff_exists'.mp ((LogMap.mem_iff _ _).mp known)
      have present : registry.entries (.named name) = some logger.entry := by
        rw [← represents.entries]
        exact congrArg _ found
      have same : registry.call (.getLogger name) = registry := by
        refine congrArg (fun entries => { registry with entries := entries }) (funext fun ptr => ?_)
        split
        · rename_i equal
          rw [equal, present]
          rfl
        · rfl
      rw [same]
      exact represents
  · obtain ⟨result, ran, extended, sound⟩ :=
      Hierarchy.getLogger_new self.hierarchy name represents.rooted.sound plain known
    obtain ⟨result', ran', rooted⟩ := Hierarchy.getLogger_rooted represents.rooted plain
    have same : result' = result := Option.some.inj (ran'.symm.trans ran)
    subst same
    have missing : registry.entries (.named name) = none := by
      rw [← represents.entries, Option.map_eq_none_iff]
      exact (LogMap.not_mem_iff _ _).mp known
    have clearOfRoot : self.hierarchy.ClearOfRoot name := by
      intro short below member
      refine clear missing short below ?_
      rw [← represents.entries, ne_eq, Option.map_eq_none_iff]
      exact (LogMap.mem_iff _ _).mp member
    refine ⟨{ self with hierarchy := result' }, by simp only [call, ran, Option.bind_eq_bind,
      Option.bind_some], ?_⟩
    refine represents.withHierarchy rooted
      (represents.wellParented.extend represents.rooted.sound known clearOfRoot extended)
      (fun ptr => ?_) (extended.threshold.trans represents.threshold) fun ptr entry found => ?_
    · cases ptr with
      | root =>
          rw [if_neg nofun, ← represents.entries]
          exact congrArg (fun root => (some root).map Logger.entry) extended.root
      | named other =>
          by_cases equal : other = name
          · obtain ⟨parent, own, -⟩ := extended.own
            rw [equal, if_pos rfl, missing]
            exact congrArg (Option.map Logger.entry) own
          · rw [if_neg fun both => equal (LoggerPtr.named.inj both), ← represents.entries]
            refine (congrArg (Option.map Logger.entry) (extended.others other equal)).trans ?_
            rw [Option.map_map]
            exact congrFun (congrArg _ (funext fun logger => relinked_entry ..)) _
    · split at found
      · rename_i equal
        rw [equal, missing] at found
        rw [← Option.some.inj found]
        exact attached_nil _
      · exact represents.entry_attached found

theorem Represents.newAppender (represents : self.Represents registry) (name : LogString) :
    ({ self with appenders := self.appenders ++ [.create name] } : LoggerRepository).Represents
      { registry with subscribers := registry.subscribers ++ [⟨Level.getAll, [], false, []⟩] } := by
  refine ⟨represents.rooted, represents.wellParented, represents.entries, represents.threshold,
    represents.filters, ?_, fun i appender subscriber found present => ?_, represents.fresh,
    represents.warned, represents.valid.weaken ?_ (fun i subscriber found f member => ?_)
      (Set.Subset.refl _) (Nat.le_refl _) fun _ => .refl _⟩
  · rw [List.length_append, List.length_append, represents.size]
    rfl
  · rcases lt_or_ge i self.appenders.length with old | new
    · rw [List.getElem?_append_left old] at found
      rw [List.getElem?_append_left (represents.size ▸ old)] at present
      exact represents.serves i appender subscriber found present
    · rw [List.getElem?_append_right new, List.getElem?_singleton] at found
      rw [List.getElem?_append_right (represents.size ▸ new), List.getElem?_singleton] at present
      rw [← represents.size] at present
      split at found
      · rename_i last
        rw [if_pos last] at present
        rw [← Option.some.inj found, ← Option.some.inj present]
        exact ⟨rfl, rfl, rfl, rfl, rfl, List.nodup_nil⟩
      · exact absurd found nofun
  · rw [List.length_append]
    exact Nat.le_add_right ..
  · rcases lt_or_ge i registry.subscribers.length with old | new
    · rw [List.getElem?_append_left old] at found
      exact ⟨subscriber, found, member⟩
    · rw [List.getElem?_append_right new, List.getElem?_singleton] at found
      split at found
      · rw [← Option.some.inj found] at member
        exact absurd member List.not_mem_nil
      · exact absurd found nofun

theorem Represents.newFilter (represents : self.Represents registry) (filter : Filter) :
    ({ self with filters := self.filters ++ [filter] } : LoggerRepository).Represents
      { registry with filters := registry.filters ++ [filter] } := by
  refine ⟨represents.rooted, represents.wellParented, represents.entries, represents.threshold,
    congrArg (· ++ [filter]) represents.filters, represents.size, represents.serves,
    represents.fresh, represents.warned, represents.valid.weaken (Nat.le_refl _)
      (fun i subscriber found f member => ⟨subscriber, found, member⟩) (Set.Subset.refl _) ?_
      fun _ => .refl _⟩
  rw [List.length_append]
  exact Nat.le_add_right ..

theorem Represents.setLevel (represents : self.Represents registry) (ptr : LoggerPtr)
    (level : Option Level) :
    ({ self with hierarchy := self.hierarchy.setLevel ptr level } : LoggerRepository).Represents
      (registry.call (.setLevel ptr level)) := by
  rw [Registry.call]
  cases ptr with
  | root =>
      cases level with
      | none =>
          rw [if_pos ⟨rfl, rfl⟩]
          exact represents
      | some level =>
          rw [if_neg fun both => absurd both.2 nofun]
          exact represents.modifyLogger .root (fun logger => { logger with level := some level }) _
            (fun _ => ⟨rfl, rfl⟩) (fun _ => rfl) (fun _ _ _ => Option.some_ne_none level)
            fun _ attached => attached
  | named name =>
      rw [if_neg fun both => absurd both.1 nofun]
      exact represents.modifyLogger (.named name) _ _ (fun _ => ⟨rfl, rfl⟩) (fun _ => rfl)
        (fun impossible => absurd impossible nofun) fun _ attached => attached

theorem Represents.setThreshold (represents : self.Represents registry) (level : Option Level) :
    ({ self with hierarchy := self.hierarchy.setThreshold level } : LoggerRepository).Represents
      (registry.call (.setThreshold level)) := by
  cases level with
  | none => exact represents
  | some level =>
      have same : Hierarchy.SameLinks self.hierarchy (self.hierarchy.setThreshold (some level)) :=
        ⟨fun _ => rfl, rfl, rfl⟩
      refine represents.withHierarchy (same.rooted represents.rooted represents.rooted.level)
        (same.wellParented represents.wellParented) (fun ptr => ?_) rfl
        fun ptr entry found => represents.entry_attached found
      rw [← represents.entries]
      cases ptr <;> rfl

theorem Represents.addAppender (represents : self.Represents registry) (ptr : LoggerPtr)
    (inside : i < registry.subscribers.length) :
    ({ self with hierarchy := self.hierarchy.addAppender ptr i } : LoggerRepository).Represents
      (registry.call (.addAppender ptr i)) := by
  have added : ({ self with hierarchy := self.hierarchy.modifyLogger ptr fun logger =>
      if i ∈ logger.appenderList then logger
      else { logger with appenderList := logger.appenderList ++ [i] } } :
        LoggerRepository).Represents (registry.call (.addAppender ptr i)) := by
    refine represents.modifyLogger ptr _ _ (fun logger => ?_) (fun logger => ?_)
      (fun _ logger own => ?_) fun entry attached => ?_
    · split <;> exact ⟨rfl, rfl⟩
    · by_cases member : i ∈ logger.appenderList
      · rw [if_pos member]
        exact congrArg (Registry.Entry.mk _ _) (if_pos member).symm
      · rw [if_neg member]
        exact congrArg (Registry.Entry.mk _ _) (if_neg member).symm
    · split <;> exact own
    · obtain ⟨once, bound⟩ := attached
      dsimp only
      split
      · exact ⟨once, bound⟩
      · rename_i absent
        refine ⟨once.append (List.nodup_singleton i) (List.disjoint_singleton.mpr absent),
          fun j member => ?_⟩
        rcases List.mem_append.mp member with old | new
        · exact bound j old
        · rw [List.mem_singleton.mp new]
          exact inside
  exact added.configure

theorem Represents.removeAppender (represents : self.Represents registry) (ptr : LoggerPtr)
    (i : AppenderPtr) :
    ({ self with hierarchy := self.hierarchy.removeAppender ptr i } : LoggerRepository).Represents
      (registry.call (.removeAppender ptr i)) :=
  represents.modifyLogger ptr _ _ (fun _ => ⟨rfl, rfl⟩) (fun _ => rfl) (fun _ _ own => own)
    fun _ attached => ⟨attached.1.erase i, fun j member =>
      attached.2 j (List.mem_of_mem_erase member)⟩

/-- Every allowed call returns, and the registry makes the same change. -/
theorem Represents.call (represents : self.Represents registry) {action : Call}
    (allowed : registry.Allowed action) :
    ∃ next, self.call action = some next ∧ next.Represents (registry.call action) := by
  cases action with
  | newAppender name => exact ⟨_, rfl, represents.newAppender name⟩
  | newFilter filter => exact ⟨_, rfl, represents.newFilter filter⟩
  | setAppenderThreshold i threshold =>
      exact ⟨_, rfl, represents.modifyAppender i
        (fun _ _ serves => ⟨rfl, serves.closed, serves.appended, serves.chain⟩)
        fun _ => List.Subset.refl _⟩
  | addFilter i f => exact represents.addFilter allowed.1 allowed.2.1 allowed.2.2
  | clearFilters i =>
      exact ⟨_, rfl, represents.modifyAppender i
        (fun _ _ serves => ⟨serves.threshold, serves.closed, serves.appended, rfl, rfl,
          List.nodup_nil⟩)
        fun _ => List.nil_subset _⟩
  | close i => exact ⟨_, rfl, represents.close i⟩
  | getLogger name => exact represents.getLogger allowed
  | setLevel ptr level => exact ⟨_, rfl, represents.setLevel ptr level⟩
  | setAdditivity ptr additive =>
      exact ⟨_, rfl, represents.modifyLogger ptr _ _ (fun _ => ⟨rfl, rfl⟩) (fun _ => rfl)
        (fun _ _ own => own) fun _ attached => attached⟩
  | setThreshold level => exact ⟨_, rfl, represents.setThreshold level⟩
  | addAppender ptr i => exact ⟨_, rfl, represents.addAppender ptr allowed⟩
  | removeAppender ptr i => exact ⟨_, rfl, represents.removeAppender ptr i⟩
  | removeAllAppenders ptr => exact ⟨_, rfl, represents.removeAllAppenders ptr⟩
  | shutdown => exact ⟨_, rfl, represents.shutdown⟩
  | resetConfiguration => exact ⟨_, rfl, represents.resetConfiguration⟩
  | log ptr level message => exact represents.log allowed level message

theorem Represents.calls (represents : self.Represents registry) {sequence : List Call}
    (follows : registry.Follows sequence) :
    ∃ state, self.calls sequence = some state ∧
      state.Represents (sequence.foldl Registry.call registry) := by
  induction sequence generalizing self registry with
  | nil => exact ⟨self, rfl, represents⟩
  | cons action sequence ih =>
      obtain ⟨next, ran, represents⟩ := represents.call follows.1
      obtain ⟨state, rest, represents⟩ := ih represents follows.2
      refine ⟨state, ?_, represents⟩
      rw [LoggerRepository.calls, List.foldlM_cons, ran]
      exact rest

theorem create_represents : create.Represents Registry.create where
  rooted := Hierarchy.create_rooted
  wellParented := Hierarchy.create_wellParented
  entries ptr := by
    cases ptr with
    | root => rfl
    | named name => exact congrArg (Option.map Logger.entry) (LogMap.empty_get name)
  threshold := rfl
  filters := rfl
  size := rfl
  serves i appender subscriber found _ := absurd found nofun
  fresh _ _ := rfl
  warned := rfl
  valid := by
    refine ⟨fun i subscriber found => absurd found nofun,
      fun i j one other _ found => absurd found nofun, fun ptr => ?_⟩
    cases ptr <;> exact attached_nil _

theorem Represents.appended (represents : self.Represents registry) :
    self.appenders.map AppenderSkeleton.appended =
      registry.subscribers.map Registry.Subscriber.appended := by
  refine List.ext_getElem (by rw [List.length_map, List.length_map, represents.size]) ?_
  intro i inside inside'
  rw [List.getElem_map, List.getElem_map]
  exact (represents.serves i _ _ (List.getElem?_eq_getElem _) (List.getElem?_eq_getElem _)).appended

def oneFilteredAppender : List Call :=
  [.newAppender "A".toList, .newFilter (.stringMatchFilter "b".toList false), .addFilter 0 0,
    .getLogger "x.y".toList, .addAppender (.named "x.y".toList) 0,
    .log (.named "x.y".toList) Level.getDebug "c".toList]

end Calls

end LoggerRepository

end CodeCollect.Log4cxx
