import CodeCollect.Library.Ascent
import CodeCollect.Log4cxx.LoggerRepository

namespace CodeCollect.Log4cxx

open CodeCollect.Library

/-- One logger is above another one when its name is, and the root logger is above all others. -/
def LoggerPtr.Above : LoggerPtr → LoggerPtr → Prop
  | .root, .named _ => True
  | .named upper, .named lower => Library.Above '.' upper lower
  | _, .root => False

/-- A registry knows loggers by their names and has no links between them. -/
structure Registry.Entry where
  level : Option Level
  additive : Bool
  appenderList : List AppenderPtr

structure Registry.Subscriber where
  threshold : Level
  filters : List FilterPtr
  closed : Bool
  appended : List LoggingEvent

structure Registry where
  entries : LoggerPtr → Option Registry.Entry
  threshold : Level
  subscribers : List Registry.Subscriber
  filters : List Filter
  used : Set FilterPtr
  warned : Bool

namespace Registry

def create : Registry where
  entries
    | .root => some ⟨some Level.getDebug, true, []⟩
    | .named _ => none
  threshold := Level.getAll
  subscribers := []
  filters := []
  used := ∅
  warned := false

section Delivery

variable (self : Registry) (ptr place : LoggerPtr)

def levelOf : Option Level := (self.entries ptr).bind Entry.level

def additive : Bool := (self.entries ptr).any Entry.additive

def appendersOf : List AppenderPtr := ((self.entries ptr).map Entry.appenderList).getD []

/-- The logger and those above it. -/
def ancestry : Set LoggerPtr := {place | self.entries place ≠ none ∧ (place = ptr ∨ place.Above ptr)}

/-- An event gets to the loggers that all loggers on the way pass it on to. -/
def Hears : Prop :=
  place ∈ self.ancestry ptr ∧ ∀ below ∈ self.ancestry ptr, place.Above below → self.additive below

/-- The level of a logger is the nearest one above it. -/
def HasLevel (level : Level) : Prop :=
  ∃ place ∈ self.ancestry ptr, self.levelOf place = some level ∧
    ∀ below ∈ self.ancestry ptr, place.Above below → self.levelOf below = none

def Enabled (level : Level) : Prop :=
  self.threshold.toInt ≤ level.toInt ∧ ∃ own, self.HasLevel ptr own ∧ own.toInt ≤ level.toInt

/-- The first filter that is not neutral decides. -/
def verdict (event : LoggingEvent) (filters : List Filter) : FilterDecision :=
  ((filters.map (·.decide event)).find? (· ≠ .NEUTRAL)).getD .NEUTRAL

def Admits (event : LoggingEvent) (subscriber : Subscriber) : Prop :=
  subscriber.closed = false ∧ subscriber.threshold.toInt ≤ event.level.toInt ∧
    verdict event (subscriber.filters.filterMap (self.filters[·]?)) ≠ .DENY

instance (event : LoggingEvent) (subscriber : Subscriber) :
    Decidable (self.Admits event subscriber) :=
  inferInstanceAs (Decidable (_ ∧ _))

/-- An appender gets one copy from each of its loggers that hear the event. -/
noncomputable def copies (i : AppenderPtr) : Nat :=
  {place | self.Hears ptr place ∧ i ∈ self.appendersOf place}.ncard

open Classical in
noncomputable def log (level : Level) (message : LogString) : Registry :=
  let event := ⟨ptr.name, level, message⟩
  if self.Enabled ptr level then
    { self with
      subscribers := self.subscribers.mapIdx fun i subscriber =>
        if self.Admits event subscriber then
          { subscriber with
            appended := subscriber.appended ++ List.replicate (self.copies ptr i) event }
        else subscriber
      warned := self.warned || ∀ place, self.Hears ptr place → self.appendersOf place = [] }
  else self

end Delivery

section Changes

variable (self : Registry)

def modifyEntry (ptr : LoggerPtr) (change : Entry → Entry) : Registry :=
  { self with
    entries := fun other => if other = ptr then (self.entries other).map change
      else self.entries other }

def modifySubscriber (i : AppenderPtr) (change : Subscriber → Subscriber) : Registry :=
  { self with subscribers := self.subscribers.modify i change }

open Classical in
noncomputable def closeAll (chosen : Set AppenderPtr) : Registry :=
  { self with
    subscribers := self.subscribers.mapIdx fun i subscriber =>
      if i ∈ chosen then { subscriber with closed := true } else subscriber }

noncomputable def shutdown : Registry :=
  { self.closeAll {i | ∃ ptr, i ∈ self.appendersOf ptr} with
    entries := fun ptr => (self.entries ptr).map fun entry => { entry with appenderList := [] } }

noncomputable def resetConfiguration : Registry :=
  { self.shutdown with
    entries := fun ptr => (self.entries ptr).map fun entry =>
      match ptr with
      | .root => ⟨some Level.getDebug, entry.additive, []⟩
      | .named _ => ⟨none, true, []⟩
    threshold := Level.getAll }

noncomputable def call : LoggerRepository.Call → Registry
  | .newAppender _ =>
      { self with subscribers := self.subscribers ++ [⟨Level.getAll, [], false, []⟩] }
  | .newFilter filter => { self with filters := self.filters ++ [filter] }
  | .setAppenderThreshold i threshold =>
      self.modifySubscriber i fun subscriber => { subscriber with threshold := threshold }
  | .addFilter i newFilter =>
      { self.modifySubscriber i fun subscriber =>
          { subscriber with filters := subscriber.filters ++ [newFilter] } with
        used := insert newFilter self.used }
  | .clearFilters i => self.modifySubscriber i fun subscriber => { subscriber with filters := [] }
  | .close i => self.modifySubscriber i fun subscriber => { subscriber with closed := true }
  | .getLogger name =>
      { self with
        entries := fun ptr =>
          if ptr = .named name then some ((self.entries ptr).getD ⟨none, true, []⟩)
          else self.entries ptr }
  | .setLevel ptr level =>
      if ptr = .root ∧ level = none then self
      else self.modifyEntry ptr fun entry => { entry with level := level }
  | .setAdditivity ptr additive =>
      self.modifyEntry ptr fun entry => { entry with additive := additive }
  | .setThreshold level => { self with threshold := level.getD self.threshold }
  | .addAppender ptr newAppender =>
      self.modifyEntry ptr fun entry =>
        { entry with
          appenderList := if newAppender ∈ entry.appenderList then entry.appenderList
            else entry.appenderList ++ [newAppender] }
  | .removeAppender ptr appender =>
      self.modifyEntry ptr fun entry =>
        { entry with appenderList := entry.appenderList.erase appender }
  | .removeAllAppenders ptr =>
      (self.closeAll {i | i ∈ self.appendersOf ptr}).modifyEntry ptr fun entry =>
        { entry with appenderList := [] }
  | .shutdown => self.shutdown
  | .resetConfiguration => self.resetConfiguration
  | .log ptr level message => self.log ptr level message

end Changes

/-- Callers add a filter only once, log to loggers that are there, and use plain names. A name that
the root's name starts with must not come after names below it. -/
def Allowed (self : Registry) : LoggerRepository.Call → Prop
  | .addFilter i newFilter =>
      i < self.subscribers.length ∧ newFilter < self.filters.length ∧ newFilter ∉ self.used
  | .getLogger name => name[0]? ≠ some '.' ∧
      (self.entries (.named name) = none → name <+: LoggerPtr.root.name →
        ∀ below, self.entries (.named below) ≠ none → ¬ Library.Above '.' name below)
  | .addAppender _ newAppender => newAppender < self.subscribers.length
  | .log ptr _ _ => self.entries ptr ≠ none
  | _ => True

/-- Every call is allowed in the registry that the calls before it lead to. -/
def Follows : Registry → List LoggerRepository.Call → Prop
  | _, [] => True
  | self, call :: sequence => self.Allowed call ∧ (self.call call).Follows sequence

end Registry

namespace LoggerPtr

theorem Above.asymm {upper lower : LoggerPtr} (above : upper.Above lower) :
    ¬ lower.Above upper := by
  intro back
  cases upper with
  | root => cases lower <;> exact back
  | named upper =>
      cases lower with
      | root => exact above
      | named lower => exact lt_asymm (Library.Above.length_lt above) (Library.Above.length_lt back)

end LoggerPtr

/-- Filters and appenders of a registry are in range, and no filter has two places. -/
structure Registry.Valid (registry : Registry) : Prop where
  used : ∀ (i : AppenderPtr) (subscriber : Registry.Subscriber),
    registry.subscribers[i]? = some subscriber →
      ∀ f ∈ subscriber.filters, f ∈ registry.used ∧ f < registry.filters.length
  apart : ∀ (i j : AppenderPtr) (one other : Registry.Subscriber), i ≠ j →
    registry.subscribers[i]? = some one → registry.subscribers[j]? = some other →
      ∀ f ∈ one.filters, f ∉ other.filters
  attached : ∀ ptr, (registry.appendersOf ptr).Nodup ∧
    ∀ i ∈ registry.appendersOf ptr, i < registry.subscribers.length

namespace Registry

variable {self other : Registry}

theorem verdict_cons (event : LoggingEvent) (filter : Filter) (filters : List Filter) :
    verdict event (filter :: filters) =
      if filter.decide event = .NEUTRAL then verdict event filters
      else filter.decide event := by
  rw [verdict, List.map_cons, List.find?_cons]
  cases filter.decide event <;> rfl

/-- A change that takes filters and appenders away keeps a registry valid. -/
theorem Valid.weaken (valid : self.Valid)
    (size : self.subscribers.length ≤ other.subscribers.length)
    (older : ∀ (i : AppenderPtr) (subscriber : Subscriber), other.subscribers[i]? = some subscriber →
      ∀ f ∈ subscriber.filters, ∃ before, self.subscribers[i]? = some before ∧ f ∈ before.filters)
    (used : self.used ⊆ other.used) (filters : self.filters.length ≤ other.filters.length)
    (attached : ∀ ptr, (other.appendersOf ptr).Sublist (self.appendersOf ptr)) : other.Valid where
  used i subscriber found f member := by
    obtain ⟨before, present, inside⟩ := older i subscriber found f member
    obtain ⟨known, bound⟩ := valid.used i before present f inside
    exact ⟨used known, bound.trans_le filters⟩
  apart i j one another differ first second f member inside := by
    obtain ⟨before, present, left⟩ := older i one first f member
    obtain ⟨before', present', right⟩ := older j another second f inside
    exact valid.apart i j before before' differ present present' f left right
  attached ptr := by
    obtain ⟨once, bound⟩ := valid.attached ptr
    exact ⟨once.sublist (attached ptr), fun i member =>
      (bound i ((attached ptr).subset member)).trans_le size⟩

theorem modifySubscriber_get (i j : AppenderPtr) (change : Subscriber → Subscriber) :
    (self.modifySubscriber i change).subscribers[j]? =
      (self.subscribers[j]?).map fun subscriber =>
        if i = j then change subscriber else subscriber := by
  rw [modifySubscriber, List.getElem?_modify, Option.map_eq_map]

theorem Valid.modifySubscriber (valid : self.Valid) (i : AppenderPtr)
    {change : Subscriber → Subscriber}
    (keeps : ∀ subscriber, (change subscriber).filters ⊆ subscriber.filters) :
    (self.modifySubscriber i change).Valid := by
  refine valid.weaken (List.length_modify ..).ge (fun j subscriber found f member => ?_)
    (Set.Subset.refl _) (Nat.le_refl _) (fun _ => .refl _)
  rw [modifySubscriber_get] at found
  obtain ⟨before, present, rfl⟩ := Option.map_eq_some_iff.mp found
  refine ⟨before, present, ?_⟩
  split at member
  · exact keeps before member
  · exact member

/-- A new filter has its place at the end of one appender's. -/
theorem Valid.addFilter (valid : self.Valid) (i : AppenderPtr) {f : FilterPtr}
    (known : f < self.filters.length) (unused : f ∉ self.used) :
    (self.call (.addFilter i f)).Valid := by
  have places (j : AppenderPtr) (subscriber : Subscriber)
      (found : (self.call (.addFilter i f)).subscribers[j]? = some subscriber) (g : FilterPtr)
      (member : g ∈ subscriber.filters) : g = f ∧ i = j ∨
        ∃ before, self.subscribers[j]? = some before ∧ g ∈ before.filters := by
    change (self.modifySubscriber i _).subscribers[j]? = _ at found
    rw [modifySubscriber_get] at found
    obtain ⟨before, present, rfl⟩ := Option.map_eq_some_iff.mp found
    split at member
    · rename_i here
      rcases List.mem_append.mp member with old | new
      · exact .inr ⟨before, present, old⟩
      · exact .inl ⟨List.mem_singleton.mp new, here⟩
    · exact .inr ⟨before, present, member⟩
  refine ⟨fun j subscriber found g member => ?_, fun j k one other differ first second g left right =>
    ?_, fun ptr => ⟨(valid.attached ptr).1, fun k member => ?_⟩⟩
  · rcases places j subscriber found g member with ⟨rfl, -⟩ | ⟨before, present, inside⟩
    · exact ⟨Set.mem_insert g self.used, known⟩
    · obtain ⟨used, bound⟩ := valid.used j before present g inside
      exact ⟨Set.mem_insert_of_mem f used, bound⟩
  · rcases places j one first g left with ⟨rfl, here⟩ | ⟨before, present, inside⟩
    · rcases places k other second g right with ⟨-, there⟩ | ⟨before, present, inside⟩
      · exact differ (here.symm.trans there)
      · exact unused (valid.used k before present g inside).1
    · rcases places k other second g right with ⟨rfl, -⟩ | ⟨before', present', inside'⟩
      · exact unused (valid.used j before present g inside).1
      · exact valid.apart j k before before' differ present present' g inside inside'
  · change k < (self.subscribers.modify i _).length
    rw [List.length_modify]
    exact (valid.attached ptr).2 k member

/-- A change counts only for the subscriber that is there. -/
theorem modifySubscriber_congr {i : AppenderPtr} {subscriber : Subscriber}
    (found : self.subscribers[i]? = some subscriber) {change change' : Subscriber → Subscriber}
    (same : change subscriber = change' subscriber) :
    self.modifySubscriber i change = self.modifySubscriber i change' := by
  have equal : (self.modifySubscriber i change).subscribers =
      (self.modifySubscriber i change').subscribers := by
    refine List.ext_getElem? fun j => ?_
    rw [modifySubscriber_get, modifySubscriber_get]
    by_cases here : i = j
    · rw [← here, found, Option.map_some, Option.map_some, if_pos rfl, if_pos rfl, same]
    · simp only [if_neg here]
  rw [modifySubscriber, modifySubscriber]
  exact congrArg (fun subscribers => { self with subscribers := subscribers }) equal

theorem modifySubscriber_id (i : AppenderPtr) : self.modifySubscriber i id = self := by
  rw [modifySubscriber, List.modify_id]

def receive (self : Registry) (event : LoggingEvent) (subscriber : Subscriber) : Subscriber :=
  if self.Admits event subscriber then
    { subscriber with appended := subscriber.appended ++ [event] }
  else subscriber

/-- One appender is called with an event. -/
def deliver (self : Registry) (event : LoggingEvent) (i : AppenderPtr) : Registry :=
  self.modifySubscriber i (self.receive event)

theorem foldl_deliver (self : Registry) (event : LoggingEvent) (called : List AppenderPtr) :
    called.foldl (fun self i => self.deliver event i) self =
      { self with
        subscribers := called.foldl (fun subscribers i => subscribers.modify i (self.receive event))
          self.subscribers } := by
  induction called generalizing self with
  | nil => rfl
  | cons i called ih => rw [List.foldl_cons, ih]; rfl

/-- An appender that is called some times gets as many copies. -/
theorem receive_iterate (self : Registry) (event : LoggingEvent) (count : Nat)
    (subscriber : Subscriber) : (self.receive event)^[count] subscriber =
      if self.Admits event subscriber then
        { subscriber with appended := subscriber.appended ++ List.replicate count event }
      else subscriber := by
  induction count with
  | zero =>
      rw [Function.iterate_zero, id_eq, List.replicate_zero, List.append_nil]
      split <;> rfl
  | succ count ih =>
      rw [Function.iterate_succ_apply', ih]
      by_cases admits : self.Admits event subscriber
      · have still : self.Admits event { subscriber with
            appended := subscriber.appended ++ List.replicate count event } := admits
        rw [if_pos admits, if_pos admits, receive, if_pos still, List.replicate_succ',
          ← List.append_assoc]
      · rw [if_neg admits, if_neg admits, receive, if_neg admits]

theorem subscribers_deliver (self : Registry) (event : LoggingEvent) (called : List AppenderPtr)
    (copies : AppenderPtr → Nat) (counted : ∀ i, called.count i = copies i) :
    called.foldl (fun subscribers i => subscribers.modify i (self.receive event)) self.subscribers =
      self.subscribers.mapIdx fun i subscriber =>
        if self.Admits event subscriber then
          { subscriber with appended := subscriber.appended ++ List.replicate (copies i) event }
        else subscriber := by
  refine List.ext_getElem? fun i => ?_
  rw [foldl_modify, List.getElem?_mapIdx, counted]
  refine congrFun (congrArg _ (funext fun subscriber => ?_)) _
  exact self.receive_iterate event (copies i) subscriber

end Registry

end CodeCollect.Log4cxx
