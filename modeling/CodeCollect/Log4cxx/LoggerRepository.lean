import CodeCollect.Log4cxx.AsyncAppender
import CodeCollect.Log4cxx.EffectiveLevel
import CodeCollect.Log4cxx.Layout

namespace CodeCollect.Log4cxx

inductive FilterDecision where
  | DENY
  | NEUTRAL
  | ACCEPT
deriving DecidableEq, Repr

/-- A filter without a level of its own bounds nothing and matches nothing. -/
inductive Filter where
  | levelRangeFilter (levelMin levelMax : Option Level) (acceptOnMatch : Bool)
  | levelMatchFilter (levelToMatch : Option Level) (acceptOnMatch : Bool)
  | stringMatchFilter (stringToMatch : LogString) (acceptOnMatch : Bool)
  | denyAllFilter
deriving DecidableEq, Repr

namespace Filter

def LevelRangeFilter.decide (levelMin levelMax : Option Level) (acceptOnMatch : Bool)
    (event : LoggingEvent) : FilterDecision :=
  if levelMin.any fun level => !event.level.isGreaterOrEqual level then .DENY
  else if levelMax.any fun level => event.level.toInt > level.toInt then .DENY
  else if acceptOnMatch then .ACCEPT
  else .NEUTRAL

def LevelMatchFilter.decide (levelToMatch : Option Level) (acceptOnMatch : Bool)
    (event : LoggingEvent) : FilterDecision :=
  if levelToMatch.any fun level => level.equals event.level then
    if acceptOnMatch then .ACCEPT else .DENY
  else .NEUTRAL

def StringMatchFilter.decide (stringToMatch : LogString) (acceptOnMatch : Bool)
    (event : LoggingEvent) : FilterDecision :=
  if event.message = [] ∨ stringToMatch = [] then .NEUTRAL
  else if ¬ stringToMatch <:+: event.message then .NEUTRAL
  else if acceptOnMatch then .ACCEPT
  else .DENY

def decide (event : LoggingEvent) : Filter → FilterDecision
  | levelRangeFilter levelMin levelMax acceptOnMatch =>
      LevelRangeFilter.decide levelMin levelMax acceptOnMatch event
  | levelMatchFilter levelToMatch acceptOnMatch =>
      LevelMatchFilter.decide levelToMatch acceptOnMatch event
  | stringMatchFilter stringToMatch acceptOnMatch =>
      StringMatchFilter.decide stringToMatch acceptOnMatch event
  | denyAllFilter => .DENY

end Filter

/-- A filter pointer is an index of the objects made so far. -/
abbrev FilterPtr := Nat

structure AppenderSkeleton where
  name : LogString
  threshold : Level
  headFilter : Option FilterPtr
  tailFilter : Option FilterPtr
  closed : Bool
  appended : List LoggingEvent
deriving DecidableEq, Repr

namespace AppenderSkeleton

def create (name : LogString) : AppenderSkeleton where
  name := name
  threshold := Level.getAll
  headFilter := none
  tailFilter := none
  closed := false
  appended := []

def isAsSevereAsThreshold (self : AppenderSkeleton) (level : Level) : Bool :=
  level.isGreaterOrEqual self.threshold

/-- This is what a class of appenders does with an event that comes through. -/
def append (event : LoggingEvent) (self : AppenderSkeleton) : AppenderSkeleton :=
  { self with appended := self.appended ++ [event] }

end AppenderSkeleton

namespace Hierarchy

def modifyLogger (self : Hierarchy) (ptr : LoggerPtr) (change : Logger → Logger) : Hierarchy :=
  match ptr with
  | .root => { self with root := change self.root }
  | .named name => { self with loggers := self.loggers.modify name change }

def setAdditivity (self : Hierarchy) (ptr : LoggerPtr) (additive : Bool) : Hierarchy :=
  self.modifyLogger ptr fun logger => { logger with additive := additive }

/-- An appender that is there already is not added again. -/
def addAppender (self : Hierarchy) (ptr : LoggerPtr) (newAppender : AppenderPtr) : Hierarchy :=
  let added := self.modifyLogger ptr fun logger =>
    if newAppender ∈ logger.appenderList then logger
    else { logger with appenderList := logger.appenderList ++ [newAppender] }
  { added with configured := true }

def removeAppender (self : Hierarchy) (ptr : LoggerPtr) (appender : AppenderPtr) : Hierarchy :=
  self.modifyLogger ptr fun logger =>
    { logger with appenderList := logger.appenderList.erase appender }

theorem modifyLogger_get (tree : Hierarchy) (ptr other : LoggerPtr) (change : Logger → Logger) :
    (tree.modifyLogger ptr change).logger other =
      if other = ptr then (tree.logger other).map change else tree.logger other := by
  cases ptr with
  | root => cases other <;> rfl
  | named name =>
      cases other with
      | root => rfl
      | named other =>
          change (tree.loggers.modify name change)[other]? = _
          rw [LogMap.modify_get]
          by_cases same : name = other
          · rw [if_pos same, if_pos (congrArg _ same.symm)]
            rfl
          · rw [if_neg same, if_neg fun equal => same (LoggerPtr.named.inj equal).symm]
            rfl

theorem modifyLogger_sameLinks (tree : Hierarchy) (ptr : LoggerPtr) {change : Logger → Logger}
    (keeps : ∀ logger, (change logger).name = logger.name ∧ (change logger).parent = logger.parent) :
    SameLinks tree (tree.modifyLogger ptr change) := by
  cases ptr with
  | root => exact ⟨fun _ => rfl, rfl, (keeps tree.root).2⟩
  | named name =>
      refine ⟨fun other => ?_, rfl, rfl⟩
      change ((tree.loggers.modify name change)[other]?).map _ = _
      rw [LogMap.modify_get]
      split
      · rw [Option.map_map]
        refine congrFun (congrArg _ (funext fun logger => ?_)) _
        exact Prod.ext (keeps logger).1 (keeps logger).2
      · rfl

end Hierarchy

/-- A repository is a hierarchy together with the appenders and filters that its callers made. -/
structure LoggerRepository where
  hierarchy : Hierarchy
  emittedNoAppenderWarning : Bool
  appenders : List AppenderSkeleton
  filters : List Filter
  next : FilterPtr → Option FilterPtr
  logLog : List LogString

namespace LoggerRepository

def create : LoggerRepository where
  hierarchy := Hierarchy.create
  emittedNoAppenderWarning := false
  appenders := []
  filters := []
  next := fun _ => none
  logLog := []

section Appenders

variable (self : LoggerRepository) (event : LoggingEvent)

def modifyAppender (i : AppenderPtr) (change : AppenderSkeleton → AppenderSkeleton) :
    LoggerRepository :=
  { self with appenders := self.appenders.modify i change }

/-- The old next filter of the new one is kept. -/
def addFilter (i : AppenderPtr) (newFilter : FilterPtr) : Option LoggerRepository := do
  let appender ← self.appenders[i]?
  match appender.headFilter, appender.tailFilter with
  | none, _ =>
      some (self.modifyAppender i fun appender =>
        { appender with headFilter := some newFilter, tailFilter := some newFilter })
  | some _, none => none
  | some _, some tail =>
      some { self.modifyAppender i fun appender => { appender with tailFilter := some newFilter } with
        next := Function.update self.next tail (some newFilter) }

def clearFilters (i : AppenderPtr) : LoggerRepository :=
  self.modifyAppender i fun appender => { appender with headFilter := none, tailFilter := none }

def close (i : AppenderPtr) : LoggerRepository :=
  self.modifyAppender i fun appender => { appender with closed := true }

/-- This is the loop over the filters, which may run for at most `fuel` rounds. -/
def decideFrom : Nat → Option FilterPtr → Option Bool
  | _, none => some true
  | 0, some _ => none
  | fuel + 1, some f => do
      let filter ← self.filters[f]?
      match filter.decide event with
      | .DENY => some false
      | .ACCEPT => some true
      | .NEUTRAL => decideFrom fuel (self.next f)

/-- One round per filter is enough for every loop that ends. -/
def doAppend (i : AppenderPtr) : Option LoggerRepository := do
  let appender ← self.appenders[i]?
  if appender.closed then
    some { self with
      logLog := self.logLog ++ ["Attempted to append to closed appender named [".toList ++
        appender.name ++ "].".toList] }
  else if !appender.isAsSevereAsThreshold event.level then some self
  else
    let accepted ← self.decideFrom event self.filters.length appender.headFilter
    if accepted then some (self.modifyAppender i (.append event)) else some self

end Appenders

section Loggers

variable (self : LoggerRepository)

def appendLoopOnAppenders (event : LoggingEvent) (appenderList : List AppenderPtr) :
    Option (LoggerRepository × Nat) := do
  let self ← appenderList.foldlM (fun self i => self.doAppend event i) self
  some (self, appenderList.length)

/-- This is the loop of `Logger::callAppenders`, which may run for at most `fuel` rounds. -/
def callAppendersFrom (event : LoggingEvent) :
    Nat → LoggerRepository → Nat → Option LoggerPtr → Option (LoggerRepository × Nat)
  | _, self, writes, none => some (self, writes)
  | 0, _, _, some _ => none
  | fuel + 1, self, writes, some l => do
      let logger ← self.hierarchy.logger l
      let (self, size) ← self.appendLoopOnAppenders event logger.appenderList
      if !logger.additive then some (self, writes + size)
      else callAppendersFrom event fuel self (writes + size) logger.parent

def emitNoAppenderWarning (ptr : LoggerPtr) : LoggerRepository :=
  if self.emittedNoAppenderWarning then self
  else
    { self with
      emittedNoAppenderWarning := true
      logLog := self.logLog ++
        ["No appender could be found for logger (".toList ++ ptr.name ++ ").".toList,
          "Please initialize the log4cxx system properly.".toList] }

/-- A parent has a lower rank, so one round more than the rank is enough. -/
def callAppenders (event : LoggingEvent) (ptr : LoggerPtr) : Option LoggerRepository := do
  let (self, writes) ← callAppendersFrom event (Hierarchy.rank ptr + 1) self 0 (some ptr)
  some (if writes = 0 then self.emitNoAppenderWarning ptr else self)

/-- The default configuration does nothing more where there is no configuration file. -/
def isDisabled (level : Int) : LoggerRepository × Bool :=
  ({ self with hierarchy := { self.hierarchy with configured := true } },
    self.hierarchy.threshold.toInt > level)

def isEnabledFor (ptr : LoggerPtr) (level : Level) : Option (LoggerRepository × Bool) := do
  let (self, disabled) := self.isDisabled level.toInt
  if disabled then some (self, false)
  else
    match ← self.hierarchy.getEffectiveLevel ptr with
    | .ok (some effective) => some (self, level.isGreaterOrEqual effective)
    | _ => none

def log (ptr : LoggerPtr) (level : Level) (message : LogString) : Option LoggerRepository := do
  let (self, enabled) ← self.isEnabledFor ptr level
  if enabled then self.callAppenders ⟨ptr.name, level, message⟩ ptr else some self

def closeNestedAppenders (logger : Logger) : LoggerRepository := logger.appenderList.foldl close self

/-- The appenders are closed before they are removed. -/
def removeAllAppenders (ptr : LoggerPtr) : LoggerRepository :=
  match self.hierarchy.logger ptr with
  | none => self
  | some logger =>
      { self.closeNestedAppenders logger with
        hierarchy := self.hierarchy.modifyLogger ptr fun logger =>
          { logger with appenderList := [] } }

/-- An appender that is closed again stays closed. -/
def shutdown : LoggerRepository :=
  let root := self.closeNestedAppenders self.hierarchy.root
  let closed := (self.hierarchy.loggers.toList.map Prod.snd).foldl closeNestedAppenders root
  { closed with hierarchy := self.hierarchy.shutdown }

def resetConfiguration : LoggerRepository :=
  { self.shutdown with hierarchy := self.hierarchy.resetConfiguration }

end Loggers

/-- The callers of the library make these calls. -/
inductive Call where
  | newAppender (name : LogString)
  | newFilter (filter : Filter)
  | setAppenderThreshold (i : AppenderPtr) (threshold : Level)
  | addFilter (i : AppenderPtr) (newFilter : FilterPtr)
  | clearFilters (i : AppenderPtr)
  | close (i : AppenderPtr)
  | getLogger (name : LogString)
  | setLevel (ptr : LoggerPtr) (level : Option Level)
  | setAdditivity (ptr : LoggerPtr) (additive : Bool)
  | setThreshold (level : Option Level)
  | addAppender (ptr : LoggerPtr) (newAppender : AppenderPtr)
  | removeAppender (ptr : LoggerPtr) (appender : AppenderPtr)
  | removeAllAppenders (ptr : LoggerPtr)
  | shutdown
  | resetConfiguration
  | log (ptr : LoggerPtr) (level : Level) (message : LogString)

def call (self : LoggerRepository) : Call → Option LoggerRepository
  | .newAppender name => some { self with appenders := self.appenders ++ [.create name] }
  | .newFilter filter => some { self with filters := self.filters ++ [filter] }
  | .setAppenderThreshold i threshold =>
      some (self.modifyAppender i fun appender => { appender with threshold := threshold })
  | .addFilter i newFilter => self.addFilter i newFilter
  | .clearFilters i => some (self.clearFilters i)
  | .close i => some (self.close i)
  | .getLogger name => do
      let hierarchy ← self.hierarchy.getLogger name
      some { self with hierarchy := hierarchy }
  | .setLevel ptr level => some { self with hierarchy := self.hierarchy.setLevel ptr level }
  | .setAdditivity ptr additive =>
      some { self with hierarchy := self.hierarchy.setAdditivity ptr additive }
  | .setThreshold level => some { self with hierarchy := self.hierarchy.setThreshold level }
  | .addAppender ptr newAppender =>
      some { self with hierarchy := self.hierarchy.addAppender ptr newAppender }
  | .removeAppender ptr appender =>
      some { self with hierarchy := self.hierarchy.removeAppender ptr appender }
  | .removeAllAppenders ptr => some (self.removeAllAppenders ptr)
  | .shutdown => some self.shutdown
  | .resetConfiguration => some self.resetConfiguration
  | .log ptr level message => self.log ptr level message

def calls (self : LoggerRepository) (sequence : List Call) : Option LoggerRepository :=
  sequence.foldlM call self

end LoggerRepository

end CodeCollect.Log4cxx
