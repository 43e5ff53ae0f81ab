import CodeCollect.Library.SegmentPrefix
import CodeCollect.Log4cxx.LogString
import CodeCollect.Log4cxx.LogMap

namespace CodeCollect.Log4cxx

/-- A logger pointer leads to the root logger or to the map entry of a name. -/
inductive LoggerPtr where
  | root
  | named (name : LogString)
deriving DecidableEq, Repr

/-- The root logger carries a name like every other logger. -/
def LoggerPtr.name : LoggerPtr → LogString
  | .root => ['r', 'o', 'o', 't']
  | .named name => name

/-- The root logger stands above all names and has no place among them. -/
def LoggerPtr.above : LoggerPtr → Option LogString
  | .root => none
  | .named name => some name

/-- An appender pointer is an index of the objects made so far. -/
abbrev AppenderPtr := Nat

structure Logger where
  name : LogString
  level : Option Level
  parent : Option LoggerPtr
  additive : Bool
  appenderList : List AppenderPtr
deriving DecidableEq, Repr

/-- A new logger has no level, no parent and no appender. -/
def Logger.create (name : LogString) : Logger where
  name := name
  level := none
  parent := none
  additive := true
  appenderList := []

/-- A provision node lists the loggers that wait for an ancestor. -/
abbrev ProvisionNode := List LogString

structure Hierarchy where
  loggers : LogMap Logger
  provisionNodes : LogMap ProvisionNode
  root : Logger
  threshold : Level
  configured : Bool

namespace Hierarchy

/-- The constructor makes the root logger and empty maps. -/
def create : Hierarchy where
  loggers := ∅
  provisionNodes := ∅
  root := { Logger.create LoggerPtr.root.name with level := some Level.getDebug }
  threshold := Level.getAll
  configured := false

def setParent (self : Hierarchy) (name : LogString) (parent : LoggerPtr) : Hierarchy :=
  { self with loggers := self.loggers.modify name fun logger =>
      { logger with parent := some parent } }

/-- The loop body of `updateChildren` reads the parent's name, so a null parent is an error. -/
def updateChild (name : LogString) (self : Hierarchy) (child : LogString) : Option Hierarchy :=
  match self.loggers[child]?.bind Logger.parent with
  | none => none
  | some parent =>
      if StringHelper.startsWith parent.name name then some self
      else some ((self.setParent name parent).setParent child (.named name))

def updateChildren (self : Hierarchy) (pn : ProvisionNode) (name : LogString) :
    Option Hierarchy :=
  pn.foldlM (updateChild name) self

/-- This is the last dot before a position, as `find_last_of` finds it. -/
def lastDotBelow (name : LogString) : Nat → Option Nat
  | 0 => none
  | position + 1 =>
      if name[position]? = some '.' then some position else lastDotBelow name position

/-- The subtraction `i - 1` wraps to `npos` at zero, and the search then starts at the end. -/
def nextDot (name : LogString) (i : Nat) : Option Nat :=
  if i = 0 then lastDotBelow name name.length else lastDotBelow name i

def addProvision (self : Hierarchy) (substr name : LogString) : Hierarchy :=
  { self with
    provisionNodes := self.provisionNodes.insert substr
      ((self.provisionNodes[substr]?).getD [] ++ [name]) }

/-- This is the loop of `updateParents`, which may run for at most `fuel` rounds. -/
def updateParentsFrom (name : LogString) : Nat → Hierarchy → Option Nat → Option Hierarchy
  | _, self, none => some (self.setParent name .root)
  | 0, _, some _ => none
  | fuel + 1, self, some i =>
      let substr := name.take i
      if substr ∈ self.loggers then some (self.setParent name (.named substr))
      else updateParentsFrom name fuel (self.addProvision substr name) (nextDot name i)

/-- One round per character is enough for every loop that ends. -/
def updateParents (self : Hierarchy) (name : LogString) : Option Hierarchy :=
  updateParentsFrom name name.length self (lastDotBelow name name.length)

/-- The returned logger is the entry of the name in the new map. -/
def getLogger (self : Hierarchy) (name : LogString) : Option Hierarchy :=
  if name ∈ self.loggers then some self
  else
    let inserted := { self with loggers := self.loggers.insert name (Logger.create name) }
    match inserted.provisionNodes[name]? with
    | none => inserted.updateParents name
    | some pn => do
        let linked ← inserted.updateChildren pn name
        let erased := { linked with provisionNodes := linked.provisionNodes.erase name }
        erased.updateParents name

/-- A pointer leads to its logger. -/
def logger (self : Hierarchy) : LoggerPtr → Option Logger
  | .root => some self.root
  | .named name => self.loggers[name]?

/-- The root logger refuses a null level. -/
def setLevel (self : Hierarchy) (ptr : LoggerPtr) (level : Option Level) : Hierarchy :=
  match ptr with
  | .root =>
      match level with
      | none => self
      | some level => { self with root := { self.root with level := some level } }
  | .named name =>
      { self with loggers := self.loggers.modify name fun logger => { logger with level := level } }

/-- A null threshold changes nothing. -/
def setThreshold (self : Hierarchy) (level : Option Level) : Hierarchy :=
  match level with
  | none => self
  | some level =>
      { self with
        threshold := level
        configured := self.configured || level.toInt != Level.getAll.toInt }

/-- The appenders are also closed, but a hierarchy holds nothing but the pointers to them. -/
def shutdown (self : Hierarchy) : Hierarchy :=
  { self with
    configured := false
    root := { self.root with appenderList := [] }
    loggers := self.loggers.map fun _ logger => { logger with appenderList := [] } }

def resetConfiguration (self : Hierarchy) : Hierarchy :=
  let cleared := ((self.setLevel .root (some Level.getDebug)).setThreshold
    (some Level.getAll)).shutdown
  { cleared with
    loggers := cleared.loggers.map fun _ logger => { logger with level := none, additive := true } }

/-- A loop over the loggers ends with this exception at a null pointer. -/
inductive Exception where
  | nullPointer (message : LogString)
deriving DecidableEq

/-- This is the loop of `Logger::getEffectiveLevel`, which may run for at most `fuel` rounds. -/
def effectiveLevelFrom (self : Hierarchy) :
    Nat → Option LoggerPtr → Option (Except Exception Level)
  | _, none =>
      some (.error (.nullPointer "No level specified for logger or ancestors.".toList))
  | 0, some _ => none
  | fuel + 1, some l => do
      let logger ← self.logger l
      match logger.level with
      | some level => some (.ok level)
      | none => self.effectiveLevelFrom fuel logger.parent

/-- The root logger returns its own level, which may be null, and the others run the loop. -/
def getEffectiveLevel (self : Hierarchy) : LoggerPtr → Option (Except Exception (Option Level))
  | .root => some (.ok self.root.level)
  | .named name =>
      (self.effectiveLevelFrom (name.length + 2) (some (.named name))).map (Except.map some)

/-- These are the calls of `getLogger` on one repository, in order. -/
def getLoggers (self : Hierarchy) (names : List LogString) : Option Hierarchy :=
  names.foldlM getLogger self

end Hierarchy

end CodeCollect.Log4cxx
