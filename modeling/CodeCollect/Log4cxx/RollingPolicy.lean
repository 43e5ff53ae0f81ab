import CodeCollect.Log4cxx.RolloverDescription

namespace CodeCollect.Log4cxx

open CodeCollect.Library

variable {Content : Type}

namespace FixedWindowRollingPolicy

/-- This constant is `MAX_WINDOW_SIZE`. -/
def maxWindowSize : Int := 12

def hasIntegerPatternConverter (pattern : FileNamePattern) : Bool :=
  pattern.any fun (converter, _) => converter = .integer

/-- The result is missing when an exception leaves `activateOptions`. -/
def activateOptions (self : FixedWindowRollingPolicy) : Option FixedWindowRollingPolicy :=
  let ordered := if self.maxIndex < self.minIndex then self.minIndex else self.maxIndex
  let bounded :=
    if ordered - self.minIndex > maxWindowSize then self.minIndex + maxWindowSize else ordered
  if hasIntegerPatternConverter self.fileNamePattern then some { self with maxIndex := bounded }
  else none

def initializePolicy (self : FixedWindowRollingPolicy) (file : LogString) (append : Bool) :
    FixedWindowRollingPolicy × RolloverDescription :=
  let explicitActiveFile := !file.isEmpty
  let newActiveFile :=
    if explicitActiveFile then file else self.fileNamePattern.formatFileName self.minIndex
  ({ self with explicitActiveFile }, ⟨newActiveFile, append, none, none⟩)

/-- The archives begin behind the active file when that file has the lowest index. -/
def purgeStart (self : FixedWindowRollingPolicy) : Int :=
  if self.explicitActiveFile then self.minIndex else self.minIndex + 1

/-- The new archive has this name, perhaps with a suffix of compression. -/
def archiveName (self : FixedWindowRollingPolicy) : LogString :=
  self.fileNamePattern.formatFileName self.purgeStart

def suffixLength (self : FixedWindowRollingPolicy) : Nat := compressedLength self.archiveName

/-- A missing result is an exception, and a missing description means that nothing is to be done. -/
def rollover (self : FixedWindowRollingPolicy) (fails : FileOperation → Bool)
    (files : Files Content) (currentFileName : LogString) :
    Option (Option RolloverDescription × Files Content) :=
  if 0 ≤ self.maxIndex then
    (purge self.fileNamePattern fails self.purgeStart self.maxIndex files).map fun purged =>
      if purged.done then
        let renameTo := baseName self.suffixLength self.archiveName
        (some ⟨currentFileName, false, some (.rename ⟨currentFileName, renameTo⟩),
          compressAction self.suffixLength renameTo self.archiveName⟩, purged.store)
      else (none, purged.store)
  else some (none, files)

end FixedWindowRollingPolicy

/-- The date pattern is known by the names that it gives to the points of time. -/
structure TimeBasedRollingPolicy where
  formatFileName : Int → LogString
  nextCheck : Int
  lastFileName : LogString
  suffixLength : Nat

namespace TimeBasedRollingPolicy

/-- This constant is `APR_USEC_PER_SEC`. -/
def usecPerSec : Int := 1000000

/-- The division of the source truncates. -/
def nextCheckAfter (n : Int) : Int := (n.tdiv usecPerSec + 1) * usecPerSec

def activateOptions (self : TimeBasedRollingPolicy) (n : Int) : TimeBasedRollingPolicy :=
  let lastFileName := self.formatFileName n
  { self with lastFileName, suffixLength := compressedLength lastFileName }

def initializePolicy (self : TimeBasedRollingPolicy) (n : Int) (currentActiveFile : LogString)
    (append : Bool) : TimeBasedRollingPolicy × RolloverDescription :=
  let lastFileName := self.formatFileName n
  let activeFile :=
    if currentActiveFile.isEmpty then baseName self.suffixLength lastFileName
    else currentActiveFile
  ({ self with nextCheck := nextCheckAfter n, lastFileName }, ⟨activeFile, append, none, none⟩)

def rollover (self : TimeBasedRollingPolicy) (n : Int) (currentActiveFile : LogString) :
    Option RolloverDescription × TimeBasedRollingPolicy :=
  let newFileName := self.formatFileName n
  if newFileName = self.lastFileName then
    (none, { self with nextCheck := nextCheckAfter n })
  else
    let lastBaseName := baseName self.suffixLength self.lastFileName
    -- An active file that does not follow the pattern is renamed and keeps its name.
    let follows := currentActiveFile == lastBaseName
    let renameAction :=
      if follows then none else some (.rename ⟨currentActiveFile, lastBaseName⟩)
    let nextActiveFile :=
      if follows then baseName self.suffixLength newFileName else currentActiveFile
    (some ⟨nextActiveFile, false, renameAction,
        compressAction self.suffixLength lastBaseName self.lastFileName⟩,
      { self with nextCheck := nextCheckAfter n, lastFileName := newFileName })

def isTriggeringEvent (self : TimeBasedRollingPolicy) (n : Int) : Bool :=
  decide (n > self.nextCheck)

end TimeBasedRollingPolicy

inductive RollingPolicy where
  | fixedWindow (policy : FixedWindowRollingPolicy)
  | timeBased (policy : TimeBasedRollingPolicy)

namespace RollingPolicy

def activateOptions (n : Int) : RollingPolicy → Option RollingPolicy
  | .fixedWindow policy => policy.activateOptions.map .fixedWindow
  | .timeBased policy => some (.timeBased (policy.activateOptions n))

def initializePolicy (n : Int) (file : LogString) (append : Bool) :
    RollingPolicy → RollingPolicy × RolloverDescription
  | .fixedWindow policy =>
      let (initialized, description) := policy.initializePolicy file append
      (.fixedWindow initialized, description)
  | .timeBased policy =>
      let (initialized, description) := policy.initializePolicy n file append
      (.timeBased initialized, description)

/-- A time based policy touches no file of its own. -/
def rollover (fails : FileOperation → Bool) (files : Files Content) (n : Int)
    (currentFileName : LogString) :
    RollingPolicy → Option (Option RolloverDescription × RollingPolicy × Files Content)
  | .fixedWindow policy =>
      (policy.rollover fails files currentFileName).map fun (description, purged) =>
        (description, .fixedWindow policy, purged)
  | .timeBased policy =>
      let (description, rolled) := policy.rollover n currentFileName
      some (description, .timeBased rolled, files)

end RollingPolicy

end CodeCollect.Log4cxx
