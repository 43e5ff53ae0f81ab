import CodeCollect.Library.Machine
import CodeCollect.Log4cxx.RollingPolicy

namespace CodeCollect.Log4cxx

open CodeCollect.Library

/-- A time based rolling policy may be its own triggering policy. Others decide for each event. -/
inductive TriggeringPolicy where
  | rollingPolicy
  | other
deriving DecidableEq

/-- The open stream of the writer is known by the name of its file. -/
structure RollingFileAppender (Event : Type) where
  fileName : LogString
  fileAppend : Bool
  utf16 : Bool
  closed : Bool
  writer : Option LogString
  rollingPolicy : RollingPolicy
  triggeringPolicy : TriggeringPolicy
  files : Files (Content Event)

/-- One call of `append` sees one reading of the clock and the fate of each file operation. -/
structure AppendCall (Event : Type) where
  event : Event
  now : Int
  triggers : Bool
  fails : FileOperation → Bool

namespace RollingFileAppender

variable {Event : Type}

/-- A write through an open stream goes to the end of its file. -/
def appendRecord (files : Files (Content Event)) (path : LogString) (text : Record Event) :
    Files (Content Event) :=
  fun name => if name = path then (files path).map fun content => content.record text
    else files name

def write (self : RollingFileAppender Event) (text : Record Event) : RollingFileAppender Event :=
  match self.writer with
  | none => self
  | some path => { self with files := appendRecord self.files path text }

def closeWriter (self : RollingFileAppender Event) : RollingFileAppender Event :=
  match self.writer with
  | none => self
  | some _ => { self.write .footer with writer := none }

/-- This is the constructor of `FileOutputStream`, which creates its file or truncates it. -/
def openStream (files : Files (Content Event)) (path : LogString) (append : Bool) :
    Files (Content Event) :=
  files.put path (if append then (files path).getD .empty else .empty)

def setFile (self : RollingFileAppender Event) (filename : LogString) (append : Bool) :
    RollingFileAppender Event :=
  let closed := self.closeWriter
  let writeBOM := closed.utf16 && (!append || !File.exists' closed.files filename)
  let opened :=
    { closed with
      files := openStream closed.files filename append
      writer := some filename
      fileAppend := append
      fileName := filename }
  (if writeBOM then opened.write .byteOrderMark else opened).write .header

/-- The result is missing when an exception leaves one of the activations. -/
def activateOptions (self : RollingFileAppender Event) (activated initialized : Int) :
    Option (RollingFileAppender Event) :=
  (self.rollingPolicy.activateOptions activated).map fun policy =>
    -- The first description of both policies has no actions.
    let (policy, description) :=
      policy.initializePolicy initialized self.fileName self.fileAppend
    let described :=
      { self with
        rollingPolicy := policy
        fileName := description.activeFileName
        fileAppend := description.append }
    if described.fileName.isEmpty then described
    else described.setFile described.fileName described.fileAppend

/-- An absent action succeeds, and a missing result is an exception. -/
def perform (fails : FileOperation → Bool) (files : Files (Content Event)) :
    Option Action → Option Bool × Files (Content Event)
  | none => (some true, files)
  | some action => action.execute fails files

/-- This branch of `rollover` is for a description that keeps the active file. -/
def rolloverSameFile (self : RollingFileAppender Event) (fails : FileOperation → Bool)
    (description : RolloverDescription) : RollingFileAppender Event :=
  let closed := self.closeWriter
  let synchronous := perform fails closed.files description.synchronous
  if synchronous.1 = some true then
    let asynchronous := perform fails synchronous.2 description.asynchronous
    let acted : RollingFileAppender Event := { closed with files := asynchronous.2 }
    if asynchronous.1.isNone then acted
    else acted.setFile description.activeFileName description.append
  else
    let unchanged : RollingFileAppender Event := { closed with files := synchronous.2 }
    unchanged.setFile description.activeFileName true

/-- The other branch opens the new file before it closes the old one. -/
def rolloverOtherFile (self : RollingFileAppender Event) (fails : FileOperation → Bool)
    (description : RolloverDescription) : RollingFileAppender Event :=
  let opened : RollingFileAppender Event :=
    { self with
      files := openStream self.files description.activeFileName description.append }
  let switched : RollingFileAppender Event :=
    { opened.closeWriter with
      fileName := description.activeFileName
      writer := some description.activeFileName }
  let synchronous := perform fails switched.files description.synchronous
  if synchronous.1 = some true then
    let asynchronous := perform fails synchronous.2 description.asynchronous
    let acted : RollingFileAppender Event := { switched with files := asynchronous.2 }
    if asynchronous.1.isNone then acted else acted.write .header
  else
    let unchanged : RollingFileAppender Event := { switched with files := synchronous.2 }
    unchanged.write .header

def rollover (self : RollingFileAppender Event) (now : Int) (fails : FileOperation → Bool) :
    RollingFileAppender Event :=
  match self.rollingPolicy.rollover fails self.files now self.fileName with
  | none => self
  | some (none, policy, files) => { self with rollingPolicy := policy, files }
  | some (some description, policy, files) =>
      let rolling := { self with rollingPolicy := policy, files }
      if description.activeFileName = self.fileName then
        rolling.rolloverSameFile fails description
      else rolling.rolloverOtherFile fails description

def isTriggeringEvent (self : RollingFileAppender Event) (call : AppendCall Event) : Bool :=
  match self.triggeringPolicy, self.rollingPolicy with
  | .rollingPolicy, .timeBased policy => policy.isTriggeringEvent call.now
  | _, _ => call.triggers

def subAppend (self : RollingFileAppender Event) (call : AppendCall Event) :
    RollingFileAppender Event :=
  let rolled :=
    if self.isTriggeringEvent call then self.rollover call.now call.fails else self
  rolled.write (.event call.event)

def checkEntryConditions (self : RollingFileAppender Event) : Bool :=
  !self.closed && self.writer.isSome

def append (self : RollingFileAppender Event) (call : AppendCall Event) :
    RollingFileAppender Event :=
  if self.checkEntryConditions then self.subAppend call else self

end RollingFileAppender

end CodeCollect.Log4cxx
